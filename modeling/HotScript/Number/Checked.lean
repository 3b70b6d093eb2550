/-!
Arithmetic on 64-bit signed words that refuses to wrap.

Each operation computes over the integers and asks for the word that holds the result. Shifts are
the exception: they move bits within the word, and refuse only an amount outside 0 to 63.
-/

namespace HotScript.Checked

def Fits (x : Int) : Prop :=
  Int64.minValue.toInt ≤ x ∧ x ≤ Int64.maxValue.toInt

instance (x : Int) : Decidable (Fits x) :=
  inferInstanceAs (Decidable (_ ∧ _))

def word? (x : Int) : Option Int64 :=
  if Fits x then some (Int64.ofInt x) else none

def add? (a b : Int64) : Option Int64 :=
  word? (a.toInt + b.toInt)

def sub? (a b : Int64) : Option Int64 :=
  word? (a.toInt - b.toInt)

def mul? (a b : Int64) : Option Int64 :=
  word? (a.toInt * b.toInt)

def neg? (a : Int64) : Option Int64 :=
  word? (-a.toInt)

/-- The quotient rounded toward zero. -/
def div? (a b : Int64) : Option Int64 :=
  if b = 0 then none else word? (a.toInt.tdiv b.toInt)

/-- The remainder of `div?`, which takes the sign of `a`.  It is refused together with the quotient:
the least word has no remainder by -1. -/
def rem? (a b : Int64) : Option Int64 :=
  if (div? a b).isSome then word? (a.toInt.tmod b.toInt) else none

/-- The power with a natural exponent. From an exponent of 64 on, only 0, 1 and -1 have a power that
fits, so larger ones are not multiplied out. -/
def pow? (a : Int64) (n : Nat) : Option Int64 :=
  if n < 64 then word? (a.toInt.pow n)
  else if a = 0 then some 0
  else if a = 1 then some 1
  else if a = -1 then some (if n % 2 = 0 then 1 else -1)
  else none

def shiftAmount? (b : Int64) : Option Int64 :=
  if 0 ≤ b ∧ b < 64 then some b else none

def shiftLeft? (a b : Int64) : Option Int64 :=
  (shiftAmount? b).map (a <<< ·)

def shiftRight? (a b : Int64) : Option Int64 :=
  (shiftAmount? b).map (a >>> ·)

theorem word?_eq_some_iff {x : Int} {w : Int64} : word? x = some w ↔ w.toInt = x := by
  constructor
  · intro h
    by_cases hx : Fits x
    · rw [word?, if_pos hx] at h
      obtain rfl := Option.some.inj h
      have h2 := hx.2
      simp only [Int64.toInt_maxValue] at h2
      exact Int64.toInt_ofInt_of_le (by simpa using hx.1) (by omega)
    · rw [word?, if_neg hx] at h
      cases h
  · rintro rfl
    have hx : Fits w.toInt := ⟨Int64.minValue_le_toInt w, by simpa using Int64.toInt_le w⟩
    rw [word?, if_pos hx, Int64.ofInt_toInt]

end HotScript.Checked
