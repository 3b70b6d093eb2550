/-!
Hexadecimal text.
-/

namespace HotScript.Hex

def digit (n : Nat) : Char := Nat.digitChar n

def value? (c : Char) : Option Nat :=
  if '0' ≤ c ∧ c ≤ '9' then some (c.toNat - '0'.toNat)
  else if 'a' ≤ c ∧ c ≤ 'f' then some (c.toNat - 'a'.toNat + 10)
  else if 'A' ≤ c ∧ c ≤ 'F' then some (c.toNat - 'A'.toNat + 10)
  else none

/-- The last `width` digits of a number. -/
def digits : Nat → Nat → List Char
  | 0, _ => []
  | width + 1, n => digits width (n / 16) ++ [digit (n % 16)]

def ofWord (w : UInt64) : String := String.ofList (digits 16 w.toNat)

def ofBytes (bytes : List UInt8) : String :=
  String.ofList (bytes.flatMap fun b => digits 2 b.toNat)

def number? : List Char → Option Nat :=
  List.foldlM (fun acc c => (value? c).map (acc * 16 + ·)) 0

def bytes? : List Char → Option (List UInt8)
  | [] => some []
  | a :: b :: rest => do
    let high ← value? a
    let low ← value? b
    let more ← bytes? rest
    some (UInt8.ofNat (high * 16 + low) :: more)
  | [_] => none

end HotScript.Hex
