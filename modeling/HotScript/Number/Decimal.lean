
/-!
The decimal text of floats.

`Decimal.shortest` finds the fewest digits that read back as a given float. A decimal reads back
when it lies in the interval of reals that round to the float, whose ends belong to it exactly when
the mantissa is even. For one digit, then two, and so on, the two neighbours of the float on that
decimal grid are tried: the first grid with a hit wins, of two hits the nearer, and a tie goes up.
-/

namespace HotScript

/-- The exact parts of a finite float: its absolute value is `mantissa` · 2^`exponent`. -/
structure Binary where
  negative : Bool
  mantissa : Nat
  exponent : Int
  /-- The bits of the fraction are all zero and the float is normal, so that the next float below
  is nearer than the next one above. -/
  atPower : Bool
deriving Repr, DecidableEq

namespace Binary

/-- The parts of a float that is neither infinite nor NaN. -/
def ofFloat (x : Float) : Binary :=
  let bits : Nat := x.toBits.toNat
  let fraction : Nat := bits % 0x10000000000000
  let biased : Nat := bits / 0x10000000000000 % 2048
  let negative := decide (0x8000000000000000 ≤ bits)
  if biased = 0 then ⟨negative, fraction, -1074, false⟩
  else ⟨negative, fraction + 0x10000000000000, (biased : Int) - 1075, decide (fraction = 0 ∧
    1 < biased)⟩

def toFloat (negative : Bool) (mantissa : Nat) (exponent : Int) : Float :=
  let size := Float.scaleB (Float.ofNat mantissa) exponent
  if negative then -size else size

def whole? (b : Binary) : Option Nat :=
  if 0 ≤ b.exponent then some (b.mantissa <<< b.exponent.toNat)
  else
    let unit := Nat.pow 2 (-b.exponent).toNat
    if b.mantissa % unit = 0 then some (b.mantissa / unit) else none

end Binary

/-- The remainder of `x` by `y` with the sign of `x`: what is left after taking away `y` a whole
number of times, toward zero. -/
def Number.remainder (x y : Float) : Float :=
  if x.isNaN || y.isNaN || x.isInf || y == 0 then 0 / 0
  else if y.isInf then x
  else
    let a := Binary.ofFloat x
    let b := Binary.ofFloat y
    let e := min a.exponent b.exponent
    let left := a.mantissa <<< (a.exponent - e).toNat
    let right := b.mantissa <<< (b.exponent - e).toNat
    Binary.toFloat a.negative (left % right) e

/-- The number 0.d₁d₂… · 10^`point`. -/
structure Decimal where
  digits : List Char
  point : Int
deriving Repr, DecidableEq

namespace Decimal

/-- A positive rational given by numerator and denominator. -/
structure Ratio where
  num : Nat
  den : Nat

/-- The exponent `k` with 10^(k-1) ≤ r < 10^k, found from the digits of the whole part or by scaling
a number below one up, at most `tries` times. -/
def magnitude (r : Ratio) (tries : Nat) : Int :=
  if r.den ≤ r.num then ((Nat.toDigits 10 (r.num / r.den)).length : Int)
  else go r.num r.den 0 tries
where
  go (num den : Nat) (k : Int) : Nat → Int
    | 0 => k
    | n + 1 => if den ≤ num * 10 then k else go (num * 10) den (k - 1) n

/-- The rounding interval of a positive float, all over one denominator: the value lies between
`low` and `high`, whose ends count when `closed`. -/
structure Interval where
  low : Nat
  value : Nat
  high : Nat
  den : Nat
  closed : Bool

/-- The interval of the float `b`.  Neighbours are a unit of the last place away, except below a
power of two, where the one below is half as far. -/
def Interval.ofBinary (b : Binary) : Interval :=
  let scale : Nat := if 0 ≤ b.exponent then Nat.pow 2 b.exponent.toNat else 1
  let den : Nat := if 0 ≤ b.exponent then 4 else 4 * Nat.pow 2 (-b.exponent).toNat
  let below : Nat := if b.atPower then 1 else 2
  { low := (4 * b.mantissa - below) * scale
    value := 4 * b.mantissa * scale
    high := (4 * b.mantissa + 2) * scale
    den := den
    closed := b.mantissa % 2 = 0 }

def Interval.has (i : Interval) (coefficient : Nat) (shift : Int) : Bool :=
  let up := if 0 ≤ shift then Nat.pow 10 shift.toNat else 1
  let down := if 0 ≤ shift then 1 else Nat.pow 10 (-shift).toNat
  let x := coefficient * up * i.den
  let low := i.low * down
  let high := i.high * down
  if i.closed then decide (low ≤ x ∧ x ≤ high) else decide (low < x ∧ x < high)

/-- The neighbour of the value on the grid of multiples of 10^`shift` that reads back, the nearer of
two and the upper of two equally near. -/
def Interval.hit? (i : Interval) (shift : Int) : Option Nat :=
  let up := if 0 ≤ shift then Nat.pow 10 shift.toNat else 1
  let down := if 0 ≤ shift then 1 else Nat.pow 10 (-shift).toNat
  let num := i.value * down
  let den := i.den * up
  let floor := num / den
  let rest := num % den
  match i.has floor shift && decide (0 < floor), i.has (floor + 1) shift with
  | true, true => some (if den ≤ 2 * rest then floor + 1 else floor)
  | true, false => some floor
  | false, true => some (floor + 1)
  | false, false => none

/-- Try grids of `n`, `n + 1`, … significant digits, `tries` of them. -/
def search (i : Interval) (k : Int) (n : Nat) : Nat → Option (Nat × Int)
  | 0 => none
  | tries + 1 =>
    match i.hit? (k - n) with
    | some c => some (c, k - n)
    | none => search i k (n + 1) tries

def trim (digits : List Char) : List Char :=
  (digits.reverse.dropWhile (· == '0')).reverse

/-- The fewest digits that read back as the nonzero float `b`. -/
def shortest (b : Binary) : Decimal :=
  let i := Interval.ofBinary b
  let k := magnitude ⟨i.value, i.den⟩ 400
  match search i k 1 20 with
  | some (c, shift) =>
    let digits := Nat.toDigits 10 c
    ⟨trim digits, shift + digits.length⟩
  | none => ⟨[], 0⟩

def positional (d : Decimal) : List Char :=
  let n := d.digits.length
  if d.point ≤ 0 then
    '0' :: '.' :: List.replicate (-d.point).toNat '0' ++ d.digits
  else
    let k := d.point.toNat
    if n ≤ k then d.digits ++ List.replicate (k - n) '0'
    else d.digits.take k ++ '.' :: d.digits.drop k

end Decimal

/-- What a float's text does with whole numbers. -/
inductive WholeStyle
  /-- They are written like all others: the fewest digits that read back, and no point. -/
  | bare
  /-- They are written exactly, with one zero after the point. -/
  | pointed
deriving DecidableEq, Repr

def Number.text (style : WholeStyle) (x : Float) : String :=
  if x.isNaN then "NaN"
  else if x.isInf then (if x < 0 then "-inf" else "inf")
  else
    let b := Binary.ofFloat x
    let sign := if b.negative then "-" else ""
    let size :=
      match style, b.whole? with
      | .pointed, some n => toString n ++ ".0"
      | _, _ =>
        if b.mantissa = 0 then "0" else String.ofList (Decimal.positional (Decimal.shortest b))
    sign ++ size

end HotScript
