import HotScript.Value.Convert
import HotScript.Number.Checked
import HotScript.Text.Slice

/-!
Operators on values.

`Operator.resultTag?` says for which kinds of operands an operator is defined and what kind it
gives; `Operator.result?` computes it. Unary operators ignore their second operand. Integer
arithmetic may still have no result, and neither has an ordering with no number.
-/

namespace HotScript

inductive Operator
  | equal | notEqual | less | lessEqual | greater | greaterEqual
  | add | subtract | multiply | divide | negate | positive | module | power
  | shiftLeft | shiftRight | bitAnd | bitOr | bitXor | bitNegate
  | and | or | xor | not
  | isIn
deriving DecidableEq, Repr, Inhabited

namespace Operator

/-- Every operator; the place in the list is its code in compiled functions. -/
def all : List Operator :=
  [equal, notEqual, less, lessEqual, greater, greaterEqual,
    add, subtract, multiply, divide, negate, positive, module, power,
    shiftLeft, shiftRight, bitAnd, bitOr, bitXor, bitNegate,
    and, or, xor, not, isIn]

def code (op : Operator) : Nat := all.idxOf op

def ofCode? (n : Nat) : Option Operator := all[n]?

def spelling : Operator → String
  | equal => "=="
  | notEqual => "!="
  | less => "<"
  | lessEqual => "<="
  | greater => ">"
  | greaterEqual => ">="
  | add => "+"
  | subtract => "-"
  | multiply => "*"
  | divide => "/"
  | negate => "unary-"
  | positive => "unary+"
  | module => "%"
  | power => "**"
  | shiftLeft => "<<"
  | shiftRight => ">>"
  | bitAnd => "&"
  | bitOr => "|"
  | bitXor => "^"
  | bitNegate => "~"
  | and => "and"
  | or => "or"
  | xor => "xor"
  | not => "not"
  | isIn => "in"

def title : Operator → String
  | equal => "Equal"
  | notEqual => "NotEqual"
  | less => "Less"
  | lessEqual => "LessEqual"
  | greater => "Greater"
  | greaterEqual => "GreaterEqual"
  | add => "Add"
  | subtract => "Subtract"
  | multiply => "Multiply"
  | divide => "Divide"
  | negate => "Negate"
  | positive => "Positive"
  | module => "Module"
  | power => "Power"
  | shiftLeft => "ShiftLeft"
  | shiftRight => "ShiftRight"
  | bitAnd => "BitAnd"
  | bitOr => "BitOr"
  | bitXor => "BitXor"
  | bitNegate => "BitNegate"
  | and => "And"
  | or => "Or"
  | xor => "Xor"
  | not => "Not"
  | isIn => "In"

def isUnary : Operator → Bool
  | negate | positive | bitNegate | not => true
  | _ => false

/-! ### Kinds of results -/

/-- Numbers combine to an integer when both are integers and to a float otherwise. -/
def numericTag? : Tag → Tag → Option Tag
  | .int, .int => some .int
  | .int, .float | .float, .int | .float, .float => some .float
  | _, _ => none

/-- Vectors combine with vectors of the same dimension. -/
def vectorTag? : Tag → Tag → Option Tag
  | .vector2, .vector2 => some .vector2
  | .vector3, .vector3 => some .vector3
  | _, _ => none

/-- A vector is scaled by a number on its right. -/
def scaledTag? (v s : Tag) : Option Tag :=
  if (v == .vector2 || v == .vector3) && s.isNumeric then some v else none

/-- The kind of the result, when the operator is defined for the kinds of its operands. -/
def resultTag? (op : Operator) (a b : Tag) : Option Tag :=
  match op with
  | equal | notEqual =>
    if a == b || a == .nil || b == .nil || (a.isNumeric && b.isNumeric) || (a.isText && b.isText)
    then some .bool else none
  | less | lessEqual | greater | greaterEqual =>
    if (a.isNumeric && b.isNumeric) || (a.isText && b.isText) ||
        (a == b && (a == .vector2 || a == .vector3 || a == .bool))
    then some .bool else none
  | add =>
    match a, b with
    | .string, .string => some .string
    | .array, .array => some .array
    | _, _ => numericTag? a b <|> vectorTag? a b
  | subtract => numericTag? a b <|> vectorTag? a b
  | multiply => numericTag? a b <|> vectorTag? a b <|> scaledTag? a b <|> scaledTag? b a
  | divide => numericTag? a b <|> vectorTag? a b <|> scaledTag? a b
  | module => numericTag? a b <|> if a == .string then some .string else none
  | power => numericTag? a b
  | shiftLeft | shiftRight | bitAnd | bitOr | bitXor =>
    if a == .int && b == .int then some .int else none
  | negate | positive =>
    if a.isNumeric || a == .vector2 || a == .vector3 then some a else none
  | bitNegate => if a == .int then some .int else none
  | and | or | xor | not => some .bool
  | isIn =>
    match b with
    | .array | .dictionary | .object => some .bool
    | .string | .stringName => if a.isText then some .bool else none
    | _ => none

/-! ### Values -/

/-- The order of two floats, when neither is NaN. -/
def compareFloats? (x y : Float) : Option Ordering :=
  if x < y then some .lt else if x == y then some .eq else if y < x then some .gt else none

/-- The order of two sequences of floats: the first place where they differ decides. -/
def compareAll? : List Float → List Float → Option Ordering
  | x :: xs, y :: ys =>
    match compareFloats? x y with
    | some .eq => compareAll? xs ys
    | other => other
  | _, _ => some .eq

def compare? : Value → Value → Option Ordering
  | .int x, .int y => some (compare x y)
  | .bool x, .bool y => some (compare x y)
  | .vector2 a b, .vector2 c d => compareAll? [a, b] [c, d]
  | .vector3 a b c, .vector3 d e f => compareAll? [a, b, c] [d, e, f]
  | a, b =>
    match a.text?, b.text? with
    | some x, some y => some (compare x y)
    | _, _ => do compareFloats? (← a.float?) (← b.float?)

/-- Arithmetic by an operation on integers, which may refuse, and one on floats, applied part by
part to vectors. -/
def arithmetic? (onInt : Int64 → Int64 → Option Int64) (onFloat : Float → Float → Float) :
    Value → Value → Option Value
  | .int x, .int y => (onInt x y).map .int
  | .vector2 a b, .vector2 c d => some (.vector2 (onFloat a c) (onFloat b d))
  | .vector3 a b c, .vector3 d e f => some (.vector3 (onFloat a d) (onFloat b e) (onFloat c f))
  | .vector2 a b, s => do
    let s ← s.float?
    some (.vector2 (onFloat a s) (onFloat b s))
  | .vector3 a b c, s => do
    let s ← s.float?
    some (.vector3 (onFloat a s) (onFloat b s) (onFloat c s))
  | s, .vector2 a b => do
    let s ← s.float?
    some (.vector2 (onFloat s a) (onFloat s b))
  | s, .vector3 a b c => do
    let s ← s.float?
    some (.vector3 (onFloat s a) (onFloat s b) (onFloat s c))
  | a, b => do some (.float (onFloat (← a.float?) (← b.float?)))

/-- An integer to a power: exact for exponents that are not negative, by floats otherwise. -/
def power? : Value → Value → Option Value
  | .int x, .int y =>
    if 0 ≤ y then
      if y.toInt < 0x100000000 then (Checked.pow? x y.toInt.toNat).map .int else none
    else some (.float (Float.pow (nearestFloat x) (nearestFloat y)))
  | a, b => do some (.float (Float.pow (← a.float?) (← b.float?)))

def onInts? (f : Int64 → Int64 → Option Int64) (a b : Value) : Option Value := do
  (f (← a.int?) (← b.int?)).map .int

def negate? : Value → Option Value
  | .int x => (Checked.neg? x).map .int
  | .float x => some (.float (-x))
  | .vector2 x y => some (.vector2 (-x) (-y))
  | .vector3 x y z => some (.vector3 (-x) (-y) (-z))
  | _ => none

def member? (h : Heap) (a : Value) : Value → Option Bool
  | .array r => some (h.hasItem r a)
  | .dictionary r => some (h.hasKey r a)
  | .string s | .stringName s => a.text?.map (Text.contains s ·)
  | _ => none

/-- The result on operands of kinds for which the operator is defined. -/
def compute? (op : Operator) (h : Heap) (valid : Callable → Bool) (a b : Value) :
    Option (Value × Heap) :=
  let pure (v : Option Value) : Option (Value × Heap) := v.map (·, h)
  match op with
  | equal => pure (some (.bool (h.equal a b)))
  | notEqual => pure (some (.bool (!h.equal a b)))
  | less => pure ((compare? a b).map fun o => .bool (o == .lt))
  | lessEqual => pure ((compare? a b).map fun o => .bool (o != .gt))
  | greater => pure ((compare? a b).map fun o => .bool (o == .gt))
  | greaterEqual => pure ((compare? a b).map fun o => .bool (o != .lt))
  | add =>
    match a, b with
    | .string x, .string y => pure (some (.string (x ++ y)))
    | .array x, .array y => some (h.arrayOf (h.items x ++ h.items y))
    | _, _ => pure (arithmetic? Checked.add? (· + ·) a b)
  | subtract => pure (arithmetic? Checked.sub? (· - ·) a b)
  | multiply => pure (arithmetic? Checked.mul? (· * ·) a b)
  | divide => pure (arithmetic? Checked.div? (· / ·) a b)
  | module =>
    match a with
    | .string form => pure (some (.string (Text.replaceFirst form "%s" (h.text b))))
    | _ => pure (arithmetic? Checked.rem? Number.remainder a b)
  | power => pure (power? a b)
  | shiftLeft => pure (onInts? Checked.shiftLeft? a b)
  | shiftRight => pure (onInts? Checked.shiftRight? a b)
  | bitAnd => pure (onInts? (fun x y => some (x &&& y)) a b)
  | bitOr => pure (onInts? (fun x y => some (x ||| y)) a b)
  | bitXor => pure (onInts? (fun x y => some (x ^^^ y)) a b)
  | bitNegate => pure (a.int?.map fun x => .int (~~~x))
  | negate => pure (negate? a)
  | positive => pure (some a)
  | and => pure (some (.bool (h.truthy valid a && h.truthy valid b)))
  | or => pure (some (.bool (h.truthy valid a || h.truthy valid b)))
  | xor => pure (some (.bool (h.truthy valid a != h.truthy valid b)))
  | not => pure (some (.bool (!h.truthy valid a)))
  | isIn => pure ((member? h a b).map .bool)

/-- Apply an operator: none when it is not defined for the operands or has no result. -/
def result? (op : Operator) (h : Heap) (valid : Callable → Bool) (a b : Value) :
    Option (Value × Heap) :=
  match op.resultTag? a.tag b.tag with
  | some _ => op.compute? h valid a b
  | none => none

end Operator

end HotScript
