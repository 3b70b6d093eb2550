import HotScript.Type.Spelling
import HotScript.Value.Basic

/-!
The constants of a function.

Adding a constant that is there already gives its place. Floats are the same when they are equal or
both no number, and types when their texts are. Containers, objects and callables always get a place
of their own. A place is a 32 bit number: past the last one places start over.
-/

namespace HotScript

inductive Constant
  | value (v : Value)
  | name (s : String)
  | type (t : StaticType)
  | cls (c : ClassRef)
  | native (s : String)
deriving Inhabited

namespace Constant

def value? : Constant → Option Value
  | value v => some v
  | _ => none

def name? : Constant → Option String
  | name s | native s => some s
  | _ => none

def type? : Constant → Option StaticType
  | type t => some t
  | _ => none

def sameFloat (x y : Float) : Bool := x == y || (x.isNaN && y.isNaN)

def sameValue : Value → Value → Bool
  | .nil, .nil => true
  | .bool a, .bool b => a == b
  | .int a, .int b => a == b
  | .float a, .float b => sameFloat a b
  | .string a, .string b => a == b
  | .stringName a, .stringName b => a == b
  | .vector2 a b, .vector2 c d => sameFloat a c && sameFloat b d
  | .vector3 a b c, .vector3 d e f => sameFloat a d && sameFloat b e && sameFloat c f
  | _, _ => false

def same : Constant → Constant → Bool
  | value a, value b => sameValue a b
  | name a, name b => a == b
  | type a, type b => a.spelled == b.spelled
  | cls a, cls b => a.same b
  | native a, native b => a == b
  | _, _ => false

end Constant

/-- The constants of a function. -/
structure Pool where
  constants : Array Constant := #[]
deriving Inhabited

namespace Pool

def size (p : Pool) : Nat := p.constants.size
def get? (p : Pool) (i : Nat) : Option Constant := p.constants[i]?

/-- The place of a constant, which is added unless it is there. -/
def add (p : Pool) (c : Constant) : UInt32 × Pool :=
  match p.constants.findIdx? (·.same c) with
  | some i => (.ofNat i, p)
  | none => (.ofNat p.constants.size, ⟨p.constants.push c⟩)

end Pool

end HotScript
