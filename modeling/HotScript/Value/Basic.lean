import HotScript.Type.Basic

/-!
Dynamic values.

Arrays and dictionaries are shared: the value holds the place of a cell in the heap. Objects,
callables and signals name things that live outside the value.
-/

namespace HotScript

structure ArrayRef where
  id : Nat
deriving DecidableEq, Repr, Inhabited

structure DictRef where
  id : Nat
deriving DecidableEq, Repr, Inhabited

/-- A host object: its identity and its most derived native class. -/
structure ObjectRef where
  id : Nat
  className : String
deriving DecidableEq, Repr, Inhabited

def ObjectRef.label (o : ObjectRef) : String :=
  "<Object#" ++ toString o.id ++ ">"

inductive Callable
  | method (object : ObjectRef) (name : String)
  /-- A function made by a script: its identity and the name it was made with. -/
  | custom (id : Nat) (name : String)
deriving DecidableEq, Repr

inductive Value
  | nil
  | bool (b : Bool)
  | int (i : Int64)
  | float (x : Float)
  | string (s : String)
  | stringName (s : String)
  | vector2 (x y : Float)
  | vector3 (x y z : Float)
  | array (a : ArrayRef)
  | dictionary (d : DictRef)
  | object (o : ObjectRef)
  | callable (c : Callable)
  | signal (object : ObjectRef) (name : String)
deriving Inhabited, Repr

/-- The float nearest to an integer. -/
def nearestFloat (i : Int64) : Float := .ofInt i.toInt

namespace Value

def tag : Value → Tag
  | nil => .nil
  | bool _ => .bool
  | int _ => .int
  | float _ => .float
  | string _ => .string
  | stringName _ => .stringName
  | vector2 .. => .vector2
  | vector3 .. => .vector3
  | array _ => .array
  | dictionary _ => .dictionary
  | object _ => .object
  | callable _ => .callable
  | signal .. => .signal

def isNil : Value → Bool
  | nil => true
  | _ => false

def int? : Value → Option Int64
  | int i => some i
  | _ => none

def float? : Value → Option Float
  | float x => some x
  | int i => some (nearestFloat i)
  | _ => none

def text? : Value → Option String
  | string s | stringName s => some s
  | _ => none

def object? : Value → Option ObjectRef
  | object o => some o
  | _ => none

end Value

end HotScript
