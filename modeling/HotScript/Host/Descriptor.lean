import HotScript.Type.Basic

/-!
Descriptions of properties and methods, as the host and scripts exchange them.
-/

namespace HotScript

inductive MethodFlag
  | normal | static | virtual | const | vararg | coroutine
deriving DecidableEq, Repr

def MethodFlag.bit : MethodFlag → Nat
  | normal => 1
  | static => 2
  | virtual => 4
  | const => 8
  | vararg => 16
  | coroutine => 32

/-- The bits of how a property is exposed: stored and shown. -/
def Usage.standard : Nat := 6

/-- The bit of a property that a script declares. -/
def Usage.scriptVariable : Nat := 4096

structure PropertyDesc where
  name : String
  tag : Tag
  /-- The class or enum of an object or enum, empty otherwise. -/
  className : String := ""
  usage : Nat := Usage.standard
deriving DecidableEq, Repr, Inhabited

def PropertyDesc.ofType (name : String) (t : StaticType) : PropertyDesc :=
  { name
    tag := t.valueTag?.getD .nil
    className :=
      match t.shape with
      | .native c => c
      | .script c => c.name
      | .enum n _ _ => n
      | _ => "" }

structure MethodDesc where
  name : String
  arguments : List PropertyDesc := []
  defaults : Nat := 0
  result : PropertyDesc := { name := "", tag := .nil }
  flags : Nat := MethodFlag.normal.bit
deriving DecidableEq, Repr, Inhabited

namespace MethodDesc

def hasFlag (m : MethodDesc) (f : MethodFlag) : Bool := m.flags &&& f.bit != 0
def isStatic (m : MethodDesc) : Bool := m.hasFlag .static
def isVararg (m : MethodDesc) : Bool := m.hasFlag .vararg

def least (m : MethodDesc) : Nat := m.arguments.length - m.defaults

def accepts (m : MethodDesc) (n : Nat) : Bool :=
  decide (m.least ≤ n) && (m.isVararg || decide (n ≤ m.arguments.length))

end MethodDesc

/-- The methods that change how instances of a class behave, by the bit that records them. -/
def Capability.ofMethod (name : String) : Nat :=
  match name with
  | "_init" => 1
  | "_static_init" => 2
  | "_get" => 4
  | "_set" => 8
  | "_get_property_list" => 16
  | "_notification" => 32
  | "_to_string" => 64
  | _ => 0

def Capability.get : Nat := 4
def Capability.set : Nat := 8
def Capability.propertyList : Nat := 16
def Capability.notification : Nat := 32
def Capability.toText : Nat := 64

end HotScript
