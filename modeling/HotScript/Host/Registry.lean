import HotScript.Host.Descriptor
import HotScript.Table
import HotScript.Value.Basic

/-!
What the host offers to scripts.

Native classes form a forest, kept newest first, so a parent stands behind its classes and
`Registry.ancestryIn` walks the list once. Everything about a class is answered by the nearest class
of its ancestry that knows.
-/

namespace HotScript

inductive NativeBody
  | returnNil
  | echo
  | argc
  | className
  | fail
deriving DecidableEq, Repr

structure NativeMethod where
  desc : MethodDesc
  body : Option NativeBody := none
deriving Repr, Inhabited

structure NativeClass where
  name : String
  parent : Option String := none
  methods : Table String NativeMethod := {}
  properties : Table String PropertyDesc := {}
  signals : Table String MethodDesc := {}
  enums : Table String EnumValues := {}
  /-- Integer constants, those of enums included. -/
  constants : Table String Int64 := {}
  instantiable : Bool := true
deriving Inhabited

namespace NativeClass

def withMethod (c : NativeClass) (m : NativeMethod) : NativeClass :=
  { c with methods := c.methods.insert m.desc.name m }

def withProperty (c : NativeClass) (p : PropertyDesc) : NativeClass :=
  { c with properties := c.properties.insert p.name p }

def withSignal (c : NativeClass) (m : MethodDesc) : NativeClass :=
  { c with signals := c.signals.insert m.name m }

def withConstant (c : NativeClass) (name : String) (value : Int64) : NativeClass :=
  { c with constants := c.constants.insert name value }

/-- Add an enum; its entries also become constants of the class. -/
def withEnum (c : NativeClass) (name : String) (values : EnumValues) : NativeClass :=
  { c with
    constants := values.foldl (fun t e => t.insert e.1 e.2) c.constants
    enums := c.enums.insert name values }

end NativeClass

structure GlobalClass where
  name : String
  path : String
  /-- The base as written: a native class or another global name. -/
  base : String
  icon : Option String := none
deriving DecidableEq, Repr, Inhabited

inductive RegistrationFault
  | duplicateClass (name : String)
  | unknownParent (name parent : String)
deriving DecidableEq, Repr

def RegistrationFault.message : RegistrationFault → String
  | duplicateClass name => "class already registered: " ++ name
  | unknownParent name parent =>
    "cannot register " ++ name ++ ": parent class " ++ parent ++ " is unknown"

structure Registry where
  classes : List NativeClass := []
  builtinMethods : Table (Tag × String) MethodDesc := {}
  builtinMembers : Table (Tag × String) Tag := {}
  utilities : Table String MethodDesc := {}
  constants : Table String Value := {}
  singletons : Table String String := {}
  globals : Table String GlobalClass := {}
deriving Inhabited

namespace Registry

def class? (r : Registry) (name : String) : Option NativeClass :=
  r.classes.find? (·.name == name)

def hasClass (r : Registry) (name : String) : Bool := (r.class? name).isSome

def addClass (r : Registry) (c : NativeClass) : Except RegistrationFault Registry :=
  if r.hasClass c.name then .error (.duplicateClass c.name)
  else
    match c.parent with
    | some p =>
      if r.hasClass p then .ok { r with classes := c :: r.classes }
      else .error (.unknownParent c.name p)
    | none => .ok { r with classes := c :: r.classes }

/-- A class followed by its ancestors, in a list where parents stand behind their children. -/
def ancestryIn : List NativeClass → String → List NativeClass
  | [], _ => []
  | c :: older, name =>
    if c.name == name then
      c :: (match c.parent with
        | some p => ancestryIn older p
        | none => [])
    else ancestryIn older name

def ancestry (r : Registry) (name : String) : List NativeClass :=
  ancestryIn r.classes name

def parent? (r : Registry) (name : String) : Option String :=
  (r.class? name).bind (·.parent)

def descends (r : Registry) (name ancestor : String) : Bool :=
  (r.ancestry name).any (·.name == ancestor)

def children (r : Registry) (name : String) : List String :=
  (r.classes.filter (·.parent == some name)).map (·.name)

/-- The answer of the nearest class of the ancestry that has one. -/
def nearest? {α : Type} (r : Registry) (name : String) (f : NativeClass → Option α) : Option α :=
  (r.ancestry name).findSome? f

def method? (r : Registry) (cls name : String) : Option MethodDesc :=
  r.nearest? cls fun c => (c.methods.find? name).map (·.desc)

/-- The body of a method: that of the nearest class that has one. -/
def body? (r : Registry) (cls name : String) : Option NativeBody :=
  r.nearest? cls fun c => (c.methods.find? name).bind (·.body)

def signal? (r : Registry) (cls name : String) : Option MethodDesc :=
  r.nearest? cls fun c => c.signals.find? name

def property? (r : Registry) (cls name : String) : Option PropertyDesc :=
  r.nearest? cls fun c => c.properties.find? name

def enum? (r : Registry) (cls name : String) : Option EnumValues :=
  r.nearest? cls fun c => c.enums.find? name

def constant? (r : Registry) (cls name : String) : Option Int64 :=
  r.nearest? cls fun c => c.constants.find? name

def enumOf? (r : Registry) (cls name : String) : Option String :=
  r.nearest? cls fun c =>
    (c.enums.entries.find? fun e => e.2.any (·.1 == name)).map (·.1)

def hasMethod (r : Registry) (cls name : String) : Bool := (r.method? cls name).isSome
def hasSignal (r : Registry) (cls name : String) : Bool := (r.signal? cls name).isSome
def hasProperty (r : Registry) (cls name : String) : Bool := (r.property? cls name).isSome
def hasEnum (r : Registry) (cls name : String) : Bool := (r.enum? cls name).isSome
def hasConstant (r : Registry) (cls name : String) : Bool := (r.constant? cls name).isSome

def canInstantiate (r : Registry) (name : String) : Bool :=
  (r.class? name).any (·.instantiable)

/-- All methods of a class and its ancestors by name, those of derived classes first. -/
def methods (r : Registry) (name : String) : List MethodDesc :=
  ((r.ancestry name).flatMap fun c => c.methods.values.map (·.desc)).mergeSort
    fun a b => decide (a.name ≤ b.name)

def properties (r : Registry) (name : String) : List PropertyDesc :=
  ((r.ancestry name).flatMap fun c => c.properties.values).mergeSort
    fun a b => decide (a.name ≤ b.name)

def builtinMethod? (r : Registry) (t : Tag) (name : String) : Option MethodDesc :=
  r.builtinMethods.find? (t, name)

def builtinMember? (r : Registry) (t : Tag) (name : String) : Option Tag :=
  r.builtinMembers.find? (t, name)

def utility? (r : Registry) (name : String) : Option MethodDesc := r.utilities.find? name
def globalConstant? (r : Registry) (name : String) : Option Value := r.constants.find? name
def singleton? (r : Registry) (name : String) : Option String := r.singletons.find? name
def global? (r : Registry) (name : String) : Option GlobalClass := r.globals.find? name

def globalForPath? (r : Registry) (path : String) : Option GlobalClass :=
  r.globals.values.find? (·.path == path)

def addGlobal (r : Registry) (g : GlobalClass) : Registry :=
  { r with globals := r.globals.insert g.name g }

def removeGlobal (r : Registry) (name : String) : Registry :=
  { r with globals := r.globals.erase name }

def addBuiltinMethod (r : Registry) (t : Tag) (m : MethodDesc) : Registry :=
  { r with builtinMethods := r.builtinMethods.insert (t, m.name) m }

def addBuiltinMember (r : Registry) (t : Tag) (name : String) (member : Tag) : Registry :=
  { r with builtinMembers := r.builtinMembers.insert (t, name) member }

def addUtility (r : Registry) (m : MethodDesc) : Registry :=
  { r with utilities := r.utilities.insert m.name m }

def addConstant (r : Registry) (name : String) (v : Value) : Registry :=
  { r with constants := r.constants.insert name v }

def addSingleton (r : Registry) (name cls : String) : Registry :=
  { r with singletons := r.singletons.insert name cls }

end Registry

end HotScript
