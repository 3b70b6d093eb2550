import HotScript.Code.Chunk
import HotScript.Code.Pool
import HotScript.Host.Descriptor
import HotScript.Ordered
import HotScript.Table
import HotScript.Text.Slice

/-!
Compiled functions, classes and files.
-/

namespace HotScript

/-- A compiled function. -/
structure FunctionCode where
  name : String := ""
  chunk : Chunk := {}
  pool : Pool := {}
  /-- The first stack slots hold the captures of a lambda. -/
  captures : Nat := 0
  arity : Nat := 0
  defaults : Nat := 0
  /-- Where to start when arguments are left out: entry `i` computes the defaults from the `i`th
  default on, the last entry is the body.  Empty without defaults. -/
  entries : List Nat := []
  stackSize : Nat := 0
  argNames : List String := []
  argTypes : List StaticType := []
  result : StaticType := .unresolved
  isStatic : Bool := false
  isCoroutine : Bool := false
  usesSelf : Bool := false
  /-- The lambdas it makes, by place in the class. -/
  lambdas : List Nat := []
  line : Nat := 0
deriving Inhabited

namespace FunctionCode

def least (f : FunctionCode) : Nat := f.arity - f.defaults

/-- Where a call with `n` arguments starts. -/
def entry (f : FunctionCode) (n : Nat) : Nat :=
  (f.entries[min (n - f.least) (f.entries.length - 1)]?).getD 0

def desc (f : FunctionCode) : MethodDesc :=
  { name := f.name
    arguments := (f.argNames.zip f.argTypes).map fun a => .ofType a.1 a.2
    defaults := f.defaults
    result := .ofType "" f.result
    flags := MethodFlag.normal.bit ||| (if f.isStatic then MethodFlag.static.bit else 0) |||
      (if f.isCoroutine then MethodFlag.coroutine.bit else 0) }

end FunctionCode

structure Slot where
  name : String
  index : Nat
  type : StaticType
  getter : Option String := none
  setter : Option String := none
  exported : Bool := false
  line : Nat := 0
deriving Inhabited

def Slot.desc (s : Slot) : PropertyDesc :=
  { PropertyDesc.ofType s.name s.type with
    usage := Usage.scriptVariable ||| (if s.exported then Usage.standard else 0) }

inductive BaseCode
  | native (name : String)
  | script (cls : ClassRef)
deriving DecidableEq, Repr

/-- A compiled class. -/
structure ClassCode where
  ref : ClassRef
  globalName : Option String := none
  base : BaseCode
  native : String
  members : Table String Slot := {}
  /-- How many slots the bases use. -/
  baseMembers : Nat := 0
  statics : Table String Slot := {}
  constants : Table String Value := {}
  inner : Table String Nat := {}
  signals : Table String MethodDesc := {}
  functions : Table String FunctionCode := {}
  lambdas : Array FunctionCode := #[]
  init : Option FunctionCode := none
  staticInit : Option FunctionCode := none
  capabilities : Nat := 0
  lines : Table String Nat := {}
  outer : Option Nat := none
  icon : Option String := none

namespace ClassCode

def memberCount (c : ClassCode) : Nat := c.baseMembers + c.members.size

def bySlot (slots : List Slot) : List Slot := orderBy (·.index) slots

def membersInOrder (c : ClassCode) : List Slot := bySlot c.members.values
def staticsInOrder (c : ClassCode) : List Slot := bySlot c.statics.values

def hasCapability (c : ClassCode) (bit : Nat) : Bool := c.capabilities &&& bit != 0

end ClassCode

/-- A compiled file; its head class comes first. -/
structure FileCode where
  path : String
  hash : UInt64
  classes : Array ClassCode
  dependencies : List String

namespace FileCode

def class? (f : FileCode) (i : Nat) : Option ClassCode := f.classes[i]?

def byRef? (f : FileCode) (c : ClassRef) : Option ClassCode := f.classes.toList.find? (·.ref.same c)

/-- Follow a dotted name of nested classes from the head class. -/
def find? (f : FileCode) (qualified : String) : Option Nat :=
  if qualified = "" then (f.class? 0).map fun _ => 0
  else
    (Text.split '.' qualified).foldlM (fun i name => (f.class? i).bind (·.inner.find? name)) 0

end FileCode

end HotScript
