import HotScript.Live.Retain

/-!
Scripts: the classes of a file among each other, bases, and what is declared where.

A name is searched through the chain of a script, which is the script followed by its bases.
-/

namespace HotScript

namespace World

variable (w : World)

/-! ### The classes of a file -/

def outer? (s : ScriptId) : Option ScriptId := (w.script s).outer.filter w.isScriptAlive

def outermost : Nat → ScriptId → ScriptId
  | 0, s => s
  | n + 1, s =>
    match w.outer? s with
    | some outer => outermost n outer
    | none => s

def head (s : ScriptId) : ScriptId := w.outermost w.scripts.size s

def isHead (s : ScriptId) : Bool := (w.outer? s).isNone

/-- A head class followed by the other classes of its file. -/
def family (s : ScriptId) : List ScriptId := s :: (w.script s).nested.toList.filterMap id

def classAt? (s : ScriptId) (place : Nat) : Option ScriptId :=
  let head := w.head s
  if place = 0 then some head else ((w.script head).nested[place]?).bind id

def inward? (s : ScriptId) (names : List String) : Option ScriptId :=
  names.foldlM (fun s name => (w.script s).inner.find? name) s

/-- The class with a dotted or a qualified name in the file of a class. -/
def findClass? (s : ScriptId) (name : String) : Option ScriptId :=
  let head := w.head s
  match Text.dropStart? name (w.script head).path with
  | some "" => some head
  | some rest => w.inward? head (Text.splitBy (Text.trimStart rest "::") "::")
  | none => w.inward? head (Text.split '.' name)

def memberClass? (s : ScriptId) (cls : ClassRef) : Option ScriptId :=
  ((w.classAt? s cls.index).filter fun c => (w.script c).qualified == cls.qualified).or
    (w.findClass? s cls.qualified)

def fileCode? (s : ScriptId) : Option FileCode := (w.script (w.head s)).file

def chainFrom : Nat → Option ScriptId → List ScriptId
  | 0, _ => []
  | _, none => []
  | n + 1, some s => s :: chainFrom n (w.script s).base

/-- A script followed by its bases, the most derived first. -/
def chain (s : ScriptId) : List ScriptId := w.chainFrom w.scripts.size (some s)

def codeChain (s : ScriptId) : List (ScriptId × ClassCode) :=
  (w.chain s).filterMap fun level => (w.script level).code.map (level, ·)

def inherits (s base : ScriptId) : Bool := (w.chain s).contains base

def inheritsClass (s : ScriptId) (cls : ClassRef) : Bool :=
  (w.codeChain s).any fun level => level.2.ref.same cls

def nativeOf? (s : ScriptId) : Option String := (w.script s).code.map (·.native)

def hasCapability (s : ScriptId) (bit : Nat) : Bool :=
  (w.script s).code.any (·.hasCapability bit)

/-- The most derived function of a name and the script that declares it. -/
def function? (s : ScriptId) (name : String) : Option (ScriptId × FunctionCode) :=
  (w.codeChain s).findSome? fun level => (level.2.functions.find? name).map (level.1, ·)

def hasMethod (s : ScriptId) (name : String) : Bool := (w.function? s name).isSome

def slot? (s : ScriptId) (name : String) : Option Slot :=
  (w.codeChain s).findSome? fun level => level.2.members.find? name

def staticSlot? (s : ScriptId) (name : String) : Option (ScriptId × Slot) :=
  (w.codeChain s).findSome? fun level => (level.2.statics.find? name).map (level.1, ·)

def hasConstant (s : ScriptId) (name : String) : Bool :=
  (w.chain s).any fun level =>
    (w.script level).code.any (·.constants.contains name) || (w.script level).inner.contains name

/-- The functions of the chain by name, without those made by the compiler. -/
def methodList (s : ScriptId) : List MethodDesc :=
  let add (found : Table String MethodDesc) (c : ClassCode) : Table String MethodDesc :=
    c.functions.entries.foldl
      (fun found e => if Text.startsWith e.1 "@" then found else found.insertNew e.1 e.2.desc) found
  (((w.codeChain s).map (·.2)).foldl add {}).values.mergeSort fun a b => decide (a.name ≤ b.name)

/-- The instance variables of the chain in the order of their slots. -/
def slots (s : ScriptId) : List Slot :=
  (w.codeChain s).reverse.flatMap fun level => level.2.membersInOrder

def propertyList (s : ScriptId) : List PropertyDesc := (w.slots s).map (·.desc)

def signalList (s : ScriptId) : List MethodDesc :=
  ((w.codeChain s).flatMap fun level => level.2.signals.values).mergeSort
    fun a b => decide (a.name ≤ b.name)

def hasSignal (s : ScriptId) (name : String) : Bool :=
  (w.codeChain s).any fun level => level.2.signals.contains name

def memberNames (s : ScriptId) : List String :=
  ((w.script s).code.map fun c => c.membersInOrder.map (·.name)).getD []

def memberLine? (s : ScriptId) (name : String) : Option Nat :=
  (w.script s).code.bind (·.lines.find? name)

def liveInstances (s : ScriptId) : List InstanceId :=
  (w.script s).instances.values.filter w.isInstanceAlive

def hasInstance (s : ScriptId) (o : ObjectRef) : Bool := (w.script s).instances.contains o.id

def canInstantiate (s : ScriptId) : Bool :=
  (w.script s).isValid && (w.script s).code.any fun c => w.registry.canInstantiate c.native

def owner? (i : InstanceId) : Option ObjectRef := some (w.inst i).owner |>.filter w.isObjectAlive

def scriptOf? (o : ObjectRef) : Option ScriptId := (w.attached? o).map fun i => (w.inst i).script

def kinship : Kinship :=
  { descends := w.registry.descends
    isInstance := fun o cls => (w.scriptOf? o).any fun s => w.inheritsClass s cls }

/-- Whether an object itself, leaving its instance aside, has a method. -/
def objectHas (o : ObjectRef) (name : String) : Bool :=
  match w.objects[o.id]? with
  | some (.cls s) => name == "new" || (w.isScriptAlive s && w.hasMethod s name)
  | _ => w.registry.hasMethod o.className name

def instanceHas (i : InstanceId) (name : String) : Bool :=
  w.hasMethod (w.inst i).script name || (w.owner? i).any fun o => w.objectHas o name

def isCallable : Callable → Bool
  | .method o name => w.objectHas o name
  | .custom id _ =>
    match w.closures[id]? with
    | some (.lambda table place s _ bound) =>
      bound.all w.isInstanceAlive && w.isScriptAlive s && ((w.lambdaTable table).get? place).isSome
    | some (.method i name) => w.isInstanceAlive i && w.instanceHas i name
    | some (.static s name) => w.isScriptAlive s && w.hasMethod s name
    | none => false

def truthy (v : Value) : Bool := w.heap.truthy w.isCallable v

end World

end HotScript
