import HotScript.Lower.Class
import HotScript.Value.Fit

/-!
The state of a running project.

Scripts, instances, host objects and callables are kept in stores that only grow; what is alive
among them is a question about who refers to whom. A script is one class of a file, valid once code
was installed in it. Installing again replaces the code and keeps the script.
-/

namespace HotScript

/-- The functions that lambdas of a class currently stand for. -/
structure LambdaTable where
  functions : Array (Option FunctionCode) := #[]
deriving Inhabited

namespace LambdaTable

def ofFunctions (functions : Array FunctionCode) : LambdaTable := ⟨functions.map some⟩

/-- The function at a place; there is none once a replacement dropped it. -/
def get? (t : LambdaTable) (i : Nat) : Option FunctionCode := (t.functions[i]?).bind id

def size (t : LambdaTable) : Nat := t.functions.size

/-- Whether a call made for one function can be taken by the other. -/
def sameShape (f g : FunctionCode) : Bool :=
  f.captures == g.captures && f.arity == g.arity && f.usesSelf == g.usesSelf

/-- What a place stands for after a replacement. -/
def successor (old new : Option FunctionCode) : Option FunctionCode :=
  match old, new with
  | some f, some g => if sameShape f g then some g else none
  | _, _ => none

def retarget (t : LambdaTable) (replacement : Array FunctionCode) : LambdaTable :=
  ⟨t.functions.mapIdx fun i old => successor old replacement[i]?⟩

def kept (t : LambdaTable) : Nat := t.functions.toList.countP (·.isSome)

end LambdaTable

abbrev ScriptId := Nat
abbrev InstanceId := Nat
abbrev LambdasId := Nat

/-- A class of a file. -/
structure Script where
  path : String
  qualified : String
  /-- The name shown: that of the class, or the path of a file without one. -/
  name : String
  /-- The class around it, which it does not keep alive. -/
  outer : Option ScriptId := none
  code : Option ClassCode := none
  /-- The code of the whole file; only the head class has it. -/
  file : Option FileCode := none
  base : Option ScriptId := none
  inner : Table String ScriptId := {}
  /-- All other classes of the file, by place; only the head class has them. -/
  nested : Array (Option ScriptId) := #[]
  lambdas : LambdasId
  isValid : Bool := false
  /-- The initializers of its static variables have been started. -/
  staticsReady : Bool := false
  statics : Array Value := #[]
  /-- The instances made of it, by the object they were attached to; it keeps none of them alive. -/
  instances : Table Nat InstanceId := {}
  source : Source := .empty
  classObject : Option ObjectRef := none
deriving Inhabited

inductive InstanceState
  | created
  | initialized
  | constructed
  | live
  /-- Detached: it answers nothing any more. -/
  | cleared
deriving DecidableEq, Repr, Inhabited

/-- What an object has from its script. -/
structure Instance where
  script : ScriptId
  /-- The object it was attached to, which it does not keep alive. -/
  owner : ObjectRef
  /-- One value for each variable of the class and its bases. -/
  members : Array Value := #[]
  state : InstanceState := .created
deriving Inhabited

inductive HostObject
  | native (properties : Table String Value) (attached : Option InstanceId)
  /-- The object that stands for a script class, which it does not keep alive. -/
  | cls (script : ScriptId)
deriving Inhabited

/-- A function made by a script.  It keeps alive what a lambda captured and nothing else. -/
inductive Closure
  | lambda (table : LambdasId) (place : Nat) (script : ScriptId) (captures : List Value)
    (bound : Option InstanceId)
  | method (bound : InstanceId) (name : String)
  | static (script : ScriptId) (name : String)
deriving Inhabited

/-- A function that is running. -/
structure Activation where
  script : ScriptId
  function : FunctionCode
  bound : Option InstanceId
  stack : Array Value
deriving Inhabited

/-- Something that is alive as long as it is referred to. -/
inductive Cell
  | array (id : Nat)
  | dict (id : Nat)
  | object (id : Nat)
  | closure (id : Nat)
  | script (id : ScriptId)
  | inst (id : InstanceId)
deriving DecidableEq, Repr

structure Handles where
  values : Table String Value := {}
  scripts : Table String ScriptId := {}
  units : Table String UnitId := {}
  instances : Table String InstanceId := {}
deriving Inhabited

/-- Where the scripts of files are found. A file is in `shallow` until it has been compiled together
with what it refers to, then in `full`. -/
structure Cache where
  shallow : Table String ScriptId := {}
  full : Table String ScriptId := {}
  /-- Scripts kept by qualified name. -/
  pinned : Table String ScriptId := {}
  /-- The files that each file refers to and that are still to be compiled with it. -/
  references : Table String (List String) := {}
  dependents : Table String (List String) := {}
  compiling : List String := []
deriving Inhabited

/-- A running project. -/
structure World where
  work : Workspace := {}
  scripts : Array Script := #[]
  instances : Array Instance := #[]
  objects : Array HostObject := #[]
  closures : Array Closure := #[]
  lambdas : Array LambdaTable := #[]
  cache : Cache := {}
  handles : Handles := {}
  frames : List Activation := []
  /-- What operations in progress hold on to. -/
  held : List (List Cell) := []
  depth : Nat := 0
  log : List String := []
  runs : Bool := true
deriving Inhabited

namespace World

variable (w : World)

def heap : Heap := w.work.heap
def registry : Registry := w.work.registry
def settings : Settings := w.work.settings

def script (s : ScriptId) : Script := w.scripts[s]?.getD default
def inst (i : InstanceId) : Instance := w.instances[i]?.getD default
def lambdaTable (t : LambdasId) : LambdaTable := w.lambdas[t]?.getD default

def modifyScript (s : ScriptId) (f : Script → Script) : World :=
  { w with scripts := w.scripts.modify s f }

def modifyInstance (i : InstanceId) (f : Instance → Instance) : World :=
  { w with instances := w.instances.modify i f }

def modifyObject (o : ObjectRef) (f : HostObject → HostObject) : World :=
  { w with objects := w.objects.modify o.id f }

def withHeap (h : Heap) : World := { w with work := { w.work with heap := h } }

def addScript (path qualified name : String) : ScriptId × World :=
  (w.scripts.size,
    { w with
      scripts := w.scripts.push { path, qualified, name, lambdas := w.lambdas.size }
      lambdas := w.lambdas.push {} })

def addObject (className : String) (o : HostObject) : ObjectRef × World :=
  ({ id := w.objects.size, className }, { w with objects := w.objects.push o })

def addClosure (name : String) (c : Closure) : Value × World :=
  (.callable (.custom w.closures.size name), { w with closures := w.closures.push c })

def attached? (o : ObjectRef) : Option InstanceId :=
  match w.objects[o.id]? with
  | some (.native _ attached) => attached
  | _ => none

/-- Attach an instance to an object in place of the one it has; an object that stands for a class
takes none. -/
def attach (o : ObjectRef) (i : Option InstanceId) : World :=
  w.modifyObject o fun
    | .native properties _ => .native properties i
    | other => other

end World

/-- A step on a running project; nothing only when it was cut short. -/
abbrev Live := StateT World Option

abbrev Attempt := ExceptT CallFault Live

namespace Live

/-- Keep cells alive while something is done. -/
def holding {α : Type} (cells : List Cell) (act : Live α) : Live α := do
  modify fun w => { w with held := cells :: w.held }
  let a ← act
  modify fun w => { w with held := w.held.tail }
  return a

/-- Do something with each of a list in turn, knowing what is left. -/
def each {α : Type} (act : α → List α → Live Unit) : List α → Live Unit
  | [] => return
  | x :: rest => do
    act x rest
    each act rest

def onHeap {α : Type} (f : Heap → α × Heap) : Live α :=
  modifyGet fun w =>
    let (a, h) := f w.heap
    (a, w.withHeap h)

def onWork {α : Type} (f : Workspace → Option (α × Workspace)) : Live α := do
  let w ← get
  let (a, work) ← f w.work
  set { w with work }
  return a

end Live

namespace Attempt

def holding {α : Type} (cells : List Cell) (act : Attempt α) : Attempt α :=
  ExceptT.mk (Live.holding cells act.run)

def outcome {α : Type} (act : Attempt α) : Attempt (Except CallFault α) := ExceptT.lift act.run

def sure {α : Type} (act : Live α) : Attempt α := ExceptT.lift act

end Attempt

end HotScript
