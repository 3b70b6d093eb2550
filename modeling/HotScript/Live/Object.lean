import HotScript.Live.Invoke

/-!
Host objects, and giving them instances.

An object on its own answers for its native class only, and that of a script class for the static
side. An instance is attached before it is constructed, and detached and cleared again when the
construction fails.
-/

namespace HotScript

namespace Live

/-- The storage of a fresh instance: every variable of the chain at the default of its type. -/
def defaultMembers (s : ScriptId) : Live (Array Value) := do
  let w ← get
  let count := ((w.script s).code.map (·.memberCount)).getD 0
  let slots := (w.codeChain s).flatMap fun level => level.2.members.values
  slots.foldlM (fun members slot => return members.setIfInBounds slot.index (← slotDefault
    slot.type)) (Array.replicate count .nil)

def clearInstance (i : InstanceId) : Live Unit :=
  modify fun w => w.modifyInstance i fun s => { s with members := #[], state := .cleared }

def setState (i : InstanceId) (state : InstanceState) : Live Unit :=
  modify fun w => w.modifyInstance i fun s => { s with state }

def instantiate (cls : String) : Live (Option ObjectRef) :=
  modifyGet fun w =>
    if w.registry.canInstantiate cls then
      let (o, w) := w.addObject cls (.native {} none)
      (some o, w)
    else (none, w)

end Live

namespace Attempt

/-! ### Construction -/

def initializeMembers (r : Runner) (i : InstanceId) : Attempt Unit := do
  let w ← get
  (w.chain (w.inst i).script).reverse.forM fun level => do
    match ((← get).script level).code.bind (·.init) with
    | some f => let _ ← r.execute level f (some i) []
    | none => pure ()

/-- Run the initializers of an instance, then `_init` with the arguments. -/
def construct (r : Runner) (i : InstanceId) (args : List Value) : Attempt Unit := do
  initializeMembers r i
  Live.setState i .initialized
  let w ← get
  match w.function? (w.inst i).script "_init" with
  | some (level, f) =>
    let _ ← invoke r level f (some i) args
    Live.setState i .constructed
  | none => if !args.isEmpty then throw (.tooManyArguments "_init" 0 args.length)
  Live.setState i .live

def attachFresh (s : ScriptId) (owner : ObjectRef) : Live InstanceId := do
  let members ← Live.defaultMembers s
  modifyGet fun w =>
    let i := w.instances.size
    let w := { w with instances := w.instances.push { script := s, owner, members } }
    let w := w.attach owner (some i)
    (i, w.modifyScript s fun c => { c with instances := c.instances.insert owner.id i })

def detachFailed (s : ScriptId) (owner : ObjectRef) (i : InstanceId) : Live Unit := do
  Live.clearInstance i
  modify fun w =>
    (w.attach owner none).modifyScript s fun c => { c with instances := c.instances.erase owner.id }

/-- Make an instance of a script for an object. -/
def create (r : Runner) (s : ScriptId) (owner : ObjectRef) (args : List Value) :
    Attempt InstanceId := do
  let w ← get
  let c := w.script s
  match c.code.filter fun _ => c.isValid with
  | none =>
    throw (.execution "instance_create" ("script " ++ Text.quoted c.qualified ++ " is not valid"))
  | some code =>
    if !w.registry.descends owner.className code.native then
      throw (.invalidArgument "instance_create" 0 code.native)
    let i ← attachFresh s owner
    match ← outcome (holding [.object owner.id, .inst i] (construct r i args)) with
    | .ok _ => return i
    | .error fault =>
      detachFailed s owner i
      throw fault

/-- Make an object of the native class of a script, and an instance for it. -/
def newObject (r : Runner) (s : ScriptId) (args : List Value) : Attempt ObjectRef := do
  match (← get).nativeOf? s with
  | none => throw .instanceIsNull
  | some native =>
    match ← Live.instantiate native with
    | none =>
      throw (.execution "new" ("native class " ++ Text.quoted native ++ " cannot be instantiated"))
    | some o =>
      let _ ← holding [.object o.id] (create r s o args)
      return o

def runNative (body : NativeBody) (o : ObjectRef) (args : List Value) : Attempt Value :=
  match body with
  | .returnNil => return .nil
  | .echo => sure (Live.onHeap fun h => h.arrayOf args)
  | .argc => return .int (Int64.ofNat args.length)
  | .className => return .string o.className
  | .fail => throw (.execution "native" "native failure")

def callNative (o : ObjectRef) (name : String) (args : List Value) : Attempt Value := do
  let registry := (← get).registry
  match name with
  | "get_class" => return .string o.className
  | "is_class" =>
    return .bool (registry.descends o.className ((args.head?.bind Value.text?).getD ""))
  | _ =>
    match registry.method? o.className name with
    | none => throw (.invalidMethod name)
    | some m =>
      if args.length < m.least then throw (.tooFewArguments name m.least args.length)
      if !m.isVararg && decide (m.arguments.length < args.length) then
        throw (.tooManyArguments name m.arguments.length args.length)
      match registry.body? o.className name with
      | some body => runNative body o args
      | none => return .nil

def callObject (r : Runner) (o : ObjectRef) (name : String) (args : List Value) :
    Attempt Value := do
  let w ← get
  match w.objects[o.id]? with
  | some (.cls s) =>
    if !w.isScriptAlive s then throw .instanceIsNull
    else
      holding [.script s] <|
        if name = "new" then return .object (← newObject r s args) else callStatic r s name args
  | _ => callNative o name args

end Attempt

namespace Live

/-- Read a property of the host's side of an object. -/
def getProperty (o : ObjectRef) (name : String) : Live (Option Value) := do
  let w ← get
  match w.objects[o.id]? with
  | some (.cls s) => if w.isScriptAlive s then readStatic s name else return none
  | some (.native properties _) =>
    match w.registry.property? o.className name with
    | none => return none
    | some p =>
      match properties.find? name with
      | some v => return some v
      | none => some <$> onHeap fun h => h.defaultOf p.tag
  | none => return none

/-- The value that a property of a kind takes up: converted when that is possible. -/
def propertyValue (h : Heap) (tag : Tag) (v : Value) : Value :=
  if tag == .nil then v else (h.convert v tag).getD v

def setProperty (o : ObjectRef) (name : String) (v : Value) : Live Bool := do
  let w ← get
  match w.objects[o.id]? with
  | some (.cls s) =>
    if w.isScriptAlive s then return (← setStatic s name v).getD false else return false
  | some (.native properties attached) =>
    match w.registry.property? o.className name with
    | none => return false
    | some p =>
      let v := propertyValue w.heap p.tag v
      set (w.modifyObject o fun _ => .native (properties.insert name v) attached)
      return true
  | none => return false

end Live

end HotScript
