import HotScript.Live.Cache
import HotScript.Live.Invoke

/-!
Installing compiled code in the scripts of a file.

The scripts stay the same and only their code changes. All bases are linked before the first class
is replaced: when one has another layout than the code was compiled for, nothing changes.
-/

namespace HotScript

namespace World

variable (w : World)

def nestedByName (head : ScriptId) : Table String ScriptId :=
  ((w.family head).drop 1).foldl (fun t s => t.insert (w.script s).qualified s) {}

/-- The scripts for the classes of a file: the head class, and for each other class the script with
its qualified name or a fresh one. -/
def scriptsFor (head : ScriptId) (code : FileCode) : List ScriptId × World :=
  let path := (w.script head).path
  let previous := w.nestedByName head
  let add (acc : List ScriptId × World) (c : ClassCode) : List ScriptId × World :=
    match previous.find? c.ref.qualified with
    | some s => (acc.1 ++ [s], acc.2)
    | none =>
      let (s, w) := acc.2.addScript path c.ref.qualified c.ref.name
      (acc.1 ++ [s], w)
  (code.classes.toList.drop 1).foldl add ([head], w)

/-- Put the code of a class into its script. Lambdas made before are pointed at the new
functions. -/
def swapClass (s : ScriptId) (c : ClassCode) (base : Option ScriptId) (scripts : List ScriptId)
    (statics : Array Value) : World :=
  match w.scripts[s]? with
  | none => w
  | some x =>
    let lambdas := w.lambdas.modify x.lambdas (·.retarget c.lambdas)
    let x := { x with
        outer := c.outer.bind fun i => scripts[i]?
        code := some c
        base
        inner := ⟨c.inner.entries.filterMap fun e => scripts[e.2]?.map (e.1, ·)⟩
        lambdas := lambdas.size
        isValid := true
        staticsReady := false
        statics }
    { w with
      lambdas := lambdas.push (.ofFunctions c.lambdas)
      scripts := w.scripts.setIfInBounds s x }

def registerGlobal (s : ScriptId) : World :=
  match (w.script s).code.bind fun c => c.globalName.map (c, ·) with
  | none => w
  | some (c, name) =>
    let base := match c.base with
      | .native native => native
      | .script cls => cls.name
    let entry : GlobalClass := { name, path := (w.script s).path, base, icon := c.icon }
    { w with work := { w.work with registry := w.registry.addGlobal entry } }

end World

namespace Live

variable (r : Runner)

/-- The script of a class in another file, which is brought in, if it is valid then. -/
def externalBase (cls : ClassRef) : Live (Option ScriptId) := do
  match ← r.full cls.path false with
  | .error _ => return none
  | .ok file =>
    let w ← get
    return (w.memberClass? file cls).filter fun s => (w.script s).isValid

/-- The script of the base of a class, which must have the layout the class was compiled for. -/
def linkBase (path : String) (scripts : List ScriptId) (code : FileCode) (c : ClassCode) :
    Live (Except ReloadFault (Option ScriptId)) := do
  match c.base with
  | .native _ => return .ok none
  | .script cls =>
    let linked ← if cls.path = path then
        pure (scripts[cls.index]?.map (·, code.class? cls.index))
      else do
        let base ← externalBase r cls
        let w ← get
        pure (base.map fun s => (s, (w.script s).code))
    match linked with
    | some (base, layout) =>
      if c.baseMembers = (layout.map (·.memberCount)).getD 0 then return .ok (some base)
      else return .error (.link path cls.qualified)
    | none => return .error (.link path cls.qualified)

/-- The bases of all classes, in order; the first class without one is the fault. -/
def linkBases (path : String) (scripts : List ScriptId) (code : FileCode) :
    List ClassCode → Live (Except ReloadFault (List (Option ScriptId)))
  | [] => return .ok []
  | c :: rest => do
    match ← linkBase r path scripts code c with
    | .error fault => return .error fault
    | .ok base => return (← linkBases path scripts code rest).map (base :: ·)

def staticDefaults (c : ClassCode) : Live (Array Value) :=
  c.staticsInOrder.foldlM
    (fun statics slot => do
      let v ← slotDefault slot.type
      let missing := slot.index + 1 - statics.size
      return (statics ++ Array.replicate missing Value.nil).setIfInBounds slot.index v)
    #[]

/-- Run the static initializer of a class and its `_static_init`, after those of its bases in the
same file, once. When they fail the static variables keep what they have. -/
def runStatics : Nat → ScriptId → Live Unit
  | 0, _ => return
  | n + 1, s => do
    let w ← get
    let c := w.script s
    if !c.staticsReady then
      set (w.modifyScript s fun c => { c with staticsReady := true })
      match c.base.filter fun base => (w.script base).path == c.path with
      | some base => runStatics n base
      | none => pure ()
      match c.code with
      | none => pure ()
      | some code =>
        (code.staticInit.toList ++ (code.functions.find? "_static_init").toList).forM fun f => do
          let _ ← (r.execute s f none []).run

/-- Install the code of a file in its head class and the other classes. Classes that the code no
longer has are let go at the end. -/
def install (head : ScriptId) (code : FileCode) : Live (Except ReloadFault Unit) := do
  let path := ((← get).script head).path
  let previous := (← get).nestedByName head
  let scripts ← modifyGet fun w => w.scriptsFor head code
  holding ((scripts ++ previous.values).map .script) do
    match ← linkBases r path scripts code code.classes.toList with
    | .error fault => return .error fault
    | .ok bases =>
      let parts := scripts.zip (code.classes.toList.zip bases)
      parts.forM fun (s, c, base) => do
        let statics ← staticDefaults c
        modify fun w => w.swapClass s c base scripts statics
      modify fun w => w.modifyScript head fun x =>
        { x with nested := (none :: (scripts.drop 1).map some).toArray, file := some code }
      scripts.forM (runStatics r (scripts.length + 1))
      modify fun w => w.registerGlobal head
      return .ok ()

end Live

end HotScript
