import HotScript.Live.Install
import HotScript.Live.Instance

/-!
Reloading: compiling a file again while its classes are in use.

Static variables and the variables of instances are saved by name before and written back after. A
reload that fails leaves the version before it in place. Saved state keeps alive what it names until
its turn has come. When several files are reloaded at once, all of them are saved before the first
is installed, and bases come before what extends them.
-/

namespace HotScript

/-- The state of a file by name: static variables by class, and the variables of instances. -/
structure SavedState where
  statics : List (String × List (String × Value)) := []
  instances : List (InstanceId × List (String × Value)) := []
deriving Inhabited

/-- What saved instances keep alive: themselves and their values. -/
def savedCells (instances : List (InstanceId × List (String × Value))) : List Cell :=
  instances.flatMap fun (i, values) => .inst i :: Live.namedCells values

def SavedState.cells (s : SavedState) : List Cell :=
  s.statics.flatMap (fun (_, values) => Live.namedCells values) ++ savedCells s.instances

/-- What became of each file that was to be reloaded. -/
structure ReloadReport where
  reloaded : List String := []
  failed : List (String × ReloadFault) := []
deriving Inhabited

namespace World

variable (w : World)

/-- The static variables of a class with their values, in the order of their places. -/
def savedStatics (s : ScriptId) : List (String × Value) :=
  match (w.script s).code with
  | none => []
  | some code => code.staticsInOrder.filterMap fun slot =>
      ((w.script s).statics[slot.index]?).map (slot.name, ·)

end World

namespace Live

variable (r : Runner)

/-! ### Saving and writing back -/

def snapshots : List InstanceId → Live (List (InstanceId × List (String × Value)))
  | [] => return []
  | i :: rest => do
    let values ← snapshot r i
    let more ← holding (namedCells values) (snapshots rest)
    return (i, values) :: more

/-- The variables of the instances of classes. Those of a class are looked for when the classes
before it are saved. -/
def saveInstances : List ScriptId → Live (List (InstanceId × List (String × Value)))
  | [] => return []
  | s :: rest => do
    let live := (← get).liveInstances s
    let saved ← holding (live.map .inst) (snapshots r live)
    let more ← holding (savedCells saved) (saveInstances rest)
    return saved ++ more

/-- The state of the file of a head class. It is refused when there are instances and their state is
not to be kept. -/
def saveState (head : ScriptId) (keep : Bool) : Live (Except ReloadFault SavedState) := do
  let w ← get
  let family := w.family head
  let live := family.flatMap w.liveInstances
  if !live.isEmpty && !keep then return .error (.inUse (w.script head).path live.length)
  let saved : SavedState :=
    { statics := family.map fun s => ((w.script s).qualified, w.savedStatics s) }
  let instances ← holding (family.map .script ++ saved.cells) (saveInstances r family)
  return .ok { saved with instances }

def writeStatic (s : ScriptId) (e : String × Value) (_ : List (String × Value)) : Live Unit := do
  let _ ← setStatic s e.1 e.2

def writeStatics (s : ScriptId) : List (String × Value) → Live Unit := each (writeStatic s)

/-- Write static variables back to the class that has the name now. -/
def restoreClass (head : ScriptId) (e : String × List (String × Value))
    (_ : List (String × List (String × Value))) : Live Unit := do
  match (← get).findClass? head e.1 with
  | some s => writeStatics s e.2
  | none => pure ()

def restoreStatics (head : ScriptId) : List (String × List (String × Value)) → Live Unit :=
  each (restoreClass head)

/-- Rebuild an instance, if its class is valid, while it and those behind it are kept alive. -/
def restoreInstance (e : InstanceId × List (String × Value))
    (rest : List (InstanceId × List (String × Value))) : Live Unit := do
  let w ← get
  if (w.script (w.inst e.1).script).isValid then
    holding (.inst e.1 :: savedCells rest) (restore r e.1 e.2)

def restoreInstances : List (InstanceId × List (String × Value)) → Live Unit :=
  each (restoreInstance r)

/-- Write the state of a file back: static variables first, then instances. -/
def restoreState (head : ScriptId) (saved : SavedState) : Live Unit := do
  restoreStatics head saved.statics
  restoreInstances r saved.instances

/-- Compile the file of a head class from the source it has, and install the code. -/
def recompile (head : ScriptId) : Live (Except ReloadFault Unit) := do
  let c := (← get).script head
  match ← compile c.path c.source with
  | .error fault => return .error (.load fault)
  | .ok code => install r head code

/-- Reload the file of a class.  If that fails nothing is written back. -/
def reload (s : ScriptId) (keep : Bool) : Live (Except ReloadFault Unit) := do
  let head := (← get).head s
  holding [.script head] do
    match ← saveState r head keep with
    | .error fault => return .error fault
    | .ok saved =>
      match ← holding saved.cells (recompile r head) with
      | .error fault => return .error fault
      | .ok _ =>
        restoreState r head saved
        return .ok ()

end Live

/-! ### Several files -/

/-- A file whose state is saved and whose source is read, ready to be compiled. -/
structure Prepared where
  path : String
  script : ScriptId
  saved : SavedState

def Prepared.cells (batch : List Prepared) : List Cell :=
  batch.flatMap fun p => .script p.script :: p.saved.cells

namespace Cache

/-- The files among `pending` and all that refer to them, directly or not, in at most `n` steps. -/
def affectedFrom (c : Cache) : Nat → List String → List String → List String
  | 0, _, found => found
  | _, [], found => found
  | n + 1, path :: pending, found =>
    if found.contains path then c.affectedFrom n pending found
    else c.affectedFrom n (c.dependentsOf path ++ pending) (found ++ [path])

/-- Files and all that refer to them, directly or not. -/
def affected (c : Cache) (paths : List String) : List String :=
  c.affectedFrom (paths.length + c.dependentCount) paths []

end Cache

namespace World

variable (w : World)

/-- The scripts of files, those with shorter chains first and then by path. -/
def inReloadOrder (paths : List String) : List (String × ScriptId) :=
  let scripts := paths.filterMap fun path => (w.cache.find? path).map (path, ·)
  let before (a b : String × ScriptId) : Bool :=
    let m := (w.chain a.2).length
    let n := (w.chain b.2).length
    decide (m < n) || (m == n && decide (a.1 ≤ b.1))
  scripts.mergeSort before

end World

namespace Live

variable (r : Runner)

/-- Read a file again and save its state. -/
def prepare (path : String) (s : ScriptId) (keep : Bool) :
    Live (Except ReloadFault SavedState) := do
  match (← get).work.source path with
  | .error fault => return .error (.load fault)
  | .ok source =>
    match ← saveState r s keep with
    | .error fault => return .error fault
    | .ok saved =>
      modify fun w => w.modifyScript s fun c => { c with source }
      return .ok saved

/-- Prepare files one after the other; those that fail go into the report. -/
def prepareAll (keep : Bool) (report : ReloadReport) (batch : List Prepared) :
    List (String × ScriptId) → Live (ReloadReport × List Prepared)
  | [] => return (report, batch)
  | (path, script) :: rest => do
    match ← holding (Prepared.cells batch) (prepare r path script keep) with
    | .error fault =>
      prepareAll keep { report with failed := report.failed ++ [(path, fault)] } batch rest
    | .ok saved => prepareAll keep report (batch ++ [{ path, script, saved }]) rest

/-- Compile and install prepared files one after the other. -/
def recompileAll (report : ReloadReport) : List Prepared → Live ReloadReport
  | [] => return report
  | p :: rest => do
    match ← recompile r p.script with
    | .ok _ => recompileAll { report with reloaded := report.reloaded ++ [p.path] } rest
    | .error fault => recompileAll { report with failed := report.failed ++ [(p.path, fault)] } rest

def restoreFile (p : Prepared) (rest : List Prepared) : Live Unit :=
  holding (.script p.script :: Prepared.cells rest) (restoreState r p.script p.saved)

/-- Write the state of prepared files back one after the other, also where compiling failed. -/
def restoreAll : List Prepared → Live Unit := each (restoreFile r)

/-- Drop the units of some files and reload others in the given order. -/
def reloadOrdered (paths : List String) (keep : Bool) (files : List (String × ScriptId)) :
    Live ReloadReport := do
  modify fun w => paths.foldl (fun w path => w.removeUnit path) w
  let (report, batch) ← prepareAll r keep {} [] files
  let report ← holding (Prepared.cells batch) (recompileAll r report batch)
  restoreAll r batch
  return report

/-- Read files again and reload them together with everything that refers to them. -/
def reloadFiles (paths : List String) (keep : Bool) : Live ReloadReport := do
  let w ← get
  reloadOrdered r paths keep (w.inReloadOrder (w.cache.affected paths))

/-- Reload every file that has a script. -/
def reloadAll : Live ReloadReport := do
  let w ← get
  let paths := (w.cache.scripts.map fun s => (w.script s).path).mergeSort (· ≤ ·)
  reloadFiles r paths.eraseDups w.settings.keepState

end Live

end HotScript
