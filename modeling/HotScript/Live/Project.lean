import HotScript.Live.Reload
import HotScript.Live.Machine

/-!
Bringing in files, and the running project as a whole.

A file is compiled when its script is first asked for in full, and then the files it refers to are
brought in. Asked for again meanwhile, the script is given as it stands, so files may refer to each
other in a circle. Code that runs can bring in files, and bringing in files runs code.
-/

namespace HotScript

namespace Live

variable (r : Runner)

/-- Let the script of a file be found as compiled, and bring in the files it refers to.  Those that
fail are left out; they fail again when they are used. -/
def finishFile (path : String) : Live Unit := do
  let references := ((← get).cache.references.find? path).getD []
  modify fun w =>
    let c := w.cache
    let c := match c.shallow.find? path with
      | some s => { c with shallow := c.shallow.erase path, full := c.full.insert path s }
      | none => c
    { w with cache := { c with references := c.references.erase path } }
  (references.filter (· != path)).forM fun other => do
    let _ ← r.full other false

/-- Compile a file and what it refers to, unless it is just being compiled. -/
def compileFile (path : String) (s : ScriptId) : Live (Except ScriptFault ScriptId) := do
  if (← get).cache.compiling.contains path then return .ok s
  modify fun w => { w with cache := { w.cache with compiling := w.cache.compiling ++ [path] } }
  let reloaded ← reload r s true
  modify fun w =>
    { w with cache := { w.cache with compiling := w.cache.compiling.filter (· != path) } }
  match reloaded with
  | .error fault => return .error (.reload fault)
  | .ok _ =>
    finishFile r path
    return .ok s

/-- The script of a file with its source read again; it is compiled again when the source
changed. -/
def updateFile (path : String) (s : ScriptId) : Live (Except ScriptFault ScriptId) := do
  let w ← get
  match w.work.source path with
  | .error fault => return .error (.load fault)
  | .ok source =>
    if (w.script s).isValid && source.digest == w.sourceDigest s then return .ok s
    else
      set (w.modifyScript s fun c => { c with source })
      compileFile r path s

/-- The script of a file, compiled; with `update` its source is read again. -/
def fullScript (path : String) (update : Bool) : Live (Except ScriptFault ScriptId) := do
  let cache := (← get).cache
  let found := ((cache.full.find? path).filter fun _ => !update).or
    ((cache.find? path).filter fun _ => cache.compiling.contains path)
  match found with
  | some s => return .ok s
  | none =>
    match ← shallow path none with
    | .error fault => return .error (.load fault)
    | .ok s =>
      holding [.script s] do
        if update then updateFile r path s
        else if ((← get).script s).isValid then
          finishFile r path
          return .ok s
        else compileFile r path s

end Live

/-- Running code and bringing in files, to a depth of `n` in each other; what goes deeper is cut
short. -/
def Runner.within : Nat → Runner
  | 0 => { execute := fun _ _ _ _ => Attempt.sure failure, full := fun _ _ => failure }
  | n + 1 =>
    { execute := fun s f bound args => Attempt.execute (Runner.within n) s f bound args
      full := fun path update => Live.fullScript (Runner.within n) path update }

def Runner.standard : Runner := Runner.within 0x100000000

end HotScript
