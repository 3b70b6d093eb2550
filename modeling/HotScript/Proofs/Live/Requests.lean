import HotScript.Live.Project

/-!
What a host asks of a running project.

A request that fails is answered like any other, so a whole session is the requests one after the
other (`Live.serve`).
-/

namespace HotScript

/-- What a host may ask of a running project. -/
inductive Request
  /-- The files now hold this, and these texts are programs. -/
  | write (files : Table String FileContent) (programs : Table String Program)
  | setSource (s : ScriptId) (source : Source)
  /-- The script of a file; with `update` the file is looked at again. -/
  | load (path : String) (update : Bool)
  | reload (s : ScriptId) (keep : Bool)
  | reloadFiles (paths : List String) (keep : Bool)
  | reloadAll
  | createLambda (s : ScriptId) (place : Nat) (captures : List Value) (bound : Option InstanceId)
  | callValue (c : Callable) (args : List Value)
  | callStatic (s : ScriptId) (name : String) (args : List Value)
  | callMethod (i : InstanceId) (name : String) (args : List Value)
  | newObject (s : ScriptId) (args : List Value)
  | getMember (i : InstanceId) (name : String)
  | setMember (i : InstanceId) (name : String) (v : Value)

namespace Live

def perform : Request → Live Unit
  | .write files programs => modify fun w => { w with work := { w.work with files, programs } }
  | .setSource s source => modify fun w => w.modifyScript s fun c => { c with source }
  | .load path update => do let _ ← fullScript .standard path update
  | .reload s keep => do let _ ← reload .standard s keep
  | .reloadFiles paths keep => do let _ ← reloadFiles .standard paths keep
  | .reloadAll => do let _ ← reloadAll .standard
  | .createLambda s place captures bound => do let _ ← createLambda s place captures bound
  | .callValue c args => do let _ ← (Attempt.callCallable .standard c args).run
  | .callStatic s name args => do let _ ← (Attempt.callStatic .standard s name args).run
  | .callMethod i name args => do let _ ← (Attempt.callMethod .standard i name args).run
  | .newObject s args => do let _ ← (Attempt.newObject .standard s args).run
  | .getMember i name => do let _ ← getMember .standard i name
  | .setMember i name v => do let _ ← setByName .standard i name v

def serve (requests : List Request) : Live Unit := requests.forM perform

end Live

end HotScript
