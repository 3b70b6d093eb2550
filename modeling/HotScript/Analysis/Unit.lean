import HotScript.Analysis.Facts
import HotScript.Report.Fault

/-!
The unit of one file: its tree and everything the analysis found out about it.

A unit climbs from `empty` to `fullySolved`, one status at a time. The status is raised before the
work of a stage is done, so a request that comes back meanwhile does not start the stage again. A
stage that reported errors marks the unit as failed there: whoever asks for that status, or a higher
one, is refused.
-/

namespace HotScript

inductive UnitStatus
  | empty | parsed | inheritanceSolved | interfaceSolved | fullySolved
deriving DecidableEq, Repr, Inhabited

namespace UnitStatus

def rank : UnitStatus → Nat
  | empty => 0
  | parsed => 1
  | inheritanceSolved => 2
  | interfaceSolved => 3
  | fullySolved => 4

def ofRank? : Nat → Option UnitStatus
  | 0 => some empty
  | 1 => some parsed
  | 2 => some inheritanceSolved
  | 3 => some interfaceSolved
  | 4 => some fullySolved
  | _ => none

def next? (s : UnitStatus) : Option UnitStatus := ofRank? (s.rank + 1)

def reaches (s t : UnitStatus) : Bool := decide (t.rank ≤ s.rank)

def name : UnitStatus → String
  | empty => "EMPTY"
  | parsed => "PARSED"
  | inheritanceSolved => "INHERITANCE_SOLVED"
  | interfaceSolved => "INTERFACE_SOLVED"
  | fullySolved => "FULLY_SOLVED"

end UnitStatus

/-- The number of a unit.  A file that is read again gets a new unit. -/
abbrev UnitId := Nat

structure FileUnit where
  path : String
  status : UnitStatus := .empty
  tree : Option Tree := none
  digest : UInt64 := 0
  /-- Files it refers to, in the order they were found. -/
  dependencies : List String := []
  diagnostics : List Diagnostic := []
  /-- The stage that reported errors. -/
  failedAt : Option UnitStatus := none
  classes : Array ClassFacts := #[]
  nodes : NodeFacts := {}
  depended : Table String UnitId := {}
  /-- Members whose resolution has begun and not ended. -/
  resolving : List (ClassId × String) := []
  /-- No longer the unit of its path. -/
  abandoned : Bool := false
deriving Inhabited

namespace FileUnit

def errors (u : FileUnit) : List Diagnostic := u.diagnostics.filter (·.isError)

def warnings (u : FileUnit) : List Diagnostic := u.diagnostics.filter fun d => !d.isError

def warningsOf (u : FileUnit) (w : Warning) : List Diagnostic :=
  u.warnings.filter (·.warning? == some w)

def errorCount (u : FileUnit) : Nat := u.diagnostics.countP (·.isError)

def report (u : FileUnit) (d : Diagnostic) : FileUnit :=
  { u with diagnostics := u.diagnostics ++ [d] }

def isFailed (u : FileUnit) : Bool := u.failedAt.isSome

def failure (u : FileUnit) (stage : UnitStatus) : LoadFault :=
  if stage = .parsed then .parseFailed u.path u.errors else .analysisFailed u.path u.errors

def classFacts? (u : FileUnit) (id : ClassId) : Option ClassFacts := u.classes[id]?

def modifyClass (u : FileUnit) (id : ClassId) (f : ClassFacts → ClassFacts) : FileUnit :=
  { u with classes := u.classes.modify id f }

def classRef? (u : FileUnit) (id : ClassId) : Option ClassRef := (u.classFacts? id).map (·.ref)

def head? (u : FileUnit) : Option ClassRef := u.classRef? 0

def inheritanceOf (u : FileUnit) (id : ClassId) : InheritanceState :=
  ((u.classFacts? id).map (·.inheritance)).getD .invalid

def stageOf? (u : FileUnit) (id : ClassId) : Option ClassStage := (u.classFacts? id).map (·.stage)

def member? (u : FileUnit) (id : ClassId) (name : String) : Option MemberFacts :=
  (u.classFacts? id).bind (·.members.find? name)

def addDependency (u : FileUnit) (path : String) (other : UnitId) : FileUnit :=
  if path == u.path then u
  else
    { u with
      dependencies := if u.dependencies.contains path then u.dependencies
        else u.dependencies ++ [path]
      depended := u.depended.insert path other }

def releaseDependencies (u : FileUnit) : FileUnit := { u with depended := {} }

/-- The identity of a class of a file.  The head class without a name goes by the path. -/
def refOf (path : String) (c : ClassDecl) : ClassRef :=
  { path, qualified := c.qualified, index := c.id
    name := if c.isHead then c.name?.getD path else c.name?.getD "" }

def install (u : FileUnit) (r : Reading) (digest : UInt64) : Except LoadFault Unit × FileUnit :=
  let u := { u with digest, diagnostics := r.diagnostics, dependencies := r.dependencies }
  if r.hasErrors then
    (.error (.parseFailed u.path r.diagnostics),
      { u with failedAt := some .parsed, status := .parsed })
  else
    match r.tree with
    | none => (.error (.invalidScript u.path), u)
    | some tree =>
      (.ok (),
        { u with
          tree := some tree
          classes := tree.classes.map fun c => { ref := refOf u.path c }
          nodes := {}
          failedAt := none
          status := .parsed })

def fileFacts (u : FileUnit) (found : NodeFacts) : FileUnit :=
  { u with
    nodes :=
      { exprs := u.nodes.exprs.merge found.exprs
        locals := u.nodes.locals.merge found.locals
        functions := u.nodes.functions.merge found.functions
        typeTests := u.nodes.typeTests.merge found.typeTests
        unsafeLines := found.unsafeLines.foldl (fun l n => NodeFacts.insertLine n l)
          u.nodes.unsafeLines } }

end FileUnit

inductive UnitEvent
  | read
  | began (stage : UnitStatus)
  | ended (stage : UnitStatus)
  | reported (d : Diagnostic)
  | failed (stage : UnitStatus)
  | answered (status : UnitStatus) (granted : Bool)
  | inheriting (cls : ClassId)
  | inherits (cls : ClassId) (base : StaticType) (native : Option String)
  /-- A class is unusable; the base that is left to it. -/
  | spoiled (cls : ClassId) (base : StaticType)

def FileUnit.apply (u : FileUnit) : UnitEvent → FileUnit
  | .read | .ended _ | .answered .. => u
  | .began stage => { u with status := stage }
  | .reported d => u.report d
  | .failed stage => { u with failedAt := some stage }
  | .inheriting id =>
    u.modifyClass id fun c => { c with inheritance := .resolving, base := .resolving }
  | .inherits id base native =>
    u.modifyClass id fun c => { c with inheritance := .resolved, base, native }
  | .spoiled id base => u.modifyClass id fun c => { c with inheritance := .invalid, base }

end HotScript
