import HotScript.Analysis.Unit
import HotScript.Host.Registry
import HotScript.Source.File

/-!
The workspace: files, what the host offers, and the units read so far.

How text becomes a tree is not decided here: a workspace is given the programs it may meet, each the
text it is written in with a function from the path it is read under to its tree.
-/

namespace HotScript

/-- A program: the tree it has as the file at a path. Literals that are containers are made anew
each time it is read. -/
abbrev Program := String → Heap → Reading × Heap

/-- An event in the life of a unit, with the status that the unit had after it, and where it had
failed. -/
structure JournalEntry where
  unit : UnitId
  status : UnitStatus
  failedAt : Option UnitStatus
  event : UnitEvent

/-- The files of a project and what was found out about them. -/
structure Workspace where
  settings : Settings := {}
  registry : Registry := {}
  heap : Heap := {}
  files : Table String FileContent := {}
  programs : Table String Program := {}
  units : Array FileUnit := #[]
  unitOf : Table String UnitId := {}
  /-- What happened to the units, the latest first. -/
  journal : List JournalEntry := []
deriving Inhabited

namespace Workspace

/-- A unit; an unknown number has an empty one. -/
def unit (w : Workspace) (id : UnitId) : FileUnit := w.units[id]?.getD default

def modifyUnit (w : Workspace) (id : UnitId) (f : FileUnit → FileUnit) : Workspace :=
  { w with units := w.units.modify id f }

def addUnit (w : Workspace) (path : String) : UnitId × Workspace :=
  (w.units.size, { w with units := w.units.push { path } })

def unitAt? (w : Workspace) (path : String) : Option UnitId := w.unitOf.find? path

def placeUnit (w : Workspace) (path : String) (id : UnitId) : Workspace :=
  { w with unitOf := w.unitOf.insert path id }

/-- Let a path lead to no unit; the unit it had is abandoned. -/
def dropUnit (w : Workspace) (path : String) : Workspace :=
  match w.unitAt? path with
  | none => w
  | some id =>
    { w.modifyUnit id fun u => { u with abandoned := true } with unitOf := w.unitOf.erase path }

/-- Let something happen to a unit, and note it in the journal. -/
def happen (w : Workspace) (id : UnitId) (e : UnitEvent) : Workspace :=
  if id < w.units.size then
    let u := (w.unit id).apply e
    { w.modifyUnit id (·.apply e) with
      journal := { unit := id, status := u.status, failedAt := u.failedAt, event := e } ::
        w.journal }
  else w

/-- End a stage of a unit that had so many errors before; the unit fails there if it has more
now. -/
def endStage (w : Workspace) (id : UnitId) (stage : UnitStatus) (before : Nat) : Workspace :=
  let w := if before < (w.unit id).errorCount then w.happen id (.failed stage) else w
  w.happen id (.ended stage)

/-- Make a class unusable from outside its unit's own stages. The unit fails where it stands, at the
earliest where bases are solved. -/
def poison (w : Workspace) (id : UnitId) (cls : ClassId) (d : Diagnostic) : Workspace :=
  let base := (((w.unit id).classFacts? cls).map (·.base)).getD .variant
  let w := (w.happen id (.spoiled cls base)).happen id (.reported d)
  let u := w.unit id
  match u.failedAt with
  | some _ => w
  | none =>
    w.happen id (.failed (if u.status.reaches .inheritanceSolved then u.status
      else .inheritanceSolved))

def readText (w : Workspace) (path text : String) : Reading × Workspace :=
  match w.programs.find? text with
  | none => ({ diagnostics := [.reading ("unexpected source in " ++ path) {}] }, w)
  | some program =>
    let (reading, heap) := program path w.heap
    (reading, { w with heap })

def readBytes (w : Workspace) (path : String) (bytes : List UInt8) : Reading × Workspace :=
  match Text.ofBytes? bytes with
  | some text => w.readText path text
  | none => ({ diagnostics := [.reading "binary script buffer is not valid" {}] }, w)

/-- Read a source into a unit. -/
def readInto (w : Workspace) (id : UnitId) (source : Source) : Except LoadFault Unit × Workspace :=
  let path := (w.unit id).path
  let take (read : Reading × Workspace) : Except LoadFault Unit × Workspace :=
    (((read.2.unit id).install read.1 source.digest).1,
      (read.2.modifyUnit id fun u => (u.install read.1 source.digest).2).happen id .read)
  match source with
  | .empty => (.error (.invalidScript path), w)
  | .text s => take (w.readText path s)
  | .binary b => take (w.readBytes path b)

def source (w : Workspace) (path : String) : Except LoadFault Source :=
  Source.load w.settings w.files path

def openUnit (w : Workspace) (path : String) : Except LoadFault UnitId × Workspace :=
  match w.unitAt? path with
  | some id => (.ok id, w)
  | none =>
    match w.source path with
    | .error fault => (.error fault, w)
    | .ok source =>
      let (id, w) := w.addUnit path
      let (read, w) := w.readInto id source
      (read.map fun _ => id, w.placeUnit path id)

end Workspace

end HotScript
