import HotScript.Live.Script

/-!
Where scripts and units are found, and who depends on whom.

A file has at most one unit and one script. When a unit is dropped, the units of all files that
refer to it go with it.
-/

namespace HotScript

namespace Cache

def record (c : Cache) (owner : String) (paths : List String) : Cache :=
  let add (t : Table String (List String)) (key entry : String) : Table String (List String) :=
    let known := (t.find? key).getD []
    t.insert key (if known.contains entry then known else known ++ [entry])
  (paths.filter (· != owner)).foldl
    (fun c path =>
      { c with
        references := add c.references owner path
        dependents := add c.dependents path owner })
    c

def dependentCount (c : Cache) : Nat := c.dependents.values.foldl (fun n l => n + l.length) 0

def dependentsOf (c : Cache) (path : String) : List String := (c.dependents.find? path).getD []

def find? (c : Cache) (path : String) :
    Option ScriptId := (c.full.find? path).or (c.shallow.find? path)

def scripts (c : Cache) : List ScriptId := c.full.values ++ c.shallow.values

end Cache

namespace World

variable (w : World)

/-- Drop the units of files and of the files that refer to them, at most `n` of them. -/
def dropUnits : Nat → List String → World → World
  | 0, _, w => w
  | _, [], w => w
  | n + 1, path :: pending, w =>
    let more := (w.cache.dependentsOf path).filter (· != path)
    dropUnits n (more ++ pending)
      { w with
        work := w.work.dropUnit path
        cache := { w.cache with dependents := w.cache.dependents.erase path } }

/-- Drop the unit of a file and, in turn, those of the files that refer to it. -/
def removeUnit (path : String) : World := dropUnits (w.cache.dependentCount + 1) [path] w

/-- Forget the script of a file and drop its unit. -/
def removeScript (path : String) : World :=
  let w := w.removeUnit path
  { w with
    cache :=
      { w.cache with
        shallow := w.cache.shallow.erase path
        full := w.cache.full.erase path
        references := w.cache.references.erase path
        pinned := ⟨w.cache.pinned.entries.filter fun e => (w.script e.2).path != path⟩ } }

/-- Drop all units and forget all scripts. -/
def clearCache : World :=
  { w with
    work :=
      { w.work.unitOf.keys.foldl (fun work path => work.dropUnit path) w.work with unitOf := {} }
    cache := {} }

def renameFile (s : ScriptId) (path : String) : World :=
  let head := w.head s
  let old := (w.script head).path
  (w.family head).foldl
    (fun w s => w.modifyScript s fun c =>
      { c with
        path
        qualified := ((Text.dropStart? c.qualified old).map (path ++ ·)).getD c.qualified
        name := if c.name = old then path else c.name })
    w

def moveEntry (source target : String) (map : Cache → Table String ScriptId)
    (put : Cache → Table String ScriptId → Cache) : World :=
  match (map w.cache).find? source with
  | none => w
  | some s =>
    let w := w.renameFile s target
    { w with cache := put w.cache (((map w.cache).erase source).insert target s) }

def renameIn (source target : String) (paths : List String) : List String :=
  if paths.contains source then
    let rest := paths.filter (· != source)
    if rest.contains target then rest else rest ++ [target]
  else paths

/-- Let a file go by another path: its script, and what was recorded about the file, are found
there from now on. Its unit is dropped. -/
def moveScript (source target : String) : World :=
  if source = target then w
  else
    let owners := w.cache.dependents.find? source
    let w := w.removeUnit source
    let w := w.moveEntry source target (·.shallow) fun c t => { c with shallow := t }
    let w := w.moveEntry source target (·.full) fun c t => { c with full := t }
    let references := match w.cache.references.find? source with
      | some paths => (w.cache.references.erase source).insert target paths
      | none => w.cache.references
    let dependents := match owners with
      | some paths => w.cache.dependents.insert target paths
      | none => w.cache.dependents
    let rename (t : Table String (List String)) : Table String (List String) :=
      ⟨t.entries.map fun e => (e.1, renameIn source target e.2)⟩
    let rekey (t : Table String ScriptId) (e : String × ScriptId) : Table String ScriptId :=
      let name := (w.script e.2).qualified
      if name = e.1 then t else (t.erase e.1).insert name e.2
    { w with
      cache :=
        { w.cache with
          references := rename references
          dependents := rename dependents
          pinned := w.cache.pinned.entries.foldl rekey w.cache.pinned } }

/-- The digest of the source a class was compiled from or is to be compiled from. -/
def sourceDigest (s : ScriptId) : UInt64 := (w.script (w.head s)).source.digest

/-! ### Scripts of files -/

/-- The scripts of the classes of a file, none of them valid yet; gives the head class. -/
def addFile (tree : Tree) : ScriptId × World :=
  let (head, w) := w.addScript tree.path tree.head.qualified (tree.head.name?.getD tree.path)
  let add (acc : Array (Option ScriptId) × World) (c : ClassDecl) : Array (Option ScriptId) ×
      World :=
    let (s, w) := acc.2.addScript tree.path c.qualified (c.name?.getD "")
    (acc.1.push (some s), w)
  let (nested, w) := (tree.classes.toList.drop 1).foldl add (#[none], w)
  let link (w : World) (c : ClassDecl) : World :=
    match (nested[c.id]?).bind id, c.outer with
    | some s, some outer =>
      let outer := ((nested[outer]?).bind id).getD head
      (w.modifyScript s fun x => { x with outer := some outer }).modifyScript outer fun x =>
        { x with inner := x.inner.insert (w.script s).name s }
    | _, _ => w
  let w := (tree.classes.toList.drop 1).foldl link w
  (head, w.modifyScript head fun x => { x with nested })

end World

namespace Live

/-- The script of a file, at least with the outline of its classes. An owner is noted to refer to
the file. -/
def shallow (path : String) (owner : Option String) : Live (Except LoadFault ScriptId) := do
  match owner with
  | some owner => modify fun w => { w with cache := w.cache.record owner [path] }
  | none => pure ()
  match (← get).cache.find? path with
  | some s => return .ok s
  | none =>
    match ← onWork fun work => work.getUnit path .parsed with
    | .error fault => return .error fault
    | .ok unit =>
      let w ← get
      match (w.work.unit unit).tree, w.work.source path with
      | none, _ => return .error (.invalidScript path)
      | some _, .error fault => return .error fault
      | some tree, .ok source =>
        let (s, w) := w.addFile tree
        let w := w.modifyScript s fun c => { c with source }
        set { w with cache := { w.cache with shallow := w.cache.shallow.insert path s } }
        return .ok s

/-- A unit for a source: the one that is there, if it was read from the same source and has not
failed, or a fresh one. -/
def unitFor (path : String) (source : Source) : Live (Except LoadFault UnitId) := do
  let w ← get
  let usable := (w.work.unitAt? path).filter fun id =>
    let u := w.work.unit id
    u.digest == source.digest && !u.isFailed && u.status != .empty
  match usable with
  | some id => return .ok id
  | none =>
    let w := w.removeUnit path
    let (id, work) := w.work.addUnit path
    let (read, work) := work.readInto id source
    set { w with work := work.placeUnit path id }
    return read.map fun _ => id

/-- Compile a file from a source, or from what it holds if that is empty, and record the files
that the code depends on. -/
def compile (path : String) (source : Source) : Live (Except LoadFault FileCode) := do
  let w ← get
  match if source.isEmpty then w.work.source path else .ok source with
  | .error fault => return .error fault
  | .ok source =>
    match ← unitFor path source with
    | .error fault => return .error fault
    | .ok id =>
      match ← onWork fun work => work.raiseUnit id .fullySolved with
      | .error fault => return .error fault
      | .ok _ =>
        match ← onWork fun work => work.compile id with
        | .error cause => return .error (.compilationFailed path cause)
        | .ok code =>
          modify fun w =>
            { w with
              work := w.work.modifyUnit id (·.releaseDependencies)
              cache := w.cache.record path code.dependencies }
          return .ok code

/-- Keep a valid script by its qualified name. -/
def pin (s : ScriptId) : Live (Except LoadFault Unit) :=
  modifyGet fun w =>
    let c := w.script s
    if c.isValid then
      (.ok (), { w with cache := { w.cache with pinned := w.cache.pinned.insert c.qualified s } })
    else (.error (.invalidScript c.path), w)

end Live

end HotScript
