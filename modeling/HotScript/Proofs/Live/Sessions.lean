import HotScript.Proofs.Live.Batches
import HotScript.Proofs.Live.Requests

/-!
Everything that can become of a project.

What holds at the start, with nothing loaded, and is kept by every request, also one that fails,
holds at all times (`World.Reached.sound`).
-/

namespace HotScript

/-- What a host can ask for: the programs it writes are read as trees with a head class, and a class
that it has reloaded belongs to a file whose script is found. -/
def Request.Fair (w : World) : Request → Prop
  | .write _ programs => ∀ text program, programs.find? text = some program → program.Rooted
  | .reload s _ => ∃ path, w.cache.find? path = some (w.head s)
  | _ => True

namespace World

structure Start (w : World) : Prop where
  scripts : w.scripts = #[]
  cache : w.cache = {}
  units : w.work.units = #[]
  unitOf : w.work.unitOf = {}
  programs : ∀ text program, w.work.programs.find? text = some program → program.Rooted

/-- What can become of a project that a host works with. -/
inductive Reached : World → Prop
  | start {w : World} (h : w.Start) : Reached w
  | asked {w w' : World} (h : Reached w) (request : Request) (fair : request.Fair w)
      (run : Live.perform request w = some ((), w')) : Reached w'

/-- What can become of a state that a host goes on from. -/
inductive Becomes (w : World) : World → Prop
  | refl : Becomes w w
  | asked {v v' : World} (h : Becomes w v) (request : Request) (fair : request.Fair v)
      (run : Live.perform request v = some ((), v')) : Becomes w v'

/-- The scripts of files are still found, and what was noted when a file was compiled still
holds. -/
structure Minds (w w' : World) : Prop where
  cached : ∀ path s, w.cache.find? path = some s → w'.cache.find? path = some s
  records : ∀ c, w.Records c → w'.Records c

theorem Kept.minds {w w' : World} {replaced read : List String} (h : w.Kept replaced read w') :
    w.Minds w' := ⟨h.cached, h.records⟩

theorem Start.sound {w : World} (h : w.Start) : w.Sound := by
  have hscript (s : ScriptId) : w.script s = default := script_of_ge (by simp [h.scripts])
  have hunit (id : UnitId) : w.work.unit id = default := Workspace.unit_of_ge (by simp [h.units])
  have hnone (path : String) : w.cache.find? path = none := by
    rw [h.cache]
    rfl
  refine ⟨⟨h.programs, fun id => ?_, fun id t ht => ?_, ⟨fun path id hp => ?_, fun id hid => ?_⟩⟩,
    fun path s hs => ?_, fun path s hs => ?_, fun s t ht => ?_, fun s name t ht =>
      ?_, fun s hs => ?_,
    fun s hs => ?_, fun s hs => ?_, fun s hs => ?_, fun s code hs => ?_, fun path s hs => ?_⟩
  · rw [hunit]
    exact FileUnit.faithful_default
  · rw [hunit] at ht
    cases ht
  · rw [h.unitOf] at hp
    cases hp
  · simp [h.units] at hid
  · rw [h.cache] at hs
    cases hs
  · rw [hnone] at hs
    cases hs
  · rw [hscript] at ht
    cases ht
  · rw [hscript] at ht
    cases ht
  · rw [hscript] at hs
    cases hs
  · simp [h.scripts] at hs
  · rw [hscript] at hs
    cases hs
  · rw [hscript] at hs
    cases hs
  · rw [hscript] at hs
    cases hs
  · rw [hnone] at hs
    cases hs

theorem sound_write {w : World} (hw : w.Sound) (files : Table String FileContent)
    {programs : Table String Program}
    (hp : ∀ text program, programs.find? text = some program → program.Rooted) :
    Sound { w with work := { w.work with files, programs } } := by
  have h : w.Calm { w with work := { w.work with files, programs } } :=
    .onWork (fun ht => ⟨hp, ht.faithful, ht.rooted, ⟨ht.placed.placed, ht.placed.owned⟩⟩) rfl
  exact h.sound hw

end World

namespace Live

open World

variable {w w' : World}

theorem sound_of_keeping {α : Type} {m : Live α} {u : Unit} (hm : Evolving World.keeping m)
    (hw : w.Sound) (hc : w.cache.compiling = [])
    (h : (do let _ ← m; pure () : Live Unit) w = some (u, w')) :
    w'.Sound ∧ w'.cache.compiling = [] ∧ w.Minds w' := by
  obtain ⟨a, w1, h1, h⟩ := bind_some.1 h
  cases h
  obtain ⟨hw', hk'⟩ := hm.leads h1 hw
  exact ⟨hw', hk'.compiling.trans hc, hk'.minds⟩

theorem sound_perform {request : Request} (hw : w.Sound) (hc : w.cache.compiling = [])
    (fair : request.Fair w) (h : perform request w = some ((), w')) :
    w'.Sound ∧ w'.cache.compiling = [] ∧ w.Minds w' := by
  have hr := Runner.keeping_standard
  have he := hr.evolving
  cases request with
  | write files programs =>
    cases h
    exact ⟨sound_write hw files fair, hc, fun _ _ hs => hs, fun _ hrecords =>
      hrecords.congr rfl rfl⟩
  | setSource s source =>
    cases h
    obtain ⟨hw', hk'⟩ := sound_setSource hw s source
    exact ⟨hw', hc, hk'.minds⟩
  | load path update =>
    obtain ⟨result, w1, h1, h⟩ := bind_some.1 h
    cases h
    cases update with
    | false =>
      obtain ⟨hw', hk', -⟩ := fullScript_some hr hw h1
      exact ⟨hw', hk'.compiling.trans hc, hk'.minds⟩
    | true =>
      obtain ⟨hw', hk', -⟩ := fullScript_update_some hr hw (hc ▸ List.not_mem_nil) h1
      exact ⟨hw', hk'.compiling.trans hc, hk'.minds⟩
  | reload s keep =>
    obtain ⟨path, hpath⟩ := fair
    obtain ⟨result, w1, h1, h⟩ := bind_some.1 h
    cases h
    obtain ⟨hw', hk', -⟩ := reload_some hr hw hpath h1
    exact ⟨hw', hk'.compiling.trans hc, hk'.minds⟩
  | reloadFiles paths keep =>
    obtain ⟨report, w1, h1, h⟩ := bind_some.1 h
    cases h
    obtain ⟨hw', ⟨_, hk'⟩, -⟩ := reloadFiles_some hr hw h1
    exact ⟨hw', hk'.compiling.trans hc, hk'.minds⟩
  | reloadAll =>
    obtain ⟨report, w1, h1, h⟩ := bind_some.1 h
    cases h
    obtain ⟨hw', ⟨_, hk'⟩, -⟩ := reloadFiles_some hr hw h1
    exact ⟨hw', hk'.compiling.trans hc, hk'.minds⟩
  | createLambda s place captures bound =>
    exact sound_of_keeping (evolving_createLambda _ _ _ _) hw hc h
  | callValue c args => exact sound_of_keeping (Attempt.evolving_callCallable he _ _) hw hc h
  | callStatic s name args => exact sound_of_keeping (Attempt.follows_callStatic he _ _ _) hw hc h
  | callMethod i name args => exact sound_of_keeping (Attempt.follows_callMethod he _ _ _) hw hc h
  | newObject s args => exact sound_of_keeping (Attempt.follows_newObject he _ _) hw hc h
  | getMember i name => exact sound_of_keeping (follows_getMember he _ _) hw hc h
  | setMember i name v => exact sound_of_keeping (follows_setByName he _ _ _) hw hc h

end Live

variable {w : World}

theorem World.Reached.sound (h : w.Reached) : w.Sound ∧ w.cache.compiling = [] := by
  induction h with
  | start h => exact ⟨h.sound, by rw [h.cache]⟩
  | asked _ request fair run ih =>
    obtain ⟨hw', hc', -⟩ := Live.sound_perform ih.1 ih.2 fair run
    exact ⟨hw', hc'⟩

theorem World.Becomes.minds {w' : World} (h : w.Becomes w') (hw : w.Sound)
    (hc : w.cache.compiling = []) : w'.Sound ∧ w'.cache.compiling = [] ∧ w.Minds w' := by
  induction h with
  | refl => exact ⟨hw, hc, fun _ _ hs => hs, fun _ hrecords => hrecords⟩
  | asked _ request fair run ih =>
    obtain ⟨hv, hcv, hminds⟩ := ih
    obtain ⟨hw', hc', hstep⟩ := Live.sound_perform hv hcv fair run
    exact ⟨hw', hc', fun path s hs => hstep.cached path s (hminds.cached path s hs),
      fun c hrecords => hstep.records c (hminds.records c hrecords)⟩

theorem World.Reached.serve {w' : World} (hw : w.Reached) {requests : List Request}
    (fair : ∀ request ∈ requests, ∀ v, request.Fair v)
    (run : Live.serve requests w = some ((), w')) :
    w'.Reached := by
  induction requests generalizing w with
  | nil =>
    cases run
    exact hw
  | cons request requests ih =>
    obtain ⟨_, w1, h1, run⟩ := bind_some.1 run
    refine ih (.asked hw request (fair request (.head _) w) h1) (fun q hq => ?_) run
    exact fair q (.tail _ hq)

theorem World.reached_empty : Reached {} := .start ⟨rfl, rfl, rfl, rfl, nofun⟩

/-! ### Small files -/

def Node.numbered (id : NodeId) : Node := ⟨id, .lines 1 1⟩
def Ident.named (name : String) : Ident := ⟨name, .lines 1 1⟩

/-- A variable without a type, which may be static, with an initializer or read through a
function. -/
def Member.variable (id : NodeId) (name : String) (isStatic : Bool) (initializer : Option Expr)
    (getter : Option String) : Member :=
  .var
    { id, name := .named name, type := none, infer := false, initializer, isStatic
      accessors := match getter with
        | some getter => .named (some (.named getter)) none
        | none => .none
      exported := false }

def Member.number (id : NodeId) (name : String) (isStatic : Bool) (n : Int64) : Member :=
  .variable id name isStatic (some (.literal (.numbered (id + 1)) (.int n))) none

def Member.function (id : NodeId) (name : String) (isStatic : Bool) (body : List Stmt) : Member :=
  .func
    { id, name := .named name, params := [], result := none, body, bodySpan := .lines 1 1,
      isStatic }

/-- A file with a head class, which extends that of another file or none, and with classes inside
it, each of which extends another of them or none. -/
def fileWith (base : Option String) (members : List Member)
    (inner : List (String × Option String × List Member)) (nodes : Nat) : Program := fun path h =>
  let head : ClassDecl :=
    { id := 0, name := none, qualified := path, span := .lines 1 1
      extends? := base.map fun p => ⟨some p, [], .lines 1 1⟩ }
  let head := inner.zipIdx.foldl (fun c e => c.addClass (e.2 + 1) (.named e.1.1))
    (members.foldl ClassDecl.addMember head)
  let nested := inner.zipIdx.map fun e =>
    e.1.2.2.foldl ClassDecl.addMember
      { id := e.2 + 1, name := some (.named e.1.1), qualified := path ++ "::" ++ e.1.1
        span := .lines 1 1, outer := some 0
        extends? := e.1.2.1.map fun name => ⟨none, [.named name], .lines 1 1⟩ }
  ({ tree := some { path, nodeCount := nodes, classes := (head :: nested).toArray } }, h)

@[simp] theorem rooted_fileWith (base : Option String) (members : List Member)
    (inner : List (String × Option String × List Member)) (nodes : Nat) :
    Program.Rooted (fileWith base members inner nodes) := by
  have hmembers (ms : List Member) (c : ClassDecl) : (ms.foldl ClassDecl.addMember c).outer =
      c.outer := by
    induction ms generalizing c with
    | nil => rfl
    | cons m ms ih => exact ih _
  have hinner (es : List ((String × Option String × List Member) × Nat)) (c : ClassDecl) :
      (es.foldl (fun c e => c.addClass (e.2 + 1) (.named e.1.1)) c).outer = c.outer := by
    induction es generalizing c with
    | nil => rfl
    | cons e es ih => exact ih _
  intro path h t ht
  cases ht
  exact ⟨rfl, _, rfl, (hinner _ _).trans (hmembers _ _)⟩

/-- A file with one class, which extends that of another file or none and has variables. -/
def fileOf (base : Option String) (vars : List String) : Program :=
  fileWith base (vars.zipIdx.map fun v => .variable v.2 v.1 false none none) [] vars.length

/-- Files hold texts, and texts are programs. -/
def Request.texts (files : List (String × String)) (programs : List (String × Program)) : Request :=
  .write (.ofList (files.map fun f => (f.1, .text f.2))) (.ofList programs)

variable (files : List (String × String))

@[simp] theorem Request.fair_texts {programs : List (String × Program)}
    (h : ∀ p ∈ programs, p.2.Rooted) (w : World) : (texts files programs).Fair w := by
  have hvalues (t : Table String Program) (ht : ∀ p ∈ t.values, Program.Rooted p) :
      ∀ p ∈ (programs.foldl (fun t e => t.insert e.1 e.2) t).values, Program.Rooted p := by
    induction programs generalizing t with
    | nil => exact ht
    | cons e l ih =>
      refine ih (fun p hp => h p (.tail _ hp)) _ fun p hp => ?_
      rcases Table.mem_values_insert hp with rfl | hp
      · exact h e (.head _)
      · exact ht p hp
  intro text program hfind
  exact hvalues {} (fun _ hp => absurd hp List.not_mem_nil)
    program (Table.mem_values_of_find? hfind)

def Request.written (files : List (String × String))
    (programs : List (String × Option String × List String)) : Request :=
  .texts files (programs.map fun p => (p.1, fileOf p.2.1 p.2.2))

@[simp] theorem Request.fair_written (programs : List (String × Option String × List String))
    (w : World) : (written files programs).Fair w := by
  refine fair_texts files (fun p hp => ?_) w
  obtain ⟨_, -, rfl⟩ := List.mem_map.1 hp
  exact rooted_fileWith _ _ _ _

/-- A file with a variable, and one that extends it and has another. -/
def extendedFile (base : String) : Request :=
  .written [("res://b.br", base), ("res://d.br", "derived")]
    [("one", none, ["x"]), ("two", none, ["x", "z"]), ("derived", some "res://b.br", ["y"])]

namespace Request

variable (w : World)

@[simp] theorem fair_load (path : String) (update : Bool) : (load path update).Fair w := trivial

@[simp] theorem fair_setSource (s : ScriptId) (source : Source) :
    (setSource s source).Fair w := trivial

@[simp] theorem fair_newObject (s : ScriptId) (args : List Value) :
    (newObject s args).Fair w := trivial

@[simp] theorem fair_setMember (i : InstanceId) (name : String) (v : Value) :
    (setMember i name v).Fair w := trivial

end Request

/-- A host that offers one native class and holds on to the first instance that is made. -/
def World.host : World :=
  { work := { registry := { classes := [{ name := "RefCounted" }] } }, held := [[.inst 0]] }

theorem World.reached_host : host.Reached := .start ⟨rfl, rfl, rfl, rfl, nofun⟩

end HotScript
