import HotScript.Proofs.Analysis.Journal

/-!
The discipline of stages, and what it lets pass.

Errors count against a stage only while it is running, so a unit is accepted with just those errors
that were reported while none of its stages was: by other units that had its members found out
earlier.
-/

namespace HotScript

/-! ### Runs that can be computed -/

section

variable {α β : Type}

instance decidableSome (x : Option α) (P : α → Prop) [DecidablePred P] :
    Decidable (∃ a, x = some a ∧ P a) :=
  match x with
  | none => .isFalse nofun
  | some a => decidable_of_iff (P a) (by simp)

instance decidableRun (x : Option (α × β)) (P : α → β → Prop) [∀ a b, Decidable (P a b)] :
    Decidable (∃ a b, x = some (a, b) ∧ P a b) :=
  match x with
  | none => .isFalse nofun
  | some (a, b) => decidable_of_iff (P a b) (by simp [and_assoc])

instance decidableRunTo [DecidableEq α] (x : Option (α × β)) (a : α) (P : β → Prop)
    [DecidablePred P] : Decidable (∃ b, x = some (a, b) ∧ P b) :=
  match x with
  | none => .isFalse nofun
  | some (a', b) => decidable_of_iff (a' = a ∧ P b) (by simp [and_assoc])

instance decidableRunOk {ε : Type} (x : Option (Except ε α × β)) (P : α → β → Prop)
    [∀ a b, Decidable (P a b)] : Decidable (∃ a b, x = some (.ok a, b) ∧ P a b) :=
  match x with
  | none => .isFalse nofun
  | some (.error _, _) => .isFalse nofun
  | some (.ok a, b) => decidable_of_iff (P a b) (by simp [and_assoc])

end

namespace Workspace

/-- What a host may ask of a workspace. -/
inductive Request
  | get (path : String) (status : UnitStatus)
  | raise (id : UnitId) (status : UnitStatus)
  /-- Read a source into a unit, for the first time or again. -/
  | read (id : UnitId) (source : Source)
  | drop (path : String)
  | release (id : UnitId)
  | replace (settings : Settings) (registry : Registry) (files : Table String FileContent)
    (programs : Table String Program)

def perform (w : Workspace) : Request → Option Workspace
  | .get path status => (w.getUnit path status).map (·.2)
  | .raise id status => (w.raiseUnit id status).map (·.2)
  | .read id source => some (w.readInto id source).2
  | .drop path => some (w.dropUnit path)
  | .release id => some (w.modifyUnit id (·.releaseDependencies))
  | .replace settings registry files programs => some { w with settings, registry, files, programs }

def serve (w : Workspace) (requests : List Request) : Option Workspace := requests.foldlM perform w

variable {w w' : Workspace}

/-! ### Between requests nothing is running -/

theorem Regular.perform (h : w.Regular fun _ => none) {request : Request}
    (hrun : w.perform request = some w') : w'.Regular fun _ => none := by
  have habove : Running.Above (fun _ => none) .fullySolved := nofun
  cases request with
  | get path status =>
    obtain ⟨⟨answer, w1⟩, hget, rfl⟩ := Option.map_eq_some_iff.1 hrun
    exact (Ladder.le_getUnit Ladder.regular_findsBases hget).2 _ habove h
  | raise id status =>
    obtain ⟨⟨answer, w1⟩, hraise, rfl⟩ := Option.map_eq_some_iff.1 hrun
    exact (Ladder.le_raiseUnit Ladder.regular_findsBases hraise).2 _ habove h
  | read id source =>
    cases hrun
    exact h.readInto rfl source
  | drop path =>
    cases hrun
    rw [dropUnit]
    split
    · exact h
    · exact (h.modifyUnit (f := fun u => { u with abandoned := true }) rfl rfl rfl).of_units rfl rfl
  | release id =>
    cases hrun
    exact h.modifyUnit rfl rfl rfl
  | replace settings registry files programs =>
    cases hrun
    exact h.of_units rfl rfl

theorem Regular.serve {requests : List Request} (h : w.Regular fun _ => none)
    (hrun : w.serve requests = some w') : w'.Regular fun _ => none := by
  induction requests generalizing w with
  | nil =>
    cases hrun
    exact h
  | cons request requests ih =>
    obtain ⟨w1, h1, hrun⟩ := Option.bind_eq_some_iff.1 (List.foldlM_cons.symm.trans hrun)
    exact ih (h.perform h1) hrun

/-- A workspace in which no unit was ever opened. -/
structure Unused (w : Workspace) : Prop where
  units : w.units = #[]
  unitOf : w.unitOf = {}
  journal : w.journal = []

theorem Unused.regular (h : w.Unused) : w.Regular fun _ => none where
  units id := by
    have hunit : w.unit id = { path := "" } := by
      rw [unit, h.units]
      rfl
    have hhistory : w.history id = [] := by
      rw [history, h.journal]
      rfl
    rw [hunit, hhistory]
    exact .new ""
  known e he := absurd (h.journal ▸ he) List.not_mem_nil

/-! ### A unit that can be raised no further -/

variable {id : UnitId} {status failed : UnitStatus}

theorem raiseUnit_settled
    (h : (w.unit id).failedAt.filter status.reaches ≠ none ∨ (w.unit id).status.reaches status) :
    ∃ result, w.raiseUnit id status = some (result, w.happen id (.answered status result.toBool)) ∧
      result.toBool = (w.unit id).grants status := by
  let d : Desk := { work := w, cursor := { unit := 0 } }
  have hrun : ∃ result, Analyze.raiseWithin (Analyze.resolver Analyze.patience) id status 5 d =
      some (result, d) ∧ result.toBool = (w.unit id).grants status := by
    cases hfailed : (w.unit id).failedAt.filter status.reaches with
    | some failed =>
      refine ⟨.error ((w.unit id).failure failed), bind_some.2 ⟨w.unit id, d, rfl, ?_⟩, ?_⟩
      · rw [hfailed]
        rfl
      · simp [FileUnit.grants, hfailed, Except.toBool]
    | none =>
      have hreach := h.resolve_left fun h => h hfailed
      refine ⟨.ok (), bind_some.2 ⟨w.unit id, d, rfl, ?_⟩, ?_⟩
      · rw [hfailed]
        exact congrFun (if_pos hreach) d
      · simp [FileUnit.grants, hfailed, hreach, Except.toBool]
  obtain ⟨result, hrun, hgrants⟩ := hrun
  have hraise := Analyze.raise_some.2 ⟨d, hrun, rfl⟩
  exact ⟨result, by rw [raiseUnit, analyze, StateT.run, hraise]; rfl, hgrants⟩

theorem raiseUnit_refused (hfailed : (w.unit id).failedAt = some failed)
    (hle : failed.rank ≤ status.rank) :
    ∃ fault w', w.raiseUnit id status = some (.error fault, w') := by
  have hfilter : (w.unit id).failedAt.filter status.reaches = some failed := by
    simp [hfailed, UnitStatus.reaches, hle]
  have hsettled : (w.unit id).failedAt.filter status.reaches ≠ none :=
    hfilter ▸ Option.some_ne_none _
  obtain ⟨result, hrun, hgrants⟩ := raiseUnit_settled (.inl hsettled)
  cases result with
  | ok _ => simp [FileUnit.grants, hfilter, Except.toBool] at hgrants
  | error fault => exact ⟨fault, _, hrun⟩

theorem raiseUnit_granted (hstatus : status.rank ≤ (w.unit id).status.rank)
    (hfailed : ∀ failed, (w.unit id).failedAt = some failed → status.rank < failed.rank) :
    ∃ w', w.raiseUnit id status = some (.ok (), w') := by
  have hreach : (w.unit id).status.reaches status := decide_eq_true hstatus
  have hfilter : (w.unit id).failedAt.filter status.reaches = none := by
    rw [Option.filter_eq_none_iff]
    intro failed hf hreach
    exact absurd (of_decide_eq_true hreach) (Nat.not_le.2 (hfailed failed hf))
  obtain ⟨result, hrun, hgrants⟩ := raiseUnit_settled (.inr hreach)
  cases result with
  | ok _ => exact ⟨_, hrun⟩
  | error fault => simp [FileUnit.grants, hfilter, hreach, Except.toBool] at hgrants

/-! ### Order -/

/-- A file with one class, which has one member. -/
def classWith (name : Option String) (member : Member) : Program := fun path h =>
  let head : ClassDecl :=
    { id := 0, name := name.map (⟨·, .lines 1 1⟩), qualified := path, span := .lines 1 1 }
  ({ tree := some { path, nodeCount := 3, classes := #[head.addMember member] } }, h)

/-- A class `B` with an enum whose only entry has a value that is not declared, and another file
with a variable of that enum's type. -/
def strayWorkspace : Workspace :=
  let ident (name : String) : Ident := ⟨name, .lines 1 1⟩
  let entry : EnumValueDecl :=
    { id := 1, name := ident "V", value := some (.ident ⟨2, .lines 1 1⟩ "nowhere"),
      previous := none }
  let typed : VariableDecl :=
    { id := 0, name := ident "x", type := some (.mk [ident "B", ident "E"] [] (.lines 1 1))
      infer := false, initializer := none, isStatic := false, accessors :=
        .none, exported := false }
  { registry := { globals := .ofList [("B",
    { name := "B", path := "res://b.br", base := "RefCounted" })] }
    files := .ofList [("res://a.br", .text "a"), ("res://b.br", .text "b")]
    programs := .ofList
      [("a", classWith none (.var typed)),
        ("b", classWith (some "B") (.enum { id := 0, name := ident "E", values := [entry] }))] }

theorem strayWorkspace_unused : strayWorkspace.Unused := ⟨rfl, rfl, rfl⟩

/-- Whatever is asked of a workspace, the journal of every unit is orderly at every moment.
Afterwards no stage is running, and the stages that were run are those up to the status of the unit.
A unit that failed refuses what it failed at and what is above, and grants again what it once
granted below. -/
theorem serve_orderly {requests : List Request} (hw : w.Unused)
    (hrun : w.serve requests = some w') (id : UnitId) :
    (∀ t, t <:+ w'.history id → Journal.Orderly t) ∧
    (∀ e ∈ (w'.history id).head?,
      e.status = (w'.unit id).status ∧ e.failedAt = (w'.unit id).failedAt) ∧
    (w'.history id).era.stages = Journal.passed (w'.unit id).status false ∧
    (∀ failed status, (w'.unit id).failedAt = some failed → failed.rank ≤ status.rank →
      ∃ fault w'', w'.raiseUnit id status = some (.error fault, w'')) ∧
    ∀ status, (∃ e ∈ (w'.history id).era, e.event = .answered status true) →
      (∀ failed, (w'.unit id).failedAt = some failed → status.rank < failed.rank) →
      ∃ w'', w'.raiseUnit id status = some (.ok (), w'') := by
  have h := (hw.regular.serve hrun).units id
  refine ⟨h.orderly, h.latest, h.passed, fun _ _ => raiseUnit_refused, ?_⟩
  rintro status ⟨e, he, hevent⟩ hfailed
  exact raiseUnit_granted (h.granted e he status hevent) hfailed

/-- The file with the enum is accepted after the other one made it find out about the enum. Read
again and asked for directly, it fails where members are found out, and stays so. -/
theorem strayWorkspace_orderly : ∃ w', strayWorkspace.serve
      [.get "res://a.br" .fullySolved, .get "res://b.br" .fullySolved, .read 1 (.text "b"),
        .get "res://b.br" .fullySolved] = some w' ∧
    (∀ t, t <:+ w'.history 1 → Journal.Orderly t) ∧
    (w'.unit 1).failedAt = some .interfaceSolved ∧
    ∃ fault w'', w'.raiseUnit 1 .fullySolved = some (.error fault, w'') := by
  obtain ⟨w', hrun, hfailed⟩ : ∃ w', strayWorkspace.serve
      [.get "res://a.br" .fullySolved, .get "res://b.br" .fullySolved, .read 1 (.text "b"),
        .get "res://b.br" .fullySolved] = some w' ∧
        (w'.unit 1).failedAt = some .interfaceSolved := by
    decide +kernel
  obtain ⟨horderly, -, -, hrefused, -⟩ := serve_orderly strayWorkspace_unused hrun 1
  exact ⟨w', hrun, horderly, hfailed, hrefused _ .fullySolved hfailed (by decide)⟩

/-! ### Errors -/

theorem grants_of_raiseUnit {answer : Except LoadFault Unit}
    (h : w.raiseUnit id status = some (answer, w')) :
    answer.toBool = (w'.unit id).grants status := by
  obtain ⟨⟨a, d⟩, hrun, h⟩ := Option.bind_eq_some_iff.1 h
  cases h
  obtain ⟨d1, -, rfl, hgrants⟩ := Analyze.grants_of_raise (Ladder.carries_lasting _) hrun
  rw [hgrants]
  rw [unit_happen_of_apply fun _ => rfl]

theorem failedAt_of_accepted (h : w.raiseUnit id .fullySolved = some (.ok (), w')) :
    (w'.unit id).failedAt = none := by
  have hgrants : (w'.unit id).grants .fullySolved = true := (grants_of_raiseUnit h).symm
  have hfilter := Option.isNone_iff_eq_none.1 (Bool.and_eq_true_iff.1 hgrants).1
  refine Option.eq_none_iff_forall_ne_some.2 fun failed hf => ?_
  exact Option.filter_eq_none_iff.1 hfilter failed hf (by cases failed <;> decide)

/-- A unit that is accepted has the errors that were reported while none of its stages was running,
and no other errors were reported for it since it was read. -/
theorem errors_of_accepted {requests : List Request} {w'' : Workspace} {id : UnitId} (hw : w.Unused)
    (hrun : w.serve requests = some w')
    (hraise : w'.raiseUnit id .fullySolved = some (.ok (), w'')) :
    (w''.unit id).errors = (w''.history id).era.strays ∧
      (w''.history id).era.reports = (w''.history id).era.strays := by
  have hperform : w'.perform (.raise id .fullySolved) = some w'' := by
    rw [perform, hraise]
    rfl
  have h : w''.Regular fun _ => none := (hw.regular.serve hrun).perform hperform
  have hfailed := failedAt_of_accepted hraise
  have hstrays := (h.units id).strays rfl hfailed
  exact ⟨((h.units id).errors hfailed).trans hstrays.symm, hstrays.symm⟩

/-- The error in the enum is reported on behalf of the other file, and counts against no stage. -/
theorem strayWorkspace_accepts :
    ∃ w' w'', strayWorkspace.serve [.get "res://a.br" .fullySolved] = some w' ∧
    w'.raiseUnit 1 .fullySolved = some (.ok (), w'') ∧ (w''.unit 1).errors ≠ [] := by
  obtain ⟨w', hrun, answer, w'', hraise, hok, herrors⟩ :
      ∃ w', strayWorkspace.serve [.get "res://a.br" .fullySolved] = some w' ∧
        ∃ answer w'', w'.raiseUnit 1 .fullySolved = some (answer, w'') ∧
          answer.toBool = true ∧ (w''.unit 1).errors ≠ [] := by
    decide +kernel
  cases answer with
  | error fault => cases hok
  | ok _ => exact ⟨w', w'', hrun, hraise, herrors⟩

theorem strayWorkspace_strays : ∃ w' w'',
    strayWorkspace.serve [.get "res://a.br" .fullySolved] = some w' ∧
    w'.raiseUnit 1 .fullySolved = some (.ok (), w'') ∧
    (w''.unit 1).errors = (w''.history 1).era.strays ∧ (w''.history 1).era.strays ≠ [] := by
  obtain ⟨w', w'', hrun, hraise, herrors⟩ := strayWorkspace_accepts
  have hstrays := (errors_of_accepted strayWorkspace_unused hrun hraise).1
  exact ⟨w', w'', hrun, hraise, hstrays, hstrays ▸ herrors⟩

/-- A unit may be accepted with errors. -/
theorem not_errorless_of_accepted :
    ¬ ∀ (w w' w'' : Workspace) (requests : List Request) (id : UnitId),
    w.Unused → w.serve requests = some w' → w'.raiseUnit id .fullySolved = some (.ok (), w'') →
    (w''.unit id).errors = [] := by
  intro h
  obtain ⟨w', w'', hrun, hraise, herrors⟩ := strayWorkspace_accepts
  exact herrors (h _ _ _ _ _ strayWorkspace_unused hrun hraise)

end Workspace

end HotScript
