import HotScript.Proofs.Live.Course
import HotScript.Proofs.Live.Invalidation
import HotScript.Proofs.Lower.Versions

/-!
Units of files, and the record of who refers to whom.

Dropping the unit of a file erases what is noted under it, and in the same go drops the units of all
files that were noted there. So what was noted of a file is lost only together with the unit that
the file was compiled from, and that unit goes when one of those it rests on goes (`World.Records`).
-/

namespace HotScript

/-! ### The record -/

namespace Cache

variable (owner : String) (paths : List String)

theorem mem_dependentsOf_record (c : Cache) (p q : String) :
    q ∈ (c.record owner paths).dependentsOf p ↔
      q ∈ c.dependentsOf p ∨ q = owner ∧ p ∈ paths ∧ p ≠ owner := by
  have hstep (c : Cache) (ps : List String) :
      q ∈ (ps.foldl (fun c path =>
        { c with
          references := c.references.insert owner
            (if ((c.references.find? owner).getD []).contains path then
              (c.references.find? owner).getD []
            else (c.references.find? owner).getD [] ++ [path])
          dependents := c.dependents.insert path
            (if ((c.dependents.find? path).getD []).contains owner then
              (c.dependents.find? path).getD []
            else (c.dependents.find? path).getD [] ++ [owner]) }) c).dependentsOf p ↔
        q ∈ c.dependentsOf p ∨ q = owner ∧ p ∈ ps := by
    induction ps generalizing c with
    | nil => simp
    | cons path ps ih =>
      rw [List.foldl_cons, ih, List.mem_cons]
      unfold dependentsOf
      by_cases hp : p = path
      · subst hp
        rw [Table.find?_insert_self, Option.getD_some]
        split
        · next hmem =>
          have hmem : owner ∈ (c.dependents.find? p).getD [] := by simpa using hmem
          constructor
          · rintro (h | ⟨rfl, h⟩)
            · exact .inl h
            · exact .inr ⟨rfl, .inr h⟩
          · rintro (h | ⟨rfl, -⟩)
            · exact .inl h
            · exact .inl hmem
        · rw [List.mem_append, List.mem_singleton]
          tauto
      · rw [Table.find?_insert_of_ne _ _ hp]
        tauto
  refine (hstep c (paths.filter (· != owner))).trans ?_
  rw [List.mem_filter, bne_iff_ne]

theorem record_eq (c : Cache) : c.record owner paths = { c with
      references := (c.record owner paths).references
      dependents := (c.record owner paths).dependents } := by
  unfold record
  induction paths.filter (· != owner) generalizing c with
  | nil => rfl
  | cons path rest ih =>
    rw [List.foldl_cons, ih]

end Cache

namespace World

/-! ### What is noted of a file -/

/-- A file was compiled: from which unit, what its code depends on, and which units that had
then. -/
structure Compilation where
  unit : UnitId
  path : String
  dependencies : List String
  others : String → UnitId → Prop

/-- As long as the unit is not abandoned the file is noted under everything that the code depends
on, and the units which that had are not abandoned either. -/
structure Records (w : World) (c : Compilation) : Prop where
  lt : c.unit < w.work.units.size
  path : (w.work.unit c.unit).path = c.path
  noted : (w.work.unit c.unit).abandoned = false → ∀ p ∈ c.dependencies, p ≠ c.path →
    c.path ∈ w.cache.dependentsOf p
  others : ∀ p id, c.others p id → p ∈ c.dependencies ∧ p ≠ c.path ∧ id < w.work.units.size ∧
    (w.work.unit id).path = p ∧
    ((w.work.unit c.unit).abandoned = false → (w.work.unit id).abandoned = false)

variable {w : World} {c : Compilation}

theorem Records.congr {w' : World} (h : w.Records c) (hunits : w'.work.units = w.work.units)
    (hnoted : w'.cache.dependents = w.cache.dependents) : w'.Records c := by
  have hunit (id : UnitId) : w'.work.unit id = w.work.unit id := by
    rw [Workspace.unit, hunits, Workspace.unit]
  refine ⟨hunits ▸ h.lt, hunit _ ▸ h.path, fun ha p hp hne => ?_, fun p id hid => ?_⟩
  · rw [Cache.dependentsOf, hnoted]
    exact h.noted (hunit _ ▸ ha) p hp hne
  · rw [hunits, hunit, hunit]
    exact h.others p id hid

/-- Only units and the record changed; files are read as before, and what was noted of a file is
still noted or its unit is abandoned. -/
structure Tends (w w' : World) : Prop where
  frame : w' = { w with work := w'.work, cache := w'.cache }
  cache : w'.cache = { w.cache with
    references := w'.cache.references, dependents := w'.cache.dependents }
  source : ∀ path, w'.work.source path = w.work.source path
  tended : w.work.Tended → w'.work.Tended
  records : w.work.Tended → ∀ c, w.Records c → w'.Records c

namespace Tends

theorem refl (w : World) : w.Tends w := ⟨rfl, rfl, fun _ => rfl, id, fun _ _ h => h⟩

theorem trans {w1 w' : World} (h : w.Tends w1) (h' : w1.Tends w') : w.Tends w' where
  frame := by rw [h'.frame, h.frame]
  cache := by rw [h'.cache, h.cache]
  source path := (h'.source path).trans (h.source path)
  tended hw := h'.tended (h.tended hw)
  records hw c hc := h'.records (h.tended hw) c (h.records hw c hc)

theorem later {work : Workspace} (h : w.work.Later work) : w.Tends { w with work } where
  frame := rfl
  cache := rfl
  source path := Workspace.source_congr h.outside path
  tended hw := hw.later h
  records _ c hc := by
    obtain ⟨hlt, hl⟩ := h.units c.unit hc.lt
    refine ⟨hlt, hl.path.trans hc.path, fun ha => hc.noted (hl.abandoned ▸ ha), fun p id hid => ?_⟩
    obtain ⟨hmem, hne, hlt', hp, ha⟩ := hc.others p id hid
    obtain ⟨hlt', hl'⟩ := h.units id hlt'
    rw [hl'.path, hl'.abandoned, hl.abandoned]
    exact ⟨hmem, hne, hlt', hp, ha⟩

end Tends

/-! ### Dropping units -/

section

variable {w' : World} {lost : String → Prop}

theorem Forgets.tended (h : w.Forgets lost w') (hw : w.work.Tended) : w'.work.Tended where
  programs := by
    rw [h.frame]
    exact hw.programs
  faithful id := by
    obtain ⟨abandoned, hunit⟩ := h.unit id
    rw [hunit]
    exact ⟨(hw.faithful id).keys, (hw.faithful id).declared⟩
  rooted id t ht := by
    obtain ⟨abandoned, hunit⟩ := h.unit id
    rw [hunit] at ht ⊢
    exact hw.rooted id t ht
  placed := by
    refine ⟨fun p id hp => ?_, fun id hid ha => ?_⟩
    · by_cases hlost : lost p
      · rw [(h.gone p hlost).1] at hp
        cases hp
      · rw [(h.kept p hlost).1] at hp
        obtain ⟨hlt, hpath, habandoned⟩ := hw.placed.placed p id hp
        rw [h.size, h.spared id]
        · exact ⟨hlt, hpath, habandoned⟩
        · intro q hq hsame
          rw [(hw.placed.placed q id hsame).2.1.symm.trans hpath] at hq
          exact hlost hq
    · rw [h.size] at hid
      obtain ⟨habandoned, hlost⟩ := h.not_abandoned hw.placed hid ha
      obtain ⟨b, hunit⟩ := h.unit id
      have hpath : (w'.work.unit id).path = (w.work.unit id).path := by rw [hunit]
      rw [hpath, (h.kept _ hlost).1]
      exact hw.placed.owned id hid habandoned

/-- A file that keeps its unit is noted as before: whatever it refers to was not affected either. -/
theorem Records.removeUnit (hw : w.work.Tended) (h : w.Records c) (q : String) :
    (w.removeUnit q).Records c := by
  have hf := w.forgets_removeUnit q
  obtain ⟨b, hunit⟩ := hf.unit c.unit
  have hspared {p : String} (ha : ((w.removeUnit q).work.unit c.unit).abandoned = false)
      (hp : p ∈ c.dependencies) (hne : p ≠ c.path) :
      (w.work.unit c.unit).abandoned = false ∧ ¬ w.cache.Affects q p := by
    obtain ⟨habandoned, hlost⟩ := hf.not_abandoned hw.placed h.lt ha
    rw [h.path] at hlost
    exact ⟨habandoned, fun hq => hlost (hq.tail (h.noted habandoned p hp hne))⟩
  refine ⟨hf.size.symm ▸ h.lt, ?_, fun ha p hp hne => ?_, fun p id hid => ?_⟩
  · rw [hunit]
    exact h.path
  · obtain ⟨habandoned, hq⟩ := hspared ha hp hne
    rw [Cache.dependentsOf, (hf.kept p hq).2]
    exact h.noted habandoned p hp hne
  · obtain ⟨hmem, hne, hlt, rfl, halive⟩ := h.others p id hid
    obtain ⟨b', hunit'⟩ := hf.unit id
    refine ⟨hmem, hne, hf.size.symm ▸ hlt, by rw [hunit'], fun ha => ?_⟩
    obtain ⟨habandoned, hq⟩ := hspared ha hmem hne
    rw [hf.spared id fun p hp hown => hq ((hw.placed.placed p id hown).2.1 ▸ hp)]
    exact halive habandoned

theorem Tends.removeUnit (w : World) (path : String) : w.Tends (w.removeUnit path) where
  frame := by
    rw [(w.forgets_removeUnit path).frame]
  cache := by
    rw [(w.forgets_removeUnit path).frame]
  source p := by
    rw [(w.forgets_removeUnit path).frame]
    rfl
  tended := (w.forgets_removeUnit path).tended
  records hw _ h := h.removeUnit hw path

end

theorem Tends.record (w : World) (owner : String) (paths : List String) :
    w.Tends { w with cache := w.cache.record owner paths } where
  frame := rfl
  cache := Cache.record_eq _ _ _
  source _ := rfl
  tended h := h
  records _ _ h := ⟨h.lt, h.path, fun ha p hp hne =>
    (Cache.mem_dependentsOf_record ..).2 (.inl (h.noted ha p hp hne)), h.others⟩

end World

/-! ### Compiling a file -/

namespace Live

open World

variable {w w' : World} {path : String} {source : Source}

theorem unitFor_some {found : Except LoadFault UnitId}
    (h : unitFor path source w = some (found, w')) :
    w.Tends w' ∧ ∀ id, found = .ok id → w'.work.unitOf.find? path = some id ∧
      (w'.work.unit id).digest = source.digest := by
  obtain ⟨w1, w2, h1, h⟩ := bind_some.1 h
  cases h1
  dsimp only at h
  generalize husable : Option.filter _ (w.work.unitAt? path) = usable at h
  cases usable with
  | some id =>
    cases h
    refine ⟨.refl _, fun id' hid' => ?_⟩
    cases hid'
    obtain ⟨hid, huse⟩ := Option.filter_eq_some_iff.1 husable
    simp only [Bool.and_eq_true, beq_iff_eq] at huse
    exact ⟨hid, huse.1.1⟩
  | none =>
    obtain ⟨_, w3, h2, h⟩ := bind_some.1 h
    cases h2
    cases h
    have hopened := (w.removeUnit path).work.opened_readInto path source
    have hnew := ((w.forgets_removeUnit path).gone path .refl).1
    refine ⟨(Tends.removeUnit w path).trans (.later (hopened.later hnew)), fun id hid => ?_⟩
    cases hread : ((w.removeUnit path).work.addUnit path).2.readInto
        ((w.removeUnit path).work.addUnit path).1 source |>.1 with
    | error fault =>
      rw [hread] at hid
      cases hid
    | ok _ =>
      rw [hread] at hid
      cases hid
      refine ⟨?_, Workspace.digest_readInto _ _ fun he => ?_⟩
      · exact Table.find?_insert_self _ _ _
      · subst he
        cases hread

/-- A file was compiled to code. -/
structure Compiled (w w' : World) (path : String) (source : Source) (code : FileCode) : Prop where
  /-- The code is that of the source, or of what the file holds if there is none. -/
  hash : ∃ read, (if source.isEmpty then w.work.source path else .ok source) = .ok read ∧
    code.hash = read.digest
  sound : code.Sound
  /-- The file has the unit that it was compiled from. -/
  unit : ∃ id, w'.work.unitOf.find? path = some id ∧
    code.dependencies = (w'.work.unit id).dependencies ∧ w'.Records
    { unit := id, path, dependencies := code.dependencies
      others := fun p other => p ∈ code.dependencies ∧ p ≠ path ∧
        w'.work.unitOf.find? p = some other }

/-- Compiling changes units and records only. -/
theorem compile_some {result : Except LoadFault FileCode} (hw : w.work.Tended)
    (h : compile path source w = some (result, w')) :
    w.Tends w' ∧ ∀ code, result = .ok code → Compiled w w' path source code := by
  obtain ⟨w1, w2, h1, h⟩ := bind_some.1 h
  cases h1
  generalize hread : (if source.isEmpty then w.work.source path else .ok source) = loaded at h
  cases loaded with
  | error fault =>
    cases h
    exact ⟨.refl _, nofun⟩
  | ok read =>
  obtain ⟨found, w3, h2, h⟩ := bind_some.1 h
  obtain ⟨ht3, hfound⟩ := unitFor_some h2
  have hw3 := ht3.tended hw
  cases found with
  | error fault =>
    cases h
    exact ⟨ht3, nofun⟩
  | ok id =>
  obtain ⟨hid, hdigest⟩ := hfound id rfl
  obtain ⟨raised, w4, h3, h⟩ := bind_some.1 h
  obtain ⟨work4, hraise, rfl⟩ := onWork_some h3
  have hl4 := Workspace.later_raiseUnit hraise
  have ht4 := ht3.trans (.later hl4)
  cases raised with
  | error fault =>
    cases h
    exact ⟨ht4, nofun⟩
  | ok _ =>
  obtain ⟨compiled, w5, h4, h⟩ := bind_some.1 h
  obtain ⟨work5, hcompile, rfl⟩ := onWork_some h4
  obtain ⟨hl5, hcode⟩ := Workspace.compile_some (hw3.later hl4) hcompile
  have ht5 := ht4.trans (.later hl5)
  cases compiled with
  | error fault =>
    cases h
    exact ⟨ht5, nofun⟩
  | ok code =>
  obtain ⟨_, w6, h5, h⟩ := bind_some.1 h
  cases h5
  cases h
  -- letting go of what the unit depended on changes nothing that is known
  have hl6 : work5.Later (work5.modifyUnit id (·.releaseDependencies)) :=
    .modifyUnit (fun _ => .of_classes rfl rfl (Nat.le_refl _) (fun h => h) (List.prefix_refl _))
      fun _ path other hfind => by cases hfind
  obtain ⟨-, hhash, hdependencies, hsound⟩ := hcode code rfl
  have hlater := hl4.trans hl5
  obtain ⟨hlt, hunit, habandoned⟩ := hw3.placed.placed path id hid
  obtain ⟨hlt5, hu⟩ := hlater.units id hlt
  have hpath5 : (work5.unit id).path = path := hu.path.trans hunit
  have ht6 := ht5.trans ((Tends.later hl6).trans (.record _ path code.dependencies))
  have hw6 := (ht6.tended hw).placed
  refine ⟨ht6, fun _ hok => ?_⟩
  cases hok
  refine ⟨⟨read, hread, hhash.trans (hu.digest.trans hdigest)⟩, hsound, id, ?_⟩
  obtain ⟨hlt6, hu6⟩ := hl6.units id hlt5
  have hpath6 := hu6.path.trans hpath5
  refine ⟨?_, ?_, hlt6, hpath6, fun _ p hp hne => ?_, ?_⟩
  · have hplaced := hw6.owned id hlt6 (hu6.abandoned.trans (hu.abandoned.trans habandoned))
    rw [hpath6] at hplaced
    exact hplaced
  · rw [Workspace.unit_modifyUnit_self hlt5]
    exact hdependencies
  · exact (Cache.mem_dependentsOf_record ..).2 (.inr ⟨rfl, hp, hne⟩)
  · rintro p other ⟨hp, hne, hother⟩
    obtain ⟨hlt, hpath, halive⟩ := hw6.placed p other hother
    exact ⟨hp, hne, hlt, hpath, fun _ => halive⟩

end Live

end HotScript
