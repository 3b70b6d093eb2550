import HotScript.Proofs.Analysis.Discipline
import HotScript.Proofs.Inheritance.Raising

/-!
Cyclic inheritance is found, reported once, and nowhere else.

Before the cycle is reported nothing goes wrong, and a request ends with every class of its unit
looked at. So it is reported by the time every unit was asked for its bases.
-/

namespace HotScript

namespace Workspace

open Analyze

variable {w w' : Workspace} {P : w.Project}

/-! ### Before and between requests -/

def Looking.idle : Looking := fun _ => none

theorem Unused.inv (h : w.Unused) (P : w.Project) : Inv P .idle [] w := by
  have hunit (k : UnitId) : w.unit k = { path := "" } := by
    rw [unit, h.units]
    rfl
  have hsize : ¬ ∃ k, k < w.units.size := by
    simp [h.units]
  have hfind (p : String) : w.unitOf.find? p = none := by
    rw [h.unitOf]
    rfl
  have hat (c : Place) : w.classAt? c = none := by
    rw [classAt?, hfind]
    rfl
  have hstate (c : Place) : w.stateAt? c = none := by
    rw [stateAt?, hat]
    rfl
  constructor
  case core =>
    constructor
    case outside => rfl
    case linked =>
      refine ⟨fun p k hk => ?_, fun k hk => absurd ⟨k, hk⟩ hsize, fun k p j hj => ?_⟩
      · rw [hfind] at hk
        cases hk
      · rw [hunit] at hj
        cases hj
    case stands => exact fun k hk => absurd ⟨k, hk⟩ hsize
    case stack =>
      intro c
      simp [hstate]
    case bases =>
      intro c f hf
      rw [hat] at hf
      cases hf
    case idle => exact fun k hk => absurd ⟨k, hk⟩ hsize
    case failed =>
      intro k f hf
      rw [hunit] at hf
      cases hf
    case running =>
      intro k n hk
      cases hk
    case known => exact fun e he => absurd (h.journal ▸ he) List.not_mem_nil
    case sync => exact fun k hk => absurd ⟨k, hk⟩ hsize
    case moments =>
      rintro j - c hcycle
      obtain ⟨b, ⟨k, hk, -⟩, -⟩ := Relation.TransGen.head'_iff.1 hcycle
      exact hsize ⟨k, hk⟩
  case verdict =>
    refine .inl ⟨fun k => ?_, fun c => ?_, fun k => ?_, fun k n hk => ?_⟩
    · rw [hunit]
      rfl
    · simp [hstate]
    · rw [hunit]
      rfl
    · cases hk

/-! ### Requests -/

theorem analyze_of_does {α : Type} {B : Prop} {act : Analyze α} {Q : α → Desk → Prop} (hB : B)
    (h : Does B act { work := w, cursor := { unit := 0 } } Q) :
    ∃ a d, w.analyze act = some (a, d.work) ∧ Q a d := by
  obtain ⟨⟨a, d⟩, hrun⟩ := Option.isSome_iff_exists.1 (h.1 hB)
  refine ⟨a, d, ?_, h.2 hrun⟩
  show (act { work := w, cursor := { unit := 0 } }).bind (fun x => some (x.1, x.2.work)) = _
  rw [hrun]
  rfl

section

variable {w0 : Workspace} {P : w0.Project} (hP : P.Plain)

include hP

theorem Inv.perform (h : Inv P .idle [] w) {q : String × UnitStatus} (hfile : q.1 ∈ P.files)
    (hrank : q.2.rank ≤ UnitStatus.inheritanceSolved.rank) :
    ∃ w', w.perform (.get q.1 q.2) = some w' ∧ Inv P .idle [] w' ∧
      (q.2 = .inheritanceSolved → Told P .idle w' ∨ w'.Solved q.1) := by
  have hperform {a : Except LoadFault UnitId} {w' : Workspace}
      (hrun : w.getUnit q.1 q.2 = some (a, w')) : w.perform (.get q.1 q.2) = some w' := by
    rw [Workspace.perform, hrun]
    rfl
  by_cases hstatus : q.2 = .inheritanceSolved
  · have hle : P.pending w ≤ P.files.length + P.places.length :=
      Nat.add_le_add List.countP_le_length List.countP_le_length
    have hB : P.pending w < patience + 1 :=
      Nat.lt_succ_of_le (Nat.le_trans hle (Nat.le_of_lt hP.small))
    obtain ⟨a, d, hrun, hinv, hfound⟩ := analyze_of_does hB
      (getUnit_does hP (serves_resolver hP patience) id h hfile)
    refine ⟨d.work, hperform (hstatus ▸ hrun), hinv, fun _ => ?_⟩
    rcases hfound with ⟨k, -, -, hsolved⟩ | ⟨-, ht⟩
    · exact .inr hsolved
    · exact .inl ht
  · have hbelow : q.2.rank < UnitStatus.inheritanceSolved.rank := by
      revert hrank hstatus
      cases q.2 <;> decide
    obtain ⟨a, d, hrun, hinv⟩ := analyze_of_does trivial (getUnit_below_does hbelow h hfile)
    exact ⟨d.work, hperform hrun, hinv, fun heq => absurd heq hstatus⟩

theorem Inv.serve (h : Inv P .idle [] w) {asked : List (String × UnitStatus)}
    (hasked : ∀ q ∈ asked, q.1 ∈ P.files ∧ q.2.rank ≤ UnitStatus.inheritanceSolved.rank) :
    ∃ w', w.serve (asked.map fun q => .get q.1 q.2) = some w' ∧ Inv P .idle [] w' ∧
      w.Later w' ∧ ∀ p, (p, .inheritanceSolved) ∈ asked → Told P .idle w' ∨ w'.Solved p := by
  induction asked generalizing w with
  | nil => exact ⟨w, rfl, h, .refl w, fun p hp => absurd hp List.not_mem_nil⟩
  | cons q asked ih =>
    obtain ⟨hfile, hrank⟩ := hasked q (.head _)
    obtain ⟨w1, h1, hinv1, hgot⟩ := h.perform hP hfile hrank
    obtain ⟨w', hrun, hinv, hl, hrest⟩ := ih hinv1 fun q hq => hasked q (.tail _ hq)
    have hl1 : w.Later w1 := by
      obtain ⟨⟨a, w2⟩, hget, rfl⟩ := Option.map_eq_some_iff.1 h1
      exact later_getUnit hget
    refine ⟨w', ?_, hinv, hl1.trans hl, fun p hp => ?_⟩
    · show (w.perform (.get q.1 q.2)).bind (fun w => w.serve (asked.map fun q => .get q.1 q.2)) = _
      rw [h1]
      exact hrun
    · rcases List.mem_cons.1 hp with heq | hp
      · subst heq
        rcases hgot rfl with ht | hsolved
        · exact .inl (hinv.told_later ht hinv1.core.linked hl)
        · exact .inr (hsolved.later hinv1.core.linked hl)
      · exact hrest p hp

end

/-! ### Once all units were asked for their bases -/

section

variable {w0 : Workspace} {P : w0.Project}

/-- A cycle is found in the end: otherwise all bases would be known, and go in a circle. -/
theorem Inv.told_of_onCycle (h : Inv P .idle [] w) {c : Place} (hc : P.OnCycle c)
    (hsolved : ∀ p ∈ P.files, Told P .idle w ∨ w.Solved p) : Told P .idle w := by
  rcases h.verdict with hq | ht
  · by_contra hnot
    have hresolved {x : Place} (hx : x ∈ P.places) : w.stateAt? x = some .resolved := by
      obtain ⟨hfile, hi⟩ := P.mem_places.1 hx
      obtain ⟨k, hk, hrank⟩ := (hsolved x.1 hfile).resolve_left hnot
      obtain ⟨hlt, hpath⟩ := h.core.linked.placed _ k hk
      have hsize : x.2 < (w.unit k).classes.size := by
        rw [(h.core.stands k hlt).count, hpath]
        exact hi
      have hstate : w.stateAt? x = some (w.unit k).classes[x.2].inheritance := by
        rw [stateAt?, classAt?, hk, Option.bind_some, Array.getElem?_eq_getElem hsize]
        rfl
      have hlooked := h.core.idle k hlt hrank rfl _ (Array.getElem_mem hsize)
      rw [hstate]
      cases hi : (w.unit k).classes[x.2].inheritance with
      | unresolved => exact absurd hi hlooked
      | resolving =>
        rw [hi] at hstate
        exact absurd ((h.core.stack x).2 hstate) List.not_mem_nil
      | resolved => rfl
      | invalid =>
        rw [hi] at hstate
        exact absurd hstate (hq.usable x)
    -- the same circle among the bases that are known
    have hway {a b : Place} (hab : Relation.TransGen P.Extends a b) (ha : a ∈ P.places) :
        b ∈ P.places ∧ Relation.TransGen (w.BaseEdge w.journal) a b := by
      induction hab with
      | single hab =>
        exact ⟨Project.Extends.mem P ha hab, .single (h.core.baseEdge_iff.2 ⟨hresolved ha, hab⟩)⟩
      | tail _ hbc ih =>
        obtain ⟨hb, hway⟩ := ih
        exact ⟨Project.Extends.mem P hb hbc, hway.tail (h.core.baseEdge_iff.2 ⟨hresolved hb, hbc⟩)⟩
    exact h.core.moments _ (List.suffix_refl _) c (hway hc.2 hc.1).2
  · exact ht

theorem Told.failed (h : Told P .idle w) {c : Place} (hc : P.OnCycle c) :
    ∃ k, w.unitOf.find? c.1 = some k ∧ w.stateAt? c = some .invalid ∧
    (w.unit k).failedAt.isSome := by
  obtain ⟨k, hk, hinvalid, hdoom⟩ := h.spoiled c hc
  refine ⟨k, hk, hinvalid, ?_⟩
  rcases hdoom with hfailed | ⟨n, hn, -⟩
  · exact hfailed
  · cases hn

end

/-! ### Projects in which classes go in a circle -/

def fileHolding (classes : String → List ClassDecl) : Program := fun path heap =>
  ({ tree := some { path, nodeCount := 1, classes := (classes path).toArray } }, heap)

/-- The project of files that are read as classes. -/
def Project.ofClasses (w : Workspace) (classes : String → List ClassDecl)
    (hread : ∀ p ∈ w.files.keys, ∃ text, w.source p = .ok (.text text) ∧
      w.programs.find? text = some (fileHolding classes))
    (hnumbers : ∀ p ∈ w.files.keys, (classes p).map (·.id) = List.range (classes p).length)
    (hheaded : ∀ p ∈ w.files.keys, classes p ≠ []) : w.Project where
  outline p := (classes p).map (·.outline)
  reads p hp := by
    have hkey := Table.find?_isSome_iff.1 hp
    obtain ⟨text, hsource, hprogram⟩ := hread p hkey
    refine ⟨.text text, hsource, fun heap => ?_⟩
    have hreading : w.readingOf p (.text text) heap =
        { tree := some { path := p, nodeCount := 1, classes := (classes p).toArray } } := by
      show ({ w with heap }.readText p text).1 = _
      rw [readText, hprogram]
      rfl
    rw [hreading]
    refine ⟨_, rfl, rfl, fun d hd => absurd hd List.not_mem_nil, rfl, fun i c hc => ?_⟩
    rw [Tree.class?, List.getElem?_toArray] at hc
    have hid : ((classes p).map (·.id))[i]? = some c.id := by
      rw [List.getElem?_map, hc, Option.map_some]
    rw [hnumbers p hkey] at hid
    obtain ⟨hi, hid⟩ := List.getElem?_eq_some_iff.1 hid
    rw [List.getElem_range] at hid
    exact hid.symm
  headed p hp := by
    have hne := hheaded p (Table.find?_isSome_iff.1 hp)
    rwa [ne_eq, List.map_eq_nil_iff]

def ringIdent (name : String) (line : Nat) : Ident := ⟨name, .lines line line⟩

def innerClass (id outer : ClassId) (qualified name : String) (base : Option String) (line : Nat) :
    ClassDecl :=
  { id, name := some (ringIdent name line), qualified, outer := some outer, span := .lines line line
    extends? := base.map fun base => ⟨none, [ringIdent base line], .lines line line⟩ }

/-- A class with the global name `A` extends one that is declared in another file, which extends
`A`. -/
def ringClasses (path : String) : List ClassDecl :=
  if path = "res://a.br" then
    [{ id := 0, name := some (ringIdent "A" 1), qualified := path, span := .lines 1 1
       extends? := some ⟨some "res://b.br", [ringIdent "Inner" 2], .lines 2 2⟩ }]
  else
    [ClassDecl.addClass { id := 0, name := none, qualified := path, span := .lines 1 1 } 1
        (ringIdent "Inner" 2),
      innerClass 1 0 (path ++ "::Inner") "Inner" (some "A") 2]

def ringWorkspace : Workspace :=
  { registry := { globals := .ofList [("A",
    { name := "A", path := "res://a.br", base := "RefCounted" })] }
    files := .ofList [("res://a.br", .text "a"), ("res://b.br", .text "b")]
    programs := .ofList [("a", fileHolding ringClasses), ("b", fileHolding ringClasses)] }

def ringProject : ringWorkspace.Project :=
  .ofClasses ringWorkspace ringClasses
    (List.forall_mem_cons.2 ⟨⟨"a", rfl, rfl⟩, List.forall_mem_singleton.2 ⟨"b", rfl, rfl⟩⟩)
    (by decide +kernel) (by decide +kernel)

theorem Project.not_onCycle {c : Place} (h : Acc (fun b a => P.Extends a b) c) : ¬ P.OnCycle c := by
  rintro ⟨-, hcycle⟩
  induction h with
  | intro c _ ih =>
    obtain ⟨b, hcb, hback⟩ := Relation.TransGen.head'_iff.1 hcycle
    exact ih b hcb (Relation.TransGen.tail' hback hcb)

theorem Project.acc_of_base {c : Place} {x : Option Place} (hc : P.base c = x)
    (hx : ∀ b, x = some b → Acc (fun b a => P.Extends a b) b) : Acc (fun b a => P.Extends a b) c :=
  ⟨c, fun b hcb => hx b (hc.symm.trans hcb)⟩

theorem Project.singleCycle_of_pair {a b : Place} (hab : P.Extends a b)
    (hba : P.Extends b a) (hrest : ∀ c ∈ P.places, c = a ∨ c = b ∨ ¬ P.OnCycle c) :
    P.SingleCycle := by
  have hpair {c : Place} (hc : P.OnCycle c) : c = a ∨ c = b := by
    rcases hrest c hc.1 with h | h | h
    · exact .inl h
    · exact .inr h
    · exact absurd hc h
  intro x y hx hy
  rcases hpair hx with rfl | rfl <;> rcases hpair hy with rfl | rfl
  · exact .tail (.single hab) hba
  · exact .single hab
  · exact .single hba
  · exact .tail (.single hba) hab

theorem ringProject_base : ringProject.base ("res://a.br", 0) = some ("res://b.br", 1) ∧
    ringProject.base ("res://b.br", 1) = some ("res://a.br", 0) ∧
    ringProject.base ("res://b.br", 0) = none := by
  decide +kernel

theorem ringProject_singleCycle : ringProject.SingleCycle := by
  obtain ⟨hab, hba, hroot⟩ := ringProject_base
  refine Project.singleCycle_of_pair hab hba ?_
  show ∀ c ∈ [("res://a.br", 0), ("res://b.br", 0), ("res://b.br", 1)], _
  intro c hc
  simp only [List.mem_cons, List.not_mem_nil, or_false] at hc
  rcases hc with rfl | rfl | rfl
  · exact .inl rfl
  · exact .inr (.inr (Project.not_onCycle (Project.acc_of_base hroot nofun)))
  · exact .inr (.inl rfl)

/-- Units are asked for in any order, where clauses name classes directly. Every request comes to an
end, and at every moment the known bases go in no circle. No cycle is reported where there is none.
The only cycle is reported once, at the clause of a class on it, when all units were asked for their
bases; then its classes are unusable and their units have failed. -/
theorem serve_reports_cycle (hw : w.Unused) (P : w.Project) (hdirect : P.Direct)
    (hsingle : P.SingleCycle) (hdistinct : P.Distinct)
    (hsmall : P.files.length + P.places.length < patience)
    (asked : List (String × UnitStatus))
    (hasked : ∀ q ∈ asked, q.1 ∈ P.files ∧ q.2.rank ≤ UnitStatus.inheritanceSolved.rank) :
    ∃ w', w.serve (asked.map fun q => .get q.1 q.2) = some w' ∧
      (∀ j, j <:+ w'.journal → w'.Acyclic j) ∧
      (∀ k < w'.units.size, ∀ i : ClassId,
        Journal.baseAt w'.journal k i = (w'.unit k).classes[i]?.bind ClassFacts.settled?) ∧
      ((∀ c, ¬ P.OnCycle c) → ∀ k, cycleReports (w'.unit k) = []) ∧
      ((∃ c, P.OnCycle c) → (∀ p ∈ P.files, (p, .inheritanceSolved) ∈ asked) →
        Reported P w' ∧ ∀ c, P.OnCycle c → ∃ k, w'.unitOf.find? c.1 = some k ∧
          w'.stateAt? c = some .invalid ∧ (w'.unit k).failedAt.isSome) := by
  have hP : P.Plain := ⟨hdirect, hsingle, hdistinct, hsmall⟩
  obtain ⟨w', hrun, h, -, hsolved⟩ := (hw.inv P).serve hP hasked
  refine ⟨w', hrun, h.core.moments, h.core.sync, fun hnone k => ?_, fun ⟨c, hc⟩ hall => ?_⟩
  · rcases h.verdict with hq | ht
    · exact hq.reports k
    · obtain ⟨-, c, -, -, hc, -⟩ := ht.report
      exact absurd hc (hnone c)
  · have ht := h.told_of_onCycle hc fun p hp => hsolved p (hall p hp)
    exact ⟨ht.report, fun c hc => ht.failed hc⟩

/-- The file that declares the inner class is asked for first, so the inner class finds the
cycle. -/
theorem ringWorkspace_reports_cycle : ∃ w', ringWorkspace.serve
      [.get "res://b.br" .parsed, .get "res://b.br" .inheritanceSolved,
        .get "res://a.br" .inheritanceSolved] = some w' ∧
    (∀ j, j <:+ w'.journal → w'.Acyclic j) ∧ Reported ringProject w' ∧
    ∃ k, w'.unitOf.find? "res://b.br" = some k ∧
      w'.stateAt? ("res://b.br", 1) = some .invalid ∧ (w'.unit k).failedAt.isSome := by
  obtain ⟨hab, hba, -⟩ := ringProject_base
  have hcycle : ringProject.OnCycle ("res://b.br", 1) :=
    ⟨by decide +kernel, .tail (.single hba) hab⟩
  obtain ⟨w', hrun, hacyclic, -, -, hreports⟩ := serve_reports_cycle (w := ringWorkspace)
    ⟨rfl, rfl, rfl⟩
    ringProject (by decide +kernel) ringProject_singleCycle (by decide +kernel) (by decide +kernel)
    [("res://b.br", .parsed), ("res://b.br", .inheritanceSolved),
      ("res://a.br", .inheritanceSolved)]
    (by decide +kernel)
  obtain ⟨hreported, hspoiled⟩ := hreports ⟨_, hcycle⟩ (by decide +kernel)
  exact ⟨w', hrun, hacyclic, hreported, hspoiled _ hcycle⟩

/-- Two classes `A` are declared in each of two classes, and the later one is meant. It extends
nothing in `X`, and the class that extends it in `Y`. -/
def twinClasses (path : String) : List ClassDecl :=
  let outer (id : ClassId) (name : String) (line : Nat) : ClassDecl :=
    ((innerClass id 0 (path ++ "::" ++ name) name none line).addClass (id + 1)
      (ringIdent "A" (line + 1))
      |>.addClass (id + 2) (ringIdent "A" (line + 2))).addClass (id + 3) (ringIdent "B" (line + 3))
  [(ClassDecl.addClass { id := 0, name := none, qualified := path, span := .lines 1 1 } 1
      (ringIdent "X" 2)).addClass 5 (ringIdent "Y" 6),
    outer 1 "X" 2,
    innerClass 2 1 (path ++ "::X::A") "A" (some "B") 3,
    innerClass 3 1 (path ++ "::X::A") "A" none 4,
    innerClass 4 1 (path ++ "::X::B") "B" (some "A") 5,
    outer 5 "Y" 6,
    innerClass 6 5 (path ++ "::Y::A") "A" none 7,
    innerClass 7 5 (path ++ "::Y::A") "A" (some "B") 8,
    innerClass 8 5 (path ++ "::Y::B") "B" (some "A") 9]

def twinWorkspace : Workspace :=
  { files := .ofList [("res://m.br", .text "m")],
    programs := .ofList [("m", fileHolding twinClasses)] }

def twinProject : twinWorkspace.Project :=
  .ofClasses twinWorkspace twinClasses (List.forall_mem_singleton.2 ⟨"m", rfl, rfl⟩)
    (by decide +kernel) (by decide +kernel)

theorem twinProject_base (i : Fin 9) : twinProject.base ("res://m.br", i) =
    ([none, none, some 4, none, some 3, none, none, some 8, some 7].getD i none).map
      ("res://m.br", ·) := by
  revert i
  decide +kernel

theorem twinProject_acc (i : Fin 9) (hi : i < 7) :
    Acc (fun b a => twinProject.Extends a b) ("res://m.br", i) := by
  have h3 := Project.acc_of_base (twinProject_base 3) nofun
  have h4 : Acc (fun b a => twinProject.Extends a b) ("res://m.br", 4) := by
    refine Project.acc_of_base (twinProject_base 4) ?_
    rintro b ⟨⟩
    exact h3
  match i, hi with
  | 0, _ => exact Project.acc_of_base (twinProject_base 0) nofun
  | 1, _ => exact Project.acc_of_base (twinProject_base 1) nofun
  | 2, _ =>
    refine Project.acc_of_base (twinProject_base 2) ?_
    rintro b ⟨⟩
    exact h4
  | 3, _ => exact h3
  | 4, _ => exact h4
  | 5, _ => exact Project.acc_of_base (twinProject_base 5) nofun
  | 6, _ => exact Project.acc_of_base (twinProject_base 6) nofun

theorem twinProject_singleCycle : twinProject.SingleCycle := by
  refine Project.singleCycle_of_pair (twinProject_base 7) (twinProject_base 8) ?_
  show ∀ c ∈ (List.range 9).map (("res://m.br", ·) : ClassId → Place), _
  intro c hc
  obtain ⟨i, hi, rfl⟩ := List.mem_map.1 hc
  have hi := List.mem_range.1 hi
  rcases Nat.lt_or_ge i 7 with hlt | hge
  · exact .inr (.inr (Project.not_onCycle (twinProject_acc ⟨i, hi⟩ hlt)))
  · rcases Nat.eq_or_lt_of_le hge with rfl | hgt
    · exact .inl rfl
    · obtain rfl := Nat.le_antisymm (Nat.le_of_lt_succ hi) hgt
      exact .inr (.inl rfl)

/-- Where names do not tell classes apart, the only cycle is not the only one that is reported. -/
theorem twinWorkspace_reports_twice :
    twinWorkspace.Unused ∧ twinProject.Direct ∧ twinProject.SingleCycle ∧
    twinProject.files.length + twinProject.places.length < patience ∧
    twinProject.OnCycle ("res://m.br", 7) ∧ ¬ twinProject.OnCycle ("res://m.br", 2) ∧
    ∃ w', twinWorkspace.serve [.get "res://m.br" .inheritanceSolved] = some w' ∧
      (cycleReports (w'.unit 0)).map (·.span) = [.lines 3 3, .lines 8 8] ∧
      w'.stateAt? ("res://m.br", 2) = some .invalid := by
  exact ⟨⟨rfl, rfl, rfl⟩, by decide +kernel, twinProject_singleCycle, by decide +kernel,
    ⟨by decide +kernel, .tail (.single (twinProject_base 7)) (twinProject_base 8)⟩,
    Project.not_onCycle (twinProject_acc 2 (by decide)), by decide +kernel⟩

end Workspace

end HotScript
