import HotScript.Proofs.Inheritance.Steps

/-!
What the events of the analysis do to what has been said about cycles.

While nothing has been said, no event but the report of a cycle changes that. Once the cycle has
been reported, nothing makes a class on it usable again or saves its unit, and no other report is
made.
-/

namespace HotScript

namespace Workspace

variable {w0 w1 w2 w3 : Workspace} {P : w0.Project} {R R' : Looking} {S S' : List Place}
  {w w' : Workspace} {c : Place} {k id : UnitId} {i : ClassId}

/-! ### Nothing moves -/

/-- Nothing is different but what is known about nodes and members, and which units were used. -/
structure Unmoved (w w' : Workspace) : Prop extends Framed w w' where
  same : ∀ k, (w'.unit k).status = (w.unit k).status ∧ (w'.unit k).failedAt = (w.unit k).failedAt ∧
    (w'.unit k).diagnostics = (w.unit k).diagnostics

namespace Unmoved

theorem refl (w : Workspace) : Unmoved w w := ⟨.refl w, fun _ => ⟨rfl, rfl, rfl⟩⟩

theorem trans (h : Unmoved w1 w2) (h' : Unmoved w2 w3) : Unmoved w1 w3 := by
  refine ⟨h.toFramed.trans h'.toFramed, fun k => ?_⟩
  obtain ⟨hs, hf, hd⟩ := h.same k
  obtain ⟨hs', hf', hd'⟩ := h'.same k
  exact ⟨hs'.trans hs, hf'.trans hf, hd'.trans hd⟩

theorem answered (w : Workspace) (k : UnitId) (status : UnitStatus) (granted : Bool) :
    Unmoved w (w.happen k (.answered status granted)) := by
  refine ⟨.happen rfl (Nat.le_refl _), fun j => ?_⟩
  rw [unit_happen_of_apply fun _ => rfl]
  exact ⟨rfl, rfl, rfl⟩

theorem modifyUnit {f : FileUnit → FileUnit} (hp : (f (w.unit k)).path = (w.unit k).path)
    (ht : (f (w.unit k)).tree = (w.unit k).tree) (hc : (f (w.unit k)).classes = (w.unit k).classes)
    (hs : (f (w.unit k)).status = (w.unit k).status)
    (hf : (f (w.unit k)).failedAt = (w.unit k).failedAt)
    (hm : (f (w.unit k)).diagnostics = (w.unit k).diagnostics)
    (hd : w.Linked → (w.modifyUnit k f).Linked) : Unmoved w (w.modifyUnit k f) := by
  refine ⟨.modifyUnit hp ht hc hs hd, fun j => ⟨?_, ?_, ?_⟩⟩
  · exact congr_modifyUnit (·.status) hs j
  · exact congr_modifyUnit (·.failedAt) hf j
  · exact congr_modifyUnit (·.diagnostics) hm j

theorem fileFacts (w : Workspace) (k : UnitId) (found : NodeFacts) :
    Unmoved w (w.modifyUnit k fun u => u.fileFacts found) := by
  have hlater : w.Later (w.modifyUnit k fun u => u.fileFacts found) :=
    .quiet fun _ => .of_rest rfl rfl rfl rfl rfl rfl
  exact .modifyUnit rfl rfl rfl rfl rfl rfl hlater.linked

theorem addDependency {path : String} (k : UnitId) (h : w.unitOf.find? path = some id) :
    Unmoved w (w.modifyUnit k fun u => u.addDependency (w.unit id).path id) := by
  have hlater := later_addDependency k h
  refine .modifyUnit ?_ ?_ ?_ ?_ ?_ ?_ hlater.linked <;>
    rw [FileUnit.addDependency] <;> split <;> rfl

theorem errorCount (h : Unmoved w w') (k : UnitId) :
    (w'.unit k).errorCount = (w.unit k).errorCount := by
  rw [FileUnit.errorCount, FileUnit.errorCount, (h.same k).2.2]

end Unmoved

theorem Core.framed_same (h : Core P R S w) (hf : Framed w w')
    (hstatus : ∀ k, (w'.unit k).status = (w.unit k).status)
    (hfailed : ∀ k f, (w'.unit k).failedAt = some f → (w.unit k).failedAt = some f ∨
      UnitStatus.inheritanceSolved.rank ≤ f.rank) : Core P R S w' := by
  refine h.framed hf (fun k hk hrank hR => ?_) (fun k f hf => ?_) fun k n hR => ?_
  · exact h.idle k hk (hstatus k ▸ hrank) hR
  · exact (hfailed k f hf).elim (h.failed k f) id
  · rw [hstatus k]
    exact h.running k n hR

theorem Core.unmoved (h : Core P R S w) (hu : Unmoved w w') : Core P R S w' :=
  h.framed_same hu.toFramed (fun k => (hu.same k).1) fun k _ hf => .inl ((hu.same k).2.1 ▸ hf)

theorem Quiet.framed (h : Quiet R w) (hf : Framed w w')
    (hreports : ∀ k, cycleReports (w'.unit k) = cycleReports (w.unit k))
    (hfailed : ∀ k, (w'.unit k).failedAt.filter UnitStatus.inheritanceSolved.reaches = none)
    (herrors : ∀ k n, R' k = some n → (w'.unit k).errorCount = n) : Quiet R' w' where
  reports k := (hreports k).trans (h.reports k)
  usable c := by
    rw [hf.stateAt? c]
    exact h.usable c
  failed := hfailed
  errors := herrors

theorem Told.framed (h : Told P R w) (hf : Framed w w')
    (hreports : ∀ k, cycleReports (w'.unit k) = cycleReports (w.unit k))
    (hdoomed : ∀ k, Doomed R w k → Doomed R' w' k) : Told P R' w' where
  report := h.report.congr hreports fun k _ => hf.path k
  spoiled c hc := by
    obtain ⟨k, hk, hstate, hdoom⟩ := h.spoiled c hc
    exact ⟨k, hf.unitOf ▸ hk, (hf.stateAt? c).trans hstate, hdoomed k hdoom⟩

theorem Inv.unmoved (h : Inv P R S w) (hu : Unmoved w w') : Inv P R S w' := by
  have hreports (k : UnitId) : cycleReports (w'.unit k) = cycleReports (w.unit k) := by
    rw [cycleReports, cycleReports, (hu.same k).2.2]
  refine ⟨h.core.unmoved hu, h.verdict.imp (fun hq => ?_) fun ht => ?_⟩
  · refine hq.framed hu.toFramed hreports (fun k => ?_) fun k n hR => ?_
    · rw [(hu.same k).2.1]
      exact hq.failed k
    · rw [hu.errorCount]
      exact hq.errors k n hR
  · refine ht.framed hu.toFramed hreports fun k hd => ?_
    rw [Doomed, (hu.same k).2.1, hu.errorCount]
    exact hd

/-! ### A message -/

theorem framed_reported (w : Workspace) (k : UnitId) (d : Diagnostic) :
    Framed w (w.happen k (.reported d)) := .happen rfl (Nat.le_refl _)

theorem Core.reported (h : Core P R S w) (k : UnitId) (d : Diagnostic) :
    Core P R S (w.happen k (.reported d)) :=
  h.framed_same (framed_reported w k d) (congr_happen (·.status) rfl)
    fun j _ hf => .inl (congr_happen (k := k) (e := .reported d) (·.failedAt) rfl j ▸ hf)

variable {d : Diagnostic}

theorem cycleReports_reported (w : Workspace) (k j : UnitId) (hd : d.isCycle = false) :
    cycleReports ((w.happen k (.reported d)).unit j) = cycleReports (w.unit j) := by
  refine congr_happen cycleReports ?_ j
  rw [cycleReports, FileUnit.apply, FileUnit.report, List.filter_append, List.filter_singleton, hd]
  exact List.append_nil _

theorem errorCount_reported (hk : k < w.units.size) (hd : d.isError = true) :
    ((w.happen k (.reported d)).unit k).errorCount = (w.unit k).errorCount + 1 := by
  rw [unit_happen_self hk, FileUnit.errorCount, FileUnit.apply, FileUnit.report, List.countP_append,
    List.countP_singleton, hd]
  rfl

theorem Doomed.later (h : Doomed R w k) (hk : k < w.units.size) (hl : w.Later w') :
    Doomed R w' k := by
  have hunit := (hl.units k hk).2
  rcases h with h | ⟨n, hR, hn⟩
  · exact .inl (hunit.failed h)
  · exact .inr ⟨n, hR, Nat.lt_of_lt_of_le hn hunit.errorCount_le⟩

theorem Told.reported (h : Told P R w) (k : UnitId) (hd : d.isCycle = false) :
    Told P R (w.happen k (.reported d)) := by
  refine h.framed (framed_reported w k d) (fun j => cycleReports_reported w k j hd) fun j hj => ?_
  rcases Nat.lt_or_ge j w.units.size with hlt | hge
  · exact hj.later hlt (later_reported w k d)
  · rw [Doomed, unit, Array.getElem?_eq_none hge] at hj
    rcases hj with hj | ⟨n, -, hn⟩
    · cases hj
    · exact absurd hn (Nat.not_lt_zero n)

/-! ### A class is put into a state -/

variable {state : InheritanceState} {base : StaticType} {j : UnitId} {n : Nat}

theorem Bonded.errorCount (hb : Bonded w w' k i state base) (j : UnitId) :
    (w'.unit j).errorCount = (w.unit j).errorCount := by
  rw [FileUnit.errorCount, FileUnit.errorCount, (hb.units j).2.2.2]

theorem Bonded.cycleReports (hb : Bonded w w' k i state base) (j : UnitId) :
    Workspace.cycleReports (w'.unit j) = Workspace.cycleReports (w.unit j) := by
  rw [Workspace.cycleReports, Workspace.cycleReports, (hb.units j).2.2.2]

section

variable (hb : Bonded w w' k i state base) (hl : w.Linked) (hk : k < w.units.size)
  (hi : i < (w.unit k).classes.size)

include hb hl hk hi

theorem Quiet.bond (h : Quiet R w) (hstate : state ≠ .invalid) : Quiet R w' where
  reports j := (hb.cycleReports j).trans (h.reports j)
  usable c := by
    rw [hb.stateAt? hl hk hi]
    split
    · exact fun heq => hstate (Option.some.inj heq)
    · exact h.usable c
  failed j := by
    rw [(hb.units j).2.2.1]
    exact h.failed j
  errors j n hR := by
    rw [hb.errorCount]
    exact h.errors j n hR

theorem Told.bond (h : Told P R w)
    (hstate : state = .invalid ∨ ¬ P.OnCycle ((w.unit k).path, i)) : Told P R w' where
  report := h.report.congr hb.cycleReports fun j _ => hb.path j
  spoiled c hc := by
    obtain ⟨j, hj, hinvalid, hdoom⟩ := h.spoiled c hc
    refine ⟨j, hb.unitOf ▸ hj, ?_, ?_⟩
    · rw [hb.stateAt? hl hk hi]
      split
      · next heq =>
        subst heq
        rw [hstate.resolve_right fun hno => hno hc]
      · exact hinvalid
    · rw [Doomed, (hb.units j).2.2.1, hb.errorCount]
      exact hdoom

end

theorem Inv.not_onCycle (h : Inv P R S w) (ht : Told P R w) (hc : c ∈ S) : ¬ P.OnCycle c := by
  intro hcycle
  obtain ⟨-, -, hinvalid, -⟩ := ht.spoiled c hcycle
  rw [(h.core.stack c).1 hc] at hinvalid
  cases hinvalid

/-! ### The stage that looks for bases -/

/-- One more unit is looking for bases, with the errors that it had before. -/
def Looking.during (R : Looking) (k : UnitId) (n : Nat) : Looking :=
  fun j => if j = k then some n else R j

theorem Looking.during_self (R : Looking) (k : UnitId) (n : Nat) :
    R.during k n k = some n := if_pos rfl

theorem Looking.during_of_ne (R : Looking) (n : Nat) (h : j ≠ k) : R.during k n j = R j :=
  if_neg h

theorem Core.not_looking (h : Core P R S w)
    (hstatus : (w.unit k).status.rank < UnitStatus.inheritanceSolved.rank) : R k = none := by
  cases hR : R k with
  | none => rfl
  | some n => exact absurd (h.running k n hR).2 (Nat.not_le.2 hstatus)

theorem Inv.began (h : Inv P R S w) (hk : k < w.units.size)
    (hnext : (w.unit k).status.next? = some .inheritanceSolved) :
    Inv P (R.during k (w.unit k).errorCount) S (w.happen k (.began .inheritanceSolved)) := by
  have hrank := UnitStatus.rank_next hnext
  have hframed : Framed w (w.happen k (.began .inheritanceSolved)) :=
    .happen rfl (Nat.le_of_lt (hrank ▸ Nat.lt_succ_self _))
  have hnone : R k = none := h.core.not_looking (hrank ▸ Nat.lt_succ_self _)
  have hself := unit_happen_self (w := w) (e := .began .inheritanceSolved) hk
  have hrest {j : UnitId} (hj : j ≠ k) :
      (w.happen k (.began .inheritanceSolved)).unit j = w.unit j := unit_happen_of_ne hj
  have hfailed := congr_happen (w := w) (k := k) (e := .began .inheritanceSolved) (·.failedAt) rfl
  have herrors := congr_happen (w := w) (k := k) (e := .began .inheritanceSolved) (·.errorCount) rfl
  have hreports := congr_happen (w := w) (k := k) (e := .began .inheritanceSolved) cycleReports rfl
  refine ⟨h.core.framed hframed (fun j hj hstatus hR => ?_) (fun j f hf => ?_) fun j n hR => ?_,
    h.verdict.imp (fun hq => hq.framed hframed hreports (fun j => ?_) fun j n hR => ?_)
      fun ht => ht.framed hframed hreports fun j hd => ?_⟩
  · by_cases hjk : j = k
    · subst hjk
      rw [Looking.during_self] at hR
      cases hR
    · rw [Looking.during_of_ne _ _ hjk] at hR
      rw [hrest hjk] at hstatus
      exact h.core.idle j hj hstatus hR
  · exact h.core.failed j f (hfailed j ▸ hf)
  · by_cases hjk : j = k
    · subst hjk
      rw [hself]
      exact ⟨hk, Nat.le_refl _⟩
    · rw [Looking.during_of_ne _ _ hjk] at hR
      rw [hrest hjk]
      exact h.core.running j n hR
  · rw [hfailed]
    exact hq.failed j
  · rw [herrors]
    by_cases hjk : j = k
    · subst hjk
      rw [Looking.during_self] at hR
      exact Option.some.inj hR
    · rw [Looking.during_of_ne _ _ hjk] at hR
      exact hq.errors j n hR
  · rw [Doomed, hfailed, herrors]
    refine hd.imp_right fun ⟨n, hR, hn⟩ => ⟨n, ?_, hn⟩
    have hjk : j ≠ k := by
      rintro rfl
      rw [hnone] at hR
      cases hR
    rw [Looking.during_of_ne _ _ hjk, hR]

theorem unit_endStage_of_ne {stage : UnitStatus} (h : j ≠ k) :
    (w.endStage k stage n).unit j = w.unit j := by
  rw [endStage, unit_happen_of_ne h]
  split
  · exact unit_happen_of_ne h
  · rfl

section

variable (w k n) (stage : UnitStatus)

theorem framed_endStage : Framed w (w.endStage k stage n) := by
  rw [endStage]
  split
  · exact (Framed.happen rfl (Nat.le_refl _)).trans (.happen rfl (Nat.le_refl _))
  · exact .happen rfl (Nat.le_refl _)

theorem unit_endStage_same (j : UnitId) :
    ((w.endStage k stage n).unit j).status = (w.unit j).status ∧
      ((w.endStage k stage n).unit j).diagnostics = (w.unit j).diagnostics := by
  by_cases hj : j = k
  · subst hj
    rw [unit_endStage]
    split <;> exact ⟨rfl, rfl⟩
  · rw [unit_endStage_of_ne hj]
    exact ⟨rfl, rfl⟩

theorem errorCount_endStage :
    ((w.endStage k stage n).unit j).errorCount = (w.unit j).errorCount := by
  rw [FileUnit.errorCount, FileUnit.errorCount, (unit_endStage_same w k n stage j).2]

end

theorem Inv.ended (h : Inv P (R.during k n) S w) (hR : R k = none)
    (hlooked : ∀ f ∈ (w.unit k).classes, f.inheritance ≠ .unresolved) :
    Inv P R S (w.endStage k .inheritanceSolved n) := by
  have hframed := framed_endStage w k n .inheritanceSolved
  have hself := unit_endStage w k .inheritanceSolved n
  have hrest {j : UnitId} (hj : j ≠ k) : (w.endStage k .inheritanceSolved n).unit j = w.unit j :=
    unit_endStage_of_ne hj
  have hsame := unit_endStage_same w k n .inheritanceSolved
  have hreports (j : UnitId) : cycleReports ((w.endStage k .inheritanceSolved n).unit j) =
      cycleReports (w.unit j) := by rw [cycleReports, cycleReports, (hsame j).2]
  have hduring {j : UnitId} {m : Nat} (hj : R j = some m) : R.during k n j = some m := by
    rwa [Looking.during_of_ne]
    rintro rfl
    rw [hR] at hj
    cases hj
  refine ⟨h.core.framed hframed (fun j hj hstatus hRj => ?_) (fun j f hf => ?_) fun j m hRj => ?_,
    h.verdict.imp (fun hq => hq.framed hframed hreports (fun j => ?_) fun j m hRj => ?_)
      fun ht => ht.framed hframed hreports fun j hd => ?_⟩
  · by_cases hjk : j = k
    · subst hjk
      exact hlooked
    · rw [hrest hjk] at hstatus
      exact h.core.idle j hj hstatus ((Looking.during_of_ne _ _ hjk).trans hRj)
  · by_cases hjk : j = k
    · subst hjk
      rw [hself] at hf
      split at hf
      · cases hf
        exact Nat.le_refl _
      · exact h.core.failed j f hf
    · exact h.core.failed j f (hrest hjk ▸ hf)
  · rw [(hsame j).1]
    exact h.core.running j m (hduring hRj)
  · -- a unit that got no error does not fail
    by_cases hjk : j = k
    · subst hjk
      rw [hself, hq.errors j n (Looking.during_self _ _ _), if_neg (Nat.lt_irrefl n)]
      exact hq.failed j
    · rw [hrest hjk]
      exact hq.failed j
  · rw [errorCount_endStage]
    exact hq.errors j m (hduring hRj)
  · by_cases hjk : j = k
    · subst hjk
      rcases hd with hd | ⟨m, hm, hlt⟩
      · refine .inl ?_
        rw [hself]
        split
        · rfl
        · exact hd
      · obtain rfl : n = m := Option.some.inj ((Looking.during_self _ _ _).symm.trans hm)
        refine .inl ?_
        rw [hself, if_pos hlt]
        rfl
    · rw [Doomed, hrest hjk, ← Looking.during_of_ne R n hjk]
      exact hd

/-! ### A class is made unusable from outside -/

theorem poison_cases (w : Workspace) (k : UnitId) (i : ClassId) (d : Diagnostic) :
    ∃ base, let w2 := (w.happen k (.spoiled i base)).happen k (.reported d)
      w.poison k i d = w2 ∧ (w2.unit k).failedAt.isSome ∨
      ∃ stage, UnitStatus.inheritanceSolved.rank ≤ stage.rank ∧
        w.poison k i d = w2.happen k (.failed stage) := by
  refine ⟨(((w.unit k).classFacts? i).map (·.base)).getD .variant, ?_⟩
  intro w2
  rw [poison]
  cases hfailed : (w2.unit k).failedAt with
  | some stage => exact .inl ⟨rfl, rfl⟩
  | none =>
    refine .inr ⟨if (w2.unit k).status.reaches .inheritanceSolved then (w2.unit k).status
      else .inheritanceSolved, ?_, rfl⟩
    split
    · next hreach => exact of_decide_eq_true hreach
    · exact Nat.le_refl _

section

variable (hk : k < w.units.size) (hi : i < (w.unit k).classes.size) (d : Diagnostic)

include hk hi

theorem Core.spoiled (h : Core P R S w) (base : StaticType)
    (hS : ∀ c, c ∈ S' ↔ c ∈ S ∧ c ≠ ((w.unit k).path, i)) :
    Core P R S' (w.happen k (.spoiled i base)) := by
  refine h.bond hk hi ((bonds_spoiled i base).happen hk) nofun (fun c => ?_) nofun
  rw [hS]
  split
  · next heq => exact ⟨fun hand => absurd heq hand.2, nofun⟩
  · next hne => exact and_iff_left hne

theorem Core.poison (h : Core P R S w) (hS : ∀ c, c ∈ S' ↔ c ∈ S ∧ c ≠ ((w.unit k).path, i)) :
    Core P R S' (w.poison k i d) := by
  obtain ⟨base, hpoison⟩ := poison_cases w k i d
  have hcore2 := (h.spoiled hk hi base hS).reported k d
  rcases hpoison with ⟨heq, -⟩ | ⟨stage, hstage, heq⟩
  · rw [heq]
    exact hcore2
  · rw [heq]
    have hlt : k < ((w.happen k (.spoiled i base)).happen k (.reported d)).units.size := by
      rw [size_happen, size_happen]
      exact hk
    refine hcore2.framed_same (.happen rfl (Nat.le_refl _)) (congr_happen (·.status) rfl)
      fun j f hf => ?_
    by_cases hjk : j = k
    · subst hjk
      rw [unit_happen_self hlt] at hf
      cases hf
      exact .inr hstage
    · exact .inl (unit_happen_of_ne hjk ▸ hf)

omit hi in
theorem failedAt_poison : ((w.poison k i d).unit k).failedAt.isSome := by
  obtain ⟨base, hpoison⟩ := poison_cases w k i d
  rcases hpoison with ⟨heq, hfailed⟩ | ⟨stage, -, heq⟩
  · rw [heq]
    exact hfailed
  · rw [heq, unit_happen_self (by rw [size_happen, size_happen]; exact hk)]
    rfl

theorem stateAt?_poison (hl : w.Linked) (c : Place) :
    (w.poison k i d).stateAt? c = if c = ((w.unit k).path, i) then some .invalid
    else w.stateAt? c := by
  obtain ⟨base, hpoison⟩ := poison_cases w k i d
  have hb := (bonds_spoiled i base).happen hk
  have hframed : Framed (w.happen k (.spoiled i base)) (w.poison k i d) := by
    rcases hpoison with ⟨heq, -⟩ | ⟨stage, -, heq⟩
    · rw [heq]
      exact framed_reported _ k d
    · rw [heq]
      exact (framed_reported _ k d).trans (.happen rfl (Nat.le_refl _))
  rw [hframed.stateAt?, hb.stateAt? hl hk hi]

omit hi in
theorem cycleReports_poison (hd : d.isCycle = false) (j : UnitId) :
    cycleReports ((w.poison k i d).unit j) = cycleReports (w.unit j) := by
  obtain ⟨base, hpoison⟩ := poison_cases w k i d
  have hb := (bonds_spoiled i base).happen hk
  have hreported : cycleReports (((w.happen k (.spoiled i base)).happen k (.reported d)).unit j) =
      cycleReports (w.unit j) := by
    rw [cycleReports_reported _ k j hd, cycleReports, (hb.units j).2.2.2]
    rfl
  rcases hpoison with ⟨heq, -⟩ | ⟨stage, -, heq⟩
  · rw [heq]
    exact hreported
  · rw [heq, ← hreported]
    exact congr_happen cycleReports rfl j

end

end Workspace

end HotScript
