import HotScript.Proofs.Inheritance.Chains

/-!
The base of a class, from the moment it is looked for until it is known.

A class that is looked at is put on the stack and leaves it with a base, or unusable. When the chain
of bases comes back to it, none of the others on the cycle is being looked at, so no other reports
it.
-/

namespace HotScript

namespace Workspace

open Analyze

variable {w0 : Workspace} {P : w0.Project} {R : Looking} {S : List Place}
  {w w' : Workspace} {d : Desk} {c : Place} {k j : UnitId} {i cls : ClassId}

/-! ### Reporting a cycle -/

theorem Reported.later (h : Reported P w) (hl : w.Later w')
    (hreports : ∀ j, cycleReports (w'.unit j) = cycleReports (w.unit j)) : Reported P w' := by
  refine h.congr hreports fun j hsome => ?_
  have hj : j < w.units.size := by
    refine Nat.lt_of_not_le fun hge => hsome ?_
    rw [unit, Array.getElem?_eq_none hge]
    rfl
  exact (hl.units j hj).2.path

/-- The cycle has been reported by the unit `k`, and those classes on it that are not left to be
dealt with are unusable. -/
structure Telling (P : w0.Project) (R : Looking) (S : List Place) (k : UnitId)
    (todo : List Place) (w : Workspace) : Prop where
  core : ∃ S', Core P R S' w ∧ ∀ x, x ∈ S' ↔ x ∈ S ∧ (P.OnCycle x → x ∈ todo)
  report : Reported P w
  own : k < w.units.size ∧ Doomed R w k
  nodup : todo.Nodup
  left : ∀ x ∈ todo, P.OnCycle x ∧ (w.unitOf.find? x.1).isSome ∧ w.stateAt? x ≠ some .invalid
  spoiled : ∀ x, P.OnCycle x → x ∉ todo → ∃ j, w.unitOf.find? x.1 = some j ∧
    w.stateAt? x = some .invalid ∧ Doomed R w j

namespace Telling

variable {todo : List Place}

theorem unmoved (h : Telling P R S k todo w) (hu : Unmoved w w') : Telling P R S k todo w' := by
  have hdoomed (j : UnitId) (hd : Doomed R w j) : Doomed R w' j := by
    rw [Doomed, (hu.same j).2.1, hu.errorCount]
    exact hd
  obtain ⟨S', hcore, hS'⟩ := h.core
  refine ⟨⟨S', hcore.unmoved hu, hS'⟩, h.report.congr (fun j => ?_) fun j _ => hu.path j, ?_,
    h.nodup, fun x hx => ?_, fun x hx hnot => ?_⟩
  · rw [cycleReports, cycleReports, (hu.same j).2.2]
  · rw [hu.size]
    exact ⟨h.own.1, hdoomed k h.own.2⟩
  · rw [hu.unitOf, hu.stateAt?]
    exact h.left x hx
  · obtain ⟨j, hj, hstate, hdoom⟩ := h.spoiled x hx hnot
    exact ⟨j, hu.unitOf ▸ hj, (hu.stateAt? x).trans hstate, hdoomed j hdoom⟩

theorem step (h : Telling P R S k (c :: todo) w) (hj : w.unitOf.find? c.1 = some j)
    (hl : w.Later w') (hcore : ∀ S1 S2, Core P R S1 w → (∀ x, x ∈ S2 ↔ x ∈ S1 ∧ x ≠ c) →
      Core P R S2 w')
    (hreports : ∀ j, cycleReports (w'.unit j) = cycleReports (w.unit j))
    (hstate : ∀ x, w'.stateAt? x = if x = c then some .invalid else w.stateAt? x)
    (hdoom : Doomed R w' j) : Telling P R S k todo w' := by
  obtain ⟨S', hS, hS'⟩ := h.core
  obtain ⟨hnot, hnodup⟩ := List.nodup_cons.1 h.nodup
  have hc := (h.left c (.head _)).1
  refine ⟨⟨S'.filter (· ≠ c), hcore S' _ hS fun x => by simp, fun x => ?_⟩,
    h.report.later hl hreports, ?_, hnodup, fun x hx => ?_, fun x hx hleft => ?_⟩
  · rw [List.mem_filter, hS', decide_eq_true_iff, and_assoc]
    refine and_congr_right fun _ => ⟨fun ⟨hin, hne⟩ hx => ?_, fun hin => ⟨fun hx => ?_, ?_⟩⟩
    · exact (List.mem_cons.1 (hin hx)).resolve_left hne
    · exact List.mem_cons_of_mem _ (hin hx)
    · rintro rfl
      exact hnot (hin hc)
  · obtain ⟨hk, hd⟩ := h.own
    exact ⟨(hl.units k hk).1, (hd).later hk hl⟩
  · obtain ⟨hcycle, hplaced, hvalid⟩ := h.left x (.tail _ hx)
    obtain ⟨m, hm⟩ := Option.isSome_iff_exists.1 hplaced
    have hne : x ≠ c := by
      rintro rfl
      exact hnot hx
    refine ⟨hcycle, by rw [hl.unitOf _ m hm]; rfl, ?_⟩
    rw [hstate, if_neg hne]
    exact hvalid
  · rw [hstate]
    by_cases hxc : x = c
    · subst hxc
      exact ⟨j, hl.unitOf _ j hj, if_pos rfl, hdoom⟩
    · have hleft' : x ∉ c :: todo := fun hin => hleft ((List.mem_cons.1 hin).resolve_left hxc)
      obtain ⟨m, hm, hinvalid, hd⟩ := h.spoiled x hx hleft'
      have hlt := (hS.linked.placed _ m hm).1
      exact ⟨m, hl.unitOf _ m hm, by rw [if_neg hxc, hinvalid], (hd).later hlt hl⟩

end Telling

theorem cycleReports_cycle (hk : k < w.units.size) {e : Diagnostic} (he : e.isCycle = true) :
    cycleReports ((w.happen k (.reported e)).unit k) = cycleReports (w.unit k) ++ [e] := by
  rw [unit_happen_self hk, cycleReports, FileUnit.apply, FileUnit.report, List.filter_append,
    List.filter_singleton, he]
  rfl

section

variable {n : Nat} {r : Resolver} (hP : P.Plain) (hr : Serves P n r) {B : Prop} {c0 : Place}
  {passed S' : List Place}

variable {clause : ExtendsClause} {todo : List Place}

theorem Core.telling (h : Core P R S w) (hq : Quiet R w) (hk : k < w.units.size)
    (hlook : ∃ m, R k = some m) (hpath : c0.1 = (w.unit k).path) (hc0 : c0 ∈ S)
    (hmem : c0 ∈ P.places)
    (hP : P.Plain) (htrail : P.Trail c0 passed c0) (hnodup : passed.Nodup) (hfresh : c0 ∉ passed)
    (hres : ∀ x ∈ passed, w.stateAt? x = some .resolved)
    (hclause : (P.class? c0).bind (·.clause) = some clause) (names : List String) :
    Telling P R S k (c0 :: passed.reverse)
      (w.happen k
        (.reported (.resolution (.cyclicInheritance (P.ref c0).name names) clause.span))) := by
  have hcycle {x : Place} : P.OnCycle x ↔ x ∈ c0 :: passed.reverse := by
    rw [htrail.onCycle_iff hmem hP.single, List.mem_cons, List.mem_reverse]
  have hframed := framed_reported w k
    (.resolution (.cyclicInheritance (P.ref c0).name names) clause.span)
  refine ⟨⟨S, h.reported _ _, fun x => ?_⟩, ⟨k, c0, clause, names, hcycle.2 (.head _), hclause,
    ?_, ?_, fun j hj => ?_⟩, ⟨?_, ?_⟩, ?_, fun x hx => ⟨hcycle.2 hx, ?_⟩,
    fun x hx hnot => absurd (hcycle.1 hx) hnot⟩
  · exact (and_iff_left hcycle.1).symm
  · rw [hframed.path, hpath]
  · rw [cycleReports_cycle hk rfl, hq.reports]
    rfl
  · rw [unit_happen_of_ne hj, hq.reports]
  · rw [hframed.size]
    exact hk
  · obtain ⟨m, hm⟩ := hlook
    refine .inr ⟨m, hm, ?_⟩
    rw [errorCount_reported hk rfl, hq.errors k m hm]
    exact Nat.lt_succ_self m
  · exact List.nodup_cons.2 ⟨fun hin => hfresh (List.mem_reverse.1 hin),
      List.nodup_reverse.2 hnodup⟩
  · have hstate : ∃ s, w.stateAt? x = some s ∧ s ≠ .invalid := by
      rcases List.mem_cons.1 hx with rfl | hx
      · exact ⟨_, (h.stack _).1 hc0, nofun⟩
      · exact ⟨_, hres x (List.mem_reverse.1 hx), nofun⟩
    obtain ⟨s, hs, hne⟩ := hstate
    obtain ⟨f, hf, -⟩ := Option.map_eq_some_iff.1 hs
    obtain ⟨m, hm, -⟩ := Option.bind_eq_some_iff.1 hf
    rw [hframed.unitOf, hframed.stateAt?, hm, hs]
    exact ⟨rfl, fun heq => hne (Option.some.inj heq)⟩

theorem Core.congr (h : Core P R S w) (hS : ∀ c, c ∈ S ↔ c ∈ S') :
    Core P R S' w := { h with stack := fun c => (hS c).symm.trans (h.stack c) }

theorem Telling.spoiled_own (ht : Telling P R S k (c :: todo) w) (hc : c.1 = (w.unit k).path) :
    Telling P R S k todo (w.happen k (.spoiled c.2 .variant)) := by
  obtain ⟨S', hcore, -⟩ := ht.core
  obtain ⟨hk, hdoom⟩ := ht.own
  have hl := later_spoiled w k c.2 .variant
  have hplace : c = ((w.unit k).path, c.2) := Prod.ext hc rfl
  have hi : c.2 < (w.unit k).classes.size := by
    rw [(hcore.stands k hk).count, ← hc]
    exact (P.mem_places.1 (ht.left c (.head _)).1.1).2
  have hb := (bonds_spoiled c.2 .variant).happen hk
  refine ht.step (hc ▸ hcore.linked.owned k hk) hl (fun S1 S2 h1 hS => ?_) hb.cycleReports
    (fun x => ?_) (hdoom.later hk hl)
  · rw [hplace] at hS
    exact h1.spoiled hk hi .variant hS
  · rw [hb.stateAt? hcore.linked hk hi, ← hplace]

theorem Telling.poisoned (ht : Telling P R S k (c :: todo) w)
    (hj : w.unitOf.find? c.1 = some j) {e : Diagnostic} (he : e.isCycle = false) :
    Telling P R S k todo (w.poison j c.2 e) := by
  obtain ⟨S', hcore, -⟩ := ht.core
  obtain ⟨hlt, hc⟩ := hcore.linked.placed _ j hj
  have hplace : c = ((w.unit j).path, c.2) := Prod.ext hc.symm rfl
  have hi : c.2 < (w.unit j).classes.size := by
    rw [(hcore.stands j hlt).count, hc]
    exact (P.mem_places.1 (ht.left c (.head _)).1.1).2
  refine ht.step hj (later_poison w j c.2 e) (fun S1 S2 h1 hS => ?_) (cycleReports_poison hlt e he)
    (fun x => ?_) (.inl (failedAt_poison hlt e))
  · rw [hplace] at hS
    exact h1.poison hlt hi e hS
  · rw [stateAt?_poison hlt hi e hcore.linked, ← hplace]

include hP hr

theorem reportCycle_does (hB : B → 0 < n) (h : Core P R (c0 :: S) d.work) (hq : Quiet R d.work)
    (hlt : d.cursor.unit < d.work.units.size) (hlook : ∃ m, R d.cursor.unit = some m)
    (hc0 : c0 = ((d.work.unit d.cursor.unit).path, i)) (hmem : c0 ∈ P.places) (hnot : c0 ∉ S)
    {classes : List ClassRef} (hclasses : classes.dropLast = P.ref c0 :: passed.reverse.map P.ref)
    (htrail : P.Trail c0 passed c0) (hnodup : passed.Nodup) (hfresh : c0 ∉ passed)
    (hres : ∀ x ∈ passed, d.work.stateAt? x = some .resolved)
    (hclause : (P.class? c0).bind (·.clause) = some clause) :
    Does B (reportCycle r i classes clause.span) d fun _ d' =>
      Core P R S d'.work ∧ Told P R d'.work := by
  have hname : className i d = some ((P.ref c0).name, d) := by
    have hi := (P.mem_places.1 hmem).2
    rw [hc0] at hi ⊢
    exact bind_some.2 ⟨_, _, h.refOf hlt hi, rfl⟩
  have htelling := h.telling hq hlt hlook (by rw [hc0]) (.head _) hmem hP htrail hnodup
    hfresh hres hclause (classes.map (·.name))
  refine .step hname (.step rfl ?_)
  rw [hclasses]
  refine .bind (.forIn (I := fun left d' => ∃ todo, left = todo.map P.ref ∧ d'.cursor = d.cursor ∧
    Telling P R (c0 :: S) d.cursor.unit todo d'.work) ⟨c0 :: passed.reverse, rfl, rfl, htelling⟩ ?_)
    fun _ d' ⟨todo, hnil, _, ht⟩ => .pure ?_
  · rintro cls left d1 ⟨todo, hcons, hcursor, ht⟩
    cases todo with
    | nil => cases hcons
    | cons c todo =>
      obtain ⟨rfl, rfl⟩ := List.cons.inj hcons
      obtain ⟨S', hcore, -⟩ := ht.core
      obtain ⟨hcycle, hplaced, hvalid⟩ := ht.left c (.head _)
      obtain ⟨j, hj⟩ := Option.isSome_iff_exists.1 hplaced
      refine .step rfl (.ite (fun heq => ?_) fun hne => ?_)
      · refine .step rfl (.pure ⟨rfl, todo, rfl, hcursor, ?_⟩)
        have hc : c.1 = (d1.work.unit d.cursor.unit).path := by
          rw [← hcursor]
          simpa using heq
        rw [hcursor, P.ref_index]
        exact ht.spoiled_own hc
      · have hfind : d1.work.unitOf.find? (P.ref c).path = some j := by rw [P.ref_path, hj]
        refine .bind (unitOf_does hr hB hcore (hcursor ▸ ht.own.1) hfind) fun a d2 hd => ?_
        obtain ⟨rfl, hcursor2, hu⟩ := hd
        have ht2 := ht.unmoved hu
        have hj2 : d2.work.unitOf.find? c.1 = some j := hu.unitOf ▸ hj
        rw [P.ref_index]
        refine .step rfl (.ite (fun _ => ?_) fun hinvalid => ?_)
        · exact .step rfl (.pure ⟨rfl, todo, rfl, hcursor2.trans hcursor, ht2.poisoned hj2 rfl⟩)
        · -- a class that is left is not unusable yet
          obtain ⟨S2, hcore2, -⟩ := ht2.core
          obtain ⟨hlt2, hpath2⟩ := hcore2.linked.placed _ j hj2
          have hi : c.2 < (d2.work.unit j).classes.size := by
            rw [(hcore2.stands j hlt2).count, hpath2]
            exact (P.mem_places.1 hcycle.1).2
          have hstate := hcore2.stateAt?_eq hlt2 hi
          rw [hpath2, not_not.1 hinvalid] at hstate
          exact absurd hstate (ht2.left c (.head _)).2.2
  · -- all classes on the cycle were dealt with, and what is left of the stack was not on it
    obtain rfl : todo = [] := List.map_eq_nil_iff.1 hnil.symm
    obtain ⟨S', hcore, hS'⟩ := ht.core
    refine ⟨hcore.congr fun x => ?_, ht.report, fun x hx => ht.spoiled x hx List.not_mem_nil⟩
    rw [hS', List.mem_cons]
    constructor
    · rintro ⟨rfl | hx, hoff⟩
      · exact absurd (hoff ⟨hmem, htrail.transGen⟩) List.not_mem_nil
      · exact hx
    · intro hx
      refine ⟨.inr hx, fun hcycle => ?_⟩
      rcases (htrail.onCycle_iff hmem hP.single).1 hcycle with rfl | hpassed
      · exact absurd hx hnot
      · have hstate := (h.stack x).1 (.tail _ hx)
        rw [hres x hpassed] at hstate
        cases hstate

end

/-! ### A class is looked at -/

section

variable {n : Nat} {r : Resolver} (hP : P.Plain) (hr : Serves P n r) {B : Prop} {c0 b : Place}
  {d' : Desk}

/-- The class `i` of the unit that the analysis stands in is being looked at. -/
structure Resolving (P : w0.Project) (R : Looking) (S : List Place) (c0 : Place)
    (i : ClassId) (d : Desk) : Prop where
  inv : Inv P R (c0 :: S) d.work
  stood : Stood d
  look : ∃ m, R d.cursor.unit = some m
  place : c0 = ((d.work.unit d.cursor.unit).path, i)
  mem : c0 ∈ P.places
  fresh : c0 ∉ S

/-- The look at a class is over. -/
def Finished (P : w0.Project) (R : Looking) (S : List Place) (c0 : Place) (w : Workspace) : Prop :=
  Inv P R S w ∧ ∃ s, w.stateAt? c0 = some s ∧ s ≠ .unresolved

namespace Resolving

theorem onward (h : Resolving P R S c0 i d) (ho : Onward P R (c0 :: S) d d') :
    Resolving P R S c0 i d' where
  inv := ho.inv
  stood := h.stood.onward h.inv.core.linked ho
  look := ho.unit ▸ h.look
  place := by rw [ho.unit, (ho.later.units _ h.stood.lt).2.path, h.place]
  mem := h.mem
  fresh := h.fresh

variable (h : Resolving P R S c0 i d)

include h

theorem lt : i < (d.work.unit d.cursor.unit).classes.size := by
  have hi := (P.mem_places.1 h.mem).2
  rw [h.place] at hi
  exact Nat.lt_of_lt_of_eq hi (h.inv.core.stands _ h.stood.lt).count.symm

theorem leave (s : InheritanceState) (hs : s ≠ .resolving) (c : Place) :
    c ∈ S ↔ if c = ((d.work.unit d.cursor.unit).path, i) then s = .resolving else c ∈ c0 :: S := by
  rw [← h.place]
  split
  · next heq =>
    subst heq
    exact ⟨fun hmem => absurd hmem h.fresh, fun heq => absurd heq hs⟩
  · next hne => exact ⟨List.mem_cons_of_mem _, fun hmem => (List.mem_cons.1 hmem).resolve_left hne⟩

/-- A class that is being looked at is not on a cycle that was reported, so no bases lead back to
it. -/
theorem not_reflTransGen (ht : Told P R d.work) (hcb : P.Extends c0 b) :
    ¬ Relation.ReflTransGen (d.work.BaseEdge d.work.journal) b c0 := by
  intro hway
  refine h.inv.not_onCycle ht (.head _) ⟨h.mem, .head' hcb ?_⟩
  exact Relation.ReflTransGen.mono (fun x y hxy => (h.inv.core.baseEdge_iff.1 hxy).2) _ _ hway

theorem settled {t : StaticType} (native : Option String) (ht : t.class? = (P.base c0).map P.ref)
    (hready : ∀ b, P.base c0 = some b → Ready P d.work b)
    (hfree : Told P R d.work ∨ ∀ b, P.Extends c0 b → P.Stops (c0 :: S) c0 b) :
    Finished P R S c0 (d.work.happen d.cursor.unit (.inherits i t native)) := by
  have hb := (bonds_inherits i t native).happen h.stood.lt
  have hcore := h.inv.core
  have hi := h.lt
  refine ⟨⟨hcore.bond h.stood.lt hi hb nofun (h.leave _ nofun) fun _ => ?_, ?_⟩, .resolved,
    ?_, nofun⟩
  · rw [← h.place]
    refine ⟨ht, fun b hcb => ⟨(hready b hcb).solved, ?_⟩⟩
    rcases hfree with htold | hstops
    · exact h.not_reflTransGen htold hcb
    · exact hcore.not_reflTransGen (hstops b hcb)
  · refine h.inv.verdict.imp (fun hq => hq.bond hb hcore.linked h.stood.lt hi nofun) fun htold => ?_
    refine htold.bond hb hcore.linked h.stood.lt hi (.inr ?_)
    rw [← h.place]
    exact h.inv.not_onCycle htold (.head _)
  · rw [hb.stateAt? hcore.linked h.stood.lt hi, if_pos h.place]

theorem spoiled (ht : Told P R d.work) :
    Finished P R S c0 (d.work.happen d.cursor.unit (.spoiled i .variant)) := by
  have hb := (bonds_spoiled i .variant).happen h.stood.lt
  have hcore := h.inv.core
  refine ⟨⟨hcore.bond h.stood.lt h.lt hb nofun (h.leave _ nofun) nofun, .inr ?_⟩, .invalid,
    ?_, nofun⟩
  · exact ht.bond hb hcore.linked h.stood.lt h.lt (.inl rfl)
  · rw [hb.stateAt? hcore.linked h.stood.lt h.lt, if_pos h.place]

end Resolving

theorem Onward.reported (h : Inv P R S d.work) (ht : Told P R d.work) (e : Diagnostic)
    (he : e.isCycle = false) :
    Onward P R S d { d with work := d.work.happen d.cursor.unit (.reported e) } :=
  ⟨rfl, later_reported _ _ e, h.core.reported _ e, .inr (ht.reported _ he)⟩

include hP hr

variable (hB : B → P.pending d.work < n) (h : Resolving P R S c0 i d)

include hB h

theorem settleBase_does {t : StaticType} (ht : t.class? = (P.base c0).map P.ref)
    (hready : ∀ b, P.base c0 = some b → Ready P d.work b)
    (hfree : Told P R d.work ∨ ∀ b, P.Extends c0 b → P.Stops (c0 :: S) c0 b) :
    Does B (settleBase r i t) d fun _ d' => Finished P R S c0 d'.work := by
  refine .bind (nativeOf_does hP hr hB h.inv h.stood.lt ht hready) fun native d1 ho => ?_
  have hlinked := h.inv.core.linked
  refine .run rfl ((h.onward ho).settled native ht (fun b hb => (hready b hb).later hlinked
    ho.later) ?_)
  exact hfree.imp_left fun htold => ho.inv.told_later htold hlinked ho.later

theorem takeBase_does {span : Span}
    (hspan : ∀ clause, (P.class? c0).bind (·.clause) = some clause → span = clause.span)
    {a : Except (ResolutionFault × Span) StaticType} (ha : Named P R (P.base c0) a d.work) :
    Does B (takeBase r i span a) d fun _ d' => Finished P R S c0 d'.work := by
  have hlinked := h.inv.core.linked
  rcases ha with ⟨t, rfl, ht, hready⟩ | ⟨⟨fault, place, rfl, hpoisons, hcycle⟩, htold⟩
  · unfold takeBase
    dsimp only
    cases hbase : P.base c0 with
    | none =>
      have hnone : t.class? = none := by rw [ht, hbase]; rfl
      rw [hnone]
      refine settleBase_does hP hr hB h ht hready (.inr fun b hcb => ?_)
      rw [Project.Extends, hbase] at hcb
      cases hcb
    | some b =>
      have hsome : t.class? = some (P.ref b) := by rw [ht, hbase]; rfl
      have href : refOf i d = some (P.ref c0, d) := by
        have hi := (P.mem_places.1 h.mem).2
        rw [h.place] at hi ⊢
        exact h.inv.core.refOf h.stood.lt hi
      have hfollowing : Following P R c0 [] b d.work :=
        ⟨.base hbase, List.nodup_nil, List.not_mem_nil, hready b hbase, .inr (by simp)⟩
      rw [hsome]
      refine .step href
        (.step href (.bind (chainEnd_does hP hr hB h.inv h.stood.lt (fun _ => hP.places_lt)
        (.head _) h.mem hfollowing) fun a d1 hd => ?_))
      obtain ⟨ho, hends⟩ := hd
      have h1 := h.onward ho
      have hB1 := P.budget hB ho.later hlinked
      have hready1 (b : Place) (hb : P.base c0 = some b) : Ready P d1.work b :=
        (hready b hb).later hlinked ho.later
      cases a with
      | clear =>
        refine settleBase_does hP hr hB1 h1 ht hready1 (hends.imp_right fun hstops b' hcb => ?_)
        obtain rfl := Project.Extends.unique P hcb hbase
        exact hstops
      | invalid cls =>
        -- the base is unusable, which is said, and taken over all the same
        have ho2 := Onward.reported ho.inv hends (.resolution (.invalidClass cls.name) span) rfl
        have hB2 := P.budget hB1 ho2.later ho.inv.core.linked
        refine .step rfl (settleBase_does hP hr hB2 (h1.onward ho2) ht (fun b hb => ?_) ?_)
        · exact (hready1 b hb).later ho.inv.core.linked ho2.later
        · exact .inl (ho2.inv.told_later hends ho.inv.core.linked ho2.later)
      | cycle classes =>
        obtain ⟨hq, passed, hclasses, htrail, hnodup, hfresh, hres⟩ := hends
        obtain ⟨clause, hclause⟩ := Project.Extends.clause P hbase
        obtain rfl := hspan clause hclause
        refine (reportCycle_does hP hr (fun hB' => Nat.zero_lt_of_lt (hB hB'))
          ho.inv.core hq h1.stood.lt
          h1.look h1.place h.mem h.fresh hclasses htrail hnodup hfresh hres hclause).mono
            fun _ d2 hd => ?_
        obtain ⟨hcore, htold⟩ := hd
        obtain ⟨-, -, hinvalid, -⟩ := htold.spoiled c0 ⟨h.mem, htrail.transGen⟩
        exact ⟨⟨hcore, .inr htold⟩, .invalid, hinvalid, by simp⟩
  · -- what the clause names cannot be had, because its unit failed
    have ho := Onward.reported h.inv htold (.resolution fault place) hcycle
    refine .step rfl ?_
    rw [if_pos hpoisons]
    exact .run rfl ((h.onward ho).spoiled (ho.inv.told_later htold hlinked ho.later))

omit hP hr hB h in
theorem inClass_does {α : Type} {m : Analyze α} {Q : α → Desk → Prop} {T : α → Desk → Prop}
    (hm : ∀ e : Desk, e.work = d.work → e.cursor.unit = d.cursor.unit → Does B m e Q)
    (hT : ∀ a d' (e : Desk), Q a d' → e.work = d'.work → e.cursor.unit = d'.cursor.unit → T a e) :
    Does B (inClass cls m) d T := by
  refine .step rfl (.step rfl (.bind (hm _ rfl rfl) fun a d' hQ => .step rfl (.pure ?_)))
  exact hT a d' _ hQ rfl rfl

theorem wantedBase_does {decl : ClassDecl} (hdecl : P.class? c0 = some decl.outline) :
    Does B (wantedBase r i decl) d fun a d' =>
      Onward P R (c0 :: S) d d' ∧ Named P R (P.base c0) a d'.work := by
  obtain ⟨x, hx⟩ := Option.isSome_iff_exists.1 (hP.direct c0 h.mem)
  have hbase : P.base c0 = x := by
    rw [Project.base, hx]
    rfl
  rw [Project.base?, hdecl, ClassDecl.outline] at hx
  rw [hbase, wantedBase]
  cases hclause : decl.extends? with
  | none =>
    rw [hclause] at hx
    cases hx
    exact .step rfl (.pure ⟨⟨rfl, .refl _, h.inv⟩, .inl ⟨_, rfl, rfl, by simp⟩⟩)
  | some clause =>
    rw [hclause] at hx
    refine inClass_does (Q := fun a d' => Onward P R (c0 :: S) d d' ∧ Named P R x a d'.work)
      (fun e hwork hunit => ?_) fun a d' e ho hwork hunit => ?_
    · have hinv : Inv P R (c0 :: S) e.work := hwork ▸ h.inv
      have hstood : Stood e := by
        refine ⟨?_, ?_⟩ <;> rw [hwork, hunit]
        · exact h.stood.lt
        · exact h.stood.solved
      refine (extendsType_does hr (hwork ▸ hB) hinv hstood ?_).mono
        fun a d' ho => ⟨⟨ho.1.unit.trans hunit, hwork ▸ ho.1.later, ho.1.inv⟩, ho.2⟩
      rw [hwork, hunit, ← h.place]
      exact hx
    · rw [hwork]
      exact ⟨⟨hunit.trans ho.1.unit, hwork ▸ ho.1.later, hwork ▸ ho.1.inv⟩, ho.2⟩

omit hP hr hB h in
theorem Inv.resolving (h : Inv P R S d.work) (hstood : Stood d)
    (hi : i < (d.work.unit d.cursor.unit).classes.size)
    (hopen : (d.work.unit d.cursor.unit).inheritanceOf i = .unresolved) :
    Resolving P R S ((d.work.unit d.cursor.unit).path, i) i
      { d with work := d.work.happen d.cursor.unit (.inheriting i) } := by
  have hcore := h.core
  have hstate := hcore.stateAt?_eq hstood.lt hi
  rw [hopen] at hstate
  have hb := (bonds_inheriting i).happen hstood.lt
  constructor
  case inv =>
    refine ⟨hcore.bond hstood.lt hi hb nofun (fun c => ?_) nofun, h.verdict.imp (fun hq => ?_)
      fun ht => ?_⟩
    · rw [List.mem_cons]
      split
      · next heq => exact iff_of_true (.inl heq) rfl
      · next hne => exact or_iff_right hne
    · exact hq.bond hb hcore.linked hstood.lt hi nofun
    · refine ht.bond hb hcore.linked hstood.lt hi (.inr fun hcycle => ?_)
      obtain ⟨-, -, hinvalid, -⟩ := ht.spoiled _ hcycle
      rw [hstate] at hinvalid
      cases hinvalid
  case stood =>
    refine ⟨Nat.lt_of_lt_of_eq hstood.lt hb.size.symm, ?_⟩
    rw [hb.path]
    exact hb.solved hstood.solved
  case look =>
    -- a unit that is done with its bases has no class that was not looked at
    refine Option.ne_none_iff_exists'.1 fun hR => ?_
    obtain ⟨k, hk, hstatus⟩ := hstood.solved
    obtain rfl := Option.some.inj ((hcore.linked.owned _ hstood.lt).symm.trans hk)
    refine hcore.idle _ hstood.lt hstatus hR _ (Array.getElem_mem hi) ?_
    rwa [FileUnit.inheritanceOf, FileUnit.classFacts?, Array.getElem?_eq_getElem hi] at hopen
  case place => rw [hb.path]
  case mem => exact hcore.place_mem hstood.lt hi
  case fresh =>
    intro hmem
    rw [(hcore.stack _).1 hmem] at hstate
    cases hstate

omit hB h in
theorem resolveInheritance_does (hB : B → P.pending d.work < n + 1) (h : Inv P R S d.work)
    (hstood : Stood d) (hi : i < (d.work.unit d.cursor.unit).classes.size) :
    Does B (resolveInheritance r i) d fun _ d' =>
      Inv P R S d'.work ∧ (d'.work.unit d.cursor.unit).inheritanceOf i ≠ .unresolved := by
  have hstands := h.core.stands _ hstood.lt
  refine (Does.lasting (Q := fun _ d' =>
    Finished P R S ((d.work.unit d.cursor.unit).path, i) d'.work) ?_
    (.resolveInheritance Order.lasting_solvesBases hr.sound i)).mono
      fun _ d' hd => ?_
  · refine .step rfl (.ite (fun hlooked => .pure ⟨h, _, h.core.stateAt?_eq hstood.lt hi, hlooked⟩)
      fun hopen => ?_)
    replace hopen := not_not.1 hopen
    obtain ⟨t, ht, houtline, -⟩ := hstands.tree
    have hsize : i < t.classes.size := by
      rw [← Tree.outline_length, houtline, ← hstands.count]
      exact hi
    have hclass : t.class? i = some (t.classes[i]) := Array.getElem?_eq_getElem hsize
    refine .step rfl ?_
    rw [ht, Option.getD_some, hclass]
    generalize t.classes[i] = decl at hclass
    have hdecl : P.class? ((d.work.unit d.cursor.unit).path, i) = some decl.outline := by
      rw [Project.class?, ← houtline, Tree.outline_getElem?, hclass]
      rfl
    -- from here on the class is on the stack, and less is left to do
    obtain ⟨d1, hd1⟩ : ∃ d1, d1 = { d with work := d.work.happen d.cursor.unit (.inheriting i) } :=
      ⟨_, rfl⟩
    have h1 : Resolving P R S ((d.work.unit d.cursor.unit).path, i) i d1 :=
      hd1 ▸ h.resolving hstood hi hopen
    have hpending : P.pending d1.work < P.pending d.work :=
      hd1 ▸ h.core.pending_inheriting hstood.lt hi hopen
    have hB1 (hB' : B) : P.pending d1.work < n :=
      Nat.lt_of_lt_of_le hpending (Nat.le_of_lt_succ (hB hB'))
    have hbegin : Analyze.happen (.inheriting i) d = some ((), d1) := by
      rw [hd1]
      rfl
    refine .step hbegin ?_
    refine .bind (wantedBase_does hP hr hB1 h1 hdecl) fun a d2 hd => ?_
    obtain ⟨ho, hnamed⟩ := hd
    refine takeBase_does hP hr (P.budget hB1 ho.later h1.inv.core.linked) (h1.onward ho)
      (fun clause hclause => ?_) hnamed
    rw [hdecl, Option.bind_some] at hclause
    show (decl.extends?.map (·.span)).getD decl.span = clause.span
    rw [show decl.extends? = some clause from hclause]
    rfl
  · obtain ⟨⟨_, hl⟩, hinv, s, hs, hne⟩ := hd
    obtain ⟨hlt, hunit⟩ := hl.units _ hstood.lt
    have hi' : i < (d'.work.unit d.cursor.unit).classes.size := by
      rw [(hinv.core.stands _ hlt).count, hunit.path, ← hstands.count]
      exact hi
    have hstate := hinv.core.stateAt?_eq hlt hi'
    rw [hunit.path, hs] at hstate
    exact ⟨hinv, Option.some.inj hstate ▸ hne⟩

end

end Workspace

end HotScript
