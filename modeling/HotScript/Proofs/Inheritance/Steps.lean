import HotScript.Proofs.Inheritance.Invariant

/-!
What the events of the analysis do to a project's workspace.

Most events say nothing about bases (`Workspace.Framed`). Three put one class into a state, with a
base (`Workspace.Core.bond`). A class that becomes resolved adds an edge to the graph of bases.
-/

namespace HotScript

open ClassFacts (settled?)

/-- A graph without cycles stays so when an edge is added whose end does not lead to its
beginning. -/
theorem acyclic_insert {α : Type} {old new : α → α → Prop} {c b : α}
    (hnew : ∀ x y, new x y → old x y ∨ x = c ∧ y = b) (hold : ∀ x, ¬ Relation.TransGen old x x)
    (hno : ¬ Relation.ReflTransGen old b c) (x : α) : ¬ Relation.TransGen new x x := by
  -- a path goes along the new edge at most once, since its end does not lead back
  have hpath {x y : α} (h : Relation.ReflTransGen new x y) : Relation.ReflTransGen old x y ∨
      Relation.ReflTransGen old x c ∧ Relation.ReflTransGen old b y := by
    induction h with
    | refl => exact .inl .refl
    | tail _ hstep ih =>
      rcases hnew _ _ hstep with hstep | ⟨rfl, rfl⟩
      · rcases ih with ih | ⟨hc, hb⟩
        · exact .inl (ih.tail hstep)
        · exact .inr ⟨hc, hb.tail hstep⟩
      · rcases ih with ih | ⟨-, hb⟩
        · exact .inr ⟨ih, .refl⟩
        · exact absurd hb hno
  intro hcycle
  obtain ⟨y, hstep, hback⟩ := Relation.TransGen.head'_iff.1 hcycle
  rcases hnew _ _ hstep with hstep | ⟨rfl, rfl⟩
  · rcases hpath hback with hback | ⟨hc, hb⟩
    · exact hold x (Relation.TransGen.head' hstep hback)
    · exact hno ((hb.tail hstep).trans hc)
  · rcases hpath hback with hback | ⟨-, hback⟩ <;> exact hno hback

namespace Workspace

variable {w0 : Workspace} {P : w0.Project} {R R' : Looking} {S S' : List Place}
  {w w' : Workspace} {c : Place} {k : UnitId} {i : ClassId}

/-! ### Events that say nothing about bases -/

theorem Core.framed (h : Core P R S w) (hf : Framed w w') (hidle : ∀ k < w.units.size,
      UnitStatus.inheritanceSolved.rank ≤ (w'.unit k).status.rank → R' k = none →
      ∀ f ∈ (w.unit k).classes, f.inheritance ≠ .unresolved)
    (hfailed : ∀ k f, (w'.unit k).failedAt = some f → UnitStatus.inheritanceSolved.rank ≤ f.rank)
    (hrunning : ∀ k n, R' k = some n →
      k < w.units.size ∧ UnitStatus.inheritanceSolved.rank ≤ (w'.unit k).status.rank) :
    Core P R' S w' where
  outside := hf.outside.trans h.outside
  linked := hf.linked h.linked
  stands k hk := by
    have hs := h.stands k (hf.size ▸ hk)
    obtain ⟨t, ht, ho, hn⟩ := hs.tree
    have hpath := hf.path k
    refine ⟨hpath ▸ hs.file, ⟨t, (hf.tree k).trans ht, by rw [ho, hpath], hn⟩,
      ?_, fun i f hi => ?_, ?_⟩
    · rw [hf.count, hpath, hs.count]
    · obtain ⟨f0, hf0, hlink⟩ := hf.facts hi
      have href : f0.ref = f.ref := congrArg (·.1) hlink
      rw [← href, hpath, hs.refs i f0 hf0]
    · exact Nat.le_trans hs.parsed (hf.status k)
  stack c := by rw [hf.stateAt? c, h.stack]
  bases c f hc hres := by
    obtain ⟨f0, hf0, hlink⟩ := hf.classAt? hc
    have hstate : f0.inheritance = f.inheritance := congrArg (·.2.1) hlink
    have hbase : f0.base = f.base := congrArg (·.2.2) hlink
    obtain ⟨hb, hext⟩ := h.bases c f0 hf0 (hstate.trans hres)
    exact ⟨hbase ▸ hb, fun b hcb => hf.solved (hext b hcb)⟩
  idle k hk hstatus hR f hfk := by
    obtain ⟨i, hi⟩ := Array.mem_iff_getElem?.1 hfk
    obtain ⟨f0, hf0, hlink⟩ := hf.facts hi
    have hstate : f0.inheritance = f.inheritance := congrArg (·.2.1) hlink
    rw [← hstate]
    exact hidle k (hf.size ▸ hk) hstatus hR f0 (Array.mem_of_getElem? hf0)
  failed := hfailed
  running k n hR := by
    rw [hf.size]
    exact hrunning k n hR
  known e he := by
    obtain ⟨es, hes, hsaid⟩ := hf.journal
    rw [hes] at he
    rw [hf.size]
    rcases List.mem_append.1 he with he | he
    · exact (hsaid e he).2
    · exact h.known e he
  sync k hk i := by
    obtain ⟨es, hes, hsaid⟩ := hf.journal
    rw [hes, Journal.baseAt_append fun e he => (hsaid e he).1, h.sync k (hf.size ▸ hk) i]
    have hlink := hf.links k i
    cases hi : (w.unit k).classes[i]? with
    | none =>
      rw [hi, Option.map_none, Option.map_eq_none_iff] at hlink
      rw [hlink]
    | some f0 =>
      rw [hi, Option.map_some, Option.map_eq_some_iff] at hlink
      obtain ⟨f, hfi, hlink⟩ := hlink
      have hstate : f.inheritance = f0.inheritance := congrArg (·.2.1) hlink
      have hbase : f.base = f0.base := congrArg (·.2.2) hlink
      rw [hfi, Option.bind_some, Option.bind_some, settled?, settled?, hstate, hbase]
  moments j hj := by
    obtain ⟨es, hes, hsaid⟩ := hf.journal
    refine hf.acyclic ?_
    -- a moment among the new ones shows what the last of the old ones shows
    rcases List.suffix_or_suffix_of_suffix hj (hes ▸ List.suffix_append es w.journal) with hj' | hj'
    · exact h.moments j hj'
    · obtain ⟨es', rfl⟩ := hj'
      have hes' : ∀ e ∈ es', e.event.isBond = false := by
        intro e he
        rw [hes] at hj
        obtain ⟨front, hfront⟩ := hj
        rw [← List.append_assoc, List.append_cancel_right_eq] at hfront
        exact (hsaid e (hfront ▸ List.mem_append_right front he)).1
      have hedge : w.BaseEdge (es' ++ w.journal) = w.BaseEdge w.journal := by
        funext a b
        simp only [BaseEdge, Journal.baseAt_append hes']
      rw [Acyclic, hedge]
      exact h.moments _ (List.suffix_refl _)

/-! ### Events about a base -/

/-- An event that puts the class `i` of a unit into a state, with a base. -/
structure Bonds (e : UnitEvent) (i : ClassId) (state : InheritanceState) (base : StaticType) :
    Prop where
  apply : ∃ f : ClassFacts → ClassFacts, (∀ u : FileUnit, u.apply e = u.modifyClass i f) ∧
    ∀ c, (f c).ref = c.ref ∧ (f c).inheritance = state ∧ (f c).base = base
  baseAt : ∀ (entry : JournalEntry) (j : Journal) k i', entry.event = e →
    Journal.baseAt (entry :: j) k i' = if entry.unit = k ∧ i = i' then
      (if state = .resolved then some base else none) else j.baseAt k i'

theorem bonds_inheriting (i : ClassId) : Bonds (.inheriting i) i .resolving .resolving where
  apply := ⟨_, fun _ => rfl, fun _ => ⟨rfl, rfl, rfl⟩⟩
  baseAt entry j k i' he := by
    rw [Journal.baseAt, he]
    by_cases hk : entry.unit = k <;> simp [hk]

theorem bonds_inherits (i : ClassId) (base : StaticType) (native : Option String) :
    Bonds (.inherits i base native) i .resolved base where
  apply := ⟨_, fun _ => rfl, fun _ => ⟨rfl, rfl, rfl⟩⟩
  baseAt entry j k i' he := by
    rw [Journal.baseAt, he]
    by_cases hk : entry.unit = k <;> simp [hk]

theorem bonds_spoiled (i : ClassId) (base : StaticType) :
    Bonds (.spoiled i base) i .invalid base where
  apply := ⟨_, fun _ => rfl, fun _ => ⟨rfl, rfl, rfl⟩⟩
  baseAt entry j k i' he := by
    rw [Journal.baseAt, he]
    by_cases hk : entry.unit = k <;> simp [hk]

/-- A class of a unit was put into a state, with a base, and nothing else changed. -/
structure Bonded (w w' : Workspace) (k : UnitId) (i : ClassId) (state : InheritanceState)
    (base : StaticType) : Prop where
  outside : w'.outside = w.outside
  unitOf : w'.unitOf = w.unitOf
  size : w'.units.size = w.units.size
  linked : w.Linked → w'.Linked
  units : ∀ j, ((w'.unit j).path = (w.unit j).path ∧ (w'.unit j).tree = (w.unit j).tree) ∧
    (w'.unit j).status = (w.unit j).status ∧ (w'.unit j).failedAt = (w.unit j).failedAt ∧
    (w'.unit j).diagnostics = (w.unit j).diagnostics
  classes : ∃ f : ClassFacts → ClassFacts,
    (∀ c, (f c).ref = c.ref ∧ (f c).inheritance = state ∧ (f c).base = base) ∧
    (w'.unit k).classes = ((w.unit k).modifyClass i f).classes ∧
    ∀ j, j ≠ k → (w'.unit j).classes = (w.unit j).classes
  journal : ∃ entry : JournalEntry, entry.unit = k ∧ w'.journal = entry :: w.journal ∧
    ∀ (j : Journal) k i', Journal.baseAt (entry :: j) k i' = if entry.unit = k ∧ i = i' then
      (if state = .resolved then some base else none) else j.baseAt k i'

variable {e : UnitEvent} {state : InheritanceState} {base : StaticType}

theorem Bonds.happen (he : Bonds e i state base) (hk : k < w.units.size) :
    Bonded w (w.happen k e) k i state base := by
  obtain ⟨f, hf, hfc⟩ := he.apply
  have hself : (w.happen k e).unit k = (w.unit k).modifyClass i f :=
    (unit_happen_self hk).trans (hf _)
  have hsame {α : Type} (g : FileUnit → α) (hg : ∀ u : FileUnit, g (u.modifyClass i f) = g u) :=
    congr_happen (w := w) (k := k) g (e := e) ((congrArg g (hf _)).trans (hg _))
  constructor
  case outside => exact rest_happen.1
  case unitOf => exact rest_happen.2
  case size => exact size_happen
  case linked => exact Linked.happen
  case units =>
    exact fun j => ⟨⟨hsame (·.path) (fun _ => rfl) j, hsame (·.tree) (fun _ => rfl) j⟩,
      hsame (·.status) (fun _ => rfl) j, hsame (·.failedAt) (fun _ => rfl) j,
      hsame (·.diagnostics) (fun _ => rfl) j⟩
  case classes => exact ⟨f, hfc, congrArg (·.classes) hself,
    fun j hj => by rw [unit_happen_of_ne hj]⟩
  case journal =>
    rw [happen_of_lt hk]
    exact ⟨_, rfl, rfl, fun j k i' => he.baseAt _ j k i' rfl⟩

namespace Bonded

variable (h : Bonded w w' k i state base)

include h

theorem path (j : UnitId) : (w'.unit j).path = (w.unit j).path := (h.units j).1.1

theorem classAt? (hl : w.Linked) (hk : k < w.units.size) : ∃ f : ClassFacts → ClassFacts,
    (∀ c, (f c).ref = c.ref ∧ (f c).inheritance = state ∧ (f c).base = base) ∧
    ∀ c, w'.classAt? c = if c = ((w.unit k).path, i) then (w.classAt? c).map f
    else w.classAt? c := by
  obtain ⟨f, hfc, hself, hrest⟩ := h.classes
  exact ⟨f, hfc, fun c => classAt?_modifyClass hl hk h.unitOf hself hrest⟩

theorem stateAt? (hl : w.Linked) (hk : k < w.units.size) (hi : i < (w.unit k).classes.size)
    (c : Place) : w'.stateAt? c = if c = ((w.unit k).path, i) then some state
    else w.stateAt? c := by
  obtain ⟨f, hfc, hc⟩ := h.classAt? hl hk
  rw [Workspace.stateAt?, hc]
  split
  · next heq =>
    rw [heq, classAt?_of_find? (hl.owned k hk), Array.getElem?_eq_getElem hi]
    exact congrArg some (hfc _).2.1
  · rfl

theorem solved {p : String} (hs : w.Solved p) : w'.Solved p := by
  obtain ⟨j, hj, hs⟩ := hs
  exact ⟨j, h.unitOf ▸ hj, (h.units j).2.1 ▸ hs⟩

theorem baseEdge_congr (j : Journal) : w'.BaseEdge j = w.BaseEdge j := by
  funext a b
  simp only [BaseEdge, h.size, h.path]

end Bonded

theorem Core.baseEdge_iff (h : Core P R S w) {a b : Place} :
    w.BaseEdge w.journal a b ↔ w.stateAt? a = some .resolved ∧ P.Extends a b := by
  constructor
  · rintro ⟨k, hk, hpath, base, hbase, hclass⟩
    rw [h.sync k hk] at hbase
    obtain ⟨f, hf, hsettled⟩ := Option.bind_eq_some_iff.1 hbase
    have hfind : w.unitOf.find? a.1 = some k := hpath ▸ h.linked.owned k hk
    have hat : w.classAt? a = some f := (classAt?_of_find? hfind).trans hf
    rw [settled?] at hsettled
    split at hsettled
    · next hres =>
      cases hsettled
      refine ⟨by rw [stateAt?, hat, Option.map_some, hres], ?_⟩
      rw [(h.bases a f hat hres).1, Option.map_map] at hclass
      obtain ⟨b', hb', rfl⟩ := Option.map_eq_some_iff.1 hclass
      rw [Project.Extends, hb']
      simp
    · cases hsettled
  · rintro ⟨hstate, hext⟩
    obtain ⟨f, hat, hres⟩ := Option.map_eq_some_iff.1 hstate
    obtain ⟨k, hfind, hf⟩ := Option.bind_eq_some_iff.1 hat
    obtain ⟨hk, hpath⟩ := h.linked.placed _ _ hfind
    refine ⟨k, hk, hpath, f.base, ?_, ?_⟩
    · rw [h.sync k hk, hf, Option.bind_some, settled?, if_pos hres]
    · rw [(h.bases a f hat hres).1, hext]
      simp

/-- A class is put into a state. When that is `resolved`, its base is the one that its clause names,
and does not lead to the class. -/
theorem Core.bond (h : Core P R S w) (hk : k < w.units.size) (hi : i < (w.unit k).classes.size)
    (hb : Bonded w w' k i state base) (hstate : state ≠ .unresolved)
    (hS : ∀ c, c ∈ S' ↔ if c = ((w.unit k).path, i) then state = .resolving else c ∈ S)
    (hres : state = .resolved → base.class? = (P.base ((w.unit k).path, i)).map P.ref ∧
      ∀ b, P.Extends ((w.unit k).path, i) b → w.Solved b.1 ∧
        ¬ Relation.ReflTransGen (w.BaseEdge w.journal) b ((w.unit k).path, i)) :
    Core P R S' w' := by
  obtain ⟨f, hfc, hat⟩ := hb.classAt? h.linked hk
  obtain ⟨f', hfc', hself, hrest⟩ := hb.classes
  obtain ⟨entry, hunit, hjournal, hentry⟩ := hb.journal
  constructor
  case outside => exact hb.outside.trans h.outside
  case linked => exact hb.linked h.linked
  case stands =>
    intro j hj
    have hs := h.stands j (hb.size ▸ hj)
    have hs' : P.Stands ((w.unit j).modifyClass i f') := hs.modifyClass fun c => (hfc' c).1
    obtain ⟨⟨hp, ht⟩, hstatus, -⟩ := hb.units j
    by_cases hjk : j = k
    · subst hjk
      exact ⟨hp ▸ hs.file, by rw [ht, hp]; exact hs.tree, by rw [hself, hp]; exact hs'.count,
        fun i' c hc => by rw [hp]; exact hs'.refs i' c (hself ▸ hc), hstatus ▸ hs.parsed⟩
    · have hclasses := hrest j hjk
      exact ⟨hp ▸ hs.file, by rw [ht, hp]; exact hs.tree, by rw [hclasses, hp]; exact hs.count,
        fun i' c hc => by rw [hp]; exact hs.refs i' c (hclasses ▸ hc), hstatus ▸ hs.parsed⟩
  case stack =>
    intro c
    rw [hb.stateAt? h.linked hk hi, hS]
    split
    · exact Option.some_inj.symm
    · exact h.stack c
  case bases =>
    intro c g hg hgres
    rw [hat] at hg
    split at hg
    · next heq =>
      subst heq
      obtain ⟨g0, -, rfl⟩ := Option.map_eq_some_iff.1 hg
      obtain ⟨hclass, hext⟩ := hres ((hfc g0).2.1.symm.trans hgres)
      exact ⟨(hfc g0).2.2 ▸ hclass, fun b hcb => hb.solved (hext b hcb).1⟩
    · obtain ⟨hclass, hext⟩ := h.bases c g hg hgres
      exact ⟨hclass, fun b hcb => hb.solved (hext b hcb)⟩
  case idle =>
    intro j hj hstatus hR g hg
    rw [(hb.units j).2.1] at hstatus
    have hidle := h.idle j (hb.size ▸ hj) hstatus hR
    by_cases hjk : j = k
    · subst hjk
      rw [hself] at hg
      obtain ⟨i', hi'⟩ := Array.mem_iff_getElem?.1 hg
      rw [FileUnit.classes_modifyClass] at hi'
      split at hi'
      · obtain ⟨g0, -, rfl⟩ := Option.map_eq_some_iff.1 hi'
        exact (hfc' g0).2.1 ▸ hstate
      · exact hidle g (Array.mem_of_getElem? hi')
    · exact hidle g (hrest j hjk ▸ hg)
  case failed =>
    intro j s hs
    exact h.failed j s ((hb.units j).2.2.1 ▸ hs)
  case running =>
    intro j n hR
    rw [hb.size, (hb.units j).2.1]
    exact h.running j n hR
  case known =>
    intro e he
    rw [hjournal] at he
    rw [hb.size]
    rcases List.mem_cons.1 he with rfl | he
    · exact hunit ▸ hk
    · exact h.known e he
  case sync =>
    intro j hj i'
    rw [hjournal, hentry, h.sync j (hb.size ▸ hj), hunit]
    by_cases hjk : j = k
    · subst hjk
      rw [hself, FileUnit.classes_modifyClass]
      by_cases hii : i = i'
      · subst hii
        rw [if_pos ⟨rfl, rfl⟩, if_pos rfl, Array.getElem?_eq_getElem hi, Option.map_some,
          Option.bind_some, settled?, (hfc' _).2.1, (hfc' _).2.2]
      · rw [if_neg fun hand => hii hand.2, if_neg hii]
    · rw [if_neg fun hand => hjk hand.1.symm, hrest j hjk]
  case moments =>
    intro j hj
    rw [Acyclic, hb.baseEdge_congr]
    rw [hjournal] at hj
    rcases List.suffix_cons_iff.1 hj with rfl | hj
    · -- the new moment: at most the edge from the class to its base is new
      have hold := h.moments w.journal (List.suffix_refl _)
      have hedge (x y : Place) (hxy : w.BaseEdge (entry :: w.journal) x y) :
          w.BaseEdge w.journal x y ∨
            (state = .resolved ∧ x = ((w.unit k).path, i) ∧ P.Extends ((w.unit k).path, i) y) := by
        obtain ⟨j, hj, hp, b, hbase, hclass⟩ := hxy
        rw [hentry, hunit] at hbase
        split at hbase
        · next hand =>
          obtain ⟨rfl, rfl⟩ := hand
          split at hbase
          · next hstate =>
            cases hbase
            refine .inr ⟨hstate, Prod.ext hp.symm rfl, ?_⟩
            rw [(hres hstate).1, Option.map_map] at hclass
            obtain ⟨b', hb', rfl⟩ := Option.map_eq_some_iff.1 hclass
            rw [Project.Extends, hb']
            simp
          · cases hbase
        · exact .inl ⟨j, hj, hp, b, hbase, hclass⟩
      by_cases hextends : state = .resolved ∧ ∃ b, P.Extends ((w.unit k).path, i) b
      · obtain ⟨hstate, b, hcb⟩ := hextends
        refine acyclic_insert (fun x y hxy => ?_) hold ((hres hstate).2 b hcb).2
        rcases hedge x y hxy with hxy | ⟨-, rfl, hcy⟩
        · exact .inl hxy
        · exact .inr ⟨rfl, Project.Extends.unique P hcy hcb⟩
      · intro c hcycle
        refine hold c (Relation.TransGen.mono (fun x y hxy => ?_) _ _ hcycle)
        rcases hedge x y hxy with hxy | ⟨hstate, -, hcy⟩
        · exact hxy
        · exact absurd ⟨hstate, y, hcy⟩ hextends
    · exact h.moments j hj

end Workspace

end HotScript
