import HotScript.Proofs.Inheritance.Bases

/-!
Units are raised to where their bases are known.

The stage that looks for bases looks at every class of its unit, and nothing it does goes wrong
unless the cycle is reported. So what was assumed of resolvers holds of those of the analysis
(`Workspace.serves_resolver`).
-/

namespace HotScript

theorem FileUnit.Later.looked {u u' : FileUnit} (h : u.Later u') {i : ClassId}
    (hne : u.inheritanceOf i ≠ .unresolved) : u'.inheritanceOf i ≠ .unresolved := by
  rw [FileUnit.inheritanceOf, FileUnit.classFacts?] at hne ⊢
  cases hf : u.classes[i]? with
  | none =>
    have hnone : u'.classes[i]? = none := by
      rw [Array.getElem?_eq_none_iff] at hf ⊢
      rwa [h.count]
    simp [hnone]
  | some f =>
    obtain ⟨f', hf', hlater⟩ := h.facts i f hf
    rw [hf] at hne
    rw [hf']
    rcases hlater.base with hopen | hinvalid | ⟨hsame, -⟩
    · exact absurd hopen hne
    · exact fun heq => by cases hinvalid.symm.trans heq
    · exact fun heq => hne (hsame.symm.trans heq)

namespace Workspace

open Analyze

variable {w0 : Workspace} {P : w0.Project} {R : Looking} {S : List Place}
  {w w' : Workspace} {d : Desk} {k : UnitId} {path : String}

section

variable {n : Nat} {r : Resolver} {B : Prop}

/-! ### Requests for units -/

theorem openUnit_does (h : Inv P R S d.work) (hpath : path ∈ P.files) :
    Does B (onWork fun w => w.openUnit path) d fun a d' => d'.cursor = d.cursor ∧
      d.work.Later d'.work ∧ Inv P R S d'.work ∧
      ∃ k, a = .ok k ∧ d'.work.unitOf.find? path = some k := by
  have hl := later_openUnit d.work path
  cases hfind : d.work.unitOf.find? path with
  | some k =>
    have hopen : d.work.openUnit path = (.ok k, d.work) := by
      rw [openUnit, unitAt?, hfind]
    refine .run (onWork_some.2 ⟨rfl, rfl⟩) ?_
    rw [hopen]
    exact ⟨rfl, .refl _, h, k, rfl, hfind⟩
  | none =>
    obtain ⟨w', hopen, hinv, hk⟩ := h.opened hpath hfind
    rw [hopen] at hl
    refine .run (onWork_some.2 ⟨rfl, rfl⟩) ?_
    rw [hopen]
    exact ⟨rfl, hl, hinv, _, rfl, hk⟩

section

variable {status : UnitStatus} (hstatus : status.rank < UnitStatus.inheritanceSolved.rank)

include hstatus

theorem raise_below_does (h : Core P R S d.work) (hk : k < d.work.units.size) :
    Does B (raise r k status) d fun a d' =>
      a = .ok () ∧ d'.cursor = d.cursor ∧ Unmoved d.work d'.work := by
  have hfailed : (d.work.unit k).failedAt.filter status.reaches = none := by
    refine Option.filter_eq_none_iff.2 fun f hf hreach => ?_
    have hle : f.rank ≤ status.rank := of_decide_eq_true hreach
    exact absurd (h.failed k f hf) (Nat.not_le.2 (Nat.lt_of_le_of_lt hle hstatus))
  have hreach : (d.work.unit k).status.reaches status = true :=
    decide_eq_true (Nat.le_trans (Nat.le_of_lt_succ hstatus) (h.stands k hk).parsed)
  have hwithin : raiseWithin r k status 5 d = some (.ok (), d) := by
    refine bind_some.2 ⟨_, d, rfl, ?_⟩
    rw [hfailed]
    dsimp only
    rw [if_pos hreach]
    rfl
  exact .step hwithin (.step rfl (.pure ⟨rfl, rfl, .answered _ _ _ _⟩))

theorem getUnit_known_does (h : Core P R S d.work) (hk : d.work.unitOf.find? path = some k) :
    Does B (Analyze.getUnit r path status) d fun a d' =>
      a = .ok k ∧ d'.cursor = d.cursor ∧ Unmoved d.work d'.work := by
  have hopen : onWork (fun w => w.openUnit path) d = some (.ok k, d) := by
    refine onWork_some.2 ?_
    rw [openUnit, unitAt?, hk]
    exact ⟨rfl, rfl⟩
  refine .step hopen (.bind (raise_below_does hstatus h (h.linked.placed path k hk).1)
    fun a d' hd => ?_)
  obtain ⟨rfl, hcursor, hu⟩ := hd
  exact .pure ⟨rfl, hcursor, hu⟩

theorem getUnit_below_does (h : Inv P R S d.work) (hpath : path ∈ P.files) :
    Does B (Analyze.getUnit r path status) d fun _ d' => Inv P R S d'.work := by
  refine .bind (openUnit_does h hpath) fun a d1 ⟨_, _, h1, k, ha, hk⟩ => ?_
  subst ha
  refine .bind (raise_below_does hstatus h1.core (h1.core.linked.placed path k hk).1) fun a d2 hd =>
    ?_
  obtain ⟨rfl, -, hu⟩ := hd
  exact .pure (h1.unmoved hu)

end

/-! ### Raising -/

/-- A unit is raised, or the cycle has been reported. -/
def Raised (P : w0.Project) (R : Looking) (k : UnitId) (a : Except LoadFault Unit) (w : Workspace) :
    Prop :=
  a = .ok () ∧ UnitStatus.inheritanceSolved.rank ≤ (w.unit k).status.rank ∨
    (∃ fault, a = .error fault) ∧ Told P R w

theorem raised_does (h : Inv P R S d.work)
    (hreach : UnitStatus.inheritanceSolved.rank ≤ (d.work.unit k).status.rank) (m : Nat) :
    Does B (raiseWithin r k .inheritanceSolved (m + 1)) d fun a d' =>
      Inv P R S d'.work ∧ Raised P R k a d'.work := by
  refine .step rfl ?_
  cases hfailed : (d.work.unit k).failedAt.filter UnitStatus.inheritanceSolved.reaches with
  | some failed =>
    refine .pure ⟨h, .inr ⟨⟨_, rfl⟩, h.verdict.resolve_left fun hq => ?_⟩⟩
    rw [hq.failed k] at hfailed
    cases hfailed
  | none =>
    dsimp only
    rw [if_pos (show (d.work.unit k).status.reaches .inheritanceSolved = true from decide_eq_true
      hreach)]
    exact .pure ⟨h, .inl ⟨rfl, hreach⟩⟩

variable (hP : P.Plain) (hr : Serves P n r)
  (hB : B → P.pending d.work < n + 1) (h : Inv P R S d.work)

include hP hr hB h

theorem runStage_does (hk : k < d.work.units.size) (hs : d.work.Solved (d.work.unit k).path) :
    Does B (runStage r k .inheritanceSolved) d fun _ d' => Inv P R S d'.work ∧
      ∀ f ∈ (d'.work.unit k).classes, f.inheritance ≠ .unresolved := by
  have hstands := h.core.stands k hk
  obtain ⟨t, ht, houtline, -⟩ := hstands.tree
  have hcount : ((d.work.unit k).tree.map (·.classes.size)).getD 0 =
      (d.work.unit k).classes.size := by
    rw [ht, Option.map_some, Option.getD_some, ← Tree.outline_length, houtline, hstands.count]
  refine .step rfl ?_
  rw [hcount]
  refine .bind (inUnit_does (by rw [ht]; rfl) (.forM (I := fun left d' => d'.cursor.unit = k ∧
    d.work.Later d'.work ∧ Inv P R S d'.work ∧ (∀ i ∈ left, i < (d.work.unit k).classes.size) ∧
    ∀ i < (d.work.unit k).classes.size, i ∉ left → (d'.work.unit k).inheritanceOf i ≠ .unresolved)
      ?_ ?_) (T := fun _ d' => Inv P R S d'.work ∧
        ∀ f ∈ (d'.work.unit k).classes, f.inheritance ≠ .unresolved) ?_) fun _ d' hd => .pure hd
  · exact ⟨rfl, .refl _, h, fun i hi => List.mem_range.1 hi,
      fun i hi hnot => absurd (List.mem_range.2 hi) hnot⟩
  · rintro i left d1 ⟨hunit, hl, hinv, hleft, hdone⟩
    obtain ⟨hlt, hlater⟩ := hl.units k hk
    have hstood : Stood d1 := by
      refine ⟨hunit ▸ hlt, ?_⟩
      rw [hunit, hlater.path]
      exact hs.later h.core.linked hl
    have hi : i < (d1.work.unit d1.cursor.unit).classes.size := by
      rw [hunit, hlater.count]
      exact hleft i (.head _)
    refine ((resolveInheritance_does hP hr (P.budget hB hl h.core.linked) hinv hstood hi).lasting
      (.resolveInheritance Order.lasting_solvesBases hr.sound i)).mono
      fun _ d2 ⟨⟨hunit2, hl2⟩, hinv2, hlooked⟩ => ?_
    refine ⟨hunit2.trans hunit, hl.trans hl2, hinv2, fun j hj => hleft j (.tail _ hj),
      fun j hj hnot => ?_⟩
    by_cases hji : j = i
    · subst hji
      exact hunit ▸ hlooked
    · have hnot' : j ∉ i :: left := fun hin => hnot ((List.mem_cons.1 hin).resolve_left hji)
      exact (hl2.units k hlt).2.looked (hdone j hj hnot')
  · rintro _ d' ⟨-, hl, hinv, -, hdone⟩
    have hu := Unmoved.fileFacts d'.work k d'.cursor.found
    refine ⟨hinv.unmoved hu, fun f hf => ?_⟩
    obtain ⟨i, hi⟩ := Array.mem_iff_getElem?.1 hf
    obtain ⟨f0, hf0, hlink⟩ := hu.facts hi
    have hstate : f0.inheritance = f.inheritance := congrArg (·.2.1) hlink
    have hlt : i < (d.work.unit k).classes.size := by
      rw [← (hl.units k hk).2.count]
      exact (Array.getElem?_eq_some_iff.1 hf0).1
    have hlooked := hdone i hlt List.not_mem_nil
    rw [FileUnit.inheritanceOf, FileUnit.classFacts?, hf0] at hlooked
    exact hstate ▸ hlooked

theorem raiseWithin_does (hk : k < d.work.units.size) (m : Nat) :
    Does B (raiseWithin r k .inheritanceSolved (m + 2)) d fun a d' =>
      Inv P R S d'.work ∧ Raised P R k a d'.work := by
  by_cases hreach : UnitStatus.inheritanceSolved.rank ≤ (d.work.unit k).status.rank
  · exact raised_does h hreach (m + 1)
  · have hstatus : (d.work.unit k).status = .parsed := by
      have hparsed := (h.core.stands k hk).parsed
      revert hreach hparsed
      cases (d.work.unit k).status <;> decide
    have hnext : (d.work.unit k).status.next? = some .inheritanceSolved := by rw [hstatus]; rfl
    have hnone : R k = none := h.core.not_looking (Nat.lt_of_not_le hreach)
    refine .step rfl ?_
    cases hfailed : (d.work.unit k).failedAt.filter UnitStatus.inheritanceSolved.reaches with
    | some failed =>
      refine .pure ⟨h, .inr ⟨⟨_, rfl⟩, h.verdict.resolve_left fun hq => ?_⟩⟩
      rw [hq.failed k] at hfailed
      cases hfailed
    | none =>
      rw [if_neg (UnitStatus.not_reaches.2 (Nat.lt_of_not_le hreach)),
        if_neg (by rw [hstatus]; nofun), hnext]
      -- the stage begins, and less is left to do
      obtain ⟨d1, hd1⟩ : ∃ d1,
        d1 = { d with work := d.work.happen k (.began .inheritanceSolved) } :=
        ⟨_, rfl⟩
      have hbegin : modifyWork (fun w => w.happen k (.began .inheritanceSolved))
          d = some ((), d1) := by
        rw [hd1]
        rfl
      have h1 : Inv P (R.during k (d.work.unit k).errorCount) S d1.work := hd1 ▸ h.began hk hnext
      have hl1 : d.work.Later d1.work := hd1 ▸ later_began hnext
      have hB1 := P.budget hB hl1 h.core.linked
      have hk1 := (hl1.units k hk).1
      have hrank1 : UnitStatus.inheritanceSolved.rank ≤ (d1.work.unit k).status.rank := by
        rw [hd1, unit_happen_self hk]
        exact Nat.le_refl _
      refine .step hbegin ?_
      refine .bind ((runStage_does hP hr hB1 h1 hk1 ⟨k, h1.core.linked.owned k hk1, hrank1⟩).lasting
        (.runStage k hr.sound (.resolveInheritance Order.lasting_solvesBases hr.sound)))
        fun _ d2 ⟨⟨_, hl2⟩, h2, hlooked⟩ => ?_
      -- it ends
      have h3 := h2.ended hnone hlooked
      have hl3 := later_endStage d2.work k .inheritanceSolved (d.work.unit k).errorCount
      refine .step rfl (.step rfl (.ite (fun hmore => ?_) fun _ => ?_))
      · refine .pure ⟨h3, .inr ⟨⟨_, rfl⟩, ?_⟩⟩
        rcases h2.verdict with hq | ht
        · have herrors := hq.errors k _ (Looking.during_self _ _ _)
          rw [errorCount_endStage, herrors] at hmore
          exact absurd hmore (Nat.lt_irrefl _)
        · exact h3.told_later ht h2.core.linked hl3
      · refine raised_does h3 ?_ m
        exact Nat.le_trans hrank1 ((hl2.trans hl3).units k hk1).2.status

theorem getUnit_does (hpath : path ∈ P.files) :
    Does B (Analyze.getUnit r path .inheritanceSolved) d fun a d' =>
      Inv P R S d'.work ∧ Found P R path a d'.work := by
  refine .bind (openUnit_does h hpath) fun a d1 ⟨_, hl1, h1, k, ha, hk⟩ => ?_
  subst ha
  have hlt := (h1.core.linked.placed path k hk).1
  have hB1 := P.budget hB hl1 h.core.linked
  have hkeeps : Keeps .lasting (raiseWithin r k .inheritanceSolved 5) :=
    .raiseWithin hr.carries k (Nat.le_refl _) 5
  refine .bind (.bind ((raiseWithin_does hP hr hB1 h1 hlt 3).lasting hkeeps)
    fun a d2 ⟨⟨_, hl2⟩, h2, hraised⟩ => .step rfl (.pure (Q := fun a d' => Inv P R S d'.work ∧
      d'.work.unitOf.find? path = some k ∧ Raised P R k a d'.work) ?_))
    fun a d3 ⟨h3, hk3, hraised⟩ => .pure ⟨h3, ?_⟩
  · have hu := Unmoved.answered d2.work k .inheritanceSolved a.toBool
    refine ⟨h2.unmoved hu, hu.unitOf ▸ hl2.unitOf path k hk, hraised.imp (fun ⟨ha, hrank⟩ =>
      ⟨ha, ?_⟩) fun ⟨hfault, ht⟩ => ⟨hfault, ?_⟩⟩
    · rw [show _ = (d2.work.unit k).status from (hu.same k).1]
      exact hrank
    · exact (h2.unmoved hu).told_later ht h2.core.linked (later_answered _ _ _ _)
  · rcases hraised with ⟨rfl, hrank⟩ | ⟨⟨fault, rfl⟩, ht⟩
    · exact .inl ⟨k, rfl, hk3, k, hk3, hrank⟩
    · exact .inr ⟨⟨fault, rfl⟩, ht⟩

end

theorem serves_resolver (hP : P.Plain) (n : Nat) : Serves P n (resolver n) := by
  induction n with
  | zero =>
    have hfails {α : Type} {B : Prop} {d : Desk} {Q : α → Desk → Prop} (hB : ¬ B) :
        Does B (failure : Analyze α) d Q :=
          ⟨fun hB' => absurd hB' hB, fun a d' hrun => by cases hrun⟩
    exact ⟨Ladder.carries_lasting 0, fun _ _ => hfails (Nat.not_lt_zero _),
      fun _ _ => hfails (Nat.not_lt_zero _), fun _ _ _ _ => hfails (Nat.not_lt_zero _)⟩
  | succ n ih =>
    exact ⟨Ladder.carries_lasting _, fun h hk => getUnit_known_does (by decide) h hk,
      fun h hpath => getUnit_does hP ih id h hpath,
      fun h hlt hs hi => resolveInheritance_does hP ih id h ⟨hlt, hs⟩ hi⟩

end Workspace

end HotScript
