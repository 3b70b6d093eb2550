import Mathlib.Data.List.Perm.Subperm
import HotScript.Proofs.Inheritance.Serving

/-!
What `extends` clauses are found to name, and where chains of bases lead.

A clause that names a class directly is found to name just that class, unless its unit failed
because of the cycle. The classes along known bases are a trail of the project (`Project.Trail`):
one that comes back to where it began has found a cycle, and one that ends elsewhere shows that
there is none (`Project.Stops`).
-/

namespace HotScript

open Relation.ReflTransGen (cases_head)

theorem FileOutline.lt_of_descend {o : FileOutline} {i j : ClassId} {names : List String}
    (h : o.descend i names = some j) : i < o.length := by
  cases names with
  | nil =>
    rw [descend] at h
    split at h
    · next hi => exact hi
    · cases h
  | cons name rest =>
    obtain ⟨inner, hinner, -⟩ := Option.bind_eq_some_iff.1 h
    obtain ⟨c, hc, -⟩ := Option.bind_eq_some_iff.1 hinner
    exact (List.getElem?_eq_some_iff.1 hc).1

namespace Workspace

open Analyze

variable {w0 : Workspace} {P : w0.Project} {R R' : Looking} {S : List Place}
  {w w' : Workspace} {d : Desk} {c x c0 b : Place} {k : UnitId} {i inner j : ClassId}

/-! ### Clauses -/

theorem Core.classRef? (h : Core P R S w) (hk : k < w.units.size)
    (hi : i < (P.outline (w.unit k).path).length) :
    (w.unit k).classRef? i = some (P.ref ((w.unit k).path, i)) := by
  have hs := h.stands k hk
  have hf := Array.getElem?_eq_getElem (Nat.lt_of_lt_of_eq hi hs.count.symm)
  rw [FileUnit.classRef?, FileUnit.classFacts?, hf, Option.map_some, hs.refs i _ hf]

theorem Core.refOf (h : Core P R S d.work) (hlt : d.cursor.unit < d.work.units.size)
    (hi : i < (P.outline (d.work.unit d.cursor.unit).path).length) :
    Analyze.refOf i d = some (P.ref ((d.work.unit d.cursor.unit).path, i), d) := by
  show some (((d.work.unit d.cursor.unit).classRef? i).getD _, d) = _
  rw [h.classRef? hlt hi]
  rfl

/-- A clause was found to name what it does name, or the cycle has been reported. -/
def Named (P : w0.Project) (R : Looking) (x : Option Place)
    (a : Except (ResolutionFault × Span) StaticType) (w : Workspace) : Prop :=
  (∃ t, a = .ok t ∧ t.class? = x.map P.ref ∧ ∀ b, x = some b → Ready P w b) ∨
    (∃ fault span, a = .error (fault, span) ∧ fault.poisons = true ∧ fault.isCycle = false) ∧
    Told P R w

section

variable {n : Nat} {r : Resolver} (hr : Serves P n r) {B : Prop}

include hr

variable {p name : String} {missing : ResolutionFault × Span} {names : List Ident}

section

variable (hB : B → 0 < n) (hc : Core P R S d.work) (hlt : d.cursor.unit < d.work.units.size)
  (hfind : d.work.unitOf.find? p = some k)
include hB hc hlt hfind

theorem nestedClass_does (hinner : ((P.outline p)[i]?).bind (·.nested name) = some inner)
    (hlen : inner < (P.outline p).length) : Does B (nestedClass r (P.ref (p, i)) name) d fun a d' =>
      a = .ok (some (P.ref (p, inner))) ∧ d'.cursor = d.cursor ∧ Unmoved d.work d'.work := by
  have hfind' : d.work.unitOf.find? (P.ref (p, i)).path = some k := by rw [P.ref_path, hfind]
  obtain ⟨hk, hpath⟩ := hc.linked.placed p k hfind
  refine .bind (treeOf_does hr hB hc hlt hfind') fun t d1 hd => ?_
  obtain ⟨rfl, hcursor, hu⟩ := hd
  obtain ⟨t, ht, houtline, -⟩ := (hc.stands k hk).tree
  have hnested : (d.work.unit k).tree.bind (·.nested? (P.ref (p, i)).index [name]) =
      some inner := by
    rw [ht, Option.bind_some, P.ref_index, Tree.nested?_singleton, houtline, hpath, hinner]
  rw [hnested]
  have hc1 := hc.unmoved hu
  have hfind1 : d1.work.unitOf.find? (P.ref (p, i)).path = some k := by rw [hu.unitOf, hfind']
  have hlt1 : d1.cursor.unit < d1.work.units.size := by rw [hcursor, hu.size]; exact hlt
  refine .bind (unitOf_does hr hB hc1 hlt1 hfind1) fun a d2 hd => ?_
  obtain ⟨rfl, hcursor2, hu2⟩ := hd
  refine .step rfl (.pure ⟨?_, hcursor2.trans hcursor, hu.trans hu2⟩)
  have hpath2 : (d2.work.unit k).path = p := by rw [hu2.path, hu.path, hpath]
  have hk2 : k < d2.work.units.size := by rw [hu2.size, hu.size]; exact hk
  rw [(hc1.unmoved hu2).classRef? hk2 (hpath2 ▸ hlen), hpath2]

theorem descendClass_does (hdescend : (P.outline p).descend i (names.map (·.name)) = some j) :
    Does B (descendClass r missing names (P.ref (p, i))) d fun a d' =>
      a = .ok (P.ref (p, j)) ∧ d'.cursor = d.cursor ∧ Unmoved d.work d'.work := by
  induction names generalizing i d with
  | nil =>
    rw [List.map_nil, FileOutline.descend] at hdescend
    split at hdescend
    · cases hdescend
      exact .pure ⟨rfl, rfl, .refl _⟩
    · cases hdescend
  | cons ident rest ih =>
    obtain ⟨inner, hinner, hrest⟩ := Option.bind_eq_some_iff.1 hdescend
    refine .bind (nestedClass_does hr hB hc hlt hfind hinner (FileOutline.lt_of_descend hrest))
      fun a d' hd => ?_
    obtain ⟨rfl, hcursor, hu⟩ := hd
    have hlt' : d'.cursor.unit < d'.work.units.size := by rw [hcursor, hu.size]; exact hlt
    refine (ih (hc.unmoved hu) hlt' (hu.unitOf ▸ hfind) hrest).mono fun a d'' hd => ?_
    exact ⟨hd.1, hd.2.1.trans hcursor, hu.trans hd.2.2⟩

end

theorem descendType_does (hB : B → 0 < n) (h : Inv P R S d.work)
    (hlt : d.cursor.unit < d.work.units.size)
    (hready : ∀ j, (p, j) ∈ P.places → Ready P d.work (p, j)) (hp : p ∈ P.files)
    (hdescend : (P.outline p).descend i (names.map (·.name)) = some j) :
    Does B (do return (← descendClass r missing names (P.ref (p, i))).map StaticType.script) d
      fun a d' => Inv P R S d'.work ∧ Named P R (some (p, j)) a d'.work := by
  have hj : (p, j) ∈ P.places := P.mem_places.2 ⟨hp, FileOutline.descend_lt hdescend⟩
  obtain ⟨k, hk, -⟩ := (hready j hj).solved
  refine .bind (descendClass_does hr hB h.core hlt hk hdescend) fun a d' hd => .pure ?_
  obtain ⟨rfl, -, hu⟩ := hd
  refine ⟨h.unmoved hu, .inl ⟨_, rfl, rfl, ?_⟩⟩
  rintro b ⟨⟩
  exact ⟨hj, hu.solved (hready j hj).solved⟩

section

variable (hB : B → P.pending d.work < n) (h : Inv P R S d.work) (hstood : Stood d)
include hB h hstood

theorem fileType_does (hmissing : missing.1.poisons = true ∧ missing.1.isCycle = false)
    (hx : P.fileClass? p (names.map (·.name)) = some x) : Does B (do match ← baseFile r p with
      | none => return .error missing
      | some cls => return (← descendClass r missing names cls).map StaticType.script) d
      fun a d' => Inv P R S d'.work ∧ Named P R (some x) a d'.work := by
  rw [Project.fileClass?] at hx
  split at hx
  · next hfile =>
    obtain ⟨j, hj, rfl⟩ := Option.map_eq_some_iff.1 hx
    have hp := P.mem_files.2 hfile
    refine .bind (baseFile_does hr hB h hstood hp) fun a d' hd => ?_
    obtain ⟨ho, ⟨rfl, hready⟩ | ⟨rfl, ht⟩⟩ := hd
    · exact descendType_does hr (fun hB' => Nat.zero_lt_of_lt (hB hB')) ho.inv (ho.lt hstood.lt)
        hready hp hj
    · exact .pure ⟨ho.inv, .inr ⟨⟨_, _, rfl, hmissing⟩, ht⟩⟩
  · cases hx

theorem extendsType_does {clause : ExtendsClause} {x : Option Place}
    (hx : P.named? ((d.work.unit d.cursor.unit).path, i) clause = some x) :
    Does B (extendsType r i clause) d fun a d' => Onward P R S d d' ∧ Named P R x a d'.work := by
  refine (Does.lasting (Q := fun a d' => Inv P R S d'.work ∧ Named P R x a d'.work) ?_
    (.extendsType hr.sound _ _)).mono fun a d' h => ⟨⟨h.1.1, h.1.2, h.2.1⟩, h.2.2⟩
  have hstands := h.core.stands _ hstood.lt
  obtain ⟨t, ht, houtline, -⟩ := hstands.tree
  obtain ⟨path, chain, span⟩ := clause
  cases path with
  | some path =>
    obtain ⟨b, hb, rfl⟩ := Option.map_eq_some_iff.1 hx
    exact .step rfl (fileType_does hr hB h hstood ⟨rfl, rfl⟩ hb)
  | none =>
    cases chain with
    | nil => cases hx
    | cons first rest =>
      simp only [Project.named?, List.map_cons] at hx
      rw [← show d.work.registry = w0.registry from congrArg (·.2.1) h.core.outside] at hx
      refine .step rfl (.ite (fun hnative => ?_) fun hnative => ?_)
      · -- a native class, and nothing in it
        rw [if_pos hnative] at hx
        split at hx
        · next hrest =>
          cases hx
          rw [if_pos (by simpa using hrest)]
          exact .pure ⟨h, .inl ⟨_, rfl, rfl, by simp⟩⟩
        · cases hx
      · rw [if_neg hnative] at hx
        refine .step rfl ?_
        have henclosing : Analyze.enclosing? ((d.work.unit d.cursor.unit).tree.getD default)
            i first.name =
            (P.outline (d.work.unit d.cursor.unit).path).enclosing? i first.name := by
          rw [ht, Option.getD_some, Tree.enclosing?_eq, houtline]
        rw [henclosing]
        cases hinner : (P.outline (d.work.unit d.cursor.unit).path).enclosing? i first.name with
        | some inner =>
          -- a class around, in the unit itself
          rw [hinner] at hx
          obtain ⟨j, hj, rfl⟩ := Option.map_eq_some_iff.1 hx
          refine .step (h.core.refOf hstood.lt (FileOutline.lt_of_descend hj)) ?_
          exact descendType_does hr (fun hB' => Nat.zero_lt_of_lt (hB hB')) h hstood.lt
            (fun j hj => ⟨hj, hstood.solved⟩) hstands.file hj
        | none =>
          rw [hinner] at hx
          refine .step rfl ?_
          cases hglobal : d.work.registry.global? first.name with
          | none =>
            rw [hglobal] at hx
            cases hx
          | some g =>
            rw [hglobal] at hx
            obtain ⟨b, hb, rfl⟩ := Option.map_eq_some_iff.1 hx
            exact fileType_does hr hB h hstood ⟨rfl, rfl⟩ hb

end

end

/-! ### Trails -/

namespace Project

variable {c0 : Place} {passed : List Place}

/-- Extending leads from one class to another by way of the classes between, the last of them
first. -/
inductive Trail (P : w0.Project) (c0 : Place) : List Place → Place → Prop
  | base {b : Place} (h : P.Extends c0 b) : Trail P c0 [] b
  | step {passed : List Place} {c b : Place} (h : Trail P c0 passed c) (hcb : P.Extends c b) :
    Trail P c0 (c :: passed) b

namespace Trail

variable (h : P.Trail c0 passed c)

include h

theorem transGen : Relation.TransGen P.Extends c0 c := by
  induction h with
  | base hext => exact .single hext
  | step _ hcb ih => exact ih.tail hcb

variable {x y : Place}

theorem transGen_of_mem (hx : x ∈ passed) : Relation.TransGen P.Extends c0 x := by
  induction h with
  | base hext => cases hx
  | step h hcb ih =>
    rcases List.mem_cons.1 hx with rfl | hx
    · exact h.transGen
    · exact ih hx

theorem transGen_of_forall {T : Place → Place → Prop} (hx : x ∈ passed)
    (hT : ∀ a ∈ passed, ∀ b, P.Extends a b → T a b) : Relation.TransGen T x c := by
  induction h with
  | base hext => cases hx
  | step h hcb ih =>
    have hlast := hT _ (.head _) _ hcb
    rcases List.mem_cons.1 hx with rfl | hx
    · exact .single hlast
    · exact (ih hx fun a ha => hT a (.tail _ ha)).tail hlast

theorem mem (hc0 : c0 ∈ P.places) (hx : x ∈ passed) : x ∈ P.places := by
  have hclosed {a b : Place} (hab : Relation.TransGen P.Extends a b) (ha : a ∈ P.places) :
      b ∈ P.places := by
    induction hab with
    | single hab => exact Extends.mem P ha hab
    | tail _ hab ih => exact Extends.mem P ih hab
  exact hclosed (h.transGen_of_mem hx) hc0

theorem closed (hx : x = c0 ∨ x ∈ passed) (hxy : P.Extends x y) : y = c ∨ y ∈ passed := by
  induction h generalizing x y with
  | base hext =>
    rcases hx with rfl | hx
    · exact .inl (Extends.unique P hxy hext)
    · cases hx
  | step h hcb ih =>
    -- the trail up to its last class has what that class does not extend
    rcases hx with rfl | hx
    · rcases ih (.inl rfl) hxy with rfl | hy
      · exact .inr (.head _)
      · exact .inr (.tail _ hy)
    · rcases List.mem_cons.1 hx with rfl | hx
      · exact .inl (Extends.unique P hxy hcb)
      · rcases ih (.inr hx) hxy with rfl | hy
        · exact .inr (.head _)
        · exact .inr (.tail _ hy)

omit h in
theorem onCycle_iff (h : P.Trail c0 passed c0) (hc0 : c0 ∈ P.places) (hsingle : P.SingleCycle) :
    P.OnCycle x ↔ x = c0 ∨ x ∈ passed := by
  have hcycle : P.OnCycle c0 := ⟨hc0, h.transGen⟩
  have hreach {y : Place} (hy : Relation.TransGen P.Extends c0 y) : y = c0 ∨ y ∈ passed := by
    induction hy with
    | single hxy => exact h.closed (.inl rfl) hxy
    | tail _ hxy ih => exact h.closed ih hxy
  constructor
  · intro hx
    exact hreach (hsingle c0 x hcycle hx)
  · rintro (rfl | hx)
    · exact hcycle
    · refine ⟨h.mem hc0 hx, Relation.TransGen.trans ?_ (h.transGen_of_mem hx)⟩
      exact h.transGen_of_forall hx fun _ _ _ hab => hab

end Trail

/-- Following bases from a class ends before it comes to `c₀`: at a root, or at a class that is
being looked at. -/
inductive Stops (P : w0.Project) (S : List Place) (c0 : Place) : Place → Prop
  | root {b : Place} (hne : b ≠ c0) (h : P.base b = none) : Stops P S c0 b
  | stack {b : Place} (hne : b ≠ c0) (h : b ∈ S) : Stops P S c0 b
  | step {b b' : Place} (hne : b ≠ c0) (h : P.Extends b b') (hb' : Stops P S c0 b') : Stops P S c0 b

end Project

theorem Core.not_reflTransGen (h : Core P R S w) (hs : P.Stops S c0 b) :
    ¬ Relation.ReflTransGen (w.BaseEdge w.journal) b c0 := by
  induction hs with
  | root hne hroot =>
    intro hway
    obtain rfl | ⟨x, hx, -⟩ := cases_head hway
    · exact hne rfl
    · have hext := (h.baseEdge_iff.1 hx).2
      rw [Project.Extends, hroot] at hext
      cases hext
  | stack hne hmem =>
    intro hway
    obtain rfl | ⟨x, hx, -⟩ := cases_head hway
    · exact hne rfl
    · have hstate := (h.baseEdge_iff.1 hx).1
      rw [(h.stack _).1 hmem] at hstate
      cases hstate
  | step hne hext _ ih =>
    intro hway
    obtain rfl | ⟨x, hx, hrest⟩ := cases_head hway
    · exact hne rfl
    · obtain rfl := Project.Extends.unique P (h.baseEdge_iff.1 hx).2 hext
      exact ih hrest

theorem Inv.told_later (h : Inv P R S w') (ht : Told P R' w)
    (hlinked : w.Linked) (hl : w.Later w') : Told P R w' := by
  rcases h.verdict with hq | ht'
  · obtain ⟨k, c, clause, names, hc, -⟩ := ht.report
    obtain ⟨-, -, hinvalid, -⟩ := ht.spoiled c hc
    exact absurd ((hl.stateAt? hlinked hinvalid nofun).elim id id) (hq.usable c)
  · exact ht'

theorem Inv.resolved_later (h : Inv P R S w') (hres : w.stateAt? c = some .resolved)
    (hlinked : w.Linked) (hl : w.Later w') : Told P R w' ∨ w'.stateAt? c = some .resolved := by
  rcases h.verdict with hq | ht
  · exact .inr ((hl.stateAt? hlinked hres nofun).resolve_right (hq.usable c))
  · exact .inl ht

/-! ### Following bases -/

section

variable {n : Nat} {r : Resolver} (hP : P.Plain) (hr : Serves P n r) {B : Prop} {c0 b : Place}
  {passed : List Place} {fuel : Nat}

/-- Bases were followed from the class `c₀`, which is being looked at, as far as `c`. -/
structure Following (P : w0.Project) (R : Looking) (c0 : Place) (passed : List Place)
    (c : Place) (w : Workspace) : Prop where
  trail : P.Trail c0 passed c
  nodup : passed.Nodup
  fresh : c0 ∉ passed
  ready : Ready P w c
  resolved : Told P R w ∨ ∀ x ∈ passed, w.stateAt? x = some .resolved

theorem Following.step (h : Following P R c0 passed c w) (hinv : Inv P R S w')
    (hlinked : w.Linked) (hl : w.Later w') (hne : c ≠ c0) (hnew : c ∉ passed)
    (hstate : w'.stateAt? c = some .resolved) (hcb : P.Extends c b)
    (hb : Ready P w' b) : Following P R c0 (c :: passed) b w' where
  trail := h.trail.step hcb
  nodup := List.nodup_cons.2 ⟨hnew, h.nodup⟩
  fresh hmem := (List.mem_cons.1 hmem).elim (fun heq => hne heq.symm) h.fresh
  ready := hb
  resolved := by
    rcases h.resolved with ht | hres
    · exact .inl (hinv.told_later ht hlinked hl)
    · by_cases ht : Told P R w'
      · exact .inl ht
      · refine .inr fun x hx => ?_
        rcases List.mem_cons.1 hx with rfl | hx
        · exact hstate
        · exact (hinv.resolved_later (hres x hx) hlinked hl).resolve_left ht

/-- Where following bases from a class led. -/
def Ends (P : w0.Project) (R : Looking) (S : List Place) (c0 c : Place) (w : Workspace) :
    ChainEnd → Prop
  | .clear => Told P R w ∨ P.Stops S c0 c
  | .invalid _ => Told P R w
  | .cycle classes => Quiet R w ∧ ∃ passed : List Place,
    classes.dropLast = P.ref c0 :: passed.reverse.map P.ref ∧ P.Trail c0 passed c0 ∧ passed.Nodup ∧
      c0 ∉ passed ∧ ∀ x ∈ passed, w.stateAt? x = some .resolved

theorem Project.length_le (P : w0.Project) (hnodup : passed.Nodup)
    (hmem : ∀ x ∈ passed, x ∈ P.places) :
    passed.length ≤ P.places.length := (List.Nodup.subperm hnodup hmem).length_le

variable (hB : B → P.pending d.work < n) (h : Inv P R S d.work)
  (hlt : d.cursor.unit < d.work.units.size)
include hP hr hB h hlt

theorem chainEnd_does (hfuel : B → P.places.length < fuel + passed.length) (hc0 : c0 ∈ S)
    (hmem : c0 ∈ P.places) (hf : Following P R c0 passed c d.work) :
    Does B (chainEnd r (P.ref c0) fuel ((passed ++ [c0]).map P.ref) (P.ref c)) d fun a d' =>
      Onward P R S d d' ∧ Ends P R S c0 c d'.work a := by
  induction fuel generalizing passed c d with
  | zero =>
    refine ⟨fun hB' => ?_, fun a d' hrun => by cases hrun⟩
    have hle := P.length_le hf.nodup fun x hx => hf.trail.mem hmem hx
    exact absurd (hfuel hB') (by omega)
  | succ fuel ih =>
    have hrefl : Onward P R S d d := ⟨rfl, .refl _, h⟩
    refine .ite (fun hsame => .pure ⟨hrefl, ?_⟩) fun hsame => .ite (fun hseen => .pure ⟨hrefl, ?_⟩)
      fun hseen => ?_
    · -- back at the class, which is therefore on a cycle that was not reported
      obtain rfl := (hP.distinct.same_ref hf.ready.mem hmem).1 hsame
      have hnot : ¬ Told P R d.work := fun ht =>
        h.not_onCycle ht hc0 ⟨hmem, hf.trail.transGen⟩
      refine ⟨h.verdict.resolve_right hnot, passed, ?_, hf.trail, hf.nodup, hf.fresh,
        hf.resolved.resolve_left hnot⟩
      rw [List.reverse_cons, List.dropLast_concat, ← List.map_reverse, List.reverse_append]
      rfl
    · -- a class is met again: the bases of all between are known, so they would go in a circle
      refine .inl (hf.resolved.resolve_right fun hres => ?_)
      rw [List.map_append, List.map_singleton, List.dropLast_concat, List.any_map, List.any_eq_true]
        at hseen
      obtain ⟨x, hx, hxc⟩ := hseen
      obtain rfl := (hP.distinct.same_ref (hf.trail.mem hmem hx) hf.ready.mem).1 hxc
      refine h.core.moments _ (List.suffix_refl _)
        x (hf.trail.transGen_of_forall hx fun a ha b hab => ?_)
      exact h.core.baseEdge_iff.2 ⟨hres a ha, hab⟩
    · have hne : c ≠ c0 := fun heq => hsame ((hP.distinct.same_ref hf.ready.mem hmem).2 heq)
      have hnew : c ∉ passed := by
        intro hx
        refine hseen ?_
        rw [List.map_append, List.map_singleton, List.dropLast_concat, List.any_map,
          List.any_eq_true]
        exact ⟨c, hx, (hP.distinct.same_ref hf.ready.mem hf.ready.mem).2 rfl⟩
      refine .bind (baseOf_does hr hB h hlt hf.ready) fun a d1 ⟨ho, hsays⟩ => ?_
      cases hsays with
      | native name hroot => exact .pure ⟨ho, .inr (.root hne hroot)⟩
      | unknown hroot => exact .pure ⟨ho, .inr (.root hne hroot)⟩
      | resolving hmem => exact .pure ⟨ho, .inr (.stack hne hmem)⟩
      | invalid ht => exact .pure ⟨ho, ht⟩
      | script hstate hcb hb =>
        have hf1 := hf.step ho.inv h.core.linked ho.later hne hnew hstate hcb hb
        refine (ih (P.budget hB ho.later h.core.linked) ho.inv (ho.lt hlt) (fun hB' => ?_) hf1).mono
          fun a d2 ⟨ho2, hends⟩ => ⟨ho.trans ho2, ?_⟩
        · have hfuel' := hfuel hB'
          rw [List.length_cons]
          omega
        · cases a with
          | clear => exact hends.imp_right fun hstops => .step hne hcb hstops
          | invalid cls => exact hends
          | cycle classes => exact hends

/-! ### The native class at the root -/

theorem rootFrom_does (hfuel : B → P.places.length < fuel + passed.length)
    (hready : Ready P d.work c) (hnodup : passed.Nodup) (hmem : ∀ x ∈ passed, x ∈ P.places) :
    Does B (rootFrom r fuel (passed.map P.ref) (P.ref c)) d fun _ d' => Onward P R S d d' := by
  induction fuel generalizing passed c d with
  | zero =>
    refine ⟨fun hB' => ?_, fun a d' hrun => by cases hrun⟩
    have hle := P.length_le hnodup hmem
    exact absurd (hfuel hB') (by omega)
  | succ fuel ih =>
    refine .ite (fun hseen => .pure ⟨rfl, .refl _, h⟩) fun hseen => ?_
    have hnew : c ∉ passed := by
      intro hx
      refine hseen ?_
      rw [List.any_map, List.any_eq_true]
      exact ⟨c, hx, (hP.distinct.same_ref hready.mem hready.mem).2 rfl⟩
    refine .bind (baseOf_does hr hB h hlt hready) fun a d1 ⟨ho, hsays⟩ => ?_
    cases hsays with
    | native name => exact .pure ho
    | unknown => exact .pure ho
    | resolving => exact .pure ho
    | invalid => exact .pure ho
    | script hstate hcb hb =>
      have hnodup1 : (c :: passed).Nodup := List.nodup_cons.2 ⟨hnew, hnodup⟩
      refine (ih (P.budget hB ho.later h.core.linked) ho.inv (ho.lt hlt) (fun hB' => ?_) hb hnodup1
        fun x hx => ?_).mono fun a d2 ho2 => ho.trans ho2
      · have hfuel' := hfuel hB'
        rw [List.length_cons]
        omega
      · rcases List.mem_cons.1 hx with rfl | hx
        · exact hready.mem
        · exact hmem x hx

theorem nativeOf_does {t : StaticType} {x : Option Place} (ht : t.class? = x.map P.ref)
    (hx : ∀ b, x = some b → Ready P d.work b) :
    Does B (nativeOf r t) d fun _ d' => Onward P R S d d' := by
  have hrefl : Onward P R S d d := ⟨rfl, .refl _, h⟩
  rw [nativeOf]
  rw [StaticType.class?] at ht
  cases hshape : t.shape with
  | script cls =>
    rw [hshape, eq_comm, Option.map_eq_some_iff] at ht
    obtain ⟨b, rfl, rfl⟩ := ht
    have hready := hx b rfl
    obtain ⟨k, hk, -⟩ := hready.solved
    have hfind : d.work.unitOf.find? (P.ref b).path = some k := by rw [P.ref_path, hk]
    refine (Does.lasting (Q := fun _ d' => Inv P R S d'.work) ?_ (.nativeRoot hr.sound _)).mono
      fun a d' h => ⟨h.1.1, h.1.2, h.2⟩
    refine .bind (unitOf_does hr (fun hB' => Nat.zero_lt_of_lt (hB hB')) h.core hlt hfind)
      fun a d1 hd => ?_
    obtain ⟨rfl, hcursor, hu⟩ := hd
    have hinv1 := h.unmoved hu
    refine .step rfl (.step rfl ?_)
    cases ((d1.work.unit k).classFacts? (P.ref b).index).bind (·.native) with
    | some name => exact .pure hinv1
    | none =>
      have hlt1 : d1.cursor.unit < d1.work.units.size := by rw [hcursor, hu.size]; exact hlt
      have hready1 : Ready P d1.work b := ⟨hready.mem, hu.solved hready.solved⟩
      have hfuel : B → P.places.length < patience + ([] : List Place).length :=
        fun _ => hP.places_lt
      exact (rootFrom_does hP hr (fun hB' => hu.pending P ▸ hB hB') hinv1 hlt1 hfuel hready1
        List.nodup_nil fun x hx => absurd hx List.not_mem_nil).mono fun _ _ ho => ho.inv
  | _ => exact .pure hrefl

end

end Workspace

end HotScript
