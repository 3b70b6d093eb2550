import HotScript.Live.Script

/-!
What stays alive.

Releasing cells whose count is zero, one after the other, leaves the largest set of cells in which
each is held from outside or referred to by a member (`Retain.settle_pos_iff`). So whoever holds on
to more keeps no less alive (`World.isAlive_mono`).
-/

open List (count_cons count_eq_zero count_pos_iff mem_append mem_cons not_mem_nil)

namespace HotScript

namespace Retain

/-- Cells that are there, each of which is held from outside or referred to by one of them. -/
def Supported (successors : Array (List Nat)) (roots : List Nat) (S : Nat → Prop) : Prop :=
  ∀ j, S j → j < successors.size ∧ (j ∈ roots ∨ ∃ i, S i ∧ j ∈ successors[i]?.getD [])

variable {successors : Array (List Nat)} {roots roots' cells : List Nat} {S : Nat → Prop}

theorem Supported.mono (h : Supported successors roots S)
    (hroots : ∀ j ∈ roots, j ∈ roots') : Supported successors roots' S :=
  fun j hj => ⟨(h j hj).1, (h j hj).2.imp_left (hroots j)⟩

theorem size_refer (counts : Array Nat) (cells : List Nat) :
    (refer counts cells).size = counts.size := by
  induction cells generalizing counts with
  | nil => rfl
  | cons i cells ih => exact (ih _).trans Array.size_modify

variable {j n : Nat}

theorem refer_get (counts : Array Nat) (cells : List Nat) (hj : j < counts.size) :
    (refer counts cells)[j]?.getD 0 = counts[j]?.getD 0 + cells.count j := by
  induction cells generalizing counts with
  | nil => rfl
  | cons i cells ih =>
    have hsize : j < (counts.modify i (· + 1)).size := by rwa [Array.size_modify]
    have hcounts : (counts.modify i (· + 1))[j]?.getD 0 = counts[j]?.getD 0 + [i].count j := by
      rw [Array.getElem?_modify]
      by_cases hij : i = j
      · simp [hij, hj]
      · simp [hij]
    show (refer (counts.modify i (· + 1)) cells)[j]?.getD 0 = _
    rw [ih _ hsize, hcounts, count_cons, count_cons, List.count_nil]
    omega

theorem counts_get (hj : j < successors.size) : (counts successors roots)[j]?.getD 0 =
      roots.count j +
        ((List.range successors.size).flatMap fun i => successors[i]?.getD []).count j := by
  have hfold (l : List (List Nat)) (start : Array Nat) (hstart : j < start.size) :
      (l.foldl refer start)[j]?.getD 0 = start[j]?.getD 0 + l.flatten.count j := by
    induction l generalizing start with
    | nil => rfl
    | cons cells l ih =>
      rw [List.foldl_cons, ih _ (by rwa [size_refer]), refer_get start cells hstart,
        List.flatten_cons, List.count_append, Nat.add_assoc]
  have hlist : ((List.range successors.size).flatMap fun i => successors[i]?.getD []) =
      successors.toList.flatten := by
    rw [List.flatMap_def]
    congr 1
    refine List.ext_getElem? fun i => ?_
    by_cases hi : i < successors.size
    · simp [hi]
    · simp [hi]
  rw [hlist, counts, ← Array.foldl_toList, hfold _ _ (by simpa [size_refer] using hj),
    refer_get _ _ (by simpa using hj)]
  simp [hj]

/-! ### Releasing -/

/-- Where releasing has got to: which cells are not released yet, which of them are to be next, and
the references that count. -/
structure Released (successors : Array (List Nat)) (roots left pending : List Nat)
    (counts : Array Nat) : Prop where
  size : counts.size = successors.size
  nodup : left.Nodup
  known : ∀ i ∈ left, i < successors.size
  /-- Only what is not released refers to anything. -/
  count : ∀ j < successors.size, counts[j]?.getD 0 =
    roots.count j + (left.flatMap fun i => successors[i]?.getD []).count j
  queued : pending.Nodup ∧ ∀ i ∈ pending, i ∈ left
  /-- What nothing refers to is released or will be. -/
  zero : ∀ j < successors.size, counts[j]?.getD 0 = 0 ↔ j ∈ left → j ∈ pending

theorem unrefer_spec {counts : Array Nat} (pending : List Nat)
    (hsize : counts.size = n) (henough : ∀ j < n, cells.count j ≤ counts[j]?.getD 0) :
    (unrefer counts pending cells).1.size = n ∧
    (∀ j < n, (unrefer counts pending cells).1[j]?.getD 0 = counts[j]?.getD 0 - cells.count j) ∧
    ∃ more, (unrefer counts pending cells).2 = more ++ pending ∧ more.Nodup ∧
      ∀ j, j ∈ more ↔ j < n ∧ j ∈ cells ∧ counts[j]?.getD 0 = cells.count j := by
  induction cells generalizing counts pending with
  | nil => exact ⟨hsize, fun _ _ => rfl, [], rfl, List.nodup_nil, by simp⟩
  | cons i cells ih =>
    have hcount (j : Nat) (hj : j < n) :
        (counts.setIfInBounds i (counts[i]?.getD 0 - 1))[j]?.getD 0 =
          counts[j]?.getD 0 - [i].count j := by
      by_cases hij : i = j
      · subst hij
        simp [hsize, hj]
      · simp [hij]
    have hone (j : Nat) : (i :: cells).count j = cells.count j + [i].count j := by
      rw [count_cons, count_cons, List.count_nil, Nat.zero_add]
    have hself : [i].count i = 1 := by simp
    have hother (j : Nat) (hj : j ≠ i) : [i].count j = 0 := by simp [Ne.symm hj]
    have henough' (j : Nat) (hj : j < n) :
        cells.count j ≤ (counts.setIfInBounds i (counts[i]?.getD 0 - 1))[j]?.getD 0 := by
      have hle := henough j hj
      rw [hone] at hle
      rw [hcount j hj]
      omega
    obtain ⟨hsize', hcount', more, hmore, hnodup, hmem⟩ :=
      ih (if counts[i]?.getD 0 - 1 = 0 ∧ i < counts.size then i :: pending else pending)
        (by simpa using hsize) henough'
    have hstep : unrefer counts pending (i :: cells) =
        unrefer (counts.setIfInBounds i (counts[i]?.getD 0 - 1))
          (if counts[i]?.getD 0 - 1 = 0 ∧ i < counts.size then i :: pending else pending) cells :=
            rfl
    rw [hstep]
    refine ⟨hsize', fun j hj => ?_, ?_⟩
    · refine (hcount' j hj).trans ?_
      rw [hcount j hj, hone]
      omega
    by_cases hlast : counts[i]?.getD 0 - 1 = 0 ∧ i < counts.size
    · rw [if_pos hlast] at hmore ⊢
      have hi : i < n := hsize ▸ hlast.2
      have hgone : i ∉ cells := by
        have hle := henough i hi
        rw [hone, hself] at hle
        exact count_eq_zero.1 (by omega)
      refine ⟨more ++ [i], hmore.trans (by simp), ?_, fun j => ?_⟩
      · rw [List.nodup_append]
        refine ⟨hnodup, List.nodup_cons.2 ⟨not_mem_nil, List.nodup_nil⟩, fun j hj k hk heq =>
          hgone ?_⟩
        rw [← List.mem_singleton.1 hk, ← heq]
        exact ((hmem j).1 hj).2.1
      · rw [mem_append, hmem, hone]
        by_cases hj : j = i
        · subst hj
          have hle := henough j hi
          rw [hone, hself] at hle
          simp
          omega
        · by_cases hjn : j < n
          · rw [hcount j hjn, hother j hj]
            simp [hj, hjn]
          · simp [hj, hjn]
    · rw [if_neg hlast] at hmore ⊢
      refine ⟨more, hmore, hnodup, fun j => ?_⟩
      rw [hmem, mem_cons, hone]
      by_cases hj : j = i
      · subst hj
        by_cases hjn : j < n
        · rw [hcount j hjn, hself]
          constructor
          · rintro ⟨-, -, heq⟩
            exact ⟨hjn, .inl rfl, by omega⟩
          · rintro ⟨-, -, heq⟩
            exact ⟨hjn, count_pos_iff.1 (by omega), by omega⟩
        · simp [hjn]
      · by_cases hjn : j < n
        · rw [hcount j hjn, hother j hj]
          simp [hj, hjn]
        · simp [hjn]

namespace Released

variable {left pending : List Nat} {counts : Array Nat} {i n : Nat} {S : Nat → Prop}

theorem step (h : Released successors roots left (i :: pending) counts) :
    let after := unrefer counts pending (successors[i]?.getD [])
    Released successors roots (left.erase i) after.2 after.1 := by
  obtain ⟨hnodup, hleft⟩ := h.queued
  obtain ⟨hi, hpending⟩ := List.nodup_cons.1 hnodup
  have hrefs (j : Nat) : (left.flatMap fun i => successors[i]?.getD []).count j =
      (successors[i]?.getD []).count j +
        ((left.erase i).flatMap fun i => successors[i]?.getD []).count j := by
    have hperm := (List.perm_cons_erase (hleft i (.head _))).flatMap_right
      fun i => successors[i]?.getD []
    rw [hperm.count_eq, List.flatMap_cons, List.count_append]
  have hcount (j : Nat) (hj : j < successors.size) := (h.count j hj).trans (congrArg _ (hrefs j))
  have herase (j : Nat) : j ∈ left.erase i ↔ j ≠ i ∧ j ∈ left := h.nodup.mem_erase_iff
  have henough (j : Nat) (hj : j < successors.size) :
      (successors[i]?.getD []).count j ≤ counts[j]?.getD 0 := by
    rw [hcount j hj]
    omega
  obtain ⟨hsize, hafter, more, hmore, hfresh, hmem⟩ := unrefer_spec pending h.size henough
  -- what has just lost its last reference was neither released nor queued
  have hnew (j : Nat) (hj : j ∈ more) : j ∈ left ∧ j ∉ i :: pending := by
    obtain ⟨hlt, hcell, heq⟩ := (hmem j).1 hj
    have hpos := count_pos_iff.2 hcell
    have hzero := mt (h.zero j hlt).2 (by omega)
    exact Classical.not_imp.1 hzero
  refine ⟨hsize, h.nodup.erase i, fun j hj => h.known j (List.mem_of_mem_erase hj), fun j hj => ?_,
    ⟨?_, fun j hj => ?_⟩, fun j hj => ?_⟩
  · rw [hafter j hj, hcount j hj]
    omega
  · rw [hmore, List.nodup_append]
    refine ⟨hfresh, hpending, fun j hj k hk heq => (hnew j hj).2 ?_⟩
    exact heq ▸ List.mem_cons_of_mem _ hk
  · rw [hmore, mem_append] at hj
    rw [herase]
    rcases hj with hj | hj
    · obtain ⟨hmem, hnot⟩ := hnew j hj
      exact ⟨fun heq => hnot (mem_cons.2 (.inl heq)), hmem⟩
    · exact ⟨fun heq => hi (heq ▸ hj), hleft j (.tail _ hj)⟩
  · rw [hafter j hj, hmore, mem_append, herase, hmem]
    have hle := henough j hj
    have hzero := h.zero j hj
    rw [mem_cons] at hzero
    constructor
    · rintro hnone ⟨hne, hjl⟩
      by_cases hcell : j ∈ successors[i]?.getD []
      · exact .inl ⟨hj, hcell, by omega⟩
      · rw [count_eq_zero.2 hcell] at hnone
        exact .inr ((hzero.1 hnone hjl).resolve_left hne)
    · intro himp
      by_cases hjl : j ≠ i ∧ j ∈ left
      · rcases himp hjl with ⟨-, -, heq⟩ | hqueued
        · omega
        · rw [hzero.2 fun _ => .inr hqueued, Nat.zero_sub]
      · rw [hzero.2 fun hmem => .inl (Classical.not_not.1 fun hne => hjl ⟨hne, hmem⟩), Nat.zero_sub]

theorem keeps (h : Released successors roots left (i :: pending) counts)
    (hS : Supported successors roots S) (hleft : ∀ j, S j → j ∈ left) :
    ∀ j, S j → j ∈ left.erase i := by
  have hi : i < successors.size := h.known i (h.queued.2 i (.head _))
  have hzero := (h.zero i hi).2 fun _ => (.head _)
  rw [h.count i hi, Nat.add_eq_zero_iff, count_eq_zero, count_eq_zero] at hzero
  intro j hj
  refine h.nodup.mem_erase_iff.2 ⟨fun heq => ?_, hleft j hj⟩
  obtain ⟨-, hroot | ⟨k, hk, hrefers⟩⟩ := hS j hj
  · exact hzero.1 (heq ▸ hroot)
  · exact hzero.2 (List.mem_flatMap.2 ⟨k, hleft k hk, heq ▸ hrefers⟩)

theorem run (hS : Supported successors roots S)
    (h : Released successors roots left pending counts) (hleft : ∀ j, S j → j ∈ left)
    (hn : left.length ≤ n) :
    ∃ left', Released successors roots left' [] (release successors n pending counts) ∧
      ∀ j, S j → j ∈ left' := by
  induction n generalizing left pending counts with
  | zero =>
    obtain rfl : left = [] := List.eq_nil_of_length_eq_zero (Nat.le_zero.1 hn)
    obtain rfl : pending = [] := List.eq_nil_iff_forall_not_mem.2 fun j hj =>
      not_mem_nil (h.queued.2 j hj)
    exact ⟨[], h, hleft⟩
  | succ n ih =>
    cases pending with
    | nil => exact ⟨left, h, hleft⟩
    | cons i pending =>
      refine ih h.step (h.keeps hS hleft) ?_
      rw [List.length_erase_of_mem (h.queued.2 i (.head _))]
      omega

end Released

theorem released_start (successors : Array (List Nat)) (roots : List Nat) :
    let start := counts successors roots
    Released successors roots (List.range successors.size)
      ((List.range start.size).filter fun i => start[i]?.getD 0 == 0) start := by
  intro start
  have hsize : start.size = successors.size := by
    have hfold (l : List (List Nat)) (c : Array Nat) : (l.foldl refer c).size = c.size := by
      induction l generalizing c with
      | nil => rfl
      | cons cells l ih => exact (ih _).trans (size_refer _ _)
    show (successors.foldl refer _).size = _
    rw [← Array.foldl_toList, hfold, size_refer, Array.size_replicate]
  refine ⟨hsize, List.nodup_range, fun i hi => List.mem_range.1 hi, fun j hj => counts_get hj,
    ⟨List.nodup_range.filter _, fun i hi => ?_⟩, fun j hj => ?_⟩
  · rw [← hsize]
    exact (List.mem_filter.1 hi).1
  · simp [hsize, hj]

theorem released_settle (hS : Supported successors roots S) :
    ∃ left, Released successors roots left [] (settle successors roots) ∧ ∀ j, S j → j ∈ left := by
  have hstart := released_start successors roots
  exact hstart.run hS (fun k hk => List.mem_range.2 (hS k hk).1)
    (Nat.le_of_eq (by rw [List.length_range, hstart.size]))

/-- **What stays is the largest set of cells in which each is held or referred to by a member.** -/
theorem settle_pos_iff : 0 < (settle successors roots)[j]?.getD 0 ↔
    ∃ S, Supported successors roots S ∧ S j := by
  constructor
  · intro hpos
    have hnone : Supported successors roots fun _ => False := fun _ h => h.elim
    obtain ⟨left, hleft, -⟩ := released_settle hnone
    have hcount {k : Nat} (hk : k < successors.size) :
        0 < (settle successors roots)[k]?.getD 0 ↔ k ∈ left := by
      have hzero := hleft.zero k hk
      simp only [not_mem_nil] at hzero
      rw [Nat.pos_iff_ne_zero, Ne, hzero, Classical.not_not]
    have hlt : j < successors.size := by
      refine Nat.lt_of_not_le fun hge => ?_
      rw [Array.getElem?_eq_none (hleft.size.symm ▸ hge)] at hpos
      cases hpos
    refine ⟨fun k => k ∈ left, fun k hk => ?_, (hcount hlt).1 hpos⟩
    have hknown := hleft.known k hk
    have hpos := (hcount hknown).2 hk
    refine ⟨hknown, Classical.or_iff_not_imp_left.2 fun hroot => ?_⟩
    rw [hleft.count k hknown, count_eq_zero.2 hroot, Nat.zero_add, count_pos_iff] at hpos
    exact List.mem_flatMap.1 hpos
  · rintro ⟨S, hS, hj⟩
    obtain ⟨left, hleft, hkept⟩ := released_settle hS
    refine Nat.pos_of_ne_zero fun heq => ?_
    exact absurd ((hleft.zero j (hS j hj).1).1 heq (hkept j hj)) not_mem_nil

end Retain

/-- The same cells refer to the same, and at least as much is held from outside. -/
structure World.Holds (w w' : World) : Prop where
  cells : w'.cells = w.cells
  number : w'.number = w.number
  successors : w'.successors = w.successors
  roots : ∀ c ∈ w.roots, c ∈ w'.roots

theorem World.isAlive_mono {w w' : World} (h : w.Holds w') {c : Cell} (hc : w.isAlive c) :
    w'.isAlive c := by
  unfold isAlive at hc ⊢
  rw [h.cells, h.successors, h.number]
  simp only [Bool.or_eq_true, List.contains_iff_mem, decide_eq_true_eq, Retain.settle_pos_iff]
    at hc ⊢
  rcases hc with hroot | ⟨S, hS, hc⟩
  · exact .inl (h.roots c hroot)
  · refine .inr ⟨S, hS.mono fun j hj => ?_, hc⟩
    obtain ⟨d, hd, rfl⟩ := List.mem_map.1 hj
    exact List.mem_map_of_mem (h.roots d hd)

end HotScript
