/-!
Lists in the order of a key.
-/

namespace HotScript

variable {α : Type}

/-- Put an item in front of the first one whose key is not smaller. -/
def insertBy (key : α → Nat) (a : α) : List α → List α
  | [] => [a]
  | b :: rest => if key a ≤ key b then a :: b :: rest else b :: insertBy key a rest

/-- The items by key; those with equal keys stay in their order. -/
def orderBy (key : α → Nat) (l : List α) : List α := l.foldr (insertBy key) []

variable (key : α → Nat) (l : List α)

theorem insertBy_perm (a : α) (l : List α) : (insertBy key a l).Perm (a :: l) := by
  induction l with
  | nil => exact .refl _
  | cons b rest ih =>
    rw [insertBy]
    split
    · exact .refl _
    · exact (ih.cons b).trans (.swap a b rest)

theorem orderBy_perm : (orderBy key l).Perm l := by
  induction l with
  | nil => exact .refl _
  | cons a rest ih => exact (insertBy_perm key a _).trans (ih.cons a)

theorem pairwise_insertBy (a : α) {l : List α} (h : l.Pairwise fun x y => key x ≤ key y) :
    (insertBy key a l).Pairwise fun x y => key x ≤ key y := by
  induction l with
  | nil => exact List.pairwise_singleton _ a
  | cons b rest ih =>
    obtain ⟨hb, hrest⟩ := List.pairwise_cons.1 h
    rw [insertBy]
    split
    · next hab =>
      refine List.pairwise_cons.2 ⟨fun y hy => ?_, h⟩
      rcases List.mem_cons.1 hy with rfl | hy
      · exact hab
      · exact Nat.le_trans hab (hb y hy)
    · next hab =>
      refine List.pairwise_cons.2 ⟨fun y hy => ?_, ih hrest⟩
      rcases List.mem_cons.1 ((insertBy_perm key a rest).mem_iff.1 hy) with rfl | hy
      · exact Nat.le_of_not_le hab
      · exact hb y hy

theorem pairwise_orderBy : (orderBy key l).Pairwise fun x y => key x ≤ key y := by
  induction l with
  | nil => exact .nil
  | cons a rest ih => exact pairwise_insertBy key a ih

end HotScript
