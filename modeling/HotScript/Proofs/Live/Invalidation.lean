import HotScript.Live.Cache
import HotScript.Proofs.Analysis.Later
import Mathlib.Logic.Relation

/-!
Dropping the unit of a file, and with it the units of all files that refer to it.

The record that is followed shrinks on the way. Still exactly the files that were affected at the
beginning lose their units (`World.removeUnit_forgets_affected`).
-/

namespace HotScript

namespace Workspace

variable (w : Workspace) (path : String)

theorem unit_dropUnit (id : UnitId) : (w.dropUnit path).unit id =
      if w.unitOf.find? path = some id ∧ id < w.units.size then { w.unit id with abandoned := true }
      else w.unit id := by
  rw [dropUnit, unitAt?]
  cases hfind : w.unitOf.find? path with
  | none => simp
  | some other =>
    show (w.modifyUnit other _).unit id = _
    by_cases hid : id = other
    · subst hid
      rcases Nat.lt_or_ge id w.units.size with hlt | hge
      · rw [unit_modifyUnit_self hlt, if_pos ⟨rfl, hlt⟩]
      · rw [modifyUnit_of_le hge, if_neg fun h => absurd h.2 (Nat.not_lt.2 hge)]
    · rw [unit_modifyUnit_of_ne hid, if_neg fun h => hid (Option.some.inj h.1).symm]

theorem unitOf_dropUnit (other : String) :
    (w.dropUnit path).unitOf.find? other = if other = path then none else w.unitOf.find? other := by
  rw [dropUnit, unitAt?]
  cases hfind : w.unitOf.find? path with
  | none =>
    show w.unitOf.find? other = _
    split
    · next h => exact h ▸ hfind
    · rfl
  | some id =>
    show (w.unitOf.erase path).find? other = _
    split
    · next h => rw [h, Table.find?_erase_self]
    · next h => exact Table.find?_erase_of_ne _ h

theorem size_dropUnit : (w.dropUnit path).units.size = w.units.size := by
  rw [dropUnit]
  split
  · rfl
  · exact size_modifyUnit

end Workspace

/-! ### The record -/

namespace Cache

/-- What refers to a file comes after it. -/
def Affects (c : Cache) : String → String → Prop :=
  Relation.ReflTransGen fun path other => other ∈ c.dependentsOf path

theorem dependentsOf_erase (c : Cache) (path other : String) :
    { c with dependents := c.dependents.erase path }.dependentsOf other =
      if other = path then [] else c.dependentsOf other := by
  unfold dependentsOf
  split
  · next h => rw [h, Table.find?_erase_self]; rfl
  · next h => rw [Table.find?_erase_of_ne _ h]

def lengths (entries : List (String × List String)) : Nat :=
  (entries.map (·.2)).foldl (fun n l => n + l.length) 0

theorem lengths_cons (e : String × List String) (entries : List (String × List String)) :
    lengths (e :: entries) = e.2.length + lengths entries := by
  have hshift (l : List (List String)) (n : Nat) :
      l.foldl (fun n l => n + l.length) n = n + l.foldl (fun n l => n + l.length) 0 := by
    induction l generalizing n with
    | nil => rfl
    | cons a l ih =>
      rw [List.foldl_cons, List.foldl_cons, ih (n + a.length), ih (0 + a.length)]
      omega
  rw [lengths, List.map_cons, List.foldl_cons, hshift, Nat.zero_add]
  rfl

theorem dependentCount_erase (c : Cache) (path : String) :
    { c with dependents := c.dependents.erase path }.dependentCount +
      (c.dependentsOf path).length ≤ c.dependentCount := by
  show lengths (c.dependents.entries.filter fun e => !(path == e.1)) +
    ((c.dependents.entries.lookup path).getD []).length ≤ lengths c.dependents.entries
  induction c.dependents.entries with
  | nil => exact Nat.le_refl _
  | cons e rest ih =>
    rw [List.filter_cons, List.lookup_cons, lengths_cons]
    by_cases he : path = e.1
    · rw [if_neg (by simp [he]), show (path == e.1) = true by simpa using he]
      dsimp only [Option.getD_some]
      omega
    · rw [if_pos (by simpa using he), show (path == e.1) = false by simpa using he, lengths_cons]
      dsimp only
      omega

end Cache

/-! ### Dropping units -/

namespace World

def dropOne (w : World) (path : String) : World :=
  { w with
    work := w.work.dropUnit path
    cache := { w.cache with dependents := w.cache.dependents.erase path } }

/-- Files lost their units, and what was noted under them; everything else is as it was. -/
structure Forgets (lost : String → Prop) (w w' : World) : Prop where
  frame : w' = { w with
    work := { w.work with units := w'.work.units, unitOf := w'.work.unitOf }
    cache := { w.cache with dependents := w'.cache.dependents } }
  size : w'.work.units.size = w.work.units.size
  gone : ∀ p, lost p → w'.work.unitOf.find? p = none ∧ w'.cache.dependents.find? p = none
  kept : ∀ p, ¬ lost p → w'.work.unitOf.find? p = w.work.unitOf.find? p ∧
    w'.cache.dependents.find? p = w.cache.dependents.find? p
  /-- A unit that a file lost is abandoned, and otherwise as it was. -/
  abandoned : ∀ p id, lost p → w.work.unitOf.find? p = some id → id < w.work.units.size →
    w'.work.unit id = { w.work.unit id with abandoned := true }
  spared : ∀ id, (∀ p, lost p → w.work.unitOf.find? p ≠ some id) → w'.work.unit id = w.work.unit id

variable {w w1 w2 : World} {lost lost' : String → Prop} {q : String} {rest pending : List String}
  {m n : Nat}

theorem room_dropOne (h : (q :: rest).length + w.cache.dependentCount ≤ n + 1) :
    ((w.cache.dependentsOf q).filter (· != q) ++ rest).length +
      (w.dropOne q).cache.dependentCount ≤ n := by
  have hfilter := List.length_filter_le (· != q) (w.cache.dependentsOf q)
  have hcount : (w.dropOne q).cache.dependentCount + (w.cache.dependentsOf q).length ≤
      w.cache.dependentCount := Cache.dependentCount_erase w.cache q
  rw [List.length_cons] at h
  rw [List.length_append]
  omega

namespace Forgets

theorem nothing (w : World) (h : ∀ p, ¬ lost p) : w.Forgets lost w where
  frame := rfl
  size := rfl
  gone p hp := absurd hp (h p)
  kept _ _ := ⟨rfl, rfl⟩
  abandoned p _ hp := absurd hp (h p)
  spared _ _ := rfl

theorem congr (h : w.Forgets lost w1) (hiff : ∀ p, lost' p ↔ lost p) : w.Forgets lost' w1 := by
  obtain rfl : lost' = lost := funext fun p => propext (hiff p)
  exact h

theorem trans (h : w.Forgets lost w1) (h' : w1.Forgets lost' w2) :
    w.Forgets (fun p => lost p ∨ lost' p) w2 where
  frame := by rw [h'.frame, h.frame]
  size := h'.size.trans h.size
  gone p hp := by
    by_cases hp' : lost' p
    · exact h'.gone p hp'
    · rw [(h'.kept p hp').1, (h'.kept p hp').2]
      exact h.gone p (hp.resolve_right hp')
  kept p hp := by
    rw [not_or] at hp
    rw [(h'.kept p hp.2).1, (h'.kept p hp.2).2]
    exact h.kept p hp.1
  abandoned p id hp hid hlt := by
    -- the unit is abandoned at one of the two stages, and abandoning it twice changes nothing
    have hfirst : w1.work.unit id = { w.work.unit id with abandoned := true } ∨
        w1.work.unit id = w.work.unit id ∧ lost' p ∧ w1.work.unitOf.find? p = some id := by
      by_cases hown : ∃ p, lost p ∧ w.work.unitOf.find? p = some id
      · obtain ⟨p', hp', hid'⟩ := hown
        exact .inl (h.abandoned p' id hp' hid' hlt)
      · have hspared := h.spared id fun p' hp' hid' => hown ⟨p', hp', hid'⟩
        have hkept : ¬ lost p := fun hp' => hown ⟨p, hp', hid⟩
        exact .inr ⟨hspared, hp.resolve_left hkept, (h.kept p hkept).1.trans hid⟩
    have hlt1 : id < w1.work.units.size := h.size.symm ▸ hlt
    rcases hfirst with hfirst | ⟨hsame, hp', hid1⟩
    · by_cases hown : ∃ p, lost' p ∧ w1.work.unitOf.find? p = some id
      · obtain ⟨p', hp', hid'⟩ := hown
        rw [h'.abandoned p' id hp' hid' hlt1, hfirst]
      · rw [h'.spared id fun p' hp' hid' => hown ⟨p', hp', hid'⟩, hfirst]
    · rw [h'.abandoned p id hp' hid1 hlt1, hsame]
  spared id hid := by
    have hsame := h.spared id fun p hp => hid p (.inl hp)
    rw [← hsame]
    refine h'.spared id fun p hp hid' => ?_
    by_cases hp' : lost p
    · rw [(h.gone p hp').1] at hid'
      cases hid'
    · exact hid p (.inr hp) ((h.kept p hp').1.symm.trans hid')

theorem dropOne (w : World) (q : String) : w.Forgets (· = q) (w.dropOne q) where
  frame := by
    have hwork : w.work.dropUnit q = { w.work with
        units := (w.work.dropUnit q).units, unitOf := (w.work.dropUnit q).unitOf } := by
      rw [Workspace.dropUnit]
      split <;> rfl
    exact congrArg (fun work => { w.dropOne q with work }) hwork
  size := w.work.size_dropUnit q
  gone p hp := by
    subst hp
    exact ⟨(w.work.unitOf_dropUnit p p).trans (if_pos rfl), Table.find?_erase_self _ _⟩
  kept p hp := ⟨(w.work.unitOf_dropUnit q p).trans (if_neg hp), Table.find?_erase_of_ne _ hp⟩
  abandoned p id hp hid hlt := by
    subst hp
    exact (w.work.unit_dropUnit p id).trans (if_pos ⟨hid, hlt⟩)
  spared id hid := (w.work.unit_dropUnit q id).trans (if_neg fun h => hid q rfl h.1)

theorem unit (h : w.Forgets lost w1) (id : UnitId) :
    ∃ abandoned, w1.work.unit id = { w.work.unit id with abandoned } := by
  by_cases hown : ∃ p, lost p ∧ w.work.unitOf.find? p = some id
  · obtain ⟨p, hp, hid⟩ := hown
    rcases Nat.lt_or_ge id w.work.units.size with hlt | hge
    · exact ⟨true, h.abandoned p id hp hid hlt⟩
    · rw [Workspace.unit, Workspace.unit, Array.getElem?_eq_none hge,
        Array.getElem?_eq_none (h.size.symm ▸ hge)]
      exact ⟨_, rfl⟩
  · exact ⟨_, h.spared id fun p hp hid => hown ⟨p, hp, hid⟩⟩

theorem not_abandoned (h : w.Forgets lost w1) (hw : w.work.Placed) {id : UnitId}
    (hid : id < w.work.units.size) (ha : (w1.work.unit id).abandoned = false) :
    (w.work.unit id).abandoned = false ∧ ¬ lost (w.work.unit id).path := by
  by_cases hown : ∃ p, lost p ∧ w.work.unitOf.find? p = some id
  · obtain ⟨p, hp, hfind⟩ := hown
    rw [h.abandoned p id hp hfind hid] at ha
    cases ha
  · rw [h.spared id fun p hp hfind => hown ⟨p, hp, hfind⟩] at ha
    exact ⟨ha, fun hp => hown ⟨_, hp, hw.owned id hid ha⟩⟩

end Forgets

theorem affects_dropOne (p : String) : (∃ a ∈ q :: rest, w.cache.Affects a p) ↔
      p = q ∨ ∃ a ∈ (w.cache.dependentsOf q).filter (· != q) ++ rest,
        (w.dropOne q).cache.Affects a p := by
  have hdeps (a : String) : (w.dropOne q).cache.dependentsOf a =
      if a = q then [] else w.cache.dependentsOf a := Cache.dependentsOf_erase w.cache q a
  constructor
  · rintro ⟨a, ha, hpath⟩
    induction hpath with
    | refl =>
      rcases List.mem_cons.1 ha with rfl | ha
      · exact .inl rfl
      · exact .inr ⟨a, List.mem_append_right _ ha, .refl⟩
    | @tail b c _ hstep ih =>
      by_cases hc : c = q
      · exact .inl hc
      by_cases hb : b = q
      · rw [hb] at hstep
        exact .inr ⟨c, List.mem_append_left _ (List.mem_filter.2 ⟨hstep, by simpa using hc⟩), .refl⟩
      · obtain ⟨a', ha', hpath'⟩ := ih.resolve_left hb
        refine .inr ⟨a', ha', hpath'.tail ?_⟩
        rw [hdeps, if_neg hb]
        exact hstep
  · rintro (rfl | ⟨a, ha, hpath⟩)
    · exact ⟨p, (.head _), .refl⟩
    · have hpath : w.cache.Affects a p := by
        refine Relation.ReflTransGen.mono (fun b c hc => ?_) _ _ hpath
        rw [hdeps] at hc
        split at hc
        · cases hc
        · exact hc
      rcases List.mem_append.1 ha with ha | ha
      · exact ⟨q, (.head _), hpath.head (List.mem_filter.1 ha).1⟩
      · exact ⟨a, List.mem_cons_of_mem _ ha, hpath⟩

/-- Everything that waits, and all that it leads to, is dropped, and nothing else. -/
theorem forgets_dropUnits (hn : pending.length + w.cache.dependentCount ≤ n) :
    w.Forgets (fun p => ∃ a ∈ pending, w.cache.Affects a p) (dropUnits n pending w) := by
  induction n generalizing pending w with
  | zero =>
    obtain rfl : pending = [] := List.length_eq_zero_iff.1 (by omega)
    exact .nothing w (by simp)
  | succ n ih =>
    cases pending with
    | nil => exact .nothing w (by simp)
    | cons q rest =>
      exact ((Forgets.dropOne w q).trans (ih (room_dropOne hn))).congr affects_dropOne

theorem dropUnits_eq_of_room (hm : pending.length + w.cache.dependentCount ≤ m)
    (hn : pending.length + w.cache.dependentCount ≤ n) :
    dropUnits m pending w = dropUnits n pending w := by
  induction m generalizing n pending w with
  | zero =>
    obtain rfl : pending = [] := List.length_eq_zero_iff.1 (by omega)
    cases n <;> rfl
  | succ m ih =>
    cases pending with
    | nil => cases n <;> rfl
    | cons q rest =>
      cases n with
      | zero => simp at hn
      | succ n =>
        exact ih (room_dropOne hm) (room_dropOne hn)

theorem forgets_removeUnit (w : World) (path : String) :
    w.Forgets (w.cache.Affects path) (w.removeUnit path) :=
  (forgets_dropUnits (by simp [Nat.add_comm])).congr fun p => by simp

/-- Whatever is noted of whom: dropping the unit of a file takes the units of exactly the files that
are affected by it, and it ends. -/
theorem removeUnit_forgets_affected (w : World) (path : String) :
    w.Forgets (w.cache.Affects path) (w.removeUnit path) ∧
      ∀ n, w.cache.dependentCount < n → dropUnits n [path] w = w.removeUnit path := by
  refine ⟨w.forgets_removeUnit path, fun n hn => ?_⟩
  refine dropUnits_eq_of_room ?_ ?_ <;> rw [List.length_singleton] <;> omega

end World

end HotScript
