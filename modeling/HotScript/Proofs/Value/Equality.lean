import HotScript.Proofs.Value.Folding
import Mathlib

/-!
When equality is symmetric.

Dictionaries are compared from one side: equally many entries, and each of the first with an equal
one in the second. That is symmetric as long as no entry of the second is taken twice. Keys of one
dictionary differ, but a float can equal two integers by rounding (`Heap.equal_not_symm`).
-/

namespace HotScript

def Value.isContainer : Value → Bool
  | array _ | dictionary _ => true
  | _ => false

theorem agree_symm {α : Type} {eq : α → α → Bool} (heq : ∀ a b, eq a b = true → eq b a = true)
    {as bs : List α} (h : agree eq as bs = true) : agree eq bs as = true := by
  induction as generalizing bs with
  | nil => cases bs with
    | nil => rfl
    | cons b bs => cases h
  | cons a as ih => cases bs with
    | nil => cases h
    | cons b bs =>
      rw [agree, Bool.and_eq_true] at h ⊢
      exact ⟨heq a b h.1, ih h.2⟩

/-- If every member of a list is tied to one of a list that is no longer, and no two to the same,
then the other list has no more. -/
theorem exists_tied {α β : Type} {R : α → β → Prop} {as : List α} {bs : List β}
    (hlen : as.length = bs.length) (hall : ∀ a ∈ as, ∃ b ∈ bs, R a b)
    (hone : as.Pairwise fun a a' => ∀ b ∈ bs, R a b → ¬ R a' b) {b : β} (hb : b ∈ bs) :
    ∃ a ∈ as, R a b := by
  have hplace (i : Fin as.length) : ∃ j : Fin bs.length, R (as.get i) (bs.get j) := by
    obtain ⟨b, hb, hr⟩ := hall _ (as.get_mem i)
    obtain ⟨j, rfl⟩ := List.mem_iff_get.1 hb
    exact ⟨j, hr⟩
  choose f hf using hplace
  have hne {i j : Fin as.length} (hij : i < j) : f i ≠ f j := fun he =>
    List.pairwise_iff_get.1 hone i j hij _ (bs.get_mem (f i)) (hf i) (he ▸ hf j)
  have hinj : Function.Injective f := fun i j he => by
    rcases lt_trichotomy i j with hij | hij | hij
    exacts [absurd he (hne hij), hij, absurd he.symm (hne hij)]
  obtain ⟨j, rfl⟩ := List.mem_iff_get.1 hb
  obtain ⟨i, rfl⟩ := ((Fintype.bijective_iff_injective_and_card f).2 ⟨hinj, by simp [hlen]⟩).2 j
  exact ⟨_, as.get_mem i, hf i⟩

theorem float_beq_symm {x y : Float} (h : (x == y) = true) : (y == x) = true := by
  grind [Float.beq_iff_ne_nan_and_eq]

theorem float_beq_trans {x y z : Float} (h : (x == y) = true) (h' : (y == z) = true) :
    (x == z) = true := by
  grind [Float.beq_iff_ne_nan_and_eq]

namespace Heap

variable {h g : Heap} {x y z : Value} {n m : Nat} {d : DictRef}

theorem equalWithin_plain (hx : x.isContainer = false) :
    h.equalWithin n x y = g.equalWithin m x y := by
  rcases x with _ | _ | _ | _ | _ | _ | _ | _ | _ | _ | _ | (_ | _) | _ <;>
    rcases y with _ | _ | _ | _ | _ | _ | _ | _ | _ | _ | _ | (_ | _) | _ <;>
    first | cases hx; done | simp only [equalWithin]

/-- Two values that equal a third equal each other, unless they are integers and it is a float. -/
theorem equalWithin_join (hx : x.isContainer = false) (hxz : h.equalWithin n x z = true)
    (hyz : h.equalWithin n y z = true) :
    h.equalWithin n x y = true ∨ ∃ i j f, x = .int i ∧ y = .int j ∧ z = .float f ∧
      (nearestFloat i == f) = true ∧ (nearestFloat j == f) = true := by
  rcases x with _ | _ | _ | _ | _ | _ | _ | _ | _ | _ | _ | (_ | _) | _ <;> try cases hx; done
  all_goals
    rcases z with _ | _ | _ | _ | _ | _ | _ | _ | _ | _ | _ | (_ | _) | _ <;>
      simp only [equalWithin, reduceCtorEq] at hxz
  all_goals
    rcases y with _ | _ | _ | _ | _ | _ | _ | _ | _ | _ | _ | (_ | _) | _ <;>
      simp only [equalWithin, reduceCtorEq] at hyz
  all_goals simp_all [equalWithin]
  all_goals grind [float_beq_symm, float_beq_trans]

/-! ### Changes of a heap -/

/-- A change of a heap: arrays change freely, and a dictionary starts empty and is written one entry
at a time under keys that are no containers. -/
inductive Edit
  | newArray (cell : ArrayCell)
  | setArray (a : ArrayRef) (cell : ArrayCell)
  | newDict (keyType valueType : Option StaticType)
  | insert (d : DictRef) (k : Value) (plain : k.isContainer = false) (v : Value)
  | freeze (d : DictRef)

def Edit.apply (h : Heap) : Edit → Heap
  | newArray cell => (h.newArray cell).2
  | setArray a cell => h.setArray a cell
  | newDict keyType valueType => (h.newDict { keyType, valueType }).2
  | insert d k _ v => (h.insertDict d k v).2
  | freeze d => h.freezeDict d

def built (edits : List Edit) : Heap := edits.foldl Edit.apply {}

/-- Entries whose keys are no containers and differ from each other. -/
def Apart (l : List (Value × Value)) : Prop :=
  (∀ e ∈ l, e.1.isContainer = false) ∧ l.Pairwise fun e e' => ∀ h n,
    equalWithin h n e.1 e'.1 = false

def Keyed (h : Heap) : Prop := ∀ d, Apart (h.entries d)

theorem Apart.put {l : List (Value × Value)} (ha : Apart l) (hx : x.isContainer = false) :
    Apart (putEntry h.equal x y l) := by
  induction l with
  | nil => simp [putEntry, Apart, hx]
  | cons e l ih =>
    obtain ⟨hp, hl⟩ := ha
    rw [putEntry]
    split
    next => exact ⟨by simpa using hp, by simpa using hl⟩
    next he =>
      have hrest := ih ⟨fun e' h' => hp e' (.tail _ h'), hl.of_cons⟩
      refine ⟨List.forall_mem_cons.2 ⟨hp e (.head _), hrest.1⟩, hrest.2.cons ?_⟩
      have hx' : ∀ g n, equalWithin g n e.1 x = false := fun g n => by
        rw [equalWithin_plain (hp e (.head _))]
        exact Bool.eq_false_of_not_eq_true he
      exact fun o ho => (mem_putEntry (P := fun k => ∀ g n, equalWithin g n e.1 k = false)
        (Q := fun _ => True) (fun o ho => ⟨List.rel_of_pairwise_cons hl ho, trivial⟩)
        hx' trivial o ho).1

theorem Keyed.setDict (hk : h.Keyed) {cell : DictCell} (hc : Apart cell.entries) :
    (h.setDict d cell).Keyed := by
  intro c
  by_cases hd : d.id < h.dicts.size
  · rw [entries, dict_setDict hd]
    split
    exacts [hc, hk c]
  · rw [Heap.setDict, Array.setIfInBounds_eq_of_size_le (Nat.le_of_not_lt hd)]
    exact hk c

theorem Keyed.apply (hk : h.Keyed) (e : Edit) : (e.apply h).Keyed := by
  cases e with
  | newArray cell => exact hk
  | setArray a cell => exact hk
  | newDict keyType valueType =>
    intro c
    rw [Edit.apply, entries, dict_newDict]
    split
    · exact ⟨by simp, .nil⟩
    · exact hk c
  | insert d k plain v =>
    rw [Edit.apply]
    rcases h.insertDict_cases d k v with he | he <;> rw [he]
    · exact hk
    · exact hk.setDict ((hk d).put plain)
  | freeze d => exact hk.setDict (hk d)

theorem keyed_built (edits : List Edit) : (built edits).Keyed :=
  List.foldlRecOn edits Edit.apply (motive := Keyed) (fun _ => ⟨by simp [entries, dict], .nil⟩)
    fun _ hk e _ => hk.apply e

/-! ### Equality -/

/-- Different integers that equal one float. -/
def clash : (z x y : Value) → Bool
  | .float f, .int i, .int j => i != j && nearestFloat i == f && nearestFloat j == f
  | _, _, _ => false

/-- No key of a dictionary equals two keys of one dictionary. -/
def Separate (h : Heap) : Prop :=
  ∀ c ∈ h.dicts.toList, ∀ d ∈ h.dicts.toList, ∀ e ∈ c.entries, ∀ e1 ∈ d.entries, ∀ e2 ∈ d.entries,
    clash e.1 e1.1 e2.1 = false

theorem mem_dicts {e : Value × Value} (he : e ∈ h.entries d) : h.dict d ∈ h.dicts.toList := by
  rw [entries, dict] at he
  rw [dict]
  cases hd : h.dicts[d.id]? with
  | none =>
    rw [hd] at he
    cases he
  | some cell => simpa using Array.mem_of_getElem? hd

/-- Dictionaries of which one holds an equal entry for each of the other hold each other's
entries. -/
theorem exists_entry (hk : h.Keyed) (hs : h.Separate) {c : DictRef}
    (hlen : (h.entries c).length = (h.entries d).length)
    (hall : ∀ e ∈ h.entries c, ∃ e' ∈ h.entries d,
      h.equalWithin n e.1 e'.1 = true ∧ h.equalWithin n e.2 e'.2 = true)
    {e' : Value × Value} (he' : e' ∈ h.entries d) :
    ∃ e ∈ h.entries c, h.equalWithin n e.1 e'.1 = true ∧ h.equalWithin n e.2 e'.2 = true := by
  refine exists_tied hlen hall ?_ he'
  refine (hk c).2.imp_of_mem fun {e1 e2} h1 h2 hne b hb hr hr' => ?_
  rcases equalWithin_join ((hk c).1 e1 h1) hr.1 hr'.1 with he | ⟨i, j, f, hi, hj, hf, hif, hjf⟩
  · rw [hne] at he
    cases he
  · obtain ⟨k1, v1⟩ := e1
    obtain ⟨k2, v2⟩ := e2
    obtain ⟨k, v⟩ := b
    subst hi hj hf
    have hij : i = j := by
      simpa [clash, hif, hjf] using hs _ (mem_dicts hb) _ (mem_dicts h1) _ hb _ h1 _ h2
    simpa [hij, equalWithin] using hne h n

theorem equalWithin_symm (hk : h.Keyed) (hs : h.Separate) (he : h.equalWithin n x y = true) :
    h.equalWithin n y x = true := by
  have hstep (n : Nat) (ih : ∀ m, n = m + 1 → ∀ x y, h.equalWithin m x y = true →
      h.equalWithin m y x = true) (x y : Value) (he : h.equalWithin n x y = true) :
        h.equalWithin n y x = true := by
    fun_cases h.equalWithin n x y with
    | case19 n a b =>
      simp only [equalWithin, Bool.or_eq_true, beq_iff_eq] at he ⊢
      exact he.imp Eq.symm (agree_symm (ih n rfl))
    | case20 n a b =>
      simp only [equalWithin, Bool.or_eq_true, Bool.and_eq_true, beq_iff_eq, List.all_eq_true,
        List.any_eq_true] at he ⊢
      refine he.imp Eq.symm fun h => ⟨h.1.symm, fun e' he' => ?_⟩
      obtain ⟨e, hmem, hkey, hval⟩ := exists_entry hk hs h.1 h.2 he'
      exact ⟨e, hmem, ih n rfl _ _ hkey, ih n rfl _ _ hval⟩
    | case21 => simp_all [equalWithin]
    | _ => simp_all [equalWithin] <;> grind [float_beq_symm]
  induction n generalizing x y with
  | zero => exact hstep 0 (fun m hm => absurd hm (by simp)) x y he
  | succ n ih => exact hstep (n + 1) (fun m hm => by cases hm; exact fun _ _ => ih) x y he

/-- Equality is symmetric in every heap that changes build, if no float equals two integers that are
keys of one dictionary. -/
theorem equal_symm (edits : List Edit) (hs : (built edits).Separate) (a b : Value) :
    (built edits).equal a b = (built edits).equal b a :=
  Bool.eq_iff_iff.2
    ⟨equalWithin_symm (keyed_built edits) hs, equalWithin_symm (keyed_built edits) hs⟩

def mixedKeys : List Edit :=
  [.newDict none none, .newDict none none, .newArray { elements := #[.int 1] },
    .newArray { elements := #[.float 1] }, .insert ⟨0⟩ (.int 1) rfl (.array ⟨0⟩),
    .insert ⟨0⟩ (.string "k") rfl .nil, .insert ⟨1⟩ (.stringName "k") rfl .nil,
    .insert ⟨1⟩ (.float 1) rfl (.array ⟨1⟩)]

theorem equal_symm_mixedKeys : (built mixedKeys).Separate ∧
    (built mixedKeys).equal (.dictionary ⟨0⟩) (.dictionary ⟨1⟩) = true ∧
    (built mixedKeys).equal (.dictionary ⟨0⟩) (.dictionary ⟨1⟩) =
      (built mixedKeys).equal (.dictionary ⟨1⟩) (.dictionary ⟨0⟩) := by
  have hs : (built mixedKeys).Separate := by unfold Separate; decide +kernel
  exact ⟨hs, by decide +kernel, equal_symm mixedKeys hs _ _⟩

/-- The float equals both integers, so one dictionary has all entries of the other and not the
reverse. -/
theorem equal_not_symm :
    ¬ ∀ (edits : List Edit) (a b : Value), (built edits).equal a b = (built edits).equal b a := by
  intro hall
  have h := hall [.newDict none none, .newDict none none,
    .insert ⟨0⟩ (.int 9007199254740992) rfl .nil, .insert ⟨0⟩ (.int 9007199254740993) rfl .nil,
    .insert ⟨1⟩ (.float 9007199254740992) rfl .nil, .insert ⟨1⟩ (.string "k") rfl .nil]
    (.dictionary ⟨0⟩) (.dictionary ⟨1⟩)
  revert h
  decide +kernel

end Heap

end HotScript
