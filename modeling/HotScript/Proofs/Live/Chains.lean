import Mathlib.Data.Finset.Card
import HotScript.Proofs.Live.Sound

/-!
The chains of classes that are in use.

A chain is followed for as many steps as there are scripts, which is far enough to meet every class
on it. So what is found along it is the same when scripts are added later on
(`World.Carries.findSome?_codeChain`).
-/

namespace HotScript

namespace World

/-- Every class that is valid stays the same class, except that it may be given another source. -/
structure Upholds (w w' : World) : Prop where
  size : w.scripts.size ≤ w'.scripts.size
  script : ∀ s, (w.script s).isValid → (w.script s).Alike (w'.script s)

variable {w w' v : World} {s t base : ScriptId} {slot : Slot} {name : String}

theorem Kept.upholds {read : List String} (h : w.Kept [] read w') : w.Upholds w' :=
  ⟨h.size, fun s hs => (h.script s List.not_mem_nil hs).alike⟩

theorem Sound.valid_base (hw : w.Sound) (hs : (w.script s).isValid)
    (hbase : (w.script s).base = some base) : (w.script base).isValid := by
  obtain ⟨c, -, -, hbased⟩ := hw.code s hs
  unfold Based at hbased
  split at hbased
  · rw [hbased] at hbase
    cases hbase
  · obtain ⟨b, hb, hvalid, -⟩ := hbased
    exact Option.some.inj (hb.symm.trans hbase) ▸ hvalid

/-! ### Looking along a chain -/

theorem chain_congr (hsize : v.scripts.size = w.scripts.size)
    (hbase : ∀ t, (v.script t).base = (w.script t).base) (s : ScriptId) :
    v.chain s = w.chain s := by
  have hfrom (n : Nat) (o : Option ScriptId) : v.chainFrom n o = w.chainFrom n o := by
    induction n generalizing o with
    | zero => rfl
    | succ n ih =>
      cases o with
      | none => rfl
      | some s => rw [chainFrom, chainFrom, ih, hbase s]
  rw [chain, chain, hsize, hfrom]

theorem codeChain_congr (hsize : v.scripts.size = w.scripts.size)
    (hsame : ∀ t, (v.script t).base = (w.script t).base ∧ (v.script t).code = (w.script t).code)
    (s : ScriptId) : v.codeChain s = w.codeChain s := by
  rw [codeChain, chain_congr hsize fun t => (hsame t).1]
  exact List.filterMap_congr fun t _ => by rw [(hsame t).2]

theorem mem_codeChain {c : ClassCode} :
    (t, c) ∈ w.codeChain s ↔ t ∈ w.chain s ∧ (w.script t).code = some c := by
  rw [codeChain, List.mem_filterMap]
  constructor
  · rintro ⟨u, hu, hmap⟩
    obtain ⟨c', hc', hpair⟩ := Option.map_eq_some_iff.1 hmap
    cases hpair
    exact ⟨hu, hc'⟩
  · rintro ⟨ht, hc⟩
    exact ⟨t, ht, by rw [hc]; rfl⟩

theorem mem_slots : slot ∈ w.slots s ↔ ∃ t c, (t, c) ∈ w.codeChain s ∧ slot ∈ c.members.values := by
  rw [slots, List.mem_flatMap]
  constructor
  · rintro ⟨⟨t, c⟩, ht, hslot⟩
    exact ⟨t, c, List.mem_reverse.1 ht, (orderBy_perm ..).mem_iff.1 hslot⟩
  · rintro ⟨t, c, ht, hslot⟩
    exact ⟨(t, c), List.mem_reverse.2 ht, (orderBy_perm ..).mem_iff.2 hslot⟩

theorem of_slot? (h : w.slot? s name = some slot) :
    ∃ t c, (t, c) ∈ w.codeChain s ∧ c.members.find? name = some slot := by
  obtain ⟨⟨t, c⟩, ht, hfind⟩ := List.exists_of_findSome?_eq_some h
  exact ⟨t, c, ht, hfind⟩

theorem of_function? {f : FunctionCode} (h : w.function? s name = some (t, f)) :
    ∃ c, (t, c) ∈ w.codeChain s ∧ c.functions.find? name = some f := by
  obtain ⟨⟨t', c⟩, ht, hfind⟩ := List.exists_of_findSome?_eq_some h
  obtain ⟨f', hf, hpair⟩ := Option.map_eq_some_iff.1 hfind
  cases hpair
  exact ⟨c, ht, hf⟩

theorem of_staticSlot? (h : w.staticSlot? s name = some (t, slot)) :
    ∃ c, (t, c) ∈ w.codeChain s ∧ c.statics.find? name = some slot := by
  obtain ⟨⟨t', c⟩, ht, hfind⟩ := List.exists_of_findSome?_eq_some h
  obtain ⟨f', hf, hpair⟩ := Option.map_eq_some_iff.1 hfind
  cases hpair
  exact ⟨c, ht, hf⟩

/-! ### Following bases -/

def ancestor? (w : World) (s : ScriptId) : Nat → Option ScriptId
  | 0 => some s
  | n + 1 => (w.ancestor? s n).bind fun t => (w.script t).base

section

variable {m n : Nat}

theorem ancestor?_add (w : World) (s : ScriptId) (m n : Nat) :
    w.ancestor? s (m + n) = (w.ancestor? s m).bind fun t => w.ancestor? t n := by
  induction n with
  | zero =>
    show w.ancestor? s m = (w.ancestor? s m).bind some
    simp
  | succ n ih =>
    show (w.ancestor? s (m + n)).bind _ = _
    rw [ih, Option.bind_assoc]
    rfl

theorem mem_chainFrom : t ∈ w.chainFrom n (some s) ↔ ∃ k < n, w.ancestor? s k = some t := by
  induction n generalizing s with
  | zero => simp [chainFrom]
  | succ n ih =>
    have hbase (k : Nat) : w.ancestor? s (k + 1) = (w.script s).base.bind fun b =>
        w.ancestor? b k := by
      rw [Nat.add_comm, ancestor?_add]
      rfl
    have hrest : t ∈ w.chainFrom n (w.script s).base ↔ ∃ k < n, w.ancestor? s (k + 1) = some t := by
      simp only [hbase]
      cases (w.script s).base with
      | none => cases n <;> simp [chainFrom]
      | some b => exact ih
    rw [chainFrom, List.mem_cons, hrest]
    constructor
    · rintro (rfl | ⟨k, hk, hkt⟩)
      · exact ⟨0, Nat.succ_pos n, rfl⟩
      · exact ⟨k + 1, Nat.succ_lt_succ hk, hkt⟩
    · rintro ⟨_ | k, hk, hkt⟩
      · exact .inl (Option.some.inj hkt).symm
      · exact .inr ⟨k, Nat.lt_of_succ_lt_succ hk, hkt⟩

theorem Sound.valid_ancestor (hw : w.Sound) (hs : (w.script s).isValid)
    (h : w.ancestor? s n = some t) : (w.script t).isValid := by
  induction n generalizing t with
  | zero => exact Option.some.inj h ▸ hs
  | succ n ih =>
    obtain ⟨u, hu, hbase⟩ := Option.bind_eq_some_iff.1 h
    exact hw.valid_base (ih hu) hbase

theorem Sound.valid_of_mem_chain (hw : w.Sound) (hs : (w.script s).isValid) (h : t ∈ w.chain s) :
    (w.script t).isValid := by
  obtain ⟨k, -, hk⟩ := mem_chainFrom.1 h
  exact hw.valid_ancestor hs hk

theorem mem_chain_of_ancestor? (ht : t < w.scripts.size) (h : w.ancestor? s m = some t) :
    t ∈ w.chain s := by
  induction m using Nat.strongRecOn with
  | ind m ih =>
  by_cases hm : m < w.scripts.size
  · exact mem_chainFrom.2 ⟨m, hm, h⟩
  -- one of the classes on the way has been met twice, and the way between can be left out
  have hway (k : Nat) (hk : k ≤ m) : ∃ u < w.scripts.size, w.ancestor? s k = some u := by
    obtain ⟨d, rfl⟩ := Nat.exists_eq_add_of_le hk
    rw [ancestor?_add] at h
    obtain ⟨u, hu, hd⟩ := Option.bind_eq_some_iff.1 h
    refine ⟨u, Nat.lt_of_not_le fun hge => ?_, hu⟩
    -- a number that no script has is the end of the way
    cases d with
    | zero => exact absurd ht (Nat.not_lt.2 (Option.some.inj hd ▸ hge))
    | succ d =>
      rw [Nat.add_comm, ancestor?_add] at hd
      simp [ancestor?, script_of_ge hge] at hd
      cases hd
  have hknown : ∀ k ∈ Finset.range (w.scripts.size + 1),
      (w.ancestor? s k).getD 0 ∈ Finset.range w.scripts.size := by
    intro k hk
    obtain ⟨u, hlt, hu⟩ := hway k (by have := Finset.mem_range.1 hk; omega)
    rw [hu]
    exact Finset.mem_range.2 hlt
  obtain ⟨i, hi, j, hj, hne, heq⟩ := Finset.exists_ne_map_eq_of_card_lt_of_maps_to
    (s := Finset.range (w.scripts.size + 1)) (t := Finset.range w.scripts.size) (by simp) hknown
  have hshort {i j : Nat} (hij : i < j) (hj : j ≤ m)
      (heq : (w.ancestor? s i).getD 0 = (w.ancestor? s j).getD 0) : t ∈ w.chain s := by
    obtain ⟨u, -, hu⟩ := hway i (by omega)
    obtain ⟨u', -, hu'⟩ := hway j hj
    rw [hu, hu'] at heq
    obtain rfl : u = u' := heq
    refine ih (i + (m - j)) (by omega) ?_
    rw [ancestor?_add, hu, ← hu', ← ancestor?_add, Nat.add_sub_of_le hj]
    exact h
  rw [Finset.mem_range] at hi hj
  rcases Nat.lt_or_gt_of_ne hne with hij | hij
  · exact hshort hij (by omega) heq
  · exact hshort hij (by omega) heq.symm

theorem Sound.mem_chain (hw : w.Sound) (hs : (w.script s).isValid) (h : w.ancestor? s m = some t) :
    t ∈ w.chain s :=
  mem_chain_of_ancestor? (lt_of_isValid (hw.valid_ancestor hs h)) h

end

/-! ### Chains later on -/

/-- The classes of a chain stay the same, except that they may be given other sources. -/
structure Carries (s : ScriptId) (w w' : World) : Prop where
  size : w.scripts.size ≤ w'.scripts.size
  script : ∀ t ∈ w.chain s, (w.script t).Alike (w'.script t)

namespace Carries

variable {w' : World} (h : w.Carries s w') (hw : w.Sound) (hs : (w.script s).isValid)
include h hw hs

theorem chainFrom (n : Nat) : w'.chainFrom n (some s) = w.chainFrom n (some s) := by
  have hsame (k : Nat) (t : ScriptId) (ht : w.ancestor? s k = some t) :
      w'.chainFrom n (some t) = w.chainFrom n (some t) := by
    induction n generalizing k t with
    | zero => rfl
    | succ n ih =>
      rw [World.chainFrom, World.chainFrom, (h.script t (hw.mem_chain hs ht)).base]
      cases hbase : (w.script t).base with
      | none => cases n <;> rfl
      | some base => rw [ih (k + 1) base (Option.bind_eq_some_iff.2 ⟨t, ht, hbase⟩)]
  exact hsame 0 s rfl

theorem chain : ∃ again, w'.chain s = w.chain s ++ again ∧ ∀ t ∈ again, t ∈ w.chain s := by
  have hprefix (n d : Nat) (o : Option ScriptId) :
      ∃ again, w.chainFrom (n + d) o = w.chainFrom n o ++ again := by
    induction n generalizing o with
    | zero => exact ⟨_, rfl⟩
    | succ n ih =>
      rw [Nat.succ_add]
      cases o with
      | none => exact ⟨[], rfl⟩
      | some t =>
        obtain ⟨again, hagain⟩ := ih (w.script t).base
        exact ⟨again, congrArg (t :: ·) hagain⟩
  obtain ⟨d, hd⟩ := Nat.exists_eq_add_of_le h.size
  obtain ⟨again, hagain⟩ := hprefix w.scripts.size d (some s)
  refine ⟨again, ?_, fun t ht => ?_⟩
  · rw [World.chain, h.chainFrom hw hs, hd, hagain]
    rfl
  · have hmem : t ∈ w.chainFrom (w.scripts.size + d) (some s) := hagain ▸ List.mem_append_right _ ht
    obtain ⟨k, -, hk⟩ := mem_chainFrom.1 hmem
    exact hw.mem_chain hs hk

theorem codeChain : ∃ again, w'.codeChain s = w.codeChain s ++ again ∧
    ∀ level ∈ again, level ∈ w.codeChain s := by
  obtain ⟨again, hchain, hagain⟩ := h.chain hw hs
  have hcode (t : ScriptId) (ht : t ∈ w.chain s) :
      (w'.script t).code.map (t, ·) = (w.script t).code.map (t, ·) := by
    rw [(h.script t ht).code]
  refine ⟨again.filterMap fun level => (w.script level).code.map (level, ·),
    ?_, fun level hlevel => ?_⟩
  · rw [World.codeChain, hchain, List.filterMap_append, List.filterMap_congr hcode,
      List.filterMap_congr fun t ht => hcode t (hagain t ht)]
    rfl
  · obtain ⟨t, ht, hmap⟩ := List.mem_filterMap.1 hlevel
    exact List.mem_filterMap.2 ⟨t, hagain t ht, hmap⟩

theorem mem_codeChain {level : ScriptId × ClassCode} :
    level ∈ w'.codeChain s ↔ level ∈ w.codeChain s := by
  obtain ⟨again, hchain, hagain⟩ := h.codeChain hw hs
  rw [hchain, List.mem_append]
  exact or_iff_left_of_imp (hagain level)

theorem findSome?_codeChain {β : Type} (f : ScriptId × ClassCode → Option β) :
    (w'.codeChain s).findSome? f = (w.codeChain s).findSome? f := by
  obtain ⟨again, hchain, hagain⟩ := h.codeChain hw hs
  rw [hchain, List.findSome?_append]
  cases hfound : (w.codeChain s).findSome? f with
  | some b => rfl
  | none =>
    refine List.findSome?_eq_none_iff.2 fun level hlevel => ?_
    exact List.findSome?_eq_none_iff.1 hfound level (hagain level hlevel)

theorem slot? (name : String) : w'.slot? s name = w.slot? s name := h.findSome?_codeChain hw hs _

theorem mem_slots : slot ∈ w'.slots s ↔ slot ∈ w.slots s := by
  simp only [slots, List.mem_flatMap, List.mem_reverse, h.mem_codeChain hw hs]

end Carries

namespace Upholds

variable {w1 w' : World}

theorem refl (w : World) : w.Upholds w := ⟨Nat.le_refl _, fun _ _ => Script.Same.alike (.refl _)⟩

theorem trans (h : w.Upholds w1) (h' : w1.Upholds w') : w.Upholds w' where
  size := Nat.le_trans h.size h'.size
  script s hs := by
    have h1 := h.script s hs
    exact h1.trans (h'.script s (h1.isValid.trans hs))

theorem calls (w : World) (held : List (List Cell)) : w.Upholds { w with held } :=
  ⟨Nat.le_refl _, fun _ _ => Script.Same.alike (.refl _)⟩

variable (h : w.Upholds w') (hw : w.Sound) (hs : (w.script s).isValid)
include h hw hs

theorem carries : w.Carries s w' := ⟨h.size, fun t ht => h.script t (hw.valid_of_mem_chain hs ht)⟩

theorem function? (name : String) : w'.function? s name = w.function? s name :=
  (h.carries hw hs).findSome?_codeChain hw hs _

theorem slot? (name : String) :
    w'.slot? s name = w.slot? s name := (h.carries hw hs).slot? hw hs name

theorem staticSlot? (name : String) : w'.staticSlot? s name = w.staticSlot? s name :=
  (h.carries hw hs).findSome?_codeChain hw hs _

theorem mem_slots : slot ∈ w'.slots s ↔ slot ∈ w.slots s :=
  (h.carries hw hs).mem_slots hw hs

end Upholds

end World

end HotScript
