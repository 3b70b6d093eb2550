import HotScript.Proofs.Live.Chains
import HotScript.Proofs.Live.Sessions

/-!
The layouts of classes that are in use.

A class is compiled for a layout of its base, and linking checks that the base has it. A base that
is replaced later on is not checked again, so a class fits its base when it was installed after it
or together with it (`World.Follows`).
-/

namespace HotScript

namespace World

variable {w : World} {s : ScriptId} {c : ClassCode}

/-- A class was installed after its base, or together with it as a class of the same file.  Every
installation takes the next table of lambdas, so the tables tell which was last. -/
def Follows (w : World) (s base : ScriptId) : Prop :=
  if (w.script base).path = (w.script s).path then
    ∃ head code, w.Installed head code ∧ code.Named ∧ s ∈ w.family head
  else (w.script base).lambdas < (w.script s).lambdas

/-- Every class of a chain was installed after its base or together with it. -/
def InStep (w : World) (s : ScriptId) : Prop :=
  ∀ t ∈ w.chain s, ∀ base, (w.script t).base = some base → w.Follows t base

def slotIndices (w : World) (s : ScriptId) : List Nat :=
  (w.codeChain s).flatMap fun level => level.2.members.values.map (·.index)

section

variable {name name' : String} {slot slot' : Slot}

theorem slotIndices_eq (w : World) (s : ScriptId) : w.slotIndices s =
    ((w.codeChain s).flatMap fun level => level.2.members.entries).map (·.2.index) := by
  simp only [slotIndices, List.map_flatMap, Table.values, List.map_map]
  rfl

theorem entry_of_slot? (h : w.slot? s name = some slot) :
    (name, slot) ∈ (w.codeChain s).flatMap fun level => level.2.members.entries := by
  obtain ⟨t, c, ht, hfind⟩ := of_slot? h
  exact List.mem_flatMap.2 ⟨(t, c), ht, Table.mem_entries_of_find? hfind⟩

theorem index_mem_slotIndices (h : w.slot? s name = some slot) : slot.index ∈ w.slotIndices s := by
  rw [slotIndices_eq]
  exact List.mem_map_of_mem (entry_of_slot? h)

theorem slot?_inj (hnodup : (w.slotIndices s).Nodup) (h : w.slot? s name = some slot)
    (h' : w.slot? s name' = some slot') (hindex : slot.index = slot'.index) :
    name = name' ∧ slot = slot' := by
  rw [slotIndices_eq] at hnodup
  exact Prod.mk.inj (List.inj_on_of_nodup_map hnodup (entry_of_slot? h) (entry_of_slot? h') hindex)

end

section

variable (hw : w.Sound) (hs : (w.script s).isValid) (hc : (w.script s).code = some c)
include hw hs hc

theorem Sound.fits_base {cls : ClassRef} (hbase : c.base = .script cls) :
    ∃ b cb, (w.script s).base = some b ∧ (w.script b).isValid ∧ (w.script b).path = cls.path ∧
      (w.script b).code = some cb ∧ (w.Follows s b → c.baseMembers = cb.memberCount) := by
  obtain ⟨c', hc', -, hbased⟩ := hw.code s hs
  obtain rfl := Option.some.inj (hc'.symm.trans hc)
  rw [Based, hbase] at hbased
  obtain ⟨b, hlink, hvalid, hpath, hlayout⟩ := hbased
  obtain ⟨cb, hcb, -⟩ := hw.code b hvalid
  refine ⟨b, cb, hlink, hvalid, hpath, hcb, fun hfollows => ?_⟩
  rw [Follows] at hfollows
  split at hfollows
  · -- both classes are in one file, which was installed as a whole
    next hsame =>
    obtain ⟨head, code, ⟨hvalid', hfile⟩, hnamed, hmem⟩ := hfollows
    obtain ⟨-, htogether⟩ := hw.file head code hfile
    obtain ⟨-, hclasses⟩ := htogether hnamed
    obtain ⟨i, hi⟩ := List.mem_iff_getElem?.1 hmem
    obtain ⟨_, -, hcode, -, hlinked⟩ := hclasses i s hi
    cases hcode.symm.trans hc
    have hhead := (hw.family (lt_of_isValid hvalid') hmem).2
    obtain ⟨b', cb', hlink', hplace, hcb', hmembers⟩ :=
      hlinked cls hbase (hpath.symm.trans (hsame.trans hhead))
    obtain rfl := Option.some.inj (hlink.symm.trans hlink')
    obtain ⟨cb'', hclass, hcode', -⟩ := hclasses _ b hplace
    rw [hcb] at hcode'
    rw [hcb'] at hclass
    cases hcode'
    cases hclass
    exact hmembers
  · next hother =>
    have hmembers := hlayout (hpath ▸ hother) hfollows
    rw [hcb] at hmembers
    exact hmembers

/-! ### The whole chain -/

theorem Sound.nodup_slots {n : Nat}
    (hstep : ∀ t ∈ w.chainFrom n (some s), ∀ base, (w.script t).base = some base →
      w.Follows t base) :
    let indices := ((w.chainFrom n (some s)).filterMap fun level =>
      (w.script level).code.map (level, ·)).flatMap fun level => level.2.members.values.map
        (·.index)
    indices.Nodup ∧ ∀ i ∈ indices, i < c.memberCount := by
  induction n generalizing s c with
  | zero => exact ⟨List.nodup_nil, fun i hi => absurd hi List.not_mem_nil⟩
  | succ n ih =>
    obtain ⟨c', hc', hcontiguous, hbased⟩ := hw.code s hs
    obtain rfl := Option.some.inj (hc'.symm.trans hc)
    rw [ClassCode.Contiguous] at hcontiguous
    simp only [chainFrom, List.filterMap_cons, hc, Option.map_some, List.flatMap_cons, hcontiguous]
    have hown (i : Nat) (hi : i ∈ List.range' c'.baseMembers c'.members.size) :
        c'.baseMembers ≤ i ∧ i < c'.memberCount := by
      rw [ClassCode.memberCount]
      have := List.mem_range'_1.1 hi
      omega
    cases hbase : c'.base with
    | native name =>
      rw [Based, hbase] at hbased
      have hnone : w.chainFrom n (w.script s).base = [] := by
        rw [hbased]
        cases n <;> rfl
      rw [hnone, List.filterMap_nil, List.flatMap_nil, List.append_nil]
      exact ⟨List.nodup_range', fun i hi => (hown i hi).2⟩
    | script cls =>
      obtain ⟨b, cb, hlink, hvalid, -, hcb, hfits⟩ := hw.fits_base hs hc hbase
      rw [hlink]
      rw [chainFrom, hlink] at hstep
      have hmembers := hfits (hstep s (.head _) b hlink)
      obtain ⟨hnodup, hbelow⟩ := ih hvalid hcb fun t ht => hstep t (.tail _ ht)
      refine ⟨List.nodup_append.2 ⟨List.nodup_range', hnodup, fun i hi j hj => ?_⟩, fun i hi => ?_⟩
      · have := (hown i hi).1
        have := hbelow j hj
        omega
      · rcases List.mem_append.1 hi with hi | hi
        · exact (hown i hi).2
        · have := hbelow i hi
          rw [ClassCode.memberCount]
          omega

end

end World

theorem Live.defaultMembers_some (w : World) (s : ScriptId) :
    ∃ members w', Live.defaultMembers s w = some (members, w') ∧
      members.size = ((w.script s).code.map (·.memberCount)).getD 0 := by
  have hfold (slots : List Slot) (members : Array Value) (w : World) :
      ∃ members' w', (slots.foldlM (fun (members : Array Value) (slot : Slot) => do
          return members.setIfInBounds slot.index (← slotDefault slot.type))
            members : Live (Array Value)) w =
        some (members', w') ∧ members'.size = members.size := by
    induction slots generalizing members w with
    | nil => exact ⟨members, w, rfl, rfl⟩
    | cons slot slots ih =>
      obtain ⟨v, w1, hv⟩ : ∃ v w1, slotDefault slot.type w = some (v, w1) := ⟨_, _, rfl⟩
      obtain ⟨members', w', hrest, hsize⟩ := ih (members.setIfInBounds slot.index v) w1
      refine ⟨members', w', ?_, hsize.trans Array.size_setIfInBounds⟩
      exact bind_some.2 ⟨_, w1, bind_some.2 ⟨v, w1, hv, rfl⟩, hrest⟩
  obtain ⟨members, w', hrun, hsize⟩ := hfold
    ((w.codeChain s).flatMap fun level => level.2.members.values)
    (Array.replicate (((w.script s).code.map (·.memberCount)).getD 0) .nil) w
  exact ⟨members, w', hrun, hsize.trans Array.size_replicate⟩

/-- The base of a valid class with a script base is valid, and if the class was installed after it
or together with it, it has the layout that the class was compiled for. If that is so all along the
chain, a fresh instance has a slot of its own for every variable, within its storage. -/
theorem World.Reached.layouts_fit {w : World} (hw : w.Reached) {s : ScriptId}
    (hs : (w.script s).isValid) :
    ∃ c, (w.script s).code = some c ∧
      (∀ cls, c.base = .script cls → ∃ b cb, (w.script s).base = some b ∧ (w.script b).isValid ∧
        (w.script b).path = cls.path ∧ (w.script b).code = some cb ∧
        (w.Follows s b → c.baseMembers = cb.memberCount)) ∧
      (w.InStep s → (w.slotIndices s).Nodup ∧ ∃ members w',
        Live.defaultMembers s w = some (members, w') ∧ ∀ i ∈ w.slotIndices s,
        i < members.size) := by
  have hsound := hw.sound.1
  obtain ⟨c, hc, -, -⟩ := hsound.code s hs
  refine ⟨c, hc, fun cls hbase => hsound.fits_base hs hc hbase, fun hstep => ?_⟩
  obtain ⟨hnodup, hbelow⟩ := hsound.nodup_slots hs hc hstep
  obtain ⟨members, w', hrun, hsize⟩ := Live.defaultMembers_some w s
  rw [hc] at hsize
  exact ⟨hnodup, members, w', hrun, fun i hi => Nat.lt_of_lt_of_eq (hbelow i hi) hsize.symm⟩

/-- No class of a chain has its base in its own file or was installed before it. -/
def World.Layered (w : World) (s : ScriptId) : Prop :=
  ∀ t ∈ w.chain s, ∀ base ∈ (w.script t).base,
    (w.script base).path ≠ (w.script t).path ∧ (w.script base).lambdas < (w.script t).lambdas

instance (w : World) (s : ScriptId) : Decidable (w.Layered s) :=
  inferInstanceAs (Decidable (∀ t ∈ w.chain s, _))

theorem World.Layered.inStep {w : World} {s : ScriptId} (h : w.Layered s) : w.InStep s := by
  intro t ht base hb
  obtain ⟨hpath, hlater⟩ := h t ht base hb
  rw [Follows, if_neg hpath]
  exact hlater

/-! ### A base that is replaced alone -/

/-- The file that extends the other is loaded, and the other with it. -/
theorem extended_layouts_fit :
    ∃ w c, Live.serve [extendedFile "one", .load "res://d.br" false] {} = some ((), w) ∧
      (w.script 0).code = some c ∧
      (∀ cls, c.base = .script cls → ∃ b cb, (w.script 0).base = some b ∧ (w.script b).isValid ∧
        (w.script b).path = cls.path ∧ (w.script b).code = some cb ∧
        (w.Follows 0 b → c.baseMembers = cb.memberCount)) ∧
      w.slotIndices 0 = [1, 0] ∧ (w.slotIndices 0).Nodup ∧ ∃ members w',
        Live.defaultMembers 0 w = some (members, w') ∧ ∀ i ∈ w.slotIndices 0, i < members.size := by
  obtain ⟨w, run, hvalid, hlayered, hslots⟩ : ∃ w,
      Live.serve [extendedFile "one", .load "res://d.br" false] {} = some ((), w) ∧
        (w.script 0).isValid ∧ w.Layered 0 ∧ w.slotIndices 0 = [1, 0] := by
    decide +kernel
  have hreached : w.Reached := World.reached_empty.serve (by simp [extendedFile]) run
  obtain ⟨c, hc, hfits, hinstance⟩ := hreached.layouts_fit hvalid
  exact ⟨w, c, run, hc, hfits, hslots, hinstance hlayered.inStep⟩

/-- When the other file is read again alone, it gets one more variable. The class that extends it
stays as it is, and its own variable now shares a slot with the new one. -/
theorem replaced_layouts_not_fit :
    ∃ w c b cb, Live.serve [extendedFile "one", .load "res://d.br" false, extendedFile "two",
        .load "res://b.br" true] {} = some ((), w) ∧ w.Reached ∧
      (w.script 0).isValid ∧ (w.script 0).code = some c ∧ (w.script 0).base = some b ∧
      (w.script b).code = some cb ∧ c.baseMembers ≠ cb.memberCount ∧ ¬(w.slotIndices 0).Nodup := by
  obtain ⟨w, run, hvalid, hslots, c, hc, b, hb, cb, hcb, hne⟩ : ∃ w, Live.serve [extendedFile "one",
        .load "res://d.br" false, extendedFile "two", .load "res://b.br" true] {} = some ((), w) ∧
      (w.script 0).isValid ∧ ¬(w.slotIndices 0).Nodup ∧ ∃ c, (w.script 0).code = some c ∧
      ∃ b, (w.script 0).base = some b ∧ ∃ cb, (w.script b).code = some cb ∧
        c.baseMembers ≠ cb.memberCount := by
    decide +kernel
  have hreached : w.Reached := World.reached_empty.serve (by simp [extendedFile]) run
  exact ⟨w, c, b, cb, run, hreached, hvalid, hc, hb, hcb, hne, hslots⟩

end HotScript
