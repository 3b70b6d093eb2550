import HotScript.Proofs.Live.Layouts
import HotScript.Proofs.Live.Rounds
import HotScript.Proofs.Live.Sparing

/-!
What is written back.

Each value is written to the place that its name leads to by then, if it fits there. Several values
may be meant for one place. So in the end the place has one of those values, fitted, or what it had
before because all of them were refused (`World.Settles`).
-/

namespace HotScript

/-! ### Places that values are written to -/

/-- The value as it is stored where a type is expected, if it fits now. -/
def World.fitted (w : World) (type : StaticType) (v : Value) : Option Value :=
  ((fit w.kinship type v).run w.heap).map (·.1)

variable {type : StaticType}

theorem Live.fitTo_run {v : Value} {x : Option Value} {w w' : World}
    (h : fitTo type v w = some (x, w')) :
    x = w.fitted type v ∧ (x = none → w' = w) ∧ ∃ heap, w' = w.withHeap heap := by
  have hrun := Option.some.inj h
  dsimp only at hrun
  unfold World.fitted
  cases hfit : (fit w.kinship type v).run w.heap with
  | none =>
    rw [hfit] at hrun
    cases hrun
    exact ⟨rfl, fun _ => rfl, w.heap, rfl⟩
  | some y =>
    rw [hfit] at hrun
    cases hrun
    exact ⟨rfl, nofun, y.2, rfl⟩

theorem World.fitted_of_lenient (h : type.provenance.isEnforced = false) (w : World) (x : Value) :
    w.fitted type x = some x := by
  obtain ⟨shape, provenance, isMeta, readOnly⟩ := type
  have hlenient : provenance.isEnforced = false := h
  unfold fitted fit
  simp only [hlenient]
  rfl

/-- What comes of a place with `x` when values are written to it, each of which lands there at its
moments: one of them, fitted at such a moment, or still `x` when each of them was refused at one. -/
def World.Settles (lands : StaticType → Value → World → Prop) (x x' : Option Value) : Prop :=
  (x' = x ∧ ∀ type v k, lands type v k → ∃ k', lands type v k' ∧ k'.fitted type v = none) ∨
  ∃ type v k y, lands type v k ∧ k.fitted type v = some y ∧ x' = some y

namespace World.Settles

variable {lands lands' : StaticType → Value → World → Prop} {x x1 x' : Option Value}

theorem untouched (h : ∀ type v k, ¬lands type v k) (hx : x' = x) : Settles lands x x' :=
  .inl ⟨hx, fun type v k hlands => absurd hlands (h type v k)⟩

theorem trans (h : Settles lands x x1) (h' : Settles lands' x1 x') :
    Settles (fun type v k => lands type v k ∨ lands' type v k) x x' := by
  rcases h' with ⟨rfl, hrefused'⟩ | ⟨type, v, k, y, hlands, hy, hx⟩
  · rcases h with ⟨rfl, hrefused⟩ | ⟨type, v, k, y, hlands, hy, hx⟩
    · refine .inl ⟨rfl, fun type v k hlands => ?_⟩
      rcases hlands with hlands | hlands
      · obtain ⟨k', hlands', hnone⟩ := hrefused type v k hlands
        exact ⟨k', .inl hlands', hnone⟩
      · obtain ⟨k', hlands', hnone⟩ := hrefused' type v k hlands
        exact ⟨k', .inr hlands', hnone⟩
    · exact .inr ⟨type, v, k, y, .inl hlands, hy, hx⟩
  · exact .inr ⟨type, v, k, y, .inr hlands, hy, hx⟩

/-- More moments may be known of the same values. -/
theorem mono (h : Settles lands x x') (hmore : ∀ {type v k}, lands type v k → lands' type v k)
    (hsame : ∀ {type v k}, lands' type v k → ∃ k', lands type v k') : Settles lands' x x' := by
  rcases h with ⟨hx, hrefused⟩ | ⟨type, v, k, y, hlands, hy, hx⟩
  · refine .inl ⟨hx, fun type v k hlands => ?_⟩
    obtain ⟨k1, hlands1⟩ := hsame hlands
    obtain ⟨k', hlands', hnone⟩ := hrefused type v k1 hlands1
    exact ⟨k', hmore hlands', hnone⟩
  · exact .inr ⟨type, v, k, y, hmore hlands, hy, hx⟩

theorem eq_of_none (h : Settles lands x x') (hnone : ∀ type v k, ¬lands type v k) : x' = x := by
  rcases h with ⟨hx, -⟩ | ⟨type, v, k, y, hlands, -⟩
  · exact hx
  · exact absurd hlands (hnone type v k)

variable {v : Value}

theorem of_only {k : World} (h : Settles lands x x') (hlands : lands type v k)
    (honly : ∀ type' v' k', lands type' v' k' → type' = type ∧ v' = v) :
    ∃ k, lands type v k ∧
      ((∃ y, k.fitted type v = some y ∧ x' = some y) ∨ k.fitted type v = none ∧ x' = x) := by
  rcases h with ⟨hx, hrefused⟩ | ⟨type', v', k', y, hlands', hy, hx⟩
  · obtain ⟨k', hlands', hnone⟩ := hrefused type v k hlands
    exact ⟨k', hlands', .inr ⟨hnone, hx⟩⟩
  · obtain ⟨rfl, rfl⟩ := honly type' v' k' hlands'
    exact ⟨k', hlands', .inl ⟨y, hy, hx⟩⟩

theorem eq_of_fits (h : Settles lands x x')
    (honly : ∀ type' v' k, lands type' v' k → v' = v ∧ k.fitted type' v = some v)
    (hx : x = some v ∨ ∃ type k, lands type v k) : x' = some v := by
  rcases h with ⟨rfl, hrefused⟩ | ⟨type', v', k, y, hlands', hy, hx'⟩
  · rcases hx with hx | ⟨type, k, hlands⟩
    · exact hx
    · obtain ⟨k', hlands', hnone⟩ := hrefused type v k hlands
      cases hnone.symm.trans (honly type v k' hlands').2
  · obtain ⟨rfl, hfits⟩ := honly type' v' k hlands'
    rw [hx', ← hy, hfits]

end World.Settles

/-! ### Static variables -/

/-- The static variable that has a place in the storage of a class. -/
def World.staticAt? (w : World) (s : ScriptId) (index : Nat) : Option Slot :=
  (w.script s).code.bind fun code => code.statics.values.find? (·.index == index)

namespace World

variable {used : String → Prop} {w w' : World} {s : ScriptId}

theorem Enrolled.codeChain_blank (hw : w.Enrolled) (hs : (w.script s).isValid = false) :
    w.codeChain s = [] := by
  obtain ⟨hcode, hbase⟩ := hw.blank s hs
  rw [codeChain, chain]
  cases w.scripts.size with
  | zero => rfl
  | succ n =>
    rw [chainFrom, hbase]
    cases n with
    | zero => simp [chainFrom, hcode]
    | succ n => simp [chainFrom, hcode]

theorem Steady.staticSlot? (h : w.Steady used w') (hw : w.Settled used) (hw' : w'.Settled used)
    (hs : s < w.scripts.size) (hused : used (w.script s).path) (name : String) :
    w'.staticSlot? s name = w.staticSlot? s name := by
  by_cases hvalid : (w.script s).isValid
  · exact h.kept.upholds.staticSlot? hw.sound hvalid name
  · have hinvalid : (w.script s).isValid = false := Bool.eq_false_iff.2 hvalid
    have hinvalid' := (h.fixed.script s hs hused).isValid.trans hinvalid
    rw [World.staticSlot?, World.staticSlot?, hw.enrolled.codeChain_blank hinvalid,
      hw'.enrolled.codeChain_blank hinvalid']

theorem Steady.staticAt? (h : w.Steady used w') (hs : s < w.scripts.size)
    (hused : used (w.script s).path) (index : Nat) :
    w'.staticAt? s index = w.staticAt? s index := by
  rw [World.staticAt?, World.staticAt?, (h.fixed.script s hs hused).code]

theorem Enrolled.lt_of_staticAt? (hw : w.Enrolled) {index : Nat} {slot : Slot}
    (h : w.staticAt? s index = some slot) : index < (w.script s).statics.size := by
  obtain ⟨c, hc, hfind⟩ := Option.bind_eq_some_iff.1 h
  have hindex : slot.index = index := beq_iff_eq.1 (List.find?_some hfind :)
  exact hindex ▸ hw.stored s c hc slot (List.mem_of_find?_eq_some hfind)

end World

namespace Live

open World

variable {used : String → Prop} {r : Runner} {w w' : World} {s t : ScriptId} {name : String}
  {v : Value} {index : Nat} {slot : Slot}

variable {stored : Option Bool}

theorem setStatic_run (h : setStatic s name v w = some (stored, w')) :
    w.staticSlot? s name = none ∧ w' = w ∨ ∃ level found,
    w.staticSlot? s name = some (level, found) ∧
      (w.staticAt? level found.index = none ∧ w' = w ∨
        ∃ slot, w.staticAt? level found.index = some slot ∧
          (w.fitted slot.type v = none ∧ w' = w ∨ ∃ y heap, w.fitted slot.type v = some y ∧
            w' = if found.index < (w.script level).statics.size then
                (w.withHeap heap).modifyScript level fun c =>
                  { c with statics := c.statics.setIfInBounds found.index y }
              else w.withHeap heap)) := by
  replace h := of_get_bind h
  cases hfind : w.staticSlot? s name with
  | none =>
    rw [hfind] at h
    cases h
    exact .inl ⟨rfl, rfl⟩
  | some place =>
    obtain ⟨level, found⟩ := place
    refine .inr ⟨level, found, rfl, ?_⟩
    rw [hfind] at h
    obtain ⟨done, w1, h1, h⟩ := bind_some.1 h
    cases h
    replace h1 := of_get_bind h1
    unfold World.staticAt?
    cases hat : (w.script level).code.bind fun code =>
      code.statics.values.find? (·.index == found.index) with
    | none =>
      rw [hat] at h1
      cases h1
      exact .inl ⟨rfl, rfl⟩
    | some slot =>
      refine .inr ⟨slot, rfl, ?_⟩
      rw [hat] at h1
      obtain ⟨y, w2, h2, h1⟩ := bind_some.1 h1
      obtain ⟨hy, hsame, heap, rfl⟩ := fitTo_run h2
      cases y with
      | none =>
        cases h1
        exact .inl ⟨hy.symm, hsame rfl⟩
      | some y =>
        refine .inr ⟨y, heap, hy.symm, ?_⟩
        dsimp only at h1
        split at h1
        · next hlt =>
          cases h1
          rw [if_pos hlt]
        · next hge =>
          cases h1
          rw [if_neg hge]

theorem setStatic_instances (h : setStatic s name v w = some (stored, w')) :
    w'.instances = w.instances := by
  rcases setStatic_run h with ⟨-, rfl⟩ | ⟨level, found, -,
    ⟨-, rfl⟩ | ⟨slot, -, ⟨-, rfl⟩ | ⟨y, heap, -, hw'⟩⟩⟩
  · rfl
  · rfl
  · rfl
  · rw [hw']
    split
    · rfl
    · rfl

theorem setStatic_settles (ht : t < w.scripts.size) (hslot : w.staticAt? t index = some slot)
    (hindex : index < (w.script t).statics.size) (h : setStatic s name v w = some (stored, w')) :
    Settles
      (fun type x k => type = slot.type ∧ x = v ∧ k = w ∧
        ∃ found, w.staticSlot? s name = some (t, found) ∧ found.index = index)
      (w.script t).statics[index]? (w'.script t).statics[index]? := by
  rcases setStatic_run h with ⟨hnone, rfl⟩ | ⟨level, found, hfound, h⟩
  · refine .untouched ?_ rfl
    rintro type x k ⟨-, -, -, found, hfound, -⟩
    cases hnone.symm.trans hfound
  by_cases hplace : level = t ∧ found.index = index
  · obtain ⟨rfl, rfl⟩ := hplace
    rcases h with ⟨hnone, -⟩ | ⟨slot', hat, h⟩
    · cases hnone.symm.trans hslot
    obtain rfl := Option.some.inj (hat.symm.trans hslot)
    rcases h with ⟨hrefused, rfl⟩ | ⟨y, heap, hy, rfl⟩
    · refine .inl ⟨rfl, ?_⟩
      rintro type x k ⟨rfl, rfl, rfl, hplace⟩
      exact ⟨k, ⟨rfl, rfl, rfl, hplace⟩, hrefused⟩
    · refine .inr ⟨slot'.type, v, w, y, ⟨rfl, rfl, rfl, found, hfound, rfl⟩, hy, ?_⟩
      rw [if_pos hindex, script_modifyScript, if_pos ⟨rfl, ht⟩]
      exact Array.getElem?_setIfInBounds_self_of_lt hindex
  · refine .untouched ?_ ?_
    · rintro type x k ⟨-, -, -, found', hfound', hi⟩
      cases hfound.symm.trans hfound'
      exact hplace ⟨rfl, hi⟩
    rcases h with ⟨-, rfl⟩ | ⟨slot', -, ⟨-, rfl⟩ | ⟨y, heap, -, rfl⟩⟩
    · rfl
    · rfl
    · split
      · rw [script_modifyScript]
        split
        · next hts =>
          have hne : found.index ≠ index := fun hi => hplace ⟨hts.1.symm, hi⟩
          rw [hts.1]
          exact Array.getElem?_setIfInBounds_ne hne
        · rfl
      · rfl

/-- **What comes of a static variable**: one of the values that lead to it, or what it had. -/
theorem Restoring.settles_static {moment : SavedEntry → World → Prop} {entries : List SavedEntry}
    (hr : r.Steady used) (hw : w.Settled used)
    (ht : t < w.scripts.size) (hused : used (w.script t).path)
    (hslot : w.staticAt? t index = some slot)
    (hstatics : ∀ s name v, .static s name v ∈ entries → s < w.scripts.size ∧
      used (w.script s).path)
    (hcode : ∀ i values, .inst i values ∈ entries → ∀ {v v' : World}, v.Settled used →
      w.Steady used v →
      (SavedEntry.inst i values).restore r v = some ((), v') →
      (v'.script t).statics = (v.script t).statics)
    (h : Restoring r moment entries w w') :
    Settles
      (fun type v k => type = slot.type ∧ ∃ s name found, .static s name v ∈ entries ∧
        moment (.static s name v) k ∧ w'.staticSlot? s name = some (t, found) ∧ found.index = index)
      (w.script t).statics[index]? (w'.script t).statics[index]? := by
  induction h with
  | done w held =>
    exact .untouched (by rintro type v k ⟨-, s, name, found, hmem, -⟩; cases hmem) rfl
  | @next entry entries w w1 w' held met run rest ih =>
    obtain ⟨hheld, hcalls⟩ := Steady.calls hw held
    obtain ⟨hw1, hstep⟩ := hr.run (fun hC => evolving_entry hC entry) hheld run
    obtain ⟨hw', hrest⟩ := rest.steady hr hw1
    have hsince := hcalls.trans hstep
    have hkeep (s : ScriptId) (hs : s < w.scripts.size) (hu : used (w.script s).path) :
        s < w1.scripts.size ∧ used (w1.script s).path :=
      ⟨Nat.lt_of_lt_of_le hs hsince.fixed.size, (hsince.fixed.script s hs hu).path.symm ▸ hu⟩
    have hafter := ih hw1 (hkeep t ht hused).1 (hkeep t ht hused).2
      ((hsince.staticAt? ht hused index).trans hslot)
      (fun s name v hmem =>
        have hs := hstatics s name v (.tail _ hmem)
        hkeep s hs.1 hs.2)
      (fun i values hmem v v' hv hsteady =>
        hcode i values (.tail _ hmem) hv (hsince.trans hsteady))
    cases entry with
    | static s name v =>
      obtain ⟨stored, w2, h2, hpure⟩ := bind_some.1 run
      cases hpure
      obtain ⟨hs, hu⟩ := hstatics s name v (.head _)
      have hfirst := setStatic_settles (w := { w with held }) ht hslot
        (hw.enrolled.lt_of_staticAt? hslot) h2
      rw [← (hstep.trans hrest).staticSlot? hheld hw' hs hu] at hfirst
      refine (hfirst.trans hafter).mono ?_ ?_
      · rintro type x k (⟨rfl, rfl, rfl, found, hplace⟩ | ⟨rfl, s', name', found, hmem, hplace⟩)
        · exact ⟨rfl, s, name, found, .head _, met, hplace⟩
        · exact ⟨rfl, s', name', found, .tail _ hmem, hplace⟩
      · rintro type x k ⟨rfl, s', name', found, hmem, hk, hplace⟩
        rcases List.mem_cons.1 hmem with heq | hmem
        · cases heq
          exact ⟨_, .inl ⟨rfl, rfl, rfl, found, hplace⟩⟩
        · exact ⟨k, .inr ⟨rfl, s', name', found, hmem, hk, hplace⟩⟩
    | inst i values =>
      have hsame := hcode i values (.head _) hheld hcalls run
      rw [hsame] at hafter
      refine hafter.mono ?_ ?_
      · rintro type x k ⟨rfl, s', name', found, hmem, hplace⟩
        exact ⟨rfl, s', name', found, .tail _ hmem, hplace⟩
      · rintro type x k ⟨rfl, s', name', found, hmem, hplace⟩
        rcases List.mem_cons.1 hmem with heq | hmem
        · cases heq
        · exact ⟨k, rfl, s', name', found, hmem, hplace⟩

/-! ### Instances -/

variable {i : InstanceId} {values : List (String × Value)} {u : Unit}

theorem restore_run (h : restore r i values w = some (u, w')) :
    (w.isUsable i = false ∧ w' = w) ∨ w.isUsable i = true ∧
      ∃ fresh, renew r i (namedCells values) w = some ((), fresh) ∧
        writeSaved r i values fresh = some ((), w') := by
  replace h := of_get_bind h
  cases husable : w.isUsable i with
  | false =>
    rw [husable] at h
    cases h
    exact .inl ⟨rfl, rfl⟩
  | true =>
    rw [husable] at h
    obtain ⟨_, fresh, hfresh, h⟩ := bind_some.1 h
    exact .inr ⟨rfl, fresh, hfresh, h⟩

theorem renew_run {cells : List Cell} (h : renew r i cells w = some (u, w')) :
    ∃ members heap result, defaultMembers (w.inst i).script w = some (members, w.withHeap heap) ∧
      holding cells (Attempt.initializeMembers r i).run
        ((w.withHeap heap).modifyInstance i fun x => { x with members }) = some (result, w') := by
  replace h := of_get_bind h
  obtain ⟨members, heap, hrun⟩ := defaultMembers_run (w.inst i).script w
  obtain ⟨_, _, h1, h⟩ := bind_some.1 h
  cases hrun.symm.trans h1
  obtain ⟨_, w2, h2, h⟩ := bind_some.1 h
  cases h2
  obtain ⟨result, w3, h3, h⟩ := bind_some.1 h
  cases h
  exact ⟨members, heap, result, h1, h3⟩

theorem settled_storage (hw : w.Settled used) (i : InstanceId) (heap : Heap)
    (members : Array Value) :
    ((w.withHeap heap).modifyInstance i fun x => { x with members }).Settled used :=
  hw.still ((stillness.heap w heap).trans (stillness.inst _ i _ fun _ => rfl))
    ((World.enrolment.heap w heap).trans (World.enrolment.inst _ i _ fun _ => rfl))

/-- What is known when variables of an instance of a class are written without accessors. -/
structure Writable (used : String → Prop) (w : World) (s : ScriptId) (i : InstanceId) : Prop where
  settled : w.Settled used
  valid : (w.script s).isValid
  plain : w.Plain s
  known : i < w.instances.size
  home : (w.inst i).script = s

theorem Writable.steady (h : Writable used w s i) (hw' : w'.Settled used) (hs : w.Steady used w') :
    Writable used w' s i := by
  refine ⟨hw', hs.enrols.valid s h.valid, fun slot hslot => h.plain slot ?_,
    Nat.lt_of_lt_of_le h.known hs.enrols.size, (hs.enrols.home i h.known).trans h.home⟩
  exact (hs.kept.upholds.mem_slots h.settled.sound h.valid).1 hslot

theorem setMember_run {stored : Bool} (h : setMember i index v w = some (stored, w')) :
    if index < (w.inst i).members.size then
      w' = w.modifyInstance i fun x => { x with members := x.members.setIfInBounds index v }
    else w' = w := by
  have hrun := Option.some.inj h
  dsimp only at hrun
  split at hrun
  · next hlt =>
    rw [if_pos hlt]
    exact (Prod.mk.inj hrun).2.symm
  · next hge =>
    rw [if_neg hge]
    exact (Prod.mk.inj hrun).2.symm

theorem setByName_run (hi : w.isUsable i = true)
    (hslot : w.slot? (w.inst i).script name = some slot)
    (hsetter : slot.setter = none) (r : Runner) (v : Value) :
    setByName r i name v w = match (fit w.kinship slot.type v).run w.heap with
      | some (y, heap) => setMember i slot.index y (w.withHeap heap)
      | none => some (false, w) := by
  have hwrite : setByName r i name v w = writeSlot r i slot v w := by
    show (if !w.isUsable i then pure false else _ : Live Bool) w = _
    rw [hi, hslot]
    rfl
  rw [hwrite, writeSlot, hsetter]
  dsimp only [fitTo, bind, StateT.bind, modifyGet, MonadStateOf.modifyGet, StateT.modifyGet]
  cases (fit w.kinship slot.type v).run w.heap <;> rfl

theorem setByName_plain {stored : Bool} (hi : Writable used w s i)
    (hslot : w.slot? s name = some slot) (h : setByName r i name v w = some (stored, w')) :
    w' = w ∧ (w.isUsable i = true → w.fitted slot.type v = none) ∨
    ∃ y heap, w.fitted slot.type v = some y ∧
      if slot.index < (w.inst i).members.size then
        w' = (w.withHeap heap).modifyInstance i fun x =>
          { x with members := x.members.setIfInBounds slot.index y }
      else w' = w.withHeap heap := by
  cases husable : w.isUsable i with
  | false =>
    replace h := of_get_bind h
    rw [husable] at h
    cases h
    exact .inl ⟨rfl, nofun⟩
  | true =>
    obtain ⟨t, c, ht, hfind⟩ := of_slot? hslot
    have hsetter := (hi.plain slot (mem_slots.2 ⟨t, c, ht, Table.mem_values_of_find? hfind⟩)).2
    rw [setByName_run husable (hi.home.symm ▸ hslot) hsetter] at h
    unfold fitted
    cases hfit : (fit w.kinship slot.type v).run w.heap with
    | none =>
      rw [hfit] at h
      cases h
      exact .inl ⟨rfl, fun _ => rfl⟩
    | some y =>
      rw [hfit] at h
      exact .inr ⟨y.1, y.2, rfl, setMember_run h⟩

section

variable {B : World.Bearing used} (hr : r.Steady used)
include hr

theorem writeSaved_leads (hset : ∀ (v : World) (index : Nat) (y : Value),
      B.Leads v (v.modifyInstance i fun x => { x with members := x.members.setIfInBounds index y }))
    (hi : Writable used w s i) (h : writeSaved r i values w = some (u, w')) : B.Leads w w' := by
  induction values generalizing w with
  | nil =>
    cases h
    exact .refl _
  | cons e rest ih =>
    obtain ⟨name, v⟩ := e
    obtain ⟨_, w1, h1, h⟩ := bind_some.1 h
    obtain ⟨hw1, hstep⟩ := hr.run (fun hC => follows_putBack hC i (name, v) rest) hi.settled h1
    refine Bearing.Leads.trans ?_ (ih (hi.steady hw1 hstep) h)
    replace h1 := of_get_bind h1
    rw [hi.home] at h1
    cases hslot : w.slot? s name with
    | none =>
      rw [hslot] at h1
      cases h1
      exact .refl _
    | some slot =>
      rw [hslot] at h1
      obtain ⟨stored, w2, h2, hpure⟩ := bind_some.1 h1
      cases hpure
      refine .holding h2 fun w2 hrun => ?_
      obtain ⟨hheld, hcalls⟩ := Steady.calls hi.settled (namedCells ((name, v) :: rest) :: w.held)
      have hslot' := (hcalls.kept.upholds.slot? hi.settled.sound hi.valid name).trans hslot
      rcases setByName_plain (hi.steady hheld hcalls) hslot' hrun with ⟨rfl, -⟩ | ⟨y, heap, -, hw2⟩
      · exact .refl _
      · split at hw2
        · rw [hw2]
          exact (Bearing.Leads.heap _ heap).trans (hset _ slot.index y)
        · rw [hw2]
          exact .heap _ heap

variable (hcode : ∀ {t : ScriptId} {f : FunctionCode} {v v' : World} {x : Except CallFault Value},
  v.Settled used → r.execute t f (some i) [] v = some (x, v') → B.Leads v v')
include hcode

theorem initializeMembers_leads {result : Except CallFault Unit} (hw : w.Settled used)
    (h : (Attempt.initializeMembers r i).run w = some (result, w')) : B.Leads w w' := by
  have hdrift (t : ScriptId) (f : FunctionCode) : Attempt.Evolving B.drift
      (r.execute t f (some i) []) :=
    Follows.of_leads fun _ _ _ hrun hv => ⟨(hr.run (·.execute t f (some i) []) hv hrun).1,
      hcode hv hrun⟩
  exact (Follows.leads (Attempt.follows_initializeMembers i hdrift) h hw).2

variable (hmembers : ∀ (v : World) (f : Array Value → Array Value),
  B.Leads v (v.modifyInstance i fun x => { x with members := f x.members }))
include hmembers

theorem renew_leads {cells : List Cell} (hw : w.Settled used)
    (h : renew r i cells w = some (u, w')) : B.Leads w w' := by
  obtain ⟨members, heap, result, -, h⟩ := renew_run h
  refine (Bearing.Leads.heap w heap).trans ((hmembers _ fun _ => members).trans
    (.holding h fun w1 hrun => ?_))
  exact initializeMembers_leads hr hcode ((settled_storage hw i heap members).calls _) hrun

theorem restore_leads (hi : Writable used w s i) (h : restore r i values w = some (u, w')) :
    B.Leads w w' := by
  rcases restore_run h with ⟨-, rfl⟩ | ⟨-, fresh, hfresh, h⟩
  · exact .refl _
  · obtain ⟨hw1, hstep⟩ := hr.run (fun hC => follows_renew hC i _) hi.settled hfresh
    exact (renew_leads hr hcode hmembers hi.settled hfresh).trans
      (writeSaved_leads hr (fun v index y => hmembers v fun members =>
        members.setIfInBounds index y) (hi.steady hw1 hstep) h)

theorem entry_leads (hi : Writable used w s i)
    (h : (SavedEntry.inst i values).restore r w = some (u, w')) : B.Leads w w' := by
  replace h := of_get_bind h
  rw [hi.home, if_pos hi.valid] at h
  exact restore_leads hr hcode hmembers hi h

end

end Live

/-! ### The variables of an instance -/

namespace World

variable {used : String → Prop}

/-- An instance stays as it is. -/
def staying (used : String → Prop) (i : InstanceId) : Bearing used where
  Leads w w' := w'.inst i = w.inst i
  trans h h' := h'.trans h
  quiet h := by rw [inst, h.instances, inst]

/-- An instance keeps everything but the values of its variables. -/
def retaining (used : String → Prop) (i : InstanceId) : Bearing used where
  Leads w w' := ∃ members, w'.inst i = { w.inst i with members }
  trans := by
    rintro w w1 w' ⟨members, h⟩ ⟨members', h'⟩
    exact ⟨members', by rw [h', h]⟩
  quiet h := ⟨_, by rw [inst, h.instances, inst]⟩

/-- An instance keeps everything but the values of its variables, and has as many of them. -/
def sizing (used : String → Prop) (i : InstanceId) : Bearing used where
  Leads w w' := ∃ members, members.size = (w.inst i).members.size ∧
    w'.inst i = { w.inst i with members }
  trans := by
    rintro w w1 w' ⟨members, hsize, h⟩ ⟨members', hsize', h'⟩
    rw [h] at hsize' h'
    exact ⟨members', hsize'.trans hsize, h'⟩
  quiet h := ⟨_, rfl, by rw [inst, h.instances, inst]⟩

theorem retaining_members (i : InstanceId) (w : World) (f : Array Value → Array Value) :
    (retaining used i).Leads w (w.modifyInstance i fun x => { x with members := f x.members }) := by
  show ∃ members, (w.modifyInstance i _).inst i = { w.inst i with members }
  rw [inst_modifyInstance]
  split
  · exact ⟨_, rfl⟩
  · exact ⟨_, rfl⟩

theorem sizing_set (i : InstanceId) (w : World) (index : Nat) (y : Value) : (sizing used i).Leads w
      (w.modifyInstance i fun x => { x with members := x.members.setIfInBounds index y }) := by
  show ∃ members, members.size = _ ∧ (w.modifyInstance i _).inst i = { w.inst i with members }
  rw [inst_modifyInstance]
  split
  · exact ⟨_, Array.size_setIfInBounds, rfl⟩
  · exact ⟨_, rfl, rfl⟩

end World

namespace Live

open World

variable {used : String → Prop} {r : Runner} {w w' : World} {s : ScriptId} {name : String}
  {v : Value} {index : Nat} {slot : Slot} {i : InstanceId} {values : List (String × Value)}

theorem setByName_settles {stored : Bool} (hi : Writable used w s i) (husable : w.isUsable i = true)
    (hindex : index < (w.inst i).members.size) (hslot : w.slot? s name = some slot)
    (h : setByName r i name v w = some (stored, w')) :
    Settles (fun type x k => type = slot.type ∧ x = v ∧ k = w ∧ slot.index = index)
        (w.member? i index) (w'.member? i index) ∧ (sizing used i).Leads w w' := by
  rcases setByName_plain hi hslot h with ⟨rfl, hrefused⟩ | ⟨y, heap, hy, hw'⟩
  · refine ⟨.inl ⟨rfl, ?_⟩, .refl _⟩
    rintro type x k ⟨rfl, rfl, rfl, hplace⟩
    exact ⟨k, ⟨rfl, rfl, rfl, hplace⟩, hrefused husable⟩
  · by_cases hlt : slot.index < (w.inst i).members.size
    · rw [if_pos hlt] at hw'
      have hinst : w'.inst i =
          { w.inst i with members := (w.inst i).members.setIfInBounds slot.index y } := by
        rw [hw', inst_modifyInstance, if_pos ⟨rfl, hi.known⟩]
        rfl
      refine ⟨?_, _, Array.size_setIfInBounds, hinst⟩
      rw [member?, member?, hinst]
      by_cases hhere : slot.index = index
      · refine .inr ⟨slot.type, v, w, y, ⟨rfl, rfl, rfl, hhere⟩, hy, ?_⟩
        subst hhere
        exact Array.getElem?_setIfInBounds_self_of_lt hlt
      · refine .untouched (fun type x k hlands => hhere hlands.2.2.2) ?_
        exact Array.getElem?_setIfInBounds_ne hhere
    · rw [if_neg hlt] at hw'
      rw [hw']
      refine ⟨.untouched (fun type x k hlands => hlt (hlands.2.2.2 ▸ hindex)) rfl, .heap w heap⟩

variable {u : Unit}

theorem writeSaved_settles {later : World} (hr : r.Steady used) (hi : Writable used w s i)
    (husable : w.isUsable i = true) (hindex : index < (w.inst i).members.size)
    (hlater : w'.Kept [] [] later) (h : writeSaved r i values w = some (u, w')) :
    Settles
      (fun type v k => ∃ name slot, PutsBack r i values w name v k ∧
        later.slot? s name = some slot ∧ slot.index = index ∧ slot.type = type) (w.member? i index)
          (w'.member? i index) := by
  induction values generalizing w with
  | nil =>
    cases h
    refine .untouched ?_ rfl
    rintro type v k ⟨name, slot, ⟨rest, v', hmeets, -⟩, -⟩
    cases hmeets
  | cons e rest ih =>
    obtain ⟨name, v⟩ := e
    have hsteady := (hr.run (fun hC => follows_writeSaved hC i ((name, v) :: rest)) hi.settled h).2
    have hsame : later.slot? s name = w.slot? s name :=
      (hsteady.kept.trans hlater).upholds.slot? hi.settled.sound hi.valid name
    obtain ⟨_, w1, h1, h⟩ := bind_some.1 h
    obtain ⟨hw1, hstep⟩ := hr.run (fun hC => follows_putBack hC i (name, v) rest) hi.settled h1
    have hi1 := hi.steady hw1 hstep
    have hlands {name' : String} {x : Value} {k : World} (hputs : PutsBack r i rest w1 name' x k) :
        PutsBack r i ((name, v) :: rest) w name' x k := by
      obtain ⟨left, v', hmeets, hk⟩ := hputs
      exact ⟨left, v', .later h1 hmeets, hk⟩
    have hrun := of_get_bind h1
    rw [hi.home] at hrun
    cases hslot : w.slot? s name with
    | none =>
      rw [hslot] at hrun
      cases hrun
      refine (ih hi husable hindex h).mono ?_ ?_
      · rintro type x k ⟨name', slot, hputs, hplace⟩
        exact ⟨name', slot, hlands hputs, hplace⟩
      · rintro type x k ⟨name', slot, ⟨left, v', hmeets, hk⟩, hplace, hrest⟩
        cases hmeets with
        | here => cases hplace.symm.trans (hsame.trans hslot)
        | later run hmeets =>
          cases h1.symm.trans run
          exact ⟨k, name', slot, ⟨left, v', hmeets, hk⟩, hplace, hrest⟩
    | some slot =>
      rw [hslot] at hrun
      obtain ⟨stored, w2, h2, hpure⟩ := bind_some.1 hrun
      cases hpure
      obtain ⟨w2, hset, rfl⟩ := holding_eq h2
      obtain ⟨hheld, hcalls⟩ := Steady.calls hi.settled (namedCells ((name, v) :: rest) :: w.held)
      have hslot' := (hcalls.kept.upholds.slot? hi.settled.sound hi.valid name).trans hslot
      obtain ⟨hfirst, members, hsize, hinst⟩ := setByName_settles (hi.steady hheld hcalls)
        husable hindex hslot' hset
      have hinst' : inst { w2 with held := w2.held.tail } i = { w.inst i with members } := hinst
      have husable1 : isUsable { w2 with held := w2.held.tail } i = true := by
        rw [isUsable, hinst']
        exact husable
      have hindex1 : index < (inst { w2 with held := w2.held.tail } i).members.size := by
        rw [hinst']
        exact Nat.lt_of_lt_of_eq hindex hsize.symm
      have hafter := ih hi1 husable1 hindex1 h
      refine (Settles.trans hfirst hafter).mono ?_ ?_
      · rintro type x k (⟨rfl, rfl, rfl, hplace⟩ | ⟨name', slot', hputs, hplace⟩)
        · exact ⟨name, slot, ⟨rest, w, .here, rfl⟩, hsame.trans hslot, hplace, rfl⟩
        · exact ⟨name', slot', hlands hputs, hplace⟩
      · rintro type x k ⟨name', slot', ⟨left, v', hmeets, hk⟩, hfound, hplace, htype⟩
        cases hmeets with
        | here =>
          obtain rfl := Option.some.inj (hfound.symm.trans (hsame.trans hslot))
          exact ⟨_, .inl ⟨htype.symm, rfl, rfl, hplace⟩⟩
        | later run hmeets =>
          cases h1.symm.trans run
          exact ⟨k, .inr ⟨name', slot', ⟨left, v', hmeets, hk⟩, hfound, hplace, htype⟩⟩

theorem size_renew {cells : List Cell} (hr : r.Steady used)
    (hown : ∀ {t : ScriptId} {f : FunctionCode} {v v' : World} {x : Except CallFault Value},
      v.Settled used → r.execute t f (some i) [] v = some (x, v') → (sizing used i).Leads v v')
    (hi : Writable used w s i) (h : renew r i cells w = some (u, w')) :
    (w'.inst i).members.size = ((w.script s).code.map (·.memberCount)).getD 0 := by
  obtain ⟨members, heap, result, hdefault, h⟩ := renew_run h
  rw [hi.home] at hdefault
  obtain ⟨members', w1, hrun, hsize⟩ := defaultMembers_some w s
  cases hrun.symm.trans hdefault
  have hleads : (sizing used i).Leads ((w.withHeap heap).modifyInstance i fun x =>
      { x with members }) w' :=
    .holding h fun w1 hrun =>
      initializeMembers_leads hr hown ((settled_storage hi.settled i heap members).calls _) hrun
  obtain ⟨_, hmembers, hinst⟩ := hleads
  rw [inst_modifyInstance, if_pos ⟨rfl, hi.known⟩] at hmembers
  rw [hinst]
  exact hmembers.trans hsize

section

variable {entries : List SavedEntry} (hr : r.Steady used)
  (hown : ∀ {t : ScriptId} {f : FunctionCode} {v v' : World} {x : Except CallFault Value},
    v.Settled used → r.execute t f (some i) [] v = some (x, v') → (sizing used i).Leads v v')
  (hothers : ∀ {t : ScriptId} {f : FunctionCode} {j : InstanceId} {v v' : World}
  {x : Except CallFault Value},
    j ≠ i → v.Settled used → r.execute t f (some j) [] v = some (x, v') → v'.inst i = v.inst i)
include hr hothers

variable {entry : SavedEntry}

theorem entry_stays (hother : ∀ values, entry ≠ .inst i values)
    (hentry : ∀ j values, entry = .inst j values → ∃ t, Writable used w t j)
    (h : entry.restore r w = some (u, w')) : w'.inst i = w.inst i := by
  cases entry with
  | static t name v =>
    obtain ⟨stored, w1, h1, h⟩ := bind_some.1 h
    cases h
    rw [inst, setStatic_instances h1, inst]
  | inst j values =>
    have hne : j ≠ i := by
      rintro rfl
      exact hother values rfl
    obtain ⟨t, hj⟩ := hentry j values rfl
    refine entry_leads (B := staying used i) hr (hothers hne) (fun v f => ?_) hj h
    show (v.modifyInstance j _).inst i = v.inst i
    rw [inst_modifyInstance, if_neg fun heq => hne heq.1.symm]

include hown

theorem entry_retains (hentry : ∀ j values, entry = .inst j values → ∃ t, Writable used w t j)
    (h : entry.restore r w = some (u, w')) : (retaining used i).Leads w w' := by
  by_cases hother : ∀ values, entry ≠ .inst i values
  · exact ⟨_, entry_stays hr hothers hother hentry h⟩
  · obtain ⟨values, heq⟩ := Classical.not_forall.1 hother
    obtain rfl := Classical.not_not.1 heq
    obtain ⟨t, hi⟩ := hentry i values rfl
    refine entry_leads (B := retaining used i) hr (fun hv hrun => ?_) (retaining_members i) hi h
    obtain ⟨members, -, hinst⟩ := hown hv hrun
    exact ⟨members, hinst⟩

/-- **What comes of the variables of an instance**: at one of its moments it was initialized afresh,
and then each place has one of the values whose name leads to it, or what the initializers gave
it. -/
theorem Restoring.settles_members {moment : SavedEntry → World → Prop} (hi : Writable used w s i)
    (husable : w.isUsable i = true)
    (hentries : ∀ j values, .inst j values ∈ entries → ∃ t, Writable used w t j)
    (hvalues : ∀ values', .inst i values' ∈ entries → values' = values)
    (hmem : .inst i values ∈ entries)
    (h : Restoring r moment entries w w') :
    ∃ u fresh, moment (.inst i values) u ∧ renew r i (namedCells values) u = some ((), fresh) ∧
      (∀ name x, (name, x) ∈ values → ∃ k, PutsBack r i values fresh name x k) ∧
      (fresh.inst i).members.size = ((w'.script s).code.map (·.memberCount)).getD 0 ∧
      (w'.inst i).members.size = ((w'.script s).code.map (·.memberCount)).getD 0 ∧
      ∀ index < (w'.inst i).members.size, Settles
        (fun type v k => ∃ name slot, PutsBack r i values fresh name v k ∧
          w'.slot? s name = some slot ∧ slot.index = index ∧ slot.type = type)
            (fresh.member? i index) (w'.member? i index) := by
  induction h with
  | done => cases hmem
  | @next entry entries w w1 w' held met run rest ih =>
    obtain ⟨hheld, hcalls⟩ := Steady.calls hi.settled held
    obtain ⟨hw1, hstep⟩ := hr.run (fun hC => evolving_entry hC entry) hheld run
    obtain ⟨hw', hrest⟩ := rest.steady hr hw1
    have hi0 := hi.steady hheld hcalls
    have hwritable (j : InstanceId) (values : List (String × Value)) (hj : .inst j values ∈ entry ::
        entries) : (∃ t, Writable used { w with held } t j) ∧ ∃ t, Writable used w1 t j := by
      obtain ⟨t, ht⟩ := hentries j values hj
      have ht0 := ht.steady hheld hcalls
      exact ⟨⟨t, ht0⟩, t, ht0.steady hw1 hstep⟩
    by_cases hlast : ∃ values', SavedEntry.inst i values' ∈ entries
    · -- the instance will be rebuilt once more
      obtain ⟨values', hlast⟩ := hlast
      obtain rfl := hvalues values' (.tail _ hlast)
      obtain ⟨members, hinst⟩ := entry_retains hr hown hothers
        (fun j vs heq => (hwritable j vs (heq ▸ (.head _))).1) run
      have husable1 : w1.isUsable i = true := by
        rw [isUsable, hinst]
        exact husable
      exact ih (hi0.steady hw1 hstep) husable1
        (fun j vs hj => (hwritable j vs (.tail _ hj)).2)
        (fun vs hvs => hvalues vs (.tail _ hvs)) hlast
    · obtain rfl : SavedEntry.inst i values = entry :=
        (List.mem_cons.1 hmem).resolve_right fun hin => hlast ⟨values, hin⟩
      obtain ⟨_, _, h1, hrun⟩ := bind_some.1 run
      cases h1
      rw [hi0.home, if_pos hi0.valid] at hrun
      rcases restore_run hrun with ⟨hcleared, -⟩ | ⟨-, fresh, hfresh, hwrite⟩
      · exact absurd (hcleared.symm.trans husable) Bool.false_ne_true
      -- nothing happens to the instance after this
      have hstays : w'.inst i = w1.inst i := by
        refine Restoring.leads (B := staying used i) hr hw1 (fun other hother v v' hv hsince hrun =>
          ?_) rest
        refine entry_stays hr hothers (fun vs heq => hlast ⟨vs, heq ▸ hother⟩)
          (fun j vs heq => ?_) hrun
        obtain ⟨t, ht⟩ := (hwritable j vs (.tail _ (heq ▸ hother))).2
        exact ⟨t, ht.steady hv hsince⟩
      obtain ⟨hwfresh, hinit⟩ := hr.run (fun hC => follows_renew hC i _) hheld hfresh
      have hifresh := hi0.steady hwfresh hinit
      obtain ⟨hw1', hwrites⟩ := hr.run (fun hC => follows_writeSaved hC i values) hwfresh hwrite
      have hlater := (hinit.trans (hwrites.trans hrest)).kept
      obtain ⟨members, hinst⟩ := renew_leads (B := retaining used i) hr
        (fun hv hrun => let ⟨members, _, hinst⟩ := hown hv hrun; ⟨members, hinst⟩)
        (retaining_members i) hheld hfresh
      have husable' : fresh.isUsable i = true := by
        rw [isUsable, hinst]
        exact husable
      have hsize := size_renew hr hown hi0 hfresh
      rw [← (hlater.script s List.not_mem_nil hi0.valid).code] at hsize
      obtain ⟨members', hsize', hinst'⟩ :=
        writeSaved_leads (B := sizing used i) hr (sizing_set i) hifresh hwrite
      have hsame : (w'.inst i).members.size = (fresh.inst i).members.size := by
        rw [hstays, hinst']
        exact hsize'
      refine ⟨_, fresh, met, hfresh, fun name x hx => ?_, hsize, hsame.trans hsize,
        fun index hindex => ?_⟩
      · obtain ⟨left, k, hmeets⟩ := meets_of_mem hwrite hx
        exact ⟨_, left, k, hmeets, rfl⟩
      have hmember : w'.member? i index = w1.member? i index := by rw [member?, hstays, member?]
      rw [hmember]
      exact writeSaved_settles hr hifresh husable' (hsame ▸ hindex) hrest.kept hwrite

end

end Live

end HotScript
