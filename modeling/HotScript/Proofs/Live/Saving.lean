import HotScript.Proofs.Live.Enrolment
import HotScript.Proofs.Live.Retention

/-!
Saving the state of files.

Where variables are read without accessors, saving runs no code and changes nothing
(`Live.saveState_plain`). So the state of all files that are reloaded together is saved as it was
when the reload began.
-/

namespace HotScript

namespace World

/-- No variable of a class or its bases is read or written through an accessor. -/
def Plain (w : World) (s : ScriptId) : Prop :=
  ∀ slot ∈ w.slots s, slot.getter = none ∧ slot.setter = none

instance (w : World) (s : ScriptId) : Decidable (w.Plain s) :=
  inferInstanceAs (Decidable (∀ slot ∈ w.slots s, _))

def value? (w : World) (i : InstanceId) (name : String) : Option Value :=
  if w.isUsable i then (w.slot? (w.inst i).script name).bind fun slot => w.member? i slot.index
    else none

def values (w : World) (i : InstanceId) : List (String × Value) :=
  (w.slots (w.inst i).script).filterMap fun slot => (w.value? i slot.name).map (slot.name, ·)

theorem mem_values {w : World} (hw : w.Enrolled) {i : InstanceId} {name : String} {v : Value} :
    (name, v) ∈ w.values i ↔ w.value? i name = some v := by
  rw [values, List.mem_filterMap]
  constructor
  · rintro ⟨slot, -, hmap⟩
    obtain ⟨v', hv, heq⟩ := Option.map_eq_some_iff.1 hmap
    cases heq
    exact hv
  · intro hv
    have hslot : ∃ slot, w.slot? (w.inst i).script name = some slot := by
      unfold value? at hv
      split at hv
      · obtain ⟨slot, hslot, -⟩ := Option.bind_eq_some_iff.1 hv
        exact ⟨slot, hslot⟩
      · cases hv
    obtain ⟨slot, hslot⟩ := hslot
    obtain ⟨t, c, ht, hfind⟩ := of_slot? hslot
    obtain rfl := (hw.keyed t c (mem_codeChain.1 ht).2).1.name_of_find? hfind
    exact ⟨slot, mem_slots.2 ⟨t, c, ht, Table.mem_values_of_find? hfind⟩, by rw [hv]; rfl⟩

/-! ### Ready to be saved -/

/-- Sources of classes were read again, units were dropped, and more is held on to. -/
structure Poised (w v : World) : Prop where
  frame : v = { w with work := v.work, cache := v.cache, scripts := v.scripts, held := v.held }
  heap : v.heap = w.heap
  registry : v.registry = w.registry
  cache : v.cache =
    { w.cache with references := v.cache.references, dependents := v.cache.dependents }
  size : v.scripts.size = w.scripts.size
  script : ∀ s, v.script s = { w.script s with source := (v.script s).source }
  held : w.held.flatten ⊆ v.held.flatten

namespace Poised

variable {w v : World}

theorem refl (w : World) : w.Poised w := ⟨rfl, rfl, rfl, rfl, rfl, fun _ => rfl, fun _ h => h⟩

section

variable (h : w.Poised v)
include h

theorem calls {held : List (List Cell)} (hheld : w.held.flatten ⊆ held.flatten) :
    w.Poised { v with held } :=
  ⟨by rw [h.frame], h.heap, h.registry, h.cache, h.size, h.script, hheld⟩

theorem hold (cells : List Cell) : w.Poised { v with held := cells :: v.held } := by
  refine h.calls fun c hc => ?_
  exact List.mem_append_right _ (h.held hc)

theorem setSource (s : ScriptId) (source : Source) :
    w.Poised (v.modifyScript s fun c => { c with source }) where
  frame := by
    rw [modifyScript, h.frame]
  heap := h.heap
  registry := h.registry
  cache := h.cache
  size := Array.size_modify.trans h.size
  script t := by
    rw [script_modifyScript]
    split
    · next ht => rw [ht.1, h.script s]
    · exact h.script t
  held := h.held

theorem removeUnit (path : String) : w.Poised (v.removeUnit path) := by
  have hframe := (v.forgets_removeUnit path).frame
  rw [hframe]
  exact ⟨by rw [h.frame], h.heap, h.registry, by rw [h.cache], h.size, h.script, h.held⟩

theorem removeUnits (paths : List String) :
    w.Poised (paths.foldl (fun v path => v.removeUnit path) v) := by
  induction paths generalizing v with
  | nil => exact h
  | cons path paths ih => exact ih (h.removeUnit path)

end

variable (h : w.Poised v)
include h

theorem instances : v.instances = w.instances := by rw [h.frame]

variable (i : InstanceId) (s : ScriptId) (name : String)

theorem inst : v.inst i = w.inst i := by rw [World.inst, h.instances, World.inst]

theorem code : (v.script s).code = (w.script s).code := by rw [h.script s]

theorem family : v.family s = w.family s := by
  rw [World.family, h.script s, World.family]

theorem codeChain : v.codeChain s = w.codeChain s :=
  codeChain_congr h.size (fun t => by rw [h.script t]; exact ⟨rfl, rfl⟩) s

theorem slot? : v.slot? s name = w.slot? s name := by
  rw [World.slot?, World.slot?, h.codeChain]

theorem slots : v.slots s = w.slots s := by rw [World.slots, World.slots, h.codeChain]

theorem value? : v.value? i name = w.value? i name := by
  unfold World.value? isUsable member?
  rw [h.inst, h.slot?]

theorem savedStatics : v.savedStatics s = w.savedStatics s := by
  rw [World.savedStatics, World.savedStatics, h.script s]

theorem find? (path : String) : v.cache.find? path = w.cache.find? path := by
  rw [h.cache]
  rfl

theorem enrolled (hw : w.Enrolled) : v.Enrolled where
  listed s i hi := by
    rw [h.inst, h.instances, h.script s]
    rw [h.script s] at hi
    exact hw.listed s i hi
  blank s hs := by
    rw [h.script s] at hs ⊢
    exact hw.blank s hs
  keyed s c hc := hw.keyed s c (h.code s ▸ hc)
  stored s c hc := by
    rw [h.script s] at hc ⊢
    exact hw.stored s c hc

theorem holds : w.Holds v where
  cells := by
    rw [cells, cells, h.heap, h.size, h.frame]
  number := by
    unfold number
    rw [h.heap, h.size, h.frame]
  successors := by
    funext c
    unfold successors
    cases c with
    | array id => rw [h.heap]
    | dict id => rw [h.heap]
    | object id => rw [h.frame]
    | closure id =>
      rw [h.frame]
      rfl
    | script id =>
      dsimp only
      rw [h.script id]
    | inst id =>
      dsimp only
      rw [h.inst id]
  roots c hc := by
    have hframes : v.frames = w.frames := by rw [h.frame]
    have hhandles : v.handles = w.handles := by rw [h.frame]
    have hheld := h.held (a := c)
    rw [roots, h.cache, h.registry]
    rw [roots] at hc
    grind

theorem mem_liveInstances {s : ScriptId} {i : InstanceId} (hi : i ∈ w.liveInstances s) :
    i ∈ v.liveInstances s := by
  obtain ⟨hlisted, halive⟩ := List.mem_filter.1 hi
  refine List.mem_filter.2 ⟨?_, isAlive_mono h.holds halive⟩
  rw [h.script s]
  exact hlisted

end Poised

end World

/-! ### Saving without accessors -/

/-- What was saved of a file is its state. -/
structure World.Saved (w : World) (head : ScriptId) (saved : SavedState) : Prop where
  statics : saved.statics = (w.family head).map fun s => ((w.script s).qualified, w.savedStatics s)
  listed : ∀ e ∈ saved.instances,
    (∃ s ∈ w.family head, e.1 ∈ (w.script s).instances.values) ∧ e.2 = w.values e.1
  live : ∀ s ∈ w.family head, ∀ i ∈ w.liveInstances s, (i, w.values i) ∈ saved.instances

namespace Live

open World

variable {r : Runner} {w v : World} (h : w.Poised v)
include h

omit h in
theorem holding_same {α : Type} {cells : List Cell} {m : Live α} {a : α}
    (hm : m { v with held := cells :: v.held } = some (a, { v with held := cells :: v.held })) :
    holding cells m v = some (a, v) :=
  bind_some.2 ⟨_, _, rfl, bind_some.2 ⟨_, _, hm, rfl⟩⟩

variable {i : InstanceId} {keep : Bool} {v' : World} {name : String} {slot : Slot}

omit h in
theorem getMember_run (r : Runner)
    (hslot : v.slot? (v.inst i).script name = some slot) (hgetter : slot.getter = none) :
    getMember r i name v = some (v.value? i name, v) := by
  refine bind_some.2 ⟨v, v, rfl, ?_⟩
  unfold World.value?
  cases hu : v.isUsable i with
  | false => rfl
  | true =>
    dsimp only
    rw [hslot]
    dsimp only
    rw [hgetter]
    rfl

theorem getMember_plain (hslot : w.slot? (w.inst i).script name = some slot)
    (hgetter : slot.getter = none) : getMember r i name v = some (w.value? i name, v) := by
  rw [← h.value?]
  rw [← h.slot?, ← h.inst] at hslot
  exact getMember_run r hslot hgetter

theorem readSlots_plain {slots : List Slot}
    (hslots : ∀ slot ∈ slots, ∃ found, w.slot? (w.inst i).script slot.name = some found ∧
      found.getter = none) :
    readSlots r i slots v =
      some (slots.filterMap fun slot => (w.value? i slot.name).map (slot.name, ·), v) := by
  induction slots generalizing v with
  | nil => rfl
  | cons slot rest ih =>
    obtain ⟨found, hfound, hgetter⟩ := hslots slot (.head _)
    have hrest := fun slot hslot => hslots slot (.tail _ hslot)
    refine bind_some.2 ⟨_, v, getMember_plain h hfound hgetter, ?_⟩
    rw [List.filterMap_cons]
    cases hvalue : w.value? i slot.name with
    | none => exact ih h hrest
    | some x => exact bind_some.2 ⟨_, v, holding_same (ih (h.hold _) hrest), rfl⟩

section

variable (hw : w.Enrolled) {result : Except ReloadFault SavedState}

include hw

theorem snapshot_plain (hplain : w.Plain (w.inst i).script) :
    snapshot r i v = some (w.values i, v) := by
  refine bind_some.2 ⟨v, v, rfl, ?_⟩
  rw [h.inst, h.slots]
  refine readSlots_plain h fun slot hslot => ?_
  obtain ⟨found, hmem, hfound⟩ := hw.slot?_of_mem hslot
  exact ⟨found, hfound, (hplain found hmem).1⟩

theorem snapshots_plain {is : List InstanceId} (hplain : ∀ i ∈ is, w.Plain (w.inst i).script) :
    snapshots r is v = some (is.map fun i => (i, w.values i), v) := by
  induction is generalizing v with
  | nil => rfl
  | cons i rest ih =>
    have hrest := ih (h.hold (namedCells (w.values i))) fun j hj => hplain j (.tail _ hj)
    refine bind_some.2 ⟨_, v, snapshot_plain h hw (hplain i (.head _)), ?_⟩
    exact bind_some.2 ⟨_, v, holding_same hrest, rfl⟩

theorem saveInstances_plain {ss : List ScriptId} (hplain : ∀ s ∈ ss, w.Plain s) :
    ∃ saved, saveInstances r ss v = some (saved, v) ∧
      (∀ e ∈ saved, (∃ s ∈ ss, e.1 ∈ (w.script s).instances.values) ∧ e.2 = w.values e.1) ∧
      ∀ s ∈ ss, ∀ i ∈ w.liveInstances s, (i, w.values i) ∈ saved := by
  induction ss generalizing v with
  | nil => exact ⟨[], rfl, nofun, nofun⟩
  | cons s rest ih =>
    have hlisted (i : InstanceId) (hi : i ∈ v.liveInstances s) :
        i ∈ (w.script s).instances.values := by
      have hmem := List.mem_of_mem_filter hi
      rw [h.script s] at hmem
      exact hmem
    have hlive : ∀ i ∈ v.liveInstances s, w.Plain (w.inst i).script := by
      intro i hi
      obtain ⟨-, -, hhome⟩ := hw.listed s i (hlisted i hi)
      exact hhome.symm ▸ hplain s (.head _)
    let first := (v.liveInstances s).map fun i => (i, w.values i)
    obtain ⟨more, hmore, hof, hall⟩ := ih (h.hold (savedCells first)) fun t ht =>
      hplain t (.tail _ ht)
    have hfirst := snapshots_plain (r := r) (h.hold ((v.liveInstances s).map .inst)) hw hlive
    refine ⟨first ++ more, ?_, fun e he => ?_, fun t ht i hi => ?_⟩
    · refine bind_some.2 ⟨v, v, rfl, bind_some.2 ⟨first, v, holding_same hfirst, ?_⟩⟩
      exact bind_some.2 ⟨more, v, holding_same hmore, rfl⟩
    · rcases List.mem_append.1 he with he | he
      · obtain ⟨i, hi, rfl⟩ := List.mem_map.1 he
        exact ⟨⟨s, (.head _), hlisted i hi⟩, rfl⟩
      · obtain ⟨⟨t, ht, hmem⟩, hvalues⟩ := hof e he
        exact ⟨⟨t, List.mem_cons_of_mem _ ht, hmem⟩, hvalues⟩
    · rcases List.mem_cons.1 ht with rfl | ht
      · exact List.mem_append_left _ (List.mem_map_of_mem (h.mem_liveInstances hi))
      · exact List.mem_append_right _ (hall t ht i hi)

/-- **Saving the state of a file whose variables have no accessors** changes nothing. -/
theorem saveState_plain {head : ScriptId}
    (hplain : ∀ s ∈ w.family head, w.Plain s) (hrun : saveState r head keep v = some (result, v')) :
    v' = v ∧ ∀ saved, result = .ok saved → w.Saved head saved := by
  replace hrun := of_get_bind hrun
  split at hrun
  · cases hrun
    exact ⟨rfl, nofun⟩
  · obtain ⟨instances, v1, h1, hrun⟩ := bind_some.1 hrun
    rw [h.family] at h1 hrun
    obtain ⟨saved, hsave, hof, hall⟩ := saveInstances_plain (r := r) (h.hold _) hw hplain
    cases h1.symm.trans (holding_same hsave)
    cases hrun
    refine ⟨rfl, fun saved hok => ?_⟩
    cases hok
    refine ⟨List.map_congr_left fun s _ => ?_, hof, hall⟩
    rw [h.savedStatics, h.script s]

/-! ### Preparing several files -/

theorem prepare_plain {path : String} {s : ScriptId}
    (hplain : ∀ t ∈ w.family s, w.Plain t) (hrun : prepare r path s keep v = some (result, v')) :
    w.Poised v' ∧ v'.held = v.held ∧ ∀ saved, result = .ok saved → w.Saved s saved := by
  replace hrun := of_get_bind hrun
  cases hsource : v.work.source path with
  | error cause =>
    rw [hsource] at hrun
    cases hrun
    exact ⟨h, rfl, nofun⟩
  | ok source =>
  rw [hsource] at hrun
  obtain ⟨saved, v1, h1, hrun⟩ := bind_some.1 hrun
  obtain ⟨rfl, hspec⟩ := saveState_plain h hw hplain h1
  cases saved with
  | error fault =>
    cases hrun
    exact ⟨h, rfl, nofun⟩
  | ok saved =>
    obtain ⟨_, v2, h2, hrun⟩ := bind_some.1 hrun
    cases h2
    cases hrun
    refine ⟨h.setSource s source, rfl, fun saved' hok => ?_⟩
    cases hok
    exact hspec _ rfl

theorem prepareAll_plain {report report' : ReloadReport} {batch batch' : List Prepared}
    {files : List (String × ScriptId)} (hplain : ∀ f ∈ files, ∀ s ∈ w.family f.2, w.Plain s)
    (hrun : prepareAll r keep report batch files v = some ((report', batch'), v')) :
    w.Poised v' ∧ ∀ p ∈ batch', p ∈ batch ∨ (p.path, p.script) ∈ files ∧
    w.Saved p.script p.saved := by
  induction files generalizing v report batch with
  | nil =>
    cases hrun
    exact ⟨h, fun _ => .inl⟩
  | cons file files ih =>
    obtain ⟨path, s⟩ := file
    obtain ⟨prepared, v1, h1, hrun⟩ := bind_some.1 hrun
    obtain ⟨v2, h2, rfl⟩ := holding_eq h1
    obtain ⟨hpoised, hheld, hsaved⟩ :=
      prepare_plain (h.hold (Prepared.cells batch)) hw (hplain (path, s) (.head _)) h2
    have hrest := fun f hf => hplain f (List.mem_cons_of_mem (path, s) hf)
    have hlet : w.Poised { v2 with held := v2.held.tail } := by
      rw [hheld]
      exact hpoised.calls h.held
    cases prepared with
    | error fault =>
      obtain ⟨hpoised', hbatch⟩ := ih hlet hrest hrun
      refine ⟨hpoised', fun p hp => (hbatch p hp).imp_right fun hfile => ?_⟩
      exact ⟨List.mem_cons_of_mem _ hfile.1, hfile.2⟩
    | ok saved =>
      obtain ⟨hpoised', hbatch⟩ := ih hlet hrest hrun
      refine ⟨hpoised', fun p hp => ?_⟩
      rcases hbatch p hp with hp | ⟨hfile, hstate⟩
      · rcases List.mem_append.1 hp with hp | hp
        · exact .inl hp
        · rw [List.mem_singleton.1 hp]
          exact .inr ⟨(.head _), hsaved saved rfl⟩
      · exact .inr ⟨List.mem_cons_of_mem _ hfile, hstate⟩

end

end Live

end HotScript
