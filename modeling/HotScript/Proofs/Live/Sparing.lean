import HotScript.Proofs.Live.Bringing

/-!
Reloads that fail.

When compiling a file again fails, its classes are not touched: all bases are linked before the
first class is replaced. But its state has been saved by then, and saving reads variables through
their accessors (`World.Reached.failed_reload`).
-/

namespace HotScript

namespace World

/-- The static variables of classes and whole instances are left alone. -/
structure Spares (T : ScriptId → Prop) (I : InstanceId → Prop) (w w' : World) : Prop where
  statics : ∀ s, T s → (w'.script s).statics = (w.script s).statics
  inst : ∀ i, I i → w'.inst i = w.inst i

theorem Spares.trans {T : ScriptId → Prop} {I : InstanceId → Prop} {w w1 w' : World}
    (h : w.Spares T I w1) (h' : w1.Spares T I w') : w.Spares T I w' :=
  ⟨fun s hs => (h'.statics s hs).trans (h.statics s hs), fun i hi => (h'.inst i hi).trans
    (h.inst i hi)⟩

/-- Classes belong to files that are in use. -/
def Covers (used : String → Prop) (T : ScriptId → Prop) (w : World) : Prop :=
  ∀ s, T s → s < w.scripts.size ∧ used (w.script s).path

variable {used : String → Prop} {T : ScriptId → Prop} {I : InstanceId → Prop} {w w' : World}

theorem Covers.fixed (h : w.Covers used T) (hf : w.Fixed used w') : w'.Covers used T := by
  intro s hs
  obtain ⟨hlt, hused⟩ := h s hs
  exact ⟨Nat.lt_of_lt_of_le hlt hf.size, (hf.script s hlt hused).path.symm ▸ hused⟩

theorem Quiet.spares (h : w.Quiet used w') (hc : w.Covers used T) : w.Spares T I w' where
  statics s hs := by
    obtain ⟨hlt, hused⟩ := hc s hs
    rw [h.script s hlt hused]
  inst i _ := by rw [inst, inst, h.instances]

/-- Files in use stay as they are, and of their state some is left alone. -/
def sparing (used : String → Prop) (T : ScriptId → Prop) (I : InstanceId → Prop) :
    Bearing used where
  Leads w w' := w.Fixed used w' ∧ (w.Covers used T → w.Spares T I w')
  trans h h' := ⟨h.1.trans h'.1, fun hc => (h.2 hc).trans (h'.2 (hc.fixed h.1))⟩
  quiet h := ⟨.quiet h, h.spares⟩

/-- Where a variable of a class is read through an accessor, that is a function of a file that is
not in use. -/
def ReadsElsewhere (used : String → Prop) (w : World) (s : ScriptId) : Prop :=
  ∀ slot ∈ w.slots s, ∀ getter, slot.getter = some getter →
    ∃ level f, w.function? s getter = some (level, f) ∧ ¬used (w.script level).path

theorem ReadsElsewhere.upholds {s : ScriptId} (h : w.ReadsElsewhere used s) (hw : w.Sound)
    (hs : (w.script s).isValid) (hup : w.Upholds w') : w'.ReadsElsewhere used s := by
  intro slot hslot getter hgetter
  obtain ⟨level, f, hf, hfree⟩ := h slot ((hup.mem_slots hw hs).1 hslot) getter hgetter
  refine ⟨level, f, (hup.function? hw hs getter).trans hf, ?_⟩
  obtain ⟨c, hlevel, -⟩ := of_function? hf
  rw [(hup.script level (hw.valid_of_mem_chain hs (mem_codeChain.1 hlevel).1)).path]
  exact hfree

end World

/-! ### Saving -/

theorem Attempt.invoke_nil_run {r : Runner} {s : ScriptId} {f : FunctionCode}
    {bound : Option InstanceId} {w w' : World} {v : Except CallFault Value}
    (h : (invoke r s f bound []).run w = some (v, w')) :
    w' = w ∨ ∃ w1, r.execute s f (if f.isStatic then none else bound) []
    { w with held := [] :: w.held } =
      some (v, w1) ∧ w' = { w1 with held := w1.held.tail } := by
  unfold invoke at h
  by_cases hleast : ([] : List Value).length < f.least
  · rw [if_pos hleast] at h
    cases h
    exact .inl rfl
  · rw [if_neg hleast] at h
    exact .inr (Live.holding_eq h)

namespace Live

open World

variable {r : Runner} {used : String → Prop} {w w' : World} {s level : ScriptId} {i : InstanceId}

theorem callResult_nil_run {name : String} {v : Option Value} {f : FunctionCode}
    (hf : w.function? (w.inst i).script name = some (level, f))
    (h : callResult r i name [] w = some (v, w')) :
    w' = w ∨ ∃ bound held result w1, r.execute level f bound []
    { w with held } = some (result, w1) ∧
      ∃ held', w' = { w1 with held := held' } := by
  obtain ⟨result, w1, h1, h⟩ := bind_some.1 h
  have hw' : w' = w1 := by
    cases result with
    | error fault =>
      cases h
      rfl
    | ok v =>
      cases h
      rfl
  subst hw'
  unfold Attempt.callMethod at h1
  rw [Attempt.run_get_bind] at h1
  dsimp only at h1
  split at h1
  · cases h1
    exact .inl rfl
  · rw [hf] at h1
    obtain ⟨w2, h2, rfl⟩ := holding_eq h1
    rcases Attempt.invoke_nil_run h2 with rfl | ⟨w3, h3, rfl⟩
    · exact .inl rfl
    · exact .inr ⟨_, _, _, _, h3, _, rfl⟩

structure Readable (used : String → Prop) (w : World) (s : ScriptId) (i : InstanceId) : Prop where
  settled : w.Settled used
  valid : (w.script s).isValid
  elsewhere : w.ReadsElsewhere used s
  known : i < w.instances.size
  home : (w.inst i).script = s

theorem Readable.run {α : Type} {m : Live α} {a : α} (h : Readable used w s i) (hr : r.Orderly)
    (hm : ∀ {C : World.Course}, r.Evolving C → Evolving C m) (hrun : m w = some (a, w')) :
    Readable used w' s i := by
  obtain ⟨hsettled, hkept, henrols⟩ := hr.run hm h.settled hrun
  refine ⟨hsettled, (hkept.script s List.not_mem_nil h.valid).isValid.trans h.valid, ?_,
    Nat.lt_of_lt_of_le h.known henrols.size, (henrols.home i h.known).trans h.home⟩
  exact h.elsewhere.upholds h.settled.sound h.valid hkept.upholds

theorem Readable.calls (h : Readable used w s i) (held : List (List Cell)) :
    Readable used { w with held } s i :=
  ⟨h.settled.calls held, h.valid,
    h.elsewhere.upholds h.settled.sound h.valid (.calls w held), h.known, h.home⟩

end Live

/-- A runner that keeps to a bearing whatever it runs of files that are not in use. -/
structure Runner.Minds {used : String → Prop} (B : World.Bearing used) (r : Runner) : Prop
    extends r.Bears B where
  fixing : r.Evolving (World.fixing used)
  calls : ∀ {s : ScriptId} {f : FunctionCode} {bound : Option InstanceId} {args : List Value}
    {w w' : World} {v : Except CallFault Value}, w.Settled used → ¬used (w.script s).path →
    r.execute s f bound args w = some (v, w') → B.Leads w w'

namespace Live

open World

variable {r : Runner} {used : String → Prop} {B : World.Bearing used} (hr : r.Minds B)
  {w w' : World} {s head : ScriptId} {i : InstanceId}
  {saved : List (InstanceId × List (String × Value))} {keep : Bool}
include hr

theorem getMember_leads {slot : Slot} {v : Option Value} (hw : Readable used w s i)
    (hslot : slot ∈ w.slots s) (h : getMember r i slot.name w = some (v, w')) : B.Leads w w' := by
  replace h := of_get_bind h
  dsimp only at h
  split at h
  · cases h
    exact .refl _
  · obtain ⟨found, hmem, hfound⟩ := hw.settled.enrolled.slot?_of_mem hslot
    rw [hw.home, hfound] at h
    dsimp only at h
    cases hgetter : found.getter with
    | none =>
      rw [hgetter] at h
      cases h
      exact .refl _
    | some getter =>
      rw [hgetter] at h
      obtain ⟨level, f, hf, hfree⟩ := hw.elsewhere found hmem getter hgetter
      rcases callResult_nil_run (hw.home.symm ▸ hf) h with rfl | ⟨bound, held, _, w1, h1,
        held', rfl⟩
      · exact .refl _
      · exact (Bearing.Leads.calls w held).trans
          ((hr.calls (hw.calls held).settled hfree h1).trans (.calls ..))

theorem readSlots_leads {slots : List Slot} {values : List (String × Value)}
    (hw : Readable used w s i) (hslots : ∀ slot ∈ slots, slot ∈ w.slots s)
    (h : readSlots r i slots w = some (values, w')) :
    B.Leads w w' := by
  induction slots generalizing w w' values with
  | nil =>
    cases h
    exact .refl _
  | cons slot rest ih =>
    obtain ⟨v, w1, h1, h⟩ := bind_some.1 h
    have hw1 := hw.run hr.toOrderly (follows_getMember · i slot.name) h1
    obtain ⟨-, hkept, -⟩ := hr.run (follows_getMember · i slot.name) hw.settled h1
    have hrest {v : World} (hup : w1.Upholds v) (slot : Slot) (hslot : slot ∈ rest) :
        slot ∈ v.slots s :=
      ((hkept.upholds.trans hup).mem_slots hw.settled.sound hw.valid).2
        (hslots slot (.tail _ hslot))
    refine (getMember_leads hr hw (hslots slot (.head _)) h1).trans ?_
    cases v with
    | none => exact ih hw1 (hrest (.refl w1)) h
    | some v =>
      obtain ⟨more, w2, h2, h⟩ := bind_some.1 h
      cases h
      exact .holding h2 fun w3 h3 => ih (hw1.calls _) (hrest (.calls ..)) h3

theorem snapshots_leads {is : List InstanceId}
    (hw : ∀ i ∈ is, Readable used w s i) (h : snapshots r is w = some (saved, w')) :
    B.Leads w w' := by
  induction is generalizing w w' saved with
  | nil =>
    cases h
    exact .refl _
  | cons i rest ih =>
    obtain ⟨values, w1, h1, h⟩ := bind_some.1 h
    obtain ⟨more, w2, h2, h⟩ := bind_some.1 h
    cases h
    have hi := hw i (.head _)
    have hread : readSlots r i (w.slots s) w = some (values, w1) := hi.home ▸ h1
    refine (readSlots_leads hr hi (fun _ hslot => hslot) hread).trans (.holding h2 fun w3 h3 => ?_)
    refine ih (fun j hj => Readable.calls ?_ _) h3
    exact (hw j (.tail _ hj)).run hr.toOrderly (follows_snapshot · i) h1

theorem saveInstances_leads {ss : List ScriptId}
    (hw : w.Settled used) (hss : ∀ s ∈ ss, s < w.scripts.size ∧ used (w.script s).path ∧
      ((w.script s).isValid → w.ReadsElsewhere used s))
    (h : saveInstances r ss w = some (saved, w')) : B.Leads w w' := by
  induction ss generalizing w w' saved with
  | nil =>
    cases h
    exact .refl _
  | cons s rest ih =>
    replace h := of_get_bind h
    obtain ⟨first, w1, h1, h⟩ := bind_some.1 h
    obtain ⟨more, w2, h2, h⟩ := bind_some.1 h
    cases h
    obtain ⟨-, -, hread⟩ := hss s (.head _)
    have hlive (i : InstanceId) (hi : i ∈ w.liveInstances s) : Readable used w s i := by
      obtain ⟨hvalid, hknown, hhome⟩ := hw.enrolled.listed s i (List.mem_of_mem_filter hi)
      exact ⟨hw, hvalid, hread hvalid, hknown, hhome⟩
    have hstep {C : World.Course} (hC : r.Evolving C) :
        Evolving C (holding ((w.liveInstances s).map .inst) (snapshots r (w.liveInstances s))) :=
      .holding (follows_snapshots hC _)
    obtain ⟨hw1, hkept, -⟩ := hr.run hstep hw h1
    have hfixed := ((hstep hr.fixing).leads h1 hw).2
    have hfirst : B.Leads w w1 :=
      .holding h1 fun w3 h3 => snapshots_leads hr (fun i hi => (hlive i hi).calls _) h3
    refine hfirst.trans (.holding h2 fun w3 h3 => ih ?_ (fun t ht => ?_) h3)
    · exact hw1.calls _
    · obtain ⟨hlt, hused, hread⟩ := hss t (.tail _ ht)
      have hsame := hfixed.script t hlt hused
      refine ⟨Nat.lt_of_lt_of_le hlt hfixed.size, hsame.path.symm ▸ hused, fun hvalid => ?_⟩
      have hvalid : (w.script t).isValid := hsame.isValid.symm.trans hvalid
      exact (hread hvalid).upholds hw.sound hvalid (hkept.upholds.trans (.calls ..))

theorem saveState_leads {result : Except ReloadFault SavedState} (hw : w.Settled used)
    (hhead : head < w.scripts.size) (hused : used (w.script head).path)
    (hread : ∀ s ∈ w.family head, (w.script s).isValid → w.ReadsElsewhere used s)
    (h : saveState r head keep w = some (result, w')) : B.Leads w w' := by
  replace h := of_get_bind h
  split at h
  · cases h
    exact .refl _
  · obtain ⟨instances, w1, h1, h⟩ := bind_some.1 h
    cases h
    refine .holding h1 fun w2 h2 => saveInstances_leads hr ?_ (fun s hs => ?_) h2
    · exact hw.calls _
    · obtain ⟨hlt, hpath⟩ := hw.sound.family hhead hs
      exact ⟨hlt, hpath.symm ▸ hused, fun hvalid => (hread s hs hvalid).upholds hw.sound hvalid
        (.calls ..)⟩

theorem failedReload_leads {path : String} {fault : ReloadFault} (hw : w.Settled used)
    (hhead : w.cache.find? path = some (w.head s)) (hused : used path)
    (hread : ∀ t ∈ w.family (w.head s), (w.script t).isValid → w.ReadsElsewhere used t)
    (h : reload r s keep w = some (.error fault, w')) : B.Leads w w' := by
  obtain ⟨saved, w1, h1, h⟩ := reload_run h
  generalize w.head s = head at h h1 hhead hread
  obtain ⟨hlt, hpath, -⟩ := hw.sound.cached path head hhead
  have hw0 := hw.calls ([.script head] :: w.held)
  have hsaved := saveState_leads hr hw0 hlt (hpath.symm ▸ hused) (fun t ht hvalid =>
    (hread t ht hvalid).upholds hw.sound hvalid (.calls ..)) h1
  have hstart := (Bearing.Leads.calls w _).trans hsaved
  cases saved with
  | error cause =>
    obtain ⟨-, hw'⟩ := h
    rw [hw']
    exact hstart.trans (.calls ..)
  | ok saved =>
    obtain ⟨w2, h2, hw'⟩ := h
    rw [hw']
    obtain ⟨hw1, hk1, -⟩ := hr.run (follows_saveState · head keep) hw0 h1
    have hcompiled := recompile_leads hr.toBears (hw1.calls (saved.cells :: w1.held))
      (hk1.cached path head hhead) (fun hok => by cases hok) h2
    exact hstart.trans ((Bearing.Leads.calls w1 _).trans (hcompiled.trans (.calls ..)))

end Live

/-! ### Failed reloads -/

/-- Functions of other files leave static variables of classes and instances alone. -/
def Rule.sparing (path : String) (T : ScriptId → Prop) (I : InstanceId → Prop) : Rule :=
  fun s _ _ w w' => (w.script s).path = path ∨ w.Spares T I w'

theorem Runner.minds_supervised (path : String) (T : ScriptId → Prop) (I : InstanceId → Prop) :
    (supervised (.sparing path T I)).Minds (World.sparing (· = path) T I) := by
  have hbears : (supervised (.sparing path T I)).Bears (World.sparing (· = path) T I) :=
    bears_watched (B := World.sparing (· = path) T I)
      (fun hfixed hfree hrule => ⟨hfixed, fun _ => hrule.resolve_left hfree⟩) _
  refine ⟨hbears, fixing_watched _ _, fun hw hfree h => ?_⟩
  have hfixed := ((fixing_watched (.sparing path T I) 0x100000000).execute _ _ _ _).leads h hw
  exact ⟨hfixed.2, fun _ => (allowed_of_watched h).resolve_left hfree⟩

namespace World

theorem Reached.ownTables {w : World} (h : w.Reached) : w.OwnTables := by
  induction h with
  | start h => exact .empty h.scripts
  | asked _ request _ run ih =>
    obtain ⟨events, hevents⟩ := (Live.evolving_perform request).leads run
    exact hevents.ownTables ih

def ClassOf (w : World) (path : String) (s : ScriptId) : Prop :=
  s < w.scripts.size ∧ (w.script s).path = path

/-- The instances of the classes of a file that are alive. -/
def InstanceOf (w : World) (path : String) (i : InstanceId) : Prop :=
  ∃ s, w.ClassOf path s ∧ i ∈ w.liveInstances s

/-- **A reload that fails changes nothing in the file**, provided that what is run of other files
leaves its state alone and that no accessor of its variables is a function of the file itself. -/
theorem Reached.failed_reload {w w' : World} (hw : w.Reached) {path : String} {s : ScriptId}
    {keep : Bool} {fault : ReloadFault} (hhead : w.cache.find? path = some (w.head s))
    (hvalid : (w.script (w.head s)).isValid)
    (hread : ∀ t ∈ w.family (w.head s), (w.script t).isValid → w.ReadsElsewhere (· = path) t)
    (h : Live.reload .standard s keep w = some (.error fault, w'))
    (hwatched : (Live.reload (.supervised (.sparing path (w.ClassOf path) (w.InstanceOf path)))
      s keep w).isSome) :
    ∀ t, w.ClassOf path t →
      (w.script t).Same (w'.script t) ∧
      w'.lambdaTable (w'.script t).lambdas = w.lambdaTable (w.script t).lambdas ∧
      (w'.script t).statics = (w.script t).statics ∧
      ∀ i ∈ w.liveInstances t, (w'.inst i).members = (w.inst i).members := by
  have hrun := (Live.follows_reload (Runner.below_standard _) s keep).eq_some hwatched h
  have hsettled : w.Settled (· = path) := by
    refine ⟨hw.sound.1, hw.enrolled, fun p hp => ?_⟩
    subst hp
    exact ⟨_, hhead, hvalid⟩
  obtain ⟨hfixed, hspares⟩ :=
    Live.failedReload_leads (Runner.minds_supervised _ _ _) hsettled hhead rfl hread hrun
  have hspares := hspares fun t ht => ht
  intro t ht
  have hsame := hfixed.script t ht.1 ht.2
  refine ⟨hsame, ?_, hspares.statics t ht, fun i hi => ?_⟩
  · obtain ⟨events, hevents⟩ := (Live.follows_reload (J := evolution)
      Runner.evolving_standard s keep).leads h
    have hcurrent := (hevents.ownTables hw.ownTables).current t (Nat.lt_of_lt_of_le ht.1
        hfixed.size)
    rw [hcurrent, hw.ownTables.current t ht.1, hsame.code]
  · rw [hspares.inst i ⟨t, ht, hi⟩]

/-! ### Reloading what cannot be read -/

def ofFile (path : String) (s : ScriptId) (_ : FunctionCode) (_ : Option InstanceId) (w _ : World) :
    Bool :=
  (w.script s).path == path

theorem watched_of_ofFile {w : World} {path : String} {s : ScriptId} {keep : Bool}
    {T : ScriptId → Prop} {I : InstanceId → Prop}
    (h : (Live.reload (.tested (ofFile path) 0x100000000) s keep w).isSome) :
    (Live.reload (.supervised (.sparing path T I)) s keep w).isSome := by
  have hbelow : (Runner.tested (ofFile path) 0x100000000).Below
      (.supervised (.sparing path T I)) :=
    Runner.below_watched (fun _ _ _ _ _ hpath => .inl (beq_iff_eq.1 hpath)) _
  exact (Live.follows_reload hbelow s keep).isSome h

/-- A file with a static variable and a variable is loaded and an instance made. Then its script is
to be compiled from a text that is no program. -/
def unreadable : List Request :=
  [.texts [("res://a.br", "one")]
      [("one",
        fileWith none [.variable 0 "n" true none none, .variable 1 "x" false none none] [] 2)],
    .load "res://a.br" false, .newObject 0 [], .setMember 0 "x" (.int 7),
    .setSource 0 (.text "broken")]

/-- The reload fails, and the instance has what it had. -/
theorem unreadable_failed_reload :
    ∃ w w' fault, Live.serve unreadable host = some ((), w) ∧
      Live.reload .standard 0 true w = some (.error fault, w') ∧
      ((w.inst 0).members[0]?.bind Value.int?) = some 7 ∧ (w'.inst 0).members = (w.inst 0).members ∧
      (w.script 0).Same (w'.script 0) ∧ (w'.script 0).statics = (w.script 0).statics := by
  obtain ⟨w, run, hcached, hhead, hfamily, hvalid, hgetters, hlive, hseven, htested, result, w',
    hrun, hresult⟩ :
      ∃ w, Live.serve unreadable host = some ((), w) ∧ w.cache.find? "res://a.br" = some 0 ∧
      w.head 0 = 0 ∧ w.family 0 = [0] ∧ (w.script 0).isValid ∧
        (∀ slot ∈ w.slots 0, slot.getter = none) ∧
      w.liveInstances 0 = [0] ∧ (w.inst 0).members[0]?.bind Value.int? = some 7 ∧
      (Live.reload (.tested (ofFile "res://a.br") 0x100000000) 0 true w).isSome ∧
      ∃ result w', Live.reload .standard 0 true w = some (result, w') ∧ result.toOption = none := by
    decide +kernel
  cases result with
  | ok _ => cases hresult
  | error fault =>
  have hreached : w.Reached := reached_host.serve (by simp [unreadable]) run
  have hclass : w.ClassOf "res://a.br" 0 := by
    obtain ⟨hlt, hpath, -⟩ := hreached.sound.1.cached _ _ hcached
    exact ⟨hlt, hpath⟩
  have hread (t : ScriptId) (ht : t ∈ w.family 0) (_ : (w.script t).isValid) :
      w.ReadsElsewhere (· = "res://a.br") t := by
    rw [hfamily, List.mem_singleton] at ht
    subst ht
    intro slot hslot getter hgetter
    cases (hgetters slot hslot).symm.trans hgetter
  obtain ⟨hsame, -, hstatics, hmembers⟩ := hreached.failed_reload (hhead.symm ▸ hcached)
    (hhead.symm ▸ hvalid) (hhead.symm ▸ hread) hrun (watched_of_ofFile htested) 0 hclass
  exact ⟨w, w', fault, run, hrun, hseven, hmembers 0 (hlive ▸ List.mem_singleton.2 rfl), hsame,
    hstatics⟩

/-- A file declares a variable that is read through a function. A second file extends it, and has a
function of that name which counts how often it is run. An instance of the second is made, and then
its script is to be compiled from a text that is no program. -/
def overridden : List Request :=
  [.texts [("res://b.br", "base"), ("res://d.br", "derived")]
      [("base", fileWith none
          [.variable 0 "x" false none (some "get_x"),
            .function 1 "get_x" false [.giveBack (.numbered 2)
              (some (.literal (.numbered 3) (.int 0)))]]
          [] 4),
        ("derived", fileWith (some "res://b.br")
          [.variable 0 "n" false (some (.literal (.numbered 1) (.int 0))) none,
            .function 2 "get_x" false
              [.expr (.numbered 3) (.assign (.numbered 4) (some .add) (.ident (.numbered 5) "n")
                  (.literal (.numbered 6) (.int 1))),
                .giveBack (.numbered 7) (some (.literal (.numbered 8) (.int 0)))]]
          [] 9)],
    .load "res://d.br" false, .newObject 0 [], .setSource 0 (.text "broken")]

/-- The reload of the second file fails, but saving the state has run its function: the instance has
counted one. -/
theorem overridden_counts_failed_reload :
    ∃ w w' fault c, Live.serve overridden host = some ((), w) ∧ w.Reached ∧
      w.cache.find? "res://d.br" = some (w.head 0) ∧ (w.script (w.head 0)).isValid ∧
      w.family (w.head 0) = [0] ∧ (w.script 0).code = some c ∧
      (∀ slot ∈ c.members.values, slot.getter = none ∧ slot.setter = none) ∧
      Live.reload .standard 0 true w = some (.error fault, w') ∧
      (Live.reload (.supervised (.sparing "res://d.br" (w.ClassOf "res://d.br")
        (w.InstanceOf "res://d.br"))) 0 true w).isSome ∧ 0 ∈ w.liveInstances 0 ∧
      (w.inst 0).members[1]?.bind Value.int? = some 0 ∧
      (w'.inst 0).members[1]?.bind Value.int? = some 1 := by
  obtain ⟨w, run, hcached, hhead, hfamily, hvalid, ⟨c, hc, hplain⟩, hlive, hzero, htested, result,
    w', hrun, hresult, hone⟩ : ∃ w, Live.serve overridden host = some ((), w) ∧
      w.cache.find? "res://d.br" = some 0 ∧ w.head 0 = 0 ∧ w.family 0 = [0] ∧ (w.script 0).isValid ∧
      (∃ c, (w.script 0).code = some c ∧
        ∀ slot ∈ c.members.values, slot.getter = none ∧ slot.setter = none) ∧
      w.liveInstances 0 = [0] ∧ (w.inst 0).members[1]?.bind Value.int? = some 0 ∧
      (Live.reload (.tested (ofFile "res://d.br") 0x100000000) 0 true w).isSome ∧
      ∃ result w', Live.reload .standard 0 true w = some (result, w') ∧ result.toOption = none ∧
        (w'.inst 0).members[1]?.bind Value.int? = some 1 := by
    decide +kernel
  cases result with
  | ok _ => cases hresult
  | error fault =>
  have hreached : w.Reached := reached_host.serve (by simp [overridden]) run
  exact ⟨w, w', fault, c, run, hreached, hhead.symm ▸ hcached, hhead.symm ▸ hvalid, hhead.symm ▸
    hfamily, hc, hplain, hrun, watched_of_ofFile htested, hlive ▸ List.mem_singleton.2 rfl,
    hzero, hone⟩

end World

end HotScript
