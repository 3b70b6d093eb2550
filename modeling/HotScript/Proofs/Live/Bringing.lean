import HotScript.Proofs.Live.Enrolment
import HotScript.Proofs.Live.Supervision

/-!
What bringing in files leaves alone.

Code that runs may ask for a file, and linking bases may. The file is then compiled and installed in
the middle of whatever is going on, and its static initializers are run. Nothing of the files in use
is touched by this, except by the code that runs (`World.Quiet`). A `World.Bearing` is a relation
that quiet steps keep to. If the code that is brought in does so too, so does bringing it in
(`Live.fullScript_leads`).
-/

namespace HotScript

namespace World

/-! ### Files in use -/

/-- Files are in use: the script of each is found, and it is valid. -/
def InUse (used : String → Prop) (w : World) : Prop :=
  ∀ path, used path → ∃ s, w.cache.find? path = some s ∧ (w.script s).isValid

/-- A project at some time, with files that are in use. -/
structure Settled (used : String → Prop) (w : World) : Prop where
  sound : w.Sound
  enrolled : w.Enrolled
  inUse : w.InUse used

variable {used : String → Prop} {w w1 w' : World}

section

variable (h : w.Settled used)
include h

theorem Settled.kept {replaced read : List String} (hs : w'.Sound)
    (he : w.Enrols w') (hk : w.Kept replaced read w') (hfree : ∀ path ∈ replaced, ¬used path) :
    w'.Settled used := by
  refine ⟨hs, he.enrolled h.enrolled, fun path hpath => ?_⟩
  obtain ⟨s, hs, hvalid⟩ := h.inUse path hpath
  obtain ⟨-, hhome, -⟩ := h.sound.cached path s hs
  have hsame := hk.script s (fun hmem => hfree _ hmem (hhome ▸ hpath)) hvalid
  exact ⟨s, hk.cached path s hs, hsame.isValid.trans hvalid⟩

theorem Settled.of_nil (hs : w'.Sound) (he : w.Enrols w') (hk : w.Kept [] [] w') :
    w'.Settled used :=
  h.kept hs he hk fun _ hmem => absurd hmem List.not_mem_nil

theorem Settled.still (hstill : w.Still w') (he : w.Enrols w') : w'.Settled used :=
  h.of_nil (hstill.keeps h.sound).1 he (hstill.keeps h.sound).2

theorem Settled.calls (held : List (List Cell)) : World.Settled used { w with held } :=
  h.still (stillness.calls w w.frames held w.depth w.log) (enrolment.calls ..)

theorem Settled.not_used {path : String} {s : ScriptId}
    (hs : w.cache.find? path = some s) (hinvalid : ¬(w.script s).isValid) : ¬used path := by
  intro hpath
  obtain ⟨t, ht, hvalid⟩ := h.inUse path hpath
  exact hinvalid (Option.some.inj (hs.symm.trans ht) ▸ hvalid)

end

/-! ### Quiet steps -/

/-- Nothing changes in the files that are in use, and in no instance. -/
structure Quiet (used : String → Prop) (w w' : World) : Prop where
  size : w.scripts.size ≤ w'.scripts.size
  script : ∀ s, s < w.scripts.size → used (w.script s).path → w'.script s = w.script s
  instances : w'.instances = w.instances

namespace Quiet

theorem refl (w : World) : w.Quiet used w := ⟨Nat.le_refl _, fun _ _ _ => rfl, rfl⟩

theorem trans (h : w.Quiet used w1) (h' : w1.Quiet used w') : w.Quiet used w' where
  size := Nat.le_trans h.size h'.size
  script s hs hused := by
    have hsame := h.script s hs hused
    exact (h'.script s (Nat.lt_of_lt_of_le hs h.size) (hsame ▸ hused)).trans hsame
  instances := h'.instances.trans h.instances

theorem of_scripts (hs : w'.scripts = w.scripts) (hi : w'.instances = w.instances) :
    w.Quiet used w' where
  size := Nat.le_of_eq (by rw [hs])
  script s _ _ := by rw [World.script, World.script, hs]
  instances := hi

theorem extends_ {path : String} (h : w.Extends path w') : w.Quiet used w' :=
  ⟨h.size, fun s hs _ => h.old s hs, h.instances⟩

theorem tends (h : w.Tends w') : w.Quiet used w' := by
  rw [h.frame]
  exact .of_scripts rfl rfl

variable {s : ScriptId}

theorem modifyScript (hs : ¬used (w.script s).path) (f : Script → Script) :
    w.Quiet used (w.modifyScript s f) := by
  refine ⟨Nat.le_of_eq Array.size_modify.symm, fun t _ hused => ?_, rfl⟩
  rw [script_modifyScript, if_neg]
  rintro ⟨rfl, -⟩
  exact hs hused

theorem registerGlobal (w : World) (s : ScriptId) : w.Quiet used (w.registerGlobal s) := by
  unfold World.registerGlobal
  split
  · exact .refl w
  · exact .of_scripts rfl rfl

theorem swapped {scripts : List ScriptId} {parts : List Part} (h : Swapped scripts parts w w')
    (hparts : ∀ s ∈ parts.map (·.1), ¬used (w.script s).path) : w.Quiet used w' where
  size := Nat.le_of_eq h.size.symm
  script s _ hused := h.others s fun hs => hparts s hs hused
  instances := h.instances

end Quiet

end World

variable {used : String → Prop} {r : Runner}

/-- A runner that keeps classes in use and enrols instances. -/
structure Runner.Orderly (r : Runner) : Prop where
  keeping : r.Keeping
  enrolling : r.Evolving World.enrolment.toCourse

theorem Runner.Orderly.run (hr : r.Orderly) {α : Type} {m : Live α} {a : α} {w w' : World}
    (hm : ∀ {C : World.Course}, r.Evolving C → Live.Evolving C m) (hw : w.Settled used)
    (h : m w = some (a, w')) : w'.Settled used ∧ w.Kept [] [] w' ∧ w.Enrols w' := by
  obtain ⟨hs, hkept⟩ := (hm hr.keeping.evolving).leads h hw.sound
  have henrols := (hm hr.enrolling).leads h
  exact ⟨hw.of_nil hs henrols hkept, hkept, henrols⟩

/-- A relation that quiet steps keep to. -/
structure World.Bearing (used : String → Prop) where
  Leads : World → World → Prop
  trans : ∀ {w w1 w'}, Leads w w1 → Leads w1 w' → Leads w w'
  quiet : ∀ {w w' : World}, w.Quiet used w' → Leads w w'

variable {B : World.Bearing used}

namespace World.Bearing.Leads

variable {w w1 w' : World}

theorem refl (w : World) : B.Leads w w := B.quiet (.refl w)

theorem trans (h : B.Leads w w1) (h' : B.Leads w1 w') : B.Leads w w' := B.trans h h'

theorem calls (w : World) (held : List (List Cell)) : B.Leads w { w with held } :=
  B.quiet (.of_scripts rfl rfl)

theorem cache (w : World) (cache : Cache) : B.Leads w { w with cache } :=
  B.quiet (.of_scripts rfl rfl)

theorem heap (w : World) (heap : Heap) :
    B.Leads w (w.withHeap heap) := B.quiet (.of_scripts rfl rfl)

/-- What keeps to a bearing between holding on to cells and letting go of them. -/
theorem holding {α : Type} {cells : List Cell} {m : Live α} {a : α}
    (h : Live.holding cells m w = some (a, w'))
    (hm : ∀ w2, m { w with held := cells :: w.held } = some (a, w2) →
      B.Leads { w with held := cells :: w.held } w2) : B.Leads w w' := by
  obtain ⟨w2, hrun, rfl⟩ := Live.holding_eq h
  exact (calls w _).trans ((hm w2 hrun).trans (calls w2 _))

end World.Bearing.Leads

/-- A runner that keeps to a bearing when it brings in files and runs static functions of files that
are not in use. -/
structure Runner.Bears (B : World.Bearing used) (r : Runner) : Prop extends r.Orderly where
  full : ∀ {path : String} {w w' : World} {result : Except ScriptFault ScriptId}, w.Settled used →
    r.full path false w = some (result, w') → B.Leads w w'
  execute : ∀ {s : ScriptId} {f : FunctionCode} {w w' : World} {v : Except CallFault Value},
    w.Settled used → ¬used (w.script s).path → r.execute s f none [] w = some (v, w') → B.Leads w w'

/-- Projects in which files are in use keep to a bearing and have those files still. -/
def World.Bearing.drift (B : World.Bearing used) : World.Drift where
  Leads w w' := w.Settled used → w'.Settled used ∧ B.Leads w w'
  refl w hw := ⟨hw, .refl w⟩
  trans h h' hw :=
    let ⟨hw1, hl⟩ := h hw
    let ⟨hw', hl'⟩ := h' hw1
    ⟨hw', hl.trans hl'⟩

theorem Runner.Bears.drifting (hb : r.Bears B) (path : String) :
    Live.Evolving B.drift (r.full path false) :=
  .of_leads fun _ _ _ h hw => ⟨(hb.run (·.full path) hw h).1, hb.full hw h⟩

namespace Live

open World

/-! ### Files that are not in use have nothing to save -/

section

variable {r : Runner} {w w' : World} {head : ScriptId}

theorem saveInstances_nil {ss : List ScriptId} (h : ∀ s ∈ ss, (w.script s).instances.values = []) :
    saveInstances r ss w = some ([], w) := by
  induction ss generalizing w with
  | nil => rfl
  | cons s rest ih =>
    have hlive : w.liveInstances s = [] := by
      rw [liveInstances, h s (.head _)]
      rfl
    have hrest := ih (w := { w with held := savedCells [] :: w.held }) fun t ht =>
      h t (.tail _ ht)
    refine bind_some.2 ⟨w, w, rfl, bind_some.2 ⟨[], w, ?_, bind_some.2 ⟨[], w, ?_, rfl⟩⟩⟩
    · rw [hlive]
      rfl
    · exact bind_some.2 ⟨_, _, rfl, bind_some.2 ⟨_, _, hrest, rfl⟩⟩

theorem saveState_blank {keep : Bool} {result : Except ReloadFault SavedState} (hw : w.Enrolled)
    (hblank : ∀ s ∈ w.family head, (w.script s).isValid = false)
    (h : saveState r head keep w = some (result, w')) :
    w' = w ∧ ∃ saved, result = .ok saved ∧ saved.instances = [] ∧
      ∀ e ∈ saved.statics, e.2 = [] := by
  have hnone (s : ScriptId) (hs : s ∈ w.family head) : (w.script s).instances.values = [] :=
    List.eq_nil_iff_forall_not_mem.2 fun i hi =>
      Bool.false_ne_true ((hblank s hs).symm.trans (hw.listed s i hi).1)
  have hlive : (w.family head).flatMap w.liveInstances = [] := by
    refine List.flatMap_eq_nil_iff.2 fun s hs => ?_
    rw [liveInstances, hnone s hs]
    rfl
  replace h := of_get_bind h
  rw [hlive] at h
  obtain ⟨instances, w1, h1, h⟩ := bind_some.1 h
  obtain ⟨w2, hrun, rfl⟩ := holding_eq h1
  cases hrun.symm.trans (saveInstances_nil hnone)
  cases h
  refine ⟨rfl, _, rfl, rfl, fun e he => ?_⟩
  obtain ⟨s, hs, rfl⟩ := List.mem_map.1 he
  rw [savedStatics, (hw.blank s (hblank s hs)).1]

variable {u : Unit}

theorem restoreStatics_blank {statics : List (String × List (String × Value))}
    (hstatics : ∀ e ∈ statics, e.2 = []) (h : restoreStatics head statics w = some (u, w')) :
    w' = w := by
  induction statics generalizing w with
  | nil =>
    cases h
    rfl
  | cons e rest ih =>
    obtain ⟨qualified, values⟩ := e
    obtain rfl : values = [] := hstatics _ (.head _)
    obtain ⟨_, w1, h1, hrest⟩ := bind_some.1 h
    replace h1 := of_get_bind h1
    obtain rfl : w1 = w := by
      cases hfind : w.findClass? head qualified with
      | some s =>
        rw [hfind] at h1
        cases h1
        rfl
      | none =>
        rw [hfind] at h1
        cases h1
        rfl
    exact ih (fun e he => hstatics e (.tail _ he)) hrest

theorem restoreState_blank {saved : SavedState} (hinstances : saved.instances = [])
    (hstatics : ∀ e ∈ saved.statics, e.2 = []) (h : restoreState r head saved w = some (u, w')) :
    w' = w := by
  rw [restoreState, hinstances] at h
  obtain ⟨_, w1, h1, h⟩ := bind_some.1 h
  cases h
  exact restoreStatics_blank hstatics h1

end

/-! ### Running static initializers -/

section

variable {r : Runner} (hb : r.Bears B) {w w' : World} {path : String} {s : ScriptId} {u : PUnit}
include hb

theorem executes_leads (hfree : ¬used path) {fs : List FunctionCode} (hw : w.Settled used)
    (hs : (w.script s).isValid) (hpath : (w.script s).path = path)
    (h : (fs.forM fun f => do let _ ← (r.execute s f none []).run) w = some (u, w')) :
    B.Leads w w' := by
  induction fs generalizing w with
  | nil =>
    cases h
    exact .refl _
  | cons f rest ih =>
    obtain ⟨_, w1, h1, h⟩ := bind_some.1 h
    obtain ⟨v, w2, h2, h1⟩ := bind_some.1 h1
    cases h1
    obtain ⟨hw1, hk, -⟩ := hb.run (·.execute s f none []) hw h2
    have hsame := hk.script s List.not_mem_nil hs
    refine (hb.execute hw (hpath.symm ▸ hfree) h2).trans ?_
    exact ih hw1 (hsame.isValid.trans hs) (hsame.path.trans hpath) h

theorem runStatics_leads (hfree : ¬used path) (n : Nat) {u : Unit} (hw : w.Settled used)
    (hs : (w.script s).isValid) (hpath : (w.script s).path = path)
    (h : runStatics r n s w = some (u, w')) : B.Leads w w' := by
  induction n generalizing s w w' u with
  | zero =>
    cases h
    exact .refl _
  | succ n ih =>
    replace h := of_get_bind h
    extract_lets run at h
    split at h
    · have hstill : w.Still (w.modifyScript s fun c => { c with staticsReady := true }) :=
        .modifyScript w s fun _ => rfl
      have hw1 := hw.still hstill (World.enrolment.script w s _ fun _ => ⟨rfl, rfl, rfl⟩)
      have hflag : B.Leads w (w.modifyScript s fun c => { c with staticsReady := true }) :=
        B.quiet (.modifyScript (hpath.symm ▸ hfree) _)
      generalize w.modifyScript s _ = w1 at h hstill hw1 hflag
      have hsame := hstill.script s
      have hs1 : (w1.script s).isValid := hsame.isValid.trans hs
      have hpath1 : (w1.script s).path = path := hsame.path.trans hpath
      have hrun {v v' : World} {u : Unit} (hv : v.Settled used) (hk : w1.Kept [] [] v)
          (h : run () v = some (u, v')) : B.Leads v v' := by
        have hsame := hk.script s List.not_mem_nil hs1
        cases hcode : (w.script s).code with
        | none =>
          simp only [run, hcode] at h
          cases h
          exact .refl _
        | some code =>
          simp only [run, hcode] at h
          exact executes_leads hb hfree hv (hsame.isValid.trans hs1) (hsame.path.trans hpath1) h
      obtain ⟨_, _, h1, h⟩ := bind_some.1 h
      cases h1
      refine hflag.trans ?_
      cases hbase : (w.script s).base.filter fun base =>
        (w.script base).path == (w.script s).path with
      | none =>
        rw [hbase] at h
        exact hrun hw1 (.refl _ _ _) h
      | some base =>
        rw [hbase] at h
        obtain ⟨hlink, hhome⟩ := Option.filter_eq_some_iff.1 hbase
        have hvalid := hw.sound.valid_base hs hlink
        have hsame := hstill.script base
        obtain ⟨_, w2, h2, h⟩ := bind_some.1 h
        obtain ⟨hw2, hk2, -⟩ := hb.run (follows_runStatics · n base) hw1 h2
        refine (ih hw1 (hsame.isValid.trans hvalid) ?_ h2).trans (hrun hw2 hk2 h)
        rw [hsame.path, beq_iff_eq.1 hhome, hpath]
    · cases h
      exact .refl _

theorem forM_runStatics_leads (hfree : ¬used path) {n : Nat} {ss : List ScriptId}
    (hw : w.Settled used) (hss : ∀ s ∈ ss, (w.script s).isValid ∧ (w.script s).path = path)
    (h : (ss.forM (runStatics r n)) w = some (u, w')) : B.Leads w w' := by
  induction ss generalizing w with
  | nil =>
    cases h
    exact .refl _
  | cons s rest ih =>
    obtain ⟨_, w1, h1, h⟩ := bind_some.1 h
    obtain ⟨hs, hpath⟩ := hss s (.head _)
    obtain ⟨hw1, hk, -⟩ := hb.run (follows_runStatics · n s) hw h1
    refine (runStatics_leads hb hfree n hw hs hpath h1).trans (ih hw1 (fun t ht => ?_) h)
    obtain ⟨hvalid, hpath⟩ := hss t (.tail _ ht)
    have hsame := hk.script t List.not_mem_nil hvalid
    exact ⟨hsame.isValid.trans hvalid, hsame.path.trans hpath⟩

end

/-! ### Installing and compiling -/

theorem quiet_shallow {path : String} {result : Except LoadFault ScriptId} (hw : w.work.Tended)
    (h : shallow path none w = some (result, w')) : w.Quiet used w' := by
  rcases shallow_run hw h with ⟨s, -, -, rfl⟩ | ⟨-, work, htends, h⟩
  · exact .refl _
  · rcases h with ⟨fault, -, rfl⟩ | ⟨made, source, houtlined, -, rfl⟩
    · exact .tends htends
    · have hmade : World.Quiet used { w with work } _ :=
        .extends_ (houtlined.withSource source).fresh
      exact (Quiet.tends htends).trans (hmade.trans (.of_scripts rfl rfl))

section

variable {r : Runner} (hb : r.Bears B) {w w' : World} {path : String} {head s : ScriptId}
include hb

variable {result : Except ReloadFault Unit}

section

variable (hw : w.Settled used)

include hw

theorem install_leads {code : FileCode} (hhead : w.cache.find? path = some head)
    (hcode : code.Sound) (hkeyed : ∀ c ∈ code.classes, c.Keyed)
    (hfree : result = .ok () → ¬used path) (h : install r head code w = some (result, w')) :
    B.Leads w w' := by
  obtain ⟨rest, cells, w1, linked, w2, hpicked, hscripts, -, h2, h⟩ := install_run hw.sound hhead h
  have hw1 : (w.scriptsFor head code).2 = w1 := congrArg Prod.snd hscripts
  have hs1 := hpicked.fresh.sound hw.sound
  have hsettled1 : w1.Settled used :=
    hw.of_nil hs1 (hw1 ▸ World.Journey.scriptsFor (J := World.enrolment) w head code)
      hpicked.fresh.kept
  have hsettled1' := hsettled1.calls (cells :: w1.held)
  obtain ⟨hsettled2, hk2, -⟩ := hb.run (fun hC => follows_linkBases hC.full _ _ _ _) hsettled1' h2
  have hlinked : B.Leads w w2 := (B.quiet (.extends_ hpicked.fresh)).trans
    ((Bearing.Leads.calls w1 _).trans ((follows_linkBases hb.drifting _ _ _ _).leads h2
      hsettled1').2)
  cases linked with
  | error fault =>
    obtain ⟨-, rfl⟩ := h
    exact hlinked.trans (.calls ..)
  | ok bases =>
  obtain ⟨rfl, w3, w4, h3, h4, rfl⟩ := h
  have hfree := hfree rfl
  obtain ⟨hbases, -⟩ := linkBases_some hb.keeping hsettled1'.sound (hpicked.length_eq hcode) h2
  have hready := hpicked.ready hw.sound hhead hcode ((hs1.calls _).2.trans hk2) (hbases bases rfl)
  have hplace (s : ScriptId) (hs : s ∈ head :: rest) := hready.at_path hsettled2.sound hs
  have hswapped := swapped_of_forM (fun s hs => (hplace s (hready.map_partsOf ▸ hs)).1) h3
  have hsealed := hswapped.sealed hready.map_partsOf (hplace head (.head _)).1 code
  have hquiet : w2.Quiet used w3 := .swapped hswapped fun s hs =>
    (hplace s (hready.map_partsOf ▸ hs)).2.symm ▸ hfree
  have hhead3 : (w3.script head).path = path :=
    (hswapped.frame head).1.trans (hplace head (.head _)).2
  -- from here on the file is in use itself, and its classes are valid
  have hparts (part : Part) (hpart : part ∈ partsOf (head :: rest) code bases) : part.2.1.Keyed :=
    hkeyed _ (Array.mem_toList_iff.1 (List.of_mem_zip (List.of_mem_zip hpart).2).1)
  have henrols := World.Enrols.trans ((evolving_swaps (J := World.enrolment) hparts).leads h3)
    (World.enrolment.place w3 head (fun x =>
      { x with nested := (none :: rest.map some).toArray, file := some code })
      fun _ => ⟨⟨rfl, rfl, rfl, rfl⟩, rfl, rfl⟩)
  have hsettled5 := hsettled2.kept (hsealed.sound hready hsettled2.sound) henrols
    (hsealed.kept hready hsettled2.sound) fun p hp => List.mem_singleton.1 hp ▸ hfree
  have hstatics := forM_runStatics_leads hb hfree hsettled5 (fun s hs => ?_) h4
  · have hseal : B.Leads w3 (w3.modifyScript head fun x =>
        { x with nested := (none :: rest.map some).toArray, file := some code }) :=
      B.quiet (.modifyScript (hhead3.symm ▸ hfree) _)
    refine hlinked.trans ((B.quiet hquiet).trans (hseal.trans ?_))
    exact hstatics.trans ((B.quiet (.registerGlobal w4 head)).trans (.calls ..))
  · obtain ⟨_, _, -, hc, -⟩ := hsealed.carries s hs
    exact ⟨hc.valid, (hsealed.path s).trans (hplace s hs).2⟩

theorem recompile_leads (hhead : w.cache.find? path = some head)
    (hfree : result = .ok () → ¬used path) (h : recompile r head w = some (result, w')) :
    B.Leads w w' := by
  obtain ⟨-, hpath, -⟩ := hw.sound.cached path head hhead
  replace h := of_get_bind h
  obtain ⟨compiled, w1, h1, h⟩ := bind_some.1 h
  rw [hpath] at h1
  obtain ⟨htends, hcompiled⟩ := compile_some hw.sound.work h1
  have hkept := htends.kept hw.sound
  refine (B.quiet (.tends htends)).trans ?_
  cases compiled with
  | error fault =>
    cases h
    exact .refl _
  | ok code =>
    obtain ⟨-, hcode, -⟩ := hcompiled code rfl
    have hw1 : w1.Settled used := hw.of_nil (htends.calm.sound hw.sound)
      ((evolving_compile (J := World.enrolment) _ _).leads h1) hkept
    exact install_leads hb hw1 (hkept.cached path head hhead) hcode (keyed_of_compile h1) hfree h

theorem reload_leads {keep : Bool}
    (hhead : w.cache.find? path = some (w.head s)) (hinvalid : ¬(w.script (w.head s)).isValid)
    (h : reload r s keep w = some (result, w')) : B.Leads w w' := by
  obtain ⟨saved, w1, h1, h⟩ := reload_run h
  generalize w.head s = head at h h1 hhead hinvalid
  have hfree := hw.not_used hhead hinvalid
  obtain ⟨hlt, hpath, -⟩ := hw.sound.cached path head hhead
  have hblank (t : ScriptId) (ht : t ∈ w.family head) : (w.script t).isValid = false := by
    obtain ⟨-, hhome⟩ := hw.sound.family hlt ht
    refine Bool.eq_false_iff.2 fun hvalid => hinvalid ?_
    obtain ⟨head', hhead', hvalid'⟩ := hw.sound.head t hvalid
    rw [hhome, hpath, hhead] at hhead'
    exact Option.some.inj hhead' ▸ hvalid'
  have hw0 := hw.calls ([.script head] :: w.held)
  obtain ⟨rfl, saved, rfl, hinstances, hstatics⟩ := saveState_blank hw0.enrolled hblank h1
  obtain ⟨w2, h2, h⟩ := h
  have hcompiled := recompile_leads hb (hw.calls (saved.cells :: [.script head] :: w.held)) hhead
    (fun _ => hfree) h2
  have hstart := (Bearing.Leads.calls w _).trans hcompiled
  cases result with
  | error fault =>
    cases h
    exact hstart.trans (.calls ..)
  | ok _ =>
    obtain ⟨w3, h3, rfl⟩ := h
    cases restoreState_blank hinstances hstatics h3
    exact hstart.trans (.calls ..)

/-! ### The script of a file -/

theorem finishFile_leads {u : Unit} (h : finishFile r path w = some (u, w')) : B.Leads w w' := by
  replace h := of_get_bind h
  obtain ⟨_, w1, h1, h⟩ := bind_some.1 h
  have hleads : B.Leads w w1 := by
    cases h1
    exact .cache ..
  have hw1 : w1.Settled used := by
    have hfinish := w.keeps_finish path ((w.cache.finish path).references.erase path) hw.sound
    cases h1
    exact hw.of_nil hfinish.1 (World.enrolment.cache ..) hfinish.2
  exact hleads.trans ((Follows.forM (fun other => (hb.drifting other).done) _).leads h hw1).2

theorem compileFile_leads {result : Except ScriptFault ScriptId}
    (hs : w.cache.find? path = some s) (hinvalid : ¬(w.script s).isValid)
    (h : compileFile r path s w = some (result, w')) : B.Leads w w' := by
  rcases compileFile_run h with ⟨-, rfl, -⟩ | ⟨-, reloaded, w2, h2, h⟩
  · exact .refl _
  have hfree := hw.not_used hs hinvalid
  have hcompiling (v : World) (compiling : List String) (hv : v.Settled used) :
      (v.withCompiling compiling).Settled used :=
    ⟨(v.calm_compiling compiling).sound hv.sound, (World.enrolment.cache v _).enrolled hv.enrolled,
      hv.inUse⟩
  have hw1 := hcompiling w (w.cache.compiling ++ [path]) hw
  have hhead := hw1.sound.head_of_cached hs
  have hcached := hs.trans (congrArg some hhead.symm)
  have hleads := reload_leads hb hw1 hcached (hhead.symm ▸ hinvalid) h2
  obtain ⟨hs2, hk2, -⟩ := reload_some hb.keeping hw1.sound hcached h2
  have hw2 := hw1.kept hs2 ((follows_reload hb.enrolling s true).leads h2) hk2
    fun p hp => List.mem_singleton.1 hp ▸ hfree
  have hw3 := hcompiling w2 (w2.cache.compiling.filter (· != path)) hw2
  have hdone : B.Leads w2 (w2.withCompiling (w2.cache.compiling.filter (· != path))) := .cache ..
  refine (Bearing.Leads.cache ..).trans (hleads.trans (hdone.trans ?_))
  rcases h with ⟨fault, -, rfl⟩ | ⟨-, -, h4⟩
  · exact .refl _
  · exact finishFile_leads hb hw3 h4

theorem fullScript_leads {result : Except ScriptFault ScriptId}
    (h : fullScript r path false w = some (result, w')) : B.Leads w w' := by
  replace h := of_get_bind h
  generalize Option.or _ _ = found at h
  cases found with
  | some s =>
    cases h
    exact .refl _
  | none =>
  obtain ⟨found, w1, h1, h⟩ := bind_some.1 h
  refine (B.quiet (quiet_shallow hw.sound.work h1)).trans ?_
  obtain ⟨hs1, hk1, hentered⟩ := shallow_some hw.sound h1
  have hw1 := hw.of_nil hs1 ((evolving_shallow (J := World.enrolment) _ _).leads h1) hk1
  cases found with
  | error fault =>
    cases h
    exact .refl _
  | ok s =>
  refine Bearing.Leads.holding h fun w2 hrun => ?_
  have hw1' := hw1.calls ([.script s] :: w1.held)
  obtain ⟨_, _, h2, hrun⟩ := bind_some.1 (show (get >>= _ : Live _) _ = _ from hrun)
  cases h2
  split at hrun
  · obtain ⟨_, w3, h3, hrun⟩ := bind_some.1 hrun
    cases hrun
    exact finishFile_leads hb hw1' h3
  · next hinvalid => exact compileFile_leads hb hw1' (hentered s rfl).1 hinvalid hrun

end

end

end Live

/-! ### Files in use stay as they are -/

namespace World

/-- The classes of the files that are in use are the same, also those that are not valid. -/
structure Fixed (used : String → Prop) (w w' : World) : Prop where
  size : w.scripts.size ≤ w'.scripts.size
  script : ∀ s, s < w.scripts.size → used (w.script s).path → (w.script s).Same (w'.script s)

namespace Fixed

variable {w w1 w' : World}

theorem trans (h : w.Fixed used w1) (h' : w1.Fixed used w') : w.Fixed used w' where
  size := Nat.le_trans h.size h'.size
  script s hs hused := by
    have hsame := h.script s hs hused
    exact hsame.trans (h'.script s (Nat.lt_of_lt_of_le hs h.size) (hsame.path.symm ▸ hused))

theorem quiet (h : w.Quiet used w') : w.Fixed used w' :=
  ⟨h.size, fun s hs hused => h.script s hs hused ▸ .refl _⟩

theorem still (h : w.Still w') : w.Fixed used w' :=
  ⟨Nat.le_of_eq h.size.symm, fun s _ _ => h.script s⟩

end Fixed

def fixity (used : String → Prop) : Bearing used where
  Leads := Fixed used
  trans := .trans
  quiet := .quiet

def fixing (used : String → Prop) : Course :=
  .meet stillness enrolment.toCourse Still.lose Enrols.lose
    (fun w w' => w.Settled used → w'.Settled used ∧ w.Fixed used w')
    (fun h h' hw =>
      let ⟨hw1, hf⟩ := h hw
      let ⟨hw', hf'⟩ := h' hw1
      ⟨hw', hf.trans hf'⟩)
    fun hstill henrols hw => ⟨hw.still hstill henrols, .still hstill⟩

end World

namespace Runner

variable (rule : Rule) (n : Nat)

theorem fixing_within : (within n).Evolving (World.fixing used) := by
  induction n with
  | zero => exact ⟨fun _ _ _ _ => .sure .failure, fun _ => .failure⟩
  | succ n ih =>
    have hbears : (within n).Bears (World.fixity used) :=
      ⟨⟨keeping_within n, evolving_within n⟩, fun hw h => ((ih.full _).leads h hw).2,
        fun hw _ h => ((ih.execute _ _ _ _).leads h hw).2⟩
    refine ⟨fun _ _ _ _ => Attempt.evolving_execute ih _ _ _ _, fun path =>
      .of_leads fun w _ w' h hw => ?_⟩
    have horderly : (within (n + 1)).Orderly := ⟨keeping_within _, evolving_within _⟩
    have hsettled := (horderly.run (·.full path) hw h).1
    exact ⟨hsettled, Live.fullScript_leads hbears hw h⟩

theorem Follows.keeping {r r' : Runner} (h : r.Below r') (hr : r'.Keeping) : r.Keeping :=
  ⟨h.evolving hr.evolving, fun hw hrun => hr.finds hw ((h.full _).same hrun)⟩

theorem orderly_watched : (watched rule n).Orderly :=
  ⟨(below_within rule n).keeping (keeping_within n), (below_within rule n).evolving
    (evolving_within n)⟩

theorem fixing_watched : (watched rule n).Evolving (World.fixing used) :=
  (below_within rule n).evolving (fixing_within n)

/-- If a rule makes the static functions of files that are not in use keep to a bearing, bringing in
files under watch keeps to it, to any depth. -/
theorem bears_watched {rule : Rule}
    (hrule : ∀ {s : ScriptId} {f : FunctionCode} {w w' : World}, w.Fixed used w' →
      ¬used (w.script s).path → rule s f none w w' → B.Leads w w') (n : Nat) :
    (watched rule n).Bears B := by
  induction n with
  | zero =>
    refine ⟨orderly_watched rule 0, fun _ h => ?_, fun _ _ h => ?_⟩
    · cases h
    · cases h
  | succ n ih =>
    refine ⟨orderly_watched rule _, fun hw h => ?_, fun hw hfree h => ?_⟩
    · exact Live.fullScript_leads ih hw h
    · have hfixed := ((fixing_watched rule (n + 1)).execute _ _ _ _).leads h hw
      exact hrule hfixed.2 hfree (allowed_of_watched h)

end Runner

end HotScript
