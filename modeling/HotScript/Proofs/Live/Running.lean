import HotScript.Proofs.Live.Course
import HotScript.Proofs.Lower.Versions

/-!
Everything that is done on a running project goes by steps.

A `World.Journey` is a course that also allows what happens beside running code. Installing,
reloading and bringing in files keep to every journey, and the runners of growing depth close the
circle (`Runner.evolving_within`). That one state can be reached from another by steps is a journey
(`World.evolution`).
-/

namespace HotScript

/-- Every static variable of a class has a place in the storage. -/
def ClassCode.Stores (c : ClassCode) (statics : Array Value) : Prop :=
  ∀ slot ∈ c.statics.values, slot.index < statics.size

/-- A course that also allows what is done to a project beside running code. -/
structure World.Journey extends World.Course where
  work : ∀ (w : World) (work : Workspace), Leads w { w with work }
  cache : ∀ (w : World) (cache : Cache), Leads w { w with cache }
  /-- A class changes in something other than its version, its instances and its static
  variables. -/
  place : ∀ (w : World) (s : ScriptId) (f : Script → Script),
    (∀ x : Script, x.SameVersion (f x) ∧ (f x).instances = x.instances ∧
      (f x).statics = x.statics) →
    Leads w (w.modifyScript s f)
  added : ∀ (w : World) (path qualified name : String), Leads w (w.addScript path qualified name).2
  installed : ∀ (w : World) (s : ScriptId) (c : ClassCode) (base : Option ScriptId)
    (scripts : List ScriptId) (statics : Array Value), s < w.scripts.size → c.Keyed →
    c.Stores statics → Leads w (w.swapClass s c base scripts statics)

/-- One state can be reached from another by steps. -/
def World.Leads (w w' : World) : Prop := ∃ events, w.Evolves events w'

namespace World.Leads

theorem refl (w : World) : w.Leads w := ⟨[], .refl w⟩

variable {w w1 w' : World}

theorem trans (h : w.Leads w1) (h' : w1.Leads w') : w.Leads w' :=
  let ⟨_, h⟩ := h
  let ⟨_, h'⟩ := h'
  ⟨_, h.trans h'⟩

theorem step {e : List CodeEvent} (h : w.Step e w') : w.Leads w' := ⟨e, .single h⟩

theorem script {s : ScriptId} {f : Script → Script} (same : ∀ x : Script, x.SameVersion (f x)) :
    w.Leads (w.modifyScript s f) :=
  .step (.script _ _ _ same)

end World.Leads

theorem Script.Same.sameVersion {x y : Script} (h : x.Same y) : x.SameVersion y :=
  ⟨h.code, h.base, h.isValid, h.lambdas⟩

def World.evolution : World.Journey where
  Leads := World.Leads
  refl := .refl
  trans := .trans
  calls w frames held depth log := .step (.calls w frames held depth log)
  heap _ _ := .step (.work ..)
  objects _ _ _ _ := .step (.objects ..)
  born {w _ _ _ w'} _ _ h := by
    have hborn : w.Leads w' := by
      refine .trans ?_ h
      refine .trans ?_ (.script fun _ => ⟨rfl, rfl, rfl, rfl⟩)
      exact .trans (.step (.attached _ _)) (.step (.objects _ _))
    refine ⟨hborn, hborn.trans (.trans ?_ (.script fun _ => ⟨rfl, rfl, rfl, rfl⟩))⟩
    exact .trans (.step (.inst _ _ _)) (.step (.objects _ _))
  inst _ _ _ _ := .step (.inst ..)
  closure _ _ named := .step (.closure _ _ named)
  made w s place captures bound f known entry :=
    .step (.made w s place captures bound f known entry)
  script _ _ _ same := .script fun x => (same x).1.sameVersion
  work _ _ := .step (.work ..)
  cache _ _ := .step (.cache ..)
  place _ _ _ same := .script fun x => (same x).1
  added _ _ _ _ := .step (.added ..)
  installed w s c base scripts statics known _ _ :=
    .step (.installed w s c base scripts statics known)

variable {J : World.Journey}

/-! ### Units and scripts of files -/

namespace World.Journey

theorem dressed (J : World.Journey) {w : World} {s : ScriptId} {f : Script → Script}
    (same : ∀ x : Script, x.SameVersion (f x) ∧ (f x).instances = x.instances ∧
      (f x).statics = x.statics := by
      exact fun _ => ⟨⟨rfl, rfl, rfl, rfl⟩, rfl, rfl⟩) : J.Leads w (w.modifyScript s f) :=
        J.place _ _ _ same

theorem foldl {β γ : Type} (world : γ → World) {f : γ → β → γ}
    (h : ∀ acc b, J.Leads (world acc) (world (f acc b))) (bs : List β) (acc : γ) :
    J.Leads (world acc) (world (bs.foldl f acc)) :=
  Drift.Leads.foldl world h bs acc

theorem dropUnits (n : Nat) (paths : List String) (w : World) :
    J.Leads w (World.dropUnits n paths w) := by
  induction n generalizing paths w with
  | zero => exact J.refl w
  | succ n ih =>
    cases paths with
    | nil => exact J.refl w
    | cons path pending => exact J.trans (J.work ..) (J.trans (J.cache ..) (ih _ _))

theorem removeUnit (w : World) (path : String) : J.Leads w (w.removeUnit path) := dropUnits ..

theorem addFile (w : World) (tree : Tree) : J.Leads w (w.addFile tree).2 := by
  refine J.trans (J.added w _ _ _) (J.trans (foldl Prod.snd ?_ _ (#[none], _))
    (J.trans (foldl id ?_ _ _) (J.dressed)))
  · intro acc c
    exact J.added ..
  · intro w c
    split
    · refine J.trans ?_ (J.dressed)
      exact J.dressed
    · exact J.refl w

end World.Journey

namespace Live

theorem Follows.onWork {α : Type} (f : Workspace → Option (α × Workspace)) :
    Evolving J.toCourse (onWork f) := by
  intro w a w' h
  obtain ⟨work, -, rfl⟩ := onWork_some h
  exact ⟨h, J.work ..⟩

variable (path : String) (source : Source)

theorem evolving_shallow (owner : Option String) : Evolving J.toCourse (shallow path owner) := by
  have hrest : Evolving J.toCourse (shallow path none) := by
    refine .bind .get fun w => ?_
    split
    · exact .pure _
    · refine .bind (.onWork _) fun found => ?_
      split
      · exact .pure _
      · refine .get_bind fun w => ?_
        split
        · exact .pure _
        · exact .pure _
        · rename_i tree source _ _
          have hfile : J.Leads w _ := World.Journey.addFile w tree
          refine .set_bind (J.trans hfile (J.trans ?_ (J.cache ..))) (.pure _)
          exact J.dressed
  cases owner with
  | none => exact hrest
  | some owner => exact .bind (.modify fun _ => J.cache ..) fun _ => hrest

theorem evolving_unitFor : Evolving J.toCourse (unitFor path source) := by
  refine .get_bind fun w => ?_
  dsimp only
  split
  · exact .pure _
  · exact .set_bind (J.trans (World.Journey.removeUnit ..) (J.work ..)) (.pure _)

theorem evolving_compile : Evolving J.toCourse (compile path source) := by
  refine .bind .get fun w => ?_
  split
  · exact .pure _
  · refine .bind (evolving_unitFor _ _) fun made => ?_
    split
    · exact .pure _
    · refine .bind (.onWork _) fun raised => ?_
      split
      · exact .pure _
      · refine .bind (.onWork _) fun compiled => ?_
        split
        · exact .pure _
        · refine .done (.modify fun w => ?_)
          exact J.trans (J.work ..) (J.cache ..)

theorem keyed_of_compile {path : String} {source : Source} {w w' : World} {code : FileCode}
    (h : compile path source w = some (.ok code, w')) : ∀ c ∈ code.classes, c.Keyed := by
  replace h := of_get_bind h
  generalize (if source.isEmpty then w.work.source path else .ok source) = loaded at h
  cases loaded with
  | error fault => cases h
  | ok source =>
  obtain ⟨made, w1, -, h⟩ := bind_some.1 h
  cases made with
  | error fault => cases h
  | ok id =>
  obtain ⟨raised, w2, -, h⟩ := bind_some.1 h
  cases raised with
  | error fault => cases h
  | ok _ =>
  obtain ⟨compiled, w3, h3, h⟩ := bind_some.1 h
  obtain ⟨work, hcompile, -⟩ := onWork_some h3
  cases compiled with
  | error cause => cases h
  | ok code =>
    cases h
    exact Workspace.keyed_of_compile hcompile

end Live

/-! ### Installing and reloading -/

namespace World.Journey

variable (w : World) (s : ScriptId)

theorem scriptsFor (head : ScriptId) (code : FileCode) : J.Leads w (w.scriptsFor head code).2 := by
  refine foldl Prod.snd (fun acc c => ?_) _ ([head], w)
  split
  · exact J.refl _
  · exact J.added ..

theorem swapClass {c : ClassCode} (hc : c.Keyed) (base : Option ScriptId) (scripts : List ScriptId)
    {statics : Array Value} (hstatics : c.Stores statics) :
    J.Leads w (w.swapClass s c base scripts statics) := by
  by_cases hs : s < w.scripts.size
  · exact J.installed w s c base scripts statics hs hc hstatics
  · have hnone : w.scripts[s]? = none := Array.getElem?_eq_none (Nat.le_of_not_lt hs)
    have hsame : w.swapClass s c base scripts statics = w := by simp [World.swapClass, hnone]
    rw [hsame]
    exact J.refl w

theorem registerGlobal : J.Leads w (w.registerGlobal s) := by
  unfold World.registerGlobal
  split
  · exact J.refl w
  · exact J.work ..

end World.Journey

namespace Live

theorem stores_staticDefaults {c : ClassCode} {w w' : World} {statics : Array Value}
    (h : staticDefaults c w = some (statics, w')) : c.Stores statics := by
  have hfold {slots : List Slot} {a a' : Array Value} {w w' : World}
      (h : (slots.foldlM
        (fun statics slot => do
          let v ← slotDefault slot.type
          let missing := slot.index + 1 - statics.size
          return (statics ++ Array.replicate missing Value.nil).setIfInBounds slot.index v)
        a : Live (Array Value)) w = some (a', w')) :
      a.size ≤ a'.size ∧ ∀ slot ∈ slots, slot.index < a'.size := by
    induction slots generalizing a w with
    | nil =>
      cases h
      exact ⟨Nat.le_refl _, nofun⟩
    | cons slot slots ih =>
      obtain ⟨a1, w1, h1, h⟩ := bind_some.1 h
      cases h1
      obtain ⟨hle, hrest⟩ := ih h
      rw [Array.size_setIfInBounds, Array.size_append, Array.size_replicate] at hle
      refine ⟨by omega, fun other hother => ?_⟩
      rcases List.mem_cons.1 hother with rfl | hother
      · omega
      · exact hrest other hother
  exact fun slot hslot => (hfold h).2 slot ((orderBy_perm ..).mem_iff.2 hslot)

theorem evolving_swaps {scripts : List ScriptId}
    {parts : List (ScriptId × ClassCode × Option ScriptId)} (h : ∀ part ∈ parts, part.2.1.Keyed) :
    Evolving J.toCourse (parts.forM fun (s, c, base) => do
      let statics ← staticDefaults c
      modify fun w : World => w.swapClass s c base scripts statics) :=
  .forM_mem fun part hpart => .of_leads fun w _ w' hrun => by
    obtain ⟨statics, w1, h1, hrun⟩ := bind_some.1 hrun
    cases hrun
    exact J.trans ((evolving_staticDefaults _).leads h1)
      (World.Journey.swapClass w1 _ (h part hpart) _ _ (stores_staticDefaults h1))

variable {r r' : Runner} (hr : r.Follows J.toCourse r')
include hr

variable (paths : List String) (head : ScriptId) (report : ReloadReport) (s : ScriptId)
  (keep : Bool) (batch : List Prepared) (path : String)

theorem follows_install {code : FileCode} (hcode : ∀ c ∈ code.classes, c.Keyed) :
    Follows J.toCourse (install r head code) (install r' head code) := by
  refine .bind .get fun w => .bind .get fun w => ?_
  refine .bind (.modifyGet fun w => World.Journey.scriptsFor w head code) fun scripts => .holding ?_
  refine .bind (follows_linkBases hr.full _ _ _ _) fun linked => ?_
  split
  · exact .pure _
  · refine .bind (evolving_swaps fun part hpart => ?_) fun _ => ?_
    · exact hcode _ (Array.mem_toList_iff.1 (List.of_mem_zip (List.of_mem_zip hpart).2).1)
    · refine .bind (.modify fun _ => J.dressed) fun _ => ?_
      refine .bind (.forM (follows_runStatics hr _) _) fun _ => ?_
      exact .done (.modify fun _ => World.Journey.registerGlobal ..)

theorem follows_recompile : Follows J.toCourse (recompile r head) (recompile r' head) := by
  refine .get_bind fun w => .bind (evolving_compile _ _ w) fun compiled w1 h1 => ?_
  cases compiled with
  | error fault => exact .pure _
  | ok code => exact follows_install hr head (keyed_of_compile h1) w1

theorem follows_reload : Follows J.toCourse (reload r s keep) (reload r' s keep) := by
  refine .bind .get fun w => .holding (.bind (follows_saveState hr _ _) fun saved => ?_)
  split
  · exact .pure _
  · refine .bind (.holding (follows_recompile hr _)) fun done => ?_
    split
    · exact .pure _
    · exact .done (follows_restoreState hr _ _)

theorem follows_prepare : Follows J.toCourse (prepare r path s keep) (prepare r' path s keep) := by
  refine .bind .get fun w => ?_
  split
  · exact .pure _
  · refine .bind (follows_saveState hr _ _) fun saved => ?_
    split
    · exact .pure _
    · exact .done (.modify fun _ => J.dressed)

theorem follows_prepareAll (files : List (String × ScriptId)) :
    Follows J.toCourse (prepareAll r keep report batch files)
    (prepareAll r' keep report batch files) := by
  induction files generalizing report batch with
  | nil => exact .pure _
  | cons file rest ih =>
    refine .bind (.holding (follows_prepare hr _ _ _)) fun prepared => ?_
    split
    · exact ih _ _
    · exact ih _ _

theorem follows_recompileAll :
    Follows J.toCourse (recompileAll r report batch) (recompileAll r' report batch) := by
  induction batch generalizing report with
  | nil => exact .pure _
  | cons p rest ih =>
    refine .bind (follows_recompile hr _) fun done => ?_
    split
    · exact ih _
    · exact ih _

theorem follows_restoreAll : Follows J.toCourse (restoreAll r batch) (restoreAll r' batch) :=
  .each (fun _ _ => .holding (follows_restoreState hr _ _)) batch

theorem follows_reloadFiles :
    Follows J.toCourse (reloadFiles r paths keep) (reloadFiles r' paths keep) := by
  refine .bind .get fun w => .bind (.modify fun w => ?_) fun _ => ?_
  · exact World.Journey.foldl id (fun w path => World.Journey.removeUnit w path) _ w
  · refine .bind (follows_prepareAll hr _ _ _ _) fun prepared => ?_
    exact .bind (.holding (follows_recompileAll hr _ _)) fun _ =>
      .done (follows_restoreAll hr _)

theorem follows_reloadAll : Follows J.toCourse (reloadAll r) (reloadAll r') :=
  .bind .get fun _ => follows_reloadFiles hr _ _

/-! ### Bringing in files -/

theorem follows_finishFile : Follows J.toCourse (finishFile r path) (finishFile r' path) := by
  refine .bind .get fun w => .bind (.modify fun w => J.cache ..) fun _ => ?_
  exact .forM (fun other => .done (hr.full _)) _

theorem follows_compileFile :
    Follows J.toCourse (compileFile r path s) (compileFile r' path s) := by
  refine .bind .get fun w => .ite (.pure _) (.bind (.modify fun w => J.cache ..) fun _ => ?_)
  refine .bind (follows_reload hr _ _) fun reloaded => .bind (.modify fun w => J.cache ..)
    fun _ => ?_
  split
  · exact .pure _
  · exact .done (follows_finishFile hr _)

theorem follows_updateFile : Follows J.toCourse (updateFile r path s) (updateFile r' path s) := by
  refine .get_bind fun w => ?_
  split
  · exact .pure _
  · split
    · exact .pure _
    · exact .set_bind (J.dressed) (follows_compileFile hr _ _ _)

theorem follows_fullScript (update : Bool) :
    Follows J.toCourse (fullScript r path update) (fullScript r' path update) := by
  refine .bind .get fun w => ?_
  dsimp only
  split
  · exact .pure _
  · refine .bind (evolving_shallow _ _) fun found => ?_
    split
    · exact .pure _
    · refine .holding (.ite (follows_updateFile hr _ _) (.bind .get fun w => .ite ?_ ?_))
      · exact .done (follows_finishFile hr _)
      · exact follows_compileFile hr _ _

end Live

theorem Runner.evolving_within (n : Nat) : Runner.Evolving J.toCourse (Runner.within n) := by
  induction n with
  | zero => exact ⟨fun _ _ _ _ => .sure .failure, fun _ => .failure⟩
  | succ n ih =>
    exact ⟨fun _ _ _ _ => Attempt.evolving_execute ih _ _ _ _, fun _ =>
      Live.follows_fullScript ih _ _⟩

theorem Runner.evolving_standard : Runner.Evolving J.toCourse Runner.standard :=
  Runner.evolving_within _

end HotScript
