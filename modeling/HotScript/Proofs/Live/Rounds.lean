import HotScript.Proofs.Live.Bringing
import HotScript.Proofs.Live.Moments
import HotScript.Proofs.Live.Saving

/-!
A reload in three phases.

The state of all files is saved, the files are compiled one after the other, and what was saved is
written back, also where compiling failed (`Live.Round`). What is written back is a list of entries
(`SavedEntry`), each for one static variable or one instance. Each file is compiled and each entry
written at a moment of the reload.
-/

namespace HotScript

/-! ### Time goes by -/

/-- Whatever was run: valid classes are kept, files in use stay as they are, and instances stay with
their classes. -/
structure World.Steady (used : String → Prop) (w w' : World) : Prop where
  kept : w.Kept [] [] w'
  fixed : w.Fixed used w'
  enrols : w.Enrols w'

/-- A runner that leaves files in use as they are. -/
structure Runner.Steady (used : String → Prop) (r : Runner) : Prop extends r.Orderly where
  fixing : r.Evolving (World.fixing used)

theorem Runner.steady_watched (used : String → Prop) (rule : Rule) (n : Nat) :
    (watched rule n).Steady used :=
  ⟨orderly_watched rule n, fixing_watched rule n⟩

variable {used : String → Prop}

namespace World.Steady

variable {w w1 w' : World}

theorem trans (h : w.Steady used w1) (h' : w1.Steady used w') : w.Steady used w' :=
  ⟨h.kept.trans h'.kept, h.fixed.trans h'.fixed, h.enrols.trans h'.enrols⟩

theorem calls (hw : w.Settled used) (held : List (List Cell)) :
    Settled used { w with held } ∧ w.Steady used { w with held } := by
  have hstill : w.Still { w with held } := stillness.calls w w.frames held w.depth w.log
  have henrols : w.Enrols { w with held } := enrolment.calls w w.frames held w.depth w.log
  exact ⟨hw.calls held, (hstill.keeps hw.sound).2, .still hstill, henrols⟩

theorem findClass? (h : w.Steady used w') (hw : w.Settled used) (hw' : w'.Settled used)
    {path : String} {head : ScriptId} (hhead : w.cache.find? path = some head) (hused : used path)
    (name : String) :
    w'.findClass? head name = w.findClass? head name := by
  obtain ⟨hlt, hpath, -⟩ := hw.sound.cached path head hhead
  have hfile (s : ScriptId) (hs : s < w.scripts.size) (hp : (w.script s).path = path) :=
    h.fixed.script s hs (hp.symm ▸ hused)
  have hinward (names : List String) (s : ScriptId) (hs : s < w.scripts.size)
      (hp : (w.script s).path = path) : w'.inward? s names = w.inward? s names := by
    induction names generalizing s with
    | nil => rfl
    | cons n names ih =>
      rw [inward?, inward?, List.foldlM_cons, List.foldlM_cons, (hfile s hs hp).inner]
      cases hfind : (w.script s).inner.find? n with
      | none => rfl
      | some t =>
        obtain ⟨ht, hpt⟩ := hw.sound.inner s n t hfind
        exact ih t ht (hpt.trans hp)
  unfold World.findClass?
  rw [hw.sound.head_of_cached hhead, hw'.sound.head_of_cached (h.kept.cached path head hhead)]
  dsimp only
  rw [(hfile head hlt hpath).path]
  simp only [hinward _ head hlt hpath]

end World.Steady

variable {w w' : World}

theorem Runner.Steady.run {r : Runner} (hr : r.Steady used) {α : Type} {m : Live α} {a : α}
    (hm : ∀ {C : World.Course}, r.Evolving C → Live.Evolving C m) (hw : w.Settled used)
    (h : m w = some (a, w')) : w'.Settled used ∧ w.Steady used w' := by
  obtain ⟨hw', hkept, henrols⟩ := hr.toOrderly.run hm hw h
  exact ⟨hw', hkept, ((hm hr.fixing).leads h hw).2, henrols⟩

/-! ### Writing back -/

def SavedEntry.restore (r : Runner) : SavedEntry → Live Unit
  | .static s name v => do
    let _ ← Live.setStatic s name v
  | .inst i values => do
    let w ← get
    if (w.script (w.inst i).script).isValid then Live.restore r i values

/-- The entries for the static variables of a class, if the class is there. -/
def SavedEntry.ofClass (found : Option ScriptId) (values : List (String × Value)) :
    List SavedEntry :=
  found.toList.flatMap fun s => values.map fun value => .static s value.1 value.2

/-- The entries of the state of a file, with the classes that have the names now. -/
def Prepared.entries (w : World) (p : Prepared) : List SavedEntry :=
  (p.saved.statics.flatMap fun e => SavedEntry.ofClass (w.findClass? p.script e.1) e.2) ++
    p.saved.instances.map fun e => .inst e.1 e.2

/-- Entries are written back one after the other, each at a moment for it. -/
inductive Live.Restoring (r : Runner) (moment : SavedEntry → World → Prop) :
    List SavedEntry → World → World → Prop
  | done (w : World) (held : List (List Cell)) : Restoring r moment [] w { w with held }
  | next {entry : SavedEntry} {entries : List SavedEntry} {w w1 w' : World}
      (held : List (List Cell))
    (met : moment entry { w with held }) (run : entry.restore r { w with held } = some ((), w1))
    (rest : Restoring r moment entries w1 w') : Restoring r moment (entry :: entries) w w'

namespace Live

open World

theorem evolving_entry {C : World.Course} {r : Runner} (hr : r.Evolving C) (entry : SavedEntry) :
    Evolving C (entry.restore r) := by
  cases entry with
  | static s name v => exact .done (evolving_setStatic s name v)
  | inst i values => exact .bind .get fun w => .ite (follows_restore hr i values) (.pure _)

namespace Restoring

variable {r : Runner} {moment : SavedEntry → World → Prop} {xs ys : List SavedEntry}
  {w w1 w' : World}

theorem append (h : Restoring r moment xs w w1) (h' : Restoring r moment ys w1 w') :
    Restoring r moment (xs ++ ys) w w' := by
  induction h with
  | done w held =>
    cases h' with
    | done _ held' => exact .done w held'
    | next held' met run rest => exact .next held' met run rest
  | next held met run _ ih => exact .next held met run (ih h')

theorem start {held : List (List Cell)} (h : Restoring r moment xs { w with held } w') :
    Restoring r moment xs w w' :=
  append (.done w held) h

theorem finish (h : Restoring r moment xs w w') (held : List (List Cell)) :
    Restoring r moment xs w { w' with held } := by
  have := h.append (.done w' held)
  rwa [List.append_nil] at this

theorem met (h : Restoring r moment xs w w') {entry : SavedEntry} (hmem : entry ∈ xs) :
    ∃ k, moment entry k := by
  induction h with
  | done => cases hmem
  | next held met _ _ ih =>
    rcases List.mem_cons.1 hmem with rfl | hmem
    · exact ⟨_, met⟩
    · exact ih hmem

theorem steady (hr : r.Steady used) (hw : w.Settled used) (h : Restoring r moment xs w w') :
    w'.Settled used ∧ w.Steady used w' := by
  induction h with
  | done w held => exact Steady.calls hw held
  | @next entry entries w w1 w' held met run rest ih =>
    obtain ⟨hheld, hcalls⟩ := Steady.calls hw held
    obtain ⟨hw1, hstep⟩ := hr.run (fun hC => evolving_entry hC entry) hheld run
    obtain ⟨hw', hrest⟩ := ih hw1
    exact ⟨hw', hcalls.trans (hstep.trans hrest)⟩

theorem leads {B : World.Bearing used} (hr : r.Steady used) (hw : w.Settled used)
    (hstep : ∀ entry ∈ xs, ∀ {v v' : World}, v.Settled used → w.Steady used v →
      entry.restore r v = some ((), v') → B.Leads v v')
    (h : Restoring r moment xs w w') : B.Leads w w' := by
  induction h with
  | done w held => exact .calls w held
  | @next entry entries w w1 w' held met run rest ih =>
    obtain ⟨hheld, hcalls⟩ := Steady.calls hw held
    obtain ⟨hw1, hsteady⟩ := hr.run (fun hC => evolving_entry hC entry) hheld run
    have hfirst := hstep entry (.head _) hheld hcalls run
    refine (Bearing.Leads.calls w held).trans
      (hfirst.trans (ih hw1 fun other hother v v' hv hsince => ?_))
    exact hstep other (.tail _ hother) hv (hcalls.trans (hsteady.trans hsince))

end Restoring

variable {r : Runner} {moment : SavedEntry → World → Prop} {w w' : World} {u : Unit}

theorem restoring_writeStatics {s : ScriptId} {values : List (String × Value)}
    (hmoment : ∀ {name x left k}, Meets (writeStatic s) values w (name, x) left k →
      moment (.static s name x) k)
    (h : writeStatics s values w = some (u, w')) :
    Restoring r moment (values.map fun value => .static s value.1 value.2) w w' := by
  induction values generalizing w with
  | nil =>
    cases h
    exact .done _ _
  | cons value rest ih =>
    obtain ⟨_, w1, h1, h⟩ := bind_some.1 h
    exact .next w.held (hmoment .here) h1 (ih (fun hmeets => hmoment (.later h1 hmeets)) h)

theorem restoring_restoreInstances {saved : List (InstanceId × List (String × Value))}
    (hmoment : ∀ {i values rest k}, Meets (restoreInstance r) saved w (i, values) rest k →
      moment (.inst i values) { k with held := (.inst i :: savedCells rest) :: k.held })
    (h : restoreInstances r saved w = some (u, w')) :
    Restoring r moment (saved.map fun e => .inst e.1 e.2) w w' := by
  induction saved generalizing w with
  | nil =>
    cases h
    exact .done _ _
  | cons e rest ih =>
    obtain ⟨i, values⟩ := e
    obtain ⟨_, w1, h1, h⟩ := bind_some.1 h
    have hrest := ih (fun hmeets => hmoment (.later h1 hmeets)) h
    have hrun := of_get_bind h1
    by_cases hvalid : (w.script (w.inst i).script).isValid
    · rw [if_pos hvalid] at hrun
      obtain ⟨w2, hrestore, rfl⟩ := holding_eq hrun
      refine .next _ (hmoment .here) (bind_some.2 ⟨_, _, rfl, ?_⟩) hrest.start
      show (if (w.script (w.inst i).script).isValid then restore r i values else pure ()) _ = _
      rw [if_pos hvalid]
      exact hrestore
    · rw [if_neg hvalid] at hrun
      cases hrun
      have hstart : Restoring r moment (rest.map fun e => .inst e.1 e.2)
          { w with held := (.inst i :: savedCells rest) :: w.held } w' := .start hrest
      refine .next _ (hmoment .here) (bind_some.2 ⟨_, _, rfl, ?_⟩) hstart
      show (if (w.script (w.inst i).script).isValid then restore r i values else pure ()) _ = _
      rw [if_neg hvalid]
      rfl

variable {v : World} (hr : r.Steady used) (hw : w.Settled used)
include hr hw

theorem restoring_restoreStatics {path : String} {head : ScriptId}
    {statics : List (String × List (String × Value))}
    (hmoment : ∀ {qualified values rest v s name x left k},
      Meets (restoreClass head) statics w (qualified, values) rest v →
      v.findClass? head qualified = some s → Meets (writeStatic s) values v (name, x) left k →
      moment (.static s name x) k)
    (hhead : (w.cache.find? path = some head ∧ used path) ∨ ∀ e ∈ statics, e.2 = [])
    (hv : v.Settled used) (hlater : w'.Steady used v)
    (h : restoreStatics head statics w = some (u, w')) :
    Restoring r moment (statics.flatMap fun e => SavedEntry.ofClass (v.findClass? head e.1) e.2)
    w w' := by
  induction statics generalizing w with
  | nil =>
    cases h
    exact .done _ _
  | cons e rest ih =>
    obtain ⟨qualified, values⟩ := e
    obtain ⟨_, w1, h1, h⟩ := bind_some.1 h
    have hrun := of_get_bind h1
    have hfirst : Restoring r moment (SavedEntry.ofClass (w.findClass? head qualified) values)
        w w1 := by
      cases hfind : w.findClass? head qualified with
      | none =>
        rw [hfind] at hrun
        cases hrun
        exact .done w w.held
      | some s =>
        rw [hfind] at hrun
        rw [SavedEntry.ofClass, Option.toList_some, List.flatMap_singleton]
        exact restoring_writeStatics (hmoment .here hfind) hrun
    obtain ⟨hw1, hstep⟩ := hfirst.steady hr hw
    have hhead1 : (w1.cache.find? path = some head ∧ used path) ∨ ∀ e ∈ rest, e.2 = [] :=
      hhead.imp (fun hhead => ⟨hstep.kept.cached path head hhead.1, hhead.2⟩)
        fun hnone e he => hnone e (.tail _ he)
    have hrest := ih hw1 (fun hmeets => hmoment (.later h1 hmeets)) hhead1 h
    rw [List.flatMap_cons]
    refine Restoring.append ?_ hrest
    rcases hhead with ⟨hhead, hused⟩ | hnone
    · have hsteady := (hstep.trans (hrest.steady hr hw1).2).trans hlater
      rw [hsteady.findClass? hw hv hhead hused]
      exact hfirst
    · -- without values nothing is written, whatever class is found
      obtain rfl : values = [] := hnone _ (.head _)
      have hnothing (found : Option ScriptId) : SavedEntry.ofClass found [] = [] := by
        cases found <;> rfl
      rw [hnothing] at hfirst ⊢
      exact hfirst

theorem restoring_restoreState {p : Prepared}
    (hmoment : ∀ {entry k}, Returning r p w entry k → moment entry k)
    (hhead : (w.cache.find? p.path = some p.script ∧ used p.path) ∨ ∀ e ∈ p.saved.statics, e.2 = [])
    (hv : v.Settled used) (hlater : w'.Steady used v)
    (h : restoreState r p.script p.saved w = some (u, w')) :
    Restoring r moment (p.entries v) w w' := by
  obtain ⟨_, w1, h1, h⟩ := bind_some.1 h
  obtain ⟨hw1, -⟩ := hr.run (fun _ => evolving_restoreStatics p.script p.saved.statics) hw h1
  have hinstances := restoring_restoreInstances (fun hmeets => hmoment (.inst h1 hmeets)) h
  have hlater1 := (hinstances.steady hr hw1).2.trans hlater
  exact (restoring_restoreStatics hr hw
    (fun hcls hfind hmeets => hmoment (.static hcls hfind hmeets)) hhead hv hlater1 h1).append
      hinstances

theorem restoring_restoreAll {batch : List Prepared}
    (hmoment : ∀ {p rest k}, Meets (restoreFile r) batch w p rest k → ∀ {entry k'},
      Returning r p { k with held := (.script p.script :: Prepared.cells rest) :: k.held }
      entry k' →
      moment entry k')
    (hbatch : ∀ p ∈ batch, (w.cache.find? p.path = some p.script ∧ used p.path) ∨
      ∀ e ∈ p.saved.statics, e.2 = []) (h : restoreAll r batch w = some (u, w')) :
    Restoring r moment (batch.flatMap (Prepared.entries w')) w w' := by
  induction batch generalizing w with
  | nil =>
    cases h
    exact .done _ _
  | cons p rest ih =>
    obtain ⟨_, w1, h1, h⟩ := bind_some.1 h
    obtain ⟨w2, hrun, rfl⟩ := holding_eq h1
    obtain ⟨hheld, hcalls⟩ := Steady.calls hw ((.script p.script :: Prepared.cells rest) :: w.held)
    obtain ⟨hw2, hstep⟩ := hr.run (fun hC => follows_restoreState hC p.script p.saved) hheld hrun
    obtain ⟨hw1, hcalls'⟩ := Steady.calls hw2 w2.held.tail
    have hrest := ih hw1 (fun hmeets => hmoment (.later h1 hmeets)) (fun q hq => ?_) h
    · obtain ⟨hw', hlater⟩ := hrest.steady hr hw1
      have hfirst := restoring_restoreState hr hheld (hmoment .here) (hbatch p (.head _)) hw'
        (hcalls'.trans hlater) hrun
      exact Restoring.append hfirst.start hrest.start
    · refine (hbatch q (.tail _ hq)).imp_left fun hq => ⟨?_, hq.2⟩
      exact (hcalls.trans (hstep.trans hcalls')).kept.cached _ _ hq.1

end Live

/-! ### Compiling -/

/-- Files are compiled one after the other, each at a moment for it; some of them are done. -/
inductive Live.Recompiling (r : Runner) (moment : Prepared → World → Prop) :
    List Prepared → List String → World → World → Prop
  | done (w : World) (held : List (List Cell)) : Recompiling r moment [] [] w { w with held }
  | installed {p : Prepared} {batch : List Prepared} {done : List String} {w w1 w' : World}
    (held : List (List Cell)) (met : moment p { w with held })
    (run : recompile r p.script { w with held } = some (.ok (), w1))
    (rest : Recompiling r moment batch done w1 w') :
    Recompiling r moment (p :: batch) (p.path :: done) w w'
  | failed {p : Prepared} {batch : List Prepared} {done : List String} {w w1 w' : World}
    {fault : ReloadFault} (held : List (List Cell))
    (run : recompile r p.script { w with held } = some (.error fault, w1))
    (rest : Recompiling r moment batch done w1 w') : Recompiling r moment (p :: batch) done w w'

namespace Live.Recompiling

open World

variable {r : Runner} {moment : Prepared → World → Prop} {batch : List Prepared}
  {done : List String} {w w1 w' : World} {held : List (List Cell)}

theorem start (h : Recompiling r moment batch done { w with held } w') :
    Recompiling r moment batch done w w' := by
  cases h with
  | done _ held' => exact .done w held'
  | installed held' met run rest => exact .installed held' met run rest
  | failed held' run rest => exact .failed held' run rest

theorem step {p : Prepared} {result : Except ReloadFault Unit} (hr : r.Orderly)
    (hw : w.Sound) (hp : w.cache.find? p.path = some p.script)
    (run : recompile r p.script { w with held } = some (result, w1)) :
    w1.Sound ∧ w.Enrols w1 ∧ w.Kept [p.path] [] w1 ∧
      (result = .ok () → (w1.script p.script).isValid) ∧ ∀ fault, result = .error fault →
      w.Kept [] [] w1 := by
  obtain ⟨hheld, hcalls⟩ := hw.calls held
  obtain ⟨hw1, hkept, hok, hfault⟩ := recompile_some hr.keeping hheld hp run
  refine ⟨hw1, (World.enrolment.calls w w.frames held w.depth w.log).trans
    ((follows_recompile hr.enrolling _).leads run),
    hcalls.of_nil.trans hkept, fun hresult => ?_, fun fault hresult =>
      hcalls.trans (hfault fault hresult).1⟩
  obtain ⟨code, hinstalled, -⟩ := hok hresult
  exact hinstalled.1

variable (h : Recompiling r moment batch done w w')
include h

theorem finish (held : List (List Cell)) : Recompiling r moment batch done w { w' with held } := by
  induction h with
  | done w _ => exact .done w held
  | installed held' met run _ ih => exact .installed held' met run ih
  | failed held' run _ ih => exact .failed held' run ih

theorem sublist : done.Sublist (batch.map (·.path)) := by
  induction h with
  | done => exact .refl _
  | installed _ _ _ _ ih => exact ih.cons_cons _
  | failed _ _ _ ih => exact ih.cons _

variable (hbatch : ∀ p ∈ batch, w.cache.find? p.path = some p.script)
include hbatch

theorem keeps (hr : r.Orderly) (hw : w.Sound) : w'.Sound ∧ w.Enrols w' ∧ w.Kept done [] w' ∧
      ∀ path s, w.cache.find? path = some s → (w.script s).isValid → (w'.script s).isValid := by
  induction h with
  | done w held =>
    obtain ⟨hheld, hcalls⟩ := hw.calls held
    exact ⟨hheld, World.enrolment.calls w w.frames held w.depth w.log, hcalls, fun _ _ _ hvalid =>
      hvalid⟩
  | @installed p batch done w w1 w' held met run rest ih =>
    have hp := hbatch p (.head _)
    obtain ⟨hw1, henrols, hkept, hok, -⟩ := step hr hw hp run
    obtain ⟨hw', henrols', hkept', hvalid'⟩ := ih
      (fun q hq => hkept.cached _ _ (hbatch q (.tail _ hq))) hw1
    refine ⟨hw', henrols.trans henrols', ?_, fun path s hs hvalid => ?_⟩
    · exact (hkept.mono (by simp) (List.nil_subset _)).trans
        (hkept'.mono (List.subset_cons_self _ _) (List.nil_subset _))
    · refine hvalid' path s (hkept.cached path s hs) ?_
      obtain ⟨-, hpath, -⟩ := hw.cached path s hs
      by_cases hpp : path = p.path
      · subst hpp
        exact Option.some.inj (hp.symm.trans hs) ▸ hok rfl
      · have hfree : (w.script s).path ∉ [p.path] := by
          rw [hpath, List.mem_singleton]
          exact hpp
        exact (hkept.script s hfree hvalid).isValid.trans hvalid
  | @failed p batch done w w1 w' fault held run rest ih =>
    obtain ⟨hw1, henrols, -, -, hkept⟩ := step hr hw (hbatch p (.head _)) run
    have hkept := hkept fault rfl
    obtain ⟨hw', henrols', hkept', hvalid'⟩ := ih
      (fun q hq => hkept.cached _ _ (hbatch q (.tail _ hq))) hw1
    refine ⟨hw', henrols.trans henrols', hkept.of_nil.trans hkept', fun path s hs hvalid => ?_⟩
    refine hvalid' path s (hkept.cached path s hs) ?_
    exact (hkept.script s List.not_mem_nil hvalid).isValid.trans hvalid

theorem leads {B : World.Bearing used} (hb : r.Bears B) (hw : w.Settled used)
    (hdone : ∀ path ∈ done, ¬used path) : B.Leads w w' := by
  induction h with
  | done w held => exact .calls w held
  | @installed p batch done w w1 w' held met run rest ih =>
    have hfree := hdone p.path (.head _)
    have hp := hbatch p (.head _)
    obtain ⟨hw1, henrols, hkept, -⟩ := step hb.toOrderly hw.sound hp run
    have hsettled := hw.kept hw1 henrols hkept fun q hq => List.mem_singleton.1 hq ▸ hfree
    have hfirst := recompile_leads hb (hw.calls held) hp (fun _ => hfree) run
    refine (Bearing.Leads.calls w held).trans
      (hfirst.trans (ih (fun q hq => ?_) hsettled fun q hq => ?_))
    · exact hkept.cached _ _ (hbatch q (.tail _ hq))
    · exact hdone q (.tail _ hq)
  | @failed p batch done w w1 w' fault held run rest ih =>
    have hp := hbatch p (.head _)
    obtain ⟨hw1, henrols, -, -, hkept⟩ := step hb.toOrderly hw.sound hp run
    have hsettled := hw.of_nil hw1 henrols (hkept fault rfl)
    have hfirst := recompile_leads hb (hw.calls held) hp (fun hok => by cases hok) run
    refine (Bearing.Leads.calls w held).trans (hfirst.trans (ih (fun q hq => ?_) hsettled hdone))
    exact (hkept fault rfl).cached _ _ (hbatch q (.tail _ hq))

theorem made (hr : r.Orderly) (hw : w.Sound) (henrolled : w.Enrolled)
    (hnodup : (batch.map (·.path)).Nodup) {path : String} (hpath : path ∈ done) :
    ∃ p ∈ batch, p.path = path ∧ ∃ u made batch' done', moment p u ∧
      recompile r p.script u = some (.ok (), made) ∧
      made.Settled (· = path) ∧ made.cache.find? path = some p.script ∧
      Recompiling r moment batch' done' made w' ∧ path ∉ done' ∧
      ∀ q ∈ batch', made.cache.find? q.path = some q.script := by
  induction h with
  | done => exact absurd hpath List.not_mem_nil
  | @installed p batch done w w1 w' held met run rest ih =>
    have hp := hbatch p (.head _)
    obtain ⟨hw1, henrols, hkept, hok, -⟩ := step hr hw hp run
    have hrest : ∀ q ∈ batch, w1.cache.find? q.path = some q.script := fun q hq =>
      hkept.cached _ _ (hbatch q (.tail _ hq))
    obtain ⟨hnot, hnodup⟩ := List.nodup_cons.1 hnodup
    by_cases hpp : path = p.path
    · subst hpp
      have hcached := hkept.cached _ _ hp
      refine ⟨p, (.head _), rfl, _, w1, batch, done, met, run,
        ⟨hw1, henrols.enrolled henrolled, ?_⟩, hcached, rest, fun hmem =>
        hnot (rest.sublist.subset hmem), hrest⟩
      rintro _ rfl
      exact ⟨p.script, hcached, hok rfl⟩
    · obtain ⟨q, hq, hmade⟩ := ih hrest hw1 (henrols.enrolled henrolled) hnodup
        ((List.mem_cons.1 hpath).resolve_left hpp)
      exact ⟨q, List.mem_cons_of_mem _ hq, hmade⟩
  | @failed p batch done w w1 w' fault held run rest ih =>
    obtain ⟨hw1, henrols, -, -, hkept⟩ := step hr hw (hbatch p (.head _)) run
    obtain ⟨q, hq, hmade⟩ := ih
      (fun q hq => (hkept fault rfl).cached _ _ (hbatch q (.tail _ hq)))
      hw1 (henrols.enrolled henrolled) (List.nodup_cons.1 hnodup).2 hpath
    exact ⟨q, List.mem_cons_of_mem _ hq, hmade⟩

end Live.Recompiling

namespace Live

variable {r : Runner} {w w' : World}

theorem recompiling_recompileAll (moment : Prepared → World → Prop) {report report' : ReloadReport}
    {batch : List Prepared}
    (hmoment : ∀ before {p behind report' u}, batch = before ++ p :: behind →
      recompileAll r report before w = some (report', u) → moment p u)
    (h : recompileAll r report batch w = some (report', w')) :
    ∃ done, report'.reloaded = report.reloaded ++ done ∧ Recompiling r moment batch done w w' := by
  induction batch generalizing w report with
  | nil =>
    cases h
    exact ⟨[], (List.append_nil _).symm, .done _ _⟩
  | cons p batch ih =>
    obtain ⟨result, w1, h1, h⟩ := bind_some.1 h
    have hmet : moment p w := hmoment [] rfl rfl
    cases result with
    | ok _ =>
      obtain ⟨done, hreport, hrest⟩ := ih (fun before q behind report2 u hsplit hrun =>
        hmoment (p :: before) (by rw [hsplit]; rfl) (bind_some.2 ⟨_, w1, h1, hrun⟩)) h
      exact ⟨p.path ::
        done, by rw [hreport, List.append_assoc]; rfl, .installed w.held hmet h1 hrest⟩
    | error fault =>
      obtain ⟨done, hreport, hrest⟩ := ih (fun before q behind report2 u hsplit hrun =>
        hmoment (p :: before) (by rw [hsplit]; rfl) (bind_some.2 ⟨_, w1, h1, hrun⟩)) h
      exact ⟨done, hreport, .failed w.held h1 hrest⟩

end Live

/-! ### The whole reload -/

def World.Present (w : World) (path : String) : Prop :=
  ∃ s, w.cache.find? path = some s ∧ (w.script s).isValid

theorem World.Sound.present (hw : w.Sound) (he : w.Enrolled) : w.Settled w.Present :=
  ⟨hw, he, fun _ h => h⟩

theorem World.Saved.statics_nil {path : String} {head : ScriptId} {saved : SavedState}
    (h : w.Saved head saved) (hw : w.Sound) (he : w.Enrolled)
    (hhead : w.cache.find? path = some head)
    (hinvalid : ¬(w.script head).isValid) : ∀ e ∈ saved.statics, e.2 = [] := by
  intro e hmem
  rw [h.statics] at hmem
  obtain ⟨s, hs, rfl⟩ := List.mem_map.1 hmem
  obtain ⟨hlt, hpath, -⟩ := hw.cached path head hhead
  obtain ⟨-, hhome⟩ := hw.family hlt hs
  have hblank : (w.script s).isValid = false := by
    refine Bool.eq_false_iff.2 fun hvalid => hinvalid ?_
    obtain ⟨head', hhead', hvalid'⟩ := hw.head s hvalid
    rw [hhome, hpath, hhead] at hhead'
    exact Option.some.inj hhead' ▸ hvalid'
  rw [savedStatics, (he.blank s hblank).1]

/-- A reload of files taken apart: `v` when their state is saved, `v'` when they are compiled. -/
structure Live.Round (r : Runner) (keep : Bool) (call : Reloading) (done : List String)
    (batch : List Prepared) (w v v' w' : World) : Prop where
  steady : ∀ used, r.Steady used
  start : w.Sound
  enrolled : w.Enrolled
  cached : ∀ f ∈ call.files w, w.cache.find? f.1 = some f.2
  poised : w.Poised v
  sound : v.Sound
  saved : ∀ p ∈ batch, (p.path, p.script) ∈ call.files w ∧ w.Saved p.script p.saved
  nodup : (batch.map (·.path)).Nodup
  compiled : Recompiling r (call.Compiles r keep w) batch done v v'
  restored : Restoring r (call.Writes r keep w) (batch.flatMap (Prepared.entries w')) v' w'

namespace Live

open World

variable {r : Runner} {w w' v v' : World} (hr : ∀ used, r.Steady used) (hw : w.Sound)
  (he : w.Enrolled)
variable {keep : Bool}
include hr hw he

theorem settled_recompiling {files : List (String × ScriptId)} {done : List String}
    {batch : List Prepared} {moment : Prepared → World → Prop}
    (hcached : ∀ f ∈ files, w.cache.find? f.1 = some f.2)
    (hpoised : w.Poised v) (hv : v.Sound)
    (hsaved : ∀ p ∈ batch, (p.path, p.script) ∈ files ∧ w.Saved p.script p.saved)
    (hcompiled : Recompiling r moment batch done v v') :
    v'.Settled v'.Present ∧ ∀ p ∈ batch,
      (v'.cache.find? p.path = some p.script ∧ v'.Present p.path) ∨ ∀ e ∈ p.saved.statics,
      e.2 = [] := by
  have hr := hr fun _ => False
  have hfind (p : Prepared) (hp : p ∈ batch) : v.cache.find? p.path = some p.script :=
    (hpoised.find? p.path).trans (hcached _ (hsaved p hp).1)
  obtain ⟨hv', henrols, hkept, hvalid⟩ := hcompiled.keeps hfind hr.toOrderly hv
  refine ⟨hv'.present (henrols.enrolled (hpoised.enrolled he)), fun p hp => ?_⟩
  by_cases hhead : (w.script p.script).isValid
  · have hfound := hkept.cached _ _ (hfind p hp)
    have hhead : (v.script p.script).isValid := by
      rw [hpoised.script]
      exact hhead
    exact .inl ⟨hfound, p.script, hfound, hvalid _ _ (hfind p hp) hhead⟩
  · obtain ⟨hfile, hstate⟩ := hsaved p hp
    exact .inr (hstate.statics_nil hw he (hcached _ hfile) hhead)

theorem round_reloadFiles {paths : List String} {report : ReloadReport}
    (hplain : ∀ f ∈ (Reloading.many paths).files w, ∀ s ∈ w.family f.2, w.Plain s)
    (h : reloadFiles r paths keep w = some (report, w')) :
    ∃ batch v v', Round r keep (.many paths) report.reloaded batch w v v' w' := by
  have hk := (hr fun _ => False).keeping
  obtain ⟨report3, batch, v, v4, h3, hrun, h5⟩ := reloadFiles_run h
  have htends := tends_removeUnits w paths
  have hpoised := (Poised.refl w).removeUnits paths
  have hw1 := htends.calm.sound hw
  have hcached : ∀ f ∈ (Reloading.many paths).files w, w.cache.find? f.1 = some f.2 :=
    fun f hf => mem_inReloadOrder hf
  have hnodup : (((Reloading.many paths).files w).map (·.1)).Nodup := nodup_inReloadOrder w paths
  obtain ⟨hv, -, -, _, failed, rfl, rfl, hsplit, -⟩ := prepareAll_some hk
    (fun _ _ _ => True) (fun _ _ _ _ _ _ _ _ _ => trivial) hw1
    (fun f hf => (hpoised.find? f.1).trans (hcached f hf)) (by simpa using hnodup)
    (fun _ hp => absurd hp List.not_mem_nil) h3
  obtain ⟨hpoised', hsaved⟩ := prepareAll_plain hpoised he hplain h3
  have hsaved := fun p hp => (hsaved p hp).resolve_left List.not_mem_nil
  obtain ⟨done, hreport, hcompiled⟩ := recompiling_recompileAll
    ((Reloading.many paths).Compiles r keep w)
    (fun _ _ _ _ _ hbatch hbefore => ⟨_, _, _, _, _, ⟨v, hbatch ▸ h3, hbatch ▸ rfl⟩, hbefore⟩) hrun
  have hcompiled := hcompiled.start.finish v4.held.tail
  rw [hreport]
  obtain ⟨hv', hheads⟩ := settled_recompiling hr hw he hcached hpoised' hv hsaved hcompiled
  refine ⟨_, v, _, hr, hw, he, hcached, hpoised', hv, hsaved, hnodup.sublist hsplit.sublist,
    hcompiled, restoring_restoreAll (hr _) hv' (fun hmeets _ _ hturn => ?_) hheads h5⟩
  exact ⟨_, _, ⟨_, _, _, _, _, _, _, ⟨v, h3, rfl⟩, hrun, hmeets, rfl⟩, hturn⟩

theorem round_reload {s : ScriptId}
    (hhead : w.cache.find? (w.script (w.head s)).path = some (w.head s))
    (hplain : ∀ t ∈ w.family (w.head s), w.Plain t) (h : reload r s keep w = some (.ok (), w')) :
    ∃ batch v v', Round r keep (.one s) [(w.script (w.head s)).path] batch w v v' w' := by
  have hk := (hr fun _ => False).keeping
  obtain ⟨saved, v, h1, h⟩ := reload_run h
  have hpoised := (Poised.refl w).hold [.script (w.head s)]
  obtain ⟨hw0, -⟩ := hw.calls ([.script (w.head s)] :: w.held)
  obtain ⟨hv, -⟩ := (follows_saveState hk.evolving (w.head s) keep).leads h1 hw0
  obtain ⟨hsame, hstate⟩ := saveState_plain hpoised he hplain h1
  rw [← hsame] at hpoised
  cases saved with
  | error fault => cases h.1
  | ok saved =>
  obtain ⟨v2, hrun, w3, h3, hw'⟩ := h
  let p : Prepared := { path := (w.script (w.head s)).path, script := w.head s, saved }
  have hsaves : (Reloading.one s).Saves r keep w {} [p] { v with held := saved.cells :: v.held } :=
    ⟨saved, v, h1, rfl, rfl, rfl⟩
  have hsaved : ∀ q ∈ [p], (q.path, q.script) ∈ (Reloading.one s).files w ∧
      w.Saved q.script q.saved := by
    intro q hq
    rw [List.mem_singleton.1 hq]
    exact ⟨List.mem_singleton.2 rfl, hstate saved rfl⟩
  have hcompiled : Recompiling r ((Reloading.one s).Compiles r keep w) [p] [p.path] v
      { v2 with held := v2.held.tail } :=
    .installed (p := p) (saved.cells :: v.held) ⟨_, [], [], _, _, hsaves, rfl⟩
      hrun (.done v2 v2.held.tail)
  have hcached : ∀ f ∈ (Reloading.one s).files w, w.cache.find? f.1 = some f.2 := by
    intro f hf
    rw [List.mem_singleton.1 hf]
    exact hhead
  obtain ⟨hv', hheads⟩ := settled_recompiling hr hw he hcached hpoised hv hsaved hcompiled
  obtain ⟨hw3, -⟩ := (hr _).run (fun hC => follows_restoreState hC (w.head s) saved) hv' h3
  obtain ⟨hend, hcalls⟩ := Steady.calls hw3 w3.held.tail
  have hrestored : Restoring r ((Reloading.one s).Writes r keep w) (p.entries _) _ w3 :=
    restoring_restoreState (p := p) (hr _) hv'
      (fun hturn => ⟨p, _, ⟨_, _, _, hsaves, hrun, rfl⟩, hturn⟩) (hheads p (.head _)) hend hcalls h3
  refine ⟨[p], v, _, hr, hw, he, hcached, hpoised, hv, hsaved, List.nodup_singleton _,
    hcompiled, ?_⟩
  rw [hw', List.flatMap_singleton]
  exact hrestored.finish _

end Live

end HotScript
