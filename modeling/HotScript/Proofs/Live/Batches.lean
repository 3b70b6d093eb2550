import HotScript.Proofs.Live.Affected
import HotScript.Proofs.Live.Loading
import HotScript.Proofs.Live.Moments

/-!
Reloading several files together.

Every file that is cached and affected is dealt with once, in the order of the chains as they were
before: it is reloaded and has the code of what its file holds, or the report says why not.
-/

namespace HotScript

namespace World

/-- The installed code of a file is that of what the file holds. -/
def UpToDate (w : World) (path : String) : Prop :=
  ∃ s code source, w.cache.find? path = some s ∧ w.Installed s code ∧
    w.work.source path = .ok source ∧ code.hash = source.digest

variable {w w' : World} {replaced read : List String}

theorem Kept.upToDate (hk : w.Kept replaced read w') (hw : w.Sound) {path : String}
    (hpath : path ∉ replaced) (h : w.UpToDate path) : w'.UpToDate path := by
  obtain ⟨s, code, source, hs, ⟨hvalid, hfile⟩, hsource, hhash⟩ := h
  obtain ⟨-, rfl, -⟩ := hw.cached path s hs
  have hsame := hk.script s hpath hvalid
  exact ⟨s, code, source, hk.cached _ s hs, ⟨hsame.isValid.trans hvalid, hsame.file.trans hfile⟩,
    (hk.source _).trans hsource, hhash⟩

def Fresh (w : World) (p : Prepared) : Prop :=
  w.cache.find? p.path = some p.script ∧ w.work.source p.path = .ok (w.script p.script).source

theorem Kept.fresh (hk : w.Kept replaced read w') (hw : w.Sound) {p : Prepared}
    (hpath : p.path ∉ read) (h : w.Fresh p) : w'.Fresh p := by
  obtain ⟨hs, hsource⟩ := h
  obtain ⟨hlt, hp, -⟩ := hw.cached p.path p.script hs
  refine ⟨hk.cached _ _ hs, ?_⟩
  rw [hk.source, hk.held p.script hlt (hp.symm ▸ hpath)]
  exact hsource

end World

/-- A file cannot be saved without keeping the state of instances, of which there are some. -/
def World.Occupied (w : World) (s : ScriptId) (path : String) (fault : ReloadFault) : Prop :=
  0 < ((w.family s).flatMap w.liveInstances).length ∧
    fault = .inUse path ((w.family s).flatMap w.liveInstances).length

/-- Why a file is not reloaded among others: it cannot be read, its state may not be kept when its
turn comes to be saved, or its code is refused when its turn comes to be compiled. -/
def Excuse (r : Runner) (w : World) (paths : List String) (keep : Bool) (path : String)
    (fault : ReloadFault) : Prop :=
  (∃ cause, w.work.source path = .error cause ∧ fault = .load cause) ∨
  ∃ source, w.work.source path = .ok source ∧
    ((keep = false ∧ ∃ s u, Reloading.Prepares r keep w paths path s u ∧ u.Occupied s path fault) ∨
      ∃ p u, (Reloading.many paths).Compiles r keep w p u ∧ p.path = path ∧
        Refused r u p.script path source fault)

variable {w w' : World}

/-- Each of several files is either done or has failed, and those that are done are in order. -/
structure Split (files done : List String) (failed : List (String × ReloadFault)) : Prop where
  sublist : done.Sublist files
  perm : (done ++ failed.map (·.1)).Perm files

namespace Split

theorem nil : Split [] [] [] := ⟨.refl _, .refl _⟩

variable {files done done' : List String} {failed failed' : List (String × ReloadFault)}

theorem cons_done (h : Split files done failed) (path : String) :
    Split (path :: files) (path :: done) failed :=
  ⟨h.sublist.cons_cons path, h.perm.cons path⟩

theorem cons_failed (h : Split files done failed) (path : String) (fault : ReloadFault) :
    Split (path :: files) done ((path, fault) :: failed) :=
  ⟨h.sublist.cons path, List.perm_middle.trans (h.perm.cons path)⟩

theorem trans (h : Split files done failed)
    (h' : Split done done' failed') : Split files done' (failed ++ failed') := by
  refine ⟨h'.sublist.trans h.sublist, ?_⟩
  rw [List.map_append]
  calc (done' ++ (failed.map (·.1) ++ failed'.map (·.1))).Perm
        (done' ++ (failed'.map (·.1) ++ failed.map (·.1))) :=
          List.perm_append_comm.append_left done'
    _ = (done' ++ failed'.map (·.1)) ++ failed.map (·.1) := (List.append_assoc ..).symm
    List.Perm _ (done ++ failed.map (·.1)) := h'.perm.append_right _
    List.Perm _ files := h.perm

end Split

namespace Live

open World

variable {r : Runner}

/-! ### Saving -/

variable {keep : Bool} {report : ReloadReport}

theorem saveState_error {head : ScriptId} {fault : ReloadFault}
    (h : saveState r head keep w = some (.error fault, w')) :
    keep = false ∧ w.Occupied head (w.script head).path fault := by
  replace h := of_get_bind h
  split at h
  · next hlive =>
    cases h
    rw [Bool.and_eq_true, Bool.not_eq_true', Bool.not_eq_true'] at hlive
    refine ⟨hlive.2, List.length_pos_iff.2 fun hnil => ?_, rfl⟩
    rw [hnil] at hlive
    cases hlive.1
  · obtain ⟨_, _, _, h⟩ := bind_some.1 h
    cases h

variable (hr : r.Keeping)
include hr

theorem prepare_some {path : String} {s : ScriptId} {result : Except ReloadFault SavedState}
    (hw : w.Sound) (hs : w.cache.find? path = some s)
    (h : prepare r path s keep w = some (result, w')) :
    w'.Sound ∧ w.Kept [path] [path] w' ∧
      (∀ saved, result = .ok saved → w'.Fresh { path, script := s, saved }) ∧
      ∀ fault, result = .error fault →
        (∃ cause, w.work.source path = .error cause ∧ fault = .load cause) ∨
        ∃ source, w.work.source path = .ok source ∧ keep = false ∧ w.Occupied s path fault := by
  replace h := of_get_bind h
  cases hsource : w.work.source path with
  | error cause =>
    rw [hsource] at h
    cases h
    refine ⟨hw, .refl _ _ w, nofun, fun fault hfault => .inl ⟨cause, rfl, ?_⟩⟩
    exact (Except.error.inj hfault).symm
  | ok source =>
  rw [hsource] at h
  obtain ⟨saved, w1, h1, h⟩ := bind_some.1 h
  obtain ⟨hw1, hk1⟩ := (follows_saveState hr.evolving s keep).leads h1 hw
  obtain ⟨hlt, hpath, -⟩ := hw.cached path s hs
  cases saved with
  | error fault =>
    cases h
    refine ⟨hw1, hk1.of_nil, nofun, fun fault' hfault => .inr ⟨source, rfl, ?_⟩⟩
    rw [← Except.error.inj hfault, ← hpath]
    exact saveState_error h1
  | ok saved =>
    obtain ⟨_, w2, h2, h⟩ := bind_some.1 h
    cases h2
    cases h
    obtain ⟨hw2, hk2⟩ := sound_setSource hw1 s source
    rw [hk1.path s hlt, hpath] at hk2
    refine ⟨hw2, hk1.of_nil.trans hk2, fun saved' hsaved => ?_, nofun⟩
    refine ⟨hk1.cached path s hs, ((hk1.trans (.refl _ _ _)).source path).trans ?_⟩
    rw [script_modifyScript, if_pos ⟨rfl, Nat.lt_of_lt_of_le hlt hk1.size⟩]
    exact hsource

variable {report' : ReloadReport} {batch batch' : List Prepared}

/-- Each file is prepared, or fails for a reason, in order. -/
theorem prepareAll_some {files : List (String × ScriptId)}
    (moment : String → ScriptId → World → Prop)
    (hmoment : ∀ before {path s behind report1 batch1 v}, files = before ++ (path, s) :: behind →
      prepareAll r keep report batch before w = some ((report1, batch1), v) →
      moment path s { v with held := Prepared.cells batch1 :: v.held }) (hw : w.Sound)
    (hfiles : ∀ f ∈ files, w.cache.find? f.1 = some f.2)
    (hnodup : (batch.map (·.path) ++ files.map (·.1)).Nodup) (hbatch : ∀ p ∈ batch, w.Fresh p)
    (h : prepareAll r keep report batch files w = some ((report', batch'), w')) :
    w'.Sound ∧ w.Kept (files.map (·.1)) (files.map (·.1)) w' ∧ (∀ p ∈ batch', w'.Fresh p) ∧
      ∃ added failed, report' = { report with failed := report.failed ++ failed } ∧
        batch' = batch ++ added ∧ Split (files.map (·.1)) (added.map (·.path)) failed ∧
        ∀ f ∈ failed, (∃ cause, w.work.source f.1 = .error cause ∧ f.2 = .load cause) ∨
          ∃ source, w.work.source f.1 = .ok source ∧ keep = false ∧
            ∃ s u, moment f.1 s u ∧ u.Occupied s f.1 f.2 := by
  induction files generalizing w report batch with
  | nil =>
    cases h
    exact ⟨hw, .refl _ _ _, hbatch, [], [], by simp, by simp, .nil, nofun⟩
  | cons file files ih =>
    obtain ⟨path, s⟩ := file
    obtain ⟨prepared, w1, h1, h⟩ := bind_some.1 h
    obtain ⟨w3, hrun, hw3eq⟩ := holding_eq h1
    obtain ⟨hw2, hk2⟩ := hw.calls (Prepared.cells batch :: w.held)
    obtain ⟨hw3, hk3, hok, hfault⟩ :=
      prepare_some hr hw2 (hk2.cached path s (hfiles _ (.head _))) hrun
    obtain ⟨hw1, hk1⟩ : w1.Sound ∧ w3.Kept [] [] w1 := hw3eq ▸ hw3.calls w3.held.tail
    have hkept : w.Kept [path] [path] w1 := hk2.of_nil.trans (hk3.trans hk1.of_nil)
    have hturn : moment path s { w with held := Prepared.cells batch :: w.held } :=
      hmoment [] rfl rfl
    have hlater {failed : List (String × ReloadFault)} (h : ∀ f ∈ failed,
        (∃ cause, w1.work.source f.1 = .error cause ∧ f.2 = .load cause) ∨
          ∃ source, w1.work.source f.1 = .ok source ∧ keep = false ∧
            ∃ s u, moment f.1 s u ∧ u.Occupied s f.1 f.2) : ∀ f ∈ failed,
        (∃ cause, w.work.source f.1 = .error cause ∧ f.2 = .load cause) ∨
          ∃ source, w.work.source f.1 = .ok source ∧ keep = false ∧
            ∃ s u, moment f.1 s u ∧ u.Occupied s f.1 f.2 := by
      intro f hf
      rw [← hkept.source]
      exact h f hf
    have hrest : ∀ f ∈ files, w1.cache.find? f.1 = some f.2 := fun f hf =>
      hkept.cached _ _ (hfiles f (.tail _ hf))
    have hsub : [path] ⊆ ((path, s) :: files).map (·.1) := by simp
    have hsub' : files.map (·.1) ⊆ ((path, s) :: files).map (·.1) := by simp
    -- the files that were prepared before are others
    have hold : ∀ p ∈ batch, w1.Fresh p := fun p hp => by
      refine hkept.fresh hw (fun hmem => ?_) (hbatch p hp)
      refine (List.nodup_append.1 hnodup).2.2 p.path (List.mem_map_of_mem hp) path (by simp) ?_
      exact List.mem_singleton.1 hmem
    cases prepared with
    | error fault =>
      have hnodup' : (batch.map (·.path) ++ files.map (·.1)).Nodup :=
        hnodup.sublist ((List.sublist_cons_self _ _).append_left _)
      obtain ⟨hw', hk', hfresh, added, failed, rfl, rfl, hsplit, hexcuse⟩ := ih
        (fun before _ _ _ _ _ _ hfiles hrun => hmoment ((path, s) :: before)
          (by rw [hfiles]; rfl) (bind_some.2 ⟨_, w1, h1, hrun⟩)) hw1 hrest hnodup' hold h
      refine ⟨hw', (hkept.mono hsub hsub).trans (hk'.mono hsub' hsub'), hfresh, added,
        (path, fault) :: failed, by simp, rfl, hsplit.cons_failed path fault, ?_⟩
      intro f hf
      rcases List.mem_cons.1 hf with rfl | hf
      · refine (hfault fault rfl).imp_right fun hused => ?_
        obtain ⟨source, hsource, hkeep, hused⟩ := hused
        exact ⟨source, hsource, hkeep, s, _, hturn, hused⟩
      · exact hlater hexcuse f hf
    | ok saved =>
      have hnodup' : ((batch ++ [Prepared.mk path s saved]).map (·.path) ++
          files.map (·.1)).Nodup := by
        simpa using hnodup
      have hnew : ∀ p ∈ batch ++ [{ path, script := s, saved }], w1.Fresh p := fun p hp => by
        rcases List.mem_append.1 hp with hp | hp
        · exact hold p hp
        · rw [List.mem_singleton.1 hp]
          exact hk1.fresh hw3 List.not_mem_nil (hok saved rfl)
      obtain ⟨hw', hk', hfresh, added, failed, rfl, rfl, hsplit, hexcuse⟩ := ih
        (fun before _ _ _ _ _ _ hfiles hrun => hmoment ((path, s) :: before)
          (by rw [hfiles]; rfl) (bind_some.2 ⟨_, w1, h1, hrun⟩)) hw1 hrest hnodup' hnew h
      exact ⟨hw', (hkept.mono hsub hsub).trans (hk'.mono hsub' hsub'), hfresh,
        { path, script := s, saved } :: added, failed,
        rfl, by simp, hsplit.cons_done path, hlater hexcuse⟩

omit hr in
theorem recompileAll_resume {before rest : List Prepared} {result : ReloadReport} {v : World}
    (hbefore : recompileAll r report before w = some (report', v))
    (h : recompileAll r report (before ++ rest) w = some (result, w')) :
    recompileAll r report' rest v = some (result, w') := by
  induction before generalizing w report with
  | nil =>
    cases hbefore
    exact h
  | cons p before ih =>
    obtain ⟨compiled, w1, h1, hbefore⟩ := bind_some.1 hbefore
    obtain ⟨_, _, h2, h⟩ := bind_some.1 h
    cases h1.symm.trans h2
    cases compiled with
    | error _ => exact ih hbefore h
    | ok _ => exact ih hbefore h

omit hr in
theorem recompileAll_failed (h : recompileAll r report batch w = some (report', w')) :
    report.failed ⊆ report'.failed := by
  induction batch generalizing w report with
  | nil =>
    cases h
    exact List.Subset.refl _
  | cons p batch ih =>
    obtain ⟨compiled, w1, -, h⟩ := bind_some.1 h
    cases compiled with
    | error _ => exact List.Subset.trans (List.subset_append_left _ _) (ih h)
    | ok _ =>
      have hrest := ih h
      exact hrest

theorem recompile_fresh {p : Prepared} {result : Except ReloadFault Unit} (hw : w.Sound)
    (hp : w.Fresh p) (h : recompile r p.script w = some (result, w')) :
    w'.Sound ∧ w.Kept [p.path] [] w' ∧ (result = .ok () → w'.UpToDate p.path) ∧
      ∀ fault, result = .error fault →
        ∃ source, w.work.source p.path = .ok source ∧ Refused r w p.script p.path source fault := by
  obtain ⟨hs, hsource⟩ := hp
  obtain ⟨hw', hk', hok, hfault⟩ := recompile_some hr hw hs h
  refine ⟨hw', hk', fun hresult => ?_, fun fault hresult => ⟨_, hsource, (hfault fault hresult).2⟩⟩
  obtain ⟨code, hcode, read, hread, hhash⟩ := hok hresult
  have hread' : w.work.source p.path = .ok read := by
    split at hread
    · exact hread
    · exact hsource.trans hread
  exact ⟨p.script, code, read, hk'.cached _ _ hs, hcode, (hk'.source _).trans hread', hhash⟩

/-- Each prepared file gets its new code, or fails for a reason, in order. -/
theorem recompileAll_some (moment : Prepared → World → Prop)
    (hmoment : ∀ before {p behind report1 u}, batch = before ++ p :: behind →
      recompileAll r report before w = some (report1, u) → moment p u)
    (hw : w.Sound) (hbatch : ∀ p ∈ batch, w.Fresh p)
    (hnodup : (batch.map (·.path)).Nodup) (h : recompileAll r report batch w = some (report', w')) :
    w'.Sound ∧ w.Kept (batch.map (·.path)) [] w' ∧
      ∃ reloaded failed, report' = ⟨report.reloaded ++ reloaded, report.failed ++ failed⟩ ∧
        Split (batch.map (·.path)) reloaded failed ∧ (∀ path ∈ reloaded, w'.UpToDate path) ∧
        ∀ f ∈ failed, ∃ p u source, moment p u ∧ p.path = f.1 ∧ w.work.source f.1 = .ok source ∧
          Refused r u p.script f.1 source f.2 := by
  induction batch generalizing w report with
  | nil =>
    cases h
    exact ⟨hw, .refl _ _ _, [], [], by simp, .nil, nofun, nofun⟩
  | cons p batch ih =>
    obtain ⟨result, w1, h1, h⟩ := bind_some.1 h
    obtain ⟨hw1, hk1, hok, hfault⟩ := recompile_fresh hr hw (hbatch p (.head _)) h1
    have hturn : moment p w := hmoment [] rfl rfl
    have hrest : ∀ q ∈ batch, w1.Fresh q := fun q hq =>
      hk1.fresh hw List.not_mem_nil (hbatch q (.tail _ hq))
    obtain ⟨hnot, hnodup'⟩ := List.nodup_cons.1 hnodup
    have hsub : [p.path] ⊆ (p :: batch).map (·.path) := by simp
    have hsub' : batch.map (·.path) ⊆ (p :: batch).map (·.path) := by simp
    have hkept {w' : World} (hk' : w1.Kept (batch.map (·.path)) [] w') :
        w.Kept ((p :: batch).map (·.path)) [] w' :=
      (hk1.mono hsub (List.nil_subset _)).trans (hk'.mono hsub' (List.nil_subset _))
    cases result with
    | ok _ =>
      obtain ⟨hw', hk', reloaded, failed, rfl, hsplit, hdone, hexcuse⟩ := ih
        (fun before _ _ _ _ hbatch hrun => hmoment (p :: before) (by rw [hbatch]; rfl)
          (bind_some.2 ⟨_, w1, h1, hrun⟩)) hw1 hrest hnodup' h
      refine ⟨hw', hkept hk', p.path :: reloaded, failed, by simp, hsplit.cons_done p.path, ?_,
        fun f hf => hk1.source f.1 ▸ hexcuse f hf⟩
      intro path hpath
      rcases List.mem_cons.1 hpath with rfl | hpath
      · exact hk'.upToDate hw1 hnot (hok rfl)
      · exact hdone path hpath
    | error fault =>
      obtain ⟨hw', hk', reloaded, failed, rfl, hsplit, hdone, hexcuse⟩ := ih
        (fun before _ _ _ _ hbatch hrun => hmoment (p :: before) (by rw [hbatch]; rfl)
          (bind_some.2 ⟨_, w1, h1, hrun⟩)) hw1 hrest hnodup' h
      refine ⟨hw', hkept hk', reloaded, (p.path, fault) :: failed, by simp,
        hsplit.cons_failed p.path fault, hdone, ?_⟩
      intro f hf
      rcases List.mem_cons.1 hf with rfl | hf
      · obtain ⟨source, hsource, hrefused⟩ := hfault fault rfl
        exact ⟨p, w, source, hturn, rfl, hsource, hrefused⟩
      · exact hk1.source f.1 ▸ hexcuse f hf

theorem keeping_restoreAll (batch : List Prepared) : Evolving World.keeping (restoreAll r batch) :=
  .each (fun _ _ => .holding (follows_restoreState hr.evolving _ _)) batch

/-! ### Everything together -/

omit hr in
theorem tends_removeUnits (w : World) (paths : List String) :
    w.Tends (paths.foldl (fun w path => w.removeUnit path) w) := by
  induction paths generalizing w with
  | nil => exact .refl w
  | cons path paths ih => exact (Tends.removeUnit w path).trans (ih _)

omit hr in
/-- The stages of reloading files: they are prepared, compiled, and what was saved is written
back. -/
theorem reloadFiles_run {paths : List String} (h : reloadFiles r paths keep w = some (report, w')) :
    ∃ report1 batch v v',
      prepareAll r keep {} [] (w.inReloadOrder (w.cache.affected paths))
        (paths.foldl (fun w path => w.removeUnit path) w) = some ((report1, batch), v) ∧
      recompileAll r report1 batch { v with held := Prepared.cells batch :: v.held } =
        some (report, v') ∧
      restoreAll r batch { v' with held := v'.held.tail } = some ((), w') := by
  replace h := of_get_bind h
  obtain ⟨_, w1, h1, h⟩ := bind_some.1 h
  cases h1
  obtain ⟨⟨report1, batch⟩, v, h2, h⟩ := bind_some.1 h
  obtain ⟨report2, v2, h3, h⟩ := bind_some.1 h
  obtain ⟨v', hrun, rfl⟩ := holding_eq h3
  obtain ⟨_, w3, h4, h⟩ := bind_some.1 h
  cases h
  exact ⟨report1, batch, v, v', h2, hrun, h4⟩

omit hr in
theorem nodup_inReloadOrder (w : World) (paths : List String) :
    ((w.inReloadOrder (w.cache.affected paths)).map (·.1)).Nodup :=
  (w.perm_inReloadOrder _).nodup_iff.2 ((w.cache.nodup_affected paths).filter _)

/-- Every affected file is dealt with, in order. -/
theorem reloadFiles_some {paths : List String} (hw : w.Sound)
    (h : reloadFiles r paths keep w = some (report, w')) :
    w'.Sound ∧ (∃ files, w.Kept files files w') ∧
      Split ((w.inReloadOrder (w.cache.affected paths)).map (·.1)) report.reloaded report.failed ∧
      (∀ path ∈ report.reloaded, w'.UpToDate path) ∧
      ∀ f ∈ report.failed, Excuse r w paths keep f.1 f.2 := by
  obtain ⟨report3, batch, w3, v', h3, hrun, h5⟩ := reloadFiles_run h
  have htends := tends_removeUnits w paths
  have hw1 := htends.calm.sound hw
  have hk1 := htends.kept hw
  have hnodup := nodup_inReloadOrder w paths
  obtain ⟨hw3, hk3, hfresh, _, failed, rfl, rfl, hsplit, hexcuse⟩ :=
    prepareAll_some hr (Reloading.Prepares r keep w paths)
      (fun _ _ _ _ _ _ _ hfiles hrun => ⟨_, _, _, _, _, hfiles, hrun, rfl⟩) hw1
      (fun f hf => hk1.cached _ _ (mem_inReloadOrder hf)) hnodup (fun _ hp =>
        absurd hp List.not_mem_nil) h3
  obtain ⟨hv, hkv⟩ := hw3.calls (Prepared.cells _ :: w3.held)
  obtain ⟨hv', hkv', reloaded, failed', rfl, hsplit', hdone, hexcuse'⟩ :=
    recompileAll_some hr ((Reloading.many paths).Compiles r keep w)
      (fun _ _ _ _ _ hbatch hbefore => ⟨_, _, _, _, _, ⟨w3, hbatch ▸ h3, hbatch ▸ rfl⟩, hbefore⟩) hv
      (fun p hp => hkv.fresh hw3 List.not_mem_nil (hfresh p hp))
      (hnodup.sublist hsplit.sublist) hrun
  obtain ⟨hw4, hk4⟩ := hv'.calls v'.held.tail
  obtain ⟨hw5, hk5⟩ := (keeping_restoreAll hr _).leads h5 hw4
  have hafter := hk4.trans hk5
  have hbefore := hk1.of_nil.trans (hk3.trans hkv.of_nil)
  refine ⟨hw5, ⟨(w.inReloadOrder (w.cache.affected paths)).map (·.1), ?_⟩, hsplit.trans hsplit',
    fun path hpath => ?_, fun f hf => ?_⟩
  · exact hbefore.trans ((hkv'.mono hsplit.sublist.subset (List.nil_subset _)).trans hafter.of_nil)
  · exact hafter.upToDate hv' List.not_mem_nil (hdone path hpath)
  · rcases List.mem_append.1 hf with hf | hf
    · refine (hk1.source f.1 ▸ hexcuse f hf).imp_right fun hused => ?_
      obtain ⟨source, hsource, hused⟩ := hused
      exact ⟨source, hsource, .inl hused⟩
    · obtain ⟨p, u, source, hturn, hpath, hsource, hrefused⟩ := hexcuse' f hf
      exact .inr ⟨source, (hbefore.source f.1).symm.trans hsource, .inr ⟨p, u, hturn, hpath,
        hrefused⟩⟩

/-- When a file is about to be compiled its script holds what was read, and so have those behind it;
what the report says in the end comes of these. -/
theorem reloadFiles_compiles {paths : List String} {p : Prepared} {u : World} (hw : w.Sound)
    (h : reloadFiles r paths keep w = some (report, w'))
    (hturn : (Reloading.many paths).Compiles r keep w p u) :
    u.Sound ∧ (∀ path, u.work.source path = w.work.source path) ∧ ∃ batch behind report1 v,
      recompileAll r report1 (p :: behind) u = some (report, v) ∧ (∀ q ∈ p :: behind, u.Fresh q) ∧
      ((p :: behind).map (·.path)).Nodup ∧
      restoreAll r batch { v with held := v.held.tail } = some ((), w') := by
  obtain ⟨report1, batch, v, v', hprepare, hcompile, hrestore⟩ := reloadFiles_run h
  obtain ⟨_, before, behind, _, report2, ⟨_, hsaves, rfl⟩, hbefore⟩ := hturn
  cases hprepare.symm.trans hsaves
  have htends := tends_removeUnits w paths
  have hk1 := htends.kept hw
  have hnodup := nodup_inReloadOrder w paths
  obtain ⟨hv, hkv, hfresh, added, failed, -, hadded, hsplit, -⟩ :=
    prepareAll_some hr (fun _ _ _ => True) (fun _ _ _ _ _ _ _ _ _ => trivial) (htends.calm.sound hw)
    (fun f hf => hk1.cached _ _ (mem_inReloadOrder hf)) (by simpa using hnodup)
    (fun _ hp => absurd hp List.not_mem_nil) hprepare
  obtain ⟨hv1, hkv1⟩ := hv.calls (Prepared.cells (before ++ p :: behind) :: v.held)
  have hpaths : ((before ++ p :: behind).map (·.path)).Nodup := by
    rw [hadded]
    exact hnodup.sublist hsplit.sublist
  rw [List.map_append] at hpaths
  obtain ⟨hpaths, hpaths', -⟩ := List.nodup_append.1 hpaths
  have hfresh1 (q : Prepared) (hq : q ∈ before ++ p :: behind) :=
    hkv1.fresh hv List.not_mem_nil (hfresh q hq)
  obtain ⟨hu, hku, -⟩ := recompileAll_some hr (fun _ _ => True) (fun _ _ _ _ _ _ _ => trivial) hv1
    (fun q hq => hfresh1 q (List.mem_append_left _ hq)) hpaths hbefore
  refine ⟨hu, fun path => ?_, _, behind, report2, v', recompileAll_resume hbefore hcompile,
    fun q hq => hku.fresh hv1 List.not_mem_nil (hfresh1 q (List.mem_append_right _ hq)), hpaths',
    hrestore⟩
  rw [hku.source, (hk1.of_nil.trans (hkv.trans hkv1.of_nil)).source]

end Live

end HotScript
