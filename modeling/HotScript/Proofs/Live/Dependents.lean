import HotScript.Proofs.Live.Sessions

/-!
Who is noted to depend on a file.

Compiling a file notes it under all that its code depends on. The note goes when a unit that the
file refers to is dropped, and with it goes the unit of the file. So as long as a file has the unit
that it was compiled from, it is reached from what it depends on, and that has the units it had. Of
a unit that was never compiled nothing is noted, and it may outlive what it rests on.
-/

namespace HotScript

namespace Live

/-- Asking for the script of a file comes to compiling it in a state: it was not compiled before, or
it is read again and holds something else by now. -/
def Opens (path : String) (update : Bool) (w : World) (s : ScriptId) (v : World) : Prop :=
  ∃ w0 w1, (update = false → w.cache.full.find? path = none) ∧
    shallow path none w = some (.ok s, w0) ∧
    (if update then ∃ source, w0.work.source path = .ok source ∧
        ¬((w0.script s).isValid ∧ source.digest = (w0.script s).source.digest) ∧
        w1 = w0.modifyScript s fun c => { c with source }
      else (w0.script s).isValid = false ∧ w1 = w0) ∧
    v = { w1 with
      held := [.script s] :: w1.held
      cache := { w1.cache with compiling := w1.cache.compiling ++ [path] } }

/-- What a host asked for compiles a file in a state, installs it, and ends in another state. -/
inductive Recompiles (w : World) (path : String) : World → World → Prop
  | load {update : Bool} {s : ScriptId} {v u w' : World} {p : Prepared}
    (run : fullScript .standard path update w = some (.ok s, w')) (opens : Opens path update w s v)
    (moment : (Reloading.one s).Compiles .standard true v p u) : Recompiles w path u w'
  | reload {s : ScriptId} {keep : Bool} {u w' : World} {p : Prepared}
    (cached : w.cache.find? path = some (w.head s))
    (run : Live.reload .standard s keep w = some (.ok (), w'))
    (moment : (Reloading.one s).Compiles .standard keep w p u) : Recompiles w path u w'
  | reloadFiles {paths : List String} {keep : Bool} {report : ReloadReport} {u w' : World}
      {p : Prepared}
    (run : Live.reloadFiles .standard paths keep w = some (report, w'))
    (done : path ∈ report.reloaded) (file : p.path = path)
    (moment : (Reloading.many paths).Compiles .standard keep w p u) : Recompiles w path u w'

/-- A file was compiled, which led from the state `u` to the state `v`. The code is installed, and
what was noted then is on record. -/
structure Lasting (path : String) (s : ScriptId) (u v : World) (code : FileCode) (id : UnitId)
    (w : World) : Prop where
  compiled : compile path (u.script s).source u = some (.ok code, v)
  unit : v.work.unitOf.find? path = some id
  dependencies : code.dependencies = (v.work.unit id).dependencies
  cached : w.cache.find? path = some s
  installed : w.Installed s code
  records : w.Records
    { unit := id, path, dependencies := code.dependencies
      others := fun p other => p ∈ code.dependencies ∧ p ≠ path ∧
        v.work.unitOf.find? p = some other }

open World

variable {r : Runner} {w w' u : World} {path : String}

theorem Lasting.kept {v : World} {code : FileCode} {id : UnitId} {replaced read : List String}
    {s : ScriptId} (h : Lasting path s u v code id w) (hw : w.Sound) (hk : w.Kept replaced read w')
    (hpath : path ∉ replaced) : Lasting path s u v code id w' := by
  obtain ⟨hvalid, hcode⟩ := h.installed
  have hsame := hk.script s ((hw.cached path s h.cached).2.1.symm ▸ hpath) hvalid
  exact ⟨h.compiled, h.unit, h.dependencies, hk.cached path s h.cached,
    ⟨hsame.isValid.trans hvalid, hsame.file.trans hcode⟩, hk.records _ h.records⟩

variable (hr : r.Keeping) {s head : ScriptId} {keep : Bool} {p : Prepared}
include hr

theorem recompile_lasting (hw : w.Sound) (hhead : w.cache.find? path = some head)
    (h : recompile r head w = some (.ok (), w')) :
    ∃ v code id, Lasting path head w v code id w' := by
  obtain ⟨-, hpath, -⟩ := hw.cached path head hhead
  replace h := of_get_bind h
  obtain ⟨compiled, v, hcompile, h⟩ := bind_some.1 h
  rw [hpath] at hcompile
  obtain ⟨htends, hcompiled⟩ := compile_some hw.work hcompile
  cases compiled with
  | error fault => cases h
  | ok code =>
    obtain ⟨-, hcode, id, hid, hdependencies, hrecords⟩ := hcompiled code rfl
    have hcached := (htends.kept hw).cached path head hhead
    obtain ⟨-, hk, hinstalled, -⟩ := install_some hr (htends.calm.sound hw) hcached hcode h
    exact ⟨v, code, id, hcompile, hid, hdependencies, hk.cached path head hcached, hinstalled rfl,
      hk.records _ hrecords⟩

theorem reload_lasting (hw : w.Sound) (hhead : w.cache.find? path = some (w.head s))
    (h : reload r s keep w = some (.ok (), w')) (hturn : (Reloading.one s).Compiles r keep w p u) :
    ∃ v code id, Lasting path (w.head s) u v code id w' := by
  obtain ⟨saved, w1, h1, h⟩ := reload_run h
  obtain ⟨hw0, hk0⟩ := hw.calls ([.script (w.head s)] :: w.held)
  obtain ⟨hw1, hk1⟩ := (follows_saveState hr.evolving (w.head s) keep).leads h1 hw0
  cases saved with
  | error fault => cases h.1
  | ok saved =>
  obtain ⟨w2, h2, w3, h3, rfl⟩ := h
  -- the state in which the file is compiled is the one that saving its state has led to
  obtain ⟨_, before, behind, _, _, ⟨_, _, hsaves, rfl, hbatch, rfl⟩, hbefore⟩ := hturn
  cases h1.symm.trans hsaves
  have hnil : before = [] := by
    cases before with
    | nil => rfl
    | cons q before => exact absurd (congrArg List.length hbatch) (by simp)
  subst hnil
  cases hbefore
  obtain ⟨hu, hku⟩ := hw1.calls (saved.cells :: w1.held)
  have hcached := (hk0.trans (hk1.trans hku)).cached path _ hhead
  obtain ⟨v, code, id, hlasting⟩ := recompile_lasting hr hu hcached h2
  obtain ⟨hw2, -⟩ := recompile_some hr hu hcached h2
  obtain ⟨hw2', hk2⟩ := hw2.calls w2.held.tail
  obtain ⟨hw3, hk3⟩ := (follows_restoreState hr.evolving _ saved).leads h3 hw2'
  obtain ⟨-, hk4⟩ := hw3.calls w3.held.tail
  exact ⟨v, code, id, hlasting.kept hw2 (hk2.trans (hk3.trans hk4)) List.not_mem_nil⟩

theorem reloadFiles_lasting {paths : List String} {report : ReloadReport} (hw : w.Sound)
    (h : reloadFiles r paths keep w = some (report, w')) (hdone : p.path ∈ report.reloaded)
    (hturn : (Reloading.many paths).Compiles r keep w p u) :
    ∃ v code id, Lasting p.path p.script u v code id w' := by
  obtain ⟨-, -, hsplit, -⟩ := reloadFiles_some hr hw h
  have hlisted := (hsplit.perm.nodup_iff.2 (nodup_inReloadOrder w paths))
  obtain ⟨hu, -, batch, behind, report1, v1, hrun, hfresh, hpaths, hrestore⟩ :=
    reloadFiles_compiles hr hw h hturn
  obtain ⟨result, u1, hcompile, hrest⟩ := bind_some.1 hrun
  obtain ⟨hcached, -⟩ := hfresh p (.head _)
  cases result with
  | error fault =>
    -- it would be listed twice
    have hfailed : (p.path, fault) ∈ report.failed := recompileAll_failed hrest (by simp)
    exact absurd rfl ((List.nodup_append.1 hlisted).2.2 p.path hdone p.path
      (List.mem_map.2 ⟨_, hfailed, rfl⟩))
  | ok _ =>
  obtain ⟨v, code, id, hlasting⟩ := recompile_lasting hr hu hcached hcompile
  obtain ⟨hu1, hk1, -⟩ := recompile_some hr hu hcached hcompile
  obtain ⟨hnot, hpaths⟩ := List.nodup_cons.1 hpaths
  obtain ⟨hv1, hkv1, -⟩ := recompileAll_some hr (fun _ _ => True) (fun _ _ _ _ _ _ _ => trivial) hu1
    (fun q hq => hk1.fresh hu List.not_mem_nil (hfresh q (.tail _ hq))) hpaths hrest
  obtain ⟨hv2, hkv2⟩ := hv1.calls v1.held.tail
  obtain ⟨-, hk'⟩ := (keeping_restoreAll hr _).leads hrestore hv2
  exact ⟨v, code, id, (hlasting.kept hu1 hkv1 hnot).kept hv1 (hkv2.trans hk') List.not_mem_nil⟩

theorem load_lasting {update : Bool} {v : World} (hw : w.Sound) (hc : w.cache.compiling = [])
    (h : fullScript r path update w = some (.ok s, w')) (hopens : Opens path update w s v)
    (hturn : (Reloading.one s).Compiles r true v p u) :
    ∃ t v code id, Lasting path t u v code id w' := by
  obtain ⟨w0, w1, hfull, hshallow, hw1, rfl⟩ := hopens
  obtain ⟨hw0, hk0, hentered⟩ := shallow_some hw hshallow
  obtain ⟨hcached, -⟩ := hentered s rfl
  have hfound : ((w.cache.full.find? path).filter fun _ => !update).or
      ((w.cache.find? path).filter fun _ => w.cache.compiling.contains path) = none := by
    cases update with
    | false => simp [hc, hfull rfl]
    | true => simp [hc]
  replace h := of_get_bind h
  rw [hfound] at h
  obtain ⟨found, _, h1, h⟩ := bind_some.1 h
  cases h1.symm.trans hshallow
  obtain ⟨w3, hrun, rfl⟩ := holding_eq h
  -- either way it comes to reloading the file in the same state
  obtain ⟨hsound, hsame, hcompile⟩ : w1.Sound ∧ w1.cache = w0.cache ∧
      compileFile r path s { w1 with held := [.script s] :: w1.held } = some (.ok s, w3) := by
    cases update with
    | false =>
      obtain ⟨hinvalid, rfl⟩ := (if_neg Bool.false_ne_true).mp hw1
      obtain ⟨_, _, h2, hrun⟩ := bind_some.1 (show (get >>= _ : Live _) _ = _ from hrun)
      cases h2
      split at hrun
      · next hvalid => cases hinvalid.symm.trans hvalid
      · exact ⟨hw0, rfl, hrun⟩
    | true =>
      obtain ⟨source, hsource, hchanged, rfl⟩ := (if_pos rfl).mp hw1
      replace hrun := of_get_bind (show updateFile r path s _ = _ from hrun)
      dsimp only at hrun
      rw [hsource] at hrun
      dsimp only at hrun
      split at hrun
      · next hsame =>
        obtain ⟨hheld, -⟩ := hw0.calls ([.script s] :: w0.held)
        rw [Bool.and_eq_true, beq_iff_eq, sourceDigest, hheld.head_of_cached hcached] at hsame
        exact absurd hsame hchanged
      · obtain ⟨_, _, h2, hrun⟩ := bind_some.1 hrun
        cases h2
        exact ⟨(sound_setSource hw0 s source).1, rfl, hrun⟩
  rcases compileFile_run hcompile with
    ⟨hmem, -⟩ | ⟨-, _, v, hreload, ⟨_, hfault, -⟩ | ⟨rfl, -, hfinish⟩⟩
  · simp [hsame, hk0.compiling, hc] at hmem
  · cases hfault
  obtain ⟨hheld, -⟩ := hsound.calls ([.script s] :: w1.held)
  have hv := (calm_compiling _ (w1.cache.compiling ++ [path])).sound hheld
  have hhead := (congrArg (·.find? path) hsame).trans hcached
  replace hhead := hhead.trans (congrArg some (hv.head_of_cached hhead).symm)
  obtain ⟨v', code, id, hlasting⟩ := reload_lasting hr hv hhead hreload hturn
  obtain ⟨hv1, -⟩ := reload_some hr hv hhead hreload
  have hv2 := (v.calm_compiling (v.cache.compiling.filter (· != path))).sound hv1
  obtain ⟨hw3, hk3⟩ := (keeping_finishFile hr path).leads hfinish hv2
  obtain ⟨-, hk4⟩ := hw3.calls w3.held.tail
  have hlasting : Lasting path _ u v' code id
      (v.withCompiling (v.cache.compiling.filter (· != path))) :=
    { hlasting with records := hlasting.records.congr rfl rfl }
  exact ⟨_, v', code, id, hlasting.kept hv2 (hk3.trans hk4) List.not_mem_nil⟩

omit hr in
/-- What a host asked for leaves a file that was compiled on record, in a state it can go on
from. -/
theorem Recompiles.lasting (hw : w.Sound) (hc : w.cache.compiling = [])
    (h : Recompiles w path u w') :
    w'.Sound ∧ w'.cache.compiling = [] ∧ ∃ s v code id, Lasting path s u v code id w' := by
  have hr := Runner.keeping_standard
  cases h with
  | @load update s v _ _ p run opens moment =>
    have hrun : perform (.load path update) w = some ((), _) := bind_some.2 ⟨_, _, run, rfl⟩
    obtain ⟨hw', hc', -⟩ := sound_perform hw hc (by trivial) hrun
    exact ⟨hw', hc', load_lasting hr hw hc run opens moment⟩
  | @reload s keep _ _ p cached run moment =>
    have hrun : perform (.reload s keep) w = some ((), _) := bind_some.2 ⟨_, _, run, rfl⟩
    obtain ⟨hw', hc', -⟩ := sound_perform hw hc (by exact ⟨path, cached⟩) hrun
    exact ⟨hw', hc', _, reload_lasting hr hw cached run moment⟩
  | @reloadFiles paths keep report _ _ p run done file moment =>
    have hrun : perform (.reloadFiles paths keep) w = some ((), _) := bind_some.2 ⟨_, _, run, rfl⟩
    obtain ⟨hw', hc', -⟩ := sound_perform hw hc (by trivial) hrun
    subst file
    exact ⟨hw', hc', _, reloadFiles_lasting hr hw run done moment⟩

end Live

namespace World

/-- **A file is noted as long as it has the unit that it was compiled from.** Whatever is asked for
then, it is found under everything else that the installed code depends on, and when any of that is
reloaded, the file is dealt with too. -/
theorem Reached.noted_while_unit {w u v : World} (hw : w.Reached) {path : String}
    (h : Live.Recompiles w path u v) :
    ∃ s code u' id, Live.compile path (u.script s).source u = some (.ok code, u') ∧
      u'.work.unitOf.find? path = some id ∧ v.cache.find? path = some s ∧ v.Installed s code ∧
      ∀ w', v.Becomes w' → w'.work.unitOf.find? path = some id →
        ∀ other ∈ code.dependencies, other ≠ path → path ∈ w'.cache.dependentsOf other ∧
          ∀ keep report w'', Live.reloadFiles .standard [other] keep w' = some (report, w'') →
            path ∈ report.reloaded ++ report.failed.map (·.1) := by
  obtain ⟨hsound, hidle⟩ := hw.sound
  obtain ⟨hv, hc, s, u', code, id, hcompile, hid, -, hs, hcode, hrecords⟩ := h.lasting hsound hidle
  refine ⟨s, code, u', id, hcompile, hid, hs, hcode, fun w' hlater hunit other hother hne => ?_⟩
  obtain ⟨hw', -, hminds⟩ := hlater.minds hv hc
  have hnoted := (hminds.records _ hrecords).noted (hw'.work.placed.placed path id hunit).2.2
      other hother hne
  refine ⟨hnoted, fun keep report w'' hrun => ?_⟩
  obtain ⟨-, -, hsplit, -⟩ := Live.reloadFiles_some Runner.keeping_standard hw' hrun
  refine hsplit.perm.mem_iff.2 ((w'.perm_inReloadOrder _).mem_iff.2 (List.mem_filter.2 ⟨?_, ?_⟩))
  · exact Cache.mem_affected.2 ⟨other, List.mem_singleton.2 rfl, .single hnoted⟩
  · rw [hminds.cached path s hs]
    rfl

end World

set_option synthInstance.maxSize 256 in
/-- A file that extends another was asked for, and is reloaded. It is compiled from the unit that it
had. -/
theorem extended_recompiles : ∃ w u v code u',
    Live.serve [extendedFile "one", .load "res://d.br" false] {} = some ((), w) ∧ w.Reached ∧
    Live.Recompiles w "res://d.br" u v ∧ v.cache.find? "res://d.br" = some 0 ∧
    v.work.unitOf.find? "res://d.br" = some 0 ∧
    (∃ w', Live.unitFor "res://d.br" (v.script 0).source v = some (.ok 0, w')) ∧
    Live.compile "res://d.br" (u.script 0).source u = some (.ok code, u') ∧
    u'.work.unitOf.find? "res://d.br" = some 0 ∧ u'.work.unitOf.find? "res://b.br" = some 1 ∧
    "res://b.br" ∈ (u'.work.unit 0).dependencies ∧ "res://b.br" ∈ code.dependencies := by
  obtain ⟨w, run, hcached, hhead, ⟨_, v, hreload, hs, hunit, _, w', hfor, rfl⟩, saved, w1,
    hsave, code, u', hcompile, hunits⟩ :
      ∃ w, Live.serve [extendedFile "one", .load "res://d.br" false] {} = some ((), w) ∧
        w.cache.find? "res://d.br" = some 0 ∧ w.head 0 = 0 ∧
        (∃ done v, Live.reload .standard 0 false w = some (.ok done, v) ∧
          v.cache.find? "res://d.br" = some 0 ∧ v.work.unitOf.find? "res://d.br" = some 0 ∧
          ∃ id w', Live.unitFor "res://d.br" (v.script 0).source v = some (.ok id, w') ∧ id = 0) ∧
        ∃ saved w1, Live.saveState .standard 0 false { w with held := [.script 0] :: w.held } =
            some (.ok saved, w1) ∧
          ∃ code u', Live.compile "res://d.br" (w1.script 0).source
              { w1 with held := saved.cells :: w1.held } = some (.ok code, u') ∧
            u'.work.unitOf.find? "res://d.br" = some 0 ∧
              u'.work.unitOf.find? "res://b.br" = some 1 ∧
              "res://b.br" ∈ (u'.work.unit 0).dependencies ∧ "res://b.br" ∈ code.dependencies := by
    decide +kernel
  have hreached : w.Reached := World.reached_empty.serve (by simp [extendedFile]) run
  have hmoment : (Reloading.one 0).Compiles .standard false w _ _ :=
    ⟨{}, [], [], _, {}, ⟨saved, w1, hhead.symm ▸ hsave, rfl, rfl, rfl⟩, rfl⟩
  exact ⟨w, _, v, code, u', run, hreached, .reload (hhead.symm ▸ hcached) hreload hmoment,
    hs, hunit, ⟨w', hfor⟩, hcompile, hunits⟩

/-- A file that extends another is noted under it when it was asked for, and reached when the other
is reloaded. -/
theorem extended_noted :
    ∃ w u v code, Live.serve [extendedFile "one", .load "res://d.br" false] {} = some ((), w) ∧
      Live.Recompiles w "res://d.br" u v ∧ v.Installed 0 code ∧ "res://b.br" ∈ code.dependencies ∧
      "res://d.br" ∈ v.cache.dependentsOf "res://b.br" ∧
      ∀ keep report w', Live.reloadFiles .standard ["res://b.br"] keep v = some (report, w') →
        "res://d.br" ∈ report.reloaded ++ report.failed.map (·.1) := by
  obtain ⟨w, u, v, code, u', run, hreached, hcompiles, hs, hunit, -, hcompile, hid, -, -, hmem⟩ :=
    extended_recompiles
  obtain ⟨s, code', u1, id, hcompile', hid', hs', hcode, hnoted⟩ :=
    hreached.noted_while_unit hcompiles
  cases hs.symm.trans hs'
  cases hcompile.symm.trans hcompile'
  cases hid.symm.trans hid'
  exact ⟨w, u, v, code, run, hcompiles, hcode, hmem, hnoted v .refl hunit _ hmem (by decide)⟩

/-- When the other file is read again alone, the note goes, although the code that is installed
still depends on it; reloading the other once more does not reach the file. -/
theorem replaced_not_noted :
    ∃ w code report w', Live.serve [extendedFile "one", .load "res://d.br" false,
      extendedFile "two",
        .load "res://b.br" true] {} = some ((), w) ∧ w.Reached ∧
      w.cache.find? "res://d.br" = some 0 ∧ w.Installed 0 code ∧ "res://b.br" ∈ code.dependencies ∧
      "res://d.br" ∉ w.cache.dependentsOf "res://b.br" ∧
      Live.reloadFiles .standard ["res://b.br"] true w = some (report, w') ∧
      report.reloaded = ["res://b.br"] ∧ report.failed = [] := by
  obtain ⟨w, run, hs, hvalid, hnoted, ⟨code, hcode, hmem⟩, report, w', hrun, hreport⟩ : ∃ w,
      Live.serve [extendedFile "one", .load "res://d.br" false, extendedFile "two",
        .load "res://b.br" true] {} = some ((), w) ∧ w.cache.find? "res://d.br" = some 0 ∧
      (w.script 0).isValid ∧ "res://d.br" ∉ w.cache.dependentsOf "res://b.br" ∧
      (∃ code, (w.script 0).file = some code ∧ "res://b.br" ∈ code.dependencies) ∧
      ∃ report w', Live.reloadFiles .standard ["res://b.br"] true w = some (report, w') ∧
        report.reloaded = ["res://b.br"] ∧ report.failed = [] := by
    decide +kernel
  have hreached : w.Reached := World.reached_empty.serve (by simp [extendedFile]) run
  exact ⟨w, code, report, w', run, hreached, hs, ⟨hvalid, hcode⟩, hmem, hnoted, hrun, hreport⟩

end HotScript
