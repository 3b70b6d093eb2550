import HotScript.Proofs.Live.Installing
import HotScript.Proofs.Live.Outlining

/-!
Bringing in files and reading them again.

Each operation keeps a sound project sound and leaves alone what it is not about. With that the
runners of growing depth close the circle (`Runner.keeping_within`).
-/

namespace HotScript

namespace World

/-- The code was compiled from a source, or from what the file holds if there is none. -/
def Reads (w : World) (path : String) (source : Source) (code : FileCode) : Prop :=
  ∃ read, (if source.isEmpty then w.work.source path else .ok source) = .ok read ∧
    code.hash = read.digest

theorem Reads.of_kept {w w' : World} {replaced read : List String} {path : String} {source : Source}
    {code : FileCode} (h : w'.Reads path source code) (hk : w.Kept replaced read w') :
    w.Reads path source code := by
  rw [Reads, ← hk.source]
  exact h

end World

/-- Why the code of a file is not replaced in a state: it cannot be compiled, or a class of the new
code finds no base when it is looked for. -/
def Refused (r : Runner) (w : World) (head : ScriptId) (path : String) (source : Source)
    (fault : ReloadFault) : Prop :=
  (∃ cause w', Live.compile path source w = some (.error cause, w') ∧ fault = .load cause) ∨
  ∃ code w' c v, Live.compile path source w = some (.ok code, w') ∧ Live.Links r head code w' c v ∧
    Misfit r v path code c fault

namespace Live

open World

variable {r : Runner} (hr : r.Keeping) {w w' : World} {path : String} {head s : ScriptId}

/-! ### One file -/

/-- The stages of reloading a file: its state is saved, it is compiled and installed, and if that
went well the state is written back. -/
theorem reload_run {keep : Bool} {result : Except ReloadFault Unit}
    (h : reload r s keep w = some (result, w')) :
    ∃ saved w1, saveState r (w.head s) keep { w with held := [.script (w.head s)] :: w.held } =
        some (saved, w1) ∧
      match saved with
      | .error fault => result = .error fault ∧ w' = { w1 with held := w1.held.tail }
      | .ok saved => ∃ w2,
          recompile r (w.head s) { w1 with held := saved.cells :: w1.held } = some (result, w2) ∧
          match result with
          | .error _ => w' = { w2 with held := w2.held.tail.tail }
          | .ok _ => ∃ w3, restoreState r (w.head s) saved { w2 with held := w2.held.tail } =
              some ((), w3) ∧ w' = { w3 with held := w3.held.tail } := by
  obtain ⟨w4, hrun, rfl⟩ := holding_eq h
  obtain ⟨saved, w1, h1, hrun⟩ := bind_some.1 hrun
  refine ⟨saved, w1, h1, ?_⟩
  cases saved with
  | error fault =>
    cases hrun
    exact ⟨rfl, rfl⟩
  | ok saved =>
    obtain ⟨done, _, h2, hrun⟩ := bind_some.1 hrun
    obtain ⟨w2, hdone, rfl⟩ := holding_eq h2
    cases done with
    | error fault =>
      cases hrun
      exact ⟨w2, hdone, rfl⟩
    | ok _ =>
      obtain ⟨_, w3, h3, hrun⟩ := bind_some.1 hrun
      cases hrun
      exact ⟨w2, hdone, _, h3, rfl⟩

section

include hr

/-- A file that is compiled again gets its new code, or no class in use changes and it is said
why. -/
theorem recompile_some {result : Except ReloadFault Unit} (hw : w.Sound)
    (hhead : w.cache.find? path = some head) (h : recompile r head w = some (result, w')) :
    w'.Sound ∧ w.Kept [path] [] w' ∧
      (result = .ok () →
        ∃ code, w'.Installed head code ∧ w.Reads path (w.script head).source code) ∧
      ∀ fault, result = .error fault →
        w.Kept [] [] w' ∧ Refused r w head path (w.script head).source fault := by
  obtain ⟨-, hpath, -⟩ := hw.cached path head hhead
  replace h := of_get_bind h
  obtain ⟨compiled, w1, h1, h⟩ := bind_some.1 h
  rw [hpath] at h1
  obtain ⟨htends, hcompiled⟩ := compile_some hw.work h1
  have hw1 := htends.calm.sound hw
  have hk1 := htends.kept hw
  cases compiled with
  | error cause =>
    cases h
    refine ⟨hw1, hk1.of_nil, nofun, fun fault hfault => ⟨hk1, .inl ⟨cause, _, h1, ?_⟩⟩⟩
    exact (Except.error.inj hfault).symm
  | ok code =>
    obtain ⟨hread, hcode, -⟩ := hcompiled code rfl
    obtain ⟨hw', hk', hinstalled, hfailed⟩ :=
      install_some hr hw1 (hk1.cached path head hhead) hcode h
    refine ⟨hw', hk1.of_nil.trans hk', fun hok => ⟨code, hinstalled hok, hread⟩, fun fault hfault =>
      ?_⟩
    obtain ⟨hk', c, v, hlinks, hmisfit⟩ := hfailed fault hfault
    exact ⟨hk1.trans hk', .inr ⟨code, _, c, v, h1, hlinks, hmisfit⟩⟩

/-- The same for a reload, before and after which state is saved and written back. -/
theorem reload_some {keep : Bool} {result : Except ReloadFault Unit} (hw : w.Sound)
    (hhead : w.cache.find? path = some (w.head s)) (h : reload r s keep w = some (result, w')) :
    w'.Sound ∧ w.Kept [path] [] w' ∧ (result = .ok () →
      ∃ code, w'.Installed (w.head s) code ∧ w.Reads path (w.script (w.head s)).source code) ∧
      ∀ fault, result = .error fault → w.Kept [] [] w' := by
  obtain ⟨saved, w1, h1, h⟩ := reload_run h
  generalize w.head s = head at h h1 hhead ⊢
  obtain ⟨hlt, hpath, -⟩ := hw.cached path head hhead
  obtain ⟨hw0, hk0⟩ := hw.calls ([.script head] :: w.held)
  obtain ⟨hw1, hk1⟩ := (follows_saveState hr.evolving head keep).leads h1 hw0
  cases saved with
  | error fault =>
    obtain ⟨rfl, rfl⟩ := h
    obtain ⟨hw', hk'⟩ := hw1.calls w1.held.tail
    have hkept := hk0.trans (hk1.trans hk')
    exact ⟨hw', hkept.of_nil, nofun, fun _ _ => hkept⟩
  | ok saved =>
  obtain ⟨w2, h2, h⟩ := h
  obtain ⟨hw1', hk1'⟩ := hw1.calls (saved.cells :: w1.held)
  have hbefore := hk0.trans (hk1.trans hk1')
  obtain ⟨hw2, hk2, hinstalled, hfailed⟩ :=
    recompile_some hr hw1' (hbefore.cached path head hhead) h2
  cases result with
  | error fault =>
    cases h
    obtain ⟨hw', hk'⟩ := hw2.calls w2.held.tail.tail
    have hkept := hbefore.trans ((hfailed fault rfl).1.trans hk')
    exact ⟨hw', hkept.of_nil, nofun, fun _ _ => hkept⟩
  | ok _ =>
  obtain ⟨w3, h3, rfl⟩ := h
  obtain ⟨hw2', hk2'⟩ := hw2.calls w2.held.tail
  obtain ⟨hw3, hk3⟩ := (follows_restoreState hr.evolving head saved).leads h3 hw2'
  obtain ⟨hw', hk'⟩ := hw3.calls w3.held.tail
  have hafter := hk2'.trans (hk3.trans hk')
  refine ⟨hw', hbefore.of_nil.trans (hk2.trans hafter.of_nil), fun _ => ?_, nofun⟩
  obtain ⟨code, hcode, hreads⟩ := hinstalled rfl
  -- the source is not replaced while the state is saved
  rw [hbefore.held head hlt List.not_mem_nil] at hreads
  exact ⟨code, hafter.installed hcode, hreads.of_kept hbefore⟩

end

end Live

namespace World

/-! ### The cache -/

/-- The state with other files marked as being compiled. -/
abbrev withCompiling (w : World) (compiling : List String) : World :=
  { w with cache := { w.cache with compiling } }

theorem calm_compiling (w : World) (compiling : List String) :
    w.Calm (w.withCompiling compiling) where
  size := rfl
  script _ := Script.Same.alike (.refl _)
  lambdas := rfl
  single hs := hs
  find? _ _ := rfl
  tended ht := ht
  records _ _ hc := hc.congr rfl rfl

variable {w w' : World} {path : String}

theorem Kept.while_compiling {replaced read : List String}
    (hpath : path ∉ w.cache.compiling)
    (h : (w.withCompiling (w.cache.compiling ++ [path])).Kept replaced read w') :
    w.Kept replaced read (w'.withCompiling (w'.cache.compiling.filter (· != path))) := by
  refine { h with
    compiling := ?_
    records := fun c hc => (h.records c (hc.congr rfl rfl)).congr rfl rfl }
  have hself : w.cache.compiling.filter (· != path) = w.cache.compiling :=
    List.filter_eq_self.2 fun p hp => bne_iff_ne.2 fun heq => hpath (heq ▸ hp)
  rw [h.compiling, List.filter_append, hself]
  simp

theorem sound_setSource (hw : w.Sound) (s : ScriptId) (source : Source) :
    (w.modifyScript s fun c => { c with source }).Sound ∧
      w.Kept [(w.script s).path] [(w.script s).path]
        (w.modifyScript s fun c => { c with source }) := by
  have hscript (t : ScriptId) (ht : (w.script t).path ∉ [(w.script s).path]) :
      (w.modifyScript s fun c => { c with source }).script t = w.script t := by
    rw [script_modifyScript, if_neg]
    rintro ⟨rfl, -⟩
    exact ht (List.mem_singleton.2 rfl)
  have h : w.Calm (w.modifyScript s fun c => { c with source }) :=
    { size := Array.size_modify
      script := fun t => by
        rw [script_modifyScript]
        split
        · next hts => exact hts.1 ▸ (rfl : Script.Alike (w.script s) { w.script s with source })
        · exact Script.Same.alike (.refl _)
      lambdas := rfl
      single := fun hs => hs
      find? := fun _ _ => rfl
      tended := fun ht => ht
      records := fun _ _ hc => hc.congr rfl rfl }
  refine ⟨h.sound hw, Nat.le_of_eq h.size.symm, rfl, fun _ _ hp => hp, fun _ => rfl,
    fun t _ => (h.script t).path, fun t hfree _ => ?_, fun t _ hread => ?_, fun _ hc =>
      hc.congr rfl rfl⟩
  · rw [hscript t hfree]
    exact .refl _
  · rw [hscript t hread]

theorem Kept.narrow (h : w.Kept [path] [] w')
    (hvalid : ∀ s, (w.script s).path = path → ¬(w.script s).isValid) : w.Kept [] [] w' :=
  { h with script := fun s _ hv => h.script s (fun hp => hvalid s (List.mem_singleton.1 hp) hv) hv }

end World

def Cache.finish (c : Cache) (path : String) : Cache :=
  match c.shallow.find? path with
  | some s => { c with shallow := c.shallow.erase path, full := c.full.insert path s }
  | none => c

namespace Cache

variable {c : Cache} (hc : c.Single) (path : String)
include hc

theorem find?_finish (other : String) : (c.finish path).find? other = c.find? other := by
  unfold finish
  split
  · next s hs =>
    unfold find?
    by_cases h : other = path
    · subst h
      rw [Table.find?_insert_self, hc other s hs, hs]
      rfl
    · rw [Table.find?_insert_of_ne _ _ h, Table.find?_erase_of_ne _ h]
  · rfl

theorem Single.finish : (c.finish path).Single := by
  intro other t ht
  unfold Cache.finish at ht ⊢
  split at ht
  · next s hs =>
    by_cases h : other = path
    · subst h
      rw [Table.find?_erase_self] at ht
      cases ht
    · rw [Table.find?_erase_of_ne _ h] at ht
      rw [Table.find?_insert_of_ne _ _ h]
      exact hc other t ht
  · exact hc other t ht

end Cache

theorem World.keeps_finish (w : World) (path : String) (references : Table String (List String)) :
    w.Keeps { w with cache := { w.cache.finish path with references } } := by
  intro hw
  have hrest : (w.cache.finish path).compiling = w.cache.compiling ∧
      (w.cache.finish path).dependents = w.cache.dependents := by
    unfold Cache.finish
    split <;> exact ⟨rfl, rfl⟩
  have h : w.Calm { w with cache := { w.cache.finish path with references } } :=
    { size := rfl
      script := fun _ => Script.Same.alike (.refl _)
      lambdas := rfl
      single := fun hs => hs.finish path
      find? := fun hs other => Cache.find?_finish hs path other
      tended := fun ht => ht
      records := fun _ _ hc => hc.congr rfl hrest.2 }
  exact ⟨h.sound hw, h.kept hw (fun _ => .refl _) hrest.1 fun _ => rfl⟩

namespace Live

open World

variable {r : Runner} (hr : r.Keeping) {w w' : World} {path : String} {s : ScriptId}
include hr

/-! ### Compiling and updating -/

theorem keeping_finishFile (path : String) : Evolving World.keeping (finishFile r path) := by
  refine .bind .get fun w0 => .bind (.modify fun w => ?_) fun _ => ?_
  · have hfinish := w.keeps_finish path ((w.cache.finish path).references.erase path)
    exact hfinish
  · exact .forM (fun other => .done (hr.evolving.full _)) _

variable {result : Except ScriptFault ScriptId}

omit hr in
/-- The stages of compiling a file: it is reloaded while it is marked, and brought in if that went
well. -/
theorem compileFile_run (h : compileFile r path s w = some (result, w')) :
    (path ∈ w.cache.compiling ∧ w' = w ∧ result = .ok s) ∨
    path ∉ w.cache.compiling ∧ ∃ reloaded v,
      reload r s true (w.withCompiling (w.cache.compiling ++ [path])) = some (reloaded, v) ∧
      ((∃ fault, result = .error fault ∧
        w' = v.withCompiling (v.cache.compiling.filter (· != path))) ∨
        reloaded = .ok () ∧ result = .ok s ∧
          finishFile r path (v.withCompiling (v.cache.compiling.filter (· != path))) =
          some ((), w')) := by
  replace h := of_get_bind h
  split at h
  · next hmem =>
    cases h
    exact .inl ⟨by simpa using hmem, rfl, rfl⟩
  · next hmem =>
  obtain ⟨_, w1, h1, h⟩ := bind_some.1 h
  cases h1
  obtain ⟨reloaded, v, h2, h⟩ := bind_some.1 h
  obtain ⟨_, w3, h3, h⟩ := bind_some.1 h
  cases h3
  refine .inr ⟨by simpa using hmem, reloaded, v, h2, ?_⟩
  cases reloaded with
  | error fault =>
    cases h
    exact .inl ⟨_, rfl, rfl⟩
  | ok _ =>
    obtain ⟨_, w4, h4, h⟩ := bind_some.1 h
    cases h
    exact .inr ⟨rfl, rfl, h4⟩

theorem compileFile_some (hw : w.Sound) (hs : w.cache.find? path = some s)
    (h : compileFile r path s w = some (result, w')) :
    (path ∈ w.cache.compiling ∧ w' = w ∧ result = .ok s) ∨
    (path ∉ w.cache.compiling ∧ w'.Sound ∧ w.Kept [path] [] w' ∧ ∀ t, result = .ok t → t = s ∧
      ∃ code, w'.Installed s code ∧ w.Reads path (w.script s).source code) := by
  refine (compileFile_run h).imp_right ?_
  rintro ⟨hnot, reloaded, w2, h2, h⟩
  refine ⟨hnot, ?_⟩
  have hw1 := (w.calm_compiling (w.cache.compiling ++ [path])).sound hw
  have hhead := hw1.head_of_cached hs
  obtain ⟨hw2, hk2, hinstalled, -⟩ := reload_some hr hw1 (hs.trans (congrArg some hhead.symm)) h2
  rw [hhead] at hinstalled
  have hw3 := (w2.calm_compiling (w2.cache.compiling.filter (· != path))).sound hw2
  have hk3 := Kept.while_compiling hnot hk2
  rcases h with ⟨fault, rfl, rfl⟩ | ⟨rfl, rfl, h4⟩
  · exact ⟨hw3, hk3, nofun⟩
  obtain ⟨hw', hk'⟩ := (keeping_finishFile hr path).leads h4 hw3
  refine ⟨hw', hk3.trans hk'.of_nil, fun t ht => ?_⟩
  cases ht
  obtain ⟨code, hcode, hreads⟩ := hinstalled rfl
  exact ⟨rfl, code, hk'.installed hcode, hreads⟩

theorem updateFile_some (hw : w.Sound) (hs : w.cache.find? path = some s)
    (hnot : path ∉ w.cache.compiling) (h : updateFile r path s w = some (result, w')) :
    w'.Sound ∧ w.Kept [path] [path] w' ∧ ∀ t, result = .ok t → t = s ∧
      ∃ source, w.work.source path = .ok source ∧ (w'.script s).source.digest = source.digest ∧
        ((w' = w ∧ (w.script s).isValid) ∨ ∃ code, w'.Installed s code ∧
          code.hash = source.digest) := by
  obtain ⟨hlt, hpath, -⟩ := hw.cached path s hs
  replace h := of_get_bind h
  cases hsource : w.work.source path with
  | error fault =>
    rw [hsource] at h
    cases h
    exact ⟨hw, .refl _ _ w, nofun⟩
  | ok source =>
  rw [hsource] at h
  dsimp only at h
  split at h
  · next hsame =>
    cases h
    refine ⟨hw, .refl _ _ w, fun t ht => ?_⟩
    cases ht
    rw [Bool.and_eq_true, beq_iff_eq, sourceDigest, hw.head_of_cached hs] at hsame
    exact ⟨rfl, source, rfl, hsame.2.symm, .inl ⟨rfl, hsame.1⟩⟩
  · obtain ⟨_, w1, h1, h⟩ := bind_some.1 h
    cases h1
    have hscript : (w.modifyScript s fun c => { c with source }).script s =
        { w.script s with source } := by
      rw [script_modifyScript, if_pos ⟨rfl, hlt⟩]
    obtain ⟨hw1, hk1⟩ := sound_setSource hw s source
    rw [hpath] at hk1
    rcases compileFile_some hr hw1 hs h with ⟨hmem, -⟩ | ⟨-, hw', hk', hok⟩
    · exact absurd hmem hnot
    · have hkept := hk'.mono (List.Subset.refl _) (List.nil_subset [path])
      refine ⟨hw', hk1.trans hkept, fun t ht => ?_⟩
      obtain ⟨rfl, code, hcode, read, hread, hhash⟩ := hok t ht
      have hheld := hk'.held t (Nat.lt_of_lt_of_eq hlt Array.size_modify.symm) List.not_mem_nil
      rw [hscript] at hheld hread
      refine ⟨rfl, source, rfl, congrArg _ hheld, .inr ⟨code, hcode, ?_⟩⟩
      -- whether the source or the file is read makes no difference here
      have hread' : w.work.source path = .ok read := by
        split at hread
        · exact hread
        · exact hsource.trans hread
      rw [hhash, Except.ok.inj (hsource.symm.trans hread')]

/-! ### The script of a file -/

/-- Loading a file changes no class in use, and gives the script that is found for the file. -/
theorem fullScript_some (hw : w.Sound) (h : fullScript r path false w = some (result, w')) :
    w'.Sound ∧ w.Kept [] [] w' ∧ ∀ s, result = .ok s → w'.cache.find? path = some s := by
  replace h := of_get_bind h
  generalize hfound : Option.or _ _ = found at h
  cases found with
  | some s =>
    cases h
    refine ⟨hw, .refl _ _ w, fun t ht => ?_⟩
    cases ht
    rcases Option.or_eq_some_iff.1 hfound with hfull | ⟨-, hcached⟩
    · obtain ⟨hfull, -⟩ := Option.filter_eq_some_iff.1 hfull
      rw [Cache.find?, hfull]
      rfl
    · exact (Option.filter_eq_some_iff.1 hcached).1
  | none =>
  obtain ⟨found, w1, h1, h⟩ := bind_some.1 h
  obtain ⟨hw1, hk1, hentered⟩ := shallow_some hw h1
  cases found with
  | error fault =>
    cases h
    exact ⟨hw1, hk1, nofun⟩
  | ok s =>
  have hcached := (hentered s rfl).1
  obtain ⟨w2, w3, hstill2, h, hstill3⟩ := holding_some h
  obtain ⟨hw2, hk2⟩ := hstill2.keeps hw1
  have hcached2 := hk2.cached path s hcached
  suffices hrest : w3.Sound ∧ w2.Kept [] [] w3 ∧ ∀ t, result = .ok t → t = s by
    obtain ⟨hw3, hk3, hok⟩ := hrest
    obtain ⟨hw', hk'⟩ := hstill3.keeps hw3
    have hkept := hk3.trans hk'
    exact ⟨hw', hk1.trans (hk2.trans hkept), fun t ht => hok t ht ▸ hkept.cached path s hcached2⟩
  obtain ⟨_, _, h2, h⟩ := bind_some.1 (show (get >>= _ : Live _) w2 = _ from h)
  cases h2
  split at h
  · obtain ⟨_, w4, h4, h⟩ := bind_some.1 h
    cases h
    obtain ⟨hw3, hk3⟩ := (keeping_finishFile hr path).leads h4 hw2
    exact ⟨hw3, hk3, fun t ht => (Except.ok.inj ht).symm⟩
  · next hinvalid =>
    rcases compileFile_some hr hw2 hcached2 h with ⟨-, rfl, rfl⟩ | ⟨-, hw3, hk3, hok⟩
    · exact ⟨hw2, .refl _ _ _, fun t ht => (Except.ok.inj ht).symm⟩
    · refine ⟨hw3, hk3.narrow fun t ht hv => hinvalid ?_, fun t ht => (hok t ht).1⟩
      obtain ⟨head, hhead, hv⟩ := hw2.head t hv
      rw [ht, hcached2] at hhead
      exact Option.some.inj hhead ▸ hv

theorem fullScript_update_some (hw : w.Sound) (hidle : path ∉ w.cache.compiling)
    (h : fullScript r path true w = some (result, w')) :
    w'.Sound ∧ w.Kept [path] [path] w' ∧ ∀ s, result = .ok s → w'.cache.find? path = some s ∧
      ∃ source, w.work.source path = .ok source ∧ (w'.script s).source.digest = source.digest ∧
        ((w' = w ∧ (w.script s).isValid) ∨ ∃ code, w'.Installed s code ∧
          code.hash = source.digest) := by
  replace h := of_get_bind h
  have hfound : ((w.cache.full.find? path).filter fun _ => !true).or
      ((w.cache.find? path).filter fun _ => w.cache.compiling.contains path) = none := by
    rw [show w.cache.compiling.contains path = false by simpa using hidle]
    simp
  rw [hfound] at h
  obtain ⟨found, w1, h1, h⟩ := bind_some.1 h
  obtain ⟨hw1, hk1, hentered⟩ := shallow_some hw h1
  cases found with
  | error fault =>
    cases h
    exact ⟨hw1, hk1.of_nil, nofun⟩
  | ok s =>
  obtain ⟨hcached, hnew⟩ := hentered s rfl
  obtain ⟨w3, hupdate, rfl⟩ := holding_eq h
  obtain ⟨hw2, hk2⟩ := hw1.calls ([.script s] :: w1.held)
  have hkept := hk1.trans hk2
  obtain ⟨hw3, hk3, hok⟩ := updateFile_some hr hw2 (hk2.cached path s hcached)
    (hkept.compiling.symm ▸ hidle) hupdate
  obtain ⟨hw', hk'⟩ := hw3.calls w3.held.tail
  refine ⟨hw', hkept.of_nil.trans (hk3.trans hk'.of_nil), fun t ht => ?_⟩
  obtain ⟨rfl, source, hsource, hdigest, hdone⟩ := hok t ht
  refine ⟨(hk3.trans hk'.of_nil).cached path t (hk2.cached path t hcached), source,
    (hkept.source path).symm.trans hsource, hdigest, ?_⟩
  rcases hdone with ⟨rfl, hvalid⟩ | hcode
  · rcases hnew with rfl | hblank
    · exact .inl ⟨rfl, hvalid⟩
    · rw [show (w1.script t).isValid = true from hvalid] at hblank
      cases hblank
  · exact .inr hcode

end Live

/-- Running code and bringing in files, to any depth, keep a sound project sound and leave classes
in use alone. -/
theorem Runner.keeping_within (n : Nat) : (Runner.within n).Keeping := by
  induction n with
  | zero =>
    exact ⟨⟨fun _ _ _ _ => .sure .failure, fun _ => .failure⟩, fun _ h => by cases h⟩
  | succ n ih =>
    refine ⟨⟨fun _ _ _ _ => Attempt.evolving_execute ih.evolving _ _ _ _, fun path =>
      .of_leads fun w _ w' h hw => ?_⟩, fun hw h => ?_⟩
    · obtain ⟨hw', hk', -⟩ := Live.fullScript_some ih hw h
      exact ⟨hw', hk'⟩
    · exact (Live.fullScript_some ih hw h).2.2 _ rfl

theorem Runner.keeping_standard : Runner.standard.Keeping := Runner.keeping_within _

end HotScript
