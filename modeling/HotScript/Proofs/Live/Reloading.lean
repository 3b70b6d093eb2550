import HotScript.Proofs.Live.Restoring

/-!
Reloads that keep state.

One file is reloaded, or several files with everything that refers to them (`Reloading`). Either way
it goes in three phases, and of the entries that the last one writes back, static variables go to
classes of files in use, and instances can be written.
-/

namespace HotScript

/-! ### Reloads that keep state -/

/-- Run a reload that keeps state; the result is the files that are done. -/
def Reloading.run (r : Runner) : Reloading → Live (List String)
  | .one s => do
    let w ← get
    match ← Live.reload r s true with
    | .ok _ => return [(w.script (w.head s)).path]
    | .error _ => return []
  | .many paths => do
    let report ← Live.reloadFiles r paths true
    return report.reloaded

variable {r r' : Runner} {done : List String} {s head : ScriptId} {i : InstanceId} {p : Prepared}

theorem Reloading.below_run (hr : r.Below r') (call : Reloading) :
    Live.Below (call.run r) (call.run r') := by
  cases call with
  | one s =>
    exact .bind .get fun _ => .bind (Live.follows_reload hr s true) fun _ => Live.Below.refl _
  | many paths => exact .done (Live.follows_reloadFiles hr paths true)

variable {call : Reloading} {w w' : World}

theorem Reloading.watched_of_tested
    {test : ScriptId → FunctionCode → Option InstanceId → World → World → Bool} {rule : Rule}
    (htest : ∀ s f bound w w', test s f bound w w' → rule s f bound w w')
    (h : (call.run (.tested test 0x100000000) w).isSome) :
    (call.run (.supervised rule) w).isSome :=
  (call.below_run (Runner.below_watched htest _)).isSome h

theorem Reloading.reached (hw : w.Reached)
    (hcached : ∀ f ∈ call.files w, w.cache.find? f.1 = some f.2)
    (h : call.run .standard w = some (done, w')) : w'.Reached := by
  cases call with
  | one s =>
    replace h := of_get_bind h
    obtain ⟨result, w1, h1, h⟩ := bind_some.1 h
    have hsame : w1 = w' := by
      cases result with
      | ok _ => exact (Prod.mk.inj (Option.some.inj h)).2
      | error _ => exact (Prod.mk.inj (Option.some.inj h)).2
    refine hw.asked (.reload s true) ⟨_, hcached _ (.head _)⟩ ?_
    exact bind_some.2 ⟨result, w1, h1, hsame ▸ rfl⟩
  | many paths =>
    obtain ⟨report, w1, h1, h⟩ := bind_some.1 h
    cases h
    exact hw.asked (.reloadFiles paths true) trivial (bind_some.2 ⟨report, _, h1, rfl⟩)

/-- A reload that got a file done goes in three phases. -/
theorem Reloading.round {path : String} (hr : ∀ used, r.Steady used) (hw : w.Sound)
    (he : w.Enrolled) (hfile : (path, head) ∈ call.files w) (hhead : w.cache.find? path = some head)
    (hplain : ∀ f ∈ call.files w, ∀ s ∈ w.family f.2, w.Plain s)
    (h : call.run r w = some (done, w'))
    (hdone : path ∈ done) : ∃ batch v v', Live.Round r true call done batch w v v' w' := by
  cases call with
  | one s =>
    cases List.mem_singleton.1 hfile
    replace h := of_get_bind h
    obtain ⟨result, w1, h1, h⟩ := bind_some.1 h
    cases result with
    | error fault =>
      cases h
      cases hdone
    | ok _ =>
      cases h
      exact Live.round_reload hr hw he hhead (hplain _ (.head _)) h1
  | many paths =>
    obtain ⟨report, w1, h1, h⟩ := bind_some.1 h
    cases h
    exact Live.round_reloadFiles hr hw he hplain h1

namespace World

variable {used used' : String → Prop}

theorem Settled.mono (h : w.Settled used) (hsub : ∀ path, used' path → used path) :
    w.Settled used' :=
  ⟨h.sound, h.enrolled, fun path hpath => h.inUse path (hsub path hpath)⟩

theorem Fixed.mono (h : w.Fixed used w') (hsub : ∀ path, used' path → used path) :
    w.Fixed used' w' :=
  ⟨h.size, fun s hs hused => h.script s hs (hsub _ hused)⟩

variable {head : ScriptId}

theorem Sound.findClass? (hw : w.Sound) {path : String} {name : String}
    (hhead : w.cache.find? path = some head) (h : w.findClass? head name = some s) :
    w.ClassOf path s := by
  obtain ⟨hlt, hpath, -⟩ := hw.cached path head hhead
  have hinward (names : List String) (t : ScriptId) (ht : w.ClassOf path t)
      (h : w.inward? t names = some s) : w.ClassOf path s := by
    induction names generalizing t with
    | nil =>
      cases h
      exact ht
    | cons n names ih =>
      obtain ⟨t', ht', h⟩ := Option.bind_eq_some_iff.1 h
      obtain ⟨hlt', hpath'⟩ := hw.inner t n t' ht'
      exact ih t' ⟨hlt', hpath'.trans ht.2⟩ h
  unfold World.findClass? at h
  rw [hw.head_of_cached hhead] at h
  dsimp only at h
  split at h
  · cases h
    exact ⟨hlt, hpath⟩
  · exact hinward _ head ⟨hlt, hpath⟩ h
  · exact hinward _ head ⟨hlt, hpath⟩ h

theorem Sound.family_disjoint (hw : w.Sound) {path path' : String} {head head' t : ScriptId}
    (hhead : w.cache.find? path = some head) (hhead' : w.cache.find? path' = some head')
    (ht : t ∈ w.family head) (ht' : t ∈ w.family head') : head = head' := by
  obtain ⟨hlt, hpath, -⟩ := hw.cached _ _ hhead
  obtain ⟨hlt', hpath', -⟩ := hw.cached _ _ hhead'
  have hsame : path = path' := by
    rw [← hpath, ← hpath', ← (hw.family hlt ht).2, (hw.family hlt' ht').2]
  exact Option.some.inj (hhead.symm.trans (hsame ▸ hhead'))

theorem Fixed.family (h : w.Fixed used w') (hlt : head < w.scripts.size)
    (hused : used (w.script head).path) : w'.family head = w.family head := by
  rw [World.family, World.family, (h.script head hlt hused).nested]

end World

theorem Live.Writable.mono {used used' : String → Prop} (h : Live.Writable used w s i)
    (hsub : ∀ path, used' path → used path) : Live.Writable used' w s i :=
  ⟨h.settled.mono hsub, h.valid, h.plain, h.known, h.home⟩

/-! ### What is written back -/

theorem Prepared.static_mem_entries (hsaved : w.Saved p.script p.saved) {name : String}
    {v : Value} : .static s name v ∈ p.entries w' ↔ ∃ u ∈ w.family p.script,
      w'.findClass? p.script (w.script u).qualified = some s ∧ (name, v) ∈ w.savedStatics u := by
  simp only [entries, SavedEntry.ofClass, hsaved.statics, List.mem_append, List.mem_flatMap,
    List.mem_map, Option.mem_toList]
  constructor
  · rintro (⟨_, ⟨u, hu, rfl⟩, s', hs', ⟨⟩, hvalue, heq⟩ | ⟨_, -, heq⟩)
    · cases heq
      exact ⟨u, hu, hs', hvalue⟩
    · cases heq
  · rintro ⟨u, hu, hs, hvalue⟩
    exact .inl ⟨_, ⟨u, hu, rfl⟩, s, hs, (name, v), hvalue, rfl⟩

theorem Prepared.inst_mem_entries (hsaved : w.Saved p.script p.saved)
    {values : List (String × Value)} (h : .inst i values ∈ p.entries w') :
    values = w.values i ∧ ∃ s ∈ w.family p.script, i ∈ (w.script s).instances.values := by
  rcases List.mem_append.1 h with h | h
  · obtain ⟨e, -, h⟩ := List.mem_flatMap.1 h
    obtain ⟨s, -, h⟩ := List.mem_flatMap.1 h
    obtain ⟨_, -, heq⟩ := List.mem_map.1 h
    cases heq
  · obtain ⟨e, he, heq⟩ := List.mem_map.1 h
    cases heq
    obtain ⟨hlisted, hvalues⟩ := hsaved.listed e he
    exact ⟨hvalues, hlisted⟩

namespace Live.Round

open World

variable {keep : Bool} {batch : List Prepared} {v v' : World}
  (h : Round r keep call done batch w v v' w')
include h

theorem find? (hp : p ∈ batch) : v.cache.find? p.path = some p.script := by
  rw [h.poised.find?]
  exact h.cached _ (h.saved p hp).1

theorem heads : v'.Settled v'.Present ∧ ∀ p ∈ batch,
    (v'.cache.find? p.path = some p.script ∧ v'.Present p.path) ∨ ∀ e ∈ p.saved.statics, e.2 = [] :=
  settled_recompiling h.steady h.start h.enrolled h.cached h.poised h.sound h.saved h.compiled

theorem settled : v'.Settled v'.Present ∧ w'.Settled v'.Present ∧ v'.Steady v'.Present w' := by
  have hv' := h.heads.1
  obtain ⟨hw', hsteady⟩ := h.restored.steady (h.steady _) hv'
  exact ⟨hv', hw', hsteady⟩

theorem static_used {name : String} {x : Value}
    (hmem : .static s name x ∈ batch.flatMap (Prepared.entries w')) :
    s < v'.scripts.size ∧ v'.Present (v'.script s).path := by
  obtain ⟨hv', hw', hsteady⟩ := h.settled
  obtain ⟨p, hp, hmem⟩ := List.mem_flatMap.1 hmem
  have hstate := (h.saved p hp).2
  obtain ⟨u, hu, hfind, hvalue⟩ := (Prepared.static_mem_entries hstate).1 hmem
  rcases h.heads.2 p hp with ⟨hhead, hpresent⟩ | hnone
  · rw [hsteady.findClass? hv' hw' hhead hpresent] at hfind
    obtain ⟨hlt, hpath⟩ := hv'.sound.findClass? hhead hfind
    exact ⟨hlt, hpath.symm ▸ hpresent⟩
  · have hnil := hnone ((w.script u).qualified, w.savedStatics u) (by
      rw [hstate.statics]
      exact List.mem_map_of_mem hu)
    rw [show w.savedStatics u = [] from hnil] at hvalue
    cases hvalue

theorem writable (hplain : ∀ f ∈ call.files w, ∀ s ∈ w.family f.2, w'.Plain s)
    {path : String} (hfile : (path, head) ∈ call.files w) (hs : s ∈ w.family head)
    (hi : i ∈ (w.script s).instances.values) : Writable v'.Present v' s i := by
  obtain ⟨hv', -, hsteady⟩ := h.settled
  have hk := h.steady fun _ => False
  obtain ⟨-, henrols, -⟩ := h.compiled.keeps (fun _ => h.find?) hk.toOrderly h.sound
  obtain ⟨hvalid, hknown, hhome⟩ := h.enrolled.listed s i hi
  have hvalid' : (v'.script s).isValid := by
    refine henrols.valid s ?_
    rw [h.poised.script s]
    exact hvalid
  refine ⟨hv', hvalid', fun slot hslot => ?_, ?_, ?_⟩
  · exact hplain _ hfile s hs slot ((hsteady.kept.upholds.mem_slots hv'.sound hvalid').2 hslot)
  · exact Nat.lt_of_lt_of_le hknown (h.poised.instances ▸ henrols.size)
  · rw [henrols.home i (h.poised.instances.symm ▸ hknown), h.poised.inst]
    exact hhome

theorem writable_of_mem (hplain : ∀ f ∈ call.files w, ∀ s ∈ w.family f.2, w'.Plain s)
    {values : List (String × Value)} (hmem : .inst i values ∈ batch.flatMap (Prepared.entries w')) :
    values = w.values i ∧ ∃ s, Writable v'.Present v' s i := by
  obtain ⟨p, hp, hmem⟩ := List.mem_flatMap.1 hmem
  obtain ⟨hfile, hstate⟩ := h.saved p hp
  obtain ⟨hvalues, s, hs, hi⟩ := Prepared.inst_mem_entries hstate hmem
  exact ⟨hvalues, s, h.writable hplain hfile hs hi⟩

end Live.Round

namespace World

theorem plain_of_single {files : List (String × ScriptId)} {path : String}
    (hfiles : files = [(path, head)]) (hfamily : w.family head = [head]) (hplain : w.Plain head)
    (hplain' : w'.Plain head) : ∀ f ∈ files, ∀ s ∈ w.family f.2, w.Plain s ∧ w'.Plain s := by
  intro f hf s hs
  rw [hfiles, List.mem_singleton] at hf
  rw [hf, hfamily, List.mem_singleton] at hs
  exact hs ▸ ⟨hplain, hplain'⟩

theorem written_of_lenient {type : StaticType} {x : Value} {k : World} {stored fresh : Option Value}
    (hlenient : type.provenance.isEnforced = false)
    (h : (∃ y, k.fitted type x = some y ∧ stored = some y) ∨
      k.fitted type x = none ∧ stored = fresh) : stored = some x := by
  rcases h with ⟨y, hy, hstored⟩ | ⟨hnone, -⟩
  · rw [fitted_of_lenient hlenient] at hy
    rw [hstored, ← hy]
  · rw [fitted_of_lenient hlenient] at hnone
    cases hnone

end World

end HotScript
