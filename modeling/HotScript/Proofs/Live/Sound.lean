import HotScript.Proofs.Live.Tracking

/-!
What holds of a running project at all times.

`World.Sound` says how scripts, the cache, installed code and units hang together, and `World.Kept`
what an operation leaves alone. Running code brings in files and may make classes valid, but it
leaves those alone that are (`World.keeping`).
-/

namespace HotScript

/-- The same class, apart from what running code changes in it and from the source it is to be
compiled from. -/
def Script.Alike (x y : Script) : Prop := x.Same { y with source := x.source }

namespace Script

variable {x y z : Script}

theorem Same.alike (h : x.Same y) : x.Alike y := by
  have hs : { y with source := x.source } = y := by rw [← h.source]
  rw [Alike, hs]
  exact h

namespace Alike

section

variable (h : x.Alike y)

include h

theorem same : x.Same { y with source := x.source } := h

theorem path : y.path = x.path := h.same.path
theorem outer : y.outer = x.outer := h.same.outer
theorem code : y.code = x.code := h.same.code
theorem file : y.file = x.file := h.same.file
theorem base : y.base = x.base := h.same.base
theorem inner : y.inner = x.inner := h.same.inner
theorem nested : y.nested = x.nested := h.same.nested
theorem lambdas : y.lambdas = x.lambdas := h.same.lambdas
theorem isValid : y.isValid = x.isValid := h.same.isValid

theorem trans (h' : y.Alike z) : x.Alike z := by
  have hz : { z with source := x.source } =
      { { z with source := y.source } with source := x.source } := rfl
  rw [Alike, Same, ← h.same.eq]
  rw [hz, ← h'.same.eq]

end

end Alike

end Script

/-- No two classes of a file have the same qualified name. -/
def FileCode.Named (code : FileCode) : Prop := (code.classes.toList.map (·.ref.qualified)).Nodup

/-- A file is either still to be compiled or not. -/
def Cache.Single (c : Cache) : Prop :=
  ∀ path s, c.shallow.find? path = some s → c.full.find? path = none

namespace World

/-- The base of a class is the valid class that its code names.  If that is in another file and was
installed earlier, it has the layout that the class was compiled for. -/
def Based (w : World) (s : ScriptId) (c : ClassCode) : Prop :=
  match c.base with
  | .native _ => (w.script s).base = none
  | .script cls =>
    ∃ b, (w.script s).base = some b ∧ (w.script b).isValid ∧ (w.script b).path = cls.path ∧
      (cls.path ≠ (w.script s).path → (w.script b).lambdas < (w.script s).lambdas →
        c.baseMembers = ((w.script b).code.map (·.memberCount)).getD 0)

/-- If no two classes of a file have the same name, each has a script of its own with its code and
stands in the one that the code says, and a base within the file has the layout that was compiled
for. -/
def Together (w : World) (s : ScriptId) (code : FileCode) : Prop :=
  code.Named → (w.family s).Nodup ∧ ∀ i t, (w.family s)[i]? = some t → ∃ c, code.class? i = some c ∧
    (w.script t).code = some c ∧ (w.script t).outer = c.outer.bind ((w.family s)[·]?) ∧
    ∀ cls, c.base = .script cls → cls.path = (w.script s).path →
      ∃ b cb, (w.script t).base = some b ∧ (w.family s)[cls.index]? = some b ∧
        code.class? cls.index = some cb ∧ c.baseMembers = cb.memberCount

/-- What holds of a running project at all times. -/
structure Sound (w : World) : Prop where
  work : w.work.Tended
  single : w.cache.Single
  /-- The script of a file is its head class. -/
  cached : ∀ path s, w.cache.find? path = some s →
    s < w.scripts.size ∧ (w.script s).path = path ∧ (w.script s).outer = none
  nested : ∀ s t, some t ∈ (w.script s).nested.toList →
    t < w.scripts.size ∧ (w.script t).path = (w.script s).path
  inner : ∀ s name t, (w.script s).inner.find? name = some t →
    t < w.scripts.size ∧ (w.script t).path = (w.script s).path
  /-- A class is not one of its own other classes. -/
  apart : ∀ s, some s ∉ (w.script s).nested.toList
  table : ∀ s, s < w.scripts.size → (w.script s).lambdas < w.lambdas.size
  /-- No class is valid before the head class of its file is. -/
  head : ∀ s, (w.script s).isValid → ∃ h, w.cache.find? (w.script s).path = some h ∧
    (w.script h).isValid
  code : ∀ s, (w.script s).isValid → ∃ c, (w.script s).code = some c ∧ c.Contiguous ∧ w.Based s c
  /-- Only the script of a file has the code of the file. -/
  file : ∀ s code, (w.script s).file = some code →
    w.cache.find? (w.script s).path = some s ∧ w.Together s code
  filed : ∀ path s, w.cache.find? path = some s → (w.script s).isValid → (w.script s).file.isSome

variable {w w' : World} {s t : ScriptId}

theorem lt_of_isValid (h : (w.script s).isValid) : s < w.scripts.size := by
  refine Nat.lt_of_not_le fun hge => ?_
  rw [script_of_ge hge] at h
  cases h

theorem Sound.family (hw : w.Sound) (hs : s < w.scripts.size) (ht : t ∈ w.family s) :
    t < w.scripts.size ∧ (w.script t).path = (w.script s).path := by
  rcases List.mem_cons.1 ht with rfl | ht
  · exact ⟨hs, rfl⟩
  · obtain ⟨_, ht, rfl⟩ := List.mem_filterMap.1 ht
    exact hw.nested s t ht

/-! ### What is left alone -/

/-- Nothing is lost, and a class that is valid is the same afterwards, unless its file is one of
those that may be replaced. Only the files that may be read again get another source. -/
structure Kept (replaced read : List String) (w w' : World) : Prop where
  size : w.scripts.size ≤ w'.scripts.size
  compiling : w'.cache.compiling = w.cache.compiling
  cached : ∀ path s, w.cache.find? path = some s → w'.cache.find? path = some s
  source : ∀ path, w'.work.source path = w.work.source path
  path : ∀ s, s < w.scripts.size → (w'.script s).path = (w.script s).path
  script : ∀ s, (w.script s).path ∉ replaced → (w.script s).isValid →
    (w.script s).Same (w'.script s)
  held : ∀ s, s < w.scripts.size → (w.script s).path ∉ read →
    (w'.script s).source = (w.script s).source
  records : ∀ c, w.Records c → w'.Records c

namespace Kept

theorem refl (replaced read : List String) (w : World) : w.Kept replaced read w :=
  ⟨Nat.le_refl _, rfl, fun _ _ h => h, fun _ => rfl, fun _ _ => rfl, fun _ _ _ => .refl _,
    fun _ _ _ => rfl, fun _ h => h⟩

variable {replaced read replaced' read' : List String} {w1 : World}

theorem trans (h : w.Kept replaced read w1) (h' : w1.Kept replaced read w') :
    w.Kept replaced read w' where
  size := Nat.le_trans h.size h'.size
  compiling := h'.compiling.trans h.compiling
  cached path s hs := h'.cached path s (h.cached path s hs)
  source path := (h'.source path).trans (h.source path)
  path s hs := (h'.path s (Nat.lt_of_lt_of_le hs h.size)).trans (h.path s hs)
  script s hfree hvalid := by
    have hsame := h.script s hfree hvalid
    exact hsame.trans (h'.script s (hsame.path.symm ▸ hfree) (hsame.isValid.trans hvalid))
  held s hs hread := by
    refine (h'.held s (Nat.lt_of_lt_of_le hs h.size) ?_).trans (h.held s hs hread)
    exact (h.path s hs).symm ▸ hread
  records c hc := h'.records c (h.records c hc)

theorem mono (h : w.Kept replaced read w') (hreplaced : replaced ⊆ replaced')
    (hread : read ⊆ read') : w.Kept replaced' read' w' :=
  ⟨h.size, h.compiling, h.cached, h.source, h.path, fun s hs => h.script s fun hmem =>
    hs (hreplaced hmem), fun s hs hnot => h.held s hs fun hmem => hnot (hread hmem), h.records⟩

theorem of_nil (h : w.Kept [] [] w') : w.Kept replaced read w' :=
  h.mono (List.nil_subset _) (List.nil_subset _)

end Kept

/-! ### Changes that scripts hardly feel -/

/-- A change of units, of the heap, or of what running code changes in scripts. -/
structure Calm (w w' : World) : Prop where
  size : w'.scripts.size = w.scripts.size
  script : ∀ s, (w.script s).Alike (w'.script s)
  lambdas : w'.lambdas.size = w.lambdas.size
  single : w.cache.Single → w'.cache.Single
  find? : w.cache.Single → ∀ path, w'.cache.find? path = w.cache.find? path
  tended : w.work.Tended → w'.work.Tended
  records : w.work.Tended → ∀ c, w.Records c → w'.Records c

namespace Calm

variable {s : ScriptId}

section

variable (h : w.Calm w')
include h

theorem family (s : ScriptId) : w'.family s = w.family s := by
  rw [World.family, World.family, (h.script s).nested]

theorem based {c : ClassCode} (hb : w.Based s c) : w'.Based s c := by
  unfold Based at hb ⊢
  split
  · next hbase =>
    rw [hbase] at hb
    exact (h.script s).base.trans hb
  · next cls hbase =>
    rw [hbase] at hb
    obtain ⟨b, hlink, hvalid, hpath, hlayout⟩ := hb
    refine ⟨b, (h.script s).base.trans hlink, (h.script b).isValid.trans hvalid,
      (h.script b).path.trans hpath, ?_⟩
    rw [(h.script s).path, (h.script b).lambdas, (h.script s).lambdas, (h.script b).code]
    exact hlayout

theorem together {code : FileCode} (ht : w.Together s code) : w'.Together s code := by
  unfold Together at ht ⊢
  rw [h.family, (h.script s).path]
  intro hnamed
  obtain ⟨hnodup, hclasses⟩ := ht hnamed
  refine ⟨hnodup, fun i t hi => ?_⟩
  rw [(h.script t).code, (h.script t).outer, (h.script t).base]
  exact hclasses i t hi

theorem sound (hw : w.Sound) : w'.Sound where
  work := h.tended hw.work
  single := h.single hw.single
  cached path s hs := by
    rw [h.find? hw.single] at hs
    rw [h.size, (h.script s).path, (h.script s).outer]
    exact hw.cached path s hs
  nested s t ht := by
    rw [(h.script s).nested] at ht
    rw [h.size, (h.script s).path, (h.script t).path]
    exact hw.nested s t ht
  inner s name t ht := by
    rw [(h.script s).inner] at ht
    rw [h.size, (h.script s).path, (h.script t).path]
    exact hw.inner s name t ht
  apart s := by
    rw [(h.script s).nested]
    exact hw.apart s
  table s hs := by
    rw [(h.script s).lambdas, h.lambdas]
    exact hw.table s (h.size ▸ hs)
  head s hs := by
    rw [(h.script s).isValid] at hs
    obtain ⟨head, hhead, hvalid⟩ := hw.head s hs
    rw [(h.script s).path, h.find? hw.single]
    exact ⟨head, hhead, (h.script head).isValid.trans hvalid⟩
  code s hs := by
    rw [(h.script s).isValid] at hs
    obtain ⟨c, hc, hcontiguous, hbased⟩ := hw.code s hs
    exact ⟨c, (h.script s).code.trans hc, hcontiguous, h.based hbased⟩
  file s code hs := by
    rw [(h.script s).file] at hs
    obtain ⟨hcached, htogether⟩ := hw.file s code hs
    rw [(h.script s).path, h.find? hw.single]
    exact ⟨hcached, h.together htogether⟩
  filed path s hs hvalid := by
    rw [h.find? hw.single] at hs
    rw [(h.script s).isValid] at hvalid
    rw [(h.script s).file]
    exact hw.filed path s hs hvalid

theorem kept (hw : w.Sound) (hs : ∀ s, (w.script s).Same (w'.script s))
    (hc : w'.cache.compiling = w.cache.compiling)
    (hsource : ∀ path, w'.work.source path = w.work.source path) : w.Kept [] [] w' where
  size := Nat.le_of_eq h.size.symm
  compiling := hc
  cached path _ hp := (h.find? hw.single path).trans hp
  source := hsource
  path s _ := (hs s).path
  script s _ _ := hs s
  held s _ _ := (hs s).source
  records := h.records hw.work

end

end Calm

theorem Calm.onWork {work : Workspace} (tended : w.work.Tended → work.Tended)
    (units : work.units = w.work.units) :
    w.Calm { w with work } where
  size := rfl
  script _ := Script.Same.alike (.refl _)
  lambdas := rfl
  single hs := hs
  find? _ _ := rfl
  tended := tended
  records _ _ h := h.congr units rfl

theorem Tends.calm (h : w.Tends w') : w.Calm w' where
  size := by rw [h.frame]
  script _ := by
    rw [h.frame]
    exact Script.Same.alike (.refl _)
  lambdas := by rw [h.frame]
  single hs := by
    rw [h.cache]
    exact hs
  find? _ path := by
    rw [h.cache]
    rfl
  tended := h.tended
  records := h.records

theorem Tends.kept (h : w.Tends w') (hw : w.Sound) : w.Kept [] [] w' := by
  refine h.calm.kept hw (fun s => ?_) ?_ h.source
  · rw [h.frame]
    exact .refl _
  · rw [h.cache]

/-! ### Fresh scripts -/

def Lists (w : World) (s t : ScriptId) : Prop :=
  some t ∈ (w.script s).nested.toList ∨ ∃ name, (w.script s).inner.find? name = some t

theorem lt_of_lists (h : w.Lists s t) : s < w.scripts.size := by
  refine Nat.lt_of_not_le fun hge => ?_
  rw [Lists, script_of_ge hge] at h
  rcases h with h | ⟨_, h⟩ <;> cases h

/-- Scripts were added for classes of a file. None of them is valid, and they lead to each other
only. -/
structure Extends (path : String) (w w' : World) : Prop where
  work : w'.work = w.work
  cache : w'.cache = w.cache
  instances : w'.instances = w.instances
  size : w.scripts.size ≤ w'.scripts.size
  lambdas : w.lambdas.size ≤ w'.lambdas.size
  old : ∀ s, s < w.scripts.size → w'.script s = w.script s
  made : ∀ s, w.scripts.size ≤ s → s < w'.scripts.size →
    (w'.script s).lambdas < w'.lambdas.size ∧ (w'.script s).path = path
  blank : ∀ s, w.scripts.size ≤ s → (w'.script s).isValid = false ∧ (w'.script s).file = none
  among : ∀ s t, w.scripts.size ≤ s → w'.Lists s t → w.scripts.size ≤ t ∧ t < w'.scripts.size
  apart : ∀ s, w.scripts.size ≤ s → some s ∉ (w'.script s).nested.toList

namespace Extends

variable {path : String}

theorem refl (path : String) (w : World) : w.Extends path w where
  work := rfl
  cache := rfl
  instances := rfl
  size := Nat.le_refl _
  lambdas := Nat.le_refl _
  old _ _ := rfl
  made s hs hs' := absurd hs' (Nat.not_lt.2 hs)
  blank s hs := by
    rw [script_of_ge hs]
    exact ⟨rfl, rfl⟩
  among _ _ hs ht := absurd (lt_of_lists ht) (Nat.not_lt.2 hs)
  apart s hs := by
    rw [script_of_ge hs]
    exact List.not_mem_nil

theorem addScript (h : w.Extends path w') (qualified name : String) :
    w.Extends path (w'.addScript path qualified name).2 := by
  have hsize : (w'.addScript path qualified name).2.scripts.size = w'.scripts.size + 1 := by
    simp [World.addScript]
  refine ⟨h.work, h.cache, h.instances, ?_, ?_, ?_, ?_, ?_, ?_, ?_⟩
  · rw [hsize]
    exact Nat.le_succ_of_le h.size
  · rw [addScript_lambdas_size]
    exact Nat.le_succ_of_le h.lambdas
  · intro s hs
    rw [script_addScript, if_neg (Nat.ne_of_lt (Nat.lt_of_lt_of_le hs h.size))]
    exact h.old s hs
  · intro s hs hs'
    rw [script_addScript, addScript_lambdas_size]
    split
    · exact ⟨Nat.lt_succ_self _, rfl⟩
    · next hne =>
      obtain ⟨htable, hpath⟩ := h.made s hs (lt_of_lt_addScript hs' hne)
      exact ⟨Nat.lt_succ_of_lt htable, hpath⟩
  · intro s hs
    rw [script_addScript]
    split
    · exact ⟨rfl, rfl⟩
    · exact h.blank s hs
  · intro s t hs ht
    rw [Lists, script_addScript] at ht
    split at ht
    · rcases ht with ht | ⟨_, ht⟩ <;> cases ht
    · obtain ⟨hge, hlt⟩ := h.among s t hs ht
      exact ⟨hge, hsize ▸ Nat.lt_succ_of_lt hlt⟩
  · intro s hs
    rw [script_addScript]
    split
    · exact List.not_mem_nil
    · exact h.apart s hs

variable {s t : ScriptId}

section

variable (h : w.Extends path w') {code : FileCode}

include h

theorem modifyScript (hs : w.scripts.size ≤ s) {f : Script → Script} (same : ∀ x, f x = { x with
      outer := (f x).outer, inner := (f x).inner, nested := (f x).nested, source := (f x).source })
    (nested : ∀ t, some t ∈ (f (w'.script s)).nested.toList →
      w.scripts.size ≤ t ∧ t < w'.scripts.size ∧ t ≠ s)
    (inner : ∀ name t, (f (w'.script s)).inner.find? name = some t →
      w.scripts.size ≤ t ∧ t < w'.scripts.size) : w.Extends path (w'.modifyScript s f) := by
  have hsize : (w'.modifyScript s f).scripts.size = w'.scripts.size := Array.size_modify
  refine ⟨h.work, h.cache, h.instances, hsize ▸ h.size, h.lambdas, ?_, ?_, ?_, ?_, ?_⟩
  · intro t ht
    rw [script_modifyScript, if_neg]
    · exact h.old t ht
    · rintro ⟨rfl, -⟩
      exact absurd ht (Nat.not_lt.2 hs)
  · intro t ht ht'
    rw [hsize] at ht'
    rw [script_modifyScript]
    split
    · next hts =>
      rw [same]
      exact h.made s hs hts.2
    · exact h.made t ht ht'
  · intro t ht
    rw [script_modifyScript]
    split
    · rw [same]
      exact h.blank s hs
    · exact h.blank t ht
  · intro t u ht hu
    rw [Lists, script_modifyScript] at hu
    rw [hsize]
    split at hu
    · rcases hu with hu | ⟨name, hu⟩
      · exact ⟨(nested u hu).1, (nested u hu).2.1⟩
      · exact inner name u hu
    · exact h.among t u ht hu
  · intro t ht
    rw [script_modifyScript]
    split
    · next hts => exact fun hmem => (nested t hmem).2.2 hts.1
    · exact h.apart t ht

theorem lt_of_isValid (hs : (w'.script s).isValid) : s < w.scripts.size := by
  refine Nat.lt_of_not_le fun hge => ?_
  rw [(h.blank s hge).1] at hs
  cases hs

theorem lt_of_file (hs : (w'.script s).file = some code) : s < w.scripts.size := by
  refine Nat.lt_of_not_le fun hge => ?_
  rw [(h.blank s hge).2] at hs
  cases hs

theorem based {c : ClassCode} (hs : s < w.scripts.size) (hb : w.Based s c) : w'.Based s c := by
  unfold Based at hb ⊢
  rw [h.old s hs]
  split
  · next hbase =>
    rw [hbase] at hb
    exact hb
  · next cls hbase =>
    rw [hbase] at hb
    obtain ⟨b, hlink, hvalid, hrest⟩ := hb
    refine ⟨b, hlink, ?_⟩
    rw [h.old b (World.lt_of_isValid hvalid)]
    exact ⟨hvalid, hrest⟩

theorem together (hw : w.Sound) (hs : s < w.scripts.size) (ht : w.Together s code) :
    w'.Together s code := by
  have hfamily : w'.family s = w.family s := by rw [World.family, World.family, h.old s hs]
  unfold Together at ht ⊢
  rw [hfamily, h.old s hs]
  intro hnamed
  obtain ⟨hnodup, hclasses⟩ := ht hnamed
  refine ⟨hnodup, fun i t hi => ?_⟩
  rw [h.old t (hw.family hs (List.mem_of_getElem? hi)).1]
  exact hclasses i t hi

theorem led (ht : w'.Lists s t)
    (hold : s < w.scripts.size → t < w.scripts.size ∧ (w.script t).path = (w.script s).path) :
    t < w'.scripts.size ∧ (w'.script t).path = (w'.script s).path := by
  rcases Nat.lt_or_ge s w.scripts.size with hs | hs
  · obtain ⟨hlt, hpath⟩ := hold hs
    rw [h.old s hs, h.old t hlt]
    exact ⟨Nat.lt_of_lt_of_le hlt h.size, hpath⟩
  · obtain ⟨hge, hlt⟩ := h.among s t hs ht
    exact ⟨hlt, (h.made t hge hlt).2.trans (h.made s hs (lt_of_lists ht)).2.symm⟩

theorem sound (hw : w.Sound) : w'.Sound where
  work := h.work ▸ hw.work
  single := h.cache ▸ hw.single
  cached p s hs := by
    rw [h.cache] at hs
    obtain ⟨hlt, hrest⟩ := hw.cached p s hs
    rw [h.old s hlt]
    exact ⟨Nat.lt_of_lt_of_le hlt h.size, hrest⟩
  nested s t ht := h.led (.inl ht) fun hs => hw.nested s t (h.old s hs ▸ ht)
  inner s name t ht := h.led (.inr ⟨name, ht⟩) fun hs => hw.inner s name t (h.old s hs ▸ ht)
  apart s := by
    rcases Nat.lt_or_ge s w.scripts.size with hs | hs
    · rw [h.old s hs]
      exact hw.apart s
    · exact h.apart s hs
  table s hs := by
    rcases Nat.lt_or_ge s w.scripts.size with hlt | hge
    · rw [h.old s hlt]
      exact Nat.lt_of_lt_of_le (hw.table s hlt) h.lambdas
    · exact (h.made s hge hs).1
  head s hs := by
    have hlt := h.lt_of_isValid hs
    rw [h.old s hlt] at hs ⊢
    rw [h.cache]
    obtain ⟨head, hhead, hvalid⟩ := hw.head s hs
    refine ⟨head, hhead, ?_⟩
    rw [h.old head (World.lt_of_isValid hvalid)]
    exact hvalid
  code s hs := by
    have hlt := h.lt_of_isValid hs
    rw [h.old s hlt] at hs ⊢
    obtain ⟨c, hc, hcontiguous, hbased⟩ := hw.code s hs
    exact ⟨c, hc, hcontiguous, h.based hlt hbased⟩
  file s code hs := by
    have hlt := h.lt_of_file hs
    rw [h.old s hlt] at hs ⊢
    obtain ⟨hcached, htogether⟩ := hw.file s code hs
    exact ⟨h.cache ▸ hcached, h.together hw hlt htogether⟩
  filed p s hs hvalid := by
    have hlt := h.lt_of_isValid hvalid
    rw [h.cache] at hs
    rw [h.old s hlt] at hvalid ⊢
    exact hw.filed p s hs hvalid

theorem kept : w.Kept [] [] w' where
  size := h.size
  compiling := by rw [h.cache]
  cached p s hs := h.cache ▸ hs
  source p := by rw [h.work]
  path s hs := by rw [h.old s hs]
  script s _ hs := by
    rw [h.old s (World.lt_of_isValid hs)]
    exact .refl _
  held s hs _ := by rw [h.old s hs]
  records _ hc := hc.congr (by rw [h.work]) (by rw [h.cache])

end

end Extends

/-! ### Running code -/

/-- Only what running code changes differs. -/
structure Still (w w' : World) : Prop where
  work : ∃ h, w'.work = { w.work with heap := h }
  cache : w'.cache = w.cache
  lambdas : w'.lambdas = w.lambdas
  size : w'.scripts.size = w.scripts.size
  script : ∀ s, (w.script s).Same (w'.script s)

namespace Still

theorem of_scripts (hs : w'.scripts = w.scripts) (hc : w'.cache = w.cache)
    (hl : w'.lambdas = w.lambdas) (hw : ∃ h, w'.work = { w.work with heap := h }) : w.Still w' where
  work := hw
  cache := hc
  lambdas := hl
  size := by rw [hs]
  script _ := by
    rw [World.script, World.script, hs]
    exact .refl _

theorem modifyScript (w : World) (s : ScriptId) {f : Script → Script}
    (h : ∀ x : Script, x.Same (f x)) : w.Still (w.modifyScript s f) where
  work := ⟨w.work.heap, rfl⟩
  cache := rfl
  lambdas := rfl
  size := Array.size_modify
  script t := by
    rw [script_modifyScript]
    split
    · next ht => exact ht.1 ▸ h _
    · exact .refl _

variable {w1 : World}

theorem trans (h : w.Still w1) (h' : w1.Still w') : w.Still w' := by
  obtain ⟨heap, hwork⟩ := h.work
  obtain ⟨heap', hwork'⟩ := h'.work
  exact ⟨⟨heap', by rw [hwork', hwork]⟩, h'.cache.trans h.cache, h'.lambdas.trans h.lambdas,
    h'.size.trans h.size, fun s => (h.script s).trans (h'.script s)⟩

theorem give (w : World) (s : ScriptId) (owner : ObjectRef) (members : Array Value) :
    w.Still (w.give s owner members) := by
  refine .trans ?_ (.modifyScript _ s fun _ => rfl)
  exact .of_scripts rfl rfl rfl ⟨_, rfl⟩

theorem lose (w : World) (s : ScriptId) (owner : ObjectRef) (i : InstanceId) :
    w.Still (w.lose s owner i) := by
  refine .trans ?_ (.modifyScript _ s fun _ => rfl)
  exact .of_scripts rfl rfl rfl ⟨_, rfl⟩

theorem calm (h : w.Still w') : w.Calm w' := by
  obtain ⟨heap, hwork⟩ := h.work
  refine ⟨h.size, fun s => (h.script s).alike, by rw [h.lambdas], fun hs => by rwa [h.cache],
    fun _ path => by rw [h.cache], fun hw => ?_, fun _ c hc => ?_⟩
  · rw [hwork]
    exact ⟨hw.programs, hw.faithful, hw.rooted, ⟨hw.placed.placed, hw.placed.owned⟩⟩
  · exact hc.congr (by rw [hwork]) (by rw [h.cache])

theorem kept (h : w.Still w') (hw : w.Sound) : w.Kept [] [] w' := by
  obtain ⟨heap, hwork⟩ := h.work
  refine h.calm.kept hw h.script (by rw [h.cache]) fun path => ?_
  rw [hwork]
  rfl

end Still

def stillness : Course where
  Leads := Still
  refl w := .of_scripts rfl rfl rfl ⟨_, rfl⟩
  trans := .trans
  calls _ _ _ _ _ := .of_scripts rfl rfl rfl ⟨_, rfl⟩
  heap _ _ := .of_scripts rfl rfl rfl ⟨_, rfl⟩
  objects _ _ _ _ := .of_scripts rfl rfl rfl ⟨_, rfl⟩
  born {w _ _ _ w'} _ _ h := by
    have hborn : w.Still w' := .trans ?_ (.trans (.give _ _ _ _) h)
    · exact ⟨hborn, hborn.trans (.lose ..)⟩
    · exact .of_scripts rfl rfl rfl ⟨_, rfl⟩
  inst _ _ _ _ := .of_scripts rfl rfl rfl ⟨_, rfl⟩
  closure _ _ _ := .of_scripts rfl rfl rfl ⟨_, rfl⟩
  made _ _ _ _ _ _ _ _ := .of_scripts rfl rfl rfl ⟨_, rfl⟩
  script w s _ same := .modifyScript w s fun x => (same x).1

/-- A sound project stays sound, and the classes that are in use are left alone. -/
def Keeps (w w' : World) : Prop := w.Sound → w'.Sound ∧ w.Kept [] [] w'

theorem Still.keeps (h : w.Still w') : w.Keeps w' :=
  fun hw => ⟨h.calm.sound hw, h.kept hw⟩

theorem Sound.calls (hw : w.Sound) (held : List (List Cell)) :
    Sound { w with held } ∧ w.Kept [] [] { w with held } :=
  Still.keeps (stillness.calls w w.frames held w.depth w.log) hw

/-- Running code and what it brings in leave a sound project sound, and classes in use alone. -/
def keeping : Course :=
  .meet stillness stillness Still.lose Still.lose Keeps
    (fun h h' hw =>
      let ⟨hw1, hk⟩ := h hw
      let ⟨hw', hk'⟩ := h' hw1
      ⟨hw', hk.trans hk'⟩)
    fun h _ => Still.keeps h

end World

end HotScript
