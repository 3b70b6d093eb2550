import HotScript.Proofs.Live.Linking

/-!
Installing the code of a file.

The code is put into one class after the other (`World.Swapped`), and then the head class gets that
of the whole file (`World.Sealed`). In between the classes do not fit together, so it is only of the
whole that a sound project stays sound (`World.Sealed.sound`).
-/

namespace HotScript

/-- A class whose code is to be replaced, with the code and the base. -/
abbrev Part := ScriptId × ClassCode × Option ScriptId

/-- What a class has from the code that was installed in it. -/
structure Script.Carries (x : Script) (c : ClassCode) (base : Option ScriptId)
    (scripts : List ScriptId) : Prop where
  outer : x.outer = c.outer.bind fun i => scripts[i]?
  code : x.code = some c
  base : x.base = base
  inner : ∀ name t, x.inner.find? name = some t → t ∈ scripts
  valid : x.isValid

variable {scripts : List ScriptId}

namespace World

/-! ### One class after the other -/

variable {w w1 : World} {s : ScriptId}

section

variable (known : s < w.scripts.size) (c : ClassCode) (base : Option ScriptId)
  (scripts : List ScriptId)
variable (statics : Array Value)
include known

theorem script_swapClass :
    (w.swapClass s c base scripts statics).script s = { w.script s with
        outer := c.outer.bind fun i => scripts[i]?
        code := some c
        base
        inner := ⟨c.inner.entries.filterMap fun e => scripts[e.2]?.map (e.1, ·)⟩
        lambdas := w.lambdas.size
        isValid := true
        staticsReady := false
        statics } := by
  simp [swapClass, script, known]

theorem swapClass_rest :
    (w.swapClass s c base scripts statics).work = w.work ∧
      (w.swapClass s c base scripts statics).cache = w.cache ∧
      (w.swapClass s c base scripts statics).instances = w.instances := by
  simp [swapClass, known]

theorem carries_swapClass :
    ((w.swapClass s c base scripts statics).script s).Carries c base scripts := by
  rw [script_swapClass known]
  refine ⟨rfl, rfl, rfl, fun name t ht => ?_, rfl⟩
  obtain ⟨e, he, rfl⟩ := List.mem_map.1 (Table.mem_values_of_find? ht)
  obtain ⟨a, -, ha⟩ := List.mem_filterMap.1 he
  obtain ⟨u, hu, rfl⟩ := Option.map_eq_some_iff.1 ha
  exact List.mem_of_getElem? hu

end

/-- Classes were given their code one after the other. -/
structure Swapped (scripts : List ScriptId) (parts : List Part) (w w' : World) : Prop where
  work : ∃ h, w'.work = { w.work with heap := h }
  cache : w'.cache = w.cache
  size : w'.scripts.size = w.scripts.size
  lambdas : w.lambdas.size ≤ w'.lambdas.size
  instances : w'.instances = w.instances
  frame : ∀ s, (w'.script s).path = (w.script s).path ∧ (w'.script s).nested = (w.script s).nested ∧
    (w'.script s).file = (w.script s).file ∧ (w'.script s).source = (w.script s).source
  others : ∀ s, s ∉ parts.map (·.1) → w'.script s = w.script s
  carries : ∀ s, s ∈ parts.map (·.1) → ∃ c base, (s, c, base) ∈ parts ∧
    (w'.script s).Carries c base scripts ∧ w.lambdas.size ≤ (w'.script s).lambdas ∧
    (w'.script s).lambdas < w'.lambdas.size

variable {w' : World}

theorem Swapped.nil (w : World) (scripts : List ScriptId) : Swapped scripts [] w w where
  work := ⟨_, rfl⟩
  cache := rfl
  size := rfl
  lambdas := Nat.le_refl _
  instances := rfl
  frame _ := ⟨rfl, rfl, rfl, rfl⟩
  others _ _ := rfl
  carries _ hs := absurd hs List.not_mem_nil

theorem Swapped.cons {parts : List Part} {c : ClassCode} {base : Option ScriptId}
    {statics : Array Value} {heap : Heap} (hs : s < w.scripts.size)
    (h : Swapped scripts parts ((w.withHeap heap).swapClass s c base scripts statics) w') :
    Swapped scripts ((s, c, base) :: parts) w w' := by
  have known : s < (w.withHeap heap).scripts.size := hs
  obtain ⟨hwork, hcache, hinstances⟩ := swapClass_rest known c base scripts statics
  have hsize : _ = w.lambdas.size + 1 := swapClass_lambdas_size known c base scripts statics
  have hlambdas := h.lambdas
  have hself := script_swapClass known c base scripts statics
  have hcarries := carries_swapClass known c base scripts statics
  obtain ⟨heap', hheap'⟩ := h.work
  refine ⟨⟨heap', by rw [hheap', hwork]; rfl⟩, h.cache.trans hcache,
    h.size.trans (swapClass_scripts_size c base scripts statics), by omega,
    h.instances.trans hinstances, fun t => ?_, fun t ht => ?_, fun t ht => ?_⟩
  · obtain ⟨hpath, hnested, hfile, hsource⟩ := h.frame t
    rw [hpath, hnested, hfile, hsource]
    by_cases hts : t = s
    · subst hts
      rw [hself]
      exact ⟨rfl, rfl, rfl, rfl⟩
    · rw [script_swapClass_of_ne known c base scripts statics hts]
      exact ⟨rfl, rfl, rfl, rfl⟩
  · rw [List.map_cons, List.mem_cons, not_or] at ht
    exact (h.others t ht.2).trans (script_swapClass_of_ne known c base scripts statics ht.1)
  · by_cases hmem : t ∈ parts.map (·.1)
    · -- the class is given its code once more later on
      obtain ⟨c', base', hpart, hc, hle, hlt⟩ := h.carries t hmem
      exact ⟨c', base', List.mem_cons_of_mem _ hpart, hc, by omega, hlt⟩
    · have hts : t = s := by
        rw [List.map_cons, List.mem_cons] at ht
        exact ht.resolve_right hmem
      subst hts
      rw [h.others t hmem]
      refine ⟨c, base, .head _, hcarries, ?_⟩
      rw [hself]
      show w.lambdas.size ≤ w.lambdas.size ∧ w.lambdas.size < w'.lambdas.size
      omega

end World

theorem Live.swapped_of_forM {parts : List Part} {w w' : World} {u : PUnit}
    (hparts : ∀ s ∈ parts.map (·.1), s < w.scripts.size) (h : (parts.forM fun (s, c, base) => do
      let statics ← staticDefaults c
      modify fun w : World => w.swapClass s c base scripts statics) w = some (u, w')) :
    World.Swapped scripts parts w w' := by
  induction parts generalizing w with
  | nil =>
    cases h
    exact .nil _ scripts
  | cons part parts ih =>
    obtain ⟨s, c, base⟩ := part
    obtain ⟨_, w2, h1, h⟩ := bind_some.1 h
    obtain ⟨statics, w1, h0, h1⟩ := bind_some.1 h1
    obtain ⟨_, heap, hrun⟩ := staticDefaults_run c w
    cases hrun.symm.trans h0
    cases h1
    refine .cons (hparts s (.head _)) (ih (fun t ht => ?_) h)
    rw [World.swapClass_scripts_size]
    exact hparts t (.tail _ ht)

namespace World

/-! ### The whole file -/

/-- Everything is there for the code of a file to be installed. -/
structure Ready (w : World) (path : String) (head : ScriptId) (rest : List ScriptId)
    (code : FileCode) (bases : List (Option ScriptId)) : Prop where
  cached : w.cache.find? path = some head
  place : ∀ s ∈ rest, s ≠ head ∧ s < w.scripts.size ∧ (w.script s).path = path
  length : rest.length + 1 = code.classes.size
  distinct : code.Named → rest.Nodup
  sound : code.Sound
  linked : List.Forall₂ (w.Linked path (head :: rest) code) code.classes.toList bases

/-- The code of a whole file was installed: each class got its part, and the head class the file. -/
structure Sealed (head : ScriptId) (rest : List ScriptId) (code : FileCode) (parts : List Part)
    (w w' : World) : Prop where
  work : ∃ h, w'.work = { w.work with heap := h }
  cache : w'.cache = w.cache
  size : w'.scripts.size = w.scripts.size
  lambdas : w.lambdas.size ≤ w'.lambdas.size
  path : ∀ s, (w'.script s).path = (w.script s).path
  nested : ∀ s, (w'.script s).nested =
    if s = head then (none :: rest.map some).toArray else (w.script s).nested
  file : ∀ s, (w'.script s).file = if s = head then some code else (w.script s).file
  source : ∀ s, (w'.script s).source = (w.script s).source
  others : ∀ s, s ∉ head :: rest → (w.script s).Same (w'.script s)
  carries : ∀ s, s ∈ head :: rest → ∃ c base, (s, c, base) ∈ parts ∧
    (w'.script s).Carries c base (head :: rest) ∧ w.lambdas.size ≤ (w'.script s).lambdas ∧
    (w'.script s).lambdas < w'.lambdas.size

variable {head : ScriptId} {rest : List ScriptId} {w w' w1 : World} {code : FileCode}
variable {parts : List Part} {path : String} {s : ScriptId} {bases : List (Option ScriptId)}

theorem Swapped.sealed (h : Swapped (head :: rest) parts w w')
    (hparts : parts.map (·.1) = head :: rest) (hhead : head < w.scripts.size) (code : FileCode) :
    Sealed head rest code parts w (w'.modifyScript head fun x =>
      { x with nested := (none :: rest.map some).toArray, file := some code }) := by
  have hlt : head < w'.scripts.size := h.size.symm ▸ hhead
  have hscript (s : ScriptId) : (w'.modifyScript head fun x =>
      { x with nested := (none :: rest.map some).toArray, file := some code }).script
        s = { w'.script s with
          nested := if s = head then (none :: rest.map some).toArray else (w'.script s).nested
          file := if s = head then some code else (w'.script s).file } := by
    rw [script_modifyScript]
    by_cases hs : s = head
    · rw [if_pos ⟨hs, hlt⟩, if_pos hs, if_pos hs, hs]
    · rw [if_neg fun h => hs h.1, if_neg hs, if_neg hs]
  refine ⟨h.work, h.cache, Array.size_modify.trans h.size, h.lambdas, fun s => ?_, fun s => ?_,
    fun s => ?_, fun s => ?_, fun s hs => ?_, fun s hs => ?_⟩
  · rw [hscript]
    exact (h.frame s).1
  · rw [hscript]
    rw [(h.frame s).2.1]
  · rw [hscript]
    rw [(h.frame s).2.2.1]
  · rw [hscript]
    exact (h.frame s).2.2.2
  · have hne : s ≠ head := fun heq => hs (List.mem_cons.2 (.inl heq))
    rw [hscript, if_neg hne, if_neg hne]
    exact h.others s (hparts ▸ hs) ▸ .refl _
  · obtain ⟨c, base, hpart, hc, hlambdas⟩ := h.carries s (hparts ▸ hs)
    rw [hscript]
    exact ⟨c, base, hpart, ⟨hc.outer, hc.code, hc.base, hc.inner, hc.valid⟩, hlambdas⟩

/-- The parts of a file's code, each with the class that it is for. -/
def partsOf (scripts : List ScriptId) (code : FileCode) (bases : List (Option ScriptId)) :
    List Part :=
  scripts.zip (code.classes.toList.zip bases)

theorem getElem?_of_mem_partsOf {part : Part} (h : part ∈ partsOf scripts code bases) :
    ∃ i, scripts[i]? = some part.1 ∧ code.class? i = some part.2.1 ∧
      part.2 ∈ code.classes.toList.zip bases := by
  obtain ⟨i, hi⟩ := List.mem_iff_getElem?.1 h
  rw [partsOf, List.getElem?_zip_eq_some] at hi
  obtain ⟨hs, hrest⟩ := hi
  have hmem := List.mem_of_getElem? hrest
  rw [List.getElem?_zip_eq_some] at hrest
  refine ⟨i, hs, ?_, hmem⟩
  rw [FileCode.class?, ← Array.getElem?_toList]
  exact hrest.1

namespace Ready

variable {w : World} {path : String} {head : ScriptId} {rest : List ScriptId} {code : FileCode}
  {bases : List (Option ScriptId)} (h : w.Ready path head rest code bases)
include h

theorem map_partsOf : (partsOf (head :: rest) code bases).map (·.1) = head :: rest := by
  have hbases : code.classes.toList.length = bases.length := h.linked.length_eq
  have hclasses : code.classes.toList.length = rest.length + 1 :=
    Array.length_toList.trans h.length.symm
  rw [partsOf, List.map_fst_zip]
  rw [List.length_zip, List.length_cons]
  omega

theorem at_path (hw : w.Sound) (hs : s ∈ head :: rest) :
    s < w.scripts.size ∧ (w.script s).path = path := by
  rcases List.mem_cons.1 hs with rfl | hs
  · obtain ⟨hlt, hpath, -⟩ := hw.cached path s h.cached
    exact ⟨hlt, hpath⟩
  · exact (h.place s hs).2

theorem nodup (hnamed : code.Named) : (head :: rest).Nodup :=
  List.nodup_cons.2 ⟨fun hmem => (h.place head hmem).1 rfl, h.distinct hnamed⟩

end Ready

namespace Sealed

variable {w w' : World} {path p : String} {head : ScriptId} {rest : List ScriptId} {code : FileCode}
  {bases : List (Option ScriptId)} {s : ScriptId} {c : ClassCode}
  (h : Sealed head rest code (partsOf (head :: rest) code bases) w w')
include h

theorem family : w'.family head = head :: rest := by
  have hnested := h.nested head
  rw [World.family, hnested]
  simp

theorem based_of_not_mem (hw : w.Sound) (hs : s ∉ head :: rest) (hlt : s < w.scripts.size)
    (hb : w.Based s c) : w'.Based s c := by
  have hsame := h.others s hs
  unfold Based at hb ⊢
  rw [hsame.path, hsame.base, hsame.lambdas]
  split
  · next hbase =>
    rw [hbase] at hb
    exact hb
  · next cls hbase =>
    rw [hbase] at hb
    obtain ⟨b, hlink, hvalid, hpath, hlayout⟩ := hb
    refine ⟨b, hlink, ?_⟩
    by_cases hmem : b ∈ head :: rest
    · obtain ⟨_, _, -, hc, hle, -⟩ := h.carries b hmem
      refine ⟨hc.valid, (h.path b).trans hpath, fun _ hbefore => ?_⟩
      exact absurd (Nat.lt_of_le_of_lt hle (Nat.lt_trans hbefore (hw.table s hlt)))
        (Nat.lt_irrefl _)
    · have hsame' := h.others b hmem
      rw [hsame'.isValid, hsame'.path, hsame'.lambdas, hsame'.code]
      exact ⟨hvalid, hpath, hlayout⟩

variable (hr : w.Ready path head rest code bases)
include hr

theorem outer : (w'.script head).outer = none := by
  obtain ⟨c, base, hpart, hc, -⟩ := h.carries head (.head _)
  obtain ⟨i, hi, hclass, -⟩ := getElem?_of_mem_partsOf hpart
  obtain ⟨c0, hc0, houter⟩ := hr.sound.head
  cases i with
  | zero =>
    obtain rfl := Option.some.inj (hclass.symm.trans hc0)
    rw [hc.outer, houter]
    rfl
  | succ i =>
    exact absurd rfl (hr.place head (List.mem_of_getElem? hi)).1

variable (hw : w.Sound)
include hw

theorem same_of_path (hs : (w.script s).path ≠ path) : (w.script s).Same (w'.script s) :=
  h.others s fun hmem => hs (hr.at_path hw hmem).2

theorem based {base : Option ScriptId} (hs : s ∈ head :: rest)
    (hpart : (s, c, base) ∈ partsOf (head :: rest) code bases)
    (hbase : (w'.script s).base = base) : w'.Based s c := by
  obtain ⟨i, -, -, hmem⟩ := getElem?_of_mem_partsOf hpart
  have hlinked := (List.forall₂_iff_zip.1 hr.linked).2 hmem
  unfold Linked at hlinked
  unfold Based
  rw [h.path s, (hr.at_path hw hs).2]
  split
  · next hnative =>
    rw [hnative] at hlinked
    exact hbase.trans hlinked
  · next cls hscript =>
    rw [hscript] at hlinked
    obtain ⟨b, rfl, hlinked⟩ := hlinked
    refine ⟨b, hbase, ?_⟩
    split at hlinked
    · next hpath =>
      have hb := List.mem_of_getElem? hlinked.1
      obtain ⟨_, _, -, hc, -⟩ := h.carries b hb
      exact ⟨hc.valid, (h.path b).trans ((hr.at_path hw hb).2.trans hpath.symm), fun hne =>
        absurd hpath hne⟩
    · next hpath =>
      obtain ⟨hvalid, hcls, hmembers⟩ := hlinked
      have hsame := h.same_of_path hr hw (hcls ▸ hpath)
      rw [hsame.isValid, hsame.path, hsame.code]
      exact ⟨hvalid, hcls, fun _ _ => hmembers⟩

theorem together : w'.Together head code := by
  intro hnamed
  have hnodup := hr.nodup hnamed
  rw [h.family, h.path head, (hr.at_path hw (.head _)).2]
  refine ⟨hnodup, fun i t ht => ?_⟩
  obtain ⟨c, base, hpart, hc, -⟩ := h.carries t (List.mem_of_getElem? ht)
  obtain ⟨j, hj, hclass, hmem⟩ := getElem?_of_mem_partsOf hpart
  obtain rfl : i = j := by
    obtain ⟨hi, -⟩ := List.getElem?_eq_some_iff.1 ht
    exact (List.getElem?_inj hi hnodup).1 (ht.trans hj.symm)
  rw [hc.base]
  refine ⟨c, hclass, hc.code, hc.outer, fun cls hbase hcls => ?_⟩
  have hlinked := (List.forall₂_iff_zip.1 hr.linked).2 hmem
  unfold Linked at hlinked
  rw [hbase] at hlinked
  obtain ⟨b, rfl, hlinked⟩ := hlinked
  rw [if_pos hcls] at hlinked
  obtain ⟨hb, hmembers⟩ := hlinked
  obtain ⟨hlt, -⟩ := List.getElem?_eq_some_iff.1 hb
  rw [List.length_cons, hr.length] at hlt
  rw [FileCode.class?, Array.getElem?_eq_getElem hlt] at hmembers
  exact ⟨b, _, rfl, hb, Array.getElem?_eq_getElem hlt, hmembers⟩

theorem sound : w'.Sound := by
  -- the script of any other file is not touched
  have hother {p : String} {s : ScriptId} (hs : w.cache.find? p = some s) (hne : s ≠ head) :
      s ∉ head :: rest := by
    intro hmem
    obtain ⟨-, hpath, -⟩ := hw.cached p s hs
    have hp : p = path := hpath.symm.trans (hr.at_path hw hmem).2
    exact hne (Option.some.inj (hs.symm.trans (hp ▸ hr.cached)))
  have hvalid (s : ScriptId) (hs : (w.script s).isValid) : (w'.script s).isValid := by
    by_cases hmem : s ∈ head :: rest
    · obtain ⟨_, _, -, hc, -⟩ := h.carries s hmem
      exact hc.valid
    · exact (h.others s hmem).isValid.trans hs
  refine ⟨?_, h.cache ▸ hw.single, fun p s hs => ?_, fun s t ht => ?_, fun s name t ht => ?_,
    fun s => ?_, fun s hs => ?_, fun s hs => ?_, fun s hs => ?_, fun s c hs =>
      ?_, fun p s hs hv => ?_⟩
  · obtain ⟨heap, hwork⟩ := h.work
    rw [hwork]
    exact ⟨hw.work.programs, hw.work.faithful, hw.work.rooted,
      ⟨hw.work.placed.placed, hw.work.placed.owned⟩⟩
  · rw [h.cache] at hs
    obtain ⟨hlt, hpath, houter⟩ := hw.cached p s hs
    refine ⟨h.size.symm ▸ hlt, (h.path s).trans hpath, ?_⟩
    by_cases hhead : s = head
    · exact hhead ▸ h.outer hr
    · exact (h.others s (hother hs hhead)).outer.trans houter
  · rw [h.size, h.path, h.path]
    rw [h.nested] at ht
    split at ht
    · next hhead =>
      have hmem : t ∈ rest := by simpa using ht
      obtain ⟨-, hlt, hpath⟩ := hr.place t hmem
      exact ⟨hlt, hpath.trans (hhead ▸ (hr.at_path hw (.head _)).2.symm)⟩
    · exact hw.nested s t ht
  · rw [h.size, h.path, h.path]
    by_cases hmem : s ∈ head :: rest
    · obtain ⟨_, _, -, hc, -⟩ := h.carries s hmem
      obtain ⟨hlt, hpath⟩ := hr.at_path hw (hc.inner name t ht)
      exact ⟨hlt, hpath.trans (hr.at_path hw hmem).2.symm⟩
    · rw [(h.others s hmem).inner] at ht
      exact hw.inner s name t ht
  · rw [h.nested]
    split
    · next hhead =>
      intro hmem
      have hmem : s ∈ rest := by simpa using hmem
      exact (hr.place s hmem).1 hhead
    · exact hw.apart s
  · rw [h.size] at hs
    by_cases hmem : s ∈ head :: rest
    · obtain ⟨_, _, -, -, -, hlt⟩ := h.carries s hmem
      exact hlt
    · rw [(h.others s hmem).lambdas]
      exact Nat.lt_of_lt_of_le (hw.table s hs) h.lambdas
  · rw [h.path, h.cache]
    by_cases hmem : s ∈ head :: rest
    · rw [(hr.at_path hw hmem).2]
      obtain ⟨_, _, -, hc, -⟩ := h.carries head (.head _)
      exact ⟨head, hr.cached, hc.valid⟩
    · rw [(h.others s hmem).isValid] at hs
      obtain ⟨t, ht, hv⟩ := hw.head s hs
      exact ⟨t, ht, hvalid t hv⟩
  · by_cases hmem : s ∈ head :: rest
    · obtain ⟨c, base, hpart, hc, -⟩ := h.carries s hmem
      obtain ⟨i, -, hclass, -⟩ := getElem?_of_mem_partsOf hpart
      exact ⟨c, hc.code, hr.sound.contiguous c (Array.mem_of_getElem? hclass),
        h.based hr hw hmem hpart hc.base⟩
    · have hsame := h.others s hmem
      rw [hsame.isValid] at hs
      obtain ⟨c, hc, hcontiguous, hbased⟩ := hw.code s hs
      exact ⟨c, hsame.code.trans hc, hcontiguous, h.based_of_not_mem hw hmem (lt_of_isValid hs)
        hbased⟩
  · rw [h.file] at hs
    rw [h.path, h.cache]
    split at hs
    · next hhead =>
      subst hhead
      cases hs
      rw [(hr.at_path hw (.head _)).2]
      exact ⟨hr.cached, h.together hr hw⟩
    · next hhead =>
      obtain ⟨hcached, htogether⟩ := hw.file s c hs
      obtain ⟨hlt, -, -⟩ := hw.cached _ s hcached
      have hpath : (w.script s).path ≠ path := fun hp =>
        hhead (Option.some.inj (hcached.symm.trans (hp ▸ hr.cached)))
      refine ⟨hcached, fun hnamed => ?_⟩
      obtain ⟨hnodup, hclasses⟩ := htogether hnamed
      have hfamily : w'.family s = w.family s := by
        rw [World.family, World.family, h.nested, if_neg hhead]
      rw [hfamily, h.path]
      refine ⟨hnodup, fun i t ht => ?_⟩
      have hsame := h.same_of_path hr hw (s := t)
        ((hw.family hlt (List.mem_of_getElem? ht)).2.symm ▸ hpath)
      rw [hsame.code, hsame.outer, hsame.base]
      exact hclasses i t ht
  · rw [h.cache] at hs
    rw [h.file]
    split
    · rfl
    · next hhead =>
      rw [(h.others s (hother hs hhead)).isValid] at hv
      exact hw.filed p s hs hv

theorem kept : w.Kept [path] [] w' where
  size := Nat.le_of_eq h.size.symm
  compiling := by rw [h.cache]
  cached p s hs := h.cache ▸ hs
  source p := by
    obtain ⟨heap, hwork⟩ := h.work
    rw [hwork]
    rfl
  path s _ := h.path s
  script s hfree _ := h.same_of_path hr hw fun hp => hfree (List.mem_singleton.2 hp)
  held s _ _ := h.source s
  records _ hc := by
    obtain ⟨heap, hwork⟩ := h.work
    exact hc.congr (by rw [hwork]) (by rw [h.cache])

end Sealed

/-! ### The operations -/

theorem Picked.length_eq (h : w.Picked head ((code.classes.toList.drop 1).map (·.ref.qualified))
    rest w') (hcode : code.Sound) : (head :: rest).length = code.classes.size := by
  obtain ⟨_, hfirst, -⟩ := hcode.head
  obtain ⟨hclasses, -⟩ := Array.getElem?_eq_some_iff.1 hfirst
  have hlength := congrArg List.length h.named
  rw [List.length_map, List.length_map, List.length_drop] at hlength
  have hsize : code.classes.toList.length = code.classes.size := Array.length_toList
  rw [List.length_cons]
  omega

theorem Picked.ready
    (h : w.Picked head ((code.classes.toList.drop 1).map (·.ref.qualified)) rest w1) (hw : w.Sound)
    (hhead : w.cache.find? path = some head) (hcode : code.Sound)
    (hk : w1.Kept [] [] w')
    (hlinked : List.Forall₂ (w'.Linked path (head :: rest) code) code.classes.toList bases) :
    w'.Ready path head rest code bases where
  cached := hk.cached path head (h.fresh.cache.symm ▸ hhead)
  place s hs := by
    obtain ⟨hne, hlt, hpath⟩ := h.place s hs
    obtain ⟨-, hhead, -⟩ := hw.cached path head hhead
    exact ⟨hne, Nat.lt_of_lt_of_le hlt hk.size, (hk.path s hlt).trans (hpath.trans hhead)⟩
  length := h.length_eq hcode
  distinct hnamed := by
    refine List.Nodup.of_map (fun s => (w1.script s).qualified) ?_
    rw [h.named, List.map_drop]
    exact hnamed.sublist (List.drop_sublist _ _)
  sound := hcode
  linked := hlinked

def Installed (w : World) (s : ScriptId) (code : FileCode) : Prop :=
  (w.script s).isValid ∧ (w.script s).file = some code

theorem Kept.installed (hk : w.Kept [] [] w') (h : w.Installed s code) : w'.Installed s code := by
  have hsame := hk.script s List.not_mem_nil h.1
  exact ⟨hsame.isValid.trans h.1, hsame.file.trans h.2⟩

theorem Sealed.installed (h : Sealed head rest code parts w w') : w'.Installed head code := by
  obtain ⟨_, _, -, hc, -⟩ := h.carries head (.head _)
  exact ⟨hc.valid, (h.file head).trans (if_pos rfl)⟩

theorem keeps_registry (w : World) (registry : Registry) :
    w.Keeps { w with work := { w.work with registry } } := by
  intro hw
  have h : w.Calm { w with work := { w.work with registry } } :=
    .onWork (fun ht => ⟨ht.programs, ht.faithful, ht.rooted, ⟨ht.placed.placed, ht.placed.owned⟩⟩)
      rfl
  exact ⟨h.sound hw, h.kept hw (fun _ => .refl _) rfl fun _ => rfl⟩

theorem keeps_registerGlobal (w : World) (s : ScriptId) : w.Keeps (w.registerGlobal s) := by
  unfold registerGlobal
  split
  · exact keeping.refl w
  · exact keeps_registry w _

end World

namespace Live

open World

variable {α : Type} {cells : List Cell} {code : FileCode} {result : Except ReloadFault Unit}
  {w w' : World}

theorem holding_eq {m : Live α} {a : α} (h : holding cells m w = some (a, w')) :
    ∃ w1, m { w with held := cells :: w.held } = some (a, w1) ∧
    w' = { w1 with held := w1.held.tail } := by
  obtain ⟨_, w1, h1, h⟩ := bind_some.1 h
  cases h1
  obtain ⟨_, w2, h2, h⟩ := bind_some.1 h
  obtain ⟨_, w3, h3, h⟩ := bind_some.1 h
  cases h3
  cases h
  exact ⟨w2, h2, rfl⟩

theorem holding_some {m : Live α} {a : α} (h : holding cells m w = some (a, w')) :
    ∃ w1 w2, w.Still w1 ∧ m w1 = some (a, w2) ∧ w2.Still w' := by
  obtain ⟨w1, hm, rfl⟩ := holding_eq h
  exact ⟨_, w1, stillness.calls .., hm, stillness.calls ..⟩

/-- The stages of installing the code of a file: scripts are picked and bases linked; if that went
well, one class after the other is given its code and then the head class that of the file, and
static initializers are run. -/
theorem install_run {r : Runner} {path : String} {head : ScriptId} (hw : w.Sound)
    (hhead : w.cache.find? path = some head) (h : install r head code w = some (result, w')) :
    ∃ rest cells w1 linked w2,
      w.Picked head ((code.classes.toList.drop 1).map (·.ref.qualified)) rest w1 ∧
      w.scriptsFor head code = (head :: rest, w1) ∧
      cells = ((head :: rest) ++ (w.nestedByName head).values).map .script ∧
      linkBases r path (head :: rest) code code.classes.toList
      { w1 with held := cells :: w1.held } =
        some (linked, w2) ∧
      match linked with
      | .error fault => result = .error fault ∧ w' = { w2 with held := w2.held.tail }
      | .ok bases => result = .ok () ∧ ∃ w3 w4,
          ((partsOf (head :: rest) code bases).forM fun (s, c, base) => do
            let statics ← staticDefaults c
            modify fun w : World => w.swapClass s c base (head :: rest) statics)
              w2 = some ((), w3) ∧
          ((head :: rest).forM (runStatics r ((head :: rest).length + 1)))
            (w3.modifyScript head fun x =>
              { x with nested := (none :: rest.map some).toArray, file := some code }) =
                some ((), w4) ∧
          w' = { w4.registerGlobal head with held := (w4.registerGlobal head).held.tail } := by
  obtain ⟨hlt, hpath, -⟩ := hw.cached path head hhead
  replace h := of_get_bind h
  replace h := of_get_bind h
  obtain ⟨scripts, w1, h1, h⟩ := bind_some.1 h
  obtain ⟨rest, hscripts, hpicked⟩ := picked_scriptsFor hw hlt code
  obtain ⟨rfl, rfl⟩ : scripts = (w.scriptsFor head code).1 ∧ w1 = (w.scriptsFor head code).2 :=
    Prod.mk.inj (Option.some.inj h1).symm
  rw [hscripts] at h
  obtain ⟨w5, hrun, rfl⟩ := holding_eq h
  obtain ⟨linked, w2, h2, hrun⟩ := bind_some.1 hrun
  rw [hpath] at h2
  refine ⟨rest, _, _, linked, w2, hpicked, Prod.ext hscripts rfl, rfl, h2, ?_⟩
  cases linked with
  | error fault =>
    cases hrun
    exact ⟨rfl, rfl⟩
  | ok bases =>
    obtain ⟨_, w3, h3, hrun⟩ := bind_some.1 hrun
    obtain ⟨_, _, h4, hrun⟩ := bind_some.1 hrun
    cases h4
    obtain ⟨_, w4, h5, hrun⟩ := bind_some.1 hrun
    obtain ⟨_, _, h6, hrun⟩ := bind_some.1 hrun
    cases h6
    cases hrun
    exact ⟨rfl, w3, w4, h3, h5, rfl⟩

/-- When code is installed in a state, the base of a class is looked for in another, after those of
the classes before it. -/
def Links (r : Runner) (head : ScriptId) (code : FileCode) (w : World) (c : ClassCode) (v : World) :
    Prop :=
  ∃ before behind bases, code.classes.toList = before ++ c :: behind ∧
    let picked := w.scriptsFor head code
    let cells := (picked.1 ++ (w.nestedByName head).values).map .script
    linkBases r (w.script head).path picked.1 code before
      { picked.2 with held := cells :: picked.2.held } = some (.ok bases, v)

variable {r : Runner} (hr : r.Keeping) {w w' : World} {path : String} {head : ScriptId}

include hr

/-- Code is installed as a whole, or a class of it finds no base and no class in use
changes. -/
theorem install_some (hw : w.Sound) (hhead : w.cache.find? path = some head) (hcode : code.Sound)
    (h : install r head code w = some (result, w')) :
    w'.Sound ∧ w.Kept [path] [] w' ∧ (result = .ok () → w'.Installed head code) ∧
      ∀ fault, result = .error fault →
        w.Kept [] [] w' ∧ ∃ c v, Links r head code w c v ∧ Misfit r v path code c fault := by
  obtain ⟨rest, cells, w1, linked, w3, hpicked, hscripts, hcells, h3, h⟩ := install_run hw hhead h
  -- what is picked is still in its place when the bases are linked
  obtain ⟨hw2, hk2⟩ := (hpicked.fresh.sound hw).calls (cells :: w1.held)
  obtain ⟨hw3, hk3⟩ := (follows_linkBases hr.evolving.full _ _ _ _).leads h3 hw2
  obtain ⟨hlinked, hmisfit⟩ := linkBases_some hr hw2 (hpicked.length_eq hcode) h3
  have hk : w.Kept [] [] w3 := hpicked.fresh.kept.trans (hk2.trans hk3)
  cases linked with
  | error fault =>
    obtain ⟨rfl, rfl⟩ := h
    obtain ⟨hw', hk'⟩ := hw3.calls w3.held.tail
    refine ⟨hw', (hk.trans hk').of_nil, nofun, fun fault' hfault => ⟨hk.trans hk', ?_⟩⟩
    obtain ⟨before, c, behind, bases, v, hsplit, hbefore, hmis⟩ := hmisfit fault rfl
    refine ⟨c, v, ⟨before, behind, bases, hsplit, ?_⟩, Except.error.inj hfault ▸ hmis⟩
    rw [hscripts, (hw.cached path head hhead).2.1]
    rw [hcells] at hbefore
    exact hbefore
  | ok bases =>
  obtain ⟨rfl, w4, w6, h4, h6, rfl⟩ := h
  have hready := hpicked.ready hw hhead hcode (hk2.trans hk3) (hlinked bases rfl)
  have hswapped := swapped_of_forM (fun s hs => (hready.at_path hw3 (hready.map_partsOf ▸ hs)).1) h4
  have hsealed := hswapped.sealed hready.map_partsOf
    (hready.at_path hw3 (.head _)).1 code
  have hw5 := hsealed.sound hready hw3
  have hk5 := hk.of_nil.trans (hsealed.kept hready hw3)
  have hinstalled := hsealed.installed
  obtain ⟨hw6, hk6⟩ := (Follows.forM (follows_runStatics hr.evolving _) _).leads h6 hw5
  obtain ⟨hw7, hk7⟩ := keeps_registerGlobal w6 head hw6
  obtain ⟨hw', hk'⟩ := hw7.calls (w6.registerGlobal head).held.tail
  have hlast := hk6.trans (hk7.trans hk')
  exact ⟨hw', hk5.trans hlast.of_nil, fun _ => hlast.installed hinstalled, nofun⟩

end Live

end HotScript
