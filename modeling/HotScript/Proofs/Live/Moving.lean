import HotScript.Proofs.Live.Retention
import HotScript.Proofs.Live.Sessions

/-!
Moving a file to another path.

The classes of the file are renamed with it, and it is found under the new path
(`World.Sound.moveScript`). References that were compiled into its code are not: they give the old
path, and lead out of the file (`World.Reached.moved_file`).
-/

namespace HotScript

/-- Every class of a file but the first stands in one that comes before it. -/
abbrev FileCode.Nested (code : FileCode) : Prop :=
  ∀ i < code.classes.size, i = 0 ∨ ∃ c ∈ code.class? i, ∃ o ∈ c.outer, o < i

/-- A class of a file that goes from one path to another. -/
def Script.moved (source target : String) (c : Script) : Script :=
  { c with
    path := target
    qualified := ((Text.dropStart? c.qualified source).map (target ++ ·)).getD c.qualified
    name := if c.name = source then target else c.name }

namespace Live

variable {r : Runner} {s : ScriptId} {cls : ClassRef} {w : World}

theorem resolveClass_own (h : cls.path = (w.script s).path) :
    resolveClass r s cls w = some (w.memberClass? s cls, w) := by
  show (if cls.path = (w.script s).path then _ else _ : Live (Option ScriptId)) w = _
  rw [if_pos h]
  rfl

theorem resolveClass_other (h : cls.path ≠ (w.script s).path) : resolveClass r s cls w = (do
      match ← r.full cls.path false with
      | .error _ => return none
      | .ok file => return (← get).memberClass? file cls : Live (Option ScriptId)) w := by
  exact congrFun (if_neg h) w

end Live

namespace World

variable {w w' : World} {s t : ScriptId} {source target : String}

theorem cells_number_script (hs : s < w.scripts.size) :
    w.cells[w.number (.script s)]? = some (.script s) := by
  simp [cells, number, List.getElem?_append, hs, Nat.add_assoc]

theorem isScriptAlive_of_family (hs : w.cache.find? source = some s)
    (hlt : ∀ t ∈ w.family s, t < w.scripts.size) (ht : t ∈ w.family s) : w.isScriptAlive t := by
  have hroot : .script s ∈ w.roots := by
    rw [Cache.find?, Option.or_eq_some_iff] at hs
    unfold roots
    rcases hs with hs | ⟨-, hs⟩
    · simp [Table.mem_values_of_find? hs]
    · simp [Table.mem_values_of_find? hs]
  rw [isScriptAlive, isAlive, Bool.or_eq_true, List.contains_iff_mem]
  rcases List.mem_cons.1 ht with rfl | hnested
  · exact .inl hroot
  -- the head class is held by the cache and refers to the others
  refine .inr (decide_eq_true (Retain.settle_pos_iff.2
    ⟨fun j => j = w.number (.script s) ∨ j = w.number (.script t), ?_, .inr rfl⟩))
  have hsize {u : ScriptId} (hu : u ∈ w.family s) : w.number (.script u) < w.cells.length :=
    (List.getElem?_eq_some_iff.1 (cells_number_script (hlt u hu))).1
  rintro j (rfl | rfl)
  · exact ⟨by simpa using hsize (.head _), .inl (List.mem_map_of_mem hroot)⟩
  · refine ⟨by simpa using hsize ht, .inr ⟨_, .inl rfl, ?_⟩⟩
    rw [List.getElem?_toArray, List.getElem?_map, cells_number_script (hlt s (.head _))]
    refine List.mem_map_of_mem (f := w.number) ?_
    obtain ⟨_, hnested, rfl⟩ := List.mem_filterMap.1 hnested
    simp only [successors, List.mem_append, List.mem_filterMap]
    exact .inl (.inl (.inl (.inr ⟨_, hnested, rfl⟩)))

/-! ### Renaming a file -/

theorem foldl_modifyScript {l : List ScriptId} (f : Script → Script) (hl : l.Nodup)
    (hlt : ∀ s ∈ l, s < w.scripts.size) :
    (l.foldl (fun w s => w.modifyScript s f) w).cache = w.cache ∧
      (l.foldl (fun w s => w.modifyScript s f) w).scripts.size = w.scripts.size ∧
      ∀ t, (l.foldl (fun w s => w.modifyScript s f) w).script t =
        if t ∈ l then f (w.script t) else w.script t := by
  induction l generalizing w with
  | nil => exact ⟨rfl, rfl, fun _ => rfl⟩
  | cons s l ih =>
    obtain ⟨hs, hl⟩ := List.nodup_cons.1 hl
    have hsize : (w.modifyScript s f).scripts.size = w.scripts.size := Array.size_modify
    obtain ⟨hcache, hsize', hscript⟩ :=
      ih (w := w.modifyScript s f) hl fun t ht => hsize ▸ hlt t (.tail _ ht)
    refine ⟨hcache, hsize'.trans hsize, fun t => (hscript t).trans ?_⟩
    rw [script_modifyScript]
    by_cases hts : t = s
    · subst hts
      simp [hs, hlt t (.head _)]
    · simp [hts]

/-- A file was moved: its classes are renamed, and it is found under the new path only. -/
structure Moved (source target : String) (s : ScriptId) (w w' : World) : Prop where
  size : w'.scripts.size = w.scripts.size
  script : ∀ t, w'.script t =
    if t ∈ w.family s then (w.script t).moved source target else w.script t
  found : w'.cache.find? target = some s
  gone : w'.cache.find? source = none
  dependents : w'.cache.dependentsOf target = renameIn source target (w.cache.dependentsOf source)

theorem owners_of_move (hne : source ≠ target) (hunused : w.cache.dependentsOf target = []) :
    ((Table.mk ((match w.cache.dependents.find? source with
      | some paths => (w.removeUnit source).cache.dependents.insert target paths
      | none => (w.removeUnit source).cache.dependents).entries.map fun e : String × List String =>
        (e.1, renameIn source target e.2))).find? target).getD [] =
      renameIn source target (w.cache.dependentsOf source) := by
  rw [Table.find?_map, Cache.dependentsOf]
  cases hown : w.cache.dependents.find? source with
  | some paths => simp
  | none =>
    -- nobody waits, so that only the entry of the file itself is erased
    have hdrop : w.removeUnit source = w.dropOne source := by
      simp only [removeUnit, dropUnits, Cache.dependentsOf, hown]
      cases w.cache.dependentCount <;> rfl
    have hnone := Cache.dependentsOf_erase w.cache source target
    rw [if_neg hne.symm, hunused] at hnone
    rw [hdrop]
    exact (Option.getD_map (renameIn source target) [] _).trans (congrArg _ hnone)

theorem Sound.moveScript (hw : w.Sound) (hs : w.cache.find? source = some s)
    (hfree : w.cache.find? target = none) (hunused : w.cache.dependentsOf target = [])
    (hnodup : (w.family s).Nodup) : Moved source target s w (w.moveScript source target) := by
  have hne : source ≠ target := fun h => by simp [← h, hs] at hfree
  obtain ⟨hlt, hpath, -⟩ := hw.cached source s hs
  have htends := Tends.removeUnit w source
  have hcalm := htends.calm
  have hhead := (hcalm.sound hw).head_of_cached ((hcalm.find? hw.single source).trans hs)
  have hrename : (w.removeUnit source).renameFile s target =
      (w.family s).foldl (fun w s => w.modifyScript s (.moved source target))
      (w.removeUnit source) := by
    rw [renameFile, hhead, hcalm.family, (hcalm.script s).path, hpath]
    rfl
  obtain ⟨hcache, hsize, hscript⟩ := foldl_modifyScript (w := w.removeUnit source)
    (Script.moved source target) hnodup fun t ht => hcalm.size ▸ (hw.family hlt ht).1
  rw [← hrename] at hcache hsize hscript
  have hsame (t : ScriptId) : (w.removeUnit source).script t = w.script t := by
    rw [htends.frame]
    rfl
  simp only [hsame] at hscript
  have hfull : (w.removeUnit source).cache.full = w.cache.full := by rw [htends.cache]
  have hshallow : (w.removeUnit source).cache.shallow = w.cache.shallow := by rw [htends.cache]
  have howners := owners_of_move hne hunused
  obtain ⟨hfree, -⟩ := Option.or_eq_none_iff.1 hfree
  rcases Option.or_eq_some_iff.1 hs with hs | ⟨hnone, hs⟩
  · have hnone : w.cache.shallow.find? source = none :=
      Option.eq_none_iff_forall_ne_some.2 fun u hu => by simp [hw.single source u hu] at hs
    simp only [World.moveScript, if_neg hne, moveEntry, hshallow, hfull, hnone, hs, hcache]
    refine ⟨hsize.trans hcalm.size, hscript, ?_, ?_, howners⟩
    · simp [Cache.find?]
    · simp [Cache.find?, Table.find?_insert_of_ne _ _ hne, hnone]
  · simp only [World.moveScript, if_neg hne, moveEntry, hshallow, hfull, hnone, hs, hcache]
    refine ⟨hsize.trans hcalm.size, hscript, ?_, ?_, howners⟩
    · simp [Cache.find?, hfree]
    · simp [Cache.find?, Table.find?_insert_of_ne _ _ hne, hnone]

/-! ### References -/

/-- The classes of a file as its text gives them: different scripts, which stand in each other with
the head class outermost and have names that start with the path. -/
def Arranged (w : World) (s : ScriptId) : Prop :=
  (w.family s).Nodup ∧ ∀ t ∈ w.family s, (∀ o ∈ (w.script t).outer, o ∈ w.family s) ∧ w.head t = s ∧
    Text.startsWith (w.script t).qualified (w.script s).path

/-- The classes of a file that was installed are arranged as in its code, if they have different
names. -/
theorem Sound.arranged {code : FileCode} (hw : w.Sound) (hfile : (w.script s).file = some code)
    (hnamed : code.Named) (hnested : code.Nested)
    (hnames : ∀ t ∈ w.family s, Text.startsWith (w.script t).qualified (w.script s).path) :
    w.Arranged s := by
  obtain ⟨hs, htogether⟩ := hw.file s code hfile
  obtain ⟨hnodup, hclasses⟩ := htogether hnamed
  obtain ⟨hlt, -, hhead⟩ := hw.cached _ s hs
  have hbelow (u : ScriptId) (hu : u ∈ w.family s) : u < w.scripts.size := (hw.family hlt hu).1
  have houter {i : Nat} {t : ScriptId} (hi : (w.family s)[i]? = some t) (hne : i ≠ 0) :
      ∃ o < i, ∃ u, (w.family s)[o]? = some u ∧ (w.script t).outer = some u := by
    obtain ⟨c, hc, -, hstands, -⟩ := hclasses i t hi
    obtain ⟨hsize, -⟩ := Array.getElem?_eq_some_iff.1 hc
    obtain ⟨_, hc', o, ho, hoi⟩ := (hnested i hsize).resolve_left hne
    cases hc.symm.trans hc'
    rw [ho, Option.bind_some] at hstands
    have hlength := Nat.lt_trans hoi (List.getElem?_eq_some_iff.1 hi).1
    rw [List.getElem?_eq_getElem hlength] at hstands
    exact ⟨o, hoi, _, List.getElem?_eq_getElem hlength, hstands⟩
  have hrun (n i : Nat) (t : ScriptId) (hi : (w.family s)[i]? = some t) (hin : i ≤ n) :
      w.outermost n t = s := by
    induction n generalizing i t with
    | zero =>
      cases Nat.le_zero.1 hin
      exact (Option.some.inj hi).symm
    | succ n ih =>
      rw [outermost, outer?]
      by_cases hzero : i = 0
      · subst hzero
        cases hi
        rw [hhead]
        rfl
      · obtain ⟨o, hoi, u, hu, hstands⟩ := houter hi hzero
        have halive := isScriptAlive_of_family hs hbelow (List.mem_of_getElem? hu)
        rw [hstands, Option.filter_some, if_pos halive]
        exact ih o u hu (by omega)
  refine ⟨hnodup, fun t ht => ⟨fun o ho => ?_, ?_, hnames t ht⟩⟩
  · obtain ⟨i, hi⟩ := List.mem_iff_getElem?.1 ht
    by_cases hzero : i = 0
    · subst hzero
      cases hi
      rw [hhead] at ho
      cases ho
    · obtain ⟨_, -, u, hu, hstands⟩ := houter hi hzero
      cases hstands.symm.trans ho
      exact List.mem_of_getElem? hu
  · obtain ⟨i, hi⟩ := List.mem_iff_getElem?.1 ht
    have hlength := (List.subperm_of_subset hnodup fun u hu =>
        List.mem_range.2 (hbelow u hu)).length_le
    rw [List.length_range] at hlength
    exact hrun _ i t hi (Nat.le_of_lt (Nat.lt_of_lt_of_le (List.getElem?_eq_some_iff.1 hi).1
      hlength))

namespace Moved

variable (h : Moved source target s w w')

include h

theorem path (ht : t ∈ w.family s) : (w'.script t).path = target := by
  rw [h.script, if_pos ht]
  rfl

theorem same (t : ScriptId) : (w'.script t).outer = (w.script t).outer ∧
    (w'.script t).inner = (w.script t).inner ∧ (w'.script t).nested = (w.script t).nested := by
  rw [h.script]
  split
  · exact ⟨rfl, rfl, rfl⟩
  · exact ⟨rfl, rfl, rfl⟩

theorem family : w'.family s = w.family s := by
  rw [World.family, (h.same s).2.2, World.family]

variable (hw : w.Sound) (hs : w.cache.find? source = some s) (hfile : w.Arranged s)
  (ht : t ∈ w.family s)

include hw hs hfile ht

theorem head : w'.head t = s := by
  have hlt (u : ScriptId) (hu : u ∈ w.family s) := (hw.family (hw.cached source s hs).1 hu).1
  have houter (u : ScriptId) (hu : u ∈ w.family s) : w'.outer? u = w.outer? u := by
    rw [outer?, outer?, (h.same u).1]
    cases ho : (w.script u).outer with
    | none => rfl
    | some o =>
      have hmem := (hfile.2 u hu).1 o ho
      have halive' : w'.isScriptAlive o := isScriptAlive_of_family h.found
        (fun v hv => h.size ▸ hlt v (h.family ▸ hv)) (h.family ▸ hmem)
      simp [Option.filter, isScriptAlive_of_family hs hlt hmem, halive']
  have hrun (n : Nat) (t : ScriptId) (ht : t ∈ w.family s) :
      w'.outermost n t = w.outermost n t := by
    induction n generalizing t with
    | zero => rfl
    | succ n ih =>
      rw [outermost, outermost, houter t ht]
      cases ho : w.outer? t with
      | none => rfl
      | some o => exact ih o ((hfile.2 t ht).1 o (Option.filter_eq_some_iff.1 ho).1)
  rw [World.head, h.size, hrun _ t ht]
  exact (hfile.2 t ht).2.1

theorem memberClass? (cls : ClassRef) {rest : String} (hcls : cls.qualified = source ++ rest) :
    w'.memberClass? t { cls with path := target, qualified := target ++ rest } =
      w.memberClass? t cls := by
  have hpath := (hw.cached source s hs).2.1
  have hhead := (hfile.2 t ht).2.1
  have hinward (names : List String) : w'.inward? s names = w.inward? s names := by
    unfold inward?
    simp only [(h.same _).2.1]
  have hat : w'.classAt? t cls.index = w.classAt? t cls.index := by
    rw [classAt?, classAt?, h.head hw hs hfile ht, hhead, (h.same s).2.2]
  have hmem {c : ScriptId} (hc : w.classAt? t cls.index = some c) : c ∈ w.family s := by
    rw [classAt?, hhead] at hc
    split at hc
    · cases hc
      exact (.head _)
    · obtain ⟨o, ho, rfl⟩ := Option.bind_eq_some_iff.1 hc
      exact List.mem_cons_of_mem _ (List.mem_filterMap.2
        ⟨_, Array.mem_toList_iff.2 (Array.mem_of_getElem? ho), rfl⟩)
  rw [World.memberClass?, hat]
  congr 1
  · cases hc : w.classAt? t cls.index with
    | none => rfl
    | some c =>
      obtain ⟨name, hname⟩ := Text.eq_append_of_startsWith (hfile.2 c (hmem hc)).2.2
      rw [hpath] at hname
      have hname' : (w'.script c).qualified = target ++ name := by
        rw [h.script, if_pos (hmem hc)]
        simp [Script.moved, hname, Text.dropStart?_append]
      simp [Option.filter, hname, hname', hcls]
  · rw [findClass?, findClass?, h.head hw hs hfile ht, hhead, hpath, h.path (.head _), hcls,
      Text.dropStart?_append, Text.dropStart?_append]
    simp only [hinward]
    by_cases hrest : rest = "" <;> simp [hrest]

end Moved

/-- **A moved file takes along who refers to it, but not the references in its code.** A reference
to a class of the file means the same class if it is renamed with the file. As it was compiled, it
still gives the old path, and what is loaded from there decides what it means. -/
theorem Reached.moved_file (hw : w.Reached) (hs : w.cache.find? source = some s)
    (hfile : w.Arranged s) (hfree : w.cache.find? target = none)
    (hunused : w.cache.dependentsOf target = [])
    (hother : source ∉ w.cache.dependentsOf source) :
    (w.moveScript source target).cache.dependentsOf target = w.cache.dependentsOf source ∧
      (w.moveScript source target).cache.find? target = some s ∧
      (w.moveScript source target).cache.find? source = none ∧
      ∀ t ∈ w.family s, ∀ (cls : ClassRef) (r : Runner), cls.path = source →
        Live.resolveClass r t cls w = some (w.memberClass? t cls, w) ∧
        (∀ rest, cls.qualified = source ++ rest →
          Live.resolveClass r t { cls with path := target, qualified := target ++ rest }
              (w.moveScript source target) =
            some (w.memberClass? t cls, w.moveScript source target)) ∧
        Live.resolveClass r t cls (w.moveScript source target) =
          (do match ← r.full source false with
              | .error _ => return none
              | .ok file => return (← get).memberClass? file cls : Live (Option ScriptId))
            (w.moveScript source target) := by
  have hne : source ≠ target := fun h => by simp [← h, hs] at hfree
  have hsound := hw.sound.1
  have hmoved := hsound.moveScript hs hfree hunused hfile.1
  refine ⟨?_, hmoved.found, hmoved.gone, fun t ht cls r hcls => ⟨?_, fun rest hrest => ?_, ?_⟩⟩
  · rw [hmoved.dependents, renameIn, if_neg (by simpa using hother)]
  · have hpath := (hsound.family (hsound.cached source s hs).1 ht).2
    rw [(hsound.cached source s hs).2.1, ← hcls] at hpath
    exact Live.resolveClass_own hpath.symm
  · rw [← hmoved.memberClass? hsound hs hfile ht cls hrest]
    exact Live.resolveClass_own (hmoved.path ht).symm
  · rw [Live.resolveClass_other fun h => hne (hcls.symm.trans (h.trans (hmoved.path ht))), hcls]

/-- A file with a class inside, and the class as the code of the file refers to it. -/
def nestedFile : List Request :=
  [.texts [("res://a.br", "one")] [("one", fileWith none [] [("A", none, [])] 0)],
    .load "res://a.br" false]

def nestedClass (path : String) : ClassRef := ⟨path, path ++ "::A", "A", 1⟩

theorem serve_nestedFile : ∃ w, Live.serve nestedFile host = some ((), w) ∧
    (∀ t ∈ w.family 0, Text.startsWith (w.script t).qualified (w.script 0).path) ∧
    (∃ code, (w.script 0).file = some code ∧
      (code.classes.toList.map (·.ref.qualified)).Nodup ∧ code.Nested) ∧
    w.cache.find? "res://a.br" = some 0 ∧ w.cache.find? "res://b.br" = none ∧
    w.cache.dependentsOf "res://b.br" = [] ∧ "res://a.br" ∉ w.cache.dependentsOf "res://a.br" ∧
    w.memberClass? 0 (nestedClass "res://a.br") = some 1 ∧
    (Live.resolveClass .standard 0 (nestedClass "res://a.br")
      (w.moveScript "res://a.br" "res://b.br")).map (·.1) = some (some 3) := by
  decide +kernel

/-- A reference to the class inside that is renamed with the file still means it. -/
theorem nested_moved_file : ∃ w, Live.serve nestedFile host = some ((), w) ∧
    Live.resolveClass .standard 0 (nestedClass "res://b.br")
    (w.moveScript "res://a.br" "res://b.br") =
      some (some 1, w.moveScript "res://a.br" "res://b.br") := by
  obtain ⟨w, run, hnames, ⟨code, hcode, hnamed, hnested⟩, hs, hfree, hunused, hother, hmember, -⟩ :=
    serve_nestedFile
  have hw : w.Reached := reached_host.serve (by simp [nestedFile]) run
  have hfile := hw.sound.1.arranged hcode hnamed hnested hnames
  obtain ⟨-, -, -, hrefers⟩ := hw.moved_file hs hfile hfree hunused hother
  have hrefer := (hrefers 0 (.head _) (nestedClass "res://a.br") .standard rfl).2.1 "::A" rfl
  exact ⟨w, run, hmember ▸ hrefer⟩

/-- As it was compiled, it leads to a class that is loaded anew from the old path. -/
theorem compiled_reference_strays : ∃ w, Live.serve nestedFile host = some ((), w) ∧ w.Reached ∧
    w.cache.find? "res://a.br" = some 0 ∧ w.Arranged 0 ∧ w.cache.find? "res://b.br" = none ∧
    Live.resolveClass .standard 0 (nestedClass "res://a.br") w = some (some 1, w) ∧
    (Live.resolveClass .standard 0 (nestedClass "res://a.br")
      (w.moveScript "res://a.br" "res://b.br")).map (·.1) = some (some 3) := by
  obtain ⟨w, run, hnames, ⟨code, hcode, hnamed, hnested⟩, hs, hfree, -, -, hmember, hlater⟩ :=
    serve_nestedFile
  have hw : w.Reached := reached_host.serve (by simp [nestedFile]) run
  have hfile := hw.sound.1.arranged hcode hnamed hnested hnames
  have hpath := (hw.sound.1.cached _ _ hs).2.1
  exact ⟨w, run, hw, hs, hfile, hfree, hmember ▸ Live.resolveClass_own hpath.symm, hlater⟩

end World

end HotScript
