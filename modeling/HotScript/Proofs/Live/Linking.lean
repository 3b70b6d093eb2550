import HotScript.Proofs.Live.Sound

/-!
Before the code of a file is installed.

The scripts for its classes are picked first (`World.Picked`). Then all bases are linked
(`World.Linked`). Linking may bring in files and run code, but a base that was found is valid, and
what is valid is left alone (`Live.linkBases_some`).
-/

namespace HotScript

namespace World

/-! ### The scripts of a file -/

variable {w w' : World} {head s file : ScriptId}
variable {name path : String} {names : List String} {rest scripts : List ScriptId}

theorem find?_nestedByName (h : (w.nestedByName head).find? name = some s) :
    some s ∈ (w.script head).nested.toList ∧ (w.script s).qualified = name := by
  have hfold (l : List ScriptId) (t : Table String ScriptId)
      (h : (l.foldl (fun t s => t.insert (w.script s).qualified s) t).find? name = some s) :
      t.find? name = some s ∨ s ∈ l ∧ (w.script s).qualified = name := by
    induction l generalizing t with
    | nil => exact .inl h
    | cons a l ih =>
      rcases ih _ h with h | ⟨hmem, hname⟩
      · by_cases hname : name = (w.script a).qualified
        · subst hname
          rw [Table.find?_insert_self] at h
          cases h
          exact .inr ⟨(.head _), rfl⟩
        · rw [Table.find?_insert_of_ne _ _ hname] at h
          exact .inl h
      · exact .inr ⟨List.mem_cons_of_mem _ hmem, hname⟩
  rcases hfold _ _ h with h | ⟨hmem, hname⟩
  · cases h
  · obtain ⟨_, hmem, rfl⟩ := List.mem_filterMap.1 hmem
    exact ⟨hmem, hname⟩

/-- Scripts for a head class and for classes with given names: classes of the file that have been
there, or fresh ones. -/
structure Picked (w : World) (head : ScriptId) (names : List String) (rest : List ScriptId)
    (w' : World) : Prop where
  fresh : w.Extends (w.script head).path w'
  place : ∀ s ∈ rest, s ≠ head ∧ s < w'.scripts.size ∧ (w'.script s).path = (w.script head).path
  named : rest.map (fun s => (w'.script s).qualified) = names

theorem Picked.nil (w : World) (head : ScriptId) : w.Picked head [] [] w :=
  ⟨.refl _ w, fun _ h => absurd h List.not_mem_nil, rfl⟩

theorem Picked.found (h : w.Picked head names rest w') (hw : w.Sound)
    (hs : (w.nestedByName head).find? name = some s) :
    w.Picked head (names ++ [name]) (rest ++ [s]) w' := by
  obtain ⟨hmem, rfl⟩ := find?_nestedByName hs
  obtain ⟨hlt, hpath⟩ := hw.nested head s hmem
  have hsame := h.fresh.old s hlt
  refine ⟨h.fresh, List.forall_mem_append.2 ⟨h.place, List.forall_mem_singleton.2
    ⟨?_, Nat.lt_of_lt_of_le hlt h.fresh.size, ?_⟩⟩, ?_⟩
  · rintro rfl
    exact hw.apart s hmem
  · rw [hsame]
    exact hpath
  · rw [List.map_append, h.named, List.map_singleton, hsame]

theorem Picked.added (h : w.Picked head names rest w') (hhead : head < w.scripts.size)
    (qualified name : String) :
    w.Picked head (names ++ [qualified]) (rest ++ [w'.scripts.size])
      (w'.addScript (w.script head).path qualified name).2 := by
  have hsize : (w'.addScript (w.script head).path qualified name).2.scripts.size =
      w'.scripts.size + 1 := by simp [addScript]
  have hold {t : ScriptId} (ht : t ∈ rest) :
      (w'.addScript (w.script head).path qualified name).2.script t = w'.script t := by
    rw [script_addScript, if_neg (Nat.ne_of_lt (h.place t ht).2.1)]
  refine ⟨h.fresh.addScript qualified name, List.forall_mem_append.2 ⟨fun t ht => ?_,
    List.forall_mem_singleton.2 ?_⟩, ?_⟩
  · obtain ⟨hne, hlt, hpath⟩ := h.place t ht
    rw [hold ht, hsize]
    exact ⟨hne, Nat.lt_succ_of_lt hlt, hpath⟩
  · rw [script_addScript, if_pos rfl, hsize]
    exact ⟨Nat.ne_of_gt (Nat.lt_of_lt_of_le hhead h.fresh.size), Nat.lt_succ_self _, rfl⟩
  · rw [List.map_append, List.map_congr_left fun t ht => congrArg Script.qualified (hold ht),
      h.named, List.map_singleton, script_addScript, if_pos rfl]

def pickScript (w : World) (head : ScriptId) (acc : List ScriptId × World) (c : ClassCode) :
    List ScriptId × World :=
  match (w.nestedByName head).find? c.ref.qualified with
  | some s => (acc.1 ++ [s], acc.2)
  | none =>
    (acc.1 ++ [acc.2.scripts.size], (acc.2.addScript (w.script head).path c.ref.qualified
      c.ref.name).2)

theorem picked_scriptsFor (hw : w.Sound) (hhead : head < w.scripts.size) (code : FileCode) :
    ∃ rest, (w.scriptsFor head code).1 = head :: rest ∧
      w.Picked head ((code.classes.toList.drop 1).map (·.ref.qualified)) rest
        (w.scriptsFor head code).2 := by
  have hfold (cs : List ClassCode) {names : List String} {rest : List ScriptId} {w1 : World}
      (h : w.Picked head names rest w1) :
      ∃ rest', (cs.foldl (w.pickScript head) (head :: rest, w1)).1 = head :: rest' ∧
        w.Picked head (names ++ cs.map (·.ref.qualified)) rest'
          (cs.foldl (w.pickScript head) (head :: rest, w1)).2 := by
    induction cs generalizing names rest w1 with
    | nil => exact ⟨rest, rfl, by simpa using h⟩
    | cons c cs ih =>
      rw [List.foldl_cons, List.map_cons, List.append_cons, pickScript]
      cases hfind : (w.nestedByName head).find? c.ref.qualified with
      | some s => exact ih (h.found hw hfind)
      | none => exact ih (h.added hhead _ _)
  exact hfold _ (.nil w head)

/-! ### Bases -/

theorem Sound.head_of_cached (hw : w.Sound) (hs : w.cache.find? path = some s) : w.head s = s := by
  obtain ⟨-, -, houter⟩ := hw.cached path s hs
  rw [World.head]
  cases w.scripts.size with
  | zero => rfl
  | succ n => rw [outermost, outer?, houter]; rfl

theorem Sound.memberClass? (hw : w.Sound) {cls : ClassRef}
    (hfile : w.cache.find? path = some file) (h : w.memberClass? file cls = some s) :
    (w.script s).path = path := by
  obtain ⟨-, hpath, -⟩ := hw.cached path file hfile
  have hhead := hw.head_of_cached hfile
  have hinward (names : List String) {s t : ScriptId} (hs : (w.script s).path = path)
      (h : w.inward? s names = some t) : (w.script t).path = path := by
    induction names generalizing s with
    | nil => exact Option.some.inj h ▸ hs
    | cons name names ih =>
      obtain ⟨u, hu, h⟩ := Option.bind_eq_some_iff.1 h
      exact ih ((hw.inner s name u hu).2.trans hs) h
  rw [World.memberClass?, Option.or_eq_some_iff] at h
  rcases h with h | ⟨-, h⟩
  · obtain ⟨h, -⟩ := Option.filter_eq_some_iff.1 h
    rw [classAt?, hhead] at h
    split at h
    · exact Option.some.inj h ▸ hpath
    · obtain ⟨t, ht, rfl⟩ := Option.bind_eq_some_iff.1 h
      exact (hw.nested file s (Array.mem_toList_iff.2 (Array.mem_of_getElem? ht))).2.trans hpath
  · rw [findClass?, hhead] at h
    split at h
    · exact Option.some.inj h ▸ hpath
    · exact hinward _ hpath h
    · exact hinward _ hpath h

/-- A base was found for a class that is to be installed, with the layout it was compiled for: among
the scripts of its own file, or a valid class of another. -/
def Linked (w : World) (path : String) (scripts : List ScriptId) (code : FileCode) (c : ClassCode)
    (base : Option ScriptId) : Prop :=
  match c.base with
  | .native _ => base = none
  | .script cls => ∃ b, base = some b ∧ if cls.path = path then scripts[cls.index]? = some b ∧
        c.baseMembers = ((code.class? cls.index).map (·.memberCount)).getD 0
      else (w.script b).isValid ∧ (w.script b).path = cls.path ∧
        c.baseMembers = ((w.script b).code.map (·.memberCount)).getD 0

theorem Linked.kept {code : FileCode} {c : ClassCode}
    {base : Option ScriptId} (h : w.Linked path scripts code c base) (hk : w.Kept [] [] w') :
    w'.Linked path scripts code c base := by
  unfold Linked at h ⊢
  split
  · next hbase =>
    rw [hbase] at h
    exact h
  · next cls hbase =>
    rw [hbase] at h
    obtain ⟨b, rfl, h⟩ := h
    refine ⟨b, rfl, ?_⟩
    split
    · next hpath =>
      rw [if_pos hpath] at h
      exact h
    · next hpath =>
      rw [if_neg hpath] at h
      obtain ⟨hvalid, hrest⟩ := h
      have hsame := hk.script b List.not_mem_nil hvalid
      rw [hsame.isValid, hsame.path, hsame.code]
      exact ⟨hvalid, hrest⟩

end World

/-- Running code and bringing in files keep a sound project sound and leave classes in use alone,
and a file that was brought in is found. -/
structure Runner.Keeping (r : Runner) : Prop where
  evolving : Runner.Evolving World.keeping r
  finds : ∀ {path : String} {w w' : World} {s : ScriptId}, w.Sound →
    r.full path false w = some (.ok s, w') → w'.cache.find? path = some s

/-- Why no base is found in a state for a class that is to be installed. Within its own file the
code does not fit itself; in another file there is no valid class then, or one with another
layout. -/
def Misfit (r : Runner) (v : World) (path : String) (code : FileCode) (c : ClassCode)
    (fault : ReloadFault) : Prop :=
  ∃ cls, c.base = .script cls ∧ fault = .link path cls.qualified ∧
    if cls.path = path then ∀ cb, code.class? cls.index = some cb → c.baseMembers ≠ cb.memberCount
    else ∃ (v' : World) (base : Option ScriptId), Live.externalBase r cls v = some (base, v') ∧
      ∀ b, base = some b → c.baseMembers ≠ ((v'.script b).code.map (·.memberCount)).getD 0

namespace Live

open World

variable {r : Runner} (hr : r.Keeping) {w w' : World}
include hr

theorem externalBase_some {cls : ClassRef} {base : Option ScriptId} (hw : w.Sound)
    (h : externalBase r cls w = some (base, w')) :
    ∀ b, base = some b → (w'.script b).isValid ∧ (w'.script b).path = cls.path := by
  obtain ⟨found, w1, h1, h⟩ := bind_some.1 h
  obtain ⟨hw1, -⟩ := (hr.evolving.full _).leads h1 hw
  cases found with
  | error fault =>
    cases h
    nofun
  | ok file =>
    cases h
    intro b hb
    obtain ⟨hb, hvalid⟩ := Option.filter_eq_some_iff.1 hb
    exact ⟨hvalid, hw1.memberClass? (hr.finds hw h1) hb⟩

variable {path : String} {scripts : List ScriptId} {code : FileCode}

theorem linkBase_some {c : ClassCode} {result : Except ReloadFault (Option ScriptId)} (hw : w.Sound)
    (hscripts : scripts.length = code.classes.size)
    (h : linkBase r path scripts code c w = some (result, w')) :
    (∀ base, result = .ok base → w'.Linked path scripts code c base) ∧
      ∀ fault, result = .error fault → Misfit r w path code c fault := by
  unfold linkBase at h
  unfold Linked Misfit
  cases hbase : c.base with
  | native name =>
    rw [hbase] at h
    cases h
    exact ⟨fun base hok => by cases hok; rfl, nofun⟩
  | script cls =>
    rw [hbase] at h
    simp only [BaseCode.script.injEq, exists_eq_left'] at h ⊢
    by_cases hpath : cls.path = path
    · rw [if_pos hpath] at h
      obtain ⟨linked, w1, h1, h⟩ := bind_some.1 h
      cases h1
      simp only [if_pos hpath]
      cases hscript : scripts[cls.index]? with
      | none =>
        rw [hscript] at h
        cases h
        refine ⟨nofun, fun fault hfault => ?_⟩
        cases hfault
        refine ⟨rfl, ?_⟩
        intro cb hcb
        have hlt := (Array.getElem?_eq_some_iff.1 hcb).1
        exact absurd (List.getElem?_eq_none_iff.1 hscript) (Nat.not_le.2 (hscripts ▸ hlt))
      | some b =>
        rw [hscript] at h
        dsimp only [Option.map_some] at h
        split at h
        · next hmembers =>
          cases h
          refine ⟨fun base hok => ?_, nofun⟩
          cases hok
          exact ⟨b, rfl, rfl, hmembers⟩
        · next hmembers =>
          cases h
          refine ⟨nofun, fun fault hfault => ?_⟩
          cases hfault
          refine ⟨rfl, ?_⟩
          intro cb hcb
          rw [hcb] at hmembers
          exact hmembers
    · rw [if_neg hpath] at h
      obtain ⟨base, w2, h2, h⟩ := bind_some.1 h
      replace h := of_get_bind h
      obtain ⟨linked, _, h4, h⟩ := bind_some.1 h
      cases h4
      have hfound := externalBase_some hr hw h2
      simp only [if_neg hpath]
      cases base with
      | none =>
        cases h
        refine ⟨nofun, fun fault hfault => ?_⟩
        cases hfault
        exact ⟨rfl, _, none, h2, nofun⟩
      | some b =>
        obtain ⟨hvalid, hcls⟩ := hfound b rfl
        dsimp only [Option.map_some] at h
        split at h
        · next hmembers =>
          cases h
          refine ⟨fun base hok => ?_, nofun⟩
          cases hok
          exact ⟨b, rfl, hvalid, hcls, hmembers⟩
        · next hmembers =>
          cases h
          refine ⟨nofun, fun fault hfault => ?_⟩
          cases hfault
          exact ⟨rfl, _, some b, h2, fun b' hb' => Option.some.inj hb' ▸ hmembers⟩

/-- What was linked first is still linked at the end: a base that was found is valid, so it is left
alone.  Otherwise some class found none, in the state after those before it. -/
theorem linkBases_some {cs : List ClassCode} {result : Except ReloadFault (List (Option ScriptId))}
    (hw : w.Sound) (hscripts : scripts.length = code.classes.size)
    (h : linkBases r path scripts code cs w = some (result, w')) :
    (∀ bases, result = .ok bases → List.Forall₂ (w'.Linked path scripts code) cs bases) ∧
      ∀ fault, result = .error fault → ∃ before c behind bases v, cs = before ++ c :: behind ∧
        linkBases r path scripts code before w = some (.ok bases, v) ∧
        Misfit r v path code c fault := by
  induction cs generalizing w result with
  | nil =>
    cases h
    refine ⟨fun bases hok => ?_, nofun⟩
    cases hok
    exact .nil
  | cons c cs ih =>
    obtain ⟨linked, w1, h1, h⟩ := bind_some.1 h
    obtain ⟨hlinked, hmisfit⟩ := linkBase_some hr hw hscripts h1
    cases linked with
    | error fault =>
      cases h
      refine ⟨nofun, fun fault' hfault => ?_⟩
      cases hfault
      exact ⟨[], c, cs, [], w, rfl, rfl, hmisfit fault rfl⟩
    | ok base =>
      obtain ⟨rest, w2, h2, h⟩ := bind_some.1 h
      cases h
      obtain ⟨hw1, -⟩ := (follows_linkBase hr.evolving.full _ _ _ _).leads h1 hw
      obtain ⟨-, hk2⟩ := (follows_linkBases hr.evolving.full _ _ _ _).leads h2 hw1
      obtain ⟨hrest, hmisfits⟩ := ih hw1 h2
      refine ⟨fun bases hok => ?_, fun fault hfault => ?_⟩
      · cases rest with
        | error fault => cases hok
        | ok bases' =>
          cases hok
          exact .cons ((hlinked base rfl).kept hk2) (hrest bases' rfl)
      · cases rest with
        | error fault' =>
          cases hfault
          obtain ⟨before, c', behind, bases, v, rfl, hbefore, hmis⟩ := hmisfits fault rfl
          exact ⟨c :: before, c', behind, base :: bases, v, rfl,
            bind_some.2 ⟨.ok base, w1, h1, bind_some.2 ⟨.ok bases, v, hbefore, rfl⟩⟩, hmis⟩
        | ok bases' => cases hfault

end Live

end HotScript
