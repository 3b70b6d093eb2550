import HotScript.Proofs.Live.Sound

/-!
The outline of a file.

A file that is asked for first gets a script for each of its classes, of which none is valid yet.
They lead to each other and to nothing else, so a sound project stays sound (`World.Outlined`).
-/

namespace HotScript

namespace World

variable {nested : Array (Option ScriptId)}

/-- Scripts were added for a head class and others. -/
structure Outlined (path : String) (w w' : World) : Prop where
  fresh : w.Extends path w'
  size : w.scripts.size < w'.scripts.size
  outer : (w'.script w.scripts.size).outer = none

/-- Every entry is the script of another fresh class than the head class. -/
def Others (nested : Array (Option ScriptId)) (w w' : World) : Prop :=
  ∀ t, some t ∈ nested.toList → w.scripts.size < t ∧ t < w'.scripts.size

variable {path : String} {w w' : World} {s : ScriptId}

theorem Outlined.addScript (h : w.Outlined path w') (hn : Others nested w w')
    (qualified name : String) : w.Outlined path (w'.addScript path qualified name).2 ∧
      Others (nested.push (some w'.scripts.size)) w (w'.addScript path qualified name).2 := by
  have hsize : (w'.addScript path qualified name).2.scripts.size = w'.scripts.size + 1 := by
    simp [World.addScript]
  refine ⟨⟨h.fresh.addScript qualified name, ?_, ?_⟩, fun t ht => ?_⟩
  · rw [hsize]
    exact Nat.lt_succ_of_lt h.size
  · rw [script_addScript, if_neg (Nat.ne_of_lt h.size)]
    exact h.outer
  · rw [hsize]
    rw [Array.toList_push, List.mem_append] at ht
    rcases ht with ht | ht
    · exact ⟨(hn t ht).1, Nat.lt_succ_of_lt (hn t ht).2⟩
    · obtain rfl := Option.some.inj (List.mem_singleton.1 ht)
      exact ⟨h.size, Nat.lt_succ_self _⟩

theorem Outlined.modifyScript (h : w.Outlined path w') (hs : w.scripts.size ≤ s)
    {f : Script → Script} (same : ∀ x, f x = { x with
      outer := (f x).outer, inner := (f x).inner, nested := (f x).nested, source := (f x).source })
    (outer : s = w.scripts.size → ∀ x, (f x).outer = x.outer)
    (nested : (f (w'.script s)).nested = (w'.script s).nested ∨
      s = w.scripts.size ∧ Others (f (w'.script s)).nested w w')
    (inner : ∀ name t, (f (w'.script s)).inner.find? name = some t →
      (w'.script s).inner.find? name = some t ∨ w.scripts.size ≤ t ∧ t < w'.scripts.size) :
    w.Outlined path (w'.modifyScript s f) := by
  refine ⟨h.fresh.modifyScript hs same (fun t ht => ?_) fun name t ht => ?_, ?_, ?_⟩
  · rcases nested with hsame | ⟨rfl, hothers⟩
    · rw [hsame] at ht
      obtain ⟨hge, hlt⟩ := h.fresh.among s t hs (.inl ht)
      exact ⟨hge, hlt, fun hts => h.fresh.apart s hs (hts ▸ ht)⟩
    · obtain ⟨hgt, hlt⟩ := hothers t ht
      exact ⟨Nat.le_of_lt hgt, hlt, Nat.ne_of_gt hgt⟩
  · exact (inner name t ht).elim (fun ht => h.fresh.among s t hs (.inr ⟨name, ht⟩)) id
  · exact Nat.lt_of_lt_of_eq h.size Array.size_modify.symm
  · rw [script_modifyScript]
    split
    · next heq =>
      rw [outer heq.1.symm, ← heq.1]
      exact h.outer
    · exact h.outer

theorem Others.modifyScript (h : Others nested w w') (s : ScriptId) (f : Script → Script) :
    Others nested w (w'.modifyScript s f) := fun t ht =>
  ⟨(h t ht).1, Nat.lt_of_lt_of_eq (h t ht).2 Array.size_modify.symm⟩

def linkOuter (head : ScriptId) (nested : Array (Option ScriptId)) (w : World) (c : ClassDecl) :
    World :=
  match (nested[c.id]?).bind id, c.outer with
  | some s, some outer =>
    let outer := ((nested[outer]?).bind id).getD head
    (w.modifyScript s fun x => { x with outer := some outer }).modifyScript outer fun x =>
      { x with inner := x.inner.insert (w.script s).name s }
  | _, _ => w

theorem Outlined.linkOuter (h : w.Outlined path w') (hn : Others nested w w') (c : ClassDecl) :
    w.Outlined path (World.linkOuter w.scripts.size nested w' c) ∧
      Others nested w (World.linkOuter w.scripts.size nested w' c) := by
  have hentry {i : Nat} {t : ScriptId} (ht : (nested[i]?).bind id = some t) :
      w.scripts.size < t ∧ t < w'.scripts.size := by
    obtain ⟨_, hi, rfl⟩ := Option.bind_eq_some_iff.1 ht
    exact hn t (Array.mem_toList_iff.2 (Array.mem_of_getElem? hi))
  unfold World.linkOuter
  split
  · next s outer hs _ =>
    obtain ⟨hgt, hlt⟩ := hentry hs
    have hfirst := h.modifyScript (Nat.le_of_lt hgt) (f := fun x =>
        { x with outer := some (((nested[outer]?).bind id).getD w.scripts.size) }) (fun _ => rfl)
      (fun heq => absurd heq (Nat.ne_of_gt hgt)) (.inl rfl) fun _ _ ht => .inl ht
    refine ⟨hfirst.modifyScript ?_ (fun _ => rfl) (fun _ _ => rfl) (.inl rfl) fun other t ht => ?_,
      (hn.modifyScript s _).modifyScript _ _⟩
    · cases houter : (nested[outer]?).bind id with
      | none => exact Nat.le_refl _
      | some t => exact Nat.le_of_lt (hentry houter).1
    · by_cases hname : other = (w'.script s).name
      · subst hname
        rw [Table.find?_insert_self] at ht
        cases ht
        exact .inr ⟨Nat.le_of_lt hgt, Nat.lt_of_lt_of_eq hlt Array.size_modify.symm⟩
      · rw [Table.find?_insert_of_ne _ _ hname] at ht
        exact .inl ht
  · exact ⟨h, hn⟩

def outlineClass (path : String) (acc : Array (Option ScriptId) × World) (c : ClassDecl) :
    Array (Option ScriptId) × World :=
  (acc.1.push (some acc.2.scripts.size), (acc.2.addScript path c.qualified (c.name?.getD "")).2)

theorem outlined_addFile (w : World) (tree : Tree) :
    (w.addFile tree).1 = w.scripts.size ∧ w.Outlined tree.path (w.addFile tree).2 := by
  have hadd (cs : List ClassDecl) (acc : Array (Option ScriptId) × World)
      (h : w.Outlined tree.path acc.2 ∧ Others acc.1 w acc.2) :
      w.Outlined tree.path (cs.foldl (outlineClass tree.path) acc).2 ∧
        Others (cs.foldl (outlineClass tree.path) acc).1 w
          (cs.foldl (outlineClass tree.path) acc).2 := by
    induction cs generalizing acc with
    | nil => exact h
    | cons c cs ih => exact ih _ (h.1.addScript h.2 c.qualified (c.name?.getD ""))
  have hlink (cs : List ClassDecl) (nested : Array (Option ScriptId)) {w' : World}
      (h : w.Outlined tree.path w' ∧ Others nested w w') :
      w.Outlined tree.path (cs.foldl (World.linkOuter w.scripts.size nested) w') ∧
        Others nested w (cs.foldl (World.linkOuter w.scripts.size nested) w') := by
    induction cs generalizing w' with
    | nil => exact h
    | cons c cs ih => exact ih (h.1.linkOuter h.2 c)
  have hfirst : w.Outlined tree.path
      (w.addScript tree.path tree.head.qualified (tree.head.name?.getD tree.path)).2 := by
    refine ⟨(Extends.refl tree.path w).addScript _ _, ?_, ?_⟩
    · simp [World.addScript]
    · rw [script_addScript, if_pos rfl]
  have hlinked := hlink (tree.classes.toList.drop 1) _ (hadd (tree.classes.toList.drop 1)
    (#[none], _) ⟨hfirst, fun t ht => by simp at ht⟩)
  exact ⟨rfl, hlinked.1.modifyScript (Nat.le_refl _) (fun _ => rfl) (fun _ _ => rfl)
    (.inr ⟨rfl, hlinked.2⟩) fun _ _ ht => .inl ht⟩

/-! ### The script of a file -/

theorem Cache.find?_enter {c : Cache} (h : c.find? path = none) (other : String) :
    { c with shallow := c.shallow.insert path s }.find? other =
      if other = path then some s else c.find? other := by
  unfold Cache.find? at h ⊢
  split
  · next heq =>
    rw [heq, Table.find?_insert_self, (Option.or_eq_none_iff.1 h).1]
    rfl
  · next hne => rw [Table.find?_insert_of_ne _ _ hne]

theorem sound_enter (hw : w.Sound) (hnone : w.cache.find? path = none) (hs : s < w.scripts.size)
    (hpath : (w.script s).path = path) (houter : (w.script s).outer = none)
    (hvalid : (w.script s).isValid = false) :
    Sound { w with cache := { w.cache with shallow := w.cache.shallow.insert path s } } ∧
      w.Kept [] []
        { w with cache := { w.cache with shallow := w.cache.shallow.insert path s } } := by
  have hfind (other : String) := Cache.find?_enter (s := s) hnone other
  have hkept {p : String} {t : ScriptId} (ht : w.cache.find? p = some t) :
      { w.cache with shallow := w.cache.shallow.insert path s }.find? p = some t := by
    rw [hfind, if_neg]
    · exact ht
    · rintro rfl
      rw [hnone] at ht
      cases ht
  refine ⟨⟨hw.work, fun p t ht => ?_, fun p t ht => ?_, hw.nested, hw.inner, hw.apart, hw.table,
    fun t ht => ?_, hw.code, fun t code ht => ?_, fun p t ht hv => ?_⟩,
    ⟨Nat.le_refl _, rfl, fun _ _ => hkept, fun _ => rfl, fun _ _ => rfl, fun _ _ _ => .refl _,
      fun _ _ _ => rfl, fun _ hc => hc.congr rfl rfl⟩⟩
  · by_cases hp : p = path
    · rw [hp]
      exact (Option.or_eq_none_iff.1 hnone).1
    · rw [Table.find?_insert_of_ne _ _ hp] at ht
      exact hw.single p t ht
  · rw [hfind] at ht
    split at ht
    · next hp =>
      cases ht
      exact ⟨hs, hpath.trans hp.symm, houter⟩
    · exact hw.cached p t ht
  · obtain ⟨h, hh, hv⟩ := hw.head t ht
    exact ⟨h, hkept hh, hv⟩
  · obtain ⟨hcached, htogether⟩ := hw.file t code ht
    exact ⟨hkept hcached, htogether⟩
  · rw [hfind] at ht
    split at ht
    · cases ht
      rw [show (w.script s).isValid = true from hv] at hvalid
      cases hvalid
    · exact hw.filed p t ht hv

/-- Let the outline of a file be found, with the source it is to be compiled from. -/
def enter (w : World) (path : String) (s : ScriptId) (source : Source) : World :=
  let made := w.modifyScript s fun c => { c with source }
  { made with cache := { made.cache with shallow := made.cache.shallow.insert path s } }

theorem Outlined.withSource (h : w.Outlined path w') (source : Source) :
    w.Outlined path (w'.modifyScript w.scripts.size fun c => { c with source }) :=
  h.modifyScript (Nat.le_refl _) (fun _ => rfl) (fun _ _ => rfl) (.inl rfl) fun _ _ ht => .inl ht

theorem Outlined.entered (h : w.Outlined path w') (hw : w.Sound) (hnone : w.cache.find? path = none)
    (source : Source) : let entered := w'.enter path w.scripts.size source
    entered.Sound ∧ w.Kept [] [] entered ∧ entered.cache.find? path = some w.scripts.size ∧
      (entered.script w.scripts.size).isValid = false := by
  have hmade := h.withSource source
  generalize hw1 : w'.modifyScript w.scripts.size (fun c => { c with source }) = made at hmade
  intro entered
  have hentered : entered =
      { made with cache :=
          { made.cache with shallow := made.cache.shallow.insert path w.scripts.size } } := by
    rw [← hw1]
    rfl
  rw [hentered]
  have hnone' : made.cache.find? path = none := hmade.fresh.cache.symm ▸ hnone
  have hblank := (hmade.fresh.blank _ (Nat.le_refl _)).1
  obtain ⟨hsound, hkept⟩ := sound_enter (hmade.fresh.sound hw) hnone' hmade.size
    (hmade.fresh.made _ (Nat.le_refl _) hmade.size).2 hmade.outer hblank
  exact ⟨hsound, (hmade.fresh.kept).trans hkept, (Cache.find?_enter hnone' path).trans (if_pos rfl),
    hblank⟩

end World

namespace Live

variable {result : Except LoadFault ScriptId}

open World

variable {w w' : World} {path : String}

theorem shallow_of_find? {s : ScriptId} (h : w.cache.find? path = some s) :
    shallow path none w = some (.ok s, w) := by
  refine bind_some.2 ⟨w, w, rfl, ?_⟩
  rw [h]
  rfl

/-- What asking for the outline of a file does: nothing if there is a script for it, and otherwise
the file is read, which may fail, and scripts for its classes are added. -/
theorem shallow_run (hw : w.work.Tended) (h : shallow path none w = some (result, w')) :
    (∃ s, w.cache.find? path = some s ∧ result = .ok s ∧ w' = w) ∨
    (w.cache.find? path = none ∧ ∃ work, w.Tends { w with work } ∧
      ((∃ fault, result = .error fault ∧ w' = { w with work }) ∨
      ∃ made source, Outlined path { w with work } made ∧ result = .ok w.scripts.size ∧
        w' = made.enter path w.scripts.size source)) := by
  cases hfind : w.cache.find? path with
  | some s =>
    rw [shallow_of_find? hfind] at h
    cases h
    exact .inl ⟨s, rfl, rfl, rfl⟩
  | none =>
  replace h := of_get_bind h
  rw [hfind] at h
  obtain ⟨unit, w1, h1, h⟩ := bind_some.1 h
  obtain ⟨work, hget, rfl⟩ := onWork_some h1
  have htends := Tends.later (Workspace.later_getUnit hget)
  refine .inr ⟨rfl, work, htends, ?_⟩
  cases unit with
  | error fault =>
    cases h
    exact .inl ⟨fault, rfl, rfl⟩
  | ok id =>
  replace h := of_get_bind h
  have htended : work.Tended := htends.tended hw
  obtain ⟨-, hpath, -⟩ := htended.placed.placed path id (Workspace.find?_of_getUnit hget)
  generalize htree : (work.unit id).tree = tree at h
  generalize hsource : work.source path = source at h
  cases tree with
  | none =>
    cases h
    exact .inl ⟨_, rfl, rfl⟩
  | some tree =>
  cases source with
  | error fault =>
    cases h
    exact .inl ⟨_, rfl, rfl⟩
  | ok source =>
  have hrooted : tree.path = path := (htended.rooted id tree htree).path.trans hpath
  obtain ⟨-, houtlined⟩ := World.outlined_addFile { w with work } tree
  rw [hrooted] at houtlined
  obtain ⟨_, _, h3, h⟩ := bind_some.1 h
  cases h3
  cases h
  exact .inr ⟨_, source, houtlined, rfl, rfl⟩

theorem shallow_some (hw : w.Sound) (h : shallow path none w = some (result, w')) :
    w'.Sound ∧ w.Kept [] [] w' ∧ ∀ s, result = .ok s → w'.cache.find? path = some s ∧
      (w' = w ∨ (w'.script s).isValid = false) := by
  rcases shallow_run hw.work h with ⟨s, hfind, rfl, rfl⟩ | ⟨hnone, work, htends, h⟩
  · exact ⟨hw, .refl _ _ _, fun t ht => ⟨Except.ok.inj ht ▸ hfind, .inl rfl⟩⟩
  · have hw1 := htends.calm.sound hw
    have hk1 := htends.kept hw
    rcases h with ⟨fault, rfl, rfl⟩ | ⟨made, source, houtlined, rfl, rfl⟩
    · exact ⟨hw1, hk1, nofun⟩
    · obtain ⟨hw2, hk2, hfound, hblank⟩ := houtlined.entered hw1 hnone source
      refine ⟨hw2, hk1.trans hk2, fun s hs => ?_⟩
      cases hs
      exact ⟨hfound, .inr hblank⟩

end Live

end HotScript
