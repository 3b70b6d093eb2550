import HotScript.Proofs.Analysis.Keeps

/-!
Opening a unit.

A unit that is opened for the first time is added, its source is read into it, and its path is led
to it. Nothing that is known about the other units is touched.
-/

namespace HotScript

/-! ### Fresh units -/

/-- The unit of a file that was just read: nothing is known about its classes. -/
structure FileUnit.Fresh (u : FileUnit) (path : String) : Prop where
  path : u.path = path
  depended : u.depended = {}
  abandoned : u.abandoned = false
  classes : ∀ c ∈ u.classes, ∃ ref, c = { ref }

variable {u : FileUnit}

theorem FileUnit.Fresh.install {path : String} (h : u.Fresh path) (r : Reading) (digest : UInt64) :
    (u.install r digest).2.Fresh path := by
  rw [FileUnit.install]
  split
  · exact ⟨h.path, h.depended, h.abandoned, h.classes⟩
  · split
    · exact ⟨h.path, h.depended, h.abandoned, h.classes⟩
    · refine ⟨h.path, h.depended, h.abandoned, fun c hc => ?_⟩
      obtain ⟨decl, -, rfl⟩ := Array.mem_map.1 hc
      exact ⟨_, rfl⟩

theorem FileUnit.tree_install (h : u.tree = none) (r : Reading) (digest : UInt64) {t : Tree}
    (ht : (u.install r digest).2.tree = some t) : r.tree = some t := by
  rw [FileUnit.install] at ht
  split at ht
  · rw [h] at ht
    cases ht
  · split at ht
    · rw [h] at ht
      cases ht
    · next htree => exact htree.trans ht

theorem FileUnit.Fresh.faithful {path : String} (h : u.Fresh path) : u.Faithful where
  keys c hc := by
    obtain ⟨ref, rfl⟩ := h.classes c hc
    exact List.nodup_nil
  declared id c name m hc hm := by
    obtain ⟨ref, rfl⟩ := h.classes c (Array.mem_of_getElem? hc)
    cases hm

namespace Workspace

variable (w : Workspace) (path : String) (bytes : List UInt8)

theorem readText_eq (text : String) : ∃ h, (w.readText path text).2 = { w with heap := h } := by
  rw [readText]
  split
  · exact ⟨w.heap, rfl⟩
  · exact ⟨_, rfl⟩

theorem readBytes_eq : ∃ h, (w.readBytes path bytes).2 = { w with heap := h } := by
  rw [readBytes]
  split
  · exact w.readText_eq path _
  · exact ⟨w.heap, rfl⟩

theorem offers_readText (text : String) : w.Offers path (w.readText path text).1.tree := by
  intro t ht
  rw [readText] at ht
  split at ht
  · cases ht
  · next program hprogram => exact ⟨text, program, w.heap, hprogram, ht⟩

theorem offers_readBytes : w.Offers path (w.readBytes path bytes).1.tree := by
  rw [readBytes]
  split
  · exact w.offers_readText path _
  · exact fun t ht => by cases ht

theorem readInto_cases (id : UnitId) (source : Source) :
    (w.readInto id source).2 = w ∧ source = .empty ∨
    ∃ r h, w.Offers (w.unit id).path r.tree ∧ (w.readInto id source).2 =
      ({ w with heap := h }.modifyUnit id fun u =>
        (u.install r source.digest).2).happen id .read := by
  cases source with
  | empty => exact .inl ⟨rfl, rfl⟩
  | text s =>
    obtain ⟨h, hread⟩ := w.readText_eq (w.unit id).path s
    exact .inr ⟨(w.readText (w.unit id).path s).1, h, w.offers_readText _ _, by rw [← hread]; rfl⟩
  | binary b =>
    obtain ⟨h, hread⟩ := w.readBytes_eq (w.unit id).path b
    exact .inr ⟨(w.readBytes (w.unit id).path b).1, h, w.offers_readBytes _ _, by rw [← hread]; rfl⟩

/-! ### Opening -/

theorem openUnit_cases :
    (w.openUnit path).2 = w ∨ ∃ source, w.unitOf.find? path = none ∧ (w.openUnit path).2 =
      ((w.addUnit path).2.readInto w.units.size source).2.placeUnit path w.units.size := by
  rw [openUnit]
  cases hfind : w.unitAt? path with
  | some id => exact .inl rfl
  | none =>
    cases w.source path with
    | error fault => exact .inl rfl
    | ok source => exact .inr ⟨source, hfind, rfl⟩

theorem find?_of_openUnit {w : Workspace} {path : String} {id : UnitId}
    (h : (w.openUnit path).1 = .ok id) : (w.openUnit path).2.unitOf.find? path = some id := by
  rw [openUnit] at h ⊢
  cases hfind : w.unitAt? path with
  | some other =>
    simp only [hfind, Except.ok.injEq] at h ⊢
    exact h ▸ hfind
  | none =>
    cases hsource : w.source path with
    | error fault => simp [hfind, hsource] at h
    | ok source =>
      simp only [hfind, hsource] at h ⊢
      cases hread : ((w.addUnit path).2.readInto (w.addUnit path).1 source).1 with
      | error fault => simp [hread, Except.map] at h
      | ok _ =>
        obtain rfl : (w.addUnit path).1 = id := by simpa [hread, Except.map] using h
        exact Table.find?_insert_self _ _ _

/-- A workspace with one more unit, fresh for its path, that the path leads to. -/
structure Opened (w w' : Workspace) (path : String) : Prop where
  outside : w'.outside = w.outside
  journal : w.journal <:+ w'.journal
  added : ∃ u, u.Fresh path ∧ w.Offers path u.tree ∧ w'.units = w.units.push u
  unitOf : w'.unitOf = w.unitOf.insert path w.units.size

theorem modifyUnit_push (u : FileUnit) (f : FileUnit → FileUnit) :
    { w with units := w.units.push u }.modifyUnit w.units.size f =
      { w with units := w.units.push (f u) } := by
  have harray : (w.units.push u).modify w.units.size f = w.units.push (f u) := by
    refine Array.ext_getElem? fun i => ?_
    rw [Array.getElem?_modify, Array.getElem?_push, Array.getElem?_push]
    by_cases hi : i = w.units.size
    · simp [hi]
    · simp [hi, Ne.symm hi]
  rw [modifyUnit, harray]

theorem install_push (r : Reading) (digest : UInt64) (heap : Heap) :
    let u := (FileUnit.install { path } r digest).2
    ({ (w.addUnit path).2 with heap := heap }.modifyUnit w.units.size fun u =>
      (u.install r digest).2).happen w.units.size .read =
    { w with
      heap := heap
      units := w.units.push u
      journal := ⟨w.units.size, u.status, u.failedAt, .read⟩ :: w.journal } := by
  intro u
  have hinstall : ({ (w.addUnit path).2 with heap := heap }.modifyUnit w.units.size fun u =>
      (u.install r digest).2) = { w with heap := heap, units := w.units.push u } :=
    modifyUnit_push { w with heap := heap } { path } _
  have hlast : ({ w with heap := heap, units := w.units.push u } : Workspace).unit
      w.units.size = u := by
    rw [unit, Array.getElem?_push, if_pos rfl]
    rfl
  have hsame : { w with heap := heap, units := w.units.push u }.modifyUnit w.units.size
      (·.apply .read) = { w with heap := heap, units := w.units.push u } :=
    modifyUnit_push { w with heap := heap } u _
  rw [hinstall, happen_of_lt (by simp), hlast, hsame]
  rfl

theorem opened_readInto (source : Source) :
    Opened w
      (((w.addUnit path).2.readInto w.units.size source).2.placeUnit path w.units.size) path := by
  have hfresh : FileUnit.Fresh { path } path := ⟨rfl, rfl, rfl, nofun⟩
  obtain ⟨hread, -⟩ | ⟨r, heap, hr, hread⟩ := (w.addUnit path).2.readInto_cases w.units.size source
  · rw [hread]
    exact ⟨rfl, List.suffix_refl _, ⟨_, hfresh, nofun, rfl⟩, rfl⟩
  · rw [hread, install_push]
    have hlast : ((w.addUnit path).2.unit w.units.size).path = path := by simp [addUnit, unit]
    rw [hlast] at hr
    refine ⟨rfl, List.suffix_cons _ _, ⟨_, hfresh.install r _, fun t ht => ?_, rfl⟩, rfl⟩
    exact hr t (FileUnit.tree_install rfl r _ ht)

theorem digest_readInto {source : Source} (h : source ≠ .empty) :
    (((w.addUnit path).2.readInto w.units.size source).2.unit w.units.size).digest =
    source.digest := by
  obtain ⟨-, hempty⟩ | ⟨r, heap, -, hread⟩ := (w.addUnit path).2.readInto_cases w.units.size source
  · exact absurd hempty h
  · rw [hread, install_push, unit, Array.getElem?_push, if_pos rfl, FileUnit.install]
    split
    · rfl
    · split <;> rfl

theorem opened_openUnit :
    (w.openUnit path).2 = w ∨ w.unitOf.find? path = none ∧ Opened w (w.openUnit path).2 path := by
  obtain h | ⟨source, hnew, h⟩ := w.openUnit_cases path
  · exact .inl h
  refine .inr ⟨hnew, ?_⟩
  rw [h]
  exact opened_readInto w path source

theorem Opened.later {w w' : Workspace} {path : String} (h : Opened w w' path)
    (hnew : w.unitOf.find? path = none) : w.Later w' := by
  obtain ⟨u, hfresh, hoffers, hunits⟩ := h.added
  have hsize : w'.units.size = w.units.size + 1 := by rw [hunits, Array.size_push]
  have hold (id : UnitId) (hid : id < w.units.size) : w'.unit id = w.unit id := by
    rw [unit, unit, hunits, Array.getElem?_push, if_neg (Nat.ne_of_lt hid)]
  have hlast : w'.unit w.units.size = u := by
    rw [unit, hunits, Array.getElem?_push, if_pos rfl]; rfl
  have hkeep (p : String) (id : UnitId) (hp : w.unitOf.find? p = some id) :
      w'.unitOf.find? p = some id := by
    have hne : p ≠ path := by
      rintro rfl
      rw [hnew] at hp
      cases hp
    rw [h.unitOf, Table.find?_insert_of_ne _ _ hne, hp]
  have hcases (id : UnitId) (hid : id < w'.units.size) :
      id < w.units.size ∨ id = w.units.size := by
    rw [hsize] at hid
    exact Nat.lt_succ_iff_lt_or_eq.1 hid
  have hmore (id : UnitId) (hid : id < w.units.size) : id < w'.units.size :=
    hsize ▸ Nat.lt_succ_of_lt hid
  constructor
  case outside => exact h.outside
  case journal => exact h.journal
  case units =>
    intro id hid
    rw [hold id hid]
    exact ⟨hmore id hid, .refl _⟩
  case born =>
    intro id hid hid'
    obtain rfl : id = w.units.size := by omega
    rw [hlast]
    exact hfresh.faithful
  case offered =>
    intro id hid hid'
    obtain rfl : id = w.units.size := by omega
    rw [hlast, hfresh.path]
    exact hoffers
  case unitOf => exact hkeep
  case linked =>
    intro hlinked
    refine ⟨fun p id hp => ?_, fun id hid => ?_, fun id p other hp => ?_⟩
    · by_cases hpath : p = path
      · subst hpath
        rw [h.unitOf, Table.find?_insert_self] at hp
        cases hp
        exact ⟨hsize ▸ Nat.lt_succ_self _, hlast ▸ hfresh.path⟩
      · rw [h.unitOf, Table.find?_insert_of_ne _ _ hpath] at hp
        obtain ⟨hid, hu⟩ := hlinked.placed p id hp
        exact ⟨hmore id hid, hold id hid ▸ hu⟩
    · rcases hcases id hid with hid | rfl
      · rw [hold id hid]
        exact hkeep _ id (hlinked.owned id hid)
      · rw [hlast, hfresh.path, h.unitOf, Table.find?_insert_self]
    · rcases Nat.lt_trichotomy id w.units.size with hid | rfl | hid
      · rw [hold id hid] at hp
        exact hkeep p other (hlinked.depended id p other hp)
      · rw [hlast, hfresh.depended] at hp
        cases hp
      · rw [unit, Array.getElem?_eq_none (by omega)] at hp
        cases hp
  case placed =>
    intro hplaced
    refine ⟨fun p id hp => ?_, fun id hid ha => ?_⟩
    · by_cases hpath : p = path
      · subst hpath
        rw [h.unitOf, Table.find?_insert_self] at hp
        cases hp
        rw [hlast]
        exact ⟨hsize ▸ Nat.lt_succ_self _, hfresh.path, hfresh.abandoned⟩
      · rw [h.unitOf, Table.find?_insert_of_ne _ _ hpath] at hp
        obtain ⟨hid, hu⟩ := hplaced.placed p id hp
        exact ⟨hmore id hid, hold id hid ▸ hu⟩
    · rcases hcases id hid with hid | rfl
      · rw [hold id hid] at ha ⊢
        exact hkeep _ id (hplaced.owned id hid ha)
      · rw [hlast, hfresh.path, h.unitOf, Table.find?_insert_self]

theorem later_openUnit : w.Later (w.openUnit path).2 := by
  rcases w.opened_openUnit path with h | ⟨hnew, h⟩
  · rw [h]
    exact .refl w
  · exact h.later hnew

end Workspace

end HotScript
