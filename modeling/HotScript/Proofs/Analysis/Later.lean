import HotScript.Analysis.Stage

/-!
What no step of the analysis undoes.

A unit keeps its path, its tree and its classes, and a class keeps its members, each as it was found
out except for its signature. A base that was found stays, unless the class is found to be unusable.
Messages are only added, and the status of a unit never falls. `Workspace.Later` says all of this of
two states of a workspace. A change of a unit that leaves messages, statuses and bases as they are
is `FileUnit.Quiet`.
-/

namespace HotScript

/-! ### Members and classes -/

/-- The same member; only its signature may differ. -/
structure MemberFacts.Kept (m m' : MemberFacts) : Prop where
  name : m'.name = m.name
  kind : m'.kind = m.kind
  type : m'.type = m.type
  value : m'.value = m.value
  index : m'.index = m.index

theorem MemberFacts.Kept.refl (m : MemberFacts) : m.Kept m := ⟨rfl, rfl, rfl, rfl, rfl⟩

theorem MemberFacts.Kept.trans {m1 m2 m3 : MemberFacts} (h : m1.Kept m2) (h' : m2.Kept m3) :
    m1.Kept m3 where
  name := h'.name.trans h.name
  kind := h'.kind.trans h.kind
  type := h'.type.trans h.type
  value := h'.value.trans h.value
  index := h'.index.trans h.index

/-- What the facts about a class may become. -/
structure ClassFacts.Later (c c' : ClassFacts) : Prop where
  ref : c'.ref = c.ref
  members : ∀ name m, c.members.find? name = some m → ∃ m', c'.members.find? name = some m' ∧
    m.Kept m'
  base : c.inheritance = .unresolved ∨ c'.inheritance = .invalid ∨
    (c'.inheritance = c.inheritance ∧ c'.base = c.base)

namespace ClassFacts.Later

theorem refl (c : ClassFacts) : c.Later c where
  ref := rfl
  members _ m hm := ⟨m, hm, .refl m⟩
  base := .inr (.inr ⟨rfl, rfl⟩)

theorem trans {c1 c2 c3 : ClassFacts} (h : c1.Later c2) (h' : c2.Later c3) : c1.Later c3 where
  ref := h'.ref.trans h.ref
  members name m hm := by
    obtain ⟨m2, hm2, hk⟩ := h.members name m hm
    obtain ⟨m3, hm3, hk'⟩ := h'.members name m2 hm2
    exact ⟨m3, hm3, hk.trans hk'⟩
  base := by
    rcases h.base with h1 | h1 | ⟨h1, hb1⟩
    · exact .inl h1
    · rcases h'.base with h2 | h2 | ⟨h2, -⟩
      · rw [h1] at h2
        cases h2
      · exact .inr (.inl h2)
      · exact .inr (.inl (h2.trans h1))
    · rcases h'.base with h2 | h2 | ⟨h2, hb2⟩
      · exact .inl (h1 ▸ h2)
      · exact .inr (.inl h2)
      · exact .inr (.inr ⟨h2.trans h1, hb2.trans hb1⟩)

end ClassFacts.Later

/-! ### Units -/

/-- A member was found out from the declaration that its name leads to. -/
structure ClassDecl.Declares (decl : ClassDecl) (name : String) (m : MemberFacts) : Prop where
  name_eq : m.name = name
  place : decl.places.find? name = some m.index
  member : ∃ d, decl.members[m.index]? = some d ∧ d.name? = some name

/-- The members that are known are those of the tree. -/
structure FileUnit.Faithful (u : FileUnit) : Prop where
  keys : ∀ c ∈ u.classes, c.members.keys.Nodup
  declared : ∀ id c name m, u.classes[id]? = some c → c.members.find? name = some m →
    ∃ t decl, u.tree = some t ∧ t.class? id = some decl ∧ decl.Declares name m

def FileUnit.origin (u : FileUnit) : String × Option Tree × UInt64 × Bool :=
  (u.path, u.tree, u.digest, u.abandoned)

/-- What a unit may become. -/
structure FileUnit.Later (u u' : FileUnit) : Prop where
  origin : u'.origin = u.origin
  facts : ∀ (id : ClassId) (c : ClassFacts), u.classes[id]? = some c →
    ∃ c', u'.classes[id]? = some c' ∧ c.Later c'
  count : u'.classes.size = u.classes.size
  faithful : u.Faithful → u'.Faithful
  status : u.status.rank ≤ u'.status.rank
  failed : u.failedAt.isSome → u'.failedAt.isSome
  diagnostics : u.diagnostics <+: u'.diagnostics

theorem FileUnit.classes_modifyClass (u : FileUnit) (id j : ClassId) (f : ClassFacts → ClassFacts) :
    (u.modifyClass id f).classes[j]? = if id = j then u.classes[j]?.map f else u.classes[j]? :=
  Array.getElem?_modify

theorem FileUnit.Faithful.modifyClass {u : FileUnit} (h : u.Faithful) {id : ClassId}
    {f : ClassFacts → ClassFacts}
    (hk : ∀ c : ClassFacts, c.members.keys.Nodup → (f c).members.keys.Nodup)
    (hd : ∀ (c : ClassFacts) name m, (f c).members.find? name = some m →
      (∃ m0, c.members.find? name = some m0 ∧ m0.Kept m) ∨
      ∃ t decl, u.tree = some t ∧ t.class? id = some decl ∧ decl.Declares name m) :
    (u.modifyClass id f).Faithful where
  keys c hc := by
    obtain ⟨j, hj⟩ := Array.mem_iff_getElem?.1 hc
    rw [FileUnit.classes_modifyClass] at hj
    split at hj
    · obtain ⟨c0, hc0, rfl⟩ := Option.map_eq_some_iff.1 hj
      exact hk c0 (h.keys c0 (Array.mem_of_getElem? hc0))
    · exact h.keys c (Array.mem_of_getElem? hj)
  declared j c name m hj hm := by
    rw [FileUnit.classes_modifyClass] at hj
    split at hj
    · next hid =>
      obtain ⟨c0, hc0, rfl⟩ := Option.map_eq_some_iff.1 hj
      subst hid
      rcases hd c0 name m hm with ⟨m0, hm0, hkept⟩ | ⟨t, decl, ht, hdecl, hnew⟩
      · obtain ⟨t, decl, ht, hdecl, hold⟩ := h.declared id c0 name m0 hc0 hm0
        exact ⟨t, decl, ht, hdecl, hkept.name ▸ hold.name_eq, hkept.index ▸ hold.place,
          hkept.index ▸ hold.member⟩
      · exact ⟨t, decl, ht, hdecl, hnew⟩
    · exact h.declared j c name m hj hm

namespace FileUnit.Later

section Origin

variable {u u' : FileUnit} (h : u.Later u')
include h

theorem path : u'.path = u.path := congrArg Prod.fst h.origin
theorem tree : u'.tree = u.tree := congrArg (·.2.1) h.origin
theorem digest : u'.digest = u.digest := congrArg (·.2.2.1) h.origin
theorem abandoned : u'.abandoned = u.abandoned := congrArg (·.2.2.2) h.origin

end Origin

theorem refl (u : FileUnit) : u.Later u where
  origin := rfl
  facts _ c hc := ⟨c, hc, .refl c⟩
  count := rfl
  faithful h := h
  status := Nat.le_refl _
  failed h := h
  diagnostics := List.prefix_refl _

theorem trans {u1 u2 u3 : FileUnit} (h : u1.Later u2) (h' : u2.Later u3) : u1.Later u3 where
  origin := h'.origin.trans h.origin
  facts id c hc := by
    obtain ⟨c2, hc2, hl⟩ := h.facts id c hc
    obtain ⟨c3, hc3, hl'⟩ := h'.facts id c2 hc2
    exact ⟨c3, hc3, hl.trans hl'⟩
  count := h'.count.trans h.count
  faithful hf := h'.faithful (h.faithful hf)
  status := Nat.le_trans h.status h'.status
  failed hf := h'.failed (h.failed hf)
  diagnostics := h.diagnostics.trans h'.diagnostics

variable {u : FileUnit} {u' u0 : FileUnit} {id : ClassId}

theorem of_classes (ho : u'.origin = u.origin) (hc : u'.classes = u.classes)
    (hs : u.status.rank ≤ u'.status.rank) (hf : u.failedAt.isSome → u'.failedAt.isSome)
    (hd : u.diagnostics <+: u'.diagnostics) : u.Later u' where
  origin := ho
  facts _ c h := ⟨c, hc ▸ h, .refl c⟩
  count := by rw [hc]
  faithful h := by
    have ht : u'.tree = u.tree := congrArg (·.2.1) ho
    exact ⟨hc ▸ h.keys, fun id c name m hcls hm => ht ▸ h.declared id c name m (hc ▸ hcls) hm⟩
  status := hs
  failed := hf
  diagnostics := hd

theorem modifyClass (h : u0.Later u) {f : ClassFacts → ClassFacts}
    (hl : ∀ c0 c, u0.classes[id]? = some c0 → c0.Later c → c0.Later (f c))
    (hf : u.Faithful → (u.modifyClass id f).Faithful) : u0.Later (u.modifyClass id f) where
  origin := h.origin
  facts j c0 hc0 := by
    obtain ⟨c, hc, hlc⟩ := h.facts j c0 hc0
    by_cases hj : id = j
    · subst hj
      exact ⟨f c, by rw [classes_modifyClass, if_pos rfl, hc, Option.map_some], hl c0 c hc0 hlc⟩
    · exact ⟨c, by rw [classes_modifyClass, if_neg hj, hc], hlc⟩
  count := Array.size_modify.trans h.count
  faithful h0 := hf (h.faithful h0)
  status := h.status
  failed := h.failed
  diagnostics := h.diagnostics

theorem modifyClass_of_members (h : u0.Later u) {f : ClassFacts → ClassFacts}
    (hm : ∀ c, (f c).members = c.members)
    (hl : ∀ c0 c, u0.classes[id]? = some c0 → c0.Later c → c0.Later (f c)) :
    u0.Later (u.modifyClass id f) :=
  h.modifyClass hl fun hfaithful => hfaithful.modifyClass (fun c hc => hm c ▸ hc)
    fun c _ m hfind => .inl ⟨m, hm c ▸ hfind, .refl m⟩

theorem errorCount_le (h : u.Later u') : u.errorCount ≤ u'.errorCount := by
  obtain ⟨more, hmore⟩ := h.diagnostics
  rw [errorCount, errorCount, ← hmore, List.countP_append]
  exact Nat.le_add_right _ _

end FileUnit.Later

def ClassFacts.bond (c : ClassFacts) : InheritanceState × StaticType × Option String :=
  (c.inheritance, c.base, c.native)

/-- What a unit may become without a message, a failure, a new status or anything new about
bases. -/
structure FileUnit.Quiet (u u' : FileUnit) : Prop where
  later : u.Later u'
  status : u'.status = u.status
  failedAt : u'.failedAt = u.failedAt
  diagnostics : u'.diagnostics = u.diagnostics
  depended : u'.depended = u.depended
  bonds : ∀ id : ClassId, u'.classes[id]?.map ClassFacts.bond = u.classes[id]?.map ClassFacts.bond

namespace FileUnit.Quiet

variable {u u' : FileUnit}

theorem of_rest (ho : u'.origin = u.origin) (hc : u'.classes = u.classes)
    (hs : u'.status = u.status) (hf : u'.failedAt = u.failedAt)
    (hm : u'.diagnostics = u.diagnostics)
    (hd : u'.depended = u.depended) : u.Quiet u' where
  later := .of_classes ho hc (hs ▸ Nat.le_refl _) (hf ▸ id) (hm ▸ List.prefix_refl _)
  status := hs
  failedAt := hf
  diagnostics := hm
  depended := hd
  bonds id := by rw [hc]

theorem modifyClass {id : ClassId} {f : ClassFacts → ClassFacts}
    (hl : ∀ c : ClassFacts, c.Later (f c)) (hb : ∀ c, (f c).bond = c.bond)
    (hf : u.Faithful → (u.modifyClass id f).Faithful) : u.Quiet (u.modifyClass id f) where
  later := (Later.refl u).modifyClass (fun _ c _ hlc => hlc.trans (hl c)) hf
  status := rfl
  failedAt := rfl
  diagnostics := rfl
  depended := rfl
  bonds j := by
    rw [classes_modifyClass]
    split
    · rw [Option.map_map, show ClassFacts.bond ∘ f = ClassFacts.bond from funext hb]
    · rfl

end FileUnit.Quiet

/-! ### Workspaces -/

/-- The path of every unit leads to it, and units have noted for other paths what these lead to. -/
structure Workspace.Linked (w : Workspace) : Prop where
  placed : ∀ path id, w.unitOf.find? path = some id → id < w.units.size ∧ (w.unit id).path = path
  owned : ∀ id, id < w.units.size → w.unitOf.find? (w.unit id).path = some id
  depended : ∀ k path id, (w.unit k).depended.find? path = some id → w.unitOf.find? path = some id

/-- A path leads to a unit exactly when the unit has that path and was not abandoned. -/
structure Workspace.Placed (w : Workspace) : Prop where
  placed : ∀ path id, w.unitOf.find? path = some id →
    id < w.units.size ∧ (w.unit id).path = path ∧ (w.unit id).abandoned = false
  owned : ∀ id, id < w.units.size → (w.unit id).abandoned = false →
    w.unitOf.find? (w.unit id).path = some id

/-- The tree that was read at a path, if any, is that of a program. -/
def Workspace.Offers (w : Workspace) (path : String) (tree : Option Tree) : Prop :=
  ∀ t, tree = some t →
    ∃ text program h, w.programs.find? text = some program ∧ (program path h).1.tree = some t

def Workspace.outside (w : Workspace) :
    Settings × Registry × Table String FileContent × Table String Program :=
  (w.settings, w.registry, w.files, w.programs)

theorem Workspace.source_congr {w w' : Workspace} (h : w'.outside = w.outside) (path : String) :
    w'.source path = w.source path :=
  congrArg (fun x : Settings × Registry × Table String FileContent × _ =>
    Source.load x.1 x.2.2.1 path) h

/-- What a workspace may become. -/
structure Workspace.Later (w w' : Workspace) : Prop where
  outside : w'.outside = w.outside
  journal : w.journal <:+ w'.journal
  units : ∀ id, id < w.units.size → id < w'.units.size ∧ (w.unit id).Later (w'.unit id)
  born : ∀ id, w.units.size ≤ id → id < w'.units.size → (w'.unit id).Faithful
  offered : ∀ id, w.units.size ≤ id → id < w'.units.size →
    w.Offers (w'.unit id).path (w'.unit id).tree
  unitOf : ∀ path id, w.unitOf.find? path = some id → w'.unitOf.find? path = some id
  linked : w.Linked → w'.Linked
  placed : w.Placed → w'.Placed

namespace Workspace.Later

theorem programs {w w' : Workspace} (h : w.Later w') : w'.programs = w.programs :=
  congrArg (·.2.2.2) h.outside

theorem refl (w : Workspace) : w.Later w where
  outside := rfl
  journal := List.suffix_refl _
  units _ h := ⟨h, .refl _⟩
  born _ h h' := absurd h' (Nat.not_lt.2 h)
  offered _ h h' := absurd h' (Nat.not_lt.2 h)
  unitOf _ _ h := h
  linked h := h
  placed h := h

theorem trans {w1 w2 w3 : Workspace} (h : w1.Later w2) (h' : w2.Later w3) : w1.Later w3 where
  outside := h'.outside.trans h.outside
  journal := h.journal.trans h'.journal
  units id hid := by
    obtain ⟨hid2, hl⟩ := h.units id hid
    obtain ⟨hid3, hl'⟩ := h'.units id hid2
    exact ⟨hid3, hl.trans hl'⟩
  born id hid hid3 := by
    by_cases hid2 : id < w2.units.size
    · exact (h'.units id hid2).2.faithful (h.born id hid hid2)
    · exact h'.born id (Nat.not_lt.1 hid2) hid3
  offered id hid hid3 := by
    by_cases hid2 : id < w2.units.size
    · have hl := (h'.units id hid2).2
      rw [hl.path, hl.tree]
      exact h.offered id hid hid2
    · have hnew := h'.offered id (Nat.not_lt.1 hid2) hid3
      rwa [Workspace.Offers, h.programs] at hnew
  unitOf path id hp := h'.unitOf path id (h.unitOf path id hp)
  linked hl := h'.linked (h.linked hl)
  placed hp := h'.placed (h.placed hp)

end Workspace.Later

namespace Workspace

variable {w : Workspace} {id k : UnitId} {f : FileUnit → FileUnit}

theorem size_modifyUnit : (w.modifyUnit id f).units.size = w.units.size := Array.size_modify

theorem unit_modifyUnit_self (h : id < w.units.size) :
    (w.modifyUnit id f).unit id = f (w.unit id) := by
  rw [unit, unit, modifyUnit, Array.getElem?_modify, if_pos rfl, Array.getElem?_eq_getElem h]
  rfl

variable {j : UnitId}

theorem unit_modifyUnit_of_ne (h : j ≠ id) : (w.modifyUnit id f).unit j = w.unit j := by
  rw [unit, unit, modifyUnit, Array.getElem?_modify, if_neg h.symm]

theorem modifyUnit_of_le (h : w.units.size ≤ id) : w.modifyUnit id f = w := by
  have : w.units.modify id f = w.units := by
    ext i hi hi'
    · exact Array.size_modify
    · rw [Array.getElem_modify, if_neg (by omega)]
  rw [modifyUnit, this]

theorem congr_modifyUnit {α : Type} (g : FileUnit → α) (h : g (f (w.unit id)) = g (w.unit id))
    (j : UnitId) : g ((w.modifyUnit id f).unit j) = g (w.unit j) := by
  by_cases hj : j = id
  · subst hj
    rcases Nat.lt_or_ge j w.units.size with hlt | hge
    · rw [unit_modifyUnit_self hlt, h]
    · rw [modifyUnit_of_le hge]
  · rw [unit_modifyUnit_of_ne hj]

variable {w0 : Workspace} {e : UnitEvent}

theorem Later.andModify (h : w0.Later w) (hid : id < w0.units.size)
    (hl : (w0.unit id).Later (f (w.unit id)))
    (hd : w.Linked → ∀ path other, (f (w.unit id)).depended.find? path = some other →
      w.unitOf.find? path = some other) : w0.Later (w.modifyUnit id f) := by
  obtain ⟨hid', hl'⟩ := h.units id hid
  have hsize : (w.modifyUnit id f).units.size = w.units.size := size_modifyUnit
  have hself : (w.modifyUnit id f).unit id = f (w.unit id) := unit_modifyUnit_self hid'
  have hpath := congr_modifyUnit (·.path) (hl.path.trans hl'.path.symm)
  have habandoned := congr_modifyUnit (·.abandoned) (hl.abandoned.trans hl'.abandoned.symm)
  constructor
  case outside => exact h.outside
  case journal => exact h.journal
  case units =>
    intro j hj
    obtain ⟨hlt, hlj⟩ := h.units j hj
    refine ⟨hsize ▸ hlt, ?_⟩
    by_cases hjid : j = id
    · rw [hjid, hself]
      exact hl
    · rw [unit_modifyUnit_of_ne hjid]
      exact hlj
  case born =>
    intro j hj hj'
    have hjid : j ≠ id := fun e => absurd (e ▸ hid) (Nat.not_lt.2 hj)
    rw [unit_modifyUnit_of_ne hjid]
    exact h.born j hj (hsize ▸ hj')
  case offered =>
    intro j hj hj'
    have hjid : j ≠ id := fun e => absurd (e ▸ hid) (Nat.not_lt.2 hj)
    rw [unit_modifyUnit_of_ne hjid]
    exact h.offered j hj (hsize ▸ hj')
  case unitOf => exact h.unitOf
  case linked =>
    intro hlinked
    have hw := h.linked hlinked
    refine ⟨fun path j hj => ?_, fun j hj => ?_, fun j path other hj => ?_⟩
    · obtain ⟨hlt, hp⟩ := hw.placed path j hj
      exact ⟨hsize ▸ hlt, (hpath j).trans hp⟩
    · rw [hpath]
      exact hw.owned j (hsize ▸ hj)
    · by_cases hjid : j = id
      · rw [hjid, hself] at hj
        exact hd hw path other hj
      · rw [unit_modifyUnit_of_ne hjid] at hj
        exact hw.depended j path other hj
  case placed =>
    intro hplaced
    have hw := h.placed hplaced
    refine ⟨fun path j hj => ?_, fun j hj ha => ?_⟩
    · obtain ⟨hlt, hp, ha⟩ := hw.placed path j hj
      exact ⟨hsize ▸ hlt, (hpath j).trans hp, (habandoned j).trans ha⟩
    · rw [hpath]
      exact hw.owned j (hsize ▸ hj) (habandoned j ▸ ha)

theorem Later.modifyUnit (hl : id < w.units.size → (w.unit id).Later (f (w.unit id)))
    (hd : w.Linked → ∀ path other, (f (w.unit id)).depended.find? path = some other →
      w.unitOf.find? path = some other) :
    w.Later (w.modifyUnit id f) := by
  rcases Nat.lt_or_ge id w.units.size with hid | hid
  · exact (refl w).andModify hid (hl hid) hd
  · rw [modifyUnit_of_le hid]
    exact .refl w

theorem Later.heap (h : Heap) : w.Later { w with heap := h } where
  outside := rfl
  journal := List.suffix_refl _
  units _ hid := ⟨hid, .refl _⟩
  born _ hid hid' := absurd hid' (Nat.not_lt.2 hid)
  offered _ hid hid' := absurd hid' (Nat.not_lt.2 hid)
  unitOf _ _ hp := hp
  linked hl := ⟨hl.placed, hl.owned, hl.depended⟩
  placed hp := ⟨hp.placed, hp.owned⟩

theorem Later.quiet (hq : id < w.units.size → (w.unit id).Quiet (f (w.unit id))) :
    w.Later (w.modifyUnit id f) := by
  rcases Nat.lt_or_ge id w.units.size with hid | hid
  · have h := hq hid
    exact .modifyUnit (fun _ => h.later) fun hlinked => h.depended ▸ hlinked.depended id
  · rw [modifyUnit_of_le hid]
    exact .refl w

/-! ### Events -/

theorem happen_of_lt (h : id < w.units.size) : w.happen id e = { w.modifyUnit id (·.apply e) with
        journal := ⟨id, ((w.unit id).apply e).status, ((w.unit id).apply e).failedAt, e⟩ ::
        w.journal } :=
  if_pos h

theorem happen_of_le (h : w.units.size ≤ id) : w.happen id e = w :=
  if_neg (Nat.not_lt.2 h)

theorem unit_happen_self (h : id < w.units.size) :
    (w.happen id e).unit id = (w.unit id).apply e := by
  rw [happen_of_lt h]
  exact unit_modifyUnit_self h

theorem unit_happen_of_ne (h : j ≠ id) : (w.happen id e).unit j = w.unit j := by
  rcases Nat.lt_or_ge id w.units.size with hid | hid
  · rw [happen_of_lt hid]
    exact unit_modifyUnit_of_ne h
  · rw [happen_of_le hid]

theorem congr_happen {α : Type} (g : FileUnit → α)
    (h : g ((w.unit k).apply e) = g (w.unit k)) (j : UnitId) :
    g ((w.happen k e).unit j) = g (w.unit j) := by
  rcases Nat.lt_or_ge k w.units.size with hk | hk
  · rw [happen_of_lt hk]
    exact congr_modifyUnit g h j
  · rw [happen_of_le hk]

theorem unit_happen_of_apply (h : ∀ u : FileUnit, u.apply e = u) (j : UnitId) :
    (w.happen id e).unit j = w.unit j := congr_happen (·) (h _) j

theorem size_happen : (w.happen id e).units.size = w.units.size := by
  rcases Nat.lt_or_ge id w.units.size with hid | hid
  · rw [happen_of_lt hid]
    exact size_modifyUnit
  · rw [happen_of_le hid]

theorem depended_apply (u : FileUnit) (e : UnitEvent) : (u.apply e).depended = u.depended := by
  cases e <;> rfl

theorem rest_happen : (w.happen id e).outside = w.outside ∧ (w.happen id e).unitOf = w.unitOf := by
  rw [happen]
  split <;> exact ⟨rfl, rfl⟩

theorem Linked.happen (h : w.Linked) : (w.happen id e).Linked := by
  have hpath : ∀ j, ((w.happen id e).unit j).path = (w.unit j).path :=
    congr_happen (·.path) (by cases e <;> rfl)
  refine ⟨fun p j hj => ?_, fun j hj => ?_, fun j p other hj => ?_⟩
  · obtain ⟨hlt, hp⟩ := h.placed p j (rest_happen.2 ▸ hj)
    exact ⟨Nat.lt_of_lt_of_eq hlt size_happen.symm, (hpath j).trans hp⟩
  · rw [hpath, rest_happen.2]
    exact h.owned j (Nat.lt_of_lt_of_eq hj size_happen)
  · rw [congr_happen (·.depended) (depended_apply _ e)] at hj
    rw [rest_happen.2]
    exact h.depended j p other hj

theorem Later.noted (h : w0.Later w) (e : JournalEntry) :
    w0.Later { w with journal := e :: w.journal } where
  outside := h.outside
  journal := h.journal.trans (List.suffix_cons _ _)
  units := h.units
  born := h.born
  offered := h.offered
  unitOf := h.unitOf
  linked hl := ⟨(h.linked hl).placed, (h.linked hl).owned, (h.linked hl).depended⟩
  placed hp := ⟨(h.placed hp).placed, (h.placed hp).owned⟩

theorem Later.andHappen (h : w0.Later w) (hl : w0.Later (w.modifyUnit id (·.apply e))) :
    w0.Later (w.happen id e) := by
  rcases Nat.lt_or_ge id w.units.size with hid | hid
  · rw [happen_of_lt hid]
    exact Later.noted hl _
  · rwa [happen_of_le hid]

theorem Later.happen (h : id < w.units.size → (w.unit id).Later ((w.unit id).apply e)) :
    w.Later (w.happen id e) :=
  .andHappen (.refl w) (.modifyUnit h fun hlinked path other hfind =>
    hlinked.depended id path other (depended_apply _ e ▸ hfind))

theorem later_reported (w : Workspace) (id : UnitId) (d : Diagnostic) :
    w.Later (w.happen id (.reported d)) :=
  .happen fun _ => .of_classes rfl rfl (Nat.le_refl _) (fun h => h) (List.prefix_append _ _)

theorem later_failed (w : Workspace) (id : UnitId) (stage : UnitStatus) :
    w.Later (w.happen id (.failed stage)) :=
  .happen fun _ => .of_classes rfl rfl (Nat.le_refl _) (fun _ => rfl) (List.prefix_refl _)

end Workspace

end HotScript
