import Mathlib.Data.List.Nodup
import Mathlib.Data.List.Perm.Subperm
import HotScript.Lower.Class
import HotScript.Proofs.Analysis.Discipline

/-!
Where compilations see the slots of a class.

A compilation draws up the layout of a class from the members that are known by then. The slot of a
variable is the first slot of its class plus the number of known variables declared in front of it.
Between two compilations members only become known, so the later one sees the slot further back by
those that became known in between.
-/

namespace HotScript

open Option (bind_eq_some_iff map_eq_some_iff)

/-! ### Numbered tables -/

/-- The slots of a table have the given names and consecutive numbers. -/
def Numbered (slots : Table String Slot) (first : Nat) (names : List String) : Prop :=
  slots.entries.map (fun e => (e.1, e.2.index)) = names.zipIdx first

namespace Numbered

variable {slots : Table String Slot} {first : Nat} {names : List String}

section

variable (h : Numbered slots first names)

include h

theorem keys_eq : slots.keys = names := by
  have := congrArg (List.map Prod.fst) h
  simpa [Table.keys, Function.comp_def] using this

theorem size_eq : slots.size = names.length := by
  rw [← h.keys_eq, Table.keys, List.length_map, Table.size]

theorem insert {name : String} (hnew : name ∉ names) {slot : Slot}
    (hslot : slot.index = first + slots.size) :
    Numbered (slots.insert name slot) first (names ++ [name]) := by
  have hput (l : List (String × Slot)) (hl : name ∉ l.map (·.1)) :
      Table.put name slot l = l ++ [(name, slot)] := by
    induction l with
    | nil => rfl
    | cons e rest ih =>
      obtain ⟨hne, hrest⟩ : ¬ name = e.1 ∧ name ∉ rest.map (·.1) := by
        simpa only [List.map_cons, List.mem_cons, not_or] using hl
      rw [Table.put, if_neg (by simpa using hne), ih hrest, List.cons_append]
  have hfresh : name ∉ slots.entries.map (·.1) := by
    rw [show slots.entries.map (·.1) = names from h.keys_eq]
    exact hnew
  show ((Table.put name slot slots.entries).map fun e => (e.1, e.2.index)) = _
  rw [hput _ hfresh, List.map_append, h, List.zipIdx_append, ← h.size_eq, ← hslot]
  rfl

theorem find? (hnodup : names.Nodup) {x : String} {s : Slot}
    (hs : slots.find? x = some s) : ∃ i, names[i]? = some x ∧ s.index = first + i := by
  have hkeys : slots.keys.Nodup := by rwa [h.keys_eq]
  have hmem := (Table.mem_entries_iff hkeys).2 hs
  have : (x, s.index) ∈ names.zipIdx first := by
    rw [← h]
    exact List.mem_map_of_mem hmem
  obtain ⟨i, hi⟩ := List.mem_iff_getElem?.1 this
  rw [List.getElem?_zipIdx] at hi
  obtain ⟨y, hy, heq⟩ := map_eq_some_iff.1 hi
  obtain ⟨rfl, hindex⟩ := Prod.mk.inj heq
  exact ⟨i, hy, hindex.symm⟩

theorem ahead_eq (i : Nat) :
    ((slots.entries.filter fun e => decide (e.2.index < first + i)).map (·.1)) = names.take i := by
  have hfront (names : List String) (first i : Nat) :
      ((names.zipIdx first).filter fun e => decide (e.2 < first + i)).map (·.1) = names.take i := by
    induction names generalizing first i with
    | nil => rw [List.take_nil]; rfl
    | cons x rest ih =>
      cases i with
      | zero =>
        rw [List.take_zero, List.map_eq_nil_iff, List.filter_eq_nil_iff]
        intro e he
        have := List.le_snd_of_mem_zipIdx he
        simpa using this
      | succ i =>
        rw [List.zipIdx_cons, List.filter_cons, if_pos (by simp), List.map_cons,
          List.take_succ_cons,
          show first + (i + 1) = first + 1 + i by omega, ih]
  have hmap : ((slots.entries.map fun e => (e.1, e.2.index)).filter
      fun e => decide (e.2 < first + i)).map (·.1) = names.take i := by
    rw [h, hfront]
  rw [List.filter_map, List.map_map] at hmap
  exact hmap

end

end Numbered

namespace Layout

def slots (l : Layout) (isStatic : Bool) : Table String Slot :=
  if isStatic then l.statics else l.instances

def first (l : Layout) (isStatic : Bool) : Nat := if isStatic then 0 else l.baseCount

/-- The variables whose slots lie in front of a slot. -/
def ahead (l : Layout) (isStatic : Bool) (index : Nat) : List String :=
  ((l.slots isStatic).entries.filter fun e => decide (e.2.index < index)).map (·.1)

end Layout

def MemberFacts.storedIn (m : MemberFacts) (isStatic : Bool) : Bool :=
  match m.kind with
  | .variable s .. => s == isStatic
  | _ => false

namespace Layout

variable {l : Layout} {m : MemberFacts} {isStatic : Bool} {names : List String}

theorem first_add : (l.add m).first isStatic = l.first isStatic := by
  rw [add]
  split
  · next s _ _ _ _ => cases s <;> rfl
  · rfl

theorem slots_add_of_not (h : ¬ m.storedIn isStatic) :
    (l.add m).slots isStatic = l.slots isStatic := by
  rw [add]
  rw [MemberFacts.storedIn] at h
  split
  · next s _ _ _ hkind =>
    rw [hkind] at h
    cases s <;> cases isStatic <;> first | rfl | exact absurd rfl h
  · rfl

theorem numbered_add (h : Numbered (l.slots isStatic) (l.first isStatic) names)
    (hm : m.storedIn isStatic) (hnew : m.name ∉ names) :
    Numbered ((l.add m).slots isStatic) (l.first isStatic) (names ++ [m.name]) := by
  rw [add]
  rw [MemberFacts.storedIn] at hm
  split
  · next s _ _ _ hkind =>
    rw [hkind] at hm
    obtain rfl : s = isStatic := by simpa using hm
    cases s with
    | true => exact h.insert hnew (Nat.zero_add _).symm
    | false => exact h.insert hnew rfl
  · next hkind =>
    split at hm
    · next hvar => exact absurd hvar (hkind _ _ _ _)
    · cases hm

theorem numbered_foldl {ms : List MemberFacts}
    (h : Numbered (l.slots isStatic) (l.first isStatic) names)
    (hnodup : (names ++ ms.map (·.name)).Nodup) :
    Numbered ((ms.foldl add l).slots isStatic) (l.first isStatic)
      (names ++ (ms.filter (·.storedIn isStatic)).map (·.name)) := by
  induction ms generalizing l names with
  | nil => simpa using h
  | cons m ms ih =>
    have hnew : m.name ∉ names := fun hmem =>
      (List.nodup_append.1 hnodup).2.2 _ hmem _ (.head _) rfl
    by_cases hm : m.storedIn isStatic
    · rw [List.filter_cons, if_pos hm]
      have hadd := numbered_add h hm hnew
      rw [← first_add (m := m)] at hadd
      have hnext := ih hadd (by simpa using hnodup)
      rw [first_add] at hnext
      simpa using hnext
    · rw [List.filter_cons, if_neg hm]
      have hsub : (names ++ ms.map (·.name)).Nodup :=
        hnodup.sublist ((List.Sublist.refl names).append (List.sublist_cons_self _ _))
      have hadd : Numbered ((l.add m).slots isStatic) ((l.add m).first isStatic) names := by
        rw [first_add, slots_add_of_not hm]
        exact h
      have hnext := ih hadd hsub
      rwa [first_add] at hnext

end Layout

/-! ### Members in order -/

/-- Members that are told apart by their names and by their places. -/
structure MemberFacts.Distinct (ms : List MemberFacts) : Prop where
  names : (ms.map (·.name)).Nodup
  places : ∀ m ∈ ms, ∀ m' ∈ ms, m.index = m'.index → m.name = m'.name

variable {α : Type} {isStatic : Bool} {x path : String} {s t : Slot}

theorem mem_take_iff {key : α → Nat} {l : List α} (h : l.Pairwise fun a b => key a < key b)
    {i : Nat} {b : α} (hi : l[i]? = some b) (a : α) : a ∈ l.take i ↔ a ∈ l ∧ key a < key b := by
  obtain ⟨hend, rfl⟩ := List.getElem?_eq_some_iff.1 hi
  have hless := List.pairwise_iff_getElem.1 h
  rw [List.mem_take_iff_getElem]
  constructor
  · rintro ⟨j, hj, rfl⟩
    exact ⟨List.getElem_mem _, hless j i (by omega) hend (by omega)⟩
  · rintro ⟨ha, hlt⟩
    obtain ⟨j, hj, rfl⟩ := List.mem_iff_getElem.1 ha
    rcases Nat.lt_trichotomy j i with hji | rfl | hji
    · exact ⟨j, by omega, rfl⟩
    · exact absurd hlt (Nat.lt_irrefl _)
    · exact absurd hlt (Nat.lt_asymm (hless i j hend hj hji))

variable {ms ms' : List MemberFacts}

theorem MemberFacts.Distinct.ascending (h : Distinct ms) :
    (orderBy (·.index) ms).Pairwise fun m m' => m.index < m'.index := by
  have hperm := orderBy_perm (·.index) ms
  have hnames : (orderBy (·.index) ms).Pairwise fun m m' => m.name ≠ m'.name :=
    List.pairwise_map.1 ((hperm.map MemberFacts.name).nodup_iff.2 h.names)
  refine ((pairwise_orderBy (·.index) ms).and hnames).imp_of_mem fun {m m'} hm hm' hle => ?_
  refine Nat.lt_of_le_of_ne hle.1 fun heq => hle.2 ?_
  exact h.places m (hperm.mem_iff.1 hm) m' (hperm.mem_iff.1 hm') heq

theorem Layout.first_foldl (l : Layout) (ms : List MemberFacts) (isStatic : Bool) :
    (ms.foldl add l).first isStatic = l.first isStatic := by
  induction ms generalizing l with
  | nil => rfl
  | cons m ms ih => rw [List.foldl_cons, ih, first_add]

/-- The slots of a class are numbered in the order of the declarations. -/
theorem Layout.numbered_ofMembers (h : MemberFacts.Distinct ms) (baseCount : Nat)
    (isStatic : Bool) :
    Numbered ((ofMembers baseCount ms).slots isStatic) ((ofMembers baseCount ms).first isStatic)
      (((orderBy (·.index) ms).filter (·.storedIn isStatic)).map (·.name)) := by
  have hnames : ((orderBy (·.index) ms).map (·.name)).Nodup :=
    ((orderBy_perm (·.index) ms).map MemberFacts.name).nodup_iff.2 h.names
  have hempty : Numbered (({ baseCount } : Layout).slots isStatic)
      (({ baseCount } : Layout).first isStatic) [] := by
    cases isStatic <;> rfl
  have hall := numbered_foldl hempty (by rwa [List.nil_append])
  rw [ofMembers, first_foldl]
  simpa using hall

/-- The slot of a variable comes after those of the known variables declared in front of it. -/
theorem Layout.slot_ofMembers (h : MemberFacts.Distinct ms) {baseCount : Nat}
    (hx : ((ofMembers baseCount ms).slots isStatic).find? x = some s) :
    ∃ v ∈ ms, v.storedIn isStatic ∧ v.name = x ∧
      s.index = (ofMembers baseCount ms).first isStatic +
        ((ofMembers baseCount ms).ahead isStatic s.index).length ∧
      ((ofMembers baseCount ms).ahead isStatic s.index).Nodup ∧
      ∀ y, y ∈ (ofMembers baseCount ms).ahead isStatic s.index ↔
        ∃ m ∈ ms, m.storedIn isStatic ∧ m.name = y ∧ m.index < v.index := by
  have hperm := orderBy_perm (·.index) ms
  have hnames : ((orderBy (·.index) ms).map (·.name)).Nodup :=
    (hperm.map MemberFacts.name).nodup_iff.2 h.names
  have hsub : ((orderBy (·.index) ms).filter (·.storedIn isStatic)).Sublist
      (orderBy (·.index) ms) :=
    List.filter_sublist
  have hnumbered := numbered_ofMembers h baseCount isStatic
  obtain ⟨i, hi, hindex⟩ := hnumbered.find? (hnames.sublist (hsub.map _)) hx
  rw [List.getElem?_map] at hi
  obtain ⟨v, hv, rfl⟩ := map_eq_some_iff.1 hi
  have hahead : (ofMembers baseCount ms).ahead isStatic s.index =
      (((orderBy (·.index) ms).filter (·.storedIn isStatic)).map (·.name)).take i := by
    rw [ahead, hindex]
    exact hnumbered.ahead_eq i
  obtain ⟨hmem, hstored⟩ := List.mem_filter.1 (List.mem_of_getElem? hv)
  refine ⟨v, hperm.mem_iff.1 hmem, hstored, rfl, ?_, ?_, fun y => ?_⟩
  · rw [hahead, hindex, List.length_take, List.length_map, Nat.min_eq_left]
    exact Nat.le_of_lt (List.getElem?_eq_some_iff.1 hv).1
  · rw [hahead]
    exact (hnames.sublist (hsub.map _)).sublist (List.take_sublist _ _)
  · rw [hahead, ← List.map_take, List.mem_map]
    constructor
    · rintro ⟨m, hm, rfl⟩
      obtain ⟨hm, hlt⟩ := (mem_take_iff (h.ascending.sublist hsub) hv m).1 hm
      obtain ⟨hm, hst⟩ := List.mem_filter.1 hm
      exact ⟨m, hperm.mem_iff.1 hm, hst, rfl, hlt⟩
    · rintro ⟨m, hm, hst, rfl, hlt⟩
      exact ⟨m, (mem_take_iff (h.ascending.sublist hsub) hv m).2
        ⟨List.mem_filter.2 ⟨hperm.mem_iff.2 hm, hst⟩, hlt⟩, rfl⟩

/-! ### Two looks at a class -/

/-- What is known about members at first is still known later. -/
def MemberFacts.Grown (ms ms' : List MemberFacts) : Prop := ∀ m ∈ ms, ∃ m' ∈ ms', m.Kept m'

theorem MemberFacts.Kept.storedIn {m m' : MemberFacts} (h : m.Kept m') (isStatic : Bool) :
    m'.storedIn isStatic = m.storedIn isStatic := by
  rw [MemberFacts.storedIn, MemberFacts.storedIn, h.kind]

theorem length_eq_add_new [DecidableEq α] {l l' : List α} (h : l.Nodup) (h' : l'.Nodup)
    (hsub : l ⊆ l') : l'.length = l.length + (l'.filter (· ∉ l)).length := by
  have hold : (l'.filter (· ∈ l)).Perm l := by
    refine (List.perm_ext_iff_of_nodup (h'.filter _) h).2 fun a => ?_
    rw [List.mem_filter, decide_eq_true_iff]
    exact ⟨And.right, fun ha => ⟨hsub ha, ha⟩⟩
  rw [List.length_eq_length_filter_add (· ∈ l), hold.length_eq]
  simp

/-- Seen earlier and later, a variable has moved back by the number of variables in front of it that
became known in between. -/
theorem Layout.index_shift (h : MemberFacts.Distinct ms)
    (h' : MemberFacts.Distinct ms') (hgrown : MemberFacts.Grown ms ms') {n n' : Nat}
    (hs : ((ofMembers n ms).slots isStatic).find? x = some s)
    (ht : ((ofMembers n' ms').slots isStatic).find? x = some t) :
    let front := (ofMembers n ms).ahead isStatic s.index
    let front' := (ofMembers n' ms').ahead isStatic t.index
    front ⊆ front' ∧ t.index + (ofMembers n ms).first isStatic =
      s.index + (ofMembers n' ms').first isStatic + (front'.filter (· ∉ front)).length := by
  obtain ⟨v, hv, -, rfl, hsi, hsn, hsm⟩ := slot_ofMembers h hs
  obtain ⟨v', hv', -, hname, hti, htn, htm⟩ := slot_ofMembers h' ht
  intro front front'
  -- the variable itself is known to both, with its place among the declarations
  obtain ⟨v2, hv2, hkept⟩ := hgrown v hv
  obtain rfl : v2 = v' := List.inj_on_of_nodup_map h'.names hv2 hv' (hkept.name.trans hname.symm)
  have hsub : front ⊆ front' := by
    intro y hy
    obtain ⟨m, hm, hst, rfl, hlt⟩ := (hsm y).1 hy
    obtain ⟨m', hm', hk⟩ := hgrown m hm
    exact (htm _).2 ⟨m', hm', (hk.storedIn isStatic).trans hst, hk.name, hk.index ▸
      hkept.index ▸ hlt⟩
  have hlength := length_eq_add_new hsn htn hsub
  refine ⟨hsub, ?_⟩
  dsimp only [front, front']
  omega

/-! ### What a compilation sees -/

theorem FileUnit.Faithful.distinct {u : FileUnit} (h : u.Faithful) {index : ClassId}
    {facts : ClassFacts} (hfacts : u.classFacts? index = some facts) :
    MemberFacts.Distinct facts.members.values := by
  have hkeys := h.keys facts (Array.mem_of_getElem? hfacts)
  have hdeclared : ∀ e ∈ facts.members.entries, ∃ t decl, u.tree = some t ∧
      t.class? index = some decl ∧ decl.Declares e.1 e.2 := fun e he =>
    h.declared index facts e.1 e.2 hfacts ((Table.mem_entries_iff hkeys).1 he)
  constructor
  case names =>
    have heq : facts.members.values.map (·.name) = facts.members.keys := by
      rw [Table.values, List.map_map]
      refine List.map_congr_left fun e he => ?_
      obtain ⟨_, _, -, -, hd⟩ := hdeclared e he
      exact hd.name_eq
    rw [heq]
    exact hkeys
  case places =>
    intro m hm m' hm' hindex
    obtain ⟨e, he, rfl⟩ := List.mem_map.1 hm
    obtain ⟨e', he', rfl⟩ := List.mem_map.1 hm'
    obtain ⟨t, decl, ht, hdecl, hd⟩ := hdeclared e he
    obtain ⟨t', decl', ht', hdecl', hd'⟩ := hdeclared e' he'
    obtain rfl : t = t' := Option.some.inj (ht.symm.trans ht')
    obtain rfl : decl = decl' := Option.some.inj (hdecl.symm.trans hdecl')
    obtain ⟨d, hmem, hname⟩ := hd.member
    obtain ⟨d', hmem', hname'⟩ := hd'.member
    rw [← hindex, hmem] at hmem'
    cases hmem'
    rw [hname] at hname'
    rw [hd.name_eq, hd'.name_eq]
    exact Option.some.inj hname'

namespace Workspace

variable {w w' : Workspace}

/-- Every unit is found by its path, and what is known about its members comes from its tree. -/
structure Sane (w : Workspace) : Prop where
  linked : w.Linked
  faithful : ∀ id, id < w.units.size → (w.unit id).Faithful

theorem Sane.later (h : w.Sane) (hl : w.Later w') : w'.Sane where
  linked := hl.linked h.linked
  faithful id hid := by
    rcases Nat.lt_or_ge id w.units.size with hlt | hge
    · exact (hl.units id hlt).2.faithful (h.faithful id hlt)
    · exact hl.born id hge hid

def ClassAt (w : Workspace) (cls : ClassRef) (facts : ClassFacts) : Prop :=
  ∃ id, w.unitOf.find? cls.path = some id ∧ (w.unit id).classFacts? cls.index = some facts

variable {cls cls' : ClassRef} {facts facts' : ClassFacts} {id : UnitId} {ls : Layouts}

theorem Sane.distinct (h : w.Sane) (hcls : w.ClassAt cls facts) :
    MemberFacts.Distinct facts.members.values := by
  obtain ⟨id, hid, hfacts⟩ := hcls
  exact (h.faithful id (h.linked.placed _ id hid).1).distinct hfacts

theorem Later.grown (hl : w.Later w') (h : w.Sane) (hpath : cls.path = cls'.path)
    (hindex : cls.index = cls'.index) (hcls : w.ClassAt cls facts)
    (hcls' : w'.ClassAt cls' facts') :
    MemberFacts.Grown facts.members.values facts'.members.values := by
  obtain ⟨id, hid, hfacts⟩ := hcls
  obtain ⟨id', hid', hfacts'⟩ := hcls'
  obtain rfl : id = id' := by
    have := hl.unitOf _ id hid
    rw [hpath, hid'] at this
    exact (Option.some.inj this).symm
  have hlt := (h.linked.placed _ id hid).1
  obtain ⟨c, hc, hlater⟩ := (hl.units id hlt).2.facts _ facts hfacts
  obtain rfl : c = facts' := by
    rw [hindex] at hc
    exact Option.some.inj (hc.symm.trans hfacts')
  have hkeys := (h.faithful id hlt).keys facts (Array.mem_of_getElem? hfacts)
  intro m hm
  obtain ⟨e, he, rfl⟩ := List.mem_map.1 hm
  obtain ⟨m', hm', hkept⟩ := hlater.members e.1 e.2 ((Table.mem_entries_iff hkeys).1 he)
  have hkeys' := ((hl.units id hlt).2.faithful (h.faithful id hlt)).keys c
      (Array.mem_of_getElem? hc)
  exact ⟨m', List.mem_map.2 ⟨(e.1, m'), (Table.mem_entries_iff hkeys').2 hm', rfl⟩, hkept⟩

/-- Between two states of the workspace, every layout was drawn up from what was known of its class
at some point on the way. -/
def Drawn (w w' : Workspace) (ls : Layouts) : Prop :=
  ∀ cls l, (cls, .ok l) ∈ ls → ∃ seen facts n, w.Later seen ∧ seen.Later w' ∧
    seen.ClassAt cls facts ∧ l = Layout.ofMembers n facts.members.values

/-- Some unit has these facts about a class, the unit of its path if units are found by their
paths. -/
def Known (w : Workspace) (cls : ClassRef) (facts : ClassFacts) : Prop :=
  ∃ id, (w.unit id).classFacts? cls.index = some facts ∧
    (w.Sane → w.unitOf.find? cls.path = some id)

theorem factsFor_some {facts : Option ClassFacts}
    (hrun : w.factsFor id cls = some (facts, w')) : w.Later w' ∧ ∀ f ∈ facts, w'.Known cls f := by
  rw [factsFor] at hrun
  split at hrun
  · next hpath =>
    cases hrun
    refine ⟨.refl w, fun f hf => ⟨id, hf, fun h => ?_⟩⟩
    have hlt : id < w.units.size := by
      refine Nat.lt_of_not_le fun hle => ?_
      rw [unit, Array.getElem?_eq_none hle] at hf
      cases hf
    rw [show cls.path = (w.unit id).path by simpa using hpath]
    exact h.linked.owned id hlt
  · cases hdep : (w.unit id).depended.find? cls.path with
    | some other =>
      rw [hdep] at hrun
      cases hrun
      exact ⟨.refl w, fun f hf => ⟨other, hf, fun h => h.linked.depended id _ other hdep⟩⟩
    | none =>
      rw [hdep] at hrun
      obtain ⟨⟨answer, w₁⟩, hget, hrun⟩ := bind_eq_some_iff.1 hrun
      cases answer with
      | error fault =>
        cases hrun
        exact ⟨later_getUnit hget, by simp⟩
      | ok other =>
        cases hrun
        exact ⟨later_getUnit hget, fun f hf => ⟨other, hf, fun _ => find?_of_getUnit hget⟩⟩

/-- What holds of layouts while they are drawn up: it stays, whatever becomes known, and one more
layout is as good if it was drawn up from what was known of its class. -/
structure Drawing (I : Workspace → Layouts → Prop) : Prop where
  later : ∀ {w w' ls}, I w ls → w.Later w' → I w' ls
  cons : ∀ {w w' ls ls' cls layout}, I w ls → w.Later w' → I w' ls' →
    (∀ l, layout = .ok l → ∃ facts n, w.Known cls facts ∧ l = .ofMembers n facts.members.values) →
    I w' ((cls, layout) :: ls')

namespace Drawing

variable {I : Workspace → Layouts → Prop} {w w' : Workspace} {ls' : Layouts}

theorem addLayout (hI : Drawing I) (n : Nat) (h : I w ls)
    (hrun : addLayout id n cls ls w = some (ls', w')) : w.Later w' ∧ I w' ls' := by
  induction n generalizing cls ls ls' w w' with
  | zero => cases hrun
  | succ n ih =>
    rw [Workspace.addLayout] at hrun
    split at hrun
    · cases hrun
      exact ⟨.refl w, h⟩
    obtain ⟨⟨facts, w₁⟩, hfacts, hrun⟩ := bind_eq_some_iff.1 hrun
    obtain ⟨hl, hknown⟩ := factsFor_some hfacts
    have h := hI.later h hl
    cases facts with
    | none =>
      cases hrun
      exact ⟨hl, hI.cons h (.refl _) h nofun⟩
    | some facts =>
      have hknown := hknown facts rfl
      dsimp only at hrun
      split at hrun
      · cases hrun
        exact ⟨hl, hI.cons h (.refl _) h fun l hok => ⟨facts, 0, hknown, (Except.ok.inj hok).symm⟩⟩
      · next base hbase =>
        obtain ⟨⟨ls2, w₂⟩, hrest, hrun⟩ := bind_eq_some_iff.1 hrun
        obtain ⟨hl₂, h₂⟩ := ih h hrest
        cases hrun
        refine ⟨hl.trans hl₂, hI.cons h hl₂ h₂ fun l hok => ?_⟩
        cases hfound : (ls2.find? base).getD (.error (.notAnalyzed base)) with
        | error fault =>
          rw [hfound] at hok
          cases hok
        | ok below =>
          rw [hfound] at hok
          exact ⟨facts, below.total, hknown, (Except.ok.inj hok).symm⟩

theorem layoutsFor (hI : Drawing I) (h : I w []) (hrun : w.layoutsFor id = some (ls, w')) :
    w.Later w' ∧ I w' ls := by
  have hfold (classes : List ClassRef) {ls ls' : Layouts} {w w' : Workspace} (h : I w ls)
      (hrun : classes.foldlM (fun (x : Layouts × Workspace) cls =>
        Workspace.addLayout id Analyze.patience cls x.1 x.2) (ls, w) = some (ls', w')) :
      w.Later w' ∧ I w' ls' := by
    induction classes generalizing ls w with
    | nil =>
      cases hrun
      exact ⟨.refl _, h⟩
    | cons cls classes ih =>
      obtain ⟨⟨ls2, w₂⟩, hadd, hrun⟩ := bind_eq_some_iff.1 hrun
      obtain ⟨hl, h₂⟩ := hI.addLayout _ h hadd
      obtain ⟨hl', h'⟩ := ih h₂ hrun
      exact ⟨hl.trans hl', h'⟩
  exact hfold _ h hrun

end Drawing

theorem layoutsFor_drawn (hsane : w.Sane) (hrun : w.layoutsFor id = some (ls, w')) :
    w.Later w' ∧ Drawn w w' ls := by
  have hI : Drawing fun v ls => w.Later v ∧ Drawn w v ls := by
    constructor
    · rintro v v' ls ⟨hv, hd⟩ hl
      refine ⟨hv.trans hl, fun cls l hmem => ?_⟩
      obtain ⟨seen, facts, n, h0, h₁, hcls, heq⟩ := hd cls l hmem
      exact ⟨seen, facts, n, h0, h₁.trans hl, hcls, heq⟩
    · rintro v v' ls ls' cls layout ⟨hv, -⟩ hl ⟨hv', hd⟩ hnew
      refine ⟨hv', fun other l hmem => ?_⟩
      rcases List.mem_cons.1 hmem with heq | hmem
      · obtain ⟨rfl, rfl⟩ := Prod.mk.inj heq
        obtain ⟨facts, n, ⟨id, hfacts, hat⟩, rfl⟩ := hnew l rfl
        exact ⟨v, facts, n, hv, hl, ⟨id, hat (hsane.later hv), hfacts⟩, rfl⟩
      · exact hd other l hmem
  obtain ⟨hl, -, hd⟩ := hI.layoutsFor ⟨.refl w, nofun⟩ hrun
  exact ⟨hl, hd⟩

/-! ### Two compilations -/

theorem Unused.sane (h : w.Unused) : w.Sane where
  linked :=
    { placed := fun path id hid => by rw [h.unitOf] at hid; cases hid
      owned := fun id hid => by rw [h.units] at hid; exact absurd hid (Nat.not_lt_zero _)
      depended := fun k path id hid => by
        rw [unit, h.units] at hid
        cases hid }
  faithful id hid := by
    rw [h.units] at hid
    exact absurd hid (Nat.not_lt_zero _)

inductive Task
  | analyze (path : String) (status : UnitStatus)
  | compile (id : UnitId)

def undertake (w : Workspace) : Task → Option Workspace
  | .analyze path status => (w.getUnit path status).map (·.2)
  | .compile id => (w.compile id).map (·.2)

variable {w w' : Workspace}

theorem later_undertake (hsane : w.Sane) {task : Task} (h : w.undertake task = some w') :
    w.Later w' := by
  cases task with
  | analyze path status =>
    obtain ⟨⟨answer, w₁⟩, hget, rfl⟩ := map_eq_some_iff.1 h
    exact later_getUnit hget
  | compile id =>
    obtain ⟨⟨answer, w₁⟩, hcompile, rfl⟩ := map_eq_some_iff.1 h
    rw [compile] at hcompile
    split at hcompile
    · cases hcompile
      exact .refl w
    · obtain ⟨⟨ls, w₂⟩, hls, hcompile⟩ := bind_eq_some_iff.1 hcompile
      cases hcompile
      exact (layoutsFor_drawn hsane hls).1

theorem later_undertakes (hsane : w.Sane) {tasks : List Task}
    (h : tasks.foldlM undertake w = some w') : w.Later w' := by
  induction tasks generalizing w with
  | nil =>
    cases h
    exact .refl _
  | cons task tasks ih =>
    obtain ⟨w₁, h₁, h⟩ := bind_eq_some_iff.1 h
    have hl := later_undertake hsane h₁
    exact hl.trans (ih (hsane.later hl) h)

/-- Of two compilations, the later one sees a variable of a class further back by the number of
variables in front of it that became known in between. When the bases of the class take up as many
slots for both, the two agree exactly when there is no such variable. -/
theorem slot_shift {w₁ w₂ w₃ w₄ : Workspace} {before between : List Task} {a b : UnitId}
    {ls ls' : Layouts} (hw : w.Unused) (h₁ : before.foldlM undertake w = some w₁)
    (ha : w₁.layoutsFor a = some (ls, w₂)) (h₂ : between.foldlM undertake w₂ = some w₃)
    (hb : w₃.layoutsFor b = some (ls', w₄)) {cls cls' : ClassRef} (hpath : cls.path = cls'.path)
    (hindex : cls.index = cls'.index) {l l' : Layout} (hl : (cls, .ok l) ∈ ls)
    (hl' : (cls', .ok l') ∈ ls') {isStatic : Bool} {x : String} {s t : Slot}
    (hs : (l.slots isStatic).find? x = some s) (ht : (l'.slots isStatic).find? x = some t) :
    let front := l.ahead isStatic s.index
    let front' := l'.ahead isStatic t.index
    front ⊆ front' ∧
    t.index + l.first isStatic =
      s.index + l'.first isStatic + (front'.filter (· ∉ front)).length ∧
    (l.first isStatic = l'.first isStatic → (s.index = t.index ↔ front' ⊆ front)) := by
  have hsane₁ := hw.sane.later (later_undertakes hw.sane h₁)
  obtain ⟨hl₂, hdrawn⟩ := layoutsFor_drawn hsane₁ ha
  have hsane₂ := hsane₁.later hl₂
  have hl₃ := later_undertakes hsane₂ h₂
  obtain ⟨-, hdrawn'⟩ := layoutsFor_drawn (hsane₂.later hl₃) hb
  -- what the two compilations saw of the class, the one state later than the other
  obtain ⟨seen, facts, n, hseen, hseen₂, hat, rfl⟩ := hdrawn cls l hl
  obtain ⟨seen', facts', n', hseen', -, hat', rfl⟩ := hdrawn' cls' l' hl'
  have hlater : seen.Later seen' := (hseen₂.trans hl₃).trans hseen'
  have hsane := hsane₁.later hseen
  have hgrown := hlater.grown hsane hpath hindex hat hat'
  obtain ⟨hsub, hshift⟩ := Layout.index_shift (hsane.distinct hat)
    ((hsane.later hlater).distinct hat') hgrown hs ht
  intro front front'
  refine ⟨hsub, hshift, fun hfirst => ?_⟩
  have hnew : (front'.filter (· ∉ front)).length = 0 ↔ front' ⊆ front := by
    simp [List.subset_def]
  rw [← hnew]
  dsimp only [front, front']
  omega

/-- A class `K` with two static variables, and another file with a function that reads the second
one. -/
def slotWorkspace : Workspace :=
  let ident (name : String) : Ident := ⟨name, .lines 1 1⟩
  let node (id : NodeId) : Node := ⟨id, .lines 1 1⟩
  let var (id : NodeId) (name : String) : Member :=
    .var { id, name := ident name, type := none, infer := false, initializer := none
           isStatic := true, accessors := .none, exported := false }
  let param : ParamDecl :=
    { id := 1, name := ident "k", type := some (.mk [ident "K"] [] (.lines 1 1)), infer := false
      default := none }
  let read : FunctionDecl :=
    { id := 0, name := ident "read", params := [param], result := none
      body := [.giveBack (node 2) (some (.field (node 3) (.ident (node 4) "k") (ident "y")))]
      bodySpan := .lines 1 1, isStatic := false }
  let file (name : Option Ident) (members : List Member) : Program := fun path h =>
    let head : ClassDecl := { id := 0, name, qualified := path, span := .lines 1 1 }
    ({ tree := some
        { path, nodeCount := 5, classes := #[members.foldl ClassDecl.addMember head] } }, h)
  { registry :=
      { globals := .ofList [("K", { name := "K", path := "res://k.br", base := "RefCounted" })] }
    files := .ofList [("res://a.br", .text "a"), ("res://k.br", .text "k")]
    programs := .ofList
      [("a", file none [.func read]), ("k", file (some (ident "K")) [var 0 "x", var 1 "y"])] }

theorem slotWorkspace_unused : slotWorkspace.Unused := ⟨rfl, rfl, rfl⟩

/-- The slot of a static variable of the head class of a file, with the layout it is in. -/
def headStatic? (ls : Layouts) (path x : String) : Option (ClassRef × Layout × Slot) :=
  ls.findSome? fun
    | (cls, .ok l) =>
      if cls.path = path ∧ cls.index = 0 then ((l.slots true).find? x).map (cls, l, ·) else none
    | (_, .error _) => none

theorem headStatic?_some {l : Layout} (h : headStatic? ls path x = some (cls, l, s)) :
    (cls, .ok l) ∈ ls ∧ cls.path = path ∧ cls.index = 0 ∧ (l.slots true).find? x = some s := by
  obtain ⟨⟨other, layout⟩, hmem, h⟩ := List.exists_of_findSome?_eq_some h
  cases layout with
  | error fault => cases h
  | ok l' =>
    dsimp only at h
    split at h
    · next hcls =>
      obtain ⟨s', hs', heq⟩ := map_eq_some_iff.1 h
      cases heq
      exact ⟨hmem, hcls.1, hcls.2, hs'⟩
    · cases h

set_option synthInstance.maxSize 512 in
/-- The two files are accepted, and the two compilations see the second variable in different
places: the first file only made that one known. -/
theorem slotWorkspace_slots : ∃ w₁ w₂ w₃ w₄ : Workspace, ∃ ls ls' : Layouts,
    [Task.analyze "res://a.br" .fullySolved].foldlM undertake slotWorkspace = some w₁ ∧
    w₁.layoutsFor 0 = some (ls, w₂) ∧
    [Task.analyze "res://k.br" .fullySolved].foldlM undertake w₂ = some w₃ ∧
    w₃.layoutsFor 1 = some (ls', w₄) ∧
    (∀ u ∈ w₄.units, u.status = .fullySolved ∧ u.isFailed = false) ∧
    ∃ (cls cls' : ClassRef) (l l' : Layout) (s t : Slot), cls.path = cls'.path ∧
      cls.index = cls'.index ∧ (cls, .ok l) ∈ ls ∧ (cls', .ok l') ∈ ls' ∧
      (l.slots true).find? "y" = some s ∧ (l'.slots true).find? "y" = some t ∧
      s.index = 0 ∧ t.index = 1 := by
  obtain ⟨w₁, h₁, ls, w₂, hls, w₃, h₃, ls', w₄, hls', haccepted, ⟨⟨cls, l, s⟩, hs, hindex⟩,
    ⟨cls', l', t⟩, ht, hindex'⟩ :
      ∃ w₁, [Task.analyze "res://a.br" .fullySolved].foldlM undertake slotWorkspace = some w₁ ∧
      ∃ ls w₂, w₁.layoutsFor 0 = some (ls, w₂) ∧
      ∃ w₃, [Task.analyze "res://k.br" .fullySolved].foldlM undertake w₂ = some w₃ ∧
      ∃ ls' w₄, w₃.layoutsFor 1 = some (ls', w₄) ∧
        (∀ u ∈ w₄.units, u.status = .fullySolved ∧ u.isFailed = false) ∧
        (∃ seen, headStatic? ls "res://k.br" "y" = some seen ∧ seen.2.2.index = 0) ∧
        ∃ seen, headStatic? ls' "res://k.br" "y" = some seen ∧ seen.2.2.index = 1 := by
    decide +kernel
  obtain ⟨hmem, hpath, hcls, hfind⟩ := headStatic?_some hs
  obtain ⟨hmem', hpath', hcls', hfind'⟩ := headStatic?_some ht
  exact ⟨w₁, w₂, w₃, w₄, ls, ls', h₁, hls, h₃, hls', haccepted, cls, cls', l, l', s, t,
    hpath.trans hpath'.symm, hcls.trans hcls'.symm, hmem, hmem', hfind, hfind', hindex, hindex'⟩

/-- One variable in front became known in between. -/
theorem slotWorkspace_shift : ∃ (ls ls' : Layouts) (w₁ w₂ w₃ w₄ : Workspace),
    w₁.layoutsFor 0 = some (ls, w₂) ∧ w₃.layoutsFor 1 = some (ls', w₄) ∧
    ∃ (cls cls' : ClassRef) (l l' : Layout) (s t : Slot), (cls, .ok l) ∈ ls ∧ (cls', .ok l') ∈ ls' ∧
      ((l'.ahead true t.index).filter (· ∉ l.ahead true s.index)).length = 1 := by
  obtain ⟨w₁, w₂, w₃, w₄, ls, ls', h₁, hls, h₃, hls', -, cls, cls', l, l', s, t, hpath, hindex,
    hl, hl', hs, ht, hs₀, ht₁⟩ := slotWorkspace_slots
  obtain ⟨-, hshift, -⟩ :=
    slot_shift slotWorkspace_unused h₁ hls h₃ hls' hpath hindex hl hl' hs ht
  refine ⟨ls, ls', w₁, w₂, w₃, w₄, hls, hls', cls, cls', l, l', s, t, hl, hl', ?_⟩
  have hfirst : l.first true = 0 ∧ l'.first true = 0 := ⟨rfl, rfl⟩
  omega

/-- Two compilations of accepted units may see a variable in different places. -/
theorem not_slots_agree :
    ¬ ∀ (w w₁ w₂ w₃ w₄ : Workspace) (before between : List Task) (a b : UnitId)
    (ls ls' : Layouts), w.Unused → before.foldlM undertake w = some w₁ →
    w₁.layoutsFor a = some (ls, w₂) → between.foldlM undertake w₂ = some w₃ →
    w₃.layoutsFor b = some (ls', w₄) →
    (∀ u ∈ w₄.units, u.status = .fullySolved ∧ u.isFailed = false) →
    ∀ (cls cls' : ClassRef) (l l' : Layout), cls.path = cls'.path → cls.index = cls'.index →
      (cls, .ok l) ∈ ls → (cls', .ok l') ∈ ls' → ∀ (isStatic : Bool) (x : String) (s t : Slot),
        (l.slots isStatic).find? x = some s → (l'.slots isStatic).find? x = some t →
        s.index = t.index := by
  intro h
  obtain ⟨w₁, w₂, w₃, w₄, ls, ls', h₁, hls, h₃, hls', haccepted, cls, cls', l, l', s, t,
    hpath, hindex, hl, hl', hs, ht, hs₀, ht₁⟩ := slotWorkspace_slots
  have hsame := h _ w₁ w₂ w₃ w₄ _ _ _ _ ls ls' slotWorkspace_unused h₁ hls h₃ hls' haccepted
    cls cls' l l'
    hpath hindex hl hl' true "y" s t hs ht
  omega

end Workspace

end HotScript
