import HotScript.Proofs.Lower.Classes
import HotScript.Proofs.Lower.Slots

/-!
The code of a file and the unit it was compiled from.

The code has the path and the digest of its unit, its first class stands in no other, and the slots
of each class follow those of its bases without a gap, also for units that were abandoned.
-/

namespace HotScript

variable {P : Layout → Prop}

/-! ### Trees and workspaces -/

/-- A tree as it is read from the file at a path: the first class is the head class, which stands in
no other. -/
structure Tree.Rooted (t : Tree) (path : String) : Prop where
  path : t.path = path
  head : ∃ c, t.classes[0]? = some c ∧ c.outer = none

def Program.Rooted (p : Program) : Prop := ∀ path h t, (p path h).1.tree = some t → t.Rooted path

theorem FileUnit.faithful_default : (default : FileUnit).Faithful where
  keys c hc := absurd hc (Array.not_mem_empty c)
  declared id c name m hc := by cases hc

namespace Workspace

/-- Programs and units are in order. -/
structure Tended (w : Workspace) : Prop where
  programs : ∀ text p, w.programs.find? text = some p → Program.Rooted p
  faithful : ∀ id, (w.unit id).Faithful
  rooted : ∀ id t, (w.unit id).tree = some t → t.Rooted (w.unit id).path
  placed : w.Placed

variable {w w' : Workspace}

theorem unit_of_ge {id : UnitId} (h : w.units.size ≤ id) : w.unit id = default := by
  rw [unit, Array.getElem?_eq_none h]
  rfl

theorem Offers.rooted {path : String} {tree : Option Tree} (h : w.Offers path tree)
    (hp : ∀ text p, w.programs.find? text = some p → Program.Rooted p) {t : Tree}
    (ht : tree = some t) :
    t.Rooted path := by
  obtain ⟨text, program, heap, hprogram, htree⟩ := h t ht
  exact hp text program hprogram path heap t htree

theorem Tended.later (h : w.Tended) (hl : w.Later w') : w'.Tended where
  programs := hl.programs ▸ h.programs
  faithful id := by
    rcases Nat.lt_or_ge id w.units.size with hid | hid
    · exact (hl.units id hid).2.faithful (h.faithful id)
    · rcases Nat.lt_or_ge id w'.units.size with hid' | hid'
      · exact hl.born id hid hid'
      · exact unit_of_ge hid' ▸ FileUnit.faithful_default
  rooted id t ht := by
    rcases Nat.lt_or_ge id w.units.size with hid | hid
    · rw [(hl.units id hid).2.path]
      exact h.rooted id t ((hl.units id hid).2.tree ▸ ht)
    · rcases Nat.lt_or_ge id w'.units.size with hid' | hid'
      · exact (hl.offered id hid hid').rooted h.programs ht
      · rw [unit_of_ge hid'] at ht
        cases ht
  placed := hl.placed h.placed

end Workspace

/-! ### Slots under their names and without gaps -/

/-- Every slot of a table stands under its own name. -/
def Table.Keyed (t : Table String Slot) : Prop := t.keys.Nodup ∧ ∀ e ∈ t.entries, e.2.name = e.1

namespace Table.Keyed

variable {t : Table String Slot}

theorem empty : Keyed {} := ⟨List.nodup_nil, fun _ he => absurd he List.not_mem_nil⟩

variable {slot : Slot} {name : String}

theorem insert (h : t.Keyed) (hname : slot.name = name) : (t.insert name slot).Keyed := by
  have hkeys := nodup_keys_insert name slot h.1
  refine ⟨hkeys, fun (k, v) he => ?_⟩
  rw [mem_entries_iff hkeys] at he
  by_cases hk : k = name
  · subst hk
    rw [find?_insert_self] at he
    exact Option.some.inj he ▸ hname
  · rw [find?_insert_of_ne _ _ hk] at he
    exact h.2 _ ((mem_entries_iff h.1).2 he)

theorem name_of_find? (h : t.Keyed) (hs : t.find? name = some slot) :
    slot.name = name := h.2 _ ((mem_entries_iff h.1).2 hs)

theorem find?_of_mem (h : t.Keyed) (hs : slot ∈ t.values) : t.find? slot.name = some slot := by
  obtain ⟨e, he, rfl⟩ := List.mem_map.1 hs
  rw [h.2 e he]
  exact (mem_entries_iff h.1).1 he

end Table.Keyed

def Layout.Keyed (l : Layout) : Prop := l.instances.Keyed ∧ l.statics.Keyed

theorem Layout.keyed_ofMembers (n : Nat) (ms : List MemberFacts) : (ofMembers n ms).Keyed := by
  have hadd (l : Layout) (m : MemberFacts) (hl : l.Keyed) : (l.add m).Keyed := by
    rw [add]
    split
    · split
      · exact ⟨hl.1, hl.2.insert rfl⟩
      · exact ⟨hl.1.insert rfl, hl.2⟩
    · exact hl
  rw [ofMembers]
  generalize orderBy _ ms = ms
  suffices hfold : ∀ l : Layout, l.Keyed → (ms.foldl add l).Keyed from hfold _ ⟨.empty, .empty⟩
  intro l hl
  induction ms generalizing l with
  | nil => exact hl
  | cons m ms ih => exact ih _ (hadd l m hl)

/-- The slots of a class follow those of its bases without a gap. -/
def ClassCode.Contiguous (c : ClassCode) : Prop :=
  c.members.values.map (·.index) = List.range' c.baseMembers c.members.size

theorem Numbered.indices {slots : Table String Slot} {first : Nat} {names : List String}
    (h : Numbered slots first names) :
    slots.values.map (·.index) = List.range' first slots.size := by
  have := congrArg (List.map Prod.snd) h
  rw [List.zipIdx_map_snd, List.map_map] at this
  rw [h.size_eq, ← this, Table.values, List.map_map]
  rfl

/-- The slots of a class follow those of its bases without a gap, and its static variables have
slots of their own. -/
def Layout.Contiguous (l : Layout) : Prop :=
  l.instances.values.map (·.index) = List.range' l.baseCount l.instances.size ∧
    (l.statics.values.map (·.index)).Nodup

theorem Layout.contiguous_ofMembers {ms : List MemberFacts} (h : MemberFacts.Distinct ms)
    (n : Nat) : (ofMembers n ms).Contiguous := by
  refine ⟨(numbered_ofMembers h n false).indices, ?_⟩
  have hstatics := (numbered_ofMembers h n true).indices
  rw [slots, if_pos rfl] at hstatics
  rw [hstatics]
  exact List.nodup_range'

def Layouts.All (P : Layout → Prop) (ls : Layouts) : Prop := ∀ cls l, (cls, .ok l) ∈ ls → P l

variable {ls layouts : Layouts} {cls : ClassRef} {w w' : Workspace} {u : FileUnit}
  {settings : Settings} {registry : Registry} {code : FileCode}

theorem Layouts.All.cons (h : ls.All P) {layout : Except CompileFault Layout}
    (hl : ∀ l, layout = .ok l → P l) : All P ((cls, layout) :: ls) := by
  intro other l hmem
  rcases List.mem_cons.1 hmem with heq | hmem
  · exact hl l (Prod.mk.inj heq).2.symm
  · exact h other l hmem

/-- Whatever a unit knows of a class by now or later, the storage drawn up for it is of a kind. -/
def Workspace.Draws (w : Workspace) (P : Layout → Prop) : Prop :=
  ∀ ⦃v⦄, w.Later v → ∀ ⦃other place facts⦄, (v.unit other).classFacts? place = some facts →
    ∀ n, P (.ofMembers n facts.members.values)

theorem Workspace.Draws.later (h : w.Draws P) (hl : w.Later w') :
    w'.Draws P := fun _ hv => h (hl.trans hv)

theorem Workspace.draws_keyed (w : Workspace) : w.Draws Layout.Keyed :=
  fun _ _ _ _ _ _ n => Layout.keyed_ofMembers n _

theorem Workspace.Tended.draws (h : w.Tended) : w.Draws Layout.Contiguous :=
  fun _ hl other _ _ hfacts n => Layout.contiguous_ofMembers (((h.later hl).faithful other).distinct
    hfacts) n

namespace Workspace

variable {w' : Workspace} {id : UnitId}

theorem layoutsFor_all (hw : w.Draws P) (hrun : w.layoutsFor id = some (ls, w')) :
    w.Later w' ∧ ls.All P := by
  have hI : Drawing fun v ls => v.Draws P ∧ ls.All P := by
    refine ⟨fun h hl => ⟨h.1.later hl, h.2⟩, fun h _ h' hnew => ⟨h'.1, h'.2.cons fun l hok => ?_⟩⟩
    obtain ⟨facts, n, ⟨other, hfacts, -⟩, rfl⟩ := hnew l hok
    exact h.1 (.refl _) hfacts n
  obtain ⟨hl, -, hall⟩ := hI.layoutsFor ⟨hw, nofun⟩ hrun
  exact ⟨hl, hall⟩

end Workspace

/-! ### Classes and files -/

/-- What a class has from its declaration and its layout, whatever its members compile to. -/
def ClassCode.frame (c : ClassCode) : Table String Slot × Table String Slot × Nat × Option Nat :=
  (c.members, c.statics, c.baseMembers, c.outer)

namespace Plan

open Lower

variable {c : ClassCode} {c' : ClassCode} {ls ls' : Array FunctionCode}

variable (p : Plan) (decl : ClassDecl) (facts : ClassFacts)

theorem addMember_frame {m : Member} (h : p.addMember decl facts c m ls = .ok (c', ls')) :
    c'.frame = c.frame := by
  rw [addMember] at h
  cases hn : m.name? with
  | none =>
    obtain ⟨rfl, -⟩ := pure_ok.1 (by simpa only [hn] using h)
    rfl
  | some name =>
    cases m with
    | var | func =>
      obtain ⟨f, ls1, -, h⟩ := bind_ok.1 h
      obtain ⟨rfl, -⟩ := pure_ok.1 h
      rfl
    | _ =>
      obtain ⟨rfl, -⟩ := pure_ok.1 h
      rfl

theorem addMembers_frame {ms : List Member}
    (h : ms.foldlM (p.addMember decl facts) c ls = .ok (c', ls')) : c'.frame = c.frame := by
  induction ms generalizing c ls with
  | nil =>
    obtain ⟨rfl, -⟩ := pure_ok.1 h
    rfl
  | cons m ms ih =>
    obtain ⟨c1, ls1, h1, h⟩ := bind_ok.1 h
    exact (ih h).trans (p.addMember_frame decl facts h1)

theorem classCode_frame {defaultBase : String} {decl : ClassDecl} {facts : ClassFacts}
    (h : p.classCode defaultBase decl facts = .ok c) :
    ∃ l, p.layouts.find? facts.ref = some (.ok l) ∧
      c.frame = (l.instances, l.statics, l.baseCount, decl.outer) := by
  obtain ⟨layout, hl⟩ := p.layout_of_classCode h
  rw [classCode, hl] at h
  obtain ⟨_, hlayout, h⟩ := except_bind_ok.1 h
  cases hlayout
  obtain ⟨⟨c', ls⟩, h0, h⟩ := except_bind_ok.1 h
  cases h
  obtain ⟨c1, ls1, h1, h⟩ := bind_ok.1 h0
  obtain ⟨init, ls2, -, h⟩ := bind_ok.1 h
  obtain ⟨staticInit, ls3, -, h⟩ := bind_ok.1 h
  obtain ⟨rfl, -⟩ := pure_ok.1 h
  exact ⟨layout, hl, p.addMembers_frame decl facts h1⟩

end Plan

theorem Layouts.mem_of_find? {l : Layout} (h : ls.find? cls = some (.ok l)) :
    ∃ cls', (cls', .ok l) ∈ ls := by
  obtain ⟨e, he, hl⟩ := Option.map_eq_some_iff.1 h
  exact ⟨e.1, hl ▸ List.mem_of_find?_eq_some he⟩

/-- The code of a file that can be put into classes: there is a head class, it stands in no other,
and no class has gaps between its slots or static variables that share one. -/
structure FileCode.Sound (code : FileCode) : Prop where
  head : ∃ c, code.classes[0]? = some c ∧ c.outer = none
  contiguous : ∀ c ∈ code.classes, c.Contiguous
  statics : ∀ c ∈ code.classes, (c.statics.values.map (·.index)).Nodup

theorem FileUnit.class_of_compile (h : u.compile settings registry layouts = .ok code)
    (hls : layouts.All P) :
    code.path = u.path ∧ code.hash = u.digest ∧ code.dependencies = u.dependencies ∧
      ∃ tree, u.tree = some tree ∧ code.classes.size = tree.classes.size ∧
        ∀ (i : Nat) (c : ClassCode), code.classes[i]? = some c → ∃ decl, ∃ l : Layout,
          tree.classes[i]? = some decl ∧ P l ∧
            c.frame = (l.instances, l.statics, l.baseCount, decl.outer) := by
  obtain ⟨hpath, hhash, hdependencies, tree, htree, hall⟩ := classes_of_compile h
  refine ⟨hpath, hhash, hdependencies, tree, htree, hall.length_eq.symm, fun i c hc => ?_⟩
  obtain ⟨hi, rfl⟩ := Array.getElem?_eq_some_iff.1 hc
  obtain ⟨p, facts, rfl, h⟩ := hall.get (hall.length_eq ▸ hi) hi
  obtain ⟨l, hl, hframe⟩ := p.classCode_frame h
  obtain ⟨cls, hmem⟩ := Layouts.mem_of_find? hl
  exact ⟨_, l, Array.getElem?_eq_getElem _, hls cls l hmem, hframe⟩

theorem FileUnit.compile_some (h : u.compile settings registry layouts = .ok code)
    (hls : layouts.All Layout.Contiguous) (hu : ∀ t, u.tree = some t → t.Rooted u.path) :
    code.path = u.path ∧ code.hash = u.digest ∧ code.dependencies = u.dependencies ∧
    code.Sound := by
  obtain ⟨hpath, hhash, hdependencies, tree, htree, hsize, hclass⟩ := class_of_compile h hls
  have hslots (c : ClassCode) (hc : c ∈ code.classes) :
      c.Contiguous ∧ (c.statics.values.map (·.index)).Nodup := by
    obtain ⟨i, hi⟩ := Array.mem_iff_getElem?.1 hc
    obtain ⟨decl, l, -, hl, hframe⟩ := hclass i c hi
    obtain ⟨hm, hs, hb, -⟩ : c.members = l.instances ∧ c.statics = l.statics ∧
        c.baseMembers = l.baseCount ∧ c.outer = decl.outer := by
          simpa [ClassCode.frame] using hframe
    rw [ClassCode.Contiguous, hm, hs, hb]
    exact hl
  refine ⟨hpath, hhash, hdependencies, ?_, fun c hc => (hslots c hc).1, fun c hc => (hslots c hc).2⟩
  obtain ⟨first, hfirst, houter⟩ := (hu tree htree).head
  have hpos : 0 < code.classes.size := hsize ▸ (Array.getElem?_eq_some_iff.1 hfirst).1
  have hhead : code.classes[0]? = some code.classes[0] := Array.getElem?_eq_getElem hpos
  obtain ⟨decl, l, hdecl, -, hframe⟩ := hclass 0 _ hhead
  rw [hfirst] at hdecl
  cases hdecl
  have ho : code.classes[0].outer = first.outer := congrArg (·.2.2.2) hframe
  exact ⟨code.classes[0], hhead, ho.trans houter⟩

def ClassCode.Keyed (c : ClassCode) : Prop := c.members.Keyed ∧ c.statics.Keyed

namespace Workspace

variable {w' : Workspace} {id : UnitId}

/-- Compiling a unit keeps what is known, and the code is what the unit has become by then. -/
theorem compile_some {result : Except CompileFault FileCode} (hw : w.Tended)
    (h : w.compile id = some (result, w')) :
    w.Later w' ∧ ∀ code, result = .ok code → code.path = (w'.unit id).path ∧
      code.hash = (w'.unit id).digest ∧ code.dependencies = (w'.unit id).dependencies ∧
      code.Sound := by
  rw [compile] at h
  split at h
  · cases h
    exact ⟨.refl _, fun code hcode => by cases hcode⟩
  · obtain ⟨⟨layouts, w1⟩, hls, h⟩ := Option.bind_eq_some_iff.1 h
    obtain ⟨hresult, rfl⟩ := Prod.mk.inj (Option.some.inj h)
    obtain ⟨hl, hcontiguous⟩ := layoutsFor_all hw.draws hls
    refine ⟨hl, fun code hcode => ?_⟩
    rw [hcode] at hresult
    exact FileUnit.compile_some hresult hcontiguous ((hw.later hl).rooted id)

theorem keyed_of_compile (h : w.compile id = some (.ok code, w')) :
    ∀ c ∈ code.classes, c.Keyed := by
  rw [compile] at h
  split at h
  · cases h
  · obtain ⟨⟨layouts, w1⟩, hls, h⟩ := Option.bind_eq_some_iff.1 h
    obtain ⟨hresult, rfl⟩ := Prod.mk.inj (Option.some.inj h)
    obtain ⟨-, -, -, tree, -, -, hclass⟩ :=
      FileUnit.class_of_compile hresult (layoutsFor_all w.draws_keyed hls).2
    intro c hc
    obtain ⟨i, hi⟩ := Array.mem_iff_getElem?.1 hc
    obtain ⟨decl, l, -, hl, hframe⟩ := hclass i c hi
    have hm : c.members = l.instances := congrArg (·.1) hframe
    have hs : c.statics = l.statics := congrArg (·.2.1) hframe
    rw [ClassCode.Keyed, hm, hs]
    exact hl

end Workspace

end HotScript
