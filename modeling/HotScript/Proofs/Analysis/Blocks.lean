import HotScript.Analysis.Scope
import Mathlib.Data.List.Nodup

/-!
Local names as a stack of blocks.

A frame keeps the names that can be seen in one flat table, and those that are hidden on a list
beside it. Here the blocks of a function are lists inside each other, and `Frame.Shows` ties the
two: the table gives what is found from the innermost block outwards, and the list is what the
blocks hide (`hidden`).
-/

namespace HotScript

/-- The local that a name means in blocks inside each other, innermost first. -/
def visible (blocks : List (List Local)) (name : String) : Option Local :=
  blocks.findSome? fun block => block.find? (·.name == name)

/-- What the names of blocks hide, with the depths of the blocks that hide it; latest first. -/
def hidden : List (List Local) → List (Nat × Local)
  | [] => []
  | block :: outer =>
    block.filterMap (fun l => (visible outer l.name).map (outer.length, ·)) ++ hidden outer

/-- The blocks of a function: the names of each, latest first. -/
structure Blocks where
  inner : List Local := []
  outer : List (List Local) := []

namespace Blocks

variable (b : Blocks)

def all : List (List Local) := b.inner :: b.outer

def find? (name : String) : Option Local := visible b.all name

def enter : Blocks := { outer := b.all }

def declare (l : Local) : Option Blocks :=
  if b.inner.any (·.name == l.name) then none
  else some { b with inner := { l with depth := b.outer.length } :: b.inner }

def leave : Blocks :=
  match b.outer with
  | [] => {}
  | block :: outer => ⟨block, outer⟩

end Blocks

/-! ### Names that can be seen -/

/-- In each block the names differ, and the locals know how deep they are. -/
def Leveled : List (List Local) → Prop
  | [] => True
  | block :: outer =>
    (block.map (·.name)).Nodup ∧ (∀ l ∈ block, l.depth = outer.length) ∧ Leveled outer

section

variable {block : List Local} {blocks outer : List (List Local)} {name : String} {l old : Local}

theorem visible_cons :
    visible (block :: outer) name = (block.find? (·.name == name)).or (visible outer name) := by
  rw [visible, List.findSome?_cons]
  cases block.find? (·.name == name) <;> rfl

theorem visible_of_mem (hnames : (block.map (·.name)).Nodup) (hl : l ∈ block) :
    visible (block :: outer) l.name = some l := by
  rw [visible_cons, Option.or_eq_some_iff]
  left
  induction block with
  | nil => cases hl
  | cons a block ih =>
    obtain ⟨ha, hnames⟩ := List.nodup_cons.1 hnames
    rcases List.mem_cons.1 hl with rfl | hl
    · simp
    · have hne : a.name ≠ l.name := fun heq => ha (List.mem_map.2 ⟨l, hl, heq.symm⟩)
      rw [List.find?_cons_of_neg (by simpa using hne)]
      exact ih hnames hl

theorem visible_of_not_mem (h : name ∉ block.map (·.name)) :
    visible (block :: outer) name = visible outer name := by
  have hnone : block.find? (·.name == name) = none := by
    simpa [List.find?_eq_none] using h
  rw [visible_cons, hnone, Option.none_or]

theorem name_of_visible (h : visible blocks name = some l) : l.name = name := by
  obtain ⟨block, -, hfound⟩ := List.exists_of_findSome?_eq_some h
  simpa using List.find?_some hfound

theorem depth_of_visible (hb : Leveled blocks) (h : visible blocks name = some l) :
    l.depth < blocks.length := by
  induction blocks with
  | nil => cases h
  | cons block outer ih =>
    rw [List.length_cons]
    rw [visible_cons] at h
    rcases Option.or_eq_some_iff.1 h with h | ⟨-, h⟩
    · exact Nat.lt_succ_of_le (Nat.le_of_eq (hb.2.1 l (List.mem_of_find?_eq_some h)))
    · exact Nat.lt_succ_of_lt (ih hb.2.2 h)

theorem mem_of_visible (hb : Leveled (block :: outer)) (h : visible (block :: outer) name = some l)
    (hd : outer.length ≤ l.depth) : l ∈ block := by
  rw [visible_cons] at h
  rcases Option.or_eq_some_iff.1 h with h | ⟨-, h⟩
  · exact List.mem_of_find?_eq_some h
  · exact absurd (depth_of_visible hb.2.2 h) (Nat.not_lt.2 hd)

theorem depth_of_mem_hidden {e : Nat × Local} (h : e ∈ hidden blocks) : e.1 < blocks.length := by
  induction blocks with
  | nil => cases h
  | cons block outer ih =>
    rw [List.length_cons]
    rcases List.mem_append.1 h with h | h
    · obtain ⟨l, -, h⟩ := List.mem_filterMap.1 h
      obtain ⟨old, -, rfl⟩ := Option.map_eq_some_iff.1 h
      exact Nat.lt_succ_self _
    · exact Nat.lt_succ_of_lt (ih h)

theorem perm_of_visible (hb : Leveled blocks) {shown : List Local} (hshown : shown.Nodup)
    (hmem : ∀ l, l ∈ shown ↔ visible blocks l.name = some l) :
    (shown ++ (hidden blocks).map (·.2)).Perm blocks.flatten := by
  -- leaving a block, what it declares is replaced by what it hides
  induction blocks generalizing shown with
  | nil =>
    have hnil : shown = [] := List.eq_nil_iff_forall_not_mem.2 fun l hl => by cases (hmem l).1 hl
    rw [hnil]
    exact .nil
  | cons block outer ih =>
    obtain ⟨hnames, hdepth, houter⟩ := hb
    have hblock : (shown.filter fun l => l.name ∈ block.map (·.name)).Perm block := by
      refine (List.perm_ext_iff_of_nodup (hshown.filter _) hnames.of_map).2 fun l => ?_
      rw [List.mem_filter, decide_eq_true_iff, hmem]
      refine ⟨fun ⟨h, hl⟩ => ?_, fun hl => ⟨visible_of_mem hnames hl, List.mem_map_of_mem hl⟩⟩
      obtain ⟨a, ha, heq⟩ := List.mem_map.1 hl
      rw [← heq, visible_of_mem hnames ha] at h
      exact Option.some.inj h ▸ ha
    let hides := block.filterMap fun l => visible outer l.name
    have hhides (l : Local) : l ∈ hides ↔ l.name ∈ block.map (·.name) ∧
        visible outer l.name = some l := by
      rw [List.mem_filterMap, List.mem_map]
      constructor
      · rintro ⟨a, ha, h⟩
        have hname := name_of_visible h
        exact ⟨⟨a, ha, hname.symm⟩, hname.symm ▸ h⟩
      · rintro ⟨⟨a, ha, heq⟩, h⟩
        exact ⟨a, ha, heq.symm ▸ h⟩
    have hnodup : hides.Nodup := by
      refine (List.pairwise_map.1 hnames).filterMap _ fun a a' hne l h l' h' heq => hne ?_
      rw [← name_of_visible h, ← name_of_visible h', heq]
    have hrest := @ih houter (shown.filter (fun l => ! l.name ∈ block.map (·.name)) ++ hides) ?_ ?_
    · have hmap : (hidden (block :: outer)).map (·.2) = hides ++ (hidden outer).map (·.2) := by
        rw [hidden, List.map_append, List.map_filterMap]
        congr 2
        funext l
        cases visible outer l.name <;> rfl
      rw [hmap, List.flatten_cons, ← List.append_assoc]
      refine (((List.filter_append_perm _ shown).symm.trans (hblock.append_right _)).append_right _
        |>.append_right _).trans ?_
      rw [List.append_assoc, List.append_assoc]
      exact (List.perm_append_left_iff _).2 (by simpa using hrest)
    · refine List.nodup_append.2 ⟨hshown.filter _, hnodup, fun a ha l hl heq => ?_⟩
      have := (List.mem_filter.1 ha).2
      simp [heq, ((hhides l).1 hl).1] at this
    · intro l
      rw [List.mem_append, List.mem_filter, hmem, hhides]
      by_cases hl : l.name ∈ block.map (·.name)
      · simp [hl]
      · simp [hl, visible_of_not_mem hl]

end

/-! ### Frames -/

theorem Table.find?_filter {κ ν : Type} [BEq κ] [LawfulBEq κ] {t : Table κ ν} (h : t.keys.Nodup)
    (p : κ × ν → Bool) (k : κ) :
    (⟨t.entries.filter p⟩ : Table κ ν).find? k = (t.find? k).filter fun v => p (k, v) := by
  have hkeys : (⟨t.entries.filter p⟩ : Table κ ν).keys.Nodup :=
    h.sublist (List.filter_sublist.map _)
  refine Option.ext fun v => ?_
  rw [← mem_entries_iff hkeys, List.mem_filter, mem_entries_iff h, Option.filter_eq_some_iff]

/-- Putting back what a block hides: its names mean again what they mean around it. -/
theorem restore_hidden (block : List Local) (outer : List (List Local))
    (names : Table String Local) :
    ∃ names', Frame.restore outer.length (hidden (block :: outer)) names = (hidden outer, names') ∧
      (names.keys.Nodup → names'.keys.Nodup) ∧
      ∀ name, names'.find? name = if name ∈ block.map (·.name) then
        (visible outer name).or (names.find? name) else names.find? name := by
  rw [hidden]
  induction block generalizing names with
  | nil =>
    refine ⟨names, ?_, id, fun name => rfl⟩
    rw [List.filterMap_nil, List.nil_append]
    cases hh : hidden outer with
    | nil => rfl
    | cons e rest =>
      have hlt := depth_of_mem_hidden (hh ▸ (.head _) : e ∈ hidden outer)
      rw [Frame.restore, if_neg (by simpa using Nat.ne_of_lt hlt)]
  | cons l block ih =>
    rw [List.filterMap_cons]
    cases hold : visible outer l.name with
    | none =>
      obtain ⟨names', hrun, hkeys, hfind⟩ := ih names
      refine ⟨names', hrun, hkeys, fun name => ?_⟩
      rw [hfind]
      by_cases hname : name = l.name
      · simp [hname, hold]
      · simp [hname]
    | some old =>
      have hname := name_of_visible hold
      obtain ⟨names', hrun, hkeys, hfind⟩ := ih (names.insert old.name old)
      refine ⟨names', ?_, fun h => hkeys (Table.nodup_keys_insert _ _ h), fun name => ?_⟩
      · rw [← hrun]
        simp [Frame.restore]
      · rw [hfind]
        by_cases hl : name = l.name
        · simp [hl, hold, hname]
        · rw [Table.find?_insert_of_ne _ _ (hname ▸ hl)]
          simp [hl]

/-- A frame has the names of the blocks of its function. -/
structure Frame.Shows (f : Frame) (b : Blocks) : Prop where
  depth : f.depth = b.outer.length
  find? : ∀ name, f.names.find? name = b.find? name
  shadowed : f.shadowed = hidden b.all
  keys : f.names.keys.Nodup
  leveled : Leveled b.all

namespace Frame.Shows

variable {f f' : Frame} {b b' : Blocks} {l old : Local}

theorem start (captures : List Capture) : Frame.Shows { captures } {} where
  depth := rfl
  find? _ := rfl
  shadowed := rfl
  keys := .nil
  leveled := ⟨.nil, nofun, trivial⟩

section

variable (h : f.Shows b)
include h

theorem mem_values : l ∈ f.names.values ↔ b.find? l.name = some l := by
  rw [Table.values, List.mem_map]
  constructor
  · rintro ⟨⟨k, l⟩, he, rfl⟩
    rw [Table.mem_entries_iff h.keys, h.find?] at he
    exact (name_of_visible he).symm ▸ he
  · intro hl
    exact ⟨(l.name, l), (Table.mem_entries_iff h.keys).2 ((h.find? _).trans hl), rfl⟩

theorem nodup_values : f.names.values.Nodup := by
  refine List.pairwise_map.2 ((List.pairwise_map.1 h.keys).imp_of_mem fun {e e'} he he' hne heq =>
    hne ?_)
  have hname {e : String × Local} (he : e ∈ f.names.entries) : e.2.name = e.1 :=
    name_of_visible ((h.find? e.1).symm.trans ((Table.mem_entries_iff h.keys).1 he))
  rw [← hname he, ← hname he', heq]

theorem enter : ({ f with depth := f.depth + 1 } : Frame).Shows b.enter where
  depth := congrArg (· + 1) h.depth
  find? name := (h.find? name).trans (visible_of_not_mem List.not_mem_nil).symm
  shadowed := h.shadowed
  keys := h.keys
  leveled := ⟨.nil, nofun, h.leveled⟩

theorem declared_iff (hold : b.find? l.name = some old) :
    old.depth = f.depth ↔ b.inner.any (·.name == l.name) = true := by
  rw [h.depth, List.any_eq_true]
  constructor
  · intro hd
    exact ⟨old, mem_of_visible h.leveled hold
      (Nat.le_of_eq hd.symm), by simpa using name_of_visible hold⟩
  · rintro ⟨a, ha, hname⟩
    rw [Blocks.find?, ← beq_iff_eq.1 hname, Blocks.all, visible_of_mem h.leveled.1 ha] at hold
    obtain rfl := Option.some.inj hold
    exact h.leveled.2.1 a ha

theorem declare_error (l : Local) : (∃ span, f.declare l = .error span) ↔ b.declare l = none := by
  rw [declare, Blocks.declare, h.find?]
  cases hold : b.find? l.name with
  | none =>
    have hnot : b.inner.any (·.name == l.name) = false := by
      rw [List.any_eq_false]
      intro a ha hname
      rw [Blocks.find?, ← beq_iff_eq.1 hname, Blocks.all, visible_of_mem h.leveled.1 ha] at hold
      cases hold
    simp [hnot]
  | some old =>
    simp only [← h.declared_iff hold]
    by_cases hd : old.depth = f.depth
    · simp [hd]
    · simp [hd]

theorem declare (hf : f.declare l = .ok f') (hb : b.declare l = some b') : f'.Shows b' := by
  obtain ⟨hnew, rfl⟩ : b.inner.any (·.name == l.name) = false ∧ _ := by
    simpa [Blocks.declare] using hb
  have hmem : l.name ∉ b.inner.map (·.name) := by simpa using hnew
  have hvisible : visible b.outer l.name = f.names.find? l.name := by
    rw [h.find?]
    exact (visible_of_not_mem hmem).symm
  obtain ⟨rfl⟩ : f' = { f with
      names := f.names.insert l.name { l with depth := f.depth }
      shadowed := ((visible b.outer l.name).map (f.depth, ·)).toList ++ f.shadowed } := by
    rw [hvisible]
    rw [declare] at hf
    cases hold : f.names.find? l.name with
    | none =>
      simp only [hold] at hf
      exact (Except.ok.inj hf).symm
    | some old =>
      simp only [hold] at hf
      split at hf
      · cases hf
      · exact (Except.ok.inj hf).symm
  rw [h.depth]
  constructor
  case depth => rfl
  case find? =>
    intro name
    rw [Blocks.find?, Blocks.all, visible_cons, List.find?_cons]
    by_cases hname : l.name = name
    · simp [← hname]
    · rw [Table.find?_insert_of_ne _ _ (Ne.symm hname), h.find?, Blocks.find?, Blocks.all,
        visible_cons, beq_eq_false_iff_ne.2 hname]
  case shadowed =>
    show _ = hidden ((_ :: b.inner) :: b.outer)
    rw [hidden, List.filterMap_cons, h.shadowed, Blocks.all, hidden]
    cases visible b.outer l.name <;> rfl
  case keys => exact Table.nodup_keys_insert _ _ h.keys
  case leveled =>
    exact ⟨List.nodup_cons.2 ⟨hmem, h.leveled.1⟩, List.forall_mem_cons.2 ⟨rfl, h.leveled.2.1⟩,
      h.leveled.2.2⟩

theorem removed : f.leave.1.Perm b.inner := by
  refine (orderBy_perm _ _).trans ((List.perm_ext_iff_of_nodup (h.nodup_values.filter _)
    h.leveled.1.of_map).2 fun l => ?_)
  rw [List.mem_filter, h.mem_values, decide_eq_true_iff, h.depth]
  exact ⟨fun ⟨hl, hd⟩ => mem_of_visible h.leveled hl hd,
    fun hl => ⟨visible_of_mem h.leveled.1 hl, Nat.le_of_eq (h.leveled.2.1 l hl).symm⟩⟩

theorem leave : f.leave.2.Shows b.leave := by
  obtain ⟨inner, outer⟩ := b
  obtain ⟨hnames, hdepth, houter⟩ : Leveled (inner :: outer) := h.leveled
  have hd : f.depth = outer.length := h.depth
  obtain ⟨names, hrestore, hkeys, hfind⟩ :=
    restore_hidden inner outer ⟨f.names.entries.filter fun e => decide (e.2.depth < f.depth)⟩
  have hleave : f.leave.2 = { f with names, shadowed := hidden outer, depth := f.depth - 1 } := by
    rw [leave, h.shadowed]
    simp only [Blocks.all, hidden, hd] at hrestore ⊢
    rw [hrestore]
  have hkept (name : String) : names.find? name = visible outer name := by
    rw [hfind, Table.find?_filter h.keys, h.find?, hd]
    rw [show Blocks.find? ⟨inner, outer⟩ name = visible (inner :: outer) name from rfl]
    split
    · next hmem =>
      obtain ⟨l, hl, rfl⟩ := List.mem_map.1 hmem
      rw [visible_of_mem hnames hl, Option.filter_some, hdepth l hl]
      simp
    · next hmem =>
      rw [visible_of_not_mem hmem]
      cases hl : visible outer name with
      | none => rfl
      | some l => rw [Option.filter_some, if_pos (decide_eq_true (depth_of_visible houter hl))]
  have hnodup : names.keys.Nodup := hkeys (h.keys.sublist (List.filter_sublist.map _))
  rw [hleave]
  cases outer with
  | nil => exact ⟨by rw [hd]; rfl, hkept, rfl, hnodup, .nil, nofun, trivial⟩
  | cons block outer => exact ⟨by rw [hd]; rfl, hkept, rfl, hnodup, houter⟩

theorem drain : f.drain.1.Perm b.all.flatten := by
  refine (orderBy_perm _ _).trans ?_
  rw [h.shadowed]
  exact perm_of_visible h.leveled h.nodup_values fun l => h.mem_values

end

end Frame.Shows

end HotScript
