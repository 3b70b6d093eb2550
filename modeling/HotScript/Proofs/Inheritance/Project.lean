import Mathlib.Logic.Relation
import Mathlib.Data.List.Nodup
import HotScript.Proofs.Analysis.Stages

/-!
Projects, and what their classes extend.

A project is the files of a workspace as far as inheritance goes: for each file the outline of its
classes, however often it is read. `Project.base` is the class that a clause names directly: by the
path of a file, by the name of a class around, or by a global name, and from there down. It is
defined without any regard to how the analysis looks for it.
-/

namespace HotScript

/-! ### Outlines -/

/-- The heading of a class, and the classes declared directly in it. -/
structure ClassOutline where
  name : Option String
  qualified : String
  outer : Option ClassId
  clause : Option ExtendsClause
  nested : String → Option ClassId

def ClassDecl.outline (c : ClassDecl) : ClassOutline where
  name := c.name?
  qualified := c.qualified
  outer := c.outer
  clause := c.extends?
  nested name :=
    match c.member? name with
    | some (.cls id _) => some id
    | _ => none

abbrev FileOutline := List ClassOutline

def Tree.outline (t : Tree) : FileOutline := t.classes.toList.map (·.outline)

/-- Every class bears the number of its place. -/
def Tree.Numbered (t : Tree) : Prop := ∀ i c, t.class? i = some c → c.id = i

namespace FileOutline

/-- Follow names of nested classes downward from a class. -/
def descend (o : FileOutline) : ClassId → List String → Option ClassId
  | i, [] => if i < o.length then some i else none
  | i, name :: rest => ((o[i]?).bind (·.nested name)).bind fun inner => o.descend inner rest

def enclosingFrom (o : FileOutline) (name : String) : Nat → ClassId → Option ClassId
  | 0, _ => none
  | n + 1, i =>
    match o[i]? with
    | none => none
    | some c =>
      match c.nested name, c.outer with
      | some inner, _ => some inner
      | none, some outer => o.enclosingFrom name n outer
      | none, none => none

def enclosing? (o : FileOutline) (i : ClassId) (name : String) : Option ClassId :=
  match o.enclosingFrom name o.length i with
  | some inner => some inner
  | none => if (o[i]?).isSome && (o[0]?.bind (·.name)) == some name then some 0 else none

theorem descend_lt {o : FileOutline} {i j : ClassId} {names : List String}
    (h : o.descend i names = some j) : j < o.length := by
  induction names generalizing i with
  | nil =>
    rw [descend] at h
    split at h
    · next hi =>
      cases h
      exact hi
    · cases h
  | cons name rest ih =>
    obtain ⟨inner, -, h⟩ := Option.bind_eq_some_iff.1 h
    exact ih h

end FileOutline

namespace Tree

variable {t : Tree}

theorem outline_length : t.outline.length = t.classes.size := by
  rw [outline, List.length_map, Array.length_toList]

variable (name : String) (i : ClassId)

theorem outline_getElem? : t.outline[i]? = (t.class? i).map (·.outline) := by
  rw [outline, List.getElem?_map, Array.getElem?_toList]
  rfl

theorem nested?_singleton : t.nested? i [name] = (t.outline[i]?).bind (·.nested name) := by
  rw [outline_getElem?, nested?]
  cases t.class? i with
  | none => rfl
  | some c =>
    rw [Option.map_some, ClassDecl.outline]
    cases hm : c.member? name with
    | none => simp [hm]
    | some m => cases m <;> simp [hm, nested?]

theorem enclosingFrom_eq (n : Nat) :
    Analyze.enclosingFrom t name n i = t.outline.enclosingFrom name n i := by
  induction n generalizing i with
  | zero => rfl
  | succ n ih =>
    rw [Analyze.enclosingFrom, FileOutline.enclosingFrom, outline_getElem?]
    cases t.class? i with
    | none => rfl
    | some c =>
      rw [Option.map_some, ClassDecl.outline]
      dsimp only
      cases hm : c.member? name with
      | none =>
        cases c.outer with
        | none => rfl
        | some outer => exact ih outer
      | some m =>
        cases m with
        | cls inner name => rfl
        | _ =>
          cases c.outer with
          | none => rfl
          | some outer => exact ih outer

theorem enclosing?_eq : Analyze.enclosing? t i name = t.outline.enclosing? i name := by
  have hhead : t.head.name? = (t.outline[0]?).bind (·.name) := by
    rw [outline_getElem?, head]
    cases t.class? 0 <;> rfl
  have hsome : (t.class? i).isSome = (t.outline[i]?).isSome := by
    rw [outline_getElem?, Option.isSome_map]
  cases hfrom : t.outline.enclosingFrom name t.classes.size i <;>
    simp only [Analyze.enclosing?, FileOutline.enclosing?, enclosingFrom_eq, outline_length, hhead,
      hsome, hfrom]

end Tree

/-! ### Projects -/

abbrev Place := String × ClassId

namespace Workspace

def readingOf (w : Workspace) (path : String) (source : Source) (heap : Heap) : Reading :=
  match source with
  | .empty => {}
  | .text s => ({ w with heap }.readText path s).1
  | .binary b => ({ w with heap }.readBytes path b).1

/-- The files of a workspace as far as inheritance goes. -/
structure Project (w : Workspace) where
  outline : String → FileOutline
  /-- Every file can be read, without errors, as classes of the given outline. -/
  reads : ∀ p, (w.files.find? p).isSome → ∃ source, w.source p = .ok source ∧ ∀ heap, ∃ t,
    (w.readingOf p source heap).tree = some t ∧ (w.readingOf p source heap).hasErrors = false ∧
    (∀ d ∈ (w.readingOf p source heap).diagnostics, d.isCycle = false) ∧
    t.outline = outline p ∧ t.Numbered
  headed : ∀ p, (w.files.find? p).isSome → outline p ≠ []

namespace Project

variable {w : Workspace} (P : w.Project)

def files (_ : w.Project) : List String := w.files.keys

def places : List Place :=
  P.files.flatMap fun p => (List.range (P.outline p).length).map (p, ·)

variable {p : String} {c a b : Place}

theorem mem_files : p ∈ P.files ↔ (w.files.find? p).isSome :=
  Table.find?_isSome_iff.symm

theorem mem_places : c ∈ P.places ↔ c.1 ∈ P.files ∧ c.2 < (P.outline c.1).length := by
  rw [places, List.mem_flatMap]
  constructor
  · rintro ⟨p, hp, hc⟩
    obtain ⟨i, hi, rfl⟩ := List.mem_map.1 hc
    exact ⟨hp, List.mem_range.1 hi⟩
  · rintro ⟨hp, hi⟩
    exact ⟨c.1, hp, List.mem_map.2 ⟨c.2, List.mem_range.2 hi, rfl⟩⟩

def class? (c : Place) : Option ClassOutline := (P.outline c.1)[c.2]?

def ref (c : Place) : ClassRef :=
  match P.class? c with
  | none => { path := c.1, qualified := "", name := "", index := c.2 }
  | some o =>
    { path := c.1, qualified := o.qualified, index := c.2
      name := if o.outer.isNone then o.name.getD c.1 else o.name.getD "" }

@[simp] theorem ref_path (c : Place) : (P.ref c).path = c.1 := by
  rw [ref]
  split <;> rfl

@[simp] theorem ref_index (c : Place) : (P.ref c).index = c.2 := by
  rw [ref]
  split <;> rfl

/-- Classes of a file are told apart by their qualified names. -/
def Distinct : Prop := ∀ p ∈ P.files, ((P.outline p).map (·.qualified)).Nodup

instance : Decidable P.Distinct :=
  inferInstanceAs (Decidable (∀ p ∈ P.files, ((P.outline p).map (·.qualified)).Nodup))

variable {P} in
theorem Distinct.same_ref (hd : P.Distinct) (ha : a ∈ P.places) (hb : b ∈ P.places) :
    (P.ref a).same (P.ref b) ↔ a = b := by
  constructor
  · intro h
    obtain ⟨hp, hi⟩ := P.mem_places.1 ha
    obtain ⟨-, hj⟩ := P.mem_places.1 hb
    obtain ⟨hpath, hname⟩ : a.1 = b.1 ∧ (P.ref a).qualified = (P.ref b).qualified := by
      simpa [ClassRef.same] using h
    obtain ⟨p, i⟩ := a
    obtain ⟨q, j⟩ := b
    obtain rfl : p = q := hpath
    have hnodup := hd p hp
    rw [ref, ref, class?, class?, List.getElem?_eq_getElem hi, List.getElem?_eq_getElem hj] at hname
    have hnames : ((P.outline p).map (·.qualified))[i]? = ((P.outline p).map
        (·.qualified))[j]? := by
      rw [List.getElem?_map, List.getElem?_map, List.getElem?_eq_getElem hi,
        List.getElem?_eq_getElem hj]
      exact congrArg some hname
    have hij : i = j := (List.getElem?_inj (by simpa using hi) hnodup).1 hnames
    rw [hij]
  · rintro rfl
    simp [ClassRef.same]

theorem refOf_eq {t : Tree} {i : ClassId} {decl : ClassDecl} (ht : t.outline = P.outline p)
    (hn : t.Numbered) (hi : t.class? i = some decl) : FileUnit.refOf p decl = P.ref (p, i) := by
  have hclass : P.class? (p, i) = some decl.outline := by
    rw [class?, ← ht, Tree.outline_getElem?, hi]
    rfl
  rw [ref, hclass, FileUnit.refOf, hn i decl hi]
  rfl

/-! ### Bases -/

/-- A class of a file, by the names that lead to it from the head class. -/
def fileClass? (p : String) (names : List String) : Option Place :=
  if (w.files.find? p).isSome then ((P.outline p).descend 0 names).map (p, ·) else none

/-- What a clause of a class names: a class of the project, or, for `some none`, a native class. -/
def named? (c : Place) (clause : ExtendsClause) : Option (Option Place) :=
  match clause.path, clause.chain.map (·.name) with
  | some path, names => (P.fileClass? (Path.resolve c.1 path) names).map some
  | none, [] => none
  | none, first :: rest =>
    if w.registry.hasClass first then if rest.isEmpty then some none else none
    else
      match (P.outline c.1).enclosing? c.2 first with
      | some inner => ((P.outline c.1).descend inner rest).map fun j => some (c.1, j)
      | none =>
        match w.registry.global? first with
        | none => none
        | some g => (P.fileClass? g.path rest).map some

def base? (c : Place) : Option (Option Place) :=
  (P.class? c).bind fun o =>
    match o.clause with
    | none => some none
    | some clause => P.named? c clause

def Direct : Prop := ∀ c ∈ P.places, (P.base? c).isSome

instance : Decidable P.Direct := inferInstanceAs (Decidable (∀ c ∈ P.places, (P.base? c).isSome))

def base (c : Place) : Option Place := (P.base? c).join

def Extends (a b : Place) : Prop := P.base a = some b

theorem fileClass?_mem {names : List String} (h : P.fileClass? p names = some c) :
    c ∈ P.places := by
  rw [fileClass?] at h
  split at h
  · next hp =>
    obtain ⟨i, hi, rfl⟩ := Option.map_eq_some_iff.1 h
    exact P.mem_places.2 ⟨P.mem_files.2 hp, FileOutline.descend_lt hi⟩
  · cases h

theorem Extends.mem (ha : a ∈ P.places) (h : P.Extends a b) : b ∈ P.places := by
  rw [Extends, base, Option.join_eq_some_iff, base?] at h
  obtain ⟨o, -, h⟩ := Option.bind_eq_some_iff.1 h
  split at h
  · cases h
  rw [named?] at h
  split at h
  · obtain ⟨c, hc, heq⟩ := Option.map_eq_some_iff.1 h
    cases heq
    exact P.fileClass?_mem hc
  · cases h
  · split at h
    · split at h <;> cases h
    · split at h
      · obtain ⟨j, hj, heq⟩ := Option.map_eq_some_iff.1 h
        cases heq
        exact P.mem_places.2 ⟨(P.mem_places.1 ha).1, FileOutline.descend_lt hj⟩
      · split at h
        · cases h
        · obtain ⟨c, hc, heq⟩ := Option.map_eq_some_iff.1 h
          cases heq
          exact P.fileClass?_mem hc

theorem Extends.clause (h : P.Extends a b) :
    ∃ clause, (P.class? a).bind (·.clause) = some clause := by
  rw [Extends, base, Option.join_eq_some_iff, base?] at h
  obtain ⟨o, ho, h⟩ := Option.bind_eq_some_iff.1 h
  rw [ho, Option.bind_some]
  cases hclause : o.clause with
  | none =>
    rw [hclause] at h
    cases h
  | some clause => exact ⟨clause, rfl⟩

theorem Extends.unique (h : P.Extends a b) (h' : P.Extends a c) : b = c :=
  Option.some.inj (h.symm.trans h')

/-- A class that extends itself, by way of others or not. -/
def OnCycle (c : Place) : Prop := c ∈ P.places ∧ Relation.TransGen P.Extends c c

/-- There is at most one cycle: of two classes on cycles the first extends the second in the end. -/
def SingleCycle : Prop := ∀ a b, P.OnCycle a → P.OnCycle b → Relation.TransGen P.Extends a b

/-- Every clause names a class directly, there is at most one cycle, names tell classes apart, and
chains of classes are not longer than one has patience for. -/
structure Plain : Prop where
  direct : P.Direct
  single : P.SingleCycle
  distinct : P.Distinct
  small : P.files.length + P.places.length < Analyze.patience

theorem Plain.places_lt (h : P.Plain) : P.places.length < Analyze.patience :=
  Nat.lt_of_le_of_lt (Nat.le_add_left _ _) h.small

end Project

end Workspace

end HotScript
