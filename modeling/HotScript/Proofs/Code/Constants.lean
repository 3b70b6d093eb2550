import HotScript.Proofs.Code.WellFormed
import HotScript.Proofs.Type.Spelling
import Mathlib

/-!
The pool gives back what was put in.

A pool keeps one of the constants that count as the same, so what is read at the place of a constant
is the first of them. A constant comes back as it is (`Constant.Alike`) unless the pool has the zero
of the other sign, a class of the same qualified name in another file, or a class whose qualified
name closes a parenthesis (`Constant.Apart`). All this is said of pools that are not full: places
are 32 bit numbers.
-/

namespace HotScript

/-! ### Constants that count as the same -/

theorem Constant.sameFloat_iff {x y : Float} :
    Constant.sameFloat x y = true ↔ x = y ∨ x = 0 ∧ y = -0 ∨ x = -0 ∧ y = 0 := by
  rw [Constant.sameFloat, Bool.or_eq_true, Float.beq_iff_ne_nan_and_eq]
  have hzero : (0 : Float) ≠ .nan ∧ (-0 : Float) ≠ .nan := by decide
  by_cases hx : x = .nan
  · subst hx
    simp [hzero.1.symm, hzero.2.symm, eq_comm]
  · grind [Float.isNaN_eq_decide_eq_nan]

namespace StaticType

theorem sameAll_iff {ts us : List StaticType} :
    sameAll ts us = true ↔ List.Forall₂ (fun t u => t.same u = true) ts us := by
  induction ts generalizing us with
  | nil => cases us <;> simp [sameAll]
  | cons t ts ih => cases us <;> simp [sameAll, ih]

/-- Types that agree in everything else are the same if qualified names tell the files of their
classes. -/
theorem same_of_identical {t u : StaticType} (h : t.identical u = true)
    (hfiles : ∀ k l, t.Mentions k → u.Mentions l → k.qualified = l.qualified → k.path = l.path) :
    t.same u = true ∧ t.isHard = u.isHard := by
  induction t using induction generalizing u with
  | step t ih =>
    obtain ⟨shape, p, m, r⟩ := t
    obtain ⟨shape', p', m', r'⟩ := u
    simp only [identical, Bool.and_eq_true, beq_iff_eq] at h
    obtain ⟨⟨⟨rfl, rfl⟩, rfl⟩, hshape⟩ := h
    cases shape <;> cases shape' <;> simp [identicalShape] at hshape <;>
      simp [same, sameShape, isHard, isSet, hshape]
    case builtin.builtin tag es tag' es' =>
      have hall := identicalAll_iff.1 hshape.2
      refine sameAll_iff.2 (List.forall₂_iff_get.2 ⟨hall.length_eq, fun i hi hi' => ?_⟩)
      refine (ih _ (List.get_mem es ⟨i, hi⟩) ((List.forall₂_iff_get.1 hall).2 i hi hi') ?_).1
      exact fun k l hk hl => hfiles k l (hk.element (List.get_mem es _))
        (hl.element (List.get_mem es' _))
    case script.script c c' =>
      simpa [ClassRef.same, hshape] using hfiles c c' ⟨_, .self, rfl⟩ ⟨_, .self, rfl⟩ hshape

end StaticType

namespace Constant

/-- Containers, objects and what refers to objects: each has a place of its own. -/
def isOwn : Constant → Bool
  | value v => v.tag.isShared
  | _ => false

def floats : Constant → List Float
  | value (.float x) => [x]
  | value (.vector2 x y) => [x, y]
  | value (.vector3 x y z) => [x, y, z]
  | _ => []

def Mentions : Constant → ClassRef → Prop
  | type t, k => t.Mentions k
  | _, _ => False

/-- Nothing that runs can tell two constants apart. -/
def Alike : Constant → Constant → Prop
  | value a, value b => a = b
  | name a, name b => a = b
  | type a, type b => a.identical b = true ∧ a.same b = true ∧ a.isHard = b.isHard
  | cls a, cls b => a.same b = true
  | native a, native b => a = b
  | _, _ => False

/-- No zero stands where the other constant has the zero of the other sign, no class has the
qualified name of one in another file, and none has a closing parenthesis in it. -/
structure Apart (a b : Constant) : Prop where
  zeros : ∀ xy ∈ a.floats.zip b.floats, xy ≠ (0, -0) ∧ xy ≠ (-0, 0)
  legible : ∀ k, a.Mentions k ∨ b.Mentions k → ')' ∉ k.qualified.toList
  files : ∀ k l, a.Mentions k → b.Mentions l → k.qualified = l.qualified → k.path = l.path

variable {a b c : Constant}

theorem same_self (h : c.isOwn = false) : c.same c = true := by
  have hfloat (x : Float) : sameFloat x x = true := sameFloat_iff.2 (.inl rfl)
  cases c with
  | value v =>
    cases v <;> simp [isOwn, Value.tag, Tag.isShared] at h <;> simp [same, sameValue, hfloat]
  | name | type | cls | native => simp [same, ClassRef.same]

theorem same_of_isOwn (h : a.isOwn = true ∨ b.isOwn = true) : a.same b = false := by
  cases a <;> cases b <;> simp [isOwn, same] at h ⊢
  case value.value v w =>
    cases v <;> cases w <;> simp [Value.tag, Tag.isShared, sameValue] at h ⊢

theorem alike_self (c : Constant) : c.Alike c := by
  cases c with
  | type t => exact ⟨t.identical_self, t.same_self, rfl⟩
  | value | name | native => exact rfl
  | cls k => simp [Alike, ClassRef.same]

theorem alike_of_same (h : a.same b = true) (hd : a.Apart b) : a.Alike b := by
  have hfloat {x y : Float} (hxy : (x, y) ∈ a.floats.zip b.floats) (h : sameFloat x y = true) :
      x = y := by
    rcases sameFloat_iff.1 h with h | ⟨rfl, rfl⟩ | ⟨rfl, rfl⟩
    · exact h
    · exact absurd rfl (hd.zeros _ hxy).1
    · exact absurd rfl (hd.zeros _ hxy).2
  cases a <;> cases b <;> simp [same] at h
  case value.value v w =>
    cases v <;> cases w <;> simp [sameValue] at h <;> simp [floats] at hfloat <;> grind [Alike]
  case type.type t u =>
    have hsame := StaticType.identical_of_spelled (fun k hk => hd.legible k (.inl hk))
      (fun k hk => hd.legible k (.inr hk)) h
    exact ⟨hsame, StaticType.same_of_identical hsame hd.files⟩
  all_goals simpa [Alike] using h

end Constant

namespace Pool

variable {p : Pool} {c d : Constant} {i j : Nat}

/-! ### Adding constants -/

/-- The first place whose constant counts as the same. -/
def place? (p : Pool) (c : Constant) : Option Nat := p.constants.findIdx? (·.same c)

def addAll (p : Pool) : List Constant → Pool
  | [] => p
  | c :: cs => addAll (p.add c).2 cs

theorem add_of_place (h : p.place? c = some i) : p.add c = (.ofNat i, p) := by
  rw [place?] at h
  rw [add, h]

theorem add_of_place_none (h : p.place? c = none) :
    p.add c = (.ofNat p.size, ⟨p.constants.push c⟩) := by
  rw [place?] at h
  rw [add, h, size]

theorem place_lt (h : p.place? c = some i) : i < p.size :=
  (Array.findIdx?_eq_some_iff_getElem.1 h).1

theorem constants_addAll (p : Pool) (cs : List Constant) :
    ∃ more, (p.addAll cs).constants = p.constants ++ more ∧ ∀ d ∈ more, d ∈ cs := by
  induction cs generalizing p with
  | nil => exact ⟨#[], Array.append_empty.symm, by simp⟩
  | cons c cs ih =>
    obtain ⟨more, hmore, hmem⟩ := ih (p.add c).2
    rw [addAll, hmore]
    cases hp : p.place? c with
    | some => exact ⟨more, by rw [add_of_place hp], fun d hd => .tail _ (hmem d hd)⟩
    | none => exact ⟨#[c] ++ more, by simp [add_of_place_none hp], by grind⟩

theorem get?_addAll (cs : List Constant) (h : p.get? j = some d) :
    (p.addAll cs).get? j = some d := by
  obtain ⟨more, hmore, -⟩ := p.constants_addAll cs
  rw [get?, hmore, Array.getElem?_append_left (lt_of_get? h)]
  exact h

theorem mem_addAll {cs : List Constant} (h : d ∈ (p.addAll cs).constants) :
    d ∈ p.constants ∨ d ∈ cs := by
  obtain ⟨more, hmore, hmem⟩ := p.constants_addAll cs
  rw [hmore] at h
  exact (Array.mem_append.1 h).imp_right (hmem d)

theorem place_addAll (cs : List Constant) (h : p.place? c = some i) :
    (p.addAll cs).place? c = some i := by
  obtain ⟨more, hmore, -⟩ := p.constants_addAll cs
  rw [place?] at h
  rw [place?, hmore, Array.findIdx?_append, h]
  rfl

theorem place_of_add (h : c.isOwn = false) :
    ∃ i, (p.add c).1 = .ofNat i ∧ (p.add c).2.place? c = some i := by
  cases hp : p.place? c with
  | some i => exact ⟨i, by rw [add_of_place hp], by rwa [add_of_place hp]⟩
  | none =>
    refine ⟨p.size, by rw [add_of_place_none hp], ?_⟩
    rw [add_of_place_none hp]
    rw [place?] at hp
    simp [place?, Array.findIdx?_push, hp, c.same_self h, size]

theorem size_add_le (p : Pool) (c : Constant) : (p.add c).2.size ≤ p.size + 1 := by
  cases hp : p.place? c with
  | some => exact add_of_place hp ▸ Nat.le_succ _
  | none => exact add_of_place_none hp ▸ (Array.size_push _).le

/-- What has a place of its own is added behind all others, and nothing is given its place later,
while the pool is not full. -/
theorem place_own (h : c.isOwn = true) (hsize : p.size < 2 ^ 32) : (p.add c).1.toNat = p.size ∧
    ∀ (cs : List Constant) (d : Constant), ((p.add c).2.addAll cs).size < 2 ^ 32 →
      (((p.add c).2.addAll cs).add d).1 ≠ (p.add c).1 := by
  have hp : p.place? c = none := by
    simpa [place?] using fun x _ => Constant.same_of_isOwn (.inr h)
  rw [add_of_place_none hp]
  refine ⟨UInt32.toNat_ofNat_of_lt' hsize, fun cs d hq heq => ?_⟩
  generalize hqs : addAll ⟨p.constants.push c⟩ cs = q at heq hq
  have hc : q.get? p.size = some c := hqs ▸ get?_addAll cs (by simp [get?, size])
  have hplace {n : Nat} (hn : n < 2 ^ 32) (h : UInt32.ofNat n = UInt32.ofNat p.size) :
      n = p.size := by
    have hnat := congrArg UInt32.toNat h
    rwa [UInt32.toNat_ofNat_of_lt' hn, UInt32.toNat_ofNat_of_lt' hsize] at hnat
  cases hd : q.place? d with
  | some i =>
    obtain rfl : i = p.size := hplace (Nat.lt_trans (place_lt hd) hq)
      (by rwa [add_of_place hd] at heq)
    obtain ⟨_, hsame, _⟩ := Array.findIdx?_eq_some_iff_getElem.1 hd
    rw [(Array.getElem?_eq_some_iff.1 hc).2, Constant.same_of_isOwn (.inl h)] at hsame
    cases hsame
  | none =>
    rw [add_of_place_none hd] at heq
    exact (lt_of_get? hc).ne' (hplace hq heq)

/-- What is read at the place of a constant cannot be told from it, unless one added before clashes
with it in a zero or a class; a place keeps its constant; adding the constant again gives the place
again; and a container, an object or a callable has a new place that nothing else is given. -/
theorem add_faithful (cs : List Constant) (c : Constant) :
    let p := addAll {} cs
    let i := (p.add c).1
    let q := (p.add c).2
    (p.size < 2 ^ 32 →
      ∃ d, q.get? i.toNat = some d ∧ ((∀ e ∈ cs, e = c ∨ e.Apart c) → d.Alike c)) ∧
    (∀ more j d, q.get? j = some d → (q.addAll more).get? j = some d) ∧
    (c.isOwn = false → ∀ more, ((q.addAll more).add c).1 = i) ∧
    (c.isOwn = true → p.size < 2 ^ 32 → i.toNat = p.size ∧
      ∀ more d, (q.addAll more).size < 2 ^ 32 → ((q.addAll more).add d).1 ≠ i) := by
  intro p i q
  refine ⟨fun hsize => ?_, fun more j d => get?_addAll more, fun h more => ?_, place_own⟩
  · obtain ⟨-, hheld, -⟩ := add_spec (rfl : p.add c = (i, q))
    obtain ⟨d, hd, hdc⟩ := hheld (Nat.le_trans (size_add_le p c) hsize)
    refine ⟨d, hd, fun hcs => ?_⟩
    have halike : d = c ∨ d.Apart c → d.Alike c := by
      rintro (rfl | hapart)
      · exact d.alike_self
      · exact hdc.elim (fun h => h ▸ c.alike_self) fun h => Constant.alike_of_same h hapart
    have hadded : d ∈ (p.addAll [c]).constants := Array.mem_of_getElem? hd
    rcases mem_addAll hadded with hmem | hmem
    · exact halike (hcs d ((mem_addAll hmem).resolve_left (by simp)))
    · exact halike (.inl (List.mem_singleton.1 hmem))
  · obtain ⟨n, hn, hplace⟩ := place_of_add (p := p) h
    rw [add_of_place (place_addAll more hplace)]
    exact hn.symm

/-- A class comes back after a zero and a class of another file. -/
theorem add_faithful_class :
    let cls (file : String) : Constant := .type (.script ⟨file, file, "X", 0⟩)
    let cs : List Constant := [.value (.float 0), cls "a"]
    let added := (addAll {} cs).add (cls "b")
    (addAll {} cs).size < 2 ^ 32 ∧ (∀ e ∈ cs, e = cls "b" ∨ e.Apart (cls "b")) ∧
      ∃ d, added.2.get? added.1.toNat = some d ∧ d.Alike (cls "b") := by
  intro cls cs added
  have hsize : (addAll {} cs).size < 2 ^ 32 := by decide +kernel
  have hmentions {file : String} {k : ClassRef} (h : (cls file).Mentions k) :
      k = ⟨file, file, "X", 0⟩ := by
    obtain ⟨u, hu, hk⟩ := h
    cases hu with
    | self => exact (Option.some.inj hk).symm
    | element he => exact absurd he List.not_mem_nil
  have hapart : ∀ e ∈ cs, e = cls "b" ∨ e.Apart (cls "b") := by
    intro e he
    rcases List.mem_pair.1 he with rfl | rfl
    · refine .inr ⟨by simp [cls, Constant.floats], ?_, fun k l hk => absurd hk id⟩
      rintro k (hk | hk)
      · exact absurd hk id
      · rw [hmentions hk]
        decide
    · refine .inr ⟨by simp [cls, Constant.floats], ?_, fun k l hk hl h => ?_⟩
      · rintro k (hk | hk) <;> rw [hmentions hk] <;> decide
      · rw [hmentions hk, hmentions hl] at h
        exact absurd h (by decide)
  obtain ⟨d, hd, halike⟩ := (add_faithful cs (cls "b")).1 hsize
  exact ⟨hsize, hapart, d, hd, halike hapart⟩

/-- A zero that is added after the zero of the other sign comes back with that sign, a type as one
whose class is in another file, and an array of a class as one of two classes, if the class is named
so. -/
theorem unfaithful :
    let inFile (file : String) : Constant := .type (.ofShape (.script ⟨file, "X", "X", 0⟩))
    let arrayOf (names : List String) : Constant :=
      .type (.ofShape (.builtin .array (names.map fun n => .script ⟨"a", n, n, 0⟩)))
    let posing :=
      "X), source: AnnotatedExplicit, is_meta: false, is_read_only: false \x7d, " ++
        "DataType \x7b kind: Class(Y"
    let zeros := (addAll {} [.value (.float 0)]).add (.value (.float (-0)))
    let classes := (addAll {} [inFile "a"]).add (inFile "b")
    let arrays := (addAll {} [arrayOf ["X", "Y"]]).add (arrayOf [posing])
    (∃ d, zeros.2.get? zeros.1.toNat = some d ∧ ¬d.Alike (.value (.float (-0)))) ∧
    (∃ d, classes.2.get? classes.1.toNat = some d ∧ ¬d.Alike (inFile "b")) ∧
    ∃ d, arrays.2.get? arrays.1.toNat = some d ∧ ¬d.Alike (arrayOf [posing]) := by
  intro inFile arrayOf posing zeros classes arrays
  have hone (c : Constant) : addAll {} [c] = ⟨#[c]⟩ := by simp [addAll, add]
  have hzeros : place? ⟨#[.value (.float 0)]⟩ (.value (.float (-0))) = some 0 := by decide +kernel
  have hclasses : place? ⟨#[inFile "a"]⟩ (inFile "b") = some 0 := by decide +kernel
  have harrays : place? ⟨#[arrayOf ["X", "Y"]]⟩ (arrayOf [posing]) = some 0 := by decide +kernel
  simp only [zeros, classes, arrays, hone, add_of_place hzeros, add_of_place hclasses,
    add_of_place harrays]
  refine ⟨⟨_, rfl, fun h => ?_⟩, ⟨_, rfl, fun h => ?_⟩, ⟨_, rfl, fun h => ?_⟩⟩
  · exact absurd (Value.float.inj h) (by decide)
  · exact absurd h.2.1 (by decide)
  · exact absurd h.1 (by decide)

end Pool

end HotScript
