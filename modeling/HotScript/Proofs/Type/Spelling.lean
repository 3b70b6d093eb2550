import HotScript.Type.Spelling
import HotScript.Proofs.Value.Fitting
import Mathlib

/-!
What the text of a type tells.

The text can be read from its start, whatever follows it: names end at their closing quote, lists at
their bracket, and a class at the first closing parenthesis, if its qualified name has none
(`StaticType.Legible`). So types of one text are identical (`StaticType.identical_of_spelled`). A
qualified name that closes the parenthesis itself can be read as another type.
-/

namespace HotScript

namespace Text

/-! ### Pieces that end at a mark -/

/-- Two texts that reach a mark for the first time where something common begins are equal. -/
theorem cut {t : Char} {mark xs ys a b : List Char} (hmark : mark.head? = some t) (hx : t ∉ xs)
    (hy : t ∉ ys) (h : xs ++ (mark ++ a) = ys ++ (mark ++ b)) : xs = ys ∧ a = b := by
  obtain ⟨more, rfl⟩ := List.head?_eq_some_iff.1 hmark
  induction xs generalizing ys with
  | nil =>
    cases ys with
    | nil => exact ⟨rfl, List.append_cancel_left h⟩
    | cons y ys => exact absurd (.head _) ((List.cons.inj h).1 ▸ hy)
  | cons x xs ih =>
    cases ys with
    | nil => exact absurd (.head _) ((List.cons.inj h).1 ▸ hx)
    | cons y ys =>
      obtain ⟨hxy, hrest⟩ := List.cons.inj h
      obtain ⟨rfl, rfl⟩ := ih (fun h => hx (.tail _ h)) (fun h => hy (.tail _ h)) hrest
      exact ⟨by rw [hxy], rfl⟩

theorem hex_small : ∀ n < 128, '\x7d' ∉ Nat.toDigits 16 n ∧
    (Nat.toDigits 16 n).foldl (fun m c => m * 16 + "0123456789abcdef".toList.idxOf c) 0 = n := by
  decide +kernel

/-- A character stands as it is, as its mark, or as its number. -/
theorem escape_cases (c : Char) :
    (escape c = [c] ∧ c ≠ '\\' ∧ c ≠ '"') ∨
    (∃ mark, escape c = ['\\', mark] ∧ (c, mark) ∈ marks) ∨
    (escape c = '\\' :: 'u' :: '\x7b' :: (Nat.toDigits 16 c.toNat ++ ['\x7d']) ∧
      c.toNat < 128) := by
  unfold escape
  split
  · next k mark hfind =>
    obtain rfl : k = c := by simpa using List.find?_some hfind
    exact .inr (.inl ⟨mark, rfl, List.mem_of_find?_eq_some hfind⟩)
  · next hnone =>
    have hother : ∀ p ∈ marks, p.1 ≠ c := by simpa using hnone
    split
    · exact .inr (.inr ⟨rfl, by omega⟩)
    · exact .inl ⟨rfl, (hother ('\\', '\\') (by decide)).symm, (hother ('"', '"') (by decide)).symm⟩

theorem escape_inj {c d : Char} {a b : List Char} (h : escape c ++ a = escape d ++ b) :
    c = d ∧ a = b := by
  have hmarks : ∀ p ∈ marks, p.2 ≠ 'u' ∧ ∀ q ∈ marks, p.2 = q.2 → p.1 = q.1 := by decide
  rcases escape_cases c with ⟨hc, hc', -⟩ | ⟨m, hc, hm⟩ | ⟨hc, hc'⟩ <;>
    rcases escape_cases d with ⟨hd, hd', -⟩ | ⟨n, hd, hn⟩ | ⟨hd, hd'⟩ <;>
    rw [hc, hd] at h <;> simp only [List.cons_append, List.nil_append, List.cons.injEq] at h
  · exact h
  · exact absurd h.1 hc'
  · exact absurd h.1 hc'
  · exact absurd h.1.symm hd'
  · exact ⟨(hmarks _ hm).2 _ hn h.2.1, h.2.2⟩
  · exact absurd h.2.1 (hmarks _ hm).1
  · exact absurd h.1.symm hd'
  · exact absurd h.2.1.symm (hmarks _ hn).1
  · simp only [true_and, List.append_assoc] at h
    obtain ⟨hhex, rfl⟩ := cut rfl (hex_small _ hc').1 (hex_small _ hd').1 h
    refine ⟨Char.toNat_inj.1 ?_, rfl⟩
    rw [← (hex_small _ hc').2, hhex, (hex_small _ hd').2]

theorem escape_ne_quote (c : Char) {a b : List Char} : escape c ++ a ≠ '"' :: b := by
  intro h
  rcases escape_cases c with ⟨hc, -, hq⟩ | ⟨m, hc, -⟩ | ⟨hc, -⟩ <;> rw [hc] at h <;>
    have hhead := (List.cons.inj h).1
  · exact hq hhead
  · exact absurd hhead (by decide)
  · exact absurd hhead (by decide)

/-- A name ends at its closing quote. -/
theorem literal_inj {s t : String} {a b : List Char}
    (h : (literal s).toList ++ a = (literal t).toList ++ b) : s = t ∧ a = b := by
  have hbody : ∀ cs ds : List Char,
      cs.flatMap escape ++ '"' :: a = ds.flatMap escape ++ '"' :: b → cs = ds ∧ a = b := by
    intro cs
    induction cs with
    | nil =>
      intro ds h
      cases ds with
      | nil => exact ⟨rfl, (List.cons.inj h).2⟩
      | cons d ds =>
        rw [List.flatMap_cons, List.append_assoc] at h
        exact absurd h.symm (escape_ne_quote d)
    | cons c cs ih =>
      intro ds h
      cases ds with
      | nil =>
        rw [List.flatMap_cons, List.append_assoc] at h
        exact absurd h (escape_ne_quote c)
      | cons d ds =>
        rw [List.flatMap_cons, List.flatMap_cons, List.append_assoc, List.append_assoc] at h
        obtain ⟨rfl, hrest⟩ := escape_inj h
        obtain ⟨rfl, rfl⟩ := ih ds hrest
        exact ⟨rfl, rfl⟩
  simp only [literal, String.toList_append, String.toList_ofList, List.append_assoc] at h
  exact (hbody _ _ (List.append_cancel_left h)).imp_left String.toList_inj.1

/-! ### Lists -/

theorem toList_joined (x : String) (xs : List String) :
    (joined (x :: xs)).toList = x.toList ++ xs.flatMap fun y => ", ".toList ++ y.toList := by
  rw [joined, String.toList_intercalate]
  induction xs generalizing x with
  | nil => simp
  | cons y ys ih =>
    rw [List.map_cons, List.map_cons, List.intercalate_cons_cons, ← List.map_cons, ih]
    simp

/-- A list of texts ends at its bracket, if each of its texts can be read and begins with no
bracket. -/
theorem joined_inj {α : Type} {R : α → α → Prop} {f : α → String} {as bs : List α}
    {mark s t : List Char} (hmark : mark.head? = some ']')
    (hread : ∀ x ∈ as, ∀ y ∈ bs, ∀ a b, (f x).toList ++ a = (f y).toList ++ b → R x y ∧ a = b)
    (hne : ∀ x a b, (f x).toList ++ a ≠ ']' :: b)
    (h : (joined (as.map f)).toList ++ (mark ++ s) = (joined (bs.map f)).toList ++ (mark ++ t)) :
    List.Forall₂ R as bs ∧ s = t := by
  obtain ⟨more, rfl⟩ := List.head?_eq_some_iff.1 hmark
  have hrest : ∀ as bs : List α,
      (∀ x ∈ as, ∀ y ∈ bs, ∀ a b, (f x).toList ++ a = (f y).toList ++ b → R x y ∧ a = b) →
      (as.map f).flatMap (fun y => ", ".toList ++ y.toList) ++ (']' :: more ++ s) =
        (bs.map f).flatMap (fun y => ", ".toList ++ y.toList) ++ (']' :: more ++ t) →
      List.Forall₂ R as bs ∧ s = t := by
    intro as
    induction as with
    | nil =>
      intro bs hread h
      cases bs with
      | nil => exact ⟨.nil, List.append_cancel_left h⟩
      | cons b bs => simp at h
    | cons a as ih =>
      intro bs hread h
      cases bs with
      | nil => simp at h
      | cons b bs =>
        rw [List.map_cons, List.map_cons, List.flatMap_cons, List.flatMap_cons] at h
        simp only [List.append_assoc] at h
        obtain ⟨hab, htail⟩ := hread a (.head _) b (.head _) _ _ (List.append_cancel_left h)
        have hread' := fun x hx y hy => hread x (List.mem_cons_of_mem a hx)
            y (List.mem_cons_of_mem b hy)
        exact (ih bs hread' htail).imp_left (.cons hab)
  cases as with
  | nil =>
    cases bs with
    | nil => exact ⟨.nil, List.append_cancel_left (List.append_cancel_left h)⟩
    | cons b bs =>
      rw [List.map_cons, toList_joined, List.append_assoc] at h
      exact absurd h.symm (hne b _ _)
  | cons a as =>
    cases bs with
    | nil =>
      rw [List.map_cons, toList_joined, List.append_assoc] at h
      exact absurd h (hne a _ _)
    | cons b bs =>
      rw [List.map_cons, List.map_cons, toList_joined, toList_joined, List.append_assoc,
        List.append_assoc] at h
      obtain ⟨hab, htail⟩ := hread a (.head _) b (.head _) _ _ h
      have hread' := fun x hx y hy => hread x (List.mem_cons_of_mem a hx)
          y (List.mem_cons_of_mem b hy)
      exact (hrest as bs hread' htail).imp_left (.cons hab)

/-! ### Numbers -/

theorem toList_repr (i : Int) :
    i.repr.toList = if i < 0 then '-' :: Nat.toDigits 10 i.natAbs
    else Nat.toDigits 10 i.natAbs := by
  cases i <;> simp [Int.repr]

theorem repr_injective {i j : Int} (h : i.repr.toList = j.repr.toList) : i = j := by
  have hminus (n : Nat) (cs : List Char) : Nat.toDigits 10 n ≠ '-' :: cs := fun hn =>
    absurd (Nat.isDigit_of_mem_toDigits (by decide) (by decide) (hn ▸ List.mem_cons_self))
      (by decide)
  have hdigits {m n : Nat} (hmn : Nat.toDigits 10 m = Nat.toDigits 10 n) : m = n := by
    rw [← Nat.repr_inj, Nat.repr_eq_ofList_toDigits, hmn, Nat.repr_eq_ofList_toDigits]
  rw [toList_repr, toList_repr] at h
  split_ifs at h with hi hj hj
  · have habs := hdigits (List.cons.inj h).2
    omega
  · exact absurd h.symm (hminus _ _)
  · exact absurd h (hminus _ _)
  · have habs := hdigits h
    omega

/-- The number of an entry ends at its parenthesis. -/
theorem decimal_inj {m n : Int64} {mark a b : List Char} (hmark : mark.head? = some ')')
    (h : (toString m).toList ++ (mark ++ a) = (toString n).toList ++ (mark ++ b)) : m = n ∧
    a = b := by
  have hword (i : Int) : ')' ∉ i.repr.toList := by
    have hdigits : ')' ∉ Nat.toDigits 10 i.natAbs := fun hc =>
      absurd (Nat.isDigit_of_mem_toDigits (by decide) (by decide) hc) (by decide)
    rw [toList_repr]
    split_ifs
    · simp [hdigits]
    · exact hdigits
  obtain ⟨htext, hab⟩ := cut hmark (hword m.toInt) (hword n.toInt) h
  exact ⟨Int64.toInt_inj.1 (repr_injective htext), hab⟩

end Text

/-! ### Words -/

section Words

variable {mark a b : List Char}

theorem Tag.spelled_inj {t u : Tag} (hmark : mark.head? = some ',')
    (h : t.spelled.toList ++ (mark ++ a) = u.spelled.toList ++ (mark ++ b)) : t = u ∧ a = b := by
  have hwords : ∀ t ∈ all, ',' ∉ t.spelled.toList ∧ ∀ u ∈ all, t.spelled = u.spelled →
      t = u := by decide
  have hall : ∀ t : Tag, t ∈ all := fun t => by cases t <;> decide
  obtain ⟨htu, hab⟩ := Text.cut hmark (hwords t (hall t)).1 (hwords u (hall u)).1 h
  exact ⟨(hwords t (hall t)).2 u (hall u) (String.toList_inj.1 htu), hab⟩

theorem Provenance.spelled_inj {p q : Provenance} (hmark : mark.head? = some ',')
    (h : p.spelled.toList ++ (mark ++ a) = q.spelled.toList ++ (mark ++ b)) : p = q ∧ a = b := by
  have hword (p : Provenance) : ',' ∉ p.spelled.toList := by cases p <;> decide
  refine (Text.cut hmark (hword p) (hword q) h).imp_left fun h => ?_
  cases p <;> cases q <;> first | rfl | exact absurd h (by decide)

theorem Bool.spelled_inj {p q t : _} (ht : t = ',' ∨ t = ' ') (hmark : mark.head? = some t)
    (h : (Bool.spelled p).toList ++ (mark ++ a) = (Bool.spelled q).toList ++ (mark ++ b)) :
    p = q ∧ a = b := by
  have hword (p : _) : t ∉ (Bool.spelled p).toList := by
    rcases ht with rfl | rfl <;> cases p <;> decide
  refine (Text.cut hmark (hword p) (hword q) h).imp_left fun h => ?_
  cases p <;> cases q <;> first | rfl | exact absurd h (by decide)

theorem EnumValues.spelled_inj {x y : String × Int64}
    (h : (EnumValues.spelled x).toList ++ a = (EnumValues.spelled y).toList ++ b) :
    x = y ∧ a = b := by
  unfold EnumValues.spelled at h
  simp only [String.toList_append, List.append_assoc] at h
  obtain ⟨hname, h⟩ := Text.literal_inj (List.append_cancel_left h)
  obtain ⟨hnumber, rfl⟩ := Text.decimal_inj rfl (List.append_cancel_left h)
  exact ⟨Prod.ext hname hnumber, rfl⟩

theorem EnumValues.spelled_head (x : String × Int64) (a b : List Char) :
    (EnumValues.spelled x).toList ++ a ≠ ']' :: b := by
  intro h
  unfold EnumValues.spelled at h
  simp at h

end Words

/-! ### Types -/

/-- The first character of a shape's text tells its kind. -/
def TypeShape.initial : TypeShape → Char
  | variant => 'V'
  | builtin .. => 'B'
  | native _ => 'N'
  | script _ => 'C'
  | enum .. => 'E'
  | unresolved => 'U'
  | resolving => 'R'

/-- Two shapes are of one kind. -/
inductive TypeShape.Akin : TypeShape → TypeShape → Prop
  | variant : Akin .variant .variant
  | builtin {s t : Tag} {ts us : List StaticType} : Akin (.builtin s ts) (.builtin t us)
  | native {c d : String} : Akin (.native c) (.native d)
  | script {c d : ClassRef} : Akin (.script c) (.script d)
  | enum {n o n' o' : String} {vs vs' : EnumValues} : Akin (.enum n o vs) (.enum n' o' vs')
  | unresolved : Akin .unresolved .unresolved
  | resolving : Akin .resolving .resolving

theorem TypeShape.akin_of_initial {x y : TypeShape} (h : x.initial = y.initial) : x.Akin y := by
  cases x <;> cases y <;> first | constructor | simp [initial] at h

theorem TypeShape.head?_spelledWith (x : TypeShape) (elements : List String) (a : List Char) :
    ((x.spelledWith elements).toList ++ a).head? = some x.initial := by
  unfold spelledWith
  cases x <;> simp [initial]

namespace StaticType

mutual

/-- Whether two types agree in everything: what they denote, the entries of enums, provenance and
marks.  Classes are told apart by their qualified names. -/
def identical : StaticType → StaticType → Bool
  | ⟨shape, p, m, r⟩, ⟨shape', p', m', r'⟩ =>
    p == p' && m == m' && r == r' && identicalShape shape shape'

def identicalShape : TypeShape → TypeShape → Bool
  | .variant, .variant | .unresolved, .unresolved | .resolving, .resolving => true
  | .builtin tag es, .builtin tag' es' => tag == tag' && identicalAll es es'
  | .native c, .native c' => c == c'
  | .script c, .script c' => c.qualified == c'.qualified
  | .enum n o vs, .enum n' o' vs' => n == n' && o == o' && vs == vs'
  | _, _ => false

def identicalAll : List StaticType → List StaticType → Bool
  | [], [] => true
  | t :: ts, u :: us => identical t u && identicalAll ts us
  | _, _ => false

end

/-- A class is named in a type, at any depth. -/
def Mentions (t : StaticType) (k : ClassRef) : Prop := ∃ u, t.Has u ∧ u.class? = some k

theorem Mentions.element {t e : StaticType} {k : ClassRef} (he : e ∈ t.elements)
    (h : e.Mentions k) : t.Mentions k :=
  let ⟨u, hu, hk⟩ := h
  ⟨u, .element he hu, hk⟩

theorem identicalAll_iff {ts us : List StaticType} :
    identicalAll ts us = true ↔ List.Forall₂ (fun t u => t.identical u = true) ts us := by
  induction ts generalizing us with
  | nil => cases us <;> simp [identicalAll]
  | cons t ts ih => cases us <;> simp [identicalAll, ih]

theorem identical_self (t : StaticType) : t.identical t = true := by
  induction t using induction with
  | step t ih =>
    obtain ⟨shape, p, m, r⟩ := t
    cases shape <;> simp [identical, identicalShape]
    exact identicalAll_iff.2 (List.forall₂_same.2 ih)

/-- No class of the type has a closing parenthesis in its qualified name. -/
def Legible (t : StaticType) : Prop := ∀ k, t.Mentions k → ')' ∉ k.qualified.toList

theorem spelled_eq (t : StaticType) : t.spelled = t.spelledWith (t.elements.map spelled) := by
  have hall (ts : List StaticType) : spelledAll ts = ts.map spelled := by
    induction ts with
    | nil => rfl
    | cons t ts ih => rw [spelledAll, ih, List.map_cons]
  obtain ⟨shape, p, m, r⟩ := t
  cases shape <;> simp [spelled, spelledElements, elements, hall]

/-- The text of a type begins with neither a bracket nor another mark. -/
theorem spelled_head (t : StaticType) (a b : List Char) : t.spelled.toList ++ a ≠ ']' :: b := by
  intro h
  rw [spelled_eq] at h
  unfold spelledWith at h
  simp at h

/-- A shape ends at the comma behind it, if this is known of the elements. -/
theorem spelledShape_inj {x y : StaticType} {mark a b : List Char} (hx : x.Legible) (hy : y.Legible)
    (ih : ∀ t ∈ x.elements, ∀ u ∈ y.elements, ∀ a b, t.spelled.toList ++ a = u.spelled.toList ++ b →
      t.identical u = true ∧ a = b)
    (h : (x.shape.spelledWith (x.elements.map spelled)).toList ++ (mark ++ a) =
      (y.shape.spelledWith (y.elements.map spelled)).toList ++ (mark ++ b)) :
    identicalShape x.shape y.shape = true ∧ a = b := by
  obtain ⟨xs, p, m, r⟩ := x
  obtain ⟨ys, p', m', r'⟩ := y
  have hakin : xs.Akin ys := by
    have hhead := congrArg List.head? h
    rw [TypeShape.head?_spelledWith, TypeShape.head?_spelledWith, Option.some_inj] at hhead
    exact TypeShape.akin_of_initial hhead
  unfold TypeShape.spelledWith at h
  cases hakin <;> simp only [String.toList_append, List.append_assoc] at h
  case variant | unresolved | resolving =>
    exact ⟨rfl, List.append_cancel_left (List.append_cancel_left h)⟩
  case builtin ts us =>
    obtain ⟨htag, hrest⟩ := Tag.spelled_inj rfl (List.append_cancel_left h)
    obtain ⟨hall, hend⟩ := Text.joined_inj rfl ih spelled_head hrest
    have hall : identicalAll ts us = true := identicalAll_iff.2 hall
    exact ⟨by simp [identicalShape, htag, hall], List.append_cancel_left hend⟩
  case native =>
    obtain ⟨hname, hrest⟩ := Text.literal_inj (List.append_cancel_left h)
    exact ⟨by simp [identicalShape, hname], List.append_cancel_left (List.append_cancel_left hrest)⟩
  case script c d =>
    obtain ⟨hname, hrest⟩ := Text.cut rfl (hx c ⟨_, .self, rfl⟩) (hy d ⟨_, .self, rfl⟩)
      (List.append_cancel_left h)
    exact ⟨by simpa [identicalShape] using String.toList_inj.1 hname, List.append_cancel_left hrest⟩
  case enum =>
    obtain ⟨hname, hrest⟩ := Text.literal_inj (List.append_cancel_left h)
    obtain ⟨howner, hrest'⟩ := Text.literal_inj (List.append_cancel_left hrest)
    obtain ⟨hall, hend⟩ := Text.joined_inj rfl (fun _ _ _ _ _ _ => EnumValues.spelled_inj)
      EnumValues.spelled_head (List.append_cancel_left hrest')
    rw [List.forall₂_eq_eq_eq] at hall
    exact ⟨by simp [identicalShape, hname, howner, hall], List.append_cancel_left hend⟩

/-- The text of a type can be read from its start. -/
theorem spelled_inj {t u : StaticType} {a b : List Char} (ht : t.Legible) (hu : u.Legible)
    (h : t.spelled.toList ++ a = u.spelled.toList ++ b) : t.identical u = true ∧ a = b := by
  induction t using induction generalizing u a b with
  | step t ih =>
    rw [spelled_eq, spelled_eq] at h
    unfold spelledWith at h
    simp only [String.toList_append, List.append_assoc] at h
    have h := List.append_cancel_left h
    obtain ⟨hshape, h⟩ := spelledShape_inj ht hu (fun x hx y hy a b hxy =>
      ih x hx (fun k hk => ht k (hk.element hx)) (fun k hk => hu k (hk.element hy)) hxy) h
    obtain ⟨hp, h⟩ := Provenance.spelled_inj rfl h
    obtain ⟨hm, h⟩ := Bool.spelled_inj (.inl rfl) rfl h
    obtain ⟨hr, rfl⟩ := Bool.spelled_inj (.inr rfl) rfl h
    refine ⟨?_, rfl⟩
    obtain ⟨shape, p, m, r⟩ := t
    obtain ⟨shape', p', m', r'⟩ := u
    simp_all [identical]

theorem identical_of_spelled {t u : StaticType} (ht : t.Legible) (hu : u.Legible)
    (h : t.spelled = u.spelled) : t.identical u = true :=
  (spelled_inj ht hu (by rw [h] : t.spelled.toList ++ [] = u.spelled.toList ++ [])).1

end StaticType

end HotScript
