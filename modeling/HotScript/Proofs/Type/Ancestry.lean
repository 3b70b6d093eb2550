import Mathlib.Logic.Relation
import Mathlib.Tactic.Choose
import HotScript.Proofs.Value.Fitting
import HotScript.Type.Compatible

/-!
Compatibility decides ancestry.

The walks over script classes are bounded. Where the chains end within the bound (`EndsWithin`), one
walk finds the target if it is there, the other the native root, and each fails only where the chain
ends in a class whose base is just being found out.
-/

namespace HotScript

open Relation

theorem ClassRef.same_iff {a b : ClassRef} :
    a.same b = true ↔ a.path = b.path ∧ a.qualified = b.qualified := by
  simp [same]

def TypeShape.IsClass : TypeShape → Prop
  | .native _ | .script _ => True
  | _ => False

theorem StaticType.flags_of_isClass {t : StaticType} (ht : t.shape.IsClass) :
    t.isResolving = false ∧ t.isVariant = false ∧ t.isSet = true := by
  unfold isResolving isVariant isSet
  cases hs : t.shape <;> simp_all [TypeShape.IsClass]

namespace Hierarchy

/-! ### The classes above one -/

/-- The script class `x` is `c` or above it. -/
def Above (p : ClassRef → ScriptParent) : ClassRef → ClassRef → Prop :=
  ReflTransGen fun c d => p c = .script d

/-- The chain of a class ends after at most `n` script links. -/
inductive EndsWithin (p : ClassRef → ScriptParent) : Nat → ClassRef → Prop
  | root {n : Nat} {c : ClassRef} (hc : ∀ d, p c ≠ .script d) : EndsWithin p n c
  | link {n : Nat} {c d : ClassRef} (hc : p c = .script d) (h : EndsWithin p n d) :
      EndsWithin p (n + 1) c

variable {m : Type → Type} {h : Hierarchy m} {p : ClassRef → ScriptParent} {c d x y : ClassRef}

theorem above_of_script (hc : p c = .script d) : Above p c x ↔ c = x ∨ Above p d x := by
  rw [Above, ReflTransGen.cases_head_iff]
  simp [hc]

theorem above_of_root (hc : ∀ d, p c ≠ .script d) : Above p c x ↔ c = x := by
  rw [Above, ReflTransGen.cases_head_iff]
  simp [hc]

theorem exists_above_of_same (hsame : ∀ a b : ClassRef, a.same b → p a = p b) (hyc : y.same c)
    (hx : Above p c x) : ∃ x', Above p y x' ∧ x'.same x := by
  rcases ReflTransGen.cases_head_iff.1 hx with rfl | ⟨d, hd, hdx⟩
  · exact ⟨y, .refl, hyc⟩
  · exact ⟨x, .head ((hsame y c hyc).trans hd) hdx, ClassRef.same_iff.2 ⟨rfl, rfl⟩⟩

/-- What the classes say of a target and a source: a native class is above the native classes that
descend from it and the script classes whose root does, a script class above those on whose chain it
is. -/
def Descends (h : Hierarchy m) (p : ClassRef → ScriptParent) : TypeShape → TypeShape → Prop
  | .native c, .native d => h.descends d c
  | .native c, .script d => ∃ x root, Above p d x ∧ p x = .native root ∧ h.descends root c
  | .script c, .script d => ∃ x, Above p d x ∧ x.same c
  | _, _ => False

/-- The way up from the source comes to a class that is being resolved, and not to the target
before. -/
def MeetsResolving (p : ClassRef → ScriptParent) : TypeShape → TypeShape → Prop
  | .native _, .script d => ∃ x, Above p d x ∧ p x = .resolving
  | .script c, .script d => (∀ x, Above p d x → ¬ x.same c) ∧ ∃ x, Above p d x ∧ p x = .resolving
  | _, _ => False

variable {a : TypeShape}

theorem Descends.refl (hrefl : ∀ a, h.descends a a) (ha : a.IsClass) : h.Descends p a a := by
  cases a with
  | native c => exact hrefl c
  | script c => exact ⟨c, .refl, ClassRef.same_iff.2 ⟨rfl, rfl⟩⟩
  | _ => exact ha.elim

theorem Descends.trans (hsame : ∀ a b : ClassRef, a.same b → p a = p b)
    (htrans : ∀ a b c, h.descends a b → h.descends b c → h.descends a c) {b c : TypeShape}
    (hab : h.Descends p a b) (hbc : h.Descends p b c) : h.Descends p a c := by
  unfold Descends at hbc
  split at hbc
  case h_1 =>
    cases a with
    | native => exact htrans _ _ _ hbc hab
    | _ => exact hab.elim
  case h_2 =>
    obtain ⟨x, root, hx, hroot, hd⟩ := hbc
    cases a with
    | native => exact ⟨x, root, hx, hroot, htrans _ _ _ hd hab⟩
    | _ => exact hab.elim
  case h_3 =>
    -- the middle class is on the chain by another reference, and so is what is above it
    obtain ⟨y, hy, hyb⟩ := hbc
    cases a with
    | native =>
      obtain ⟨x, root, hx, hroot, hd⟩ := hab
      obtain ⟨x', hx', hxx'⟩ := exists_above_of_same hsame hyb hx
      exact ⟨x', root, hy.trans hx', (hsame _ _ hxx').trans hroot, hd⟩
    | script =>
      obtain ⟨x, hx, hxa⟩ := hab
      obtain ⟨x', hx', hxx'⟩ := exists_above_of_same hsame hyb hx
      exact ⟨x', hy.trans hx', by simp_all [ClassRef.same_iff]⟩
    | _ => exact hab.elim
  case h_4 => exact hbc.elim

theorem not_meetsResolving_self : ¬ MeetsResolving p a a := by
  cases a with
  | script c => exact fun ⟨hnone, _⟩ => hnone c .refl (ClassRef.same_iff.2 ⟨rfl, rfl⟩)
  | _ => exact id

/-- An answer is yes exactly to an ancestor, and a failure exactly if a class is met that is being
resolved. -/
def Tells (h : Hierarchy m) (p : ClassRef → ScriptParent) (a b : TypeShape)
    (r : Except ResolvingBase Compatibility) : Prop :=
  (r = .ok .compatible ↔ h.Descends p a b) ∧ ((∃ e, r = .error e) ↔ MeetsResolving p a b)

theorem tells_of_same (hs : c.same d) : h.Tells p (.script d) (.script c) (.ok .compatible) :=
  ⟨iff_of_true rfl ⟨c, .refl, hs⟩,
    iff_of_false (fun ⟨_, he⟩ => nomatch he) fun ⟨hnone, _⟩ => hnone c .refl hs⟩

/-! ### The two walks -/

variable [Monad m]

theorem compatible_self (hrefl : ∀ a, h.descends a a) {t : StaticType} (ht : t.isSet) :
    h.compatible t t = pure (.ok .compatible) := by
  obtain ⟨shape, _, isMeta, _⟩ := t
  cases shape with
  | unresolved | resolving => cases ht
  | _ =>
    simp [compatible, compatibleShape, StaticType.isResolving, StaticType.isVariant,
      StaticType.isSet, chainHas, chainLimit, ClassRef.same, Compatibility.ofBool, hrefl,
      StaticType.sameAll_self fun t _ => t.same_self]

variable [LawfulMonad m] {n : Nat} (hp : ∀ c, h.parent c = pure (p c))
include hp

theorem chainHas_tells (target : ClassRef) (hc : EndsWithin p n c) :
    ∃ r, h.chainHas target (n + 1) c = pure r ∧ h.Tells p (.script target) (.script c) r := by
  induction hc with
  | @root n c hc =>
    by_cases hs : c.same target
    · exact ⟨_, by rw [chainHas, if_pos hs], tells_of_same hs⟩
    · rw [chainHas, if_neg hs, hp, pure_bind]
      cases hpc : p c with
      | script d => exact absurd hpc (hc d)
      | _ => exact ⟨_, rfl, by simp [Tells, Descends, MeetsResolving, above_of_root hc, hpc, hs]⟩
  | @link n c d hc _ ih =>
    by_cases hs : c.same target
    · exact ⟨_, by rw [chainHas, if_pos hs], tells_of_same hs⟩
    · obtain ⟨r, hr, hyes, hfails⟩ := ih
      rw [chainHas, if_neg hs, hp, pure_bind, hc]
      refine ⟨r, hr, hyes.trans ?_, hfails.trans ?_⟩ <;>
        simp [Descends, MeetsResolving, above_of_script hc, hc, hs, or_imp, forall_and]

theorem rootDescends_tells (target : String) (hc : EndsWithin p n c) :
    ∃ r, h.rootDescends target (n + 1) c = pure r ∧ h.Tells p (.native target) (.script c) r := by
  induction hc with
  | @root n c hc =>
    rw [rootDescends, hp, pure_bind]
    cases hpc : p c with
    | script d => exact absurd hpc (hc d)
    | _ =>
      exact ⟨_, rfl, by
        simp [Tells, Descends, MeetsResolving, above_of_root hc, hpc, Compatibility.ofBool]⟩
  | @link n c d hc _ ih =>
    obtain ⟨r, hr, hyes, hfails⟩ := ih
    rw [rootDescends, hp, pure_bind, hc]
    refine ⟨r, hr, hyes.trans ?_, hfails.trans ?_⟩ <;>
      simp [Descends, MeetsResolving, above_of_script hc, hc]

/-! ### The check -/

variable (hends : ∀ c, EndsWithin p 255 c)
include hends

theorem compatibleShape_tells (a b : TypeShape) : ∃ r, h.compatibleShape a b = pure r ∧
    (a.IsClass → b.IsClass → (r = .ok .compatible ↔ h.Descends p a b)) ∧
    ((∃ e, r = .error e) ↔ MeetsResolving p a b) := by
  unfold compatibleShape
  split
  case h_7 c d =>
    obtain ⟨r, hr, hyes, hfails⟩ := rootDescends_tells hp c (hends d)
    exact ⟨r, hr, fun _ _ => hyes, hfails⟩
  case h_9 c d =>
    obtain ⟨r, hr, hyes, hfails⟩ := chainHas_tells hp c (hends d)
    exact ⟨r, hr, fun _ _ => hyes, hfails⟩
  all_goals exact ⟨_,
    rfl, by simp [TypeShape.IsClass, Descends, MeetsResolving, Compatibility.ofBool]⟩

theorem compatible_tells (t s : StaticType) : ∃ r, h.compatible t s = pure r ∧
    (t.shape.IsClass → s.shape.IsClass →
      (r = .ok .compatible ↔ t.isMeta = s.isMeta ∧ h.Descends p t.shape s.shape)) ∧
    ((∃ e, r = .error e) ↔ t.isResolving ∨ s.isResolving ∨
      t.isMeta = s.isMeta ∧ MeetsResolving p t.shape s.shape) := by
  obtain ⟨r, hr, hyes, hfails⟩ := compatibleShape_tells hp hends t.shape s.shape
  have hclass : MeetsResolving p t.shape s.shape → t.shape.IsClass ∧ s.shape.IsClass := by
    unfold MeetsResolving
    split <;> simp_all [TypeShape.IsClass]
  have ht := @StaticType.flags_of_isClass t
  have hs := @StaticType.flags_of_isClass s
  unfold compatible
  split
  · exact ⟨_, rfl, by grind, by grind⟩
  · split
    · exact ⟨_, rfl, by grind, by grind⟩
    · split
      · exact ⟨_, rfl, by grind, by grind⟩
      · split
        · exact ⟨_, rfl, by simp_all, by simp_all⟩
        · exact ⟨r, hr, by simp_all, by simp_all⟩

/-- Where native classes are ordered and script chains have fewer than 256 links, every check has an
answer. Between classes it is yes exactly for ancestors, be it of instances or of the classes
themselves; it is reflexive on known types and transitive on classes; and it is a failure exactly
where a type is just being found out, or the base of a class that has to be passed. -/
theorem compatible_decides_ancestry (hsame : ∀ a b : ClassRef, a.same b → p a = p b)
    (hrefl : ∀ a, h.descends a a) (htrans : ∀ a b c, h.descends a b → h.descends b c →
      h.descends a c) :
    ∃ answer : StaticType → StaticType → Except ResolvingBase Compatibility,
      (∀ t s, h.compatible t s = pure (answer t s)) ∧
      (∀ t s, t.shape.IsClass → s.shape.IsClass →
        (answer t s = .ok .compatible ↔ t.isMeta = s.isMeta ∧ h.Descends p t.shape s.shape)) ∧
      (∀ t, t.isSet → answer t t = .ok .compatible) ∧
      (∀ t s u, t.shape.IsClass → s.shape.IsClass → u.shape.IsClass →
        answer t s = .ok .compatible → answer s u = .ok .compatible →
        answer t u = .ok .compatible) ∧
      ∀ t s, (∃ e, answer t s = .error e) ↔ t.isResolving ∨ s.isResolving ∨
        t.isMeta = s.isMeta ∧ MeetsResolving p t.shape s.shape := by
  -- of a known type and itself the answer is known, whatever the monad identifies
  have hanswer (t s : StaticType) : ∃ r, h.compatible t s = pure r ∧
      (t.shape.IsClass → s.shape.IsClass →
        (r = .ok .compatible ↔ t.isMeta = s.isMeta ∧ h.Descends p t.shape s.shape)) ∧
      ((∃ e, r = .error e) ↔ t.isResolving ∨ s.isResolving ∨
        t.isMeta = s.isMeta ∧ MeetsResolving p t.shape s.shape) ∧
      (t = s → t.isSet → r = .ok .compatible) := by
    by_cases heq : t = s ∧ t.isSet
    · obtain ⟨rfl, hset⟩ := heq
      refine ⟨_, compatible_self hrefl hset, fun ht _ => iff_of_true rfl ⟨rfl, .refl hrefl ht⟩, ?_,
        fun _ _ => rfl⟩
      have hres : t.isResolving = false := by
        unfold StaticType.isResolving
        unfold StaticType.isSet at hset
        split <;> simp_all
      simp [hres, not_meetsResolving_self]
    · obtain ⟨r, hr, hyes, hfails⟩ := compatible_tells hp hends t s
      exact ⟨r, hr, hyes, hfails, fun hts hset => absurd ⟨hts, hset⟩ heq⟩
  choose answer hpure hyes hfails hself using hanswer
  refine ⟨answer, hpure, hyes, fun t => hself t t rfl, fun t s u ht hs hu hts hsu => ?_, hfails⟩
  obtain ⟨hmeta, hd⟩ := (hyes t s ht hs).1 hts
  obtain ⟨hmeta', hd'⟩ := (hyes s u hs hu).1 hsu
  exact (hyes t u ht hu).2 ⟨hmeta.trans hmeta', hd.trans hsame htrans hd'⟩

omit hp hends

def twoParents (c : ClassRef) : ScriptParent :=
  if c.qualified = "b" then .script ⟨"a", "a", "a", 0⟩ else .native "Node"

def twoClasses : Hierarchy Id where
  descends a b := a == b || (a == "Node" && b == "Object")
  parent c := pure (twoParents c)

theorem twoClasses_decides_ancestry :
    ∃ answer : StaticType → StaticType → Except ResolvingBase Compatibility,
      (∀ t s, twoClasses.compatible t s = pure (answer t s)) ∧
      answer (.script ⟨"a", "a", "a", 0⟩) (.script ⟨"b", "b", "b", 0⟩) = .ok .compatible ∧
      answer (.native "Object") (.script ⟨"b", "b", "b", 0⟩) = .ok .compatible := by
  have hup : Above twoParents ⟨"b", "b", "b", 0⟩ ⟨"a", "a", "a", 0⟩ := .single (by decide)
  have hends (c : ClassRef) : EndsWithin twoParents 255 c := by
    by_cases hc : c.qualified = "b"
    · exact .link (if_pos hc) (.root (by simp [twoParents]))
    · exact .root (by simp [twoParents, hc])
  obtain ⟨answer, hpure, hyes, -⟩ := compatible_decides_ancestry (h := twoClasses)
    (fun _ => rfl) hends
    (fun a b hab => by rw [twoParents, (ClassRef.same_iff.1 hab).2, twoParents])
    (by simp [twoClasses])
    (by simp only [twoClasses]; grind)
  exact ⟨answer, hpure, (hyes (.script _) (.script _) trivial trivial).2 ⟨rfl, _, hup, by decide⟩,
    (hyes (.native _) (.script _) trivial trivial).2 ⟨rfl, _, "Node", hup, by decide, by decide⟩⟩

end Hierarchy

end HotScript
