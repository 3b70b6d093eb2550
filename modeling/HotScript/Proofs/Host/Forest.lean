import HotScript.Host.Registry
import Mathlib

/-!
The forest of native classes.

No name comes twice, and a parent comes before its classes. So an ancestry is a part of the list of
classes, and what is above a member of it is a suffix of it.
-/

namespace HotScript.Registry

/-- The registry after a call, which leaves it as it is if the class is refused. -/
def adding (r : Registry) (c : NativeClass) : Registry :=
  (r.addClass c).toOption.getD r

def added (host : Registry) (cs : List NativeClass) : Registry :=
  cs.foldl adding { host with classes := [] }

theorem added_concat (host : Registry) (cs : List NativeClass) (c : NativeClass) :
    added host (cs ++ [c]) = (added host cs).adding c :=
  List.foldl_concat ..

theorem hasClass_iff {r : Registry} {n : String} : r.hasClass n ↔ ∃ c ∈ r.classes, c.name = n := by
  simp [hasClass, class?]

theorem adding_cases (r : Registry) (c : NativeClass) :
    (∃ fault, r.addClass c = .error fault) ∧ r.adding c = r ∧
        (r.hasClass c.name ∨ ∃ p, c.parent = some p ∧ r.hasClass p = false) ∨
      r.addClass c = .ok (r.adding c) ∧ (r.adding c).classes = c :: r.classes ∧
        r.hasClass c.name = false ∧ ∀ p, c.parent = some p → r.hasClass p := by
  unfold adding addClass
  split
  · exact .inl ⟨⟨_, rfl⟩, rfl, .inl ‹_›⟩
  · cases c.parent with
    | none => simp_all [Except.toOption]
    | some p => by_cases hp : r.hasClass p <;> simp_all [Except.toOption]

/-- Newest first, every class has a new name and an older parent. -/
inductive Rooted : List NativeClass → Prop
  | nil : Rooted []
  | cons {c : NativeClass} {older : List NativeClass} (hname : ∀ d ∈ older, d.name ≠ c.name)
      (hparent : ∀ p, c.parent = some p → ∃ d ∈ older, d.name = p) (h : Rooted older) :
      Rooted (c :: older)

theorem rooted_added (host : Registry) (cs : List NativeClass) :
    Rooted (added host cs).classes ∧ (added host cs).classes ⊆ cs := by
  induction cs using List.reverseRecOn with
  | nil => exact ⟨.nil, nofun⟩
  | append_singleton cs c ih =>
    have hold : (added host cs).classes ⊆ cs ++ [c] := fun d hd => List.mem_append_left _ (ih.2 hd)
    rw [added_concat]
    rcases (added host cs).adding_cases c with ⟨-, heq, -⟩ | ⟨-, hclasses, hname, hparent⟩
    · rw [heq]
      exact ⟨ih.1, hold⟩
    · rw [hclasses]
      refine ⟨.cons (fun d hd hn => ?_) (fun p hp => hasClass_iff.1 (hparent p hp)) ih.1,
        List.cons_subset.2 ⟨by simp, hold⟩⟩
      exact Bool.false_ne_true (hname.symm.trans (hasClass_iff.2 ⟨d, hd, hn⟩))

/-! ### Ancestries -/

theorem ancestryIn_sublist (cs : List NativeClass) (n : String) : (ancestryIn cs n).Sublist cs := by
  induction cs generalizing n with
  | nil => exact .slnil
  | cons c older ih =>
    rw [ancestryIn]
    split
    · cases c.parent with
      | none => exact (List.nil_sublist _).cons_cons c
      | some p => exact (ih p).cons_cons c
    · exact (ih n).cons c

theorem head?_ancestryIn (cs : List NativeClass) (n : String) :
    (ancestryIn cs n).head? = cs.find? (·.name == n) := by
  induction cs with
  | nil => rfl
  | cons c older ih =>
    rw [ancestryIn]
    split <;> simp_all

theorem exists_head {cs : List NativeClass} {n : String} (h : ∃ c ∈ cs, c.name = n) :
    ∃ c rest, ancestryIn cs n = c :: rest ∧ c.name = n := by
  have hsome : (cs.find? (·.name == n)).isSome := by simpa using h
  obtain ⟨c, hc⟩ := Option.isSome_iff_exists.1 hsome
  obtain ⟨rest, hrest⟩ := List.head?_eq_some_iff.1 ((head?_ancestryIn cs n).trans hc)
  exact ⟨c, rest, hrest, by simpa using List.find?_some hc⟩

theorem isChain_ancestryIn (cs : List NativeClass) (n : String) :
    (ancestryIn cs n).IsChain fun c d => c.parent = some d.name := by
  induction cs generalizing n with
  | nil => exact .nil
  | cons c older ih =>
    rw [ancestryIn]
    split
    · cases hp : c.parent with
      | none => exact .singleton _
      | some p =>
        refine List.isChain_cons.2 ⟨fun d hd => ?_, ih p⟩
        have hname := List.find?_some ((head?_ancestryIn older p).symm.trans hd)
        rw [hp, beq_iff_eq.1 hname]
    · exact ih n

namespace Rooted

variable {cs : List NativeClass} {d : NativeClass} {n : String}

theorem nodup (h : Rooted cs) : (cs.map (·.name)).Nodup := by
  induction h with
  | nil => exact .nil
  | cons hname _ _ ih => exact List.nodup_cons.2 ⟨by simpa using hname, ih⟩

/-- What is above an ancestor is above the class, in the same order. -/
theorem suffix_of_mem (h : Rooted cs) (hd : d ∈ ancestryIn cs n) :
    ancestryIn cs d.name <:+ ancestryIn cs n := by
  induction h generalizing n with
  | nil => cases hd
  | @cons c older hname _ _ ih =>
    have hup {m : String} (hm : d ∈ ancestryIn older m) :
        ancestryIn (c :: older) d.name <:+ ancestryIn older m := by
      simpa [ancestryIn, (hname d ((ancestryIn_sublist ..).mem hm)).symm] using ih hm
    rw [ancestryIn] at hd
    split at hd
    next hn =>
      rcases List.mem_cons.1 hd with rfl | hd
      · simp [ancestryIn, hn]
      · cases hp : c.parent with
        | none => simp [hp] at hd
        | some p => simpa [ancestryIn, hn,
            hp] using (hup (by simpa [hp] using hd)).trans (List.suffix_cons ..)
    next hn => simpa [ancestryIn, hn] using hup hd

theorem parent_of_getLast? (h : Rooted cs) (hd : d ∈ (ancestryIn cs n).getLast?) :
    d.parent = none := by
  induction h generalizing n with
  | nil => cases hd
  | @cons c older _ hparent _ ih =>
    rw [ancestryIn] at hd
    split at hd
    · cases hp : c.parent with
      | none =>
        obtain rfl : c = d := by simpa [hp] using hd
        exact hp
      | some p =>
        obtain ⟨e, rest, he, -⟩ := exists_head (hparent p hp)
        exact ih (n := p) (by simpa [hp, he, List.getLast?_cons_cons] using hd)
    · exact ih hd

end Rooted

/-! ### The order of classes -/

/-- An ancestry goes from a class to its parent up to a class without one. To be above is an order
in which what is above a class is a chain, and questions are answered by the nearest class that
can. -/
structure IsForest (r : Registry) : Prop where
  head? (n : String) : (r.ancestry n).head? = r.class? n
  linked (n : String) : (r.ancestry n).IsChain fun c d => c.parent = some d.name
  nodup (n : String) : ((r.ancestry n).map (·.name)).Nodup
  root (n : String) (hn : r.hasClass n) : ∃ c ∈ r.classes, (r.ancestry n).getLast? = some c ∧
    c.parent = none
  order : IsPartialOrder { n // r.hasClass n } fun a b => r.descends a b
  chain (n : String) : IsChain (fun a b : { n // r.hasClass n } => r.descends a b)
    { a | r.descends n a }
  nearest? {α : Type} (n : String) (f : NativeClass → Option α) (v : α) : r.nearest? n f = some v ↔
    ∃ near c far, r.ancestry n = near ++ c :: far ∧ f c = some v ∧ ∀ d ∈ near, f d = none

variable {r : Registry} {a b : String}

theorem exists_ancestry (hb : r.hasClass b) : ∃ c rest, r.ancestry b = c :: rest ∧ c.name = b :=
  exists_head (hasClass_iff.1 hb)

theorem Rooted.suffix_iff (h : Rooted r.classes) (hb : r.hasClass b) :
    r.descends a b ↔ r.ancestry b <:+ r.ancestry a := by
  constructor
  · intro hab
    obtain ⟨c, hc, rfl⟩ : ∃ c ∈ r.ancestry a, c.name = b := by simpa [descends] using hab
    exact h.suffix_of_mem hc
  · intro hab
    obtain ⟨c, rest, hc, rfl⟩ := exists_ancestry hb
    simpa [descends] using ⟨c, hab.mem (hc ▸ .head _), rfl⟩

theorem Rooted.isForest (h : Rooted r.classes) : r.IsForest where
  head? := head?_ancestryIn r.classes
  linked := isChain_ancestryIn r.classes
  nodup n := ((ancestryIn_sublist r.classes n).map _).nodup h.nodup
  root n hn := by
    obtain ⟨c, rest, hc, -⟩ := exists_ancestry hn
    have hne : r.ancestry n ≠ [] := by simp [hc]
    have hlast := List.getLast?_eq_some_getLast hne
    exact ⟨_, (ancestryIn_sublist ..).mem (List.getLast_mem hne), hlast, h.parent_of_getLast? hlast⟩
  order := {
    refl a := (h.suffix_iff a.2).2 List.suffix_rfl
    trans a b c hab hbc :=
      (h.suffix_iff c.2).2 (((h.suffix_iff c.2).1 hbc).trans ((h.suffix_iff b.2).1 hab))
    antisymm a b hab hba := by
      have hle := (h.suffix_iff b.2).1 hab
      have heq := ((h.suffix_iff a.2).1 hba).eq_of_length_le hle.length_le
      obtain ⟨c, rest, hc, hca⟩ := exists_ancestry a.2
      obtain ⟨d, more, hd, hdb⟩ := exists_ancestry b.2
      rw [hc, hd, List.cons.injEq] at heq
      exact Subtype.ext (hca.symm.trans (heq.1 ▸ hdb)) }
  chain n a ha b hb _ :=
    (List.suffix_or_suffix_of_suffix ((h.suffix_iff b.2).1 hb) ((h.suffix_iff a.2).1 ha)).imp
      (h.suffix_iff b.2).2 (h.suffix_iff a.2).2
  nearest? n f v := by simp [nearest?, List.findSome?_eq_some_iff]

/-- After any calls the classes are a forest of classes that were given. A class is refused, and
nothing changes, exactly if its name is taken or its parent unknown. -/
theorem native_classes_form_forest (host : Registry) (cs : List NativeClass) :
    (added host cs).IsForest ∧ (added host cs).classes ⊆ cs ∧ ∀ c,
      (((∃ fault, (added host cs).addClass c = .error fault) ↔ (added host cs).hasClass c.name ∨
        ∃ p, c.parent = some p ∧ (added host cs).hasClass p = false) ∧
      (∀ fault, (added host cs).addClass c = .error fault →
        added host (cs ++ [c]) = added host cs) ∧
      ∀ r, (added host cs).addClass c = .ok r →
        added host (cs ++ [c]) = r ∧ r.class? c.name = some c) := by
  refine ⟨(rooted_added host cs).1.isForest, (rooted_added host cs).2, fun c => ?_⟩
  rw [added_concat]
  rcases (added host cs).adding_cases c with ⟨⟨f, hf⟩, heq, hwhy⟩ | ⟨hok, hclasses, hname, hparent⟩
  · simp [hf, heq, hwhy]
  · have hnew : ((added host cs).adding c).class? c.name = some c := by simp [class?, hclasses]
    simpa [hok, hnew, hname] using hparent

end HotScript.Registry
