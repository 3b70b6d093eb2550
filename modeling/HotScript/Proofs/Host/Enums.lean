import HotScript.Analysis.Naming
import HotScript.Proofs.Host.Forest

/-!
Enums of native classes.

The enum of a constant, the entries of the enum and the value of the constant are asked of the
nearest class that knows, each question for itself. They have answers together, but not always of
one class (`Registry.enum_queries_disagree`).
-/

namespace HotScript

/-! ### Tables from lists -/

namespace Table

variable {κ ν : Type} [BEq κ] {l : List (κ × ν)} {e : κ × ν}

theorem ofList_concat : ofList (l ++ [e]) = (ofList l).insert e.1 e.2 := by
  simp [ofList]

theorem mem_of_mem_ofList {o : κ × ν} (h : o ∈ (ofList l).entries) : o ∈ l := by
  induction l using List.reverseRecOn with
  | nil => cases h
  | append_singleton l e ih =>
    rw [ofList_concat] at h
    rcases mem_put h with rfl | h
    · simp
    · exact List.mem_append_left _ (ih h)

/-- Of the entries that are written, the last one of a key counts. -/
theorem find?_ofList [LawfulBEq κ] (k : κ) : (ofList l).find? k = l.reverse.lookup k := by
  induction l using List.reverseRecOn with
  | nil => rfl
  | append_singleton l e ih =>
    rw [ofList_concat, List.reverse_append, List.reverse_singleton, List.singleton_append]
    obtain ⟨j, v⟩ := e
    by_cases h : k = j
    · simp [h]
    · have hne : (k == j) = false := by simpa using h
      rw [find?_insert_of_ne _ _ h, ih, List.lookup_cons, hne]

end Table

theorem lookup_isSome_iff {κ ν : Type} [BEq κ] [LawfulBEq κ] {l : List (κ × ν)} {k : κ} :
    (l.reverse.lookup k).isSome ↔ k ∈ l.map (·.1) :=
  (Table.find?_isSome_iff (t := ⟨l.reverse⟩)).trans (by simp [Table.keys])

/-- A key that entries give one value has that value, from whichever end they are read. -/
theorem lookup_of_unique {κ ν : Type} [BEq κ] [LawfulBEq κ] {l : List (κ × ν)} {k : κ} {v : ν}
    (hv : (k, v) ∈ l) (h : ∀ u, (k, u) ∈ l → u = v) : l.lookup k = some v := by
  obtain ⟨u, hu⟩ := Option.isSome_iff_exists.1
    ((Table.find?_isSome_iff (t := ⟨l⟩)).2 (List.mem_map.2 ⟨_, hv, rfl⟩))
  rw [Table.find?] at hu
  obtain ⟨l1, l2, rfl, -⟩ := List.lookup_eq_some_iff.1 hu
  rw [hu, h u (by simp)]

/-! ### Registrations -/

/-- What a native class declares. -/
inductive NativeDecl
  | constant (name : String) (value : Int64)
  | enum (name : String) (values : EnumValues)

namespace NativeDecl

def values : NativeDecl → EnumValues
  | constant name value => [(name, value)]
  | enum _ values => values

def enum? : NativeDecl → Option (String × EnumValues)
  | constant .. => none
  | enum name values => some (name, values)

@[simp] theorem values_enum (e : String) (vs : EnumValues) : (enum e vs).values = vs := rfl

@[simp] theorem enum?_enum (e : String) (vs : EnumValues) : (enum e vs).enum? = some (e, vs) := rfl

def declare (c : NativeClass) : NativeDecl → NativeClass
  | constant name value => c.withConstant name value
  | enum name values => c.withEnum name values

end NativeDecl

/-- A class as it is given to a registry: what it declares in order, and the rest of it. -/
structure Registration where
  host : NativeClass
  decls : List NativeDecl

namespace Registration

variable {n : String} {vs : EnumValues}

def native (g : Registration) : NativeClass :=
  g.decls.foldl NativeDecl.declare { g.host with constants := {}, enums := {} }

theorem native_tables (g : Registration) :
    g.native.constants = .ofList (g.decls.flatMap (·.values)) ∧
      g.native.enums = .ofList (g.decls.filterMap (·.enum?)) := by
  obtain ⟨host, decls⟩ := g
  rw [native]
  induction decls using List.reverseRecOn with
  | nil => exact ⟨rfl, rfl⟩
  | append_singleton ds d ih =>
    obtain ⟨hc, he⟩ := ih
    simp only [List.foldl_append, List.foldl_cons, List.foldl_nil] at hc he ⊢
    cases d with
    | constant n v => simp_all [NativeDecl.declare, NativeClass.withConstant, NativeDecl.values,
        NativeDecl.enum?, Table.ofList]
    | enum n vs => simp_all [NativeDecl.declare, NativeClass.withEnum, NativeDecl.values,
        NativeDecl.enum?, Table.ofList]

theorem native_covered (g : Registration) {e : String}
    (he : (e, vs) ∈ g.native.enums.entries) (hn : n ∈ vs.map (·.1)) :
    (g.native.constants.find? n).isSome := by
  rw [g.native_tables.2] at he
  obtain ⟨d, hd, hde⟩ := List.mem_filterMap.1 (Table.mem_of_mem_ofList he)
  obtain ⟨p, hp, rfl⟩ := List.mem_map.1 hn
  have hvs : d.values = vs := by
    cases d with
    | constant m v => cases hde
    | enum f ws =>
      cases hde
      rfl
  rw [g.native_tables.1, Table.find?_ofList]
  exact lookup_isSome_iff.2 (List.mem_map.2 ⟨p, List.mem_flatMap.2 ⟨d, hd, hvs ▸ hp⟩, rfl⟩)

/-- The last that a class says about the constant `n` and the enum `e` is an enum that gives `n` one
value. -/
def Settles (g : Registration) (n e : String) (vs : EnumValues) (v : Int64) : Prop :=
  ∃ before after, g.decls = before ++ .enum e vs :: after ∧
    n ∉ (after.flatMap (·.values)).map (·.1) ∧ e ∉ (after.filterMap (·.enum?)).map (·.1) ∧
    (n, v) ∈ vs ∧ ∀ u, (n, u) ∈ vs → u = v

theorem Settles.find? {g : Registration} {e : String} {v : Int64} (h : g.Settles n e vs v) :
    g.native.constants.find? n = some v ∧ g.native.enums.find? e = some vs ∧
    vs.lookup n = some v := by
  obtain ⟨before, after, hd, hn, he, hv, hone⟩ := h
  have hlast : vs.reverse.lookup n = some v :=
    lookup_of_unique (List.mem_reverse.2 hv) fun u hu => hone u (List.mem_reverse.1 hu)
  rw [← lookup_isSome_iff, Option.not_isSome_iff_eq_none] at hn he
  rw [g.native_tables.1, g.native_tables.2, Table.find?_ofList, Table.find?_ofList, hd]
  refine ⟨?_, ?_, lookup_of_unique hv hone⟩
  · simp [List.lookup_append, hn, hlast]
  · simp [List.lookup_append, he]

end Registration

/-! ### The three questions -/

namespace Registry

variable {gs : List Registration}

def register (r : Registry) (g : Registration) : Registry :=
  (r.addClass g.native).toOption.getD r

def registered (host : Registry) (gs : List Registration) : Registry :=
  gs.foldl register { host with classes := [] }

theorem exists_native {host : Registry} {c : NativeClass}
    (hc : c ∈ (registered host gs).classes) : ∃ g : Registration, c = g.native := by
  have hadded : registered host gs = added host (gs.map (·.native)) := by
    rw [added, List.foldl_map]
    rfl
  obtain ⟨g, -, rfl⟩ := List.mem_map.1 ((rooted_added host _).2 (hadded ▸ hc))
  exact ⟨g, rfl⟩

/-- Before the class that settles the constant `n` and the enum `e` nothing in the ancestry has
either. -/
def Clear (r : Registry) (cls n e : String) : Prop :=
  ∃ near, ∃ g : Registration, ∃ far vs v, r.ancestry cls = near ++ g.native :: far ∧
    g.Settles n e vs v ∧ ∀ c ∈ near, c.constants.find? n = none ∧ c.enums.find? e = none

variable {r host : Registry} {cls n e : String}

theorem Clear.answers (h : r.Clear cls n e) :
    ∃ vs v, r.enum? cls e = some vs ∧ r.constant? cls n = some v ∧ vs.lookup n = some v := by
  obtain ⟨near, g, far, vs, v, ha, hg, hnear⟩ := h
  obtain ⟨hc, he, hv⟩ := hg.find?
  refine ⟨vs, v, ?_, ?_, hv⟩
  · rw [enum?, nearest?, ha, List.findSome?_append, List.findSome?_eq_none_iff.2 fun c h =>
      (hnear c h).2]
    simp [he]
  · rw [constant?, nearest?, ha, List.findSome?_append, List.findSome?_eq_none_iff.2 fun c h =>
      (hnear c h).1]
    simp [hc]

/-- A constant that has an enum has a value, and the enum has entries. -/
theorem answers_of_enumOf? (h : (registered host gs).enumOf? cls n = some e) :
    ((registered host gs).enum? cls e).isSome ∧ ((registered host gs).constant? cls n).isSome := by
  rw [enumOf?, nearest?] at h
  obtain ⟨c, hc, hce⟩ := List.exists_of_findSome?_eq_some h
  obtain ⟨⟨e, vs⟩, ho, rfl⟩ := Option.map_eq_some_iff.1 hce
  obtain ⟨g, rfl⟩ := exists_native ((ancestryIn_sublist ..).mem hc)
  have hmem := List.mem_of_find?_eq_some ho
  have hn : n ∈ vs.map (·.1) := by simpa using List.find?_some ho
  constructor
  · rw [enum?, nearest?, List.findSome?_isSome_iff]
    exact ⟨_, hc, Table.find?_isSome_iff.2 (List.mem_map.2 ⟨_, hmem, rfl⟩)⟩
  · rw [constant?, nearest?, List.findSome?_isSome_iff]
    exact ⟨_, hc, g.native_covered hmem hn⟩

/-- If a constant has an enum then the enum has entries and the constant a value, and the analysis
takes the two together; the value is that of the entry if nothing nearer or later has either
name. -/
theorem enum_queries_agree (host : Registry) (gs : List Registration) (cls n e : String)
    (h : (registered host gs).enumOf? cls n = some e) :
    ∃ vs v, (registered host gs).enum? cls e = some vs ∧
      (registered host gs).constant? cls n = some v ∧
      (∀ d : Desk, d.work.registry = registered host gs →
        ∃ facts, Analyze.nativeMember cls n d = some (some facts, d) ∧
        facts.type = .enum e cls vs ∧ facts.value = some (.int v)) ∧
      ((registered host gs).Clear cls n e → vs.lookup n = some v) := by
  obtain ⟨hvs, hv⟩ := answers_of_enumOf? h
  obtain ⟨vs, hvs⟩ := Option.isSome_iff_exists.1 hvs
  obtain ⟨v, hv⟩ := Option.isSome_iff_exists.1 hv
  refine ⟨vs, v, hvs, hv, fun d hd => ?_, fun hclear => ?_⟩
  · refine ⟨{ type := .enum e cls vs, value := some (.int v),
              referent := some (.nativeConstant cls) }, ?_, rfl, rfl⟩
    rw [← hd] at h hvs hv
    simp [Analyze.nativeMember, Analyze.registry, get, getThe, MonadStateOf.get, StateT.get, bind,
      StateT.bind, pure, StateT.pure, h, hvs, hv]
  · obtain ⟨ws, u, hws, hu, hlook⟩ := hclear.answers
    cases hvs.symm.trans hws
    cases hv.symm.trans hu
    exact hlook

/-- A constant of a derived class stands before the entry of an enum of its base. -/
def shadowed : List Registration :=
  [⟨{ name := "Base" }, [.enum "E" [("A", 1)]]⟩,
    ⟨{ name := "Derived", parent := some "Base" }, [.constant "A" 5, .constant "B" 2]⟩]

theorem enum_queries_agree_base : (registered {} shadowed).enumOf? "Base" "A" = some "E" ∧
    ∃ vs v, (registered {} shadowed).enum? "Base" "E" = some vs ∧
      (registered {} shadowed).constant? "Base" "A" = some v ∧ vs.lookup "A" = some v := by
  have h : (registered {} shadowed).enumOf? "Base" "A" = some "E" := by decide +kernel
  obtain ⟨vs, v, hvs, hv, -, hagree⟩ := enum_queries_agree {} shadowed "Base" "A" "E" h
  refine ⟨h, vs, v, hvs, hv, hagree ?_⟩
  refine ⟨[], shadowed.get ⟨0, by decide⟩, [], [("A", 1)], 1, rfl, ⟨[], [], rfl, ?_⟩, nofun⟩
  refine ⟨nofun, nofun, .head _, fun u hu => ?_⟩
  simpa using hu

theorem enum_queries_disagree : ¬ ∀ (host : Registry) (gs : List Registration) (cls n e : String),
    (registered host gs).enumOf? cls n = some e → ∃ vs v, (registered host gs).enum?
    cls e = some vs ∧
      (registered host gs).constant? cls n = some v ∧ vs.lookup n = some v := by
  intro hall
  obtain ⟨vs, v, hvs, hv, h⟩ := hall {} shadowed "Derived" "A" "E" (by decide +kernel)
  have hvs' : (registered {} shadowed).enum? "Derived" "E" = some [("A", 1)] := by decide +kernel
  have hv' : (registered {} shadowed).constant? "Derived" "A" = some 5 := by decide +kernel
  rw [hvs', Option.some.injEq] at hvs
  rw [hv', Option.some.injEq] at hv
  subst hvs hv
  exact absurd h (by decide)

end Registry

end HotScript
