/-!
Finite maps that remember the order in which their keys arrived.

Writing to a key that is present replaces its entry where it stands; writing to a new key appends.
Everything the library keeps by name is kept in one of these, so that every listing has one order.
-/

namespace HotScript

/-- A finite map from `κ` to `ν` in insertion order. -/
structure Table (κ ν : Type) where
  entries : List (κ × ν) := []
deriving Repr, Inhabited

namespace Table

variable {κ ν : Type} [BEq κ]

def find? (t : Table κ ν) (k : κ) : Option ν :=
  t.entries.lookup k

def contains (t : Table κ ν) (k : κ) : Bool :=
  (t.find? k).isSome

/-- Replace the entry of `k` where it stands, or append one. -/
def put (k : κ) (v : ν) : List (κ × ν) → List (κ × ν)
  | [] => [(k, v)]
  | e :: rest => if k == e.1 then (k, v) :: rest else e :: put k v rest

def insert (t : Table κ ν) (k : κ) (v : ν) : Table κ ν :=
  ⟨put k v t.entries⟩

/-- Write `v` to `k` unless `k` has an entry. -/
def insertNew (t : Table κ ν) (k : κ) (v : ν) : Table κ ν :=
  if t.contains k then t else t.insert k v

def erase (t : Table κ ν) (k : κ) : Table κ ν :=
  ⟨t.entries.filter fun e => !(k == e.1)⟩

def modify (t : Table κ ν) (k : κ) (f : ν → ν) : Table κ ν :=
  match t.find? k with
  | some v => t.insert k (f v)
  | none => t

def merge (t other : Table κ ν) : Table κ ν :=
  other.entries.foldl (fun acc e => acc.insert e.1 e.2) t

omit [BEq κ] in
/-- The keys, oldest first. -/
def keys (t : Table κ ν) : List κ :=
  t.entries.map (·.1)

omit [BEq κ] in
def values (t : Table κ ν) : List ν :=
  t.entries.map (·.2)

omit [BEq κ] in
def size (t : Table κ ν) : Nat :=
  t.entries.length

/-- A table from a list of entries, later ones winning. -/
def ofList (entries : List (κ × ν)) : Table κ ν :=
  entries.foldl (fun acc e => acc.insert e.1 e.2) {}

/-! ### Reading after writing -/

variable [LawfulBEq κ] (t : Table κ ν) {j k : κ} (v : ν) {u : ν}

theorem lookup_put_self (k : κ) (l : List (κ × ν)) : (put k v l).lookup k = some v := by
  induction l with
  | nil => simp [put]
  | cons e rest ih =>
    obtain ⟨a, b⟩ := e
    by_cases h : k == a
    · simp [put, h]
    · simp only [Bool.not_eq_true] at h
      simp [put, h, List.lookup_cons, ih]

theorem lookup_put_of_ne (l : List (κ × ν)) (h : j ≠ k) : (put k v l).lookup j = l.lookup j := by
  have hjk : (j == k) = false := by simpa using h
  induction l with
  | nil => simp [put, List.lookup_cons, hjk]
  | cons e rest ih =>
    obtain ⟨a, b⟩ := e
    by_cases hk : k == a
    · have he : k = a := by simpa using hk
      subst he
      simp [put, List.lookup_cons, hjk]
    · simp only [Bool.not_eq_true] at hk
      simp [put, hk, List.lookup_cons, ih]

@[simp] theorem find?_insert_self (k : κ) : (t.insert k v).find? k = some v :=
  lookup_put_self v k t.entries

theorem find?_insert_of_ne (h : j ≠ k) : (t.insert k v).find? j = t.find? j :=
  lookup_put_of_ne v t.entries h

@[simp] theorem find?_erase_self (k : κ) : (t.erase k).find? k = none := by
  obtain ⟨entries⟩ := t
  rw [find?, erase]
  induction entries with
  | nil => rfl
  | cons e rest ih =>
    rw [List.filter_cons]
    split
    · next h =>
      rw [List.lookup_cons, show (k == e.1) = false by simpa using h]
      exact ih
    · exact ih

theorem find?_erase_of_ne (h : j ≠ k) : (t.erase k).find? j = t.find? j := by
  obtain ⟨entries⟩ := t
  rw [find?, find?, erase]
  induction entries with
  | nil => rfl
  | cons e rest ih =>
    rw [List.filter_cons, List.lookup_cons]
    split
    · rw [List.lookup_cons, ih]
    · next hk =>
      have hke : k = e.1 := by simpa using hk
      rw [ih, show (j == e.1) = false by simpa [← hke] using h]

theorem find?_modify_self (k : κ) (f : ν → ν) : (t.modify k f).find? k = (t.find? k).map f := by
  rw [modify]
  cases h : t.find? k with
  | none => simp [h]
  | some v => simp

theorem find?_modify_of_ne (f : ν → ν) (h : j ≠ k) : (t.modify k f).find? j = t.find? j := by
  rw [modify]
  cases t.find? k with
  | none => rfl
  | some v => exact find?_insert_of_ne t (f v) h

variable {t v}

omit [LawfulBEq κ] in
theorem mem_put {l : List (κ × ν)} {e : κ × ν} (h : e ∈ put k v l) : e = (k, v) ∨ e ∈ l := by
  induction l with
  | nil => simpa [put] using h
  | cons a rest ih =>
    rw [put] at h
    split at h
    · rcases List.mem_cons.1 h with rfl | h
      · exact .inl rfl
      · exact .inr (List.mem_cons_of_mem _ h)
    · rcases List.mem_cons.1 h with rfl | h
      · exact .inr List.mem_cons_self
      · exact (ih h).imp id (List.mem_cons_of_mem _)

omit [LawfulBEq κ] in
theorem mem_values_insert (h : u ∈ (t.insert k v).values) : u = v ∨ u ∈ t.values := by
  obtain ⟨e, he, rfl⟩ := List.mem_map.1 h
  rcases mem_put he with rfl | he
  · exact .inl rfl
  · exact .inr (List.mem_map.2 ⟨e, he, rfl⟩)

omit [LawfulBEq κ] in
theorem mem_values_erase (h : u ∈ (t.erase k).values) : u ∈ t.values := by
  obtain ⟨e, he, rfl⟩ := List.mem_map.1 h
  exact List.mem_map.2 ⟨e, (List.mem_filter.1 he).1, rfl⟩

omit [LawfulBEq κ] in
theorem find?_map {μ : Type} (t : Table κ ν) (f : ν → μ) (k : κ) :
    (Table.mk (t.entries.map fun e => (e.1, f e.2))).find? k = (t.find? k).map f := by
  obtain ⟨entries⟩ := t
  induction entries with
  | nil => rfl
  | cons e entries ih =>
    show List.lookup k ((e.1, f e.2) :: _) = (List.lookup k (e :: entries)).map f
    rw [List.lookup_cons, List.lookup_cons]
    cases k == e.1
    · exact ih
    · rfl

/-! ### Keys and entries -/

theorem mem_entries_of_find? (h : t.find? k = some v) : (k, v) ∈ t.entries := by
  obtain ⟨before, after, hentries, -⟩ := List.lookup_eq_some_iff.1 h
  rw [hentries]
  exact List.mem_append_right _ (.head _)

theorem mem_values_of_find? (h : t.find? k = some v) : v ∈ t.values :=
  List.mem_map_of_mem (mem_entries_of_find? h)

theorem find?_isSome_iff : (t.find? k).isSome ↔ k ∈ t.keys := by
  obtain ⟨entries⟩ := t
  rw [find?, keys]
  induction entries with
  | nil => simp
  | cons e rest ih =>
    obtain ⟨j, v⟩ := e
    rw [List.lookup_cons, List.map_cons, List.mem_cons]
    by_cases h : k = j
    · simp [h]
    · have hne : (k == j) = false := by simpa using h
      rw [hne]
      simp [h, ih]

theorem keys_put (k : κ) (v : ν) (l : List (κ × ν)) :
    (put k v l).map (·.1) = if (l.lookup k).isSome then l.map (·.1) else l.map (·.1) ++ [k] := by
  induction l with
  | nil => rfl
  | cons e rest ih =>
    obtain ⟨j, u⟩ := e
    rw [put, List.lookup_cons]
    by_cases h : k = j
    · simp [h]
    · have hne : (k == j) = false := by simpa using h
      simp only [hne, Bool.false_eq_true, if_false, List.map_cons, ih]
      split <;> rfl

theorem keys_insert (t : Table κ ν) (k : κ) (v : ν) :
    (t.insert k v).keys = if t.contains k then t.keys else t.keys ++ [k] :=
  keys_put k v t.entries

theorem nodup_keys_insert (k : κ) (v : ν) (h : t.keys.Nodup) : (t.insert k v).keys.Nodup := by
  rw [keys_insert]
  split
  · exact h
  · next hnew =>
    have hk : k ∉ t.keys := fun hmem => hnew (find?_isSome_iff.2 hmem)
    refine List.nodup_append.2 ⟨h, List.pairwise_singleton _ _, fun a ha b hb => ?_⟩
    rintro rfl
    exact hk (List.mem_singleton.1 hb ▸ ha)

theorem nodup_keys_insertNew (k : κ) (v : ν) (h : t.keys.Nodup) : (t.insertNew k v).keys.Nodup := by
  rw [insertNew]
  split
  · exact h
  · exact nodup_keys_insert k v h

theorem nodup_keys_modify (k : κ) (f : ν → ν) (h : t.keys.Nodup) : (t.modify k f).keys.Nodup := by
  rw [modify]
  split
  · exact nodup_keys_insert k _ h
  · exact h

theorem find?_insertNew (h : (t.insertNew k v).find? j = some u) :
    t.find? j = some u ∨ j = k ∧ u = v := by
  rw [insertNew] at h
  split at h
  · exact .inl h
  · by_cases hj : j = k
    · subst hj
      rw [find?_insert_self] at h
      exact .inr ⟨rfl, (Option.some.inj h).symm⟩
    · rw [find?_insert_of_ne t v hj] at h
      exact .inl h

theorem find?_insertNew_of_some (h : t.find? j = some u) : (t.insertNew k v).find? j = some u := by
  rw [insertNew]
  split
  · exact h
  · next hnew =>
    refine (find?_insert_of_ne t v fun hj => hnew ?_).trans h
    rw [contains, ← hj, h]
    rfl

theorem mem_entries_iff (h : t.keys.Nodup) : (k, v) ∈ t.entries ↔ t.find? k = some v := by
  obtain ⟨entries⟩ := t
  rw [find?]
  rw [keys] at h
  induction entries with
  | nil => simp
  | cons e rest ih =>
    obtain ⟨j, u⟩ := e
    obtain ⟨hj, hrest⟩ := List.nodup_cons.1 h
    rw [List.mem_cons, List.lookup_cons, ih hrest]
    by_cases hk : k = j
    · subst hk
      have hnone : rest.lookup k = none := by
        refine Option.not_isSome_iff_eq_none.1 fun hsome => hj ?_
        exact (find?_isSome_iff (t := ⟨rest⟩)).1 hsome
      simp [hnone, eq_comm]
    · have hne : (k == j) = false := by simpa using hk
      simp [hne, hk]

end Table

end HotScript
