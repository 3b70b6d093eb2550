import HotScript.Proofs.Live.Tracking

/-!
Which files are reloaded together, and in what order.

A file is affected by a change of others exactly if it refers to them, directly or not
(`Cache.mem_affected`). Those that are cached are taken in the order of their chains as they were
before.
-/

namespace HotScript

/-! ### The files that are affected -/

namespace Cache

/-- The number of files that are noted under others than those found. -/
def room (c : Cache) (found : List String) : Nat :=
  lengths (c.dependents.entries.filter fun e => !found.contains e.1)

theorem room_nil (c : Cache) : c.room [] = c.dependentCount := by
  simp [room, dependentCount, lengths, Table.values]

variable {c : Cache} {found pending paths : List String} {path p : String}

theorem room_append (h : path ∉ found) :
    c.room (found ++ [path]) + (c.dependentsOf path).length ≤ c.room found := by
  -- the entries of what is not found yet, as a record of their own
  have herase := dependentCount_erase
    { c with dependents := ⟨c.dependents.entries.filter fun e => !found.contains e.1⟩ } path
  have hlookup : (c.dependents.entries.filter fun e => !found.contains e.1).lookup path =
      c.dependents.entries.lookup path := by
    induction c.dependents.entries with
    | nil => rfl
    | cons e rest ih =>
      rw [List.filter_cons, List.lookup_cons]
      split
      · rw [List.lookup_cons, ih]
      · next he =>
        have hne : (path == e.1) = false := by
          rw [beq_eq_false_iff_ne]
          rintro rfl
          simp [h] at he
        rw [hne, ih]
  have hfilter : (c.dependents.entries.filter fun e => !(found ++ [path]).contains e.1) =
      (c.dependents.entries.filter fun e => !found.contains e.1).filter fun e =>
      !(path == e.1) := by
    rw [List.filter_filter]
    refine List.filter_congr fun e _ => ?_
    rw [List.contains_append, Bool.not_or, Bool.and_comm, List.contains_cons,
      List.contains_nil, Bool.or_false, BEq.comm]
  rw [room, hfilter]
  have hdeps : ({ c with dependents := ⟨c.dependents.entries.filter fun e =>
      !found.contains e.1⟩ } :
      Cache).dependentsOf path = c.dependentsOf path := congrArg (·.getD []) hlookup
  rw [hdeps] at herase
  exact herase

theorem Affects.found_or_pending (h : c.Affects p path)
    (hclosed : ∀ p ∈ found, ∀ q ∈ c.dependentsOf p, q ∈ found ∨ q ∈ pending) (hp : p ∈ found) :
    path ∈ found ∨ ∃ q ∈ pending, c.Affects q path := by
  induction h using Relation.ReflTransGen.head_induction_on with
  | refl => exact .inl hp
  | head hstep hrest ih =>
    rcases hclosed _ hp _ hstep with hfound | hpending
    · exact ih hfound
    · exact .inr ⟨_, hpending, hrest⟩

theorem mem_affectedFrom {n : Nat} (hroom : pending.length + c.room found ≤ n)
    (hclosed : ∀ p ∈ found, ∀ q ∈ c.dependentsOf p, q ∈ found ∨ q ∈ pending) (path : String) :
    path ∈ c.affectedFrom n pending found ↔ path ∈ found ∨ ∃ p ∈ pending, c.Affects p path := by
  induction n generalizing pending found with
  | zero =>
    obtain rfl : pending = [] := List.length_eq_zero_iff.1 (by omega)
    simp [affectedFrom]
  | succ n ih =>
    cases pending with
    | nil => simp [affectedFrom]
    | cons p pending =>
      rw [affectedFrom]
      rw [List.length_cons] at hroom
      split
      · next hmem =>
        have hmem : p ∈ found := by simpa using hmem
        have hclosed' : ∀ a ∈ found, ∀ q ∈ c.dependentsOf a, q ∈ found ∨ q ∈ pending := by
          intro a ha q hq
          rcases hclosed a ha q hq with hq | hq
          · exact .inl hq
          · rcases List.mem_cons.1 hq with rfl | hq
            · exact .inl hmem
            · exact .inr hq
        refine (ih (by omega) hclosed').trans ⟨fun h => h.imp id ?_, fun h => ?_⟩
        · rintro ⟨q, hq, hpath⟩
          exact ⟨q, List.mem_cons_of_mem _ hq, hpath⟩
        · rcases h with h | ⟨q, hq, hpath⟩
          · exact .inl h
          · rcases List.mem_cons.1 hq with rfl | hq
            · exact hpath.found_or_pending hclosed' hmem
            · exact .inr ⟨q, hq, hpath⟩
      · next hmem =>
        have hmem : p ∉ found := by simpa using hmem
        have hroom' := room_append (c := c) hmem
        have hclosed' : ∀ a ∈ found ++ [p], ∀ q ∈ c.dependentsOf a,
            q ∈ found ++ [p] ∨ q ∈ c.dependentsOf p ++ pending := by
          intro a ha q hq
          rcases List.mem_append.1 ha with ha | ha
          · rcases hclosed a ha q hq with hq | hq
            · exact .inl (List.mem_append_left _ hq)
            · rcases List.mem_cons.1 hq with rfl | hq
              · exact .inl (List.mem_append_right _ (List.mem_singleton.2 rfl))
              · exact .inr (List.mem_append_right _ hq)
          · rw [List.mem_singleton.1 ha] at hq
            exact .inr (List.mem_append_left _ hq)
        refine (ih (by rw [List.length_append]; omega) hclosed').trans ⟨fun h => ?_, fun h => ?_⟩
        · rcases h with h | ⟨q, hq, hpath⟩
          · rcases List.mem_append.1 h with h | h
            · exact .inl h
            · rw [List.mem_singleton.1 h]
              exact .inr ⟨p, (.head _), .refl⟩
          · rcases List.mem_append.1 hq with hq | hq
            · exact .inr ⟨p, (.head _), hpath.head hq⟩
            · exact .inr ⟨q, List.mem_cons_of_mem _ hq, hpath⟩
        · rcases h with h | ⟨q, hq, hpath⟩
          · exact .inl (List.mem_append_left _ h)
          · rcases List.mem_cons.1 hq with rfl | hq
            · rcases hpath.cases_head with rfl | ⟨b, hb, hpath⟩
              · exact .inl (List.mem_append_right _ (List.mem_singleton.2 rfl))
              · exact .inr ⟨b, List.mem_append_left _ hb, hpath⟩
            · exact .inr ⟨q, List.mem_append_right _ hq, hpath⟩

/-- Files are affected by changes of others exactly when they refer to them, directly or not. -/
theorem mem_affected : path ∈ c.affected paths ↔ ∃ p ∈ paths, c.Affects p path := by
  rw [affected, mem_affectedFrom (Nat.le_of_eq (by rw [room_nil]))
    fun _ hp => absurd hp List.not_mem_nil]
  simp

theorem nodup_affected (c : Cache) (paths : List String) : (c.affected paths).Nodup := by
  have hfrom (n : Nat) (pending : List String) {found : List String} (h : found.Nodup) :
      (c.affectedFrom n pending found).Nodup := by
    induction n generalizing pending found with
    | zero => exact h
    | succ n ih =>
      cases pending with
      | nil => exact h
      | cons p pending =>
        rw [affectedFrom]
        split
        · exact ih pending h
        · next hmem =>
          refine ih _ (List.nodup_append.2 ⟨h, List.nodup_singleton p, fun a ha b hb heq => ?_⟩)
          rw [heq, List.mem_singleton.1 hb] at ha
          simp [ha] at hmem
  exact hfrom _ _ List.nodup_nil

end Cache

/-! ### The order -/

namespace World

theorem mem_inReloadOrder {w : World} {paths : List String} {f : String × ScriptId}
    (h : f ∈ w.inReloadOrder paths) : w.cache.find? f.1 = some f.2 := by
  obtain ⟨path, -, hpath⟩ := List.mem_filterMap.1 (List.mem_mergeSort.1 h)
  obtain ⟨s, hs, rfl⟩ := Option.map_eq_some_iff.1 hpath
  exact hs

variable (w : World) (paths : List String)

theorem perm_inReloadOrder :
    ((w.inReloadOrder paths).map (·.1)).Perm (paths.filter fun p => (w.cache.find? p).isSome) := by
  have hmap : (paths.filterMap fun path => (w.cache.find? path).map (path, ·)).map (·.1) =
      paths.filter fun p => (w.cache.find? p).isSome := by
    induction paths with
    | nil => rfl
    | cons p paths ih => cases hp : w.cache.find? p <;> simp [hp, ih]
  rw [← hmap]
  exact (List.mergeSort_perm _ _).map _

end World

end HotScript
