import HotScript.Proofs.Analysis.Later
import HotScript.Proofs.Value.Folding

/-!
What is known about an enum.

The entries of an enum are kept twice: in its type, as a list in the order of their declaration, and
as a constant dictionary (`DictCell.Spells`), in which the last entry of a name counts.
-/

namespace HotScript

/-- Values for the entries of an enum: one that is given none has the next number. -/
def EnumValueDecl.Numbers : List EnumValueDecl → Int64 → EnumValues → Prop
  | [], _, vs => vs = []
  | d :: ds, next, vs =>
    ∃ v rest, vs = (d.name.name, v) :: rest ∧ (d.value = none → v = next) ∧ Numbers ds (v + 1) rest

/-- A read-only dictionary of entries, of which the last one of a name counts. -/
def DictCell.Spells (c : DictCell) (values : EnumValues) : Prop :=
  c.readOnly = true ∧ c.entries = (Table.ofList values).entries.map fun e => (.string e.1, .int e.2)

namespace Heap

variable {h : Heap}

theorem putEntry_names (n : String) (i : Int64) (l : EnumValues) :
    putEntry h.equal (.string n) (.int i) (l.map fun e => (.string e.1, .int e.2)) =
      (Table.put n i l).map fun e => (.string e.1, .int e.2) := by
  have heq (m : String) : h.equal (.string m) (.string n) = (m == n) := by
    simp [equal, equalWithin]
  induction l with
  | nil => rfl
  | cons e l ih =>
    rw [List.map_cons, putEntry, Table.put, heq, ih, BEq.comm]
    split
    · next hn => rw [List.map_cons, eq_of_beq hn]
    · rfl

theorem spells_enumDict (h : Heap) (values : EnumValues) :
    ((h.enumDict values).2.dict (h.enumDict values).1).Spells values := by
  let d : DictRef := ⟨h.dicts.size⟩
  -- While it is filled the dictionary is writable and has the entries of a table.
  have hfill (g : Heap) (t : Table String Int64) (hd : d.id < g.dicts.size)
      (hg : g.dict d = { entries := t.entries.map fun e => (.string e.1, .int e.2) }) :
      let g' := (values.map fun e => (.string e.1, .int e.2)).foldl (fun h e =>
          (h.insertDict d e.1 e.2).2) g
      d.id < g'.dicts.size ∧ g'.dict d =
        { entries := (values.foldl (fun acc e => acc.insert e.1 e.2) t).entries.map
            fun e => (.string e.1, .int e.2) } := by
    induction values generalizing g t with
    | nil => exact ⟨hd, hg⟩
    | cons e values ih =>
      refine ih _ _ ?_ ?_
      · simpa [insertDict, hg, setDict] using hd
      · dsimp only
        rw [insertDict_eq (by rw [hg]), dict_setDict hd, if_pos rfl, entries, hg, putEntry_names]
        rfl
  obtain ⟨hd, hg⟩ := hfill (h.newDict {}).2 {} (by simp [newDict, d])
    (by rw [dict_newDict, if_pos rfl]; rfl)
  have hcell : (h.enumDict values).2.dict (h.enumDict values).1 = _ :=
    (dict_setDict hd _ d).trans (if_pos rfl)
  exact ⟨by rw [hcell], (congrArg DictCell.entries hcell).trans (congrArg DictCell.entries hg)⟩

end Heap

/-- The facts about an enum have its entries twice: in the type and in a dictionary. -/
def MemberFacts.Enumerates (m : MemberFacts) (d : EnumDecl) (h : Heap) : Prop :=
  ∃ owner values dict, m.type = (StaticType.enum d.name.name owner values).toMeta ∧
    m.value = some (.dictionary dict) ∧ EnumValueDecl.Numbers d.values 0 values ∧
    (h.dict dict).Spells values

def FileUnit.Enumerated (u : FileUnit) (h : Heap) : Prop :=
  ∀ ⦃t id decl c name m d⦄, u.tree = some t → t.class? id = some decl → u.classes[id]? = some c →
    c.members.find? name = some m → decl.members[m.index]? = some (.enum d) → m.Enumerates d h

theorem FileUnit.Enumerated.modifyClass {u : FileUnit} {h : Heap} (hu : u.Enumerated h)
    {id : ClassId} {f : ClassFacts → ClassFacts}
    (hf : ∀ c name m, (f c).members.find? name = some m →
      (∃ m0, c.members.find? name = some m0 ∧ m0.Kept m) ∨ ∀ t decl d, u.tree = some t →
        t.class? id = some decl → decl.members[m.index]? = some (.enum d) → m.Enumerates d h) :
    (u.modifyClass id f).Enumerated h := by
  intro t j decl c name m d ht hdecl hc hm hd
  rw [FileUnit.classes_modifyClass] at hc
  split at hc
  · next hid =>
    obtain ⟨c0, hc0, rfl⟩ := Option.map_eq_some_iff.1 hc
    subst hid
    rcases hf c0 name m hm with ⟨m0, hm0, hkept⟩ | hnew
    · obtain ⟨owner, values, dict, htype, hvalue, hrest⟩ := hu ht hdecl hc0 hm0 (hkept.index ▸ hd)
      exact ⟨owner, values, dict, hkept.type.trans htype, hkept.value.trans hvalue, hrest⟩
    · exact hnew t decl d ht hdecl hd
  · exact hu ht hdecl hc hm hd

end HotScript
