import HotScript.Proofs.Analysis.Discipline

/-!
The two readings of an enum.

A name after an enum is folded from the enum's dictionary where the enum is known, and read off its
type where only that is. An enum may declare an entry twice, and then the two differ.
-/

namespace HotScript

/-! ### Reading a dictionary -/

theorem Table.put_of_notMem {κ ν : Type} [BEq κ] [LawfulBEq κ] {k : κ} {v : ν} {l : List (κ × ν)}
    (h : k ∉ l.map (·.1)) : Table.put k v l = l ++ [(k, v)] := by
  induction l with
  | nil => rfl
  | cons e l ih =>
    rw [List.map_cons, List.mem_cons, not_or] at h
    rw [Table.put, if_neg (by simpa using h.1), ih h.2, List.cons_append]

theorem Table.entries_ofList {κ ν : Type} [BEq κ] [LawfulBEq κ] {l : List (κ × ν)}
    (h : (l.map (·.1)).Nodup) : (Table.ofList l).entries = l := by
  have hfold (t : Table κ ν) (ht : (t.entries.map (·.1) ++ l.map (·.1)).Nodup) :
      (l.foldl (fun acc e => acc.insert e.1 e.2) t).entries = t.entries ++ l := by
    clear h
    induction l generalizing t with
    | nil => exact (List.append_nil _).symm
    | cons e l ih =>
      have hput : (t.insert e.1 e.2).entries = t.entries ++ [e] :=
        Table.put_of_notMem fun hmem => (List.nodup_append.1 ht).2.2 _ hmem e.1 (by simp) rfl
      rw [List.foldl_cons, ih _ (by simpa [hput] using ht), hput, List.append_assoc,
        List.singleton_append]
  exact hfold {} h

theorem EnumValueDecl.Numbers.names {ds : List EnumValueDecl} {next : Int64} {values : EnumValues}
    (h : Numbers ds next values) : values.map (·.1) = ds.map (·.name.name) := by
  induction ds generalizing next values with
  | nil =>
    cases h
    rfl
  | cons d ds ih =>
    obtain ⟨v, rest, rfl, -, hrest⟩ := h
    rw [List.map_cons, List.map_cons, ih hrest]

theorem DictCell.Spells.foldField? {h : Heap} {d : DictRef} {values : EnumValues}
    (hd : (h.dict d).Spells values) (hn : (values.map (·.1)).Nodup) (n : String) :
    h.foldField? (.dictionary d) n = (values.lookup n).map .int := by
  have hlookup (k : Value) (hk : ∀ m, h.equal (.string m) k = (m == n)) :
      h.lookupDict d k = (values.lookup n).map .int := by
    rw [Heap.lookupDict, Heap.entries, hd.2, Table.entries_ofList hn]
    clear hn hd
    induction values with
    | nil => rfl
    | cons e values ih =>
      rw [List.map_cons, List.find?_cons, List.lookup_cons, hk, BEq.comm]
      cases n == e.1 with
      | true => rfl
      | false => exact ih
  rw [Heap.foldField?, hlookup _ fun m => by simp [Heap.equal, Heap.equalWithin],
    hlookup _ fun m => by simp [Heap.equal, Heap.equalWithin]]
  cases values.lookup n <;> rfl

/-! ### What happens to a unit -/

section

variable {u : FileUnit} {h g : Heap}

theorem FileUnit.enumerated_of_tree (hu : u.tree = none) : u.Enumerated h := by
  intro t _ _ _ _ _ _ ht
  rw [hu] at ht
  cases ht

/-- A known enum of a class: its declaration and the facts about it. -/
def FileUnit.enum? (u : FileUnit) (id : ClassId) (name : String) :
    Option (EnumDecl × MemberFacts) := do
  let m ← u.member? id name
  let .enum e ← (← (← u.tree).class? id).members[m.index]? | none
  some (e, m)

section

variable (hu : u.Enumerated h)
include hu

theorem FileUnit.Enumerated.enum? {id : ClassId} {name : String} {e : EnumDecl}
    {m : MemberFacts} (he : u.enum? id name = some (e, m)) : m.Enumerates e h := by
  obtain ⟨m, hm, he⟩ := Option.bind_eq_some_iff.1 he
  obtain ⟨t, ht, he⟩ := Option.bind_eq_some_iff.1 he
  obtain ⟨decl, hdecl, he⟩ := Option.bind_eq_some_iff.1 he
  obtain ⟨c, hc, hm⟩ := Option.bind_eq_some_iff.1 hm
  obtain ⟨member, hmember, he⟩ := Option.bind_eq_some_iff.1 he
  cases member with
  | enum e =>
    cases he
    exact hu ht hdecl hc hm hmember
  | _ => cases he

theorem FileUnit.Enumerated.mono (hk : h.KeepsFrozen g) : u.Enumerated g := by
  intro t id decl c name m d ht hdecl hc hm hd
  obtain ⟨owner, values, dict, htype, hvalue, hnumbers, hspells⟩ := hu ht hdecl hc hm hd
  exact ⟨owner, values, dict, htype, hvalue, hnumbers, (hk.dict dict hspells.1).symm ▸ hspells⟩

theorem FileUnit.Enumerated.apply (e : UnitEvent) : (u.apply e).Enumerated h := by
  cases e with
  | inheriting | inherits | spoiled => exact hu.modifyClass fun c name m hm => .inl ⟨m, hm, .refl m⟩
  | _ => exact hu

theorem FileUnit.Enumerated.install (r : Reading) (digest : UInt64) :
    (u.install r digest).2.Enumerated h := by
  rw [FileUnit.install]
  split
  · exact hu
  · split
    · exact hu
    · intro t id decl c name m d ht hdecl hc hm hd
      obtain ⟨_, -, rfl⟩ := Array.mem_map.1 (Array.mem_of_getElem? hc)
      cases hm

end

end

namespace Workspace

variable {w w' : Workspace} {id : UnitId}

/-- Reading a program leaves constants as they are. -/
def Mindful (w : Workspace) : Prop :=
  ∀ text program, w.programs.find? text = some program →
    ∀ path h, Heap.KeepsFrozen h (program path h).2

def Enumerated (w : Workspace) : Prop := ∀ id, (w.unit id).Enumerated w.heap

namespace Enumerated

section

variable (h : w.Enumerated)
include h

theorem modifyUnit {f : FileUnit → FileUnit}
    (hf : (w.unit id).Enumerated w.heap → (f (w.unit id)).Enumerated w.heap) :
    (w.modifyUnit id f).Enumerated := by
  intro j
  rcases Nat.lt_or_ge id w.units.size with hid | hid
  · by_cases hj : j = id
    · rw [hj, unit_modifyUnit_self hid]
      exact hf (h id)
    · rw [unit_modifyUnit_of_ne hj]
      exact h j
  · rw [modifyUnit_of_le hid]
    exact h j

theorem happen (id : UnitId) (e : UnitEvent) : (w.happen id e).Enumerated := by
  rw [Workspace.happen]
  split
  · exact h.modifyUnit fun hu => hu.apply e
  · exact h

theorem poison (cls : ClassId) (d : Diagnostic) : (w.poison id cls d).Enumerated := by
  rw [Workspace.poison]
  split
  · exact (h.happen _ _).happen _ _
  · exact ((h.happen _ _).happen _ _).happen _ _

theorem endStage (stage : UnitStatus) (before : Nat) : (w.endStage id stage before).Enumerated := by
  rw [Workspace.endStage]
  refine happen ?_ _ _
  split
  · exact h.happen _ _
  · exact h

theorem setHeap {g : Heap} (hk : w.heap.KeepsFrozen g) : { w with heap := g }.Enumerated :=
  fun id => (h id).mono hk

theorem readInto (hw : w.Mindful) (id : UnitId) (source : Source) :
    (w.readInto id source).2.Enumerated := by
  have htext (path text : String) : (w.readText path text).2.Enumerated := by
    rw [readText]
    split
    · exact h
    · next program hprogram => exact h.setHeap (hw text program hprogram path w.heap)
  cases source with
  | empty => exact h
  | text s => exact ((htext _ s).modifyUnit fun hu => hu.install _ _).happen _ _
  | binary b =>
    have hbytes (path : String) : (w.readBytes path b).2.Enumerated := by
      rw [readBytes]
      split
      · exact htext path _
      · exact h
    exact ((hbytes _).modifyUnit fun hu => hu.install _ _).happen _ _

theorem openUnit (hw : w.Mindful) (path : String) : (w.openUnit path).2.Enumerated := by
  obtain hsame | ⟨source, -, hopen⟩ := w.openUnit_cases path
  · rwa [hsame]
  · rw [hopen]
    have hadd : (w.addUnit path).2.Enumerated := by
      intro id
      by_cases hid : id = w.units.size
      · have hnew : (w.addUnit path).2.unit id = { path } := by simp [addUnit, unit, hid]
        rw [hnew]
        exact FileUnit.enumerated_of_tree rfl
      · have hold : (w.addUnit path).2.unit id = w.unit id := by
          simp [addUnit, unit, Array.getElem?_push, hid]
        rw [hold]
        exact h id
    exact fun id => hadd.readInto hw w.units.size source id

end

end Enumerated

/-! ### What the stages do -/

def Order.enumerated : Order where
  le w w' := w.Later w' ∧ (w.Mindful → w.Enumerated → w'.Enumerated)
  refl w := ⟨.refl w, fun _ h => h⟩
  trans h h' := ⟨h.1.trans h'.1, fun hw he => h'.2 (by rwa [Mindful, h.1.programs]) (h.2 hw he)⟩
  later h := h.1
  heap _ _ hk := ⟨.heap _, fun _ h => h.setHeap hk⟩
  quiet _ hq he := ⟨.quiet fun _ => hq, fun _ h => h.modifyUnit he⟩
  depends k h _ := by
    refine ⟨later_addDependency k h, fun _ he => he.modifyUnit fun hu => ?_⟩
    rw [FileUnit.addDependency]
    split <;> exact hu
  reported w id d _ := ⟨later_reported w id d, fun _ h => h.happen _ _⟩

theorem Order.enumerated_solvesBases : Order.enumerated.SolvesBases where
  begun h := ⟨later_inheriting h, fun _ he => he.happen _ _⟩
  settled base native h hle := ⟨Later.inherits ((later_inheriting h).trans hle.1) h base native,
    fun hw he => (hle.2 (by rwa [Mindful, (later_inheriting h).programs]) (he.happen _ _)).happen
      _ _⟩
  spoiled w id cls base := ⟨later_spoiled w id cls base, fun _ h => h.happen _ _⟩
  complained w id d := ⟨later_reported w id d, fun _ h => h.happen _ _⟩
  poisoned w id cls d := ⟨later_poison w id cls d, fun _ h => h.poison _ _⟩

def Ladder.enumerated : Ladder where
  order _ := .enumerated
  opened _ w path := ⟨later_openUnit w path, fun hw h => h.openUnit hw path⟩
  stage hnext _ _ _ hle := ⟨((later_began hnext).trans hle.1).trans (later_endStage _ _ _ _),
    fun hw h => (hle.2 (by rwa [Mindful, (later_began hnext).programs]) (h.happen _ _)).endStage
      _ _⟩
  answered _ w id status := ⟨later_answered w id status _, fun _ h => h.happen _ _⟩

theorem Ladder.enumerated_findsBases : Ladder.enumerated.FindsBases :=
  fun _ _ hr => .resolveInheritance Order.enumerated_solvesBases hr

/-! ### Whatever is asked -/

def Request.Mindful : Request → Prop
  | replace _ _ _ programs => { programs : Workspace }.Mindful
  | _ => True

theorem Enumerated.perform (hw : w.Mindful) (h : w.Enumerated) {request : Request}
    (hr : request.Mindful) (hrun : w.perform request = some w') : w'.Mindful ∧ w'.Enumerated := by
  have hsame {w1 : Workspace} (hp : w1.programs = w.programs) : w1.Mindful := by rwa [Mindful, hp]
  cases request with
  | get path status =>
    obtain ⟨⟨answer, w1⟩, hget, rfl⟩ := Option.map_eq_some_iff.1 hrun
    have hle := Ladder.le_getUnit Ladder.enumerated_findsBases hget
    exact ⟨hsame hle.1.programs, hle.2 hw h⟩
  | raise id status =>
    obtain ⟨⟨answer, w1⟩, hraise, rfl⟩ := Option.map_eq_some_iff.1 hrun
    have hle := Ladder.le_raiseUnit Ladder.enumerated_findsBases hraise
    exact ⟨hsame hle.1.programs, hle.2 hw h⟩
  | read id source =>
    cases hrun
    refine ⟨hsame ?_, h.readInto hw id source⟩
    obtain ⟨hread, -⟩ | ⟨r, g, -, hread⟩ := w.readInto_cases id source
    · rw [hread]
    · rw [hread]
      exact congrArg (·.2.2.2) rest_happen.1
  | drop path =>
    cases hrun
    rw [dropUnit]
    split
    · exact ⟨hw, h⟩
    · exact ⟨hw, h.modifyUnit fun hu => hu⟩
  | release id =>
    cases hrun
    exact ⟨hw, h.modifyUnit fun hu => hu⟩
  | replace settings registry files programs =>
    cases hrun
    exact ⟨hr, h⟩

theorem Enumerated.serve {requests : List Request} (hw : w.Mindful) (h : w.Enumerated)
    (hr : ∀ q ∈ requests, q.Mindful) (hrun : w.serve requests = some w') : w'.Enumerated := by
  induction requests generalizing w with
  | nil =>
    cases hrun
    exact h
  | cons request requests ih =>
    obtain ⟨w1, h1, hrun⟩ := Option.bind_eq_some_iff.1 (List.foldlM_cons.symm.trans hrun)
    obtain ⟨hq, hr⟩ := List.forall_mem_cons.1 hr
    obtain ⟨hw1, he1⟩ := h.perform hw hq h1
    exact ih hw1 he1 hr hrun

theorem Unused.enumerated (h : w.Unused) : w.Enumerated := by
  intro id
  rw [unit, h.units]
  exact FileUnit.enumerated_of_tree rfl

/-- The declaration of an enum with two entries. -/
def pairDecl (first second : String) : EnumDecl :=
  let entry (name : String) : EnumValueDecl :=
    { id := 1, name := ⟨name, .lines 1 1⟩, value := none, previous := none }
  { id := 0, name := ⟨"E", .lines 1 1⟩, values := [entry first, entry second] }

def pairWorkspace (first second : String) : Workspace :=
  { files := .ofList [("res://a.br", .text "a")]
    programs := .ofList [("a", classWith none (.enum (pairDecl first second)))] }

theorem pairWorkspace_mindful (first second : String) : (pairWorkspace first second).Mindful := by
  intro text program hprogram path h
  have hfind : Table.find? ⟨[("a", classWith none (.enum (pairDecl first second)))]⟩
      text = some program := hprogram
  rw [Table.find?, List.lookup_cons] at hfind
  cases htext : text == "a" with
  | true =>
    rw [htext] at hfind
    cases hfind
    exact .refl h
  | false =>
    rw [htext] at hfind
    cases hfind

/-- The facts about an enum have its entries, in order, in the type, and an entry without a value
has the next number. If the entries have different names, a name is folded from the dictionary of
the enum to the value that the type has for it, so a field is the same whether the enum is known or
only its type. -/
theorem enum_readings {requests : List Request} (hw : w.Unused) (hm : w.Mindful)
    (hr : ∀ q ∈ requests, q.Mindful) (hrun : w.serve requests = some w') {id : UnitId}
    {cls : ClassId}
    {name : String} {m : MemberFacts} {e : EnumDecl}
    (he : (w'.unit id).enum? cls name = some (e, m)) :
    ∃ owner values dict, m.type = (StaticType.enum e.name.name owner values).toMeta ∧
      m.value = some (.dictionary dict) ∧ EnumValueDecl.Numbers e.values 0 values ∧
      ((e.values.map (·.name.name)).Nodup →
        (∀ n, w'.heap.foldField? (.dictionary dict) n = (values.lookup n).map .int) ∧
        ∀ r (facts : ExprFacts) n (d : Desk), facts.type = m.type → facts.value = m.value →
          d.work.heap = w'.heap →
          Analyze.fieldFacts r facts n d = Analyze.fieldOf r m.type n d) := by
  obtain ⟨owner, values, dict, htype, hvalue, hnumbers, hspells⟩ :=
    (hw.enumerated.serve hm hr hrun id).enum? he
  refine ⟨owner, values, dict, htype, hvalue, hnumbers, fun hnodup => ?_⟩
  have hfold := hspells.foldField? (hnumbers.names ▸ hnodup)
  refine ⟨hfold, fun r facts n d hft hfv hd => ?_⟩
  have hheap (k : Heap → Analyze ExprFacts) : (Analyze.heap >>= k) d = k d.work.heap d := rfl
  rw [Analyze.fieldFacts, hheap, hfv, hvalue, hft, Option.bind_some, hd, hfold]
  cases hn : values.lookup n.name with
  | none => rfl
  | some v =>
    have hfield : Analyze.fieldOf r m.type n = return .constant m.type.toInstance (.int v) := by
      rw [htype, Analyze.fieldOf, if_pos (by rfl)]
      simp only [Analyze.fieldOfMeta, StaticType.enum, StaticType.toMeta, StaticType.ofShape,
        StaticType.hard, hn]
    rw [hfield, htype]
    rfl

/-- A file whose enum has two names. -/
theorem pairWorkspace_readings : ∃ w' m e,
    (pairWorkspace "A" "B").serve [.get "res://a.br" .fullySolved] = some w' ∧
    (w'.unit 0).enum? 0 "E" = some (e, m) ∧ ∃ owner values dict,
    m.type = (StaticType.enum e.name.name owner values).toMeta ∧ m.value = some (.dictionary dict) ∧
      ∀ n, w'.heap.foldField? (.dictionary dict) n = (values.lookup n).map .int := by
  obtain ⟨w', hrun, hnames⟩ : ∃ w',
      (pairWorkspace "A" "B").serve [.get "res://a.br" .fullySolved] = some w' ∧
      ((w'.unit 0).enum? 0 "E").map (fun x => x.1.values.map (·.name.name)) = some ["A", "B"] := by
    decide +kernel
  obtain ⟨⟨e, m⟩, he, hnames⟩ := Option.map_eq_some_iff.1 hnames
  obtain ⟨owner, values, dict, htype, hvalue, -, hread⟩ :=
    enum_readings ⟨rfl, rfl, rfl⟩ (pairWorkspace_mindful "A" "B") (by simp [Request.Mindful])
      hrun he
  exact ⟨w', m, e, hrun, he, owner, values, dict, htype, hvalue, (hread (hnames ▸ by decide)).1⟩

/-- An enum that declares an entry twice is accepted.  The type has the value of the first one, the
dictionary that of the second. -/
theorem enum_readings_differ :
    ∃ w', (pairWorkspace "A" "A").serve [.get "res://a.br" .fullySolved] = some w' ∧
    (w'.unit 0).grants .fullySolved = true ∧
    ((w'.unit 0).member? 0 "E").bind (·.type.enumValues?) = some [("A", 0), ("A", 1)] ∧
    ((((w'.unit 0).member? 0 "E").bind (·.value)).bind (w'.heap.foldField? · "A")).bind
    (·.int?) = some 1 := by
  decide +kernel

end Workspace

end HotScript
