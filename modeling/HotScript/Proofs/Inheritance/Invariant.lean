import HotScript.Proofs.Analysis.Journal
import HotScript.Proofs.Inheritance.Project

/-!
What holds of a project at every moment while bases are looked for.

A class is looked at once, and is `resolving` until its base is known, so these classes form a
stack. One that is `resolved` has the base that its clause names, and following such bases never
leads back (`Core`). Either nothing has been reported and nothing has gone wrong, or the cycle has
been reported once, at a class on it, and every class on it is unusable (`Verdict`).
-/

namespace HotScript

/-- Whether an event is about the base of a class, or makes what is known about bases void. -/
def UnitEvent.isBond : UnitEvent → Bool
  | read | inheriting _ | inherits .. | spoiled .. => true
  | _ => false

/-- The base of a class that is resolved at the moment when the journal was as given. -/
def Journal.baseAt : Journal → UnitId → ClassId → Option StaticType
  | [], _, _ => none
  | e :: rest, k, i =>
    if e.unit = k then
      match e.event with
      | .read => none
      | .inheriting j | .spoiled j _ => if j = i then none else baseAt rest k i
      | .inherits j base _ => if j = i then some base else baseAt rest k i
      | _ => baseAt rest k i
    else baseAt rest k i

namespace Journal

variable {e : JournalEntry} {j es : Journal} {k : UnitId} {i : ClassId}

theorem baseAt_cons_of_ne (h : e.unit ≠ k) : baseAt (e :: j) k i = j.baseAt k i := by
  rw [baseAt, if_neg h]

theorem baseAt_cons_of_not_isBond (h : e.event.isBond = false) :
    baseAt (e :: j) k i = j.baseAt k i := by
  rw [baseAt]
  split
  · revert h
    cases e.event <;> simp [UnitEvent.isBond]
  · rfl

theorem baseAt_append (h : ∀ e ∈ es, e.event.isBond = false) :
    baseAt (es ++ j) k i = j.baseAt k i := by
  induction es with
  | nil => rfl
  | cons e es ih =>
    rw [List.cons_append, baseAt_cons_of_not_isBond (h e (.head _))]
    exact ih fun e he => h e (.tail _ he)

theorem baseAt_eq_none (h : ∀ e ∈ j, e.unit ≠ k) : j.baseAt k i = none := by
  induction j with
  | nil => rfl
  | cons e j ih =>
    rw [baseAt_cons_of_ne (h e (.head _))]
    exact ih fun e he => h e (.tail _ he)

end Journal

def ClassFacts.settled? (c : ClassFacts) : Option StaticType :=
  if c.inheritance = .resolved then some c.base else none

namespace Workspace

/-- At the moment when the journal was as given, one class is resolved and the other is its base. -/
def BaseEdge (w : Workspace) (j : Journal) (a b : Place) : Prop :=
  ∃ k < w.units.size, (w.unit k).path = a.1 ∧
    ∃ base, j.baseAt k a.2 = some base ∧ base.class?.map (fun ref => (ref.path, ref.index)) = some b

/-- Following bases at the moment when the journal was as given never leads back. -/
def Acyclic (w : Workspace) (j : Journal) : Prop := ∀ c, ¬ Relation.TransGen (w.BaseEdge j) c c

/-! ### Classes by place -/

def classAt? (w : Workspace) (c : Place) : Option ClassFacts :=
  (w.unitOf.find? c.1).bind fun k => (w.unit k).classes[c.2]?

def stateAt? (w : Workspace) (c : Place) :
    Option InheritanceState := (w.classAt? c).map (·.inheritance)

/-- The unit of a path got to where bases are looked for. -/
def Solved (w : Workspace) (p : String) : Prop :=
  ∃ k, w.unitOf.find? p = some k ∧ UnitStatus.inheritanceSolved.rank ≤ (w.unit k).status.rank

variable {w w' w1 w2 w3 : Workspace} {c : Place} {k : UnitId} {i : ClassId} {p : String}
  {f : ClassFacts}

theorem classAt?_of_find? (h : w.unitOf.find? p = some k) :
    w.classAt? (p, i) = (w.unit k).classes[i]? := by
  rw [classAt?, h]
  rfl

theorem inheritanceOf_of_classAt? (h : w.unitOf.find? p = some k)
    (hf : w.classAt? (p, i) = some f) : (w.unit k).inheritanceOf i = f.inheritance := by
  rw [classAt?_of_find? h] at hf
  rw [FileUnit.inheritanceOf, FileUnit.classFacts?, hf]
  rfl

theorem classAt?_modifyClass (h : w.Linked) (hk : k < w.units.size) {f : ClassFacts → ClassFacts}
    (hu : w'.unitOf = w.unitOf) (hself : (w'.unit k).classes = ((w.unit k).modifyClass i f).classes)
    (hrest : ∀ j, j ≠ k → (w'.unit j).classes = (w.unit j).classes) :
    w'.classAt? c = if c = ((w.unit k).path, i) then (w.classAt? c).map f else w.classAt? c := by
  rw [classAt?, classAt?, hu]
  cases hfind : w.unitOf.find? c.1 with
  | none => split <;> rfl
  | some j =>
    dsimp only [Option.bind_some]
    by_cases hj : j = k
    · subst hj
      have hpath := (h.placed _ _ hfind).2
      rw [hself, FileUnit.classes_modifyClass]
      by_cases hi : i = c.2
      · rw [if_pos hi, if_pos (Prod.ext hpath.symm hi.symm)]
      · rw [if_neg hi, if_neg fun hc => hi (congrArg Prod.snd hc).symm]
    · rw [hrest j hj, if_neg]
      rintro rfl
      exact hj (Option.some.inj (hfind.symm.trans (h.owned k hk)))

theorem Solved.later (h : w.Solved p) (hlinked : w.Linked) (hl : w.Later w') : w'.Solved p := by
  obtain ⟨k, hk, hs⟩ := h
  refine ⟨k, hl.unitOf _ k hk, Nat.le_trans hs ?_⟩
  exact (hl.units k (hlinked.placed _ k hk).1).2.status

theorem Later.classAt? (hl : w.Later w') (hlinked : w.Linked)
    (hf : w.classAt? c = some f) : ∃ f', w'.classAt? c = some f' ∧ f.Later f' := by
  obtain ⟨k, hk, hf⟩ := Option.bind_eq_some_iff.1 hf
  obtain ⟨f', hf', hlater⟩ := (hl.units k (hlinked.placed _ k hk).1).2.facts _ f hf
  exact ⟨f', by rw [Workspace.classAt?, hl.unitOf _ k hk]; exact hf', hlater⟩

/-! ### What a project's workspace is like -/

variable {w0 : Workspace} (P : w0.Project)

/-- The unit of a file of the project. -/
structure Project.Stands (u : FileUnit) : Prop where
  file : u.path ∈ P.files
  tree : ∃ t, u.tree = some t ∧ t.outline = P.outline u.path ∧ t.Numbered
  count : u.classes.size = (P.outline u.path).length
  refs : ∀ i f, u.classes[i]? = some f → f.ref = P.ref (u.path, i)
  parsed : UnitStatus.parsed.rank ≤ u.status.rank

theorem Project.Stands.modifyClass {P : w0.Project} {u : FileUnit} (h : P.Stands u)
    {f : ClassFacts → ClassFacts} (hf : ∀ c, (f c).ref = c.ref) : P.Stands (u.modifyClass i f) where
  file := h.file
  tree := h.tree
  count := Array.size_modify.trans h.count
  refs j c hc := by
    rw [FileUnit.classes_modifyClass] at hc
    split at hc
    · obtain ⟨c0, hc0, rfl⟩ := Option.map_eq_some_iff.1 hc
      rw [hf]
      exact h.refs j c0 hc0
    · exact h.refs j c hc
  parsed := h.parsed

/-- Nothing is running of a unit, or its look for bases, with the errors that it had before. -/
abbrev Looking := UnitId → Option Nat

/-- What holds at every moment, with the classes that are being looked at. Classes are looked at
once the stage of their unit has begun that looks at all of them, and when it has ended all have
been. -/
structure Core (R : Looking) (S : List Place) (w : Workspace) : Prop where
  outside : w.outside = w0.outside
  linked : w.Linked
  stands : ∀ k < w.units.size, P.Stands (w.unit k)
  stack : ∀ c, c ∈ S ↔ w.stateAt? c = some .resolving
  bases : ∀ c f, w.classAt? c = some f → f.inheritance = .resolved →
    f.base.class? = (P.base c).map P.ref ∧ ∀ b, P.Extends c b → w.Solved b.1
  idle : ∀ k < w.units.size, UnitStatus.inheritanceSolved.rank ≤ (w.unit k).status.rank →
    R k = none → ∀ f ∈ (w.unit k).classes, f.inheritance ≠ .unresolved
  failed : ∀ k f, (w.unit k).failedAt = some f → UnitStatus.inheritanceSolved.rank ≤ f.rank
  running : ∀ k n, R k = some n →
    k < w.units.size ∧ UnitStatus.inheritanceSolved.rank ≤ (w.unit k).status.rank
  known : ∀ e ∈ w.journal, e.unit < w.units.size
  sync : ∀ k < w.units.size, ∀ i : ClassId,
    Journal.baseAt w.journal k i = (w.unit k).classes[i]?.bind ClassFacts.settled?
  moments : ∀ j, j <:+ w.journal → w.Acyclic j

def cycleReports (u : FileUnit) : List Diagnostic := u.diagnostics.filter (·.isCycle)

/-- Nothing has been reported, and nothing has gone wrong. -/
structure Quiet (R : Looking) (w : Workspace) : Prop where
  reports : ∀ k, cycleReports (w.unit k) = []
  usable : ∀ c, w.stateAt? c ≠ some .invalid
  failed : ∀ k, (w.unit k).failedAt.filter UnitStatus.inheritanceSolved.reaches = none
  errors : ∀ k n, R k = some n → (w.unit k).errorCount = n

/-- A unit that failed, or will when the stage ends that is running. -/
def Doomed (R : Looking) (w : Workspace) (k : UnitId) : Prop :=
  (w.unit k).failedAt.isSome ∨ ∃ n, R k = some n ∧ n < (w.unit k).errorCount

/-- A cycle has been reported, once, at the clause of a class on it. -/
def Reported (w : Workspace) : Prop :=
  ∃ k c clause names, P.OnCycle c ∧ (P.class? c).bind (·.clause) = some clause ∧
    c.1 = (w.unit k).path ∧ cycleReports (w.unit k) =
      [.resolution (.cyclicInheritance (P.ref c).name names) clause.span] ∧
    ∀ j, j ≠ k → cycleReports (w.unit j) = []

variable {P} in
theorem Reported.congr (h : Reported P w)
    (hreports : ∀ k, cycleReports (w'.unit k) = cycleReports (w.unit k))
    (hpath : ∀ k, cycleReports (w.unit k) ≠ [] → (w'.unit k).path = (w.unit k).path) :
    Reported P w' := by
  obtain ⟨k, c, clause, names, hc, hclause, hck, hone, hrest⟩ := h
  refine ⟨k, c, clause, names, hc, hclause, ?_, (hreports k).trans hone, fun j hj => ?_⟩
  · rw [hpath k (by rw [hone]; nofun), hck]
  · exact (hreports j).trans (hrest j hj)

/-- The cycle has been reported, and every class on it is unusable. -/
structure Told (R : Looking) (w : Workspace) : Prop where
  report : Reported P w
  spoiled : ∀ c, P.OnCycle c → ∃ k, w.unitOf.find? c.1 = some k ∧ w.stateAt? c = some .invalid ∧
    Doomed R w k

/-- What holds whenever nothing is half done. -/
structure Inv (R : Looking) (S : List Place) (w : Workspace) : Prop where
  core : Core P R S w
  verdict : Quiet R w ∨ Told P R w

/-! ### Steps that say nothing about bases -/

def link (f : ClassFacts) :
    ClassRef × InheritanceState × StaticType := (f.ref, f.inheritance, f.base)

/-- Nothing about bases is different, and no status is lower. -/
structure Framed (w w' : Workspace) : Prop where
  outside : w'.outside = w.outside
  unitOf : w'.unitOf = w.unitOf
  size : w'.units.size = w.units.size
  linked : w.Linked → w'.Linked
  path : ∀ k : UnitId, (w'.unit k).path = (w.unit k).path
  tree : ∀ k, (w'.unit k).tree = (w.unit k).tree
  links : ∀ k (i : ClassId), (w'.unit k).classes[i]?.map link = (w.unit k).classes[i]?.map link
  status : ∀ k, (w.unit k).status.rank ≤ (w'.unit k).status.rank
  journal : ∃ es : Journal, w'.journal = es ++ w.journal ∧
    ∀ e ∈ es, e.event.isBond = false ∧ e.unit < w.units.size

namespace Framed

theorem refl (w : Workspace) : Framed w w where
  outside := rfl
  unitOf := rfl
  size := rfl
  linked h := h
  path _ := rfl
  tree _ := rfl
  links _ _ := rfl
  status _ := Nat.le_refl _
  journal := ⟨[], rfl, fun _ he => absurd he List.not_mem_nil⟩

theorem trans (h : Framed w1 w2) (h' : Framed w2 w3) : Framed w1 w3 where
  outside := h'.outside.trans h.outside
  unitOf := h'.unitOf.trans h.unitOf
  size := h'.size.trans h.size
  linked hl := h'.linked (h.linked hl)
  path k := (h'.path k).trans (h.path k)
  tree k := (h'.tree k).trans (h.tree k)
  links k i := (h'.links k i).trans (h.links k i)
  status k := Nat.le_trans (h.status k) (h'.status k)
  journal := by
    obtain ⟨es, hes, hsaid⟩ := h.journal
    obtain ⟨es', hes', hsaid'⟩ := h'.journal
    refine ⟨es' ++ es, by rw [hes', hes, List.append_assoc], fun e he => ?_⟩
    rcases List.mem_append.1 he with he | he
    · exact ⟨(hsaid' e he).1, h.size ▸ (hsaid' e he).2⟩
    · exact hsaid e he

section

variable (h : Framed w w') {f' : ClassFacts}

include h

theorem links_classAt? (c : Place) : (w'.classAt? c).map link = (w.classAt? c).map link := by
  rw [classAt?, classAt?, h.unitOf]
  cases w.unitOf.find? c.1 with
  | none => rfl
  | some k => exact h.links k c.2

theorem stateAt? (c : Place) : w'.stateAt? c = w.stateAt? c := by
  have hlink := congrArg (Option.map fun x => x.2.1) (h.links_classAt? c)
  rwa [Option.map_map, Option.map_map] at hlink

theorem classAt? (hf : w'.classAt? c = some f') :
    ∃ f, w.classAt? c = some f ∧ link f = link f' := by
  have hlink := h.links_classAt? c
  rw [hf, Option.map_some, eq_comm, Option.map_eq_some_iff] at hlink
  exact hlink

theorem facts (hf : (w'.unit k).classes[i]? = some f') :
    ∃ f, (w.unit k).classes[i]? = some f ∧ link f = link f' := by
  have hlink := h.links k i
  rw [hf, Option.map_some, eq_comm, Option.map_eq_some_iff] at hlink
  exact hlink

theorem count : (w'.unit k).classes.size = (w.unit k).classes.size := by
  have hsome (i : Nat) : i < (w'.unit k).classes.size ↔ i < (w.unit k).classes.size := by
    have hlink := congrArg Option.isSome (h.links k i)
    simpa using Bool.eq_iff_iff.1 hlink
  have hle := (hsome (w'.unit k).classes.size).not.1 (Nat.lt_irrefl _)
  have hge := (hsome (w.unit k).classes.size).not.2 (Nat.lt_irrefl _)
  omega

theorem solved (hs : w.Solved p) : w'.Solved p := by
  obtain ⟨k, hk, hs⟩ := hs
  exact ⟨k, h.unitOf ▸ hk, Nat.le_trans hs (h.status k)⟩

theorem acyclic {j : Journal} (hj : w.Acyclic j) : w'.Acyclic j := by
  have hedge : w'.BaseEdge j = w.BaseEdge j := by
    funext a b
    simp only [BaseEdge, h.size, h.path]
  rw [Acyclic, hedge]
  exact hj

end

theorem happen {e : UnitEvent} (he : e.isBond = false)
    (hs : (w.unit k).status.rank ≤ ((w.unit k).apply e).status.rank) : Framed w (w.happen k e) := by
  rcases Nat.lt_or_ge k w.units.size with hk | hk
  case inr =>
    rw [happen_of_le hk]
    exact refl w
  have hclasses : ((w.unit k).apply e).classes = (w.unit k).classes := by
    cases e <;> first | rfl | cases he
  constructor
  case outside => exact rest_happen.1
  case unitOf => exact rest_happen.2
  case size => exact size_happen
  case linked => exact Linked.happen
  case path => exact congr_happen (·.path) (by cases e <;> rfl)
  case tree => exact congr_happen (·.tree) (by cases e <;> rfl)
  case links => exact fun j i => by rw [congr_happen (·.classes) hclasses]
  case status =>
    intro j
    by_cases hj : j = k
    · rw [hj, unit_happen_self hk]
      exact hs
    · exact Nat.le_of_eq (by rw [unit_happen_of_ne hj])
  case journal =>
    rw [happen_of_lt hk]
    exact ⟨[_], rfl, fun e' he' => by rw [List.mem_singleton.1 he']; exact ⟨he, hk⟩⟩

theorem modifyUnit {f : FileUnit → FileUnit} (hp : (f (w.unit k)).path = (w.unit k).path)
    (ht : (f (w.unit k)).tree = (w.unit k).tree) (hc : (f (w.unit k)).classes = (w.unit k).classes)
    (hs : (f (w.unit k)).status = (w.unit k).status)
    (hd : w.Linked → (w.modifyUnit k f).Linked) : Framed w (w.modifyUnit k f) where
  outside := rfl
  unitOf := rfl
  size := size_modifyUnit
  linked := hd
  path := congr_modifyUnit (·.path) hp
  tree := congr_modifyUnit (·.tree) ht
  links j i := by rw [congr_modifyUnit (·.classes) hc]
  status j := Nat.le_of_eq (by rw [congr_modifyUnit (·.status) hs])
  journal := ⟨[], rfl, fun _ he => absurd he List.not_mem_nil⟩

end Framed

end Workspace

end HotScript
