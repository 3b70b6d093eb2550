import HotScript.Proofs.Live.InstanceState

/-!
Reading and writing variables of an instance by name.

A variable without accessors behaves like a cell (`World.Housed.setByName_law`). Code that was
compiled together with the class addresses the same place; code of another file was compiled for the
layout that the class had by then.
-/

namespace HotScript

theorem Plan.readMember_of_classCode {p q : Plan} {defaultBase : String} {decl : ClassDecl}
    {facts : ClassFacts} {c : ClassCode} {name : String} {slot : Slot}
    (h : p.classCode defaultBase decl facts = .ok c) (hq : q.layouts = p.layouts)
    (hslot : c.members.find? name = some slot) (hgetter : slot.getter = none) (e : Emitter) :
    q.readMember facts.ref name e = .ok ({ address := .member slot.index }, e) := by
  obtain ⟨l, hl, hframe⟩ := p.classCode_frame h
  have hmembers : c.members = l.instances := congrArg (·.1) hframe
  have hfound : q.memberSlot facts.ref name e = .ok (slot, e) :=
    q.memberSlot_ok.2 ⟨⟨l, hq ▸ hl, hmembers ▸ hslot⟩, rfl⟩
  refine Lower.bind_ok.2 ⟨slot, e, hfound, ?_⟩
  rw [hgetter, accessor?, ite_self]
  rfl

namespace World

variable {w : World} {i : InstanceId} {name : String} {slot : Slot}

/-- The variables of an instance have places of their own in its storage. -/
structure Housed (w : World) (i : InstanceId) : Prop where
  usable : w.isUsable i = true
  apart : (w.slotIndices (w.inst i).script).Nodup
  inside : ∀ index ∈ w.slotIndices (w.inst i).script, index < (w.inst i).members.size

/-- Writing a variable without accessors returns, and says whether the value fits; one that does not
fit changes nothing. One that fits is read back from then on, and every other variable that no
getter computes reads as before. What is read is at the place that code compiled with the class
addresses. -/
theorem Housed.setByName_law (hi : w.Housed i) (hslot : w.slot? (w.inst i).script name = some slot)
    (hgetter : slot.getter = none) (hsetter : slot.setter = none) (r : Runner) (v : Value) :
    (∃ stored w', Live.setByName r i name v w = some (stored, w') ∧
      (stored = true ↔ (w.fitted slot.type v).isSome) ∧ (stored = false → w' = w) ∧
      ∀ y, w.fitted slot.type v = some y → Live.getMember r i name w' = some (some y, w') ∧
        (∀ index, index ≠ slot.index → w'.member? i index = w.member? i index) ∧
        w.heap.Extends w'.heap ∧ ∀ name' slot', name' ≠ name →
          w.slot? (w.inst i).script name' = some slot' → slot'.index ≠ slot.index ∧
          (slot'.getter = none → ∃ x, Live.getMember r i name' w = some (x, w) ∧
            Live.getMember r i name' w' = some (x, w'))) ∧
    ∃ x, Live.getMember r i name w = some (some x, w) ∧
      (∀ a : Activation, a.bound = some i →
        (Attempt.readAddress r a (.member slot.index)).run w = some (.ok x, w)) ∧
      ∀ (p q : Plan) (defaultBase : String) (decl : ClassDecl) (facts : ClassFacts) (c : ClassCode),
        p.classCode defaultBase decl facts = .ok c → c.members.find? name = some slot →
        q.layouts = p.layouts → ∀ e,
          q.readMember facts.ref name e = .ok ({ address := .member slot.index }, e) := by
  have hlt := hi.inside _ (index_mem_slotIndices hslot)
  have hvalue {v : World} {m : String} {other : Slot} (hu : v.isUsable i = true)
      (hm : v.slot? (v.inst i).script m = some other) : v.value? i m = v.member? i other.index := by
    rw [value?, if_pos hu, hm]
    rfl
  constructor
  · rw [Live.setByName_run hi.usable hslot hsetter, fitted]
    cases hfit : (fit w.kinship slot.type v).run w.heap with
    | none => exact ⟨false, w, rfl, by simp, fun _ => rfl, by simp⟩
    | some y =>
      obtain ⟨y, heap⟩ := y
      have hknown : i < w.instances.size := by
        refine Nat.lt_of_not_le fun hge => ?_
        rw [inst, Array.getElem?_eq_none hge] at hlt
        exact Nat.not_lt_zero _ hlt
      -- the write leaves everything but the one place and the heap as it is
      let w' := (w.withHeap heap).modifyInstance i fun x =>
        { x with members := x.members.setIfInBounds slot.index y }
      have hinst : w'.inst i =
          { w.inst i with members := (w.inst i).members.setIfInBounds slot.index y } := by
        rw [inst_modifyInstance, if_pos ⟨rfl, hknown⟩]
        rfl
      have hmember (index : Nat) : w'.member? i index =
          if slot.index = index then some y else w.member? i index := by
        rw [member?, hinst, member?, Array.getElem?_setIfInBounds]
        split <;> rfl
      have hread {m : String} {other : Slot} (hm : w.slot? (w.inst i).script m = some other)
          (hplain : other.getter = none) : Live.getMember r i m w' = some (w'.member? i other.index,
            w') := by
        have hu : w'.isUsable i = true := by
          rw [isUsable, hinst]
          exact hi.usable
        have hm' : w'.slot? (w'.inst i).script m = some other := by
          rw [hinst, slot?, codeChain_congr (v := w') (w := w) rfl fun _ => ⟨rfl, rfl⟩]
          exact hm
        rw [Live.getMember_run r hm' hplain, hvalue hu hm']
      refine ⟨true, w', ?_, by simp, by simp, fun z hz => ?_⟩
      · exact congrArg some (if_pos (show slot.index < ((w.withHeap heap).inst i).members.size
          from hlt))
      · cases hz
        refine ⟨?_, fun index hne => ?_, (settled_of_fit hfit).toExtends, fun m other hne hm => ?_⟩
        · rw [hread hslot hgetter, hmember, if_pos rfl]
        · rw [hmember, if_neg hne.symm]
        · have hother : other.index ≠ slot.index := fun heq =>
              hne (slot?_inj hi.apart hm hslot heq).1
          refine ⟨hother, fun hplain => ⟨_, Live.getMember_run r hm hplain, ?_⟩⟩
          rw [hread hm hplain, hmember, if_neg hother.symm, hvalue hi.usable hm]
  · have hx : w.member? i slot.index = some (w.inst i).members[slot.index] :=
      Array.getElem?_eq_getElem hlt
    have hget := Live.getMember_run r hslot hgetter
    rw [hvalue hi.usable hslot, hx] at hget
    refine ⟨_, hget, fun a ha => ?_, ?_⟩
    · have hbound : Attempt.bound a = pure i := by rw [Attempt.bound, ha]
      show (do
        let w ← get
        let j ← Attempt.bound a
        return (w.member? j slot.index).getD .nil : Attempt Value).run w = _
      rw [hbound]
      show some (Except.ok ((w.member? i slot.index).getD .nil), w) = _
      rw [hx]
      rfl
    · intro p q defaultBase decl facts c hc hfind hq e
      exact Plan.readMember_of_classCode hc hq hfind hgetter e

/-! ### Files with two variables -/

/-- A file with a variable for names and another, of which an instance is made. -/
def named : List Request :=
  let typed : Member := .var
    { id := 0, name := .named "n", type := some (.mk [.named "StringName"] [] (.lines 1 1)),
      infer := false
      initializer := none, isStatic := false, accessors := .none, exported := false }
  [.texts [("res://a.br", "one")] [("one", fileWith none [typed, .number 1 "m" false 2] [] 3)],
    .load "res://a.br" false, .newObject 0 []]

/-- A text is stored as a name, and the other variable keeps its value. -/
theorem named_setByName_law :
    ∃ w w' y, Live.serve named host = some ((), w) ∧ y.tag = .stringName ∧ y.text? = some "a" ∧
      Live.setByName .standard 0 "n" (.string "a") w = some (true, w') ∧
      Live.getMember .standard 0 "n" w' = some (some y, w') ∧
      ∃ x, Live.getMember .standard 0 "m" w = some (x, w) ∧
        Live.getMember .standard 0 "m" w' = some (x, w') := by
  obtain ⟨w, run, husable, hapart, hinside, ⟨slot, hslot, hgetter, hsetter, y, hy, htag, htext⟩,
    other, hother, hplain⟩ : ∃ w, Live.serve named host = some ((), w) ∧ w.isUsable 0 = true ∧
      (w.slotIndices (w.inst 0).script).Nodup ∧
      (∀ index ∈ w.slotIndices (w.inst 0).script, index < (w.inst 0).members.size) ∧
      (∃ slot, w.slot? (w.inst 0).script "n" = some slot ∧ slot.getter = none ∧ slot.setter = none ∧
        ∃ y, w.fitted slot.type (.string "a") = some y ∧ y.tag = .stringName ∧ y.text? = some "a") ∧
      ∃ slot, w.slot? (w.inst 0).script "m" = some slot ∧ slot.getter = none := by
    decide +kernel
  obtain ⟨⟨stored, w', hset, hstored, -, hread⟩, -⟩ :=
    Housed.setByName_law ⟨husable, hapart, hinside⟩ hslot hgetter hsetter .standard (.string "a")
  obtain ⟨hget, -, -, hothers⟩ := hread y hy
  rw [hstored.2 (by rw [hy]; rfl)] at hset
  exact ⟨w, w', y, run, htag, htext, hset, hget, (hothers "m" other (by decide) hother).2 hplain⟩

/-- A file with two variables and one that extends it with a function that gives back the first are
loaded. Then the first file is read again alone, where the variables come in the other order, and an
instance of the second is made and written to. -/
def swapped : List Request :=
  let n (id : NodeId) : Member := .number id "n" false 1
  let m (id : NodeId) : Member := .number id "m" false 2
  let read : Member := .function 0 "read" false [.giveBack (.numbered 1)
      (some (.ident (.numbered 2) "n"))]
  let written (base : String) : Request := .texts [("res://b.br", base), ("res://d.br", "derived")]
    [("one", fileWith none [n 0, m 2] [] 4), ("two", fileWith none [m 0, n 2] [] 4),
      ("derived", fileWith (some "res://b.br") [read] [] 3)]
  [written "one", .load "res://d.br" false, written "two", .load "res://b.br" true, .newObject 0 [],
    .setMember 0 "n" (.int 7)]

/-- The variable reads as it was written, but the function finds the value of the other one: it was
compiled for the place that the variable had before. -/
theorem swapped_read_elsewhere :
    ∃ w slot, Live.serve swapped host = some ((), w) ∧ w.Reached ∧ w.Housed 0 ∧
      w.slot? (w.inst 0).script "n" = some slot ∧ slot.getter = none ∧ slot.setter = none ∧
      (w.value? 0 "n").bind Value.int? = some 7 ∧
      ∃ answer w', (Attempt.callMethod .standard 0 "read" []).run w = some (answer, w') ∧
        answer.toOption.bind Value.int? = some 2 := by
  obtain ⟨w, run, husable, hapart, hinside, hvalue, ⟨slot, hslot⟩, hread⟩ :
      ∃ w, Live.serve swapped host = some ((), w) ∧ w.isUsable 0 = true ∧
      (w.slotIndices (w.inst 0).script).Nodup ∧
      (∀ index ∈ w.slotIndices (w.inst 0).script, index < (w.inst 0).members.size) ∧
      (w.value? 0 "n").bind Value.int? = some 7 ∧
      (∃ slot, w.slot? (w.inst 0).script "n" = some slot ∧ slot.getter = none ∧
        slot.setter = none) ∧
      ((Attempt.callMethod .standard 0 "read" []).run w).bind (·.1.toOption.bind Value.int?) =
      some 2 := by
    decide +kernel
  have hreached : w.Reached := reached_host.serve (by simp [swapped]) run
  obtain ⟨⟨answer, w'⟩, hrun, htwo⟩ := Option.bind_eq_some_iff.1 hread
  exact ⟨w, slot, run, hreached, ⟨husable, hapart, hinside⟩, hslot.1, hslot.2.1, hslot.2.2, hvalue,
    answer, w', hrun, htwo⟩

end World

end HotScript
