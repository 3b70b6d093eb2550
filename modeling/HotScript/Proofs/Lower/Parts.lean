import HotScript.Proofs.Lower.Emission

/-!
The parts of lowering emit sound code: moving values, names, calls, and chains of containers.

Each is a step of emission in the sense of `Lower.Emits`: taken where it knows enough, it keeps the
code sound and says which holes it leaves and what is known afterwards.
-/

namespace HotScript

open Emitter

/-- A step of emission that can be taken wherever the facts `need` are known. Depending on what it
gives it leaves holes and makes facts known. -/
class Lower.Emits {α : Type} (need : outParam (List Fact)) (m : Lower α)
    (holes : outParam (α → List Nat)) (facts : outParam (α → List Fact)) : Prop where
  run : ∀ ⦃b k e H K⦄, (∀ f ∈ need, f ∈ K) → Run b k e H K → ∀ ⦃a e'⦄, m e = .ok (a, e') →
    Run b k e' (holes a ++ H) (facts a ++ K)

/-- A step that gives an operand. -/
abbrev Lower.Evaluates (need : List Fact) (m : Lower Operand) : Prop :=
  m.Emits need (fun _ => []) fun o => [.source o.address]

abbrev Lower.Acts (need : List Fact) (m : Lower Unit) : Prop :=
  m.Emits need (fun _ => []) fun _ => []

/-- A step that gives the jumps it leaves open. -/
abbrev Lower.Tests (need : List Fact) (m : Lower (List Nat)) : Prop :=
  m.Emits need id fun _ => []

abbrev Lower.EvaluatesAll (m : Lower (List Operand)) : Prop :=
  m.Emits [] (fun _ => []) fun os => os.map fun o => .source o.address

-- What is asked of the instructions that are written out.
attribute [local simp] Opcode.roles Opcode.isJump Opcode.shape

namespace Lower

variable {α : Type} {m : Lower α} {need : List Fact} {holes : α → List Nat} {facts : α → List Fact}
  {k : Nat} {H : List Nat} {K : List Fact}

theorem Emits.of_goes
    (h : ∀ s : Mark, Goes ⟨s.loops, s.holes, need ++ s.facts⟩ m fun a =>
      ⟨s.loops, holes a ++ s.holes, facts a ++ (need ++ s.facts)⟩) :
    m.Emits need holes facts := by
  refine ⟨fun b k e H K hn r a e' ha => ?_⟩
  have r := h ⟨k, H, K⟩ (r.forget fun f hf => (List.mem_append.1 hf).elim (hn f) id) ha
  exact r.forget fun f hf => (List.mem_append.1 hf).elim (by simp +contextual) (by simp +contextual)

theorem Emits.goes (h : m.Emits need holes facts)
    (hn : ∀ f ∈ need, f.Known K := by simp +contextual) :
    Goes ⟨k, H, K⟩ m fun a => ⟨k, holes a ++ H, facts a ++ K⟩ := by
  intro b e r a e' ha
  have r := h.run (K := need ++ K) (by simp +contextual)
    (r.known fun f hf => (List.mem_append.1 hf).elim (hn f) .inl) ha
  exact r.forget fun f hf => (List.mem_append.1 hf).elim (by simp +contextual) (by simp +contextual)

theorem Emits.free (h : m.Emits [] holes facts) :
    Goes ⟨k, H, K⟩ m fun a => ⟨k, holes a ++ H, facts a ++ K⟩ :=
  h.goes

theorem Goes.step [h : m.Emits need holes facts]
    (hn : ∀ f ∈ need, f.Known K := by simp +contextual) :
    Goes ⟨k, H, K⟩ m fun a => ⟨k, holes a ++ H, facts a ++ K⟩ := h.goes hn

theorem Emits.pure {a : α} (hh : holes a = []) (hf : facts a = []) :
    Emits need (pure a) holes facts :=
  .of_goes fun _ => .done (by simp +contextual [hh, hf])

theorem Emits.internal {message : String} {span : Span} :
    Emits need (internal message span : Lower α) holes facts :=
  .of_goes fun _ => .internal

variable {dst : Address} {v : Operand} {target source : StaticType}

instance store_acts : (store dst v target source).Acts [.dest dst, .source v.address] := by
  refine .of_goes fun _ => ?_
  unfold store
  split
  · split
    · exact .bind .typePlace fun _ => .last .emit
    · exact .emit
  · exact .done

instance convert_evaluates : (convert v target source).Evaluates [.source v.address] := by
  refine .of_goes fun _ => ?_
  unfold convert
  split
  · exact .bind .temporary fun _ => .bind .typePlace fun _ => .bind .emit fun _ =>
      .bind .release fun _ => .done
  · exact .done

instance materialize_evaluates : (materialize v).Evaluates [.source v.address] := by
  refine .of_goes fun _ => ?_
  unfold materialize
  split
  · exact .done
  · exact .bind .temporary fun _ => .bind .emit fun _ => .done

end Lower

namespace Emitter

open Lower

theorem temporary_within {e e' : Emitter} {dst : Operand} (h : temporary e = .ok (dst, e')) :
    e.storage.Within e'.storage := by
  rw [temporary, modifyGet_ok] at h
  split at h
  · obtain ⟨-, rfl⟩ := Prod.mk.inj h
    exact .refl _
  · obtain ⟨-, rfl⟩ := Prod.mk.inj h
    exact ⟨Nat.le_succ _, fun _ _ h => h, fun _ _ h => h⟩

end Emitter

theorem Lower.Goes.emitCall {k : Nat} {H : List Nat} {K : List Fact} {op : Opcode} {head : List Nat}
    {args : List Operand} (hop : op.Lists 1 := by exact ⟨rfl, rfl⟩)
    (hw : (∀ dst : Operand, List.Forall₂ (Fact.Suits (.dest dst.address :: K)) op.roles
      (dst.word :: (head ++ [args.length]))) ∧ ∀ f ∈ args.map fun a => Fact.source a.address,
        f ∈ K := by
        simp +contextual) :
    Goes ⟨k, H, K⟩ (emitCall op head args) fun o => ⟨k, H, .source o.address :: K⟩ := by
  have hargs : ∀ a ∈ args, .source a.address ∈ K := fun a ha => hw.2 _ (List.mem_map.2 ⟨a, ha, rfl⟩)
  refine .bind .temporary fun dst => .bind (.emitList hop (by simp) ⟨(hw.1 dst).imp fun _ _ h =>
    ?_, Fact.suits_words fun a ha => by simp [hargs a ha]⟩) fun _ => .bind (.releaseAll fun a ha =>
    .inl (by simp [hargs a ha])) fun _ => .done
  simp only [Fact.Suits, List.map_cons, List.mem_cons] at h ⊢
  tauto

/-! ### Names -/

namespace Plan

open Lower

variable (p : Plan) {e e' : Emitter}

theorem factsOf_ok {n : Node} {f : ExprFacts} :
    p.factsOf n e = .ok (f, e') ↔ p.facts.exprs.find? n.id = some f ∧ e = e' := by
  rw [factsOf]
  cases p.facts.exprs.find? n.id with
  | none => simp [internal_ok]
  | some g => simp [pure_ok]

theorem layoutOf_ok {cls : ClassRef} {l : Layout} :
    p.layoutOf cls e = .ok (l, e') ↔ p.layouts.find? cls = some (.ok l) ∧ e = e' := by
  rw [layoutOf]
  cases p.layouts.find? cls with
  | none => simp [throw_ok]
  | some r =>
    cases r with
    | error fault => simp [throw_ok]
    | ok m => simp [pure_ok]

variable {owner : ClassRef} {name message : String} {s : Slot}

theorem slot_ok (pick : Layout → Table String Slot) :
    (do match (pick (← p.layoutOf owner)).find? name with
        | some slot => return slot
        | none => internal message {} : Lower Slot) e = .ok (s, e') ↔
      (∃ l, p.layouts.find? owner = some (.ok l) ∧ (pick l).find? name = some s) ∧ e = e' := by
  rw [bind_ok]
  constructor
  · rintro ⟨l, e1, h1, h⟩
    obtain ⟨hl, rfl⟩ := p.layoutOf_ok.1 h1
    cases hs : (pick l).find? name with
    | none => simp [hs, internal_ok] at h
    | some t =>
      simp only [hs, pure_ok] at h
      exact ⟨⟨l, hl, h.1 ▸ hs⟩, h.2⟩
  · rintro ⟨⟨l, hl, hs⟩, rfl⟩
    exact ⟨l, e, p.layoutOf_ok.2 ⟨hl, rfl⟩, by simp [hs, pure_ok]⟩

theorem memberSlot_ok : p.memberSlot owner name e = .ok (s, e') ↔
    (∃ l, p.layouts.find? owner = some (.ok l) ∧ l.instances.find? name = some s) ∧ e = e' :=
  p.slot_ok (·.instances)

theorem staticSlot_ok : p.staticSlot owner name e = .ok (s, e') ↔
    (∃ l, p.layouts.find? owner = some (.ok l) ∧ l.statics.find? name = some s) ∧ e = e' :=
  p.slot_ok (·.statics)

end Plan

namespace Lower.Goes

variable {p : Plan} {s : Mark} {owner : ClassRef} {name : String} {n : Node}

theorem factsOf : Goes s (p.factsOf n) fun _ => s := by
  intro b e r f e' h
  obtain ⟨-, rfl⟩ := p.factsOf_ok.1 h
  exact r

theorem memberSlot : Goes s (p.memberSlot owner name) fun _ => s := by
  intro b e r slot e' h
  obtain ⟨-, rfl⟩ := p.memberSlot_ok.1 h
  exact r

theorem staticSlot : Goes s (p.staticSlot owner name) fun _ => s := by
  intro b e r slot e' h
  obtain ⟨-, rfl⟩ := p.staticSlot_ok.1 h
  exact r

end Lower.Goes

namespace Plan

variable {v : Operand}

open Lower

variable {p : Plan} {owner : ClassRef} {name : String} {receiver : Option Receiver}

instance getNamed_evaluates {base : Operand} :
    (getNamed base name).Evaluates [.source base.address] :=
  .of_goes fun _ => .bind .temporary fun _ => .bind .namePlace fun _ =>
    .bind .emit fun _ => .bind .release fun _ => .done

instance readMember_evaluates : (p.readMember owner name).Evaluates [] := by
  refine .of_goes fun _ => .bind .memberSlot fun s => ?_
  cases p.accessor? name s.getter with
  | some getter =>
    exact .bind .temporary fun _ => .bind .namePlace fun _ =>
      .bind .emitList fun _ => .done
  | none => exact .done

instance readStatic_evaluates : (p.readStatic owner name).Evaluates [] := by
  refine .of_goes fun _ => .bind .staticSlot fun s => .bind .classPlace fun _ =>
    .bind .temporary fun _ => ?_
  cases p.accessor? name s.getter with
  | some getter =>
    exact .bind .namePlace fun _ => .bind .emitList fun _ => .done
  | none => exact .bind .emit fun _ => .done

variable (op : Option BinaryOp) (n : Node)

instance readName_evaluates (name : String) (f : ExprFacts) :
    (p.readName n name f).Evaluates [] := by
  refine .of_goes fun _ => ?_
  unfold readName
  split
  · exact .internal
  · split
    · exact .bind .localAddress fun _ => .done
    · exact .step
    · exact .step
    · split
      · exact .classOperand
      · exact .internal
    · exact .bind .classOperand fun _ => .last .step
    iterate 6 exact .step
    · exact .classOperand
    · exact .nativeOperand
    · exact .bind .typePlace fun _ => .done
    all_goals
      exact .bind .temporary fun _ => .bind .namePlace fun _ => .bind .emit fun _ => .done

theorem readField_evaluates (name : String) (f : ExprFacts) {base : Lower Operand}
    (hb : base.Evaluates []) : (p.readField name f base).Evaluates [] := by
  refine .of_goes fun _ => ?_
  unfold readField
  split
  · exact .step
  · exact .classOperand
  · exact .nativeOperand
  · exact .bind hb.free fun _ => .last .step

/-! ### Assignments to names -/

instance writeMember_acts : (p.writeMember owner name v source).Acts [.source v.address] := by
  refine .of_goes fun _ => .bind .memberSlot fun s => ?_
  cases p.accessor? name s.setter with
  | some setter =>
    exact .bind .step fun _ => .bind .namePlace fun _ =>
      .bind .emitList fun _ => .last .release
  | none => exact .bind .step fun _ => .last .release

instance writeStatic_acts : (p.writeStatic owner name v source).Acts [.source v.address] := by
  refine .of_goes fun _ => .bind .staticSlot fun s => .bind .step fun _ =>
    .bind .classPlace fun _ => ?_
  cases p.accessor? name s.setter with
  | some setter =>
    exact .bind .namePlace fun _ => .bind .emitList fun _ => .last .release
  | none => exact .bind .emit fun _ => .last .release

variable {rhs read whole : Lower Operand} {source : StaticType}

theorem assigned_emits {current : Operand} (hr : rhs.Evaluates []) :
    (assigned op current rhs source).Emits [.source current.address] (fun _ => [])
      fun x => [.source x.1.address] := by
  refine .of_goes fun _ => .bind hr.free fun _ => ?_
  cases op with
  | none => exact .done
  | some op =>
    exact .bind .temporary fun _ => .bind .emit fun _ => .bind .releaseAll fun _ => .done

theorem current_evaluates {need : List Fact} (hr : read.Evaluates need) :
    (current op read).Evaluates need := by
  rw [current]
  split
  · exact hr
  · exact .of_goes fun _ => .done

theorem assignStatic_acts (hr : rhs.Evaluates []) :
    (p.assignStatic op owner name rhs source).Acts [] :=
  .of_goes fun _ => .bind (current_evaluates op readStatic_evaluates).free fun _ =>
    .bind (assigned_emits op hr).goes fun _ => .last .step

theorem assignName_acts (name : String) (f : ExprFacts) (target : Referent)
    (hr : rhs.Evaluates []) : (p.assignName op n name f target rhs source).Acts [] := by
  refine .of_goes fun _ => ?_
  unfold assignName
  split
  · exact .bind .localAddress fun _ => .bind (assigned_emits op hr).goes fun _ =>
      .bind .step fun _ => .last .release
  · exact .bind (current_evaluates op readMember_evaluates).free fun _ =>
      .bind (assigned_emits op hr).goes fun _ => .last .step
  · refine .bind .namePlace fun place => ?_
    have hread : Evaluates [.place .name place] (do
        let dst ← temporary
        emit .getNamed [dst.word, Address.self.encode, place]
        return dst) := .of_goes fun _ => .bind .temporary fun _ => .bind .emit fun _ => .done
    exact .bind (current_evaluates op hread).goes fun _ =>
      .bind (assigned_emits op hr).goes fun _ => .bind .emit fun _ => .last .release
  · exact .internal

/-! ### Calls -/

/-- The parts of a call give operands. -/
structure CallParts (receiver : Option Receiver) (whole : Lower Operand)
    (args : Lower (List Operand)) : Prop where
  receiver : ∀ r ∈ receiver, r.value.Evaluates []
  whole : whole.Evaluates []
  args : args.EvaluatesAll

variable {args : Lower (List Operand)} {value : Lower Operand}

theorem callNamed_evaluates {op : Opcode} (hop : op.Lists 1)
    (hroles : op.roles = [.dest, .source, .name, .count]) (hv : value.Evaluates [])
    (hargs : args.EvaluatesAll) :
    (callOn op value args (return [← namePlace name])).Evaluates [] := by
  refine .of_goes fun _ => ?_
  simp only [callOn, bind_assoc, pure_bind]
  exact .bind hv.free fun _ => .bind hargs.free fun _ => .bind .namePlace fun _ =>
    .bind (.emitCall hop (by simp +contextual [-Opcode.roles, hroles])) fun _ =>
    .bind .release fun _ => .done

theorem callValue_evaluates {op : Opcode} (hop : op.Lists 1)
    (hroles : op.roles = [.dest, .source, .count]) (hv : value.Evaluates [])
    (hargs : args.EvaluatesAll) : (callOn op value args (return [])).Evaluates [] := by
  refine .of_goes fun _ => ?_
  simp only [callOn, pure_bind]
  exact .bind hv.free fun _ => .bind hargs.free fun _ =>
    .bind (.emitCall hop (by simp +contextual [-Opcode.roles, hroles])) fun _ =>
    .bind .release fun _ => .done

theorem callNative_evaluates (cls name : String) (exact : Bool)
    (h : CallParts receiver whole args) :
    (p.callNative cls name exact receiver args).Evaluates [] := by
  have hcall {base : Lower Operand} (hb : base.Evaluates []) (onClass : Bool) :
      Evaluates [] (if onClass then do
          let args ← args
          emitCall .callNativeStatic [← nativePlace cls, ← namePlace name] args
        else if exact then
          callOn .callMethodBind base args do
            let name ← namePlace name
            return [← nativePlace cls, name]
        else callOn .call base args (return [← namePlace name])) := by
    split
    · exact .of_goes fun _ => .bind h.args.free fun _ => .bind .nativePlace fun _ =>
        .bind .namePlace fun _ => .last .emitCall
    · split
      · refine .of_goes fun _ => ?_
        simp only [callOn, bind_assoc, pure_bind]
        exact .bind hb.free fun _ => .bind h.args.free fun _ => .bind .namePlace fun _ =>
          .bind .nativePlace fun _ => .bind .emitCall fun _ => .bind .release fun _ =>
          .done
      · exact callNamed_evaluates ⟨rfl, rfl⟩ rfl hb h.args
  refine .of_goes fun _ => ?_
  cases receiver with
  | some r =>
    exact .bind .factsOf fun _ => .bind .skip fun _ => (hcall (h.receiver r rfl) _).free
  | none =>
    exact .bind .skip fun _ => (hcall (.of_goes fun _ => .done) _).free

theorem call_evaluates (d : Dispatch) (h : CallParts receiver whole args) :
    (p.call n d receiver whole args).Evaluates [] := by
  have hnamed {op : Opcode} (name : String) (hop : op.Lists 1)
      (hroles : op.roles = [.dest, .name, .count]) : Evaluates [] (do
        let args ← args
        emitCall op [← namePlace name] args) :=
    .of_goes fun _ => .bind h.args.free fun _ => .bind .namePlace fun _ =>
      .last (.emitCall hop (by simp +contextual [-Opcode.roles, hroles]))
  cases d with
  | self name isStatic =>
    refine .of_goes fun _ => .bind h.args.free fun _ => .bind .namePlace fun _ => ?_
    cases isStatic with
    | true =>
      exact .bind .classPlace fun _ => .last .emitCall
    | false => exact .last .emitCall
  | super name => exact hnamed name ⟨rfl, rfl⟩ rfl
  | script name isStatic onInstance =>
    cases receiver with
    | none => exact .internal
    | some receiver =>
      cases onInstance with
      | true => exact callNamed_evaluates ⟨rfl, rfl⟩ rfl (h.receiver receiver rfl) h.args
      | false =>
        refine .of_goes fun _ => .bind .factsOf fun f => ?_
        cases f.type.class? with
        | none => exact .internal
        | some cls =>
          exact .bind h.args.free fun _ => .bind .classPlace fun _ => .bind .namePlace fun _ =>
            .last .emitCall
  | native cls name exact => exact callNative_evaluates cls name exact h
  | builtin tag name =>
    cases receiver with
    | none => exact .internal
    | some receiver => exact callNamed_evaluates ⟨rfl, rfl⟩ rfl (h.receiver receiver rfl) h.args
  | utility name => exact hnamed name ⟨rfl, rfl⟩ rfl
  | construct tag =>
    exact .of_goes fun _ => .bind h.args.free fun _ => .bind .typePlace fun _ =>
      .last .emitCall
  | new =>
    cases receiver with
    | none => exact .internal
    | some receiver => exact callValue_evaluates ⟨rfl, rfl⟩ rfl (h.receiver receiver rfl) h.args
  | callable => exact callValue_evaluates ⟨rfl, rfl⟩ rfl h.whole h.args
  | dynamic name =>
    cases receiver with
    | none => exact hnamed name ⟨rfl, rfl⟩ rfl
    | some receiver => exact callNamed_evaluates ⟨rfl, rfl⟩ rfl (h.receiver receiver rfl) h.args

end Plan

/-! ### Chains of containers -/

def ElementKey.facts : ElementKey → List Fact
  | .named i => [.place .name i]
  | .keyed o => [.source o.address]

def ChainStep.facts (s : ChainStep) : List Fact := .source s.container.address :: s.key.facts

def Chain.facts (c : Chain) : List Fact := .source c.root.address :: c.steps.flatMap ChainStep.facts

abbrev Lower.Finds (m : Lower ElementKey) : Prop := m.Emits [] (fun _ => []) ElementKey.facts

abbrev Lower.Reaches (m : Lower Chain) : Prop := m.Emits [] (fun _ => []) Chain.facts

theorem Chain.source_containerOf (root : Operand) (steps : List ChainStep) :
    .source (containerOf root steps).address ∈
      Fact.source root.address :: steps.flatMap ChainStep.facts := by
  cases steps with
  | nil => simp [containerOf]
  | cons s steps => simp [containerOf, ChainStep.facts]

section

attribute [local simp] ElementKey.facts ChainStep.facts Chain.facts

namespace Lower

variable {container v : Operand} {key : ElementKey}

instance getElement_evaluates :
    (getElement container key).Evaluates (.source container.address :: key.facts) := by
  refine .of_goes fun _ => .bind .temporary fun _ => ?_
  cases key with
  | named i => exact .bind .emit fun _ => .done
  | keyed i => exact .bind .emit fun _ => .done

instance setElement_acts : (setElement container key v).Acts
      (.source container.address :: .source v.address :: key.facts) := by
  refine .of_goes fun _ => ?_
  cases key with
  | named i => exact .emit
  | keyed i => exact .emit

theorem memberKey_emits {name : String} : (memberKey name).Finds :=
  .of_goes fun _ => .bind .namePlace fun _ => .done

theorem indexKey_emits {index : Lower Operand} (hi : index.Evaluates []) : (indexKey index).Finds :=
  .of_goes fun _ => .bind hi.free fun _ => .bind .step fun _ => .done

instance releaseKey_acts : (releaseKey key).Acts key.facts := by
  refine .of_goes fun _ => ?_
  cases key with
  | named i => exact .done
  | keyed o => exact .release

instance unlessShared_emits {type : StaticType} :
    (unlessShared container type).Emits [.source container.address] (fun x => x.2) fun _ => [] := by
  refine .of_goes fun _ => ?_
  unfold unlessShared
  split
  · exact .done
  · exact .done
  · exact .bind .emitJump fun _ => .done

instance writeBack_emits (root : Operand) (steps : List ChainStep) :
    (writeBack root steps).Emits (.source root.address :: steps.flatMap ChainStep.facts)
      (fun x => x.2) fun _ => [] := by
  induction steps with
  | nil => exact .pure rfl rfl
  | cons s steps ih =>
    have hinner := Chain.source_containerOf root steps
    refine .of_goes fun _ => .bind .step fun ⟨ended, exits⟩ => ?_
    cases ended with
    | true => exact .done
    | false =>
      refine .bind (.step ?_) fun _ => .bind (ih.goes ?_) fun _ => .done ?_
      · simp only [List.forall_mem_cons]
        simp only [List.mem_cons] at hinner
        refine ⟨.inl ?_, by simp, by simp +contextual⟩
        rcases hinner with h | h <;> simp [h]
      · simp +contextual
      · simp +contextual [or_left_comm]

end Lower

namespace Plan

open Lower

variable {p : Plan}

theorem chainRoot_emits {x : Expr} {f : ExprFacts} {whole : Lower Operand}
    (hw : whole.Evaluates []) : (p.chainRoot x f whole).Reaches := by
  refine .of_goes fun _ => ?_
  unfold chainRoot
  split
  · exact .bind .step fun _ => .done
  · refine .bind .memberSlot fun s => ?_
    split
    · exact .done
    · exact .bind .step fun _ => .bind .step fun _ => .done
  · exact .bind hw.free fun _ => .done
  · exact .bind hw.free fun _ => .done

theorem descend_emits (c : Chain) {n : Node} {key : Lower ElementKey} (hk : key.Finds) :
    (p.descend c n key).Emits c.facts (fun _ => []) Chain.facts := by
  have hinner := Chain.source_containerOf c.root c.steps
  refine .of_goes fun _ => .bind hk.free fun i => .bind (.step ?_) fun _ =>
    .done ?_
  · refine List.forall_mem_cons.2 ⟨.inl ?_, by simp +contextual⟩
    exact List.mem_append_right _ (List.mem_append_left _ hinner)
  · simp +contextual [or_imp]

end Plan

end

namespace Plan

open Lower

variable {p : Plan} (op : Option BinaryOp) (c : Chain)

instance writeRoot_acts : (p.writeRoot c).Acts [.source c.root.address] := by
  refine .of_goes fun _ => ?_
  unfold writeRoot
  split
  · exact .done
  · refine .bind .memberSlot fun s => ?_
    cases s.setter with
    | some setter =>
      exact .bind .namePlace fun _ => .last .emitList
    | none => exact .learn (.dest s.index) (.last .emit)
  · refine .bind .staticSlot fun s => .bind .classPlace fun _ => ?_
    split
    · exact .bind .namePlace fun _ => .last .emitList
    · exact .last .emit
  · exact .bind .namePlace fun _ => .last .emit

instance writeBackRoot_tests : (p.writeBackRoot c).Tests [.source c.root.address] := by
  refine .of_goes fun _ => ?_
  unfold writeBackRoot
  split
  · exact .done
  · refine .bind .step fun ⟨ended, exits⟩ => ?_
    cases ended with
    | true => exact .done
    | false => exact .bind (writeRoot_acts c).goes fun _ => .done

theorem assignElement_acts {type source : StaticType} {key : Lower ElementKey} {rhs : Lower Operand}
    (hk : key.Finds) (hr : rhs.Evaluates []) :
    (p.assignElement op c key type rhs source).Acts c.facts := by
  have hroot : .source c.root.address ∈ c.facts := by simp [Chain.facts]
  have hinner : .source c.innermost.address ∈ c.facts := Chain.source_containerOf c.root c.steps
  have hstep : ∀ s ∈ c.steps.reverse, ∀ f ∈ s.facts, f ∈ c.facts := fun s hs f hf =>
    List.mem_cons_of_mem _ (List.mem_flatMap.2 ⟨s, List.mem_reverse.1 hs, hf⟩)
  have hcontainers : ∀ o ∈ c.steps.reverse.map (·.container), .source o.address ∈ c.facts := by
    intro o ho
    obtain ⟨s, hs, rfl⟩ := List.mem_map.1 ho
    exact hstep s hs _ (by simp [ChainStep.facts])
  have hkeys : ∀ i ∈ c.steps.reverse.map (·.key), ∀ f ∈ i.facts, f ∈ c.facts := by
    intro i hi f hf
    obtain ⟨s, hs, rfl⟩ := List.mem_map.1 hi
    exact hstep s hs f (.tail _ hf)
  refine .of_goes fun ⟨k, H, K⟩ => .bind hk.free fun i =>
    .bind ((current_evaluates op getElement_evaluates).goes ?_) fun old =>
    .bind (assigned_emits op hr).goes fun _ => .bind .step fun _ =>
    .bind (.step ?_) fun _ => .bind .release fun _ =>
    .bind ((writeBack_emits c.root c.steps).goes ?_) fun ⟨ended, exits⟩ => ?_
  · simp +contextual [hinner]
  · simp +contextual [hinner]
  · exact fun f hf => .inl (by simp [show f ∈ c.facts from hf])
  · dsimp -zeta only
    extract_lets rest
    have hend {L : List Fact} (hL : ∀ f ∈ i.facts ++ (c.facts ++ K), f ∈ L) (more : List Nat) :
        Goes ⟨k, more ++ (exits ++ H), L⟩ (rest more) fun _ => ⟨k, H, c.facts ++ K⟩ := by
      have hc : ∀ f ∈ c.facts, f.Known L := fun f hf => .inl (hL f (by simp [hf]))
      refine .reorder ((exits ++ more) ++ H) (.bind .patchAll fun _ =>
        .bind (.release (hc _ hroot)) fun _ => .bind (.releaseAll fun o ho =>
          hc _ (hcontainers o ho)) fun _ =>
        .bind (.forM fun i hi => releaseKey_acts.goes fun f hf => hc f (hkeys i hi f hf)) fun _ =>
        .last (.step fun f hf => .inl (hL f (by simp [hf]))) fun _ => ⟨rfl, by simp, ?_⟩)
      exact fun f hf => .inl (List.mem_append_right _ (hL f (by simp_all)))
    cases ended with
    | true => exact hend (by simp +contextual) []
    | false =>
      exact .bind ((writeBackRoot_tests c).goes (by simp [hroot])) fun _ =>
        hend (by simp +contextual) _

end Plan

end HotScript
