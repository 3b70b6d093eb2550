import HotScript.Lower.Class
import HotScript.Proofs.Lower.Parts
import HotScript.Proofs.Syntax.Induction

/-!
Everything that is compiled is well formed.
-/

namespace HotScript

open Emitter

-- What is asked of the instructions that are written out.
attribute [local simp] Opcode.roles Opcode.isJump Opcode.shape

/-! ### Expressions from their parts -/

namespace Lower

variable {condition yes no left right value iterable : Lower Operand} {type : StaticType}
  {test : Operand → Lower (List Nat)}

theorem construct_evaluates {op : Opcode} {stride count : Nat} {items : Lower (List Operand)}
    (hop : op.Lists stride) (hroles : op.roles = [.dest, .type, .count])
    (hitems : items.EvaluatesAll)
    (hcount : ∀ {e os e'}, items e = .ok (os, e') → os.length = count * stride) :
    (items >>= construct op type count).Evaluates [] := by
  refine ⟨fun b k e H K _ r o e' h => ?_⟩
  obtain ⟨os, e1, h1, h⟩ := bind_ok.1 h
  have hos : ∀ o ∈ os, .source o.address ∈ os.map (fun o => Fact.source o.address) ++ K :=
    fun o ho => List.mem_append_left _ (List.mem_map.2 ⟨o, ho, rfl⟩)
  have hc : Goes ⟨k, H, os.map (fun o => .source o.address) ++ K⟩ (construct op type count os)
      fun o =>
    ⟨k, H, .source o.address :: K⟩ := .bind .temporary fun _ => .bind .typePlace fun _ =>
    .bind (.emitList hop (by simpa using hcount h1) ⟨by simp [-Opcode.roles, hroles],
      Fact.suits_words fun o ho => by simp [hos o ho]⟩) fun _ =>
    .bind (.releaseAll fun o ho => .inl (by simp [hos o ho])) fun _ => .done
  exact hc (hitems.free r h1) h

instance apply_emits {op : Operator} {x y : Operand} :
    (apply op x y).Emits [.source x.address, .source y.address] (fun _ => [])
      fun o => [.dest o.address, .source o.address] :=
  .of_goes fun _ => .bind .temporary fun _ => .bind .emit fun _ => .done

instance negate_acts {dst : Operand} : (negate dst).Acts [.dest dst.address, .source dst.address] :=
  .of_goes fun _ => .emit

instance logical_evaluates (op : BinaryOp) [left.Evaluates []] [right.Evaluates []] :
    (logical op left right).Evaluates [] := by
  have hjump {k : Nat} {H : List Nat} {K : List Fact} {v : Operand} (hv : .source v.address ∈ K) :
      Goes ⟨k, H, K⟩ (emitJump (if op = .and then .jumpIfNot else .jumpIf) [v.word]) fun jump =>
        ⟨k, jump :: H, K⟩ := by
    refine .emitJump ?_
    have : (Role.source, v.address.encode) ∈ K.map Fact.word := List.mem_map.2 ⟨_, hv, rfl⟩
    split <;> simp [this]
  exact .of_goes fun ⟨_, H, _⟩ => .bind .temporary fun _ => .bind .step fun _ =>
    .bind (hjump (by simp)) fun first => .bind .release fun _ => .bind .step fun _ =>
    .bind (hjump (by simp)) fun second => .bind .release fun _ => .bind .constant fun _ =>
    .bind .emit fun _ => .bind .emitJump fun toEnd =>
    .reorder (first :: second :: toEnd :: H) (.bind .patch fun _ =>
    .bind .patch fun _ => .bind .constant fun _ => .bind .emit fun _ => .bind .patch fun _ => .done)

theorem choose_evaluates (hc : condition.Evaluates []) (hy : yes.Evaluates [])
    (hn : no.Evaluates []) : (choose condition yes no).Evaluates [] :=
  .of_goes fun _ => .bind .temporary fun _ => .bind hc.free fun _ =>
    .bind .emitJump fun _ => .bind .release fun _ => .bind hy.free fun _ => .bind .emit fun _ =>
    .bind .release fun _ => .bind .emitJump fun _ => .bind .patchNext fun _ =>
    .bind hn.free fun _ => .bind .emit fun _ => .bind .release fun _ => .bind .patch fun _ => .done

instance testType_emits {v : Operand} : (testType v type).Emits [.source v.address] (fun _ => [])
      fun o => [.dest o.address, .source o.address] :=
  .of_goes fun _ => .bind .temporary fun _ => .bind .typePlace fun _ => .bind .emit fun _ => .done

instance emitDefault_acts {slot : Address} : (emitDefault slot type).Acts [.dest slot] := by
  refine .of_goes fun _ => ?_
  unfold emitDefault
  dsimp only
  split
  · refine .bind .typePlace fun _ => ?_
    split
    · exact .last .emitList
    · split
      · exact .last .emitList
      · exact .last .emitList
  · exact .bind .constant fun _ => .last .emit

/-! ### Patterns -/

variable {subject : Operand}

instance testContainer_tests {tag : Tag} {size : Nat} {isOpen : Bool} :
    (testContainer subject tag size isOpen).Tests [.source subject.address] :=
  .of_goes fun _ => .bind .step fun _ => .bind .emitJump fun _ =>
    .bind .temporary fun _ => .bind .namePlace fun _ => .bind .emitList fun _ =>
    .bind .constant fun _ => .bind .emit fun _ => .bind .emitJump fun _ =>
    .bind .releaseAll fun _ => .done

instance testEqual_tests [value.Evaluates []] :
    (testEqual subject value).Tests [.source subject.address] :=
  .of_goes fun _ => .bind .step fun _ => .bind .temporary fun _ => .bind .emit fun _ =>
    .bind .emitJump fun _ => .bind .releaseAll fun _ => .done

instance matchElement_tests {key : Operand} [∀ v, (test v).Tests [.source v.address]] :
    (matchElement subject key test).Tests [.source subject.address, .source key.address] :=
  .of_goes fun _ => .bind .temporary fun _ => .bind .emit fun _ =>
    .bind .step fun _ => .bind .release fun _ => .done

theorem matchEntry_tests {key : Lower Operand} {test : Option (Operand → Lower (List Nat))}
    (hk : key.Evaluates []) (ht : ∀ t ∈ test, ∀ v, (t v).Tests [.source v.address]) :
    (matchEntry subject key test).Tests [.source subject.address] := by
  refine .of_goes fun _ => .bind hk.free fun _ => .bind .step fun _ =>
    .bind .emitJump fun _ => .bind .release fun _ => ?_
  cases test with
  | none =>
    simp only [pure_bind]
    exact .bind .release fun _ => .done
  | some test =>
    have := ht test rfl
    exact .bind .step fun _ => .bind .release fun _ => .done

variable {need K : List Fact} {body : Lower Unit} {span : Span}

theorem matchBranch_emits {alternatives : Lower (List Nat × List Nat)}
    {guard : Option (Lower Operand)}
    (ha : alternatives.Emits need (fun x => x.1 ++ x.2) fun _ => [])
    (hg : ∀ g ∈ guard, g.Evaluates []) (hb : body.Acts []) :
    (matchBranch alternatives guard body).Emits need (fun jump => [jump]) fun _ => [] := by
  refine .of_goes fun ⟨k, H, K⟩ => .bind ha.goes fun ⟨matched, failed⟩ =>
    .reorder (failed ++ (matched ++ H)) (.bind .patchAll fun _ => .bind .emitJump fun toNext =>
    .reorder (matched ++ (toNext :: H)) (.bind .patchAll fun _ => ?_))
  extract_lets rest
  have hend (unguarded : List Nat) : Goes ⟨k, unguarded ++ toNext :: H, need ++ K⟩ (rest unguarded)
      fun jump => ⟨k, jump :: H, need ++ K⟩ :=
    .bind hb.free fun _ => .bind .emitJump fun jump =>
      .reorder ((toNext :: unguarded) ++ jump :: H) (.bind .patchAll fun _ => .done)
  cases guard with
  | none => exact hend []
  | some guard =>
    exact .bind (hg guard rfl).free fun _ => .bind .emitJump fun jump => .bind .release fun _ =>
      .forget (hend [jump])

theorem joined_tests {first second : Lower (List Nat)} (hf : first.Tests need)
    (hs : second.Tests need) : Tests need (do
      let fails ← first
      return fails ++ (← second)) :=
  .of_goes fun _ => .bind hf.goes fun _ => .bind hs.goes fun _ => .done

theorem element_tests {i : Nat} {rest : Lower (List Nat)}
    (_ : ∀ v, (test v).Tests [.source v.address])
    (_ : rest.Tests [.source subject.address]) : Tests [.source subject.address] (do
      let key ← constant (.int (Int64.ofNat i))
      let fails ← matchElement subject key test
      return fails ++ (← rest)) :=
  .of_goes fun _ => .bind .constant fun _ => .bind .step fun _ => .bind .step fun _ => .done

instance loopWhile_acts {line : Nat} [condition.Evaluates []] [body.Acts []] :
    (loopWhile line condition body).Acts [] :=
  .of_goes fun ⟨_, H, _⟩ => .bind .offset fun _ => .bind .step fun _ =>
    .bind .emitJump fun toEnd => .bind .release fun _ => .bind .enterLoop fun _ =>
    .bind .step fun _ => .bind .leaveLoop fun labels => .bind .setLine fun _ =>
    .bind .emitJump fun _ => .bind .patchTo fun _ =>
    .reorder (toEnd :: (labels.breaks ++ (labels.continues ++ H))) (.bind .patch fun _ =>
    .bind .patchAll fun _ => .last .patchAllTo)

instance loopOver_acts {n : Node} [iterable.Evaluates []] [body.Acts []] :
    (loopOver n type iterable body).Acts [] := by
  refine .of_goes fun ⟨k, H, K⟩ => .bind .step fun _ =>
    .bind .step fun container => .bind .temporary fun state =>
    .bind .declareLocal fun element => .bind .emitJump fun first => .bind .offset fun start => ?_
  extract_lets rest
  have hend : Goes ⟨k, first :: H, .boundary start :: .dest element :: .source element ::
      .dest state.address :: .source state.address :: .source container.address :: K⟩ (rest ())
      fun _ => ⟨k, H, K⟩ :=
    .bind .enterLoop fun _ => .bind .step fun _ => .bind .leaveLoop fun labels =>
      .bind .offset fun _ =>
      .bind .setLine fun _ => .bind .emitJump fun advance => .bind .emitJump fun _ =>
      .bind .patchTo fun _ =>
        .reorder (first :: advance :: (labels.breaks ++ (labels.continues ++ H)))
        (.bind .patch fun _ => .bind .patch fun _ => .bind .patchAll fun _ =>
          .bind .patchAllTo fun _ =>
        .last .releaseAll)
  split
  · exact .bind .typePlace fun _ => .bind .emit fun _ => .forget hend
  · exact .forget hend

/-! ### Functions -/

variable {e e' : Emitter}

theorem localAddress_ok {decl : NodeId} {a : Address} : localAddress decl span e = .ok (a, e') ↔
      (∃ slot, e.locals.find? decl = some slot ∧ a = .stack slot) ∧ e = e' := by
  rw [localAddress, bind_ok]
  simp only [get_ok]
  constructor
  · rintro ⟨_, _, ⟨rfl, rfl⟩, h⟩
    cases hd : e.locals.find? decl with
    | none => exact (internal_ok.1 (hd ▸ h)).elim
    | some slot =>
      simp only [hd, pure_ok] at h
      exact ⟨⟨slot, rfl, h.1.symm⟩, h.2⟩
  · rintro ⟨⟨slot, hd, rfl⟩, rfl⟩
    exact ⟨e, e, ⟨rfl, rfl⟩, by simp [hd, pure_ok]⟩

theorem mapM_localAddress {cs : List Capture} {as : List Address} {b : Emitter × List Nat} {k : Nat}
    {H : List Nat} (r : Run b k e H K) (h : cs.mapM (fun c => localAddress c.decl span)
      e = .ok (as, e')) :
    e = e' ∧ as.length = cs.length ∧ ∀ a ∈ as, e.storage.Has a := by
  induction cs generalizing as with
  | nil =>
    obtain ⟨rfl, rfl⟩ := pure_ok.1 h
    exact ⟨rfl, rfl, by simp⟩
  | cons c cs ih =>
    rw [List.mapM_cons] at h
    simp only [bind_ok] at h
    obtain ⟨a, e1, h1, as, e2, h2, rfl, rfl⟩ := h
    obtain ⟨⟨slot, hd, rfl⟩, rfl⟩ := localAddress_ok.1 h1
    obtain ⟨rfl, hlen, has⟩ := ih h2
    refine ⟨rfl, by simp [hlen], fun a ha => ?_⟩
    rcases List.mem_cons.1 ha with rfl | ha
    · exact r.stands.locals _ _ hd
    · exact has a ha

end Lower

namespace Plan

variable {f : FunctionFacts} {type source : StaticType} {span : Span} {key : Lower ElementKey}

open Lower

-- The equations of the recursion are used by nearly every lemma below.
variable {p : Plan} {id : NodeId} {n : Node} {t : TypeSpec} {name : Ident} {subject : Operand}

theorem folded_evaluates {act : ExprFacts → Lower Operand} (ha : ∀ f, (act f).Evaluates []) :
    (p.folded n act).Evaluates [] := by
  refine .of_goes fun _ => .bind .factsOf fun f => ?_
  split
  · exact .constant
  · exact (ha f).free

theorem makeLambda_evaluates {inner : FunctionFacts → Lower (List Nat)}
    (hi : ∀ f, Completes (inner f)) : (p.makeLambda id name params inner).Evaluates [] := by
  refine ⟨fun b k e H K _ r o e' h => ?_⟩
  rw [makeLambda] at h
  cases hf : p.facts.functions.find? id with
  | none => exact (internal_ok.1 (hf ▸ h)).elim
  | some f =>
    simp only [hf, bind_ok, pure_ok] at h
    obtain ⟨⟨entries, e0⟩, e1, h1, place, e2, h2, as, e3, h3, dst, e4, h4, _, e5, h5, rfl, rfl⟩ := h
    obtain ⟨r, hcode⟩ := r.apart (hi f) h1
    obtain ⟨r, hplace⟩ := r.addLambda (hcode _ rfl rfl rfl rfl) h2
    obtain ⟨rfl, hlen, has⟩ := mapM_localAddress r h3
    have hwithin := temporary_within h4
    have r := Goes.temporary r h4
    have hlambda : e4.storage.Admits (as.map Address.encode).length .lambda place := by
      refine ⟨_, hwithin.lambdas _ _ hplace, ?_⟩
      rw [List.length_map, hlen]
      rfl
    have hitems : ∀ w ∈ as.map Address.encode, e4.storage.Admits 0 .source w := by
      intro w hw
      obtain ⟨a, ha, rfl⟩ := List.mem_map.1 hw
      exact ⟨a, rfl, (has a ha).mono hwithin⟩
    have r : Run b k e5 H (.dest dst.address :: .source dst.address :: K) := by
      split at h5
      · next hself =>
        exact r.emitItems h5 rfl rfl (by simp)
          (.cons (r.suits (by simp) _) (.cons hlambda (.cons trivial .nil))) hitems
          fun _ => ⟨place, _, rfl, hwithin.lambdas _ _ hplace, fun _ => hself, fun _ => rfl⟩
      · next hself =>
        exact r.emitItems h5 rfl rfl (by simp)
          (.cons (r.suits (by simp) _) (.cons hlambda (.cons trivial .nil))) hitems
          fun _ => ⟨place, _, rfl, hwithin.lambdas _ _ hplace, nofun, fun h => absurd h hself⟩
    exact r.forget (by simp +contextual)

instance declareInputs_acts : (declareInputs f params).Acts [] := by
  have hdeclare (k : Nat) (H : List Nat) (K : List Fact) (decl : NodeId) :
      Goes ⟨k, H, K⟩ (do let _ ← declareLocal decl) fun _ => ⟨k, H, K⟩ :=
    .bind .declareLocal fun _ => .done
  exact .of_goes fun _ => .bind (.forM fun _ _ => hdeclare _ _ _ _) fun _ =>
    .forM fun _ _ => hdeclare _ _ _ _

theorem storeDefault_acts {d : Expr} {value : Lower Operand} (hv : value.Evaluates []) :
    (p.storeDefault id name type d value).Acts [] :=
  .of_goes fun _ => .bind .setLine fun _ => .bind hv.free fun _ =>
    .bind .localAddress fun _ => .bind .step fun _ => .last .release

theorem initLocal_acts {value : Lower Operand} (hv : value.Evaluates []) :
    (p.initLocal id x value).Acts [] :=
  .of_goes fun _ => .bind hv.free fun _ => .bind .declareLocal fun _ =>
    .bind .step fun _ => .last .release

instance initConstant_acts : (p.initConstant id span).Acts [] := by
  refine .of_goes fun _ => ?_
  unfold initConstant
  split
  · exact .internal
  · exact .bind .declareLocal fun _ => .bind .constant fun _ => .last .emit

variable {es args : List Expr} {e e' e0 : Emitter} {os : List Operand} {params : List ParamDecl}
  {bs : List Branch} {rhs whole : Lower Operand}

theorem exprs_length (h : p.exprs es e = .ok (os, e')) : os.length = es.length := by
  induction es generalizing os e with
  | nil =>
    obtain ⟨rfl, -⟩ := pure_ok.1 h
    rfl
  | cons x es ih =>
    simp only [exprs, bind_ok] at h
    obtain ⟨o, e1, -, os, e2, h2, rfl, rfl⟩ := h
    rw [List.length_cons, List.length_cons, ih h2]

theorem entries_length {es : List (Expr × Expr)} (h : p.entries es e = .ok (os, e')) :
    os.length = es.length * 2 := by
  induction es generalizing os e with
  | nil =>
    obtain ⟨rfl, -⟩ := pure_ok.1 h
    rfl
  | cons x es ih =>
    simp only [entries, bind_ok] at h
    obtain ⟨o, e1, -, u, e2, -, os, e3, h3, rfl, rfl⟩ := h
    rw [List.length_cons, List.length_cons, List.length_cons, ih h3]
    omega

theorem complete_of_run {K : List Fact} {entries : List Nat} {u : Unit}
    (r : Run (e0, []) 0 e [] K) (hl : e0.loops = [])
    (h : emit .giveBack [Address.nil.encode] e = .ok (u, e'))
    (hentries : ∀ t ∈ entries, .boundary t ∈ K) :
    e0.Leads [] [] e' ∧ (∀ f ∈ e'.classLambdas, f.Sound e'.classLambdas) ∧
      ∀ f : FunctionCode, f.chunk = e'.chunk → f.pool = e'.pool → f.stackSize = e'.stackSize →
        f.entries = entries → f.Sound e'.classLambdas := by
  have hleads := (Goes.emit (by simp) r h).leads
  have he := modify_ok.1 h
  subst he
  refine ⟨hleads, r.stands.lambdas, fun g hchunk hpool hstack hg => ?_⟩
  exact r.finish hl hchunk hpool hstack (hg ▸ hentries)

theorem completes {defaults : Lower (List Nat)} {body : Lower Unit} (pick : List Nat → List Nat)
    (hd : defaults.Emits [] (fun _ => []) fun ts => ts.map .boundary) (hb : body.Acts [])
    (hp : ∀ ts, ∀ t ∈ pick ts, t ∈ ts) : Completes (do
      declareInputs f params
      let entries ← defaults
      body
      endFunction span
      return pick entries) := by
  intro e0 hs hl entries e h
  simp only [endFunction, bind_ok] at h
  obtain ⟨_, e1, h1, ts, e2, h2, _, e3, h3, _, e4, ⟨_, e5, h5, h4⟩, rfl, rfl⟩ := h
  have r := Goes.setLine (hb.free (hd.free (declareInputs_acts.free (Run.start hs) h1) h2) h3) h5
  exact complete_of_run r hl h4 fun t ht => by simp [hp ts t ht]

/-! ### Lists of parts -/

theorem exprs_evaluates (h : ∀ x ∈ es, (p.expr x).Evaluates []) : (p.exprs es).EvaluatesAll := by
  induction es with
  | nil => exact .pure rfl rfl
  | cons x es ih =>
    obtain ⟨hx, hes⟩ := List.forall_mem_cons.1 h
    exact .of_goes fun _ => .bind hx.free fun _ => .bind (ih hes).free fun _ => .done

theorem entries_evaluates {es : List (Expr × Expr)}
    (h : ∀ x ∈ es, (p.expr x.1).Evaluates [] ∧ (p.expr x.2).Evaluates []) :
    (p.entries es).EvaluatesAll := by
  induction es with
  | nil => exact .pure rfl rfl
  | cons x es ih =>
    obtain ⟨⟨hi, hv⟩, hes⟩ := List.forall_mem_cons.1 h
    exact .of_goes fun _ => .bind hi.free fun _ => .bind hv.free fun _ =>
      .bind (ih hes).free fun _ =>
      .done

theorem defaults_emits (h : ∀ d ∈ params, ∀ x ∈ d.default, (p.expr x).Evaluates []) (required : Nat)
    (types : List (String × StaticType)) :
    (p.defaults required types params).Emits [] (fun _ => []) fun ts => ts.map .boundary := by
  induction params generalizing required types with
  | nil =>
    exact .of_goes fun _ => .bind .offset fun _ => .done
  | cons d rest ih =>
    obtain ⟨hd, hrest⟩ := List.forall_mem_cons.1 h
    obtain ⟨id, name, _, _, default⟩ := d
    cases required with
    | succ required =>
      exact ih hrest required types.tail
    | zero =>
      cases default with
      | none =>
        exact .of_goes fun _ => .bind .offset fun _ => .bind (ih hrest 0 _).free fun _ => .done
      | some d =>
        exact .of_goes fun _ => .bind .offset fun _ => .bind (storeDefault_acts (hd d rfl)).free
          fun _ =>
          .bind (ih hrest 0 _).free fun _ => .done

theorem statements_acts {body : List Stmt} (h : ∀ s ∈ body, (p.statement s).Acts []) :
    (p.statements body).Acts [] := by
  induction body with
  | nil => exact .pure rfl rfl
  | cons s rest ih =>
    obtain ⟨hs, hrest⟩ := List.forall_mem_cons.1 h
    exact .of_goes fun _ => .bind .setLine fun _ => .bind hs.free fun _ => (ih hrest).free

theorem alternatives_emits {ps : List Pattern}
    (h : ∀ q ∈ ps, (p.pattern subject q).Tests [.source subject.address]) :
    (p.alternatives subject ps).Emits [.source subject.address] (fun x => x.1 ++ x.2)
      fun _ => [] := by
  induction ps with
  | nil => exact .pure rfl rfl
  | cons q rest ih =>
    obtain ⟨hq, hrest⟩ := List.forall_mem_cons.1 h
    refine .of_goes fun ⟨_, H, _⟩ => .bind hq.goes fun failed => .bind .emitJump fun matched => ?_
    split
    · exact .done
    · exact .reorder (failed ++ matched :: H) (.bind .patchAll fun _ =>
        .bind (ih hrest).goes fun _ =>
          .done)

theorem branches_tests
    (h : ∀ b ∈ bs, (∀ q ∈ b.patterns, (p.pattern subject q).Tests [.source subject.address]) ∧
      (∀ g ∈ b.guard, (p.expr g).Evaluates []) ∧ (p.statements b.body).Acts []) :
    (p.branches subject bs).Tests [.source subject.address] := by
  induction bs with
  | nil => exact .pure rfl rfl
  | cons branch rest ih =>
    obtain ⟨⟨hps, hg, hbody⟩, hrest⟩ := List.forall_mem_cons.1 h
    obtain ⟨node, patterns, guard, body⟩ := branch
    have hend {guard : Option (Lower Operand)} (hg : ∀ g ∈ guard, g.Evaluates []) :
        Tests [.source subject.address] (do
          setLine node.span.line
          let toEnd ← matchBranch (p.alternatives subject patterns) guard (p.statements body)
          return toEnd :: (← p.branches subject rest)) :=
      .of_goes fun _ => .bind .setLine fun _ =>
        .bind (matchBranch_emits (alternatives_emits hps) hg hbody).goes fun _ =>
        .bind (ih hrest).goes fun _ => .done
    cases guard with
    | none => exact hend (by simp)
    | some g => exact hend (by simpa using hg)

theorem elements_tests {es : List Pattern}
    (h : ∀ q ∈ es, ∀ v, (p.pattern v q).Tests [.source v.address]) (i : Nat) :
    (p.elements subject i es).Tests [.source subject.address] := by
  induction es generalizing i with
  | nil => exact .pure rfl rfl
  | cons q rest ih =>
    obtain ⟨hq, hrest⟩ := List.forall_mem_cons.1 h
    cases q with
    | rest n => exact ih hrest i
    | wildcard n => exact ih hrest (i + 1)
    | _ => exact element_tests hq (ih hrest (i + 1))

theorem patternEntries_tests {es : List (Pattern × Option Pattern)}
    (h : ∀ e ∈ es, (∀ n x, e.1 = .literal n x ∨ e.1 = .expr n x → (p.expr x).Evaluates []) ∧
      ∀ q ∈ e.2, ∀ v, (p.pattern v q).Tests [.source v.address]) :
    (p.patternEntries subject es).Tests [.source subject.address] := by
  induction es with
  | nil => exact .pure rfl rfl
  | cons entry rest ih =>
    obtain ⟨⟨hkey, hvalue⟩, hrest⟩ := List.forall_mem_cons.1 h
    obtain ⟨key, value⟩ := entry
    cases key with
    | rest n => cases value <;> exact joined_tests (.pure rfl rfl) (ih hrest)
    | literal n x | expr n x =>
      have hx := hkey n x (by simp)
      cases value with
      | none => exact joined_tests (matchEntry_tests hx (by simp)) (ih hrest)
      | some value =>
        exact joined_tests (matchEntry_tests hx (by simpa using hvalue value rfl)) (ih hrest)
    | _ => cases value <;> exact joined_tests .internal (ih hrest)

/-! ### One construct -/

variable {op : Option BinaryOp} {c x y base index value callee target : Expr}

theorem array_evaluates (hes : ∀ x ∈ es, (p.expr x).Evaluates []) :
    (p.expr (.array n es)).Evaluates [] :=
  .of_goes fun _ => .bind .factsOf fun _ =>
    (construct_evaluates ⟨rfl, rfl⟩ rfl (exprs_evaluates hes)
      fun h => by simp [exprs_length h]).free

theorem dictionary_evaluates {es : List (Expr × Expr)}
    (hes : ∀ x ∈ es, (p.expr x.1).Evaluates [] ∧ (p.expr x.2).Evaluates []) :
    (p.expr (.dictionary n es)).Evaluates [] :=
  .of_goes fun _ => .bind .factsOf fun _ =>
    (construct_evaluates ⟨rfl, rfl⟩ rfl (entries_evaluates hes) entries_length).free

section

variable [(p.expr x).Evaluates []]

instance unary_evaluates {op : UnaryOp} : (p.expr (.unary n op x)).Evaluates [] :=
  folded_evaluates fun _ => .of_goes fun _ => .bind .step fun _ =>
    .bind .step fun _ => .bind .release fun _ => .done

instance binary_evaluates {op : BinaryOp} [(p.expr y).Evaluates []] :
    (p.expr (.binary n op x y)).Evaluates [] := by
  refine folded_evaluates fun _ => ?_
  split
  · infer_instance
  · refine .of_goes fun _ => .bind .step fun _ => .bind .step fun _ =>
      .bind .step fun _ => ?_
    split
    · exact .bind .step fun _ => .bind .releaseAll fun _ => .done
    · exact .bind .releaseAll fun _ => .done

instance cast_evaluates : (p.expr (.cast n x t)).Evaluates [] := by
  refine folded_evaluates fun f => .of_goes fun _ => .bind .step fun _ => ?_
  split
  · exact .done
  · exact .bind .temporary fun _ => .bind .typePlace fun _ => .bind .emit fun _ =>
      .bind .release fun _ => .done

instance typeTest_evaluates {negated : Bool} : (p.expr (.typeTest n x t negated)).Evaluates [] := by
  refine folded_evaluates fun f => ?_
  split
  · exact .internal
  · refine .of_goes fun _ => .bind .step fun _ => .bind .step fun _ => ?_
    split
    · exact .bind .step fun _ => .bind .release fun _ => .done
    · exact .bind .release fun _ => .done

instance await_evaluates : (p.expr (.await n x)).Evaluates [] :=
  folded_evaluates fun _ => .of_goes fun _ => .bind .step fun _ => .bind .temporary fun _ =>
    .bind .emit fun _ => .bind .release fun _ => .done

instance exprStmt_acts : (p.statement (.expr n x)).Acts [] :=
  .of_goes fun _ => .bind .step fun _ => .last .release

end

theorem assign_evaluates (ht : ∀ f rhs source, rhs.Evaluates [] →
    (p.assignTo op f rhs source target).Acts [])
    (hv : (p.expr value).Evaluates []) : (p.expr (.assign n op target value)).Evaluates [] := by
  refine .of_goes fun _ => .bind .factsOf fun _ => .bind .factsOf fun f => ?_
  split
  · exact .bind (assignStatic_acts op hv).free fun _ => .done
  · exact .bind (ht f _ _ hv).free fun _ => .done

instance subscript_evaluates [(p.expr base).Evaluates []] [(p.expr index).Evaluates []] :
    (p.expr (.subscript n base index)).Evaluates [] :=
  folded_evaluates fun _ => .of_goes fun _ => .bind .step fun _ => .bind .step fun _ =>
    .bind .temporary fun _ => .bind .emit fun _ => .bind .releaseAll fun _ => .done

theorem callExpr_evaluates {isSuper : Bool} (hc : (p.expr callee).Evaluates [])
    (hr : ∀ r ∈ p.receiver callee, r.value.Evaluates [])
    (ha : ∀ x ∈ args, (p.expr x).Evaluates []) :
    (p.expr (.call n callee args isSuper)).Evaluates [] := by
  refine folded_evaluates fun f => ?_
  split
  · exact call_evaluates n _ ⟨hr, hc, exprs_evaluates ha⟩
  · exact .internal

theorem lambda_evaluates (d : FunctionDecl) (hd : ∀ (f : FunctionFacts), ∀ q ∈ d.params,
    ∀ x ∈ q.default,
      ((p.inside f).expr x).Evaluates [])
    (hb : ∀ (f : FunctionFacts), ((p.inside f).statements d.body).Acts []) :
    (p.expr (.lambda n d)).Evaluates [] := by
  obtain ⟨id, name, params, result, body, bodySpan, isStatic⟩ := d
  refine .of_goes fun _ => .bind .factsOf fun _ => (makeLambda_evaluates fun f => ?_).free
  exact completes (fun ts => if params.any (·.default.isSome) then ts else [])
    (defaults_emits (hd f) _ _) (hb f) fun ts t ht => by split at ht <;> simp_all

instance preload_evaluates {path : String} : (p.expr (.preload n path)).Evaluates [] := by
  refine folded_evaluates fun f => .of_goes fun _ => ?_
  split
  · exact .classOperand
  · exact .internal

theorem element_acts (hr : rhs.Evaluates [])
    (hc : (p.containers (p.expr base) base).Reaches) (hk : key.Finds) : Lower.Acts [] (do
      p.assignElement op (← p.containers (p.expr base) base) key type rhs source) :=
  .of_goes fun _ => .bind hc.free fun c => .last (assignElement_acts op c hk hr).goes

theorem element_reaches (hw : whole.Evaluates []) (hc : (p.containers (p.expr base) base).Reaches)
    (hk : key.Finds) : Lower.Reaches (do
      let f ← p.factsOf n
      if startsChain f then p.chainRoot x f whole
      else p.descend (← p.containers (p.expr base) base) n key) := by
  refine .of_goes fun _ => .bind .factsOf fun f => ?_
  split
  · exact (chainRoot_emits hw).free
  · exact .bind hc.free fun d => .last (descend_emits d hk).goes (by simp +contextual [or_imp])

theorem var_acts (d : VariableDecl) (hd : ∀ x ∈ d.initializer, (p.expr x).Evaluates []) :
    (p.statement (.var n d)).Acts [] := by
  obtain ⟨id, _, _, _, initializer, _, _, _⟩ := d
  cases initializer with
  | none =>
    exact .of_goes fun _ => .bind .declareLocal fun _ => .last .step
  | some x => exact initLocal_acts (hd x rfl)

theorem ifElse_acts {yes : List Stmt} {no : Option (List Stmt)} (hc : (p.expr c).Evaluates [])
    (hyes : (p.statements yes).Acts []) (hno : ∀ body ∈ no, (p.statements body).Acts []) :
    (p.statement (.ifElse n c yes no)).Acts [] := by
  refine .of_goes fun _ => ?_
  cases no with
  | none =>
    exact .bind hc.free fun _ => .bind .emitJump fun _ => .bind .release fun _ =>
      .bind hyes.free fun _ => .last .patch
  | some no =>
    exact .bind hc.free fun _ => .bind .emitJump fun _ => .bind .release fun _ =>
      .bind hyes.free fun _ => .bind .emitJump fun _ => .bind .patchNext fun _ =>
      .bind (hno no rfl).free fun _ => .last .patch

theorem matchOn_acts {subject : Expr} (hs : (p.expr subject).Evaluates [])
    (hbs : ∀ o, (p.branches o bs).Tests [.source o.address]) :
    (p.statement (.matchOn n subject bs)).Acts [] :=
  .of_goes fun _ => .bind hs.free fun _ => .bind .step fun o =>
    .bind (hbs o).goes fun _ => .bind .patchAll fun _ => .last .release

theorem giveBack_acts {value : Option Expr} (hv : ∀ x ∈ value, (p.expr x).Evaluates []) :
    (p.statement (.giveBack n value)).Acts [] := by
  refine .of_goes fun _ => ?_
  cases value with
  | none => exact .emit
  | some x =>
    exact .bind (hv x rfl).free fun _ => .bind .step fun _ =>
      .bind .emit fun _ => .last .release

instance breakLoop_acts : (p.statement (.breakLoop n)).Acts [] :=
  .of_goes fun _ => .bind .emitJump fun _ => .addLabel
    (fun l q => by simp [LoopLabels.holes]) fun l => ⟨List.suffix_cons _ _, List.suffix_rfl⟩

instance continueLoop_acts : (p.statement (.continueLoop n)).Acts [] :=
  .of_goes fun _ => .bind .emitJump fun _ => .addLabel
    (fun l q => by simp [LoopLabels.holes, or_left_comm])
    fun l => ⟨List.suffix_rfl, List.suffix_cons _ _⟩

theorem assert_acts {message : Option Expr} (hc : (p.expr c).Evaluates [])
    (hm : ∀ x ∈ message, (p.expr x).Evaluates []) :
    (p.statement (.assert n c message)).Acts [] := by
  refine .of_goes fun _ => ?_
  cases message with
  | none =>
    exact .bind hc.free fun _ => .bind .emit fun _ => .last .release
  | some m =>
    exact .bind hc.free fun _ => .bind (hm m rfl).free fun _ => .bind .emit fun _ =>
      .last .releaseAll

instance bind_tests : (p.pattern subject (.bind n name)).Tests [.source subject.address] :=
  .of_goes fun _ => .bind .declareLocal fun _ => .bind .emit fun _ => .done

end Plan

/-! ### Trees -/

/-- Whatever the plan, sound code comes out of an expression: of its value, of what is assigned to
it, of the receiver it gives to a call, and of the containers on the way to it. -/
structure Expr.Compiles (x : Expr) : Prop where
  value (p : Plan) : (p.expr x).Evaluates []
  target (p : Plan) (op : Option BinaryOp) (f : ExprFacts) (rhs : Lower Operand)
    (source : StaticType) : rhs.Evaluates [] → (p.assignTo op f rhs source x).Acts []
  receiver (p : Plan) : ∀ r ∈ p.receiver x, r.value.Evaluates []
  containers (p : Plan) (whole : Lower Operand) : whole.Evaluates [] →
    (p.containers whole x).Reaches

/-- Whatever the plan, sound code comes out of a statement. -/
def Stmt.Compiles (s : Stmt) : Prop := ∀ p : Plan, (p.statement s).Acts []

/-- Whatever the plan and the subject, sound code comes out of a pattern, also where it is the key
of an entry. -/
structure Pattern.Compiles (q : Pattern) : Prop where
  test (p : Plan) (v : Operand) : (p.pattern v q).Tests [.source v.address]
  key (p : Plan) (n : Node) (x : Expr) : q = .literal n x ∨ q = .expr n x → (p.expr x).Evaluates []

namespace Expr.Compiles

open Lower

variable {x base index : Expr}

theorem containers_of_root (hf : ∀ n b name, x ≠ .field n b name)
    (hs : ∀ n b i, x ≠ .subscript n b i) (p : Plan) (whole : Lower Operand)
    (hw : whole.Evaluates []) : (p.containers whole x).Reaches := by
  rw [Plan.containers]
  · exact .of_goes fun _ => .bind .factsOf fun f => (Plan.chainRoot_emits hw).free
  · exact hf
  · exact hs

theorem receiver_of_ne (hf : ∀ n b name, x ≠ .field n b name) (p : Plan) :
    ∀ r ∈ p.receiver x, r.value.Evaluates [] := by
  rw [Plan.receiver]
  · simp
  · exact hf

theorem of_value (hx : ∀ p : Plan, (p.expr x).Evaluates []) (h : x.isPlace = false := by rfl) :
    x.Compiles := by
  obtain ⟨hi, hf, hs⟩ := ne_place h
  refine ⟨hx, fun p op f rhs source _ => ?_, receiver_of_ne hf, containers_of_root hf hs⟩
  rw [Plan.assignTo]
  exacts [.internal, hi, hf, hs]

theorem ident (n : Node) (name : String) : (Expr.ident n name).Compiles where
  value p := Plan.folded_evaluates (Plan.readName_evaluates n name)
  target p op f rhs source hr := by
    rw [Plan.assignTo]
    split
    · exact Plan.assignName_acts op n name f _ hr
    · exact .internal
  receiver := receiver_of_ne (by simp)
  containers := containers_of_root (by simp) (by simp)

theorem field (n : Node) (name : Ident) (hb : base.Compiles) :
    (Expr.field n base name).Compiles where
  value p := Plan.folded_evaluates fun f => Plan.readField_evaluates name.name f (hb.value p)
  target p _ _ _ _ hr := Plan.element_acts hr (hb.containers p _ (hb.value p)) memberKey_emits
  receiver p r hr := by
    obtain ⟨rfl⟩ := hr
    exact hb.value p
  containers p _ hw := Plan.element_reaches hw (hb.containers p _ (hb.value p)) memberKey_emits

theorem subscript (n : Node) (hb : base.Compiles) (hi : index.Compiles) :
    (Expr.subscript n base index).Compiles where
  value p := have := hb.value p; have := hi.value p; Plan.subscript_evaluates
  target p _ _ _ _ hr := Plan.element_acts hr (hb.containers p _ (hb.value p))
    (indexKey_emits (hi.value p))
  receiver := receiver_of_ne (by simp)
  containers p _ hw := Plan.element_reaches hw (hb.containers p _ (hb.value p))
    (indexKey_emits (hi.value p))

end Expr.Compiles

namespace Plan

open Lower

theorem hereditary : Hereditary Expr.Compiles Stmt.Compiles Pattern.Compiles where
  literal _ _ := .of_value fun _ => folded_evaluates fun _ => .of_goes fun _ => .constant
  ident := .ident
  self _ := .of_value fun _ => folded_evaluates fun _ => .of_goes fun _ => .done
  array _ _ h := .of_value fun p => array_evaluates fun x hx => (h x hx).value p
  dictionary _ _ h :=
    .of_value fun p => dictionary_evaluates fun x hx => ⟨(h x hx).1.value p, (h x hx).2.value p⟩
  unary _ _ _ h := .of_value fun p => have := h.value p; unary_evaluates
  binary _ _ _ _ hx hy := .of_value fun p => have := hx.value p; have := hy.value p;
    binary_evaluates
  ternary _ _ _ _ hc hx hy := .of_value fun p =>
    folded_evaluates fun _ => choose_evaluates (hc.value p) (hx.value p) (hy.value p)
  assign _ op _ _ ht hv := .of_value fun p => assign_evaluates (ht.target p op) (hv.value p)
  field n _ name h := .field n name h
  subscript n _ _ hb hi := .subscript n hb hi
  call _ _ _ _ hc ha := .of_value fun p => callExpr_evaluates (hc.value p) (hc.receiver p)
    fun x hx => (ha x hx).value p
  cast _ _ _ h := .of_value fun p => have := h.value p; cast_evaluates
  typeTest _ _ _ _ h := .of_value fun p => have := h.value p; typeTest_evaluates
  lambda _ d hd hb := .of_value fun _ => lambda_evaluates d (fun _ q hq x hx =>
    (hd q hq x hx).value _)
      fun _ => statements_acts fun s hs => hb s hs _
  preload _ _ := .of_value fun _ => preload_evaluates
  await _ _ h := .of_value fun p => have := h.value p; await_evaluates
  expr _ _ h p := have := h.value p; exprStmt_acts
  var _ d h p := var_acts d fun x hx => (h x hx).value p
  const _ := fun ⟨_, _, _, _⟩ _ _ => initConstant_acts
  ifElse _ _ _ _ hc hy hn p :=
    ifElse_acts (hc.value p) (statements_acts fun s hs => hy s hs p) fun body hb =>
      statements_acts fun s hs => hn body hb s hs p
  whileLoop _ _ _ hc hb p :=
    have := hc.value p; have := statements_acts fun s hs => hb s hs p; loopWhile_acts
  forLoop _ _ _ _ _ hi hb p :=
    have := hi.value p; have := statements_acts fun s hs => hb s hs p; loopOver_acts
  matchOn _ _ _ hs hb p :=
    matchOn_acts (hs.value p) fun o => branches_tests fun b hmem =>
      have ⟨hps, hg, hbody⟩ := hb b hmem
      ⟨fun q hq => (hps q hq).test p o, fun g hg' => (hg g hg').value p,
        statements_acts fun s hs => hbody s hs p⟩
  giveBack _ _ h p := giveBack_acts fun x hx => (h x hx).value p
  breakLoop _ _ := breakLoop_acts
  continueLoop _ _ := continueLoop_acts
  pass _ _ := .pure rfl rfl
  assert _ _ _ hc hm p := assert_acts (hc.value p) fun x hx => (hm x hx).value p
  patternLiteral _ _ h := ⟨fun p _ => have := h.value p; testEqual_tests, by simpa using h.value⟩
  patternExpr _ _ h := ⟨fun p _ => have := h.value p; testEqual_tests, by simpa using h.value⟩
  bind _ _ := ⟨fun _ _ => bind_tests, by simp⟩
  wildcard _ := ⟨fun _ _ => .pure rfl rfl, by simp⟩
  rest _ := ⟨fun _ _ => .pure rfl rfl, by simp⟩
  patternArray _ _ h := ⟨fun p _ => joined_tests testContainer_tests
    (elements_tests (fun q hq u => (h q hq).test p u) 0), by simp⟩
  patternDictionary _ _ h :=
    ⟨fun p _ => joined_tests testContainer_tests (patternEntries_tests fun e he =>
      ⟨fun m x hx => (h e he).1.key p m x hx, fun q hq u => ((h e he).2 q hq).test p u⟩), by simp⟩

theorem expr_evaluates (p : Plan) (x : Expr) : (p.expr x).Evaluates [] :=
  (hereditary.exprs x).value p

theorem body_acts (p : Plan) (body : List Stmt) : (p.statements body).Acts [] :=
  statements_acts fun s _ => hereditary.stmts s p

end Plan

end HotScript
