import HotScript.Proofs.Analysis.Declarations
import HotScript.Proofs.Syntax.Induction

/-!
Looking at expressions, statements and patterns keeps to an order.
-/

namespace HotScript.Analyze

variable {O : Workspace.Order}

namespace Keeps

variable {r : Resolver} (hr : Resolver.Sound O .interfaceSolved r)
variable {act : Analyze ExprFacts} {ps : List Pattern}

@[grind ←]
theorem settle {n : Node} (h : Keeps O act) : Keeps O (settle n act) := by grind [Analyze.settle]

@[grind ←]
theorem asValue {e : Expr} (h : Keeps O act) : Keeps O (asValue e act) := by grind [Analyze.asValue]

@[grind ←]
theorem settleCallee (id : NodeId) : Keeps O (settleCallee id) := by
  grind [settleCallee]

@[grind ←]
theorem recordTest (id : NodeId) (type : StaticType) : Keeps O (recordTest id type) := by
  grind [recordTest]

@[grind ←]
theorem inLambda (id : NodeId) (name : Ident) (s : Signature) {body : Analyze Unit}
    (h : Keeps O body) : Keeps O (inLambda id name s body) :=
  .bind .cursor fun _ => .bind (.modifyCursor fun _ => rfl) fun _ => .bind h fun _ =>
    .bind .cursor fun _ => .bind (.modifyCursor fun _ => rfl) fun _ =>
    .done (.modifyFound _)

@[grind ←]
theorem block {body : Analyze Flow} (h : Keeps O body) :
    Keeps O (block body) := by grind [Analyze.block]

@[grind ←]
theorem outsideLoop (word : String) (span : Span) : Keeps O (outsideLoop word span) := by
  grind [outsideLoop]

@[grind ←]
theorem keyPattern (key : Pattern) {look : Analyze Unit} (h : Keeps O look) :
    Keeps O (keyPattern key look) := by cases key <;> grind [keyPattern]

/-! ### Lists of parts -/

@[grind ←]
theorem reduceAll {es : List Expr} (h : ∀ e ∈ es, Keeps O (reduce r e)) :
    Keeps O (reduceAll r es) := by
  induction es with
  | nil => exact .pure _
  | cons _ _ ih => grind [reduceAll]

@[grind ←]
theorem reduceEntries {es : List (Expr × Expr)}
    (h : ∀ e ∈ es, Keeps O (reduce r e.1) ∧ Keeps O (reduce r e.2)) :
    Keeps O (reduceEntries r es) := by
  induction es with
  | nil => exact .pure _
  | cons e es ih =>
    have hrest := ih fun e he => h e (.tail _ he)
    grind [reduceEntries]

@[grind ←]
theorem statements {ss : List Stmt} (h : ∀ s ∈ ss, Keeps O (statement r s)) (flow : Flow) :
    Keeps O (statements r ss flow) := by
  induction ss generalizing flow with
  | nil => exact .pure _
  | cons _ _ ih => grind [statements]

section

variable (h : ∀ p ∈ ps, ∀ type, Keeps O (pattern r p type)) (type : StaticType)
include h type

@[grind ←] theorem alternatives : Keeps O (alternatives r ps type) := by
  induction ps with
  | nil => exact .pure _
  | cons _ _ ih => grind [alternatives]

@[grind ←] theorem elementPatterns : Keeps O (elementPatterns r ps type) := by
  induction ps with
  | nil => exact .pure _
  | cons _ _ ih => grind [elementPatterns]

end

@[grind ←]
theorem entryPatterns {es : List (Pattern × Option Pattern)}
    (h : ∀ e ∈ es, (∀ type, Keeps O (pattern r e.1 type)) ∧
      ∀ v ∈ e.2, ∀ type, Keeps O (pattern r v type)) (type : StaticType) :
    Keeps O (entryPatterns r es type) := by
  induction es with
  | nil => exact .pure _
  | cons e es ih =>
    obtain ⟨key, value⟩ := e
    have hrest := ih fun e he => h e (.tail _ he)
    have ⟨hkey, hvalue⟩ := h _ (.head _)
    cases value with
    | none =>
      exact .ite (.bind (.keyPattern _ (hkey _)) fun _ => hrest) hrest
    | some value =>
      exact .bind (.keyPattern _ (hkey _)) fun _ =>
        .ite (.bind (hvalue value rfl _) fun _ => hrest) hrest

@[grind ←]
theorem branches {bs : List Branch}
    (h : ∀ b ∈ bs, (∀ p ∈ b.patterns, ∀ type, Keeps O (pattern r p type)) ∧
      (∀ g ∈ b.guard, Keeps O (reduce r g)) ∧ ∀ s ∈ b.body, Keeps O (statement r s))
    (type : StaticType) : Keeps O (branches r bs type) := by
  induction bs with
  | nil => exact .pure _
  | cons b bs ih =>
    obtain ⟨node, patterns, guard, body⟩ := b
    have ⟨hpatterns, hguard, hbody⟩ := h _ (.head _)
    rw [Analyze.branches]
    refine .bind (.setStatement _) fun _ => .bind .enterBlock fun _ => ?_
    extract_lets rest looked
    have hrest (u : Unit) : Keeps O (rest u) :=
      .bind (.block (.statements hbody _)) fun _ => .bind .exitBlock fun _ =>
        .done (ih fun b hb => h b (.tail _ hb))
    have hlooked (u : Unit) : Keeps O (looked u) := by
      refine .bind (.alternatives hpatterns _) fun _ => ?_
      cases guard with
      | none => exact hrest ()
      | some g => exact .bind (.asValue (hguard g rfl)) fun _ => hrest ()
    exact .ite (.bind (.illTyped _ _) hlooked) (hlooked ())

include hr

@[grind ←]
theorem signatureWith (name : Ident) (params : List ParamDecl) (result : Option TypeSpec)
    (isStatic : Bool) (types : List (String × StaticType)) :
    Keeps O (signatureWith r name params result isStatic types) := by
  unfold Analyze.signatureWith
  cases result <;> grind

@[grind ←]
theorem paramTypes {ps : List ParamDecl}
    (h : ∀ p ∈ ps, ∀ e ∈ p.default, Keeps O (reduce r e)) : Keeps O (paramTypes r ps) := by
  induction ps with
  | nil => exact .pure _
  | cons p ps ih =>
    obtain ⟨id, name, type, infer, default⟩ := p
    have hdefault : ∀ e ∈ default, Keeps O (reduce r e) := h _ (.head _)
    unfold Analyze.paramTypes
    grind

@[grind ←]
theorem declareParams {ps : List ParamDecl}
    (h : ∀ p ∈ ps, ∀ e ∈ p.default, Keeps O (reduce r e)) (i : Nat)
    (types : List (String × StaticType)) :
    Keeps O (declareParams r ps i types) := by
  induction ps generalizing i types with
  | nil => exact .pure _
  | cons p ps ih =>
    obtain ⟨id, name, type, infer, default⟩ := p
    have hdefault : ∀ e ∈ default, Keeps O (reduce r e) := h _ (.head _)
    unfold Analyze.declareParams
    grind

end Keeps

/-! ### The recursion -/

/-- Looking at an expression keeps to the order, and so does looking at what a name is taken of. -/
structure Neutral (O : Workspace.Order) (r : Resolver) (e : Expr) : Prop where
  whole : Keeps O (reduce r e)
  base : ∀ n base name, e = .field n base name → Keeps O (reduce r base)

theorem Neutral.of_whole {r : Resolver} {e : Expr} (h : Keeps O (reduce r e))
    (he : ∀ n base name, e ≠ .field n base name := by nofun) : Neutral O r e :=
  ⟨h, fun n base name heq => absurd heq (he n base name)⟩

section

variable {r : Resolver} (hr : Resolver.Sound O .interfaceSolved r)

include hr

variable {n : Node}

theorem Keeps.call {callee : Expr} {args : List Expr} (isSuper : Bool) (hc : Neutral O r callee)
    (ha : ∀ e ∈ args, Neutral O r e) : Keeps O (reduce r (.call n callee args isSuper)) := by
  have hargs := Keeps.reduceAll fun e he => (ha e he).whole
  have hbase := hc.base
  have hwhole := hc.whole
  unfold reduce
  grind

theorem Keeps.lambda {f : FunctionDecl} (hp : ∀ p ∈ f.params, ∀ e ∈ p.default, Neutral O r e)
    (hb : ∀ s ∈ f.body, Keeps O (statement r s)) : Keeps O (reduce r (.lambda n f)) := by
  obtain ⟨id, name, params, result, body, _, isStatic⟩ := f
  have hdefaults : ∀ p ∈ params, ∀ e ∈ p.default, Keeps O (reduce r e) :=
    fun p hmem e he => (hp p hmem e he).whole
  refine .settle ?_
  refine .bind (.paramTypes hr hdefaults) fun _ => .bind (.signatureWith hr _ _ _ _ _)
    fun _ => .inLambda _ _ _ (.bind (.declareParams hr hdefaults _ _) fun _ => ?_)
  exact .bind (.block (.statements hb _)) fun _ =>
    .bind (.checkMissingReturn _ _ _ _) fun _ => .reportUnusedParams

theorem hereditary_neutral : Hereditary (Neutral O r) (fun s => Keeps O (statement r s))
      (fun p => ∀ type, Keeps O (pattern r p type)) where
  literal n v := .of_whole (by grind [reduce])
  ident n name := .of_whole (by grind [reduce])
  self n := .of_whole (by grind [reduce])
  array n es hes := .of_whole (by grind [reduce, Neutral])
  dictionary n es hes := .of_whole (by
    have hentries := Keeps.reduceEntries fun e he => ⟨(hes e he).1.whole, (hes e he).2.whole⟩
    grind [reduce])
  unary n op a ha := .of_whole (by grind [reduce, Neutral])
  binary n op a b ha hb := .of_whole (by grind [reduce, Neutral])
  ternary n c a b hc ha hb := .of_whole (by grind [reduce, Neutral])
  assign n op target value ht hv := .of_whole (by grind [reduce, Neutral])
  field n base name hb := ⟨by grind [reduce, Neutral], by rintro _ _ _ ⟨⟩; exact hb.whole⟩
  subscript n base index hb hi := .of_whole (by grind [reduce, Neutral])
  call n callee args isSuper hc ha := .of_whole (.call hr isSuper hc ha)
  cast n a spec ha := .of_whole (by grind [reduce, Neutral])
  typeTest n a spec negated ha := .of_whole (by grind [reduce, Neutral])
  lambda n f hp hb := .of_whole (.lambda hr hp hb)
  preload n path := .of_whole (by grind [reduce])
  await n a ha := .of_whole (by grind [reduce, Neutral])
  expr n e he := by grind [statement, Neutral]
  var n d hd := by
    obtain ⟨id, name, type, infer, initializer, _, _, _⟩ := d
    unfold statement
    refine .bind (.setStatement _) fun _ => .bind (.mapM_option (.writtenType hr) _) fun _ => ?_
    cases initializer with
    | none => exact .done (.declareLocal hr _ _ _ _ _)
    | some e =>
      exact .bind (.asValue (hd e rfl).whole) fun _ => .bind (.variableType _ _ _ _ _) fun _ =>
        .bind (.checkStored hr _ _ _ _ _) fun _ => .done (.declareLocal hr _ _ _ _ _)
  const n d hd := by
    obtain ⟨id, name, type, e⟩ := d
    exact .bind (.setStatement _) fun _ => .bind (.mapM_option (.writtenType hr) _) fun _ =>
      .bind .errorCount fun _ => .bind (.asValue hd.whole) fun _ =>
      .bind (.constantOf hr _ _ _ _ _) fun _ => .done (.declareLocal hr _ _ _ _ _)
  ifElse n c yes no hc hy hn := by
    cases no with
    | none => grind [statement, Neutral]
    | some no =>
      exact .bind (.setStatement _) fun _ => .bind (.asValue hc.whole) fun _ =>
        .bind (.block (.statements hy _)) fun _ => .done (.block (.statements (hn no rfl) _))
  whileLoop n c body hc hb := .bind (.setStatement _) fun _ => .bind (.asValue hc.whole) fun _ =>
      .done (.inLoop (.block (.statements hb _)))
  forLoop n name type iterable body hi hb := by
    refine .bind (.setStatement _) fun _ => .bind (.asValue hi.whole) fun _ => ?_
    refine .bind (.loopType hr _ _ _) fun _ => .bind .enterBlock fun _ => ?_
    grind
  matchOn n subject bs hs hb := by
    have hbranches := Keeps.branches fun b hmem =>
      ⟨(hb b hmem).1, fun g hg => ((hb b hmem).2.1 g hg).whole, (hb b hmem).2.2⟩
    grind [statement, Neutral]
  giveBack n v hv := by
    cases v with
    | none => grind [statement]
    | some e =>
      have hwhole := (hv e rfl).whole
      grind [statement]
  breakLoop n := by grind [statement]
  continueLoop n := by grind [statement]
  pass n := by grind [statement]
  assert n c m hc hm := by
    have hwhole := hc.whole
    cases m with
    | none => grind [statement]
    | some m =>
      have hmessage := (hm m rfl).whole
      grind [statement]
  patternLiteral n e he type := by grind [pattern, Neutral]
  patternExpr n e he type := by grind [pattern, Neutral]
  bind n name type := by grind [pattern]
  wildcard n type := by grind [pattern]
  rest n type := by grind [pattern]
  patternArray n es hes type := by grind [pattern]
  patternDictionary n es hes type := by
    grind [pattern]

namespace Keeps

@[grind ←]
theorem reduce (e : Expr) : Keeps O (reduce r e) := ((hereditary_neutral hr).exprs e).whole

@[grind ←]
theorem statement (s : Stmt) : Keeps O (statement r s) := (hereditary_neutral hr).stmts s

end Keeps

end

end HotScript.Analyze
