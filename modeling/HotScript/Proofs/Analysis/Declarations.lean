import HotScript.Proofs.Analysis.Expressions

/-!
Finding out written types, locals and the checks that go with them keeps to an order.
-/

namespace HotScript.Analyze

/-! ### What is wrong with a written type -/

namespace Answers

variable {r : Resolver} {missing : ResolutionFault × Span}

theorem headType (name : String) :
    Answers (OnError (·.isCycle = false)) (headType r name) := by
  refine .bind fun t => .bind fun c => .bind fun type => ?_
  cases type with
  | some type => exact .pure nofun
  | none =>
    refine .bind fun own => .bind fun chain => .bind fun type => ?_
    cases type with
    | some type => exact .pure nofun
    | none =>
      refine .bind fun reg => .ite (.pure nofun) (.bind fun reg => ?_)
      split
      · exact .pure nofun
      · refine .bind_of (.loadUnit _ _) fun answer h => ?_
        cases answer with
        | error fault => exact .error (h fault rfl)
        | ok id => exact .bind fun _ => .pure nofun

theorem innerType (type : StaticType) (name : String) :
    Answers (OnError (·.isCycle = false)) (innerType r type name) := by
  unfold Analyze.innerType
  split
  · exact .bind fun _ => .pure nofun
  · refine .bind_of (.nestedClass _ _) fun answer h => ?_
    split
    · next fault => exact .error (h fault rfl)
    · exact .pure nofun
    · refine .bind fun found => ?_
      cases found <;> exact .pure nofun
  · exact .pure nofun

theorem dottedType (hm : missing.1.isCycle = false) (names : List Ident) (type : StaticType) :
    Answers (OnError (·.1.isCycle = false)) (dottedType r missing names type) := by
  induction names generalizing type with
  | nil => exact .pure nofun
  | cons ident rest ih =>
    refine .bind_of (.innerType _ _) fun answer h => ?_
    split
    · next fault => exact .error (h fault rfl)
    · exact .error hm
    · exact ih _

theorem namedType (hm : missing.1.isCycle = false) (names : List Ident) :
    Answers (OnError (·.1.isCycle = false)) (namedType r missing names) := by
  cases names with
  | nil => exact .error hm
  | cons first rest =>
    refine .bind_of (.headType _) fun answer h => ?_
    split
    · next fault => exact .error (h fault rfl)
    · exact .error hm
    · exact .dottedType hm _ _

theorem specType (spec : TypeSpec) :
    Answers (OnError (·.1.isCycle = false)) (specType r spec) := by
  match spec with
  | .mk chain elements span =>
    have hmap {f : StaticType → StaticType} {x : Except (ResolutionFault × Span) StaticType}
        (h : ∀ fault, x = .error fault → fault.1.isCycle = false) :
        ∀ fault, x.map f = .error fault → fault.1.isCycle = false := by
      cases x with
      | ok type => exact nofun
      | error e =>
        rintro _ ⟨⟩
        exact h e rfl
    unfold Analyze.specType
    refine .ite (.pure nofun) (.ite (.pure nofun) ?_)
    split
    · next e _ => exact .bind_of (specType e) fun _ h => .pure (hmap h)
    · next key value _ =>
      refine .bind_of (specType key) fun answer h => ?_
      cases answer with
      | error fault => exact .pure h
      | ok type => exact .bind_of (specType value) fun _ h => .pure (hmap h)
    · exact .pure nofun
    · exact .error rfl
    · exact .namedType rfl _

end Answers

namespace Keeps

variable {O : Workspace.Order} {α : Type} {m : Analyze α} {r : Resolver}
  (hr : Resolver.Sound O .interfaceSolved r)

section

include hr

/-! ### Written types -/

variable (t : Tree) (spec : TypeSpec) (name : String) (missing : ResolutionFault × Span)
  (names : List Ident) (type : StaticType)

@[grind ←]
theorem enclosingType (n : Nat) (id : ClassId) : Keeps O (enclosingType r t name n id) := by
  induction n generalizing id with
  | zero => exact .pure _
  | succ n ih =>
    unfold Analyze.enclosingType
    grind

@[grind ←]
theorem inheritedType (classes : List ClassRef) : Keeps O (inheritedType r name classes) := by
  induction classes with
  | nil => exact .pure _
  | cons base rest ih =>
    unfold Analyze.inheritedType
    grind

@[grind ←]
theorem headType : Keeps O (headType r name) := by
  refine .bind .tree fun t => .bind .cursor fun c => .bind (.enclosingType hr _ _ _ _) fun type =>
    ?_
  cases type with
  | some type => exact .pure _
  | none =>
    refine .bind .currentRef fun own => .bind (.scriptChain hr _) fun chain =>
      .bind (.inheritedType hr _ _) fun type => ?_
    cases type with
    | some type => exact .pure _
    | none =>
      have hload (path : String) : Keeps O (Analyze.loadUnit r path .inheritanceSolved) :=
        .loadUnit hr _ (by decide) (by decide)
      refine .bind .registry fun reg => .ite (.pure _) ?_
      grind

@[grind ←]
theorem innerType (name : String) : Keeps O (innerType r type name) := by
  unfold Analyze.innerType
  grind

@[grind ←]
theorem dottedType : Keeps O (dottedType r missing names type) := by
  induction names generalizing type with
  | nil => exact .pure _
  | cons ident rest ih =>
    unfold dottedType
    grind

@[grind ←]
theorem namedType : Keeps O (namedType r missing names) := by
  cases names <;> grind [namedType]

@[grind ←]
theorem specType (spec : TypeSpec) : Keeps O (specType r spec) := by
  match spec with
  | .mk chain elements span =>
    unfold Analyze.specType
    refine .ite (.pure _) (.ite (.pure _) ?_)
    split
    · next e _ => exact .done (specType e)
    · next key value _ =>
      refine .bind (specType key) fun answer => ?_
      cases answer with
      | error fault => exact .pure _
      | ok type => exact .done (specType value)
    · exact .pure _
    · exact .pure _
    · exact .namedType hr _ _

@[grind ←]
theorem writtenType : Keeps O (writtenType r spec) := by
  refine .bind_of (.specType hr _) (.specType _) fun answer h => ?_
  cases answer with
  | ok type => exact .pure _
  | error fault => exact .done (.unresolved (h fault rfl) _)

@[grind ←]
theorem checkShadowing (span : Span) : Keeps O (checkShadowing r name span) := by
  refine .bind .cursor fun here => ?_
  extract_lets hidden
  have hhidden (u : Unit) : Keeps O (hidden u) := by
    refine .ite (.done (.warn _ _ _)) (.bind .currentRef fun own =>
      .bind (.scriptChain hr _) fun chain => .bind (.declarer hr _ _) fun owner => ?_)
    grind
  exact .ite (.bind (.warn _ _ _) hhidden) (hhidden ())

@[grind ←]
theorem declareLocal (name : Ident) (decl : NodeId) (kind : LocalKind) (value : Option Value) :
    Keeps O (declareLocal r name decl type kind value) := by grind [declareLocal]

end

@[grind ←]
theorem isUnused (l : Local) : Keeps O (isUnused l) := .done .cursor

@[grind ←]
theorem enterBlock : Keeps O enterBlock := by grind [Analyze.enterBlock]

@[grind ←]
theorem warnUnused (l : Local) : Keeps O (warnUnused l) := by grind [Analyze.warnUnused]

@[grind ←]
theorem exitBlock : Keeps O exitBlock := by grind [Analyze.exitBlock]

@[grind ←]
theorem inLoop (h : Keeps O m) : Keeps O (inLoop m) := by grind [Analyze.inLoop]

@[grind ←]
theorem reportUnusedParams : Keeps O reportUnusedParams := by grind [Analyze.reportUnusedParams]

/-! ### Types of locals, constants and results -/

@[grind ←]
theorem inferredType (name : String) (type : StaticType) (span : Span) :
    Keeps O (inferredType name type span) := by grind [inferredType]

@[grind ←]
theorem variableType (name : String) (declared : Option StaticType) (infer : Bool)
    (type : StaticType) (span : Span) : Keeps O (variableType name declared infer type span) := by
  unfold Analyze.variableType
  grind

@[grind ←]
theorem itemType (iterable : StaticType) (span : Span) : Keeps O (itemType iterable span) := by
  grind [itemType]

@[grind ←]
theorem resultType : Keeps O resultType := .done .cursor

@[grind ←]
theorem functionName : Keeps O functionName := .done .cursor

@[grind ←]
theorem checkNoResult (span : Span) : Keeps O (checkNoResult span) := by
  grind [checkNoResult]

@[grind ←]
theorem checkMissingReturn (written : Option TypeSpec) (s : Signature) (returns : Bool)
    (span : Span) : Keeps O (checkMissingReturn written s returns span) := by
  grind [checkMissingReturn]

@[grind ←]
theorem checkStandalone (e : Expr) (facts : ExprFacts) : Keeps O (checkStandalone e facts) := by
  unfold Analyze.checkStandalone
  grind

section

include hr

@[grind ←]
theorem loopType (spec : Option TypeSpec) (iterable : StaticType) (span : Span) :
    Keeps O (loopType r spec iterable span) := by
  unfold Analyze.loopType
  grind

@[grind ←]
theorem constantOf (name : String) (declared : Option StaticType) (facts : ExprFacts) (span : Span)
    (errorsBefore : Nat) : Keeps O (constantOf r name declared facts span errorsBefore) := by
  unfold Analyze.constantOf
  grind

@[grind ←]
theorem checkResult (id : NodeId) (span : Span) (facts : ExprFacts) :
    Keeps O (checkResult r id span facts) := by grind [checkResult]

end

end Keeps

end HotScript.Analyze
