import HotScript.Proofs.Analysis.Requests

/-!
Finding out what names, operators and calls mean keeps to an order.
-/

namespace HotScript.Analyze.Keeps

variable {O : Workspace.Order} {r : Resolver} (hr : Resolver.Sound O .interfaceSolved r)
  (span : Span)

@[grind ←]
theorem localName (found : Lookup) : Keeps O (localName found) := by grind [Analyze.localName]

@[grind ←]
theorem findLocal (name : String) : Keeps O (findLocal name) := by grind [Analyze.findLocal]

@[grind ←]
theorem requireInstance (member : String) : Keeps O (requireInstance member span) := by
  grind [requireInstance]

@[grind ←]
theorem nativeMember (cls name : String) : Keeps O (nativeMember cls name) := by
  refine .bind .registry fun reg => ?_
  split
  · exact .pure _
  · split
    · exact .done (.enumDict _)
    · grind

@[grind ←]
theorem selfName : Keeps O (selfName span) := by grind [Analyze.selfName]

@[grind ←]
theorem unknownMember (base : StaticType) (name : Ident) : Keeps O (unknownMember base name) :=
  .done (.unresolved rfl _)

@[grind ←]
theorem unsafeField (name : Ident) : Keeps O (unsafeField name) := by grind [Analyze.unsafeField]

@[grind ←]
theorem fieldOfNativeClass (cls : String) (base : StaticType) (name : Ident) :
    Keeps O (fieldOfNativeClass cls base name) := by
  unfold Analyze.fieldOfNativeClass
  grind

section

include hr

/-! ### Names -/

variable (path : String) (t : Tree) (cls : ClassRef) (base : StaticType)
  (target source : StaticType) (name : String) (reason : StoreReason)

@[grind ←]
theorem declarer (classes : List ClassRef) : Keeps O (declarer r name classes) := by
  induction classes with
  | nil => exact .pure _
  | cons cls rest ih => grind [declarer]

@[grind ←]
theorem memberOfSelf : Keeps O (memberOfSelf r name span) := by
  refine .bind .currentRef fun own => .bind (.scriptChain hr _) fun chain => ?_
  grind

@[grind ←]
theorem memberOfOuter (n : Nat) (id : ClassId) : Keeps O (memberOfOuter r t name n id) := by
  induction n generalizing id with
  | zero => exact .pure _
  | succ n ih =>
    unfold Analyze.memberOfOuter
    grind

@[grind ←]
theorem memberOfRoot : Keeps O (memberOfRoot r name span) := by
  refine .bind .currentRef fun own => .bind (.nativeRoot hr _) fun native => ?_
  grind

@[grind ←]
theorem headOf : Keeps O (headOf r path span) := by
  refine .bind_of (.loadUnit hr _ (by decide) (by decide)) (.loadUnit _ _) fun answer hanswer => ?_
  cases answer with
  | error fault => exact .done (.unresolved (hanswer fault rfl) _)
  | ok id => exact .done (.unitAt _)

@[grind ←]
theorem outsideName : Keeps O (outsideName r name span) := by
  unfold Analyze.outsideName
  grind

@[grind ←]
theorem bareName : Keeps O (bareName r name span) := by
  refine .bind (.findLocal _) fun found => ?_
  cases found with
  | some found => exact .localName _
  | none =>
    refine .bind (.memberOfSelf hr _ _) fun facts => ?_
    cases facts with
    | some facts => exact .pure _
    | none =>
      refine .bind .tree fun t => .bind .cursor fun c =>
        .bind (.memberOfOuter hr _ _ _ _) fun facts => ?_
      grind

@[grind ←]
theorem fieldOfClass (name : Ident) : Keeps O (fieldOfClass r cls base name) := by
  refine .bind (.lookupMember hr _ _) fun found => ?_
  cases found with
  | some found => grind
  | none =>
    refine .ite (.pure _) (.bind (.nativeRoot hr _) fun root => ?_)
    cases root <;> grind

@[grind ←]
theorem fieldOfMeta (name : Ident) : Keeps O (fieldOfMeta r base name) := by
  grind [fieldOfMeta]

@[grind ←]
theorem fieldOfValue (name : Ident) : Keeps O (fieldOfValue r base name) := by
  unfold Analyze.fieldOfValue
  split
  · refine .bind (.lookupMember hr _ _) fun found => ?_
    cases found with
    | some found => exact .pure _
    | none =>
      refine .bind (.nativeRoot hr _) fun root => ?_
      cases root <;> grind
  all_goals grind

@[grind ←]
theorem fieldOf (name : Ident) : Keeps O (fieldOf r base name) := by grind [Analyze.fieldOf]

@[grind ←]
theorem checkReversed : Keeps O (checkReversed r target source span reason) := by
  grind [checkReversed]

@[grind ←]
theorem checkStore : Keeps O (checkStore r target source span reason) := by
  unfold Analyze.checkStore
  grind

omit hr in
@[grind ←]
theorem adaptConstant (v : Value) : Keeps O (adaptConstant target v) := by
  refine .heap_bind fun d a d' h => ?_
  cases ha : Heap.adapt target v d.work.heap
  all_goals rw [ha] at h
  · exact pure _ h
  · cases h
    exact ⟨rfl, O.heap _ _ (Heap.keepsFrozen_adapt target ha)⟩

@[grind ←]
theorem checkStored (id : NodeId) (facts : ExprFacts) :
    Keeps O (checkStored r target id span facts reason) := by grind [checkStored]

end

/-! ### Operators and containers -/

@[grind ←]
theorem truthy (v : Value) : Keeps O (truthy v) := .done .heap

@[grind ←]
theorem operate (op : Operator) (a b : Value) : Keeps O (operate op a b) := by
  refine .heap_bind fun d x d' h => ?_
  cases ho : op.result? d.work.heap (fun _ => false) a b
  all_goals rw [ho] at h
  · exact pure _ h
  · cases h
    exact ⟨rfl, O.heap _ _ (Heap.keepsFrozen_result? ho)⟩

@[grind ←]
theorem invalidUnary (op : String) (t : StaticType) : Keeps O (invalidUnary op t span) :=
  .done (.illTyped _ _)

@[grind ←]
theorem invalidBinary (op : String) (a b : StaticType) : Keeps O (invalidBinary op a b span) :=
  .done (.illTyped _ _)

@[grind ←]
theorem unaryFacts (op : UnaryOp) (operand : ExprFacts) :
    Keeps O (unaryFacts op operand span) := by grind [unaryFacts]

variable (op : BinaryOp) (left right : ExprFacts)

@[grind ←]
theorem logicFacts : Keeps O (logicFacts op left right) := by grind [Analyze.logicFacts]

@[grind ←]
theorem foldBinary (a b : Value) : Keeps O (foldBinary op left right a b span) := by
  grind [foldBinary]

@[grind ←]
theorem binaryFacts : Keeps O (binaryFacts op left right span) := by
  grind [binaryFacts]

@[grind ←]
theorem arrayFacts (elements : List ExprFacts) : Keeps O (arrayFacts elements) := by
  unfold Analyze.arrayFacts
  split
  · exact .done (.onHeap fun h => (Heap.extends_newArray h _).keepsFrozen)
  · exact .pure _

@[grind ←]
theorem dictionaryFacts (entries : List (ExprFacts × ExprFacts)) :
    Keeps O (dictionaryFacts entries) := by
  unfold Analyze.dictionaryFacts
  split
  · exact .done (.onHeap fun h => (h.keepsFrozen_dictOf ..).trans (Heap.keepsFrozen_freezeDict _ _))
  · exact .pure _

@[grind ←]
theorem subscriptFacts (base index : ExprFacts) :
    Keeps O (subscriptFacts base index span) := by grind [subscriptFacts]

@[grind ←]
theorem awaitFacts (operand : ExprFacts) : Keeps O (awaitFacts operand) := by
  grind [awaitFacts]

section

variable (base : ExprFacts) (function : String) (tag : Tag) (cls : ClassRef) (receiver : StaticType)
  (name : Ident) (count : Nat)

@[grind ←]
theorem memberCall (owner : ClassRef) (m : MemberFacts) (callee : NodeId) :
    Keeps O (memberCall owner m callee span) := by grind [memberCall]

@[grind ←]
theorem unknownMethod : Keeps O (unknownMethod receiver name) :=
  .done (.unresolved rfl _)

@[grind ←]
theorem dynamicCall : Keeps O (dynamicCall name) := by grind [Analyze.dynamicCall]

@[grind ←]
theorem builtinCall : Keeps O (builtinCall tag receiver name) := by grind [Analyze.builtinCall]

@[grind ←]
theorem callOnNativeClass (cls : String) :
    Keeps O (callOnNativeClass cls receiver name count) := by grind [callOnNativeClass]

@[grind ←]
theorem callOnNative (cls : String) :
    Keeps O (callOnNative cls receiver name count) := by grind [callOnNative]

include hr

@[grind ←]
theorem commonType (a b : StaticType) : Keeps O (commonType r a b) := by grind [Analyze.commonType]

@[grind ←]
theorem choiceFacts (condition yes no : ExprFacts) : Keeps O (choiceFacts r condition yes no) := by
  grind [choiceFacts]

@[grind ←]
theorem fieldFacts : Keeps O (fieldFacts r base name) := by grind [Analyze.fieldFacts]

@[grind ←]
theorem castable (source target : StaticType) : Keeps O (castable r source target) := by
  grind [castable]

@[grind ←]
theorem castFacts (operand : ExprFacts) (target : StaticType) :
    Keeps O (castFacts r operand target span) := by
  refine .ite (.pure _) (.heap_bind fun d a d' h => ?_)
  cases hv : operand.value.bind fun v => Heap.foldCast target v d.work.heap
  all_goals rw [hv] at h
  · exact (by grind : Keeps O _) h
  · obtain ⟨_, -, hv⟩ := Option.bind_eq_some_iff.1 hv
    cases h
    exact ⟨rfl, O.heap _ _ (Heap.keepsFrozen_foldCast target hv)⟩

@[grind ←]
theorem assignFacts (op : Option BinaryOp) (target value : Expr)
    (targetFacts valueFacts : ExprFacts) :
    Keeps O (assignFacts r op target value targetFacts valueFacts span) := by
  refine .ite (.done (.illTyped _ _)) ?_
  extract_lets type done stored
  have hstored (constantBase : Bool) : Keeps O (stored constantBase) := by
    grind
  cases target.base? with
  | none => exact .bind (.pure _) hstored
  | some base => exact .bind (.known? _) fun _ => .bind (.pure _) hstored

@[grind ←]
theorem functionOf (name : String) : Keeps O (functionOf r cls name) := by
  grind [functionOf]

@[grind ←]
theorem rootMethod (name : String) : Keeps O (rootMethod r cls name) := by
  grind [rootMethod]

@[grind ←]
theorem superCall (name : String) : Keeps O (superCall r name span) := by
  refine .bind .isStaticContext fun _ => ?_
  extract_lets sorted based
  have hsorted (found : Option Signature × Option String) : Keeps O (sorted found) := by
    grind
  clear_value sorted
  have hbased (u : Unit) : Keeps O (based u) := by
    refine .bind .currentRef fun own => .bind (.baseOf hr _) fun base => ?_
    grind
  exact .ite (.bind (.illTyped _ _) hbased) (.bind .markUsesSelf hbased)

@[grind ←]
theorem outsideCall (name : String) : Keeps O (outsideCall r name span count) := by
  refine .bind .registry fun reg => .bind .currentRef fun own =>
    .bind (.rootMethod hr _ _) fun found => ?_
  grind

@[grind ←]
theorem bareCall (callee : Node) (name : String) : Keeps O (bareCall r callee name count) := by
  refine .bind (.findLocal _) fun found => ?_
  cases found with
  | some found => grind
  | none =>
    refine .bind .currentRef fun own => .bind (.scriptChain hr _) fun chain =>
      .bind (.declarer hr _ _) fun owner => ?_
    grind

@[grind ←]
theorem callOnClass : Keeps O (callOnClass r cls receiver name) := by
  unfold Analyze.callOnClass
  grind

@[grind ←]
theorem callOnScript : Keeps O (callOnScript r cls receiver name) := by grind [Analyze.callOnScript]

@[grind ←]
theorem methodCall : Keeps O (methodCall r receiver name count) := by
  grind [methodCall]

@[grind ←]
theorem checkArguments (i : Nat) (args : List (Node × ExprFacts))
    (params : List (String × StaticType)) : Keeps O (checkArguments r function i args params) := by
  induction args generalizing i params with
  | nil => exact .pure _
  | cons arg args ih =>
    cases params with
    | nil => exact .pure _
    | cons param params =>
      exact .bind (.checkStored hr _ _ _ _ _) fun _ => ih (i + 1) params

@[grind ←]
theorem callFacts (call : SortedCall) (args : List (Node × ExprFacts)) :
    Keeps O (callFacts r function call args span) := by
  have hcheck (s : Signature) : Keeps O (checkCall r function s args span) := by
    grind [checkCall]
  unfold Analyze.callFacts
  grind

end

end HotScript.Analyze.Keeps
