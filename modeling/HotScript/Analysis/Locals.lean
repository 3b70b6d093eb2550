import HotScript.Analysis.Written
import HotScript.Analysis.Call

/-!
Locals, blocks and the checks that go with them.
-/

namespace HotScript.Analyze

open Text (quoted)

variable (r : Resolver)

/-- Warn when a local hides, or is easily confused with, something else of its name. -/
def checkShadowing (name : String) (span : Span) : Analyze Unit := do
  let here ← cursor
  if (here.function.bind (·.closedNames.head?)).any (·.contains name) then
    warn .confusableLocalDeclaration
      (quoted name ++ " was declared in a nested block above this declaration") span
  if (here.scope.find? name).any fun l => decide (l.depth < here.scope.frame.depth) then
    warn .shadowedVariable ("local " ++ quoted name ++ " shadows a local of an enclosing block")
      span
    return
  let own ← currentRef
  match ← declarer r name (← scriptChain r own) with
  | some owner =>
    let (w, place) :=
      if owner.same own then (Warning.shadowedVariable, "the class")
      else (.shadowedVariableBaseClass, "a base class")
    warn w ("local " ++ quoted name ++ " shadows a member of " ++ place) span
  | none =>
    match ← nativeRoot r own with
    | none => pure ()
    | some native =>
      let reg ← registry
      if reg.hasProperty native name || reg.hasMethod native name then
        warn .shadowedVariableBaseClass
          ("local " ++ quoted name ++ " shadows a member of native class " ++ quoted native) span

def declareLocal (name : Ident) (decl : NodeId) (type : StaticType) (kind : LocalKind)
    (value : Option Value) : Analyze Unit := do
  checkShadowing r name.name name.span
  let scope := (← cursor).scope
  match scope.declare { name := name.name, decl, type, kind, depth := 0, span := name.span } with
  | .ok scope => modifyScope fun _ => scope
  | .error first =>
    illTyped
      (.invalidContext
        (quoted name.name ++ " is already declared in this block (line " ++
          toString first.line ++ ")"))
      name.span
  modifyFound fun t =>
    { t with
      locals := t.locals.insert decl { name := name.name, type, kind, value, span := name.span } }

def isUnused (l : Local) : Analyze Bool := do
  let unused := ((← cursor).found.locals.find? l.decl).any (·.uses == 0)
  return unused && !Text.startsWith l.name "_"

def enterBlock : Analyze Unit := do
  modifyScope (·.enter)
  modifyFunction fun f => { f with closedNames := [] :: f.closedNames }

def warnUnused (l : Local) : Analyze Unit := do
  if ← isUnused l then
    match l.kind with
    | .variable =>
      warn .unusedVariable ("local variable " ++ quoted l.name ++ " is never used") l.span
    | .constant =>
      warn .unusedLocalConstant ("local constant " ++ quoted l.name ++ " is never used") l.span
    | _ => pure ()

/-- Leave a block; its names are remembered as closed in the block around it. -/
def exitBlock : Analyze Unit := do
  let (removed, scope) := (← cursor).scope.leave
  modifyScope fun _ => scope
  removed.forM warnUnused
  modifyFunction fun f =>
    { f with
      closedNames := match f.closedNames with
        | _ :: around :: rest => (removed.map (·.name) ++ around) :: rest
        | _ :: [] => []
        | [] => [] }

def inLoop {α : Type} (act : Analyze α) : Analyze α := do
  modifyFunction fun f => { f with loopDepth := f.loopDepth + 1 }
  let a ← act
  modifyFunction fun f => { f with loopDepth := f.loopDepth - 1 }
  return a

/-- Warn of parameters that were never used; nothing stays declared. -/
def reportUnusedParams : Analyze Unit := do
  let (all, scope) := (← cursor).scope.drain
  modifyScope fun _ => scope
  all.forM fun l => do
    match l.kind with
    | .param _ =>
      if ← isUnused l then
        warn .unusedParameter ("parameter " ++ quoted l.name ++ " is never used") l.span
    | _ => pure ()

/-! ### Types of locals -/

def inferredType (name : String) (type : StaticType) (span : Span) : Analyze StaticType := do
  if !type.isHard || type.isBuiltin .nil then
    warn .inferenceOnVariant
      ("the type of " ++ quoted name ++ " is inferred from a Variant value") span
    return .variant
  else return type.withProvenance .annotated

def variableType (name : String) (declared : Option StaticType) (infer : Bool) (type : StaticType)
    (span : Span) : Analyze StaticType := do
  match declared with
  | some declared => return declared
  | none =>
    if infer then inferredType name type span
    else if type.isSet && !type.isVariant then return type.soft
    else return .variant

def itemType (iterable : StaticType) (span : Span) : Analyze (Option StaticType) := do
  if !iterable.isHard || iterable.isMeta then return none
  let refused : Analyze (Option StaticType) := do
    illTyped
      (.invalidContext ("cannot iterate over a value of type " ++ quoted iterable.text)) span
    return none
  match iterable.shape with
  | .builtin .array _ | .builtin .dictionary _ => return iterable.element? 0
  | .builtin .int _ | .builtin .float _ => return some (.builtin .int)
  | .builtin .string _ | .builtin .stringName _ => return some (.builtin .string)
  | .builtin .. | .enum .. => refused
  | _ => return none

def loopType (spec : Option TypeSpec) (iterable : StaticType) (span : Span) :
    Analyze StaticType := do
  let item ← itemType iterable span
  match spec with
  | some spec =>
    let declared ← writtenType r spec
    match item with
    | some item => checkStore r declared item span .assignment
    | none => markUnsafe
    return declared
  | none => return (item.map (·.soft)).getD .variant

/-- The type and value of a constant, given its type as written, what is known about its value, and
how many errors there were before its value was looked at. -/
def constantOf (name : String) (declared : Option StaticType) (facts : ExprFacts) (span : Span)
    (errorsBefore : Nat) : Analyze (StaticType × Option Value) := do
  if facts.value.isNone ∧ (← errorCount) = errorsBefore then
    illTyped (.notConstant ("value of constant " ++ quoted name)) span
  match declared with
  | none => return (facts.type, facts.value)
  | some declared =>
    checkStore r declared facts.type span .assignment
    match facts.value with
    | none => return (declared, none)
    | some v => return (declared, some ((← adaptConstant declared v).getD v))

/-- What a value given back is checked against. -/
def resultType : Analyze StaticType :=
  return ((← cursor).function.map (·.result)).getD .variant

def functionName : Analyze String :=
  return ((← cursor).function.map (·.name)).getD ""

def checkResult (id : NodeId) (span : Span) (facts : ExprFacts) : Analyze Unit := do
  let type ← resultType
  if type.isVoid then
    illTyped
      (.invalidContext ("void function " ++ quoted (← functionName) ++ " cannot return a value"))
      span
  else checkStored r type id span facts .result

def checkNoResult (span : Span) : Analyze Unit := do
  let type ← resultType
  if type.isHard && !type.isVoid && !type.isVariant then
    illTyped (.incompatibleReturn type.text "void") span

def checkMissingReturn (written : Option TypeSpec) (s : Signature) (returns : Bool) (span : Span) :
    Analyze Unit := do
  if (written.any fun spec => !spec.isVoid) && !returns && !s.result.isVoid then
    illTyped (.missingReturn (← functionName)) span

def checkStandalone (e : Expr) (facts : ExprFacts) : Analyze Unit :=
  match e with
  | .call n .. => do
    if facts.type.isHard && !facts.type.isVoid && !facts.type.isVariant then
      warn .returnValueDiscarded
        ("the value returned by " ++ quoted e.calleeName ++ " is discarded") n.span
  | .assign .. | .await .. => pure ()
  | _ => warn .standaloneExpression "standalone expression has no effect" e.span

end HotScript.Analyze
