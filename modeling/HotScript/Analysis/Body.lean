import HotScript.Analysis.Locals

/-!
Expressions, statements and patterns.

Every expression is reduced once, and what was found is filed under its number. The recursion
follows the tree; what each construct means is said elsewhere. A lambda is looked at where it
stands, in a scope nested in that of the function around it.
-/

namespace HotScript

/-- How control got through the statements before. -/
structure Flow where
  /-- One of them always gives back. -/
  returns : Bool := false
  /-- Control never gets beyond them. -/
  ended : Bool := false
  reported : Bool := false

/-- The name of the first parameter without a default behind one with a default. -/
def ParamDecl.misplaced? : Bool → List ParamDecl → Option Ident
  | _, [] => none
  | seen, p :: rest =>
    if p.default.isSome then misplaced? true rest
    else if seen then some p.name
    else misplaced? seen rest

def Branch.catchesAll (b : Branch) : Bool :=
  b.guard.isNone && b.patterns.any fun
    | .wildcard _ | .bind .. => true
    | _ => false

namespace Analyze

open Text (quoted)

variable (r : Resolver)

/-! ### Steps around the recursion -/

def settle (n : Node) (act : Analyze ExprFacts) : Analyze ExprFacts := do
  match ← known? n.id with
  | some f => return f
  | none => record n.id (← act)

/-- An expression whose value is used: it must have one. -/
def asValue (e : Expr) (act : Analyze ExprFacts) : Analyze ExprFacts := do
  let f ← act
  if f.dispatch.isSome && f.type.isVoid then illTyped (.voidValue e.calleeName) e.span
  return f

/-- A callee about which nothing was filed is a callable. -/
def settleCallee (id : NodeId) : Analyze Unit := do
  if (← known? id).isNone then
    let _ ← record id (.typed (.builtin .callable))

def recordTest (id : NodeId) (type : StaticType) : Analyze Unit :=
  modifyFound fun t => { t with typeTests := t.typeTests.insert id type }

def signatureWith (name : Ident) (params : List ParamDecl) (result : Option TypeSpec)
    (isStatic : Bool) (types : List (String × StaticType)) : Analyze Signature := do
  let result ← match result with
    | some spec => writtenType r spec
    | none => pure .variant
  match ParamDecl.misplaced? false params with
  | some p =>
    illTyped
      (.invalidContext
        ("parameter " ++ quoted p.name ++
          " without a default value follows a parameter with one")) p.span
  | none => pure ()
  return {
    name := name.name
    params := types
    defaults := params.countP (·.default.isSome)
    result
    isStatic }

def inLambda (id : NodeId) (name : Ident) (s : Signature) (body : Analyze Unit) :
    Analyze ExprFacts := do
  let outer ← cursor
  modifyCursor fun c =>
    { c with
      scope := c.scope.nested
      function := some
        { name := if name.name = "" then "<anonymous lambda>" else name.name
          isStatic := c.function.any (·.isStatic)
          result := s.result }
      lambdas := id :: c.lambdas }
  body
  let inner ← cursor
  let context := inner.function.getD {}
  let usesSelf := context.usesSelf || inner.selfUsers.contains id
  modifyCursor fun c =>
    { c with
      scope := inner.scope.parent?.getD {}
      function := outer.function.map fun f => { f with usesSelf := f.usesSelf || usesSelf }
      lambdas := outer.lambdas
      statement := outer.statement }
  modifyFound fun t =>
    { t with
      functions := t.functions.insert id
        { signature := { s with isCoroutine := context.hasAwait }
          captures := inner.scope.frame.captures
          usesSelf
          isLambda := true } }
  return .typed (.builtin .callable)

/-- Look at statements as a block; says whether every way through it gives back. -/
def block (body : Analyze Flow) : Analyze Bool := do
  enterBlock
  let flow ← body
  exitBlock
  return flow.returns

def outsideLoop (word : String) (span : Span) : Analyze Unit := do
  if !((← cursor).function.any fun f => decide (0 < f.loopDepth)) then
    illTyped (.invalidContext (quoted word ++ " can only be used inside a loop")) span

/-- Whether an expression pattern may stand for a value that is not constant. -/
def isPatternName : Expr → Bool
  | .ident .. | .field .. => true
  | _ => false

/-- Look at the key of a dictionary pattern, which must be constant; says whether its value is to be
looked at. -/
def keyPattern (key : Pattern) (look : Analyze Unit) : Analyze Bool := do
  match key with
  | .literal .. | .expr .. =>
    look
    if !((← known? key.id).any (·.isConstant)) then
      illTyped (.invalidPattern "dictionary pattern keys must be constant") key.span
    return true
  | _ =>
    illTyped (.invalidPattern "dictionary pattern keys must be constant") key.span
    return false

/-! ### The recursion -/

mutual

def reduce : Expr → Analyze ExprFacts
  | .literal n v => settle n (return .constant (.builtin v.tag) v)
  | .ident n name => settle n (bareName r name n.span)
  | .self n => settle n (selfName n.span)
  | .array n es => settle n do arrayFacts ((← reduceAll es).map (·.2))
  | .dictionary n es => settle n do dictionaryFacts (← reduceEntries es)
  | .unary n op a => settle n do unaryFacts op (← asValue a (reduce a)) n.span
  | .binary n op a b => settle n do
    let left ← asValue a (reduce a)
    let right ← asValue b (reduce b)
    binaryFacts op left right n.span
  | .ternary n c a b => settle n do
    let condition ← asValue c (reduce c)
    let yes ← asValue a (reduce a)
    let no ← asValue b (reduce b)
    choiceFacts r condition yes no
  | .assign n op target value => settle n do
    let targetFacts ← reduce target
    let valueFacts ← asValue value (reduce value)
    assignFacts r op target value targetFacts valueFacts n.span
  | .field n base name => settle n do fieldFacts r (← asValue base (reduce base)) name
  | .subscript n base index => settle n do
    let baseFacts ← asValue base (reduce base)
    let indexFacts ← asValue index (reduce index)
    subscriptFacts baseFacts indexFacts n.span
  | .call n callee args isSuper => settle n do
    let count := args.length
    let whole := asValue callee (reduce callee)
    let call ← match callee with
      | .ident c name =>
        if isSuper then superCall r name c.span else bareCall r c name count
      | .field _ base name => do
        let receiver ← asValue base (reduce base)
        methodCall r receiver.type name count
      | _ => do
        let _ ← whole
        pure { dispatch := .callable }
    settleCallee callee.id
    let facts ← reduceAll args
    callFacts r (Expr.call n callee args isSuper).calleeName call facts n.span
  | .cast n a spec => settle n do
    let operand ← asValue a (reduce a)
    castFacts r operand (← writtenType r spec) n.span
  | .typeTest n a spec _ => settle n do
    let _ ← asValue a (reduce a)
    recordTest n.id (← writtenType r spec)
    return boolFacts
  | .lambda n f => settle n (lambda f)
  | .preload n path => settle n do headOf r (← resolvePath path) n.span
  | .await n a => settle n do awaitFacts (← reduce a)

def reduceAll : List Expr → Analyze (List (Node × ExprFacts))
  | [] => return []
  | e :: es => do
    let f ← asValue e (reduce e)
    return (e.node, f) :: (← reduceAll es)

def reduceEntries : List (Expr × Expr) → Analyze (List (ExprFacts × ExprFacts))
  | [] => return []
  | (k, v) :: es => do
    let key ← asValue k (reduce k)
    let value ← asValue v (reduce v)
    return (key, value) :: (← reduceEntries es)

def paramTypes : List ParamDecl → Analyze (List (String × StaticType))
  | [] => return []
  | ⟨_, name, type, infer, default⟩ :: rest => do
    let t ← match type, infer, default with
      | some spec, _, _ => writtenType r spec
      | none, true, some d => do
        let f ← inInitializer true name.span (reduce d)
        inferredType name.name f.type d.span
      | none, _, _ => pure .variant
    return (name.name, t) :: (← paramTypes rest)

def declareParams : List ParamDecl → Nat → List (String × StaticType) → Analyze Unit
  | [], _, _ => pure ()
  | ⟨id, name, _, _, default⟩ :: rest, i, types => do
    let type := (types.head?.map (·.2)).getD .variant
    match default with
    | some d =>
      setStatement name.span
      let f ← asValue d (reduce d)
      checkStored r type d.id d.span f .assignment
    | none => pure ()
    declareLocal r name id type (.param i) none
    declareParams rest (i + 1) types.tail

def lambda : FunctionDecl → Analyze ExprFacts
  | ⟨id, name, params, result, body, _, isStatic⟩ => do
    let s ← signatureWith r name params result isStatic (← paramTypes params)
    inLambda id name s do
      declareParams params 0 s.params
      let returns ← block (statements body {})
      checkMissingReturn result s returns name.span
      reportUnusedParams

def statements : List Stmt → Flow → Analyze Flow
  | [], flow => return flow
  | s :: rest, flow => do
    if flow.ended && !flow.reported then
      warn .unreachableCode "unreachable code after a return, break or continue" s.span
    let returns ← statement s
    statements rest
      { returns := flow.returns || returns
        ended := flow.ended || returns || s.isTerminator
        reported := flow.reported || flow.ended }

def statement : Stmt → Analyze Bool
  | .expr n e => do
    setStatement n.span
    checkStandalone e (← reduce e)
    return false
  | .var n ⟨id, name, type, infer, initializer, _, _, _⟩ => do
    setStatement n.span
    let declared ← type.mapM (writtenType r)
    match initializer with
    | none => declareLocal r name id (declared.getD .variant) .variable none
    | some e => do
      let f ← asValue e (reduce e)
      let t ← variableType name.name declared infer f.type e.span
      checkStored r t e.id e.span f .assignment
      declareLocal r name id t .variable none
    return false
  | .const n ⟨id, name, type, e⟩ => do
    setStatement n.span
    let declared ← type.mapM (writtenType r)
    let before ← errorCount
    let f ← asValue e (reduce e)
    let (t, v) ← constantOf r name.name declared f e.span before
    declareLocal r name id t .constant v
    return false
  | .ifElse n c yes none => do
    setStatement n.span.header
    let _ ← asValue c (reduce c)
    let _ ← block (statements yes {})
    return false
  | .ifElse n c yes (some no) => do
    setStatement n.span.header
    let _ ← asValue c (reduce c)
    let first ← block (statements yes {})
    let second ← block (statements no {})
    return first && second
  | .whileLoop n c body => do
    setStatement n.span.header
    let _ ← asValue c (reduce c)
    let _ ← inLoop (block (statements body {}))
    return false
  | .forLoop n name type iterable body => do
    setStatement n.span.header
    let f ← asValue iterable (reduce iterable)
    let t ← loopType r type f.type iterable.span
    enterBlock
    declareLocal r name n.id t .loop none
    let _ ← inLoop (block (statements body {}))
    exitBlock
    return false
  | .matchOn n subject bs => do
    setStatement n.span.header
    let f ← asValue subject (reduce subject)
    let (allReturn, catchAll) ← branches bs f.type
    return !bs.isEmpty && allReturn && catchAll
  | .giveBack n none => do
    setStatement n.span
    checkNoResult n.span
    return true
  | .giveBack n (some e) => do
    setStatement n.span
    let f ← asValue e (reduce e)
    checkResult r e.id e.span f
    return true
  | .breakLoop n => do
    setStatement n.span
    outsideLoop "break" n.span
    return false
  | .continueLoop n => do
    setStatement n.span
    outsideLoop "continue" n.span
    return false
  | .pass n => do
    setStatement n.span
    return false
  | .assert n c none => do
    setStatement n.span
    let _ ← asValue c (reduce c)
    return false
  | .assert n c (some m) => do
    setStatement n.span
    let _ ← asValue c (reduce c)
    let _ ← asValue m (reduce m)
    return false

/-- Look at the branches of a match on a value of a type; says whether all of them give back and
whether one of them catches every value. -/
def branches : List Branch → StaticType → Analyze (Bool × Bool)
  | [], _ => return (true, false)
  | ⟨node, patterns, guard, body⟩ :: rest, type => do
    setStatement node.span.header
    enterBlock
    if patterns.length > 1 && Pattern.bindsAny patterns then
      illTyped
        (.invalidPattern "cannot use a variable binding in a branch with several patterns")
        node.span
    alternatives patterns type
    match guard with
    | some g =>
      let _ ← asValue g (reduce g)
    | none => pure ()
    let returns ← block (statements body {})
    exitBlock
    let (allReturn, catchAll) ← branches rest type
    return (returns && allReturn, Branch.catchesAll ⟨node, patterns, guard, body⟩ || catchAll)

def alternatives : List Pattern → StaticType → Analyze Unit
  | [], _ => pure ()
  | p :: rest, type => do
    if p.isRest then
      illTyped (.invalidPattern "\"..\" is only allowed inside array and dictionary patterns")
        p.span
    else pattern p type
    alternatives rest type

def pattern : Pattern → StaticType → Analyze Unit
  | .literal n e, _ => do
    let _ ← record n.id (← asValue e (reduce e))
  | .expr n e, _ => do
    let f ← asValue e (reduce e)
    if !f.isConstant && !isPatternName e then
      illTyped (.invalidPattern "expression patterns must be constants or variables") e.span
    let _ ← record n.id f
  | .bind n name, type => do
    let t := if type.isHard then type else .variant
    declareLocal r name n.id t .binding none
    let _ ← record n.id (.named t (.local n.id .binding))
  | .wildcard _, _ => pure ()
  | .rest n, _ => illTyped (.invalidPattern "\"..\" must be the last element of the pattern") n.span
  | .array n es, type => do
    if type.isHard && !type.isVariant && type.tag? != some .array then
      illTyped (.invalidPattern "array pattern cannot match this value") n.span
    elementPatterns es ((type.element? 0).getD .variant)
  | .dictionary n es, type => do
    if type.isHard && !type.isVariant && type.tag? != some .dictionary then
      illTyped (.invalidPattern "dictionary pattern cannot match this value") n.span
    entryPatterns es ((type.element? 1).getD .variant)

def elementPatterns : List Pattern → StaticType → Analyze Unit
  | [], _ => pure ()
  | p :: rest, type => do
    if !(p.isRest && rest.isEmpty) then pattern p type
    elementPatterns rest type

def entryPatterns : List (Pattern × Option Pattern) → StaticType → Analyze Unit
  | [], _ => pure ()
  | (key, none) :: rest, type => do
    if !(key.isRest && rest.isEmpty) then
      let look := pattern key .variant
      let _ ← keyPattern key look
    entryPatterns rest type
  | (key, some value) :: rest, type => do
    let look := pattern key .variant
    let valueLook := pattern value type
    if ← keyPattern key look then valueLook
    entryPatterns rest type

end

end Analyze

end HotScript
