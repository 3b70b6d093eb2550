import HotScript.Lower.Chain

/-!
The code of expressions, patterns and statements.

Parts are evaluated in the order in which they are written. The result of an expression is where its
value is. A constant expression is read from the pool, except for containers, which are made anew,
and lambdas and assignments.
-/

namespace HotScript

namespace Lower

def construct (op : Opcode) (type : StaticType) (count : Nat) (items : List Operand) :
    Lower Operand := do
  let dst ← temporary
  emitList op [dst.word, ← typePlace type] count (items.map (·.word))
  releaseAll items
  return dst

def apply (op : Operator) (a b : Operand) : Lower Operand := do
  let dst ← temporary
  emitOperator dst a b op
  return dst

def negate (dst : Operand) : Lower Unit := emitOperator dst dst .nil .not

/-- `and` and `or`: the second operand is evaluated only when the first does not decide. -/
def logical (op : BinaryOp) (left right : Lower Operand) : Lower Operand := do
  let dst ← temporary
  let decides : Opcode := if op = .and then .jumpIfNot else .jumpIf
  let short := op == .or
  let a ← left
  let first ← emitJump decides [a.word]
  release a
  let b ← right
  let second ← emitJump decides [b.word]
  release b
  emit .assign [dst.word, (← constant (.bool !short)).word]
  let toEnd ← emitJump .jump []
  patch first
  patch second
  emit .assign [dst.word, (← constant (.bool short)).word]
  patch toEnd
  return dst

def choose (condition yes no : Lower Operand) : Lower Operand := do
  let dst ← temporary
  let c ← condition
  let toNo ← emitJump .jumpIfNot [c.word]
  release c
  let a ← yes
  emit .assign [dst.word, a.word]
  release a
  let toEnd ← emitJump .jump []
  patch toNo
  let b ← no
  emit .assign [dst.word, b.word]
  release b
  patch toEnd
  return dst

def testType (value : Operand) (type : StaticType) : Lower Operand := do
  let dst ← temporary
  emit .typeTest [dst.word, value.word, ← typePlace type]
  return dst

def plainDefault (type : StaticType) : Value :=
  if type.isHard then ((default : Heap).defaultValue type).1 else .nil

/-- Set a local to the default of its type; containers are made anew. -/
def emitDefault (slot : Address) (type : StaticType) : Lower Unit := do
  let isContainer := type.tag? == some .array || type.tag? == some .dictionary
  if isContainer && type.isHard then
    let op : Opcode :=
      if type.elements.isEmpty then .construct
      else if type.tag? == some .array then .constructArray
      else .constructDictionary
    emitList op [slot.encode, ← typePlace type] 0 []
  else
    emit .assign [slot.encode, (← constant (plainDefault type)).word]

/-- The jumps taken when the subject is no container of a kind and size. -/
def testContainer (subject : Operand) (tag : Tag) (size : Nat) (isOpen : Bool) :
    Lower (List Nat) := do
  let result ← testType subject (.builtin tag)
  let wrongKind ← emitJump .jumpIfNot [result.word]
  let actual ← temporary
  emitList .callBuiltin [actual.word, subject.word, ← namePlace "size"] 0 []
  let expected ← constant (.int (Int64.ofNat size))
  emitOperator result actual expected (if isOpen then .greaterEqual else .equal)
  let wrongSize ← emitJump .jumpIfNot [result.word]
  releaseAll [actual, result]
  return [wrongKind, wrongSize]

def testEqual (subject : Operand) (value : Lower Operand) : Lower (List Nat) := do
  let v ← value
  let result ← temporary
  emit .matchEqual [result.word, subject.word, v.word]
  let jump ← emitJump .jumpIfNot [result.word]
  releaseAll [v, result]
  return [jump]

def matchElement (subject key : Operand) (test : Operand → Lower (List Nat)) :
    Lower (List Nat) := do
  let value ← temporary
  emit .getKeyed [value.word, subject.word, key.word]
  let fails ← test value
  release value
  return fails

/-- Match an entry of a dictionary: the key must be there, and its value is matched by `test`. -/
def matchEntry (subject : Operand) (key : Lower Operand)
    (test : Option (Operand → Lower (List Nat))) : Lower (List Nat) := do
  let key ← key
  let found ← apply .isIn key subject
  let missing ← emitJump .jumpIfNot [found.word]
  release found
  let fails ← match test with
    | some test => matchElement subject key test
    | none => pure []
  release key
  return missing :: fails

/-- A branch of a match: `alternatives` gives the jumps taken on a match and those taken when the
last alternative fails. Gives the jump to the end of the whole match. -/
def matchBranch (alternatives : Lower (List Nat × List Nat)) (guard : Option (Lower Operand))
    (body : Lower Unit) : Lower Nat := do
  let (matched, failed) ← alternatives
  patchAll failed
  let toNext ← emitJump .jump []
  patchAll matched
  let unguarded ← match guard with
    | some guard => do
      let g ← guard
      let jump ← emitJump .jumpIfNot [g.word]
      release g
      pure [jump]
    | none => pure []
  body
  let toEnd ← emitJump .jump []
  patchAll (toNext :: unguarded)
  return toEnd

def loopWhile (line : Nat) (condition : Lower Operand) (body : Lower Unit) : Lower Unit := do
  let start ← offset
  let c ← condition
  let toEnd ← emitJump .jumpIfNot [c.word]
  release c
  enterLoop
  body
  let labels ← leaveLoop
  setLine line
  let back ← emitJump .jump []
  patchTo back start
  patch toEnd
  patchAll labels.breaks
  labels.continues.forM fun jump => patchTo jump start

/-- Repeat a body for each element of a container.  The container and the state of the iteration are
temporaries that live as long as the loop. -/
def loopOver (n : Node) (type : StaticType) (iterable : Lower Operand) (body : Lower Unit) :
    Lower Unit := do
  let container ← materialize (← iterable)
  let state ← temporary
  let variable' ← declareLocal n.id
  let words := [state.word, container.word, variable'.encode]
  let begin' ← emitJump .iterBegin words
  let start ← offset
  if type.isHard && !type.isVariant then
    emit .assignTyped [variable'.encode, variable'.encode, ← typePlace type]
  enterLoop
  body
  let labels ← leaveLoop
  let next ← offset
  setLine n.span.line
  let advance ← emitJump .iterNext words
  let back ← emitJump .jump []
  patchTo back start
  patch begin'
  patch advance
  patchAll labels.breaks
  labels.continues.forM fun jump => patchTo jump next
  releaseAll [state, container]

def apart {α : Type} (line : Nat) (act : Lower α) : Lower (α × Emitter) := do
  let outer ← get
  let (a, inner) ← act.run { line, classLambdas := outer.classLambdas }
  set { outer with classLambdas := inner.classLambdas }
  return (a, inner)

def addLambda (code : FunctionCode) : Lower Nat :=
  modifyGet fun e =>
    (e.classLambdas.size,
      { e with
        classLambdas := e.classLambdas.push code
        lambdas := e.lambdas ++ [e.classLambdas.size] })

end Lower

def FunctionCode.anonymous : String := "<anonymous lambda>"

def Emitter.finish (e : Emitter) (name : String) (s : Signature) (isStatic : Bool) (line : Nat) :
    FunctionCode :=
  { name
    chunk := e.chunk
    pool := e.pool
    arity := s.params.length
    stackSize := e.stackSize
    argNames := s.params.map (·.1)
    argTypes := s.params.map (·.2)
    result := s.result
    isStatic := s.isStatic || isStatic
    isCoroutine := s.isCoroutine
    lambdas := e.lambdas
    line }

namespace Plan

open Lower

/-- A constant expression is read from the pool; any other one is evaluated. -/
def folded (p : Plan) (n : Node) (act : ExprFacts → Lower Operand) : Lower Operand := do
  let f ← p.factsOf n
  match f.value with
  | some v => constant v
  | none => act f

/-- The captures and parameters of a function have the first slots of its stack. -/
def declareInputs (f : FunctionFacts) (params : List ParamDecl) : Lower Unit := do
  f.captures.forM fun c => do let _ ← declareLocal c.decl
  params.forM fun param => do let _ ← declareLocal param.id

/-- The end of a function: control that gets here gives back null. -/
def endFunction (span : Span) : Lower Unit := do
  setLine (max span.endLine span.line)
  emit .giveBack [Address.nil.encode]

def functionCode (p : Plan) (name : Ident) (shown : String) (params : List ParamDecl)
    (f : FunctionFacts) (entries : List Nat) (e : Emitter) : FunctionCode :=
  { e.finish shown f.signature p.isStatic name.span.line with
    captures := f.captures.length
    defaults := params.countP (·.default.isSome)
    entries
    usesSelf := f.usesSelf }

def inside (p : Plan) (f : FunctionFacts) : Plan :=
  { p with result := f.signature.result, accessorOf := [] }

/-- Make a lambda, whose code `inner` emits and whose default entries it gives. -/
def makeLambda (p : Plan) (id : NodeId) (name : Ident) (params : List ParamDecl)
    (inner : FunctionFacts → Lower (List Nat)) : Lower Operand := do
  match p.facts.functions.find? id with
  | none => internal "lambda was not analyzed" name.span
  | some f =>
    let shown := if name.name = "" then FunctionCode.anonymous else name.name
    let (entries, e) ← apart name.span.line (inner f)
    let place ← addLambda (p.functionCode name shown params f entries e)
    let captures ← f.captures.mapM fun c => localAddress c.decl name.span
    let dst ← temporary
    emitList (if f.usesSelf then .createSelfLambda else .createLambda) [dst.word, place]
      captures.length (captures.map Address.encode)
    return dst

def storeDefault (p : Plan) (id : NodeId) (name : Ident) (type : StaticType) (d : Expr)
    (value : Lower Operand) : Lower Unit := do
  setLine name.span.line
  let v ← value
  let slot ← localAddress id name.span
  store slot v type (p.typeOf d)
  release v

def initLocal (p : Plan) (id : NodeId) (e : Expr) (value : Lower Operand) : Lower Unit := do
  let v ← value
  let slot ← declareLocal id
  store slot v (p.localType id) (p.typeOf e)
  release v

def initConstant (p : Plan) (id : NodeId) (span : Span) : Lower Unit := do
  match (p.facts.locals.find? id).bind (·.value) with
  | none => internal "local constant has no value" span
  | some v =>
    let slot ← declareLocal id
    emit .assign [slot.encode, (← constant v).word]

mutual

def expr (p : Plan) : Expr → Lower Operand
  | .literal n v => p.folded n fun _ => constant v
  | .ident n name => p.folded n (p.readName n name)
  | .self n => p.folded n fun _ => return .self
  | .array n es => do
    let f ← p.factsOf n
    construct .constructArray f.type es.length (← p.exprs es)
  | .dictionary n es => do
    let f ← p.factsOf n
    construct .constructDictionary f.type es.length (← p.entries es)
  | .unary n op a => p.folded n fun _ => do
    let value ← p.expr a
    let dst ← apply op.operator value .nil
    release value
    return dst
  | .binary n op a b => p.folded n fun _ => do
    if op.isShortCircuit then logical op (p.expr a) (p.expr b)
    else
      let left ← p.expr a
      let right ← p.expr b
      let dst ← apply op.operator left right
      if op = .notIn then negate dst
      releaseAll [left, right]
      return dst
  | .ternary n c a b => p.folded n fun _ => choose (p.expr c) (p.expr a) (p.expr b)
  | .assign n op target value => do
    let _ ← p.factsOf n
    let f ← p.factsOf target.node
    match f.referent with
    | some (.staticVariable owner name) =>
      p.assignStatic op owner name (p.expr value) (p.typeOf value)
    | _ => p.assignTo op f (p.expr value) (p.typeOf value) target
    return .nil
  | .field n base name => p.folded n fun f => p.readField name.name f (p.expr base)
  | .subscript n base index => p.folded n fun _ => do
    let container ← p.expr base
    let key ← p.expr index
    let dst ← temporary
    emit .getKeyed [dst.word, container.word, key.word]
    releaseAll [container, key]
    return dst
  | .call n callee args _ => p.folded n fun f => do
    match f.dispatch with
    | some d => p.call n d (p.receiver callee) (p.expr callee) (p.exprs args)
    | none => internal "call was not analyzed" n.span
  | .cast n a _ => p.folded n fun f => do
    let value ← p.expr a
    if f.type.isVariant then return value
    else
      let dst ← temporary
      emit .cast [dst.word, value.word, ← typePlace f.type]
      release value
      return dst
  | .typeTest n a _ negated => p.folded n fun _ => do
    match p.facts.typeTests.find? n.id with
    | none => internal "type test was not analyzed" n.span
    | some type =>
      let value ← p.expr a
      let dst ← testType value type
      if negated then negate dst
      release value
      return dst
  | .lambda n ⟨id, name, params, _, body, _, _⟩ => do
    let _ ← p.factsOf n
    p.makeLambda id name params fun f => do
      let p := p.inside f
      declareInputs f params
      let entries ← p.defaults (params.length - params.countP (·.default.isSome))
        f.signature.params params
      p.statements body
      endFunction name.span
      return if params.any (·.default.isSome) then entries else []
  | .preload n _ => p.folded n fun f => do
    match f.type.class? with
    | some cls => classOperand cls
    | none => internal "preload did not resolve to a script" n.span
  | .await n a => p.folded n fun _ => do
    let value ← p.expr a
    let dst ← temporary
    emit .await [dst.word, value.word]
    release value
    return dst

/-- Assign what `rhs` evaluates to a name that is no static variable, or to an element. -/
def assignTo (p : Plan) (op : Option BinaryOp) (f : ExprFacts) (rhs : Lower Operand)
    (source : StaticType) : Expr → Lower Unit
  | .ident n name =>
    match f.referent with
    | some referent => p.assignName op n name f referent rhs source
    | none => internal "cannot assign to this expression" n.span
  | .field n base name => do
    let chain ← p.containers (p.expr base) base
    p.assignElement op chain (memberKey name.name) (p.facts.exprType n.id) rhs source
  | .subscript n base index => do
    let chain ← p.containers (p.expr base) base
    p.assignElement op chain (indexKey (p.expr index)) (p.facts.exprType n.id) rhs source
  | target => internal "cannot assign to this expression" target.span

def receiver (p : Plan) : Expr → Option Receiver
  | .field _ base _ => some { node := base.node, value := p.expr base }
  | _ => none

def exprs (p : Plan) : List Expr → Lower (List Operand)
  | [] => return []
  | e :: es => do
    let value ← p.expr e
    return value :: (← p.exprs es)

def entries (p : Plan) : List (Expr × Expr) → Lower (List Operand)
  | [] => return []
  | (k, v) :: es => do
    let key ← p.expr k
    let value ← p.expr v
    return key :: value :: (← p.entries es)

/-- Read the containers down to an expression, which `whole` evaluates. -/
def containers (p : Plan) (whole : Lower Operand) : Expr → Lower Chain
  | .field n base name => do
    let f ← p.factsOf n
    if startsChain f then p.chainRoot (.field n base name) f whole
    else
      let chain ← p.containers (p.expr base) base
      p.descend chain n (memberKey name.name)
  | .subscript n base index => do
    let f ← p.factsOf n
    if startsChain f then p.chainRoot (.subscript n base index) f whole
    else
      let chain ← p.containers (p.expr base) base
      p.descend chain n (indexKey (p.expr index))
  | e => do p.chainRoot e (← p.factsOf e.node) whole

/-- The code that computes left out arguments, and where it starts for each number of them; the
first `required` parameters have none. -/
def defaults (p : Plan) : Nat → List (String × StaticType) → List ParamDecl → Lower (List Nat)
  | _, _, [] => return [← offset]
  | required + 1, types, _ :: rest => p.defaults required types.tail rest
  | 0, types, ⟨_, _, _, _, none⟩ :: rest => do
    let start ← offset
    return start :: (← p.defaults 0 types.tail rest)
  | 0, types, ⟨id, name, _, _, some d⟩ :: rest => do
    let start ← offset
    p.storeDefault id name ((types.head?.map (·.2)).getD .variant) d (p.expr d)
    return start :: (← p.defaults 0 types.tail rest)

def statements (p : Plan) : List Stmt → Lower Unit
  | [] => pure ()
  | s :: rest => do
    setLine s.span.line
    p.statement s
    p.statements rest

def statement (p : Plan) : Stmt → Lower Unit
  | .expr _ e => do release (← p.expr e)
  | .var _ ⟨id, _, _, _, none, _, _, _⟩ => do emitDefault (← declareLocal id) (p.localType id)
  | .var _ ⟨id, _, _, _, some e, _, _, _⟩ => p.initLocal id e (p.expr e)
  | .const _ ⟨id, name, _, _⟩ => p.initConstant id name.span
  | .ifElse _ c yes none => do
    let condition ← p.expr c
    let toEnd ← emitJump .jumpIfNot [condition.word]
    release condition
    p.statements yes
    patch toEnd
  | .ifElse _ c yes (some no) => do
    let condition ← p.expr c
    let toNo ← emitJump .jumpIfNot [condition.word]
    release condition
    p.statements yes
    let toEnd ← emitJump .jump []
    patch toNo
    p.statements no
    patch toEnd
  | .whileLoop n c body => loopWhile n.span.line (p.expr c) (p.statements body)
  | .forLoop n _ _ iterable body =>
    loopOver n (p.localType n.id) (p.expr iterable) (p.statements body)
  | .matchOn _ subject bs => do
    let value ← materialize (← p.expr subject)
    patchAll (← p.branches value bs)
    release value
  | .giveBack _ none => emit .giveBack [Address.nil.encode]
  | .giveBack _ (some e) => do
    let value ← convert (← p.expr e) p.result (p.typeOf e)
    emit .giveBack [value.word]
    release value
  | .breakLoop n => do
    let jump ← emitJump .jump []
    addLabel (fun l => { l with breaks := jump :: l.breaks }) n.span
  | .continueLoop n => do
    let jump ← emitJump .jump []
    addLabel (fun l => { l with continues := jump :: l.continues }) n.span
  | .pass _ => pure ()
  | .assert _ c none => do
    let condition ← p.expr c
    emit .assert [condition.word, Address.nil.encode]
    release condition
  | .assert _ c (some m) => do
    let condition ← p.expr c
    let message ← p.expr m
    emit .assert [condition.word, message.word]
    releaseAll [condition, message]

/-- The code of the branches of a match; gives the jumps to its end. -/
def branches (p : Plan) (subject : Operand) : List Branch → Lower (List Nat)
  | [] => return []
  | ⟨node, patterns, none, body⟩ :: rest => do
    setLine node.span.line
    let toEnd ← matchBranch (p.alternatives subject patterns) none (p.statements body)
    return toEnd :: (← p.branches subject rest)
  | ⟨node, patterns, some guard, body⟩ :: rest => do
    setLine node.span.line
    let toEnd ← matchBranch (p.alternatives subject patterns) (some (p.expr guard))
      (p.statements body)
    return toEnd :: (← p.branches subject rest)

/-- Try patterns one after the other; gives the jumps taken on a match and those taken when the last
pattern fails. -/
def alternatives (p : Plan) (subject : Operand) : List Pattern → Lower (List Nat × List Nat)
  | [] => return ([], [])
  | pat :: rest => do
    let failed ← p.pattern subject pat
    let matched ← emitJump .jump []
    if rest.isEmpty then return ([matched], failed)
    else
      patchAll failed
      let (others, failed) ← p.alternatives subject rest
      return (matched :: others, failed)

/-- Match a value against a pattern; gives the jumps taken when it does not match. -/
def pattern (p : Plan) (subject : Operand) : Pattern → Lower (List Nat)
  | .literal _ e | .expr _ e => testEqual subject (p.expr e)
  | .bind n _ => do
    let slot ← declareLocal n.id
    emit .assign [slot.encode, subject.word]
    return []
  | .wildcard _ | .rest _ => return []
  | .array n es => do
    let wrong ← testContainer subject .array (es.countP (!·.isRest)) (Pattern.array n es).isOpen
    return wrong ++ (← p.elements subject 0 es)
  | .dictionary n es => do
    let wrong ← testContainer subject .dictionary (es.countP (!·.1.isRest))
      (Pattern.dictionary n es).isOpen
    return wrong ++ (← p.patternEntries subject es)

def elements (p : Plan) (subject : Operand) (i : Nat) : List Pattern → Lower (List Nat)
  | [] => return []
  | .rest _ :: rest => p.elements subject i rest
  | .wildcard _ :: rest => p.elements subject (i + 1) rest
  | pat :: rest => do
    let key ← constant (.int (Int64.ofNat i))
    let fails ← matchElement subject key fun value => p.pattern value pat
    return fails ++ (← p.elements subject (i + 1) rest)

def patternEntries (p : Plan) (subject : Operand) :
    List (Pattern × Option Pattern) → Lower (List Nat)
  | [] => return []
  | (key, none) :: rest => do
    let fails ← match key with
      | .rest _ => pure []
      | .literal _ e | .expr _ e => matchEntry subject (p.expr e) none
      | other => internal "dictionary pattern key is not constant" other.span
    return fails ++ (← p.patternEntries subject rest)
  | (key, some value) :: rest => do
    let fails ← match key with
      | .rest _ => pure []
      | .literal _ e | .expr _ e =>
        matchEntry subject (p.expr e) (some fun element => p.pattern element value)
      | other => internal "dictionary pattern key is not constant" other.span
    return fails ++ (← p.patternEntries subject rest)

end

end Plan

end HotScript
