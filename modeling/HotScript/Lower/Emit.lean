import HotScript.Lower.Layout

/-!
Emitting the code of one function.

The stack holds captures, arguments, locals and temporaries. A local keeps its slot for the whole
function; a temporary goes back to a list of free slots as soon as it was used, and the one freed
last is taken first.
-/

namespace HotScript

structure Operand where
  address : Address
  /-- A temporary is free again once it was used. -/
  temporary : Bool := false
deriving DecidableEq, Repr

namespace Operand

def nil : Operand := { address := .nil }
def self : Operand := { address := .self }
def word (o : Operand) : Nat := o.address.encode

end Operand

/-- The jumps out of a loop whose targets are not known yet. -/
structure LoopLabels where
  breaks : List Nat := []
  continues : List Nat := []

structure Emitter where
  chunk : Chunk := {}
  pool : Pool := {}
  /-- The slot of each local, by the node that declares it. -/
  locals : Table NodeId Nat := {}
  stackSize : Nat := 0
  /-- Free temporaries, freed last first. -/
  free : List Nat := []
  loops : List LoopLabels := []
  line : Nat := 0
  lambdas : List Nat := []
  classLambdas : Array FunctionCode := #[]
deriving Inhabited

/-- What the code of a function depends on besides its tree. -/
structure Plan where
  facts : NodeFacts
  registry : Registry
  layouts : Layouts
  cls : ClassRef
  isStatic : Bool := false
  /-- The type that values given back are converted to. -/
  result : StaticType := .variant
  /-- The variables whose accessor the function is: it reaches their storage directly. -/
  accessorOf : List String := []

abbrev Lower := StateT Emitter (Except CompileFault)

/-- Whether storing a value of type `source` where `target` is expected needs a check. -/
def StaticType.needsConversion (target source : StaticType) : Bool :=
  target.isHard && !target.isVariant && !(source.isHard && source.same target)

namespace Lower

/-- Give up: the analysis left something that has no code. -/
def internal {α : Type} (message : String) (span : Span) : Lower α :=
  throw (.internal message span)

def declareLocal (decl : NodeId) : Lower Address :=
  modifyGet fun e =>
    (.stack e.stackSize,
      { e with stackSize := e.stackSize + 1, locals := e.locals.insert decl e.stackSize })

def localAddress (decl : NodeId) (span : Span) : Lower Address := do
  match (← get).locals.find? decl with
  | some slot => return .stack slot
  | none => internal "local used before its declaration" span

def temporary : Lower Operand :=
  modifyGet fun e =>
    match e.free with
    | slot :: free => ({ address := .stack slot, temporary := true }, { e with free })
    | [] =>
      ({ address := .stack e.stackSize, temporary := true },
        { e with stackSize := e.stackSize + 1 })

def release (o : Operand) : Lower Unit :=
  modify fun e =>
    match o.temporary, o.address with
    | true, .stack slot => if e.free.contains slot then e else { e with free := slot :: e.free }
    | _, _ => e

def releaseAll (os : List Operand) : Lower Unit := os.forM release

def constantPlace (c : Constant) : Lower Nat :=
  modifyGet fun e =>
    let (i, pool) := e.pool.add c
    (i.toNat, { e with pool })

def constant (v : Value) : Lower Operand :=
  return { address := .constant (← constantPlace (.value v)) }

def namePlace (name : String) : Lower Nat := constantPlace (.name name)
def typePlace (t : StaticType) : Lower Nat := constantPlace (.type t)
def classPlace (c : ClassRef) : Lower Nat := constantPlace (.cls c)
def nativePlace (name : String) : Lower Nat := constantPlace (.native name)

def classOperand (c : ClassRef) : Lower Operand :=
  return { address := .constant (← classPlace c) }

def nativeOperand (name : String) : Lower Operand :=
  return { address := .constant (← nativePlace name) }

def setLine (line : Nat) : Lower Unit := modify fun e => { e with line }

def emit (op : Opcode) (words : List Nat) : Lower Unit :=
  modify fun e => { e with chunk := e.chunk.write op words e.line }

def emitList (op : Opcode) (head : List Nat) (count : Nat) (items : List Nat) : Lower Unit :=
  emit op (head ++ count :: items)

def emitJump (op : Opcode) (words : List Nat) : Lower Nat :=
  modifyGet fun e =>
    let (at', chunk) := e.chunk.writeJump op words e.line
    (at', { e with chunk })

def patch (jump : Nat) : Lower Unit :=
  modify fun e => { e with chunk := e.chunk.patchJump jump }

def patchAll (jumps : List Nat) : Lower Unit := jumps.forM patch

def patchTo (jump target : Nat) : Lower Unit :=
  modify fun e => { e with chunk := e.chunk.patchWord jump target }

def offset : Lower Nat := return (← get).chunk.size

def emitOperator (dst a b : Operand) (op : Operator) : Lower Unit :=
  emit .operator [dst.word, a.word, b.word, op.code]

def store (dst : Address) (value : Operand) (target source : StaticType) : Lower Unit := do
  if dst ≠ value.address then
    if target.needsConversion source then
      emit .assignTyped [dst.encode, value.word, ← typePlace target]
    else emit .assign [dst.encode, value.word]

def convert (value : Operand) (target source : StaticType) : Lower Operand := do
  if target.needsConversion source then
    let dst ← temporary
    emit .assignTyped [dst.word, value.word, ← typePlace target]
    release value
    return dst
  else return value

/-- Keep a value in a temporary of its own, so that later code cannot change it. -/
def materialize (value : Operand) : Lower Operand := do
  if value.temporary then return value
  else
    let dst ← temporary
    emit .assign [dst.word, value.word]
    return dst

/-- Write a call into a fresh temporary; `head` stands between its destination and the count of its
arguments. -/
def emitCall (op : Opcode) (head : List Nat) (args : List Operand) : Lower Operand := do
  let dst ← temporary
  emitList op (dst.word :: head) args.length (args.map (·.word))
  releaseAll args
  return dst

def enterLoop : Lower Unit := modify fun e => { e with loops := {} :: e.loops }

/-- Leave a loop with the jumps that are still to be patched, oldest first. -/
def leaveLoop : Lower LoopLabels :=
  modifyGet fun e =>
    match e.loops with
    | l :: loops =>
      ({ breaks := l.breaks.reverse, continues := l.continues.reverse }, { e with loops })
    | [] => ({}, e)

def addLabel (f : LoopLabels → LoopLabels) (span : Span) : Lower Unit := do
  match (← get).loops with
  | l :: loops => modify fun e => { e with loops := f l :: loops }
  | [] => internal "jump outside of a loop" span

end Lower

namespace Plan

def factsOf (p : Plan) (n : Node) : Lower ExprFacts :=
  match p.facts.exprs.find? n.id with
  | some f => return f
  | none => Lower.internal "expression was not analyzed" n.span

def typeOf (p : Plan) (e : Expr) : StaticType := p.facts.exprType e.id

def localType (p : Plan) (decl : NodeId) : StaticType :=
  ((p.facts.locals.find? decl).map (·.type)).getD .variant

def layoutOf (p : Plan) (cls : ClassRef) : Lower Layout :=
  match p.layouts.find? cls with
  | some (.ok layout) => return layout
  | some (.error fault) => throw fault
  | none => throw (.notAnalyzed cls)

def memberSlot (p : Plan) (owner : ClassRef) (name : String) : Lower Slot := do
  match (← p.layoutOf owner).instances.find? name with
  | some slot => return slot
  | none =>
    Lower.internal ("member \"" ++ name ++ "\" has no slot in \"" ++ owner.qualified ++ "\"") {}

def staticSlot (p : Plan) (owner : ClassRef) (name : String) : Lower Slot := do
  match (← p.layoutOf owner).statics.find? name with
  | some slot => return slot
  | none =>
    Lower.internal
      ("static variable \"" ++ name ++ "\" has no slot in \"" ++ owner.qualified ++ "\"") {}

/-- The accessor to go through, unless the function is an accessor of the variable itself. -/
def accessor? (p : Plan) (name : String) (accessor : Option String) : Option String :=
  if p.accessorOf.contains name then none else accessor

end Plan

end HotScript
