import HotScript.Analysis.Workspace
import HotScript.Source.Path

/-!
The analysis as a state machine over a workspace and a cursor.

What the analysis finds about nodes is gathered at the cursor and filed with the unit when its run
ends; what it finds about classes and members, and every diagnostic, goes to the unit at once. An
action yields nothing only when a chain of classes or of nested requests got longer than `patience`,
which no project comes near.
-/

namespace HotScript

structure FunctionContext where
  name : String := ""
  isStatic : Bool := false
  result : StaticType := .variant
  hasAwait : Bool := false
  usesSelf : Bool := false
  loopDepth : Nat := 0
  /-- For each open block, innermost first, the names of blocks inside it that were left. -/
  closedNames : List (List String) := []
deriving Inhabited

structure Cursor where
  unit : UnitId
  cls : ClassId := 0
  function : Option FunctionContext := none
  scope : Scope := {}
  /-- The lambdas around, innermost first. -/
  lambdas : List NodeId := []
  /-- Lambdas that touch the instance. -/
  selfUsers : List NodeId := []
  statement : Option Span := none
  found : NodeFacts := {}
deriving Inhabited

structure Desk where
  work : Workspace
  cursor : Cursor
deriving Inhabited

abbrev Analyze := StateT Desk Option

namespace Analyze

/-- How long a chain of classes or of nested requests may get. -/
def patience : Nat := 0x10000000000

def cursor : Analyze Cursor := return (← get).cursor
def registry : Analyze Registry := return (← get).work.registry
def settings : Analyze Settings := return (← get).work.settings
def heap : Analyze Heap := return (← get).work.heap

def unitAt (id : UnitId) : Analyze FileUnit := return (← get).work.unit id

def unit : Analyze FileUnit := do unitAt (← cursor).unit

def tree : Analyze Tree := return (← unit).tree.getD default

def modifyWork (f : Workspace → Workspace) : Analyze Unit :=
  modify fun d => { d with work := f d.work }

def onWork {α : Type} (f : Workspace → α × Workspace) : Analyze α :=
  modifyGet fun d =>
    let (a, work) := f d.work
    (a, { d with work })

def onHeap {α : Type} (f : Heap → α × Heap) : Analyze α :=
  onWork fun w =>
    let (a, heap) := f w.heap
    (a, { w with heap })

def modifyCursor (f : Cursor → Cursor) : Analyze Unit :=
  modify fun d => { d with cursor := f d.cursor }

def modifyUnitAt (id : UnitId) (f : FileUnit → FileUnit) : Analyze Unit :=
  modifyWork fun w => w.modifyUnit id f

def modifyUnit (f : FileUnit → FileUnit) : Analyze Unit := do modifyUnitAt (← cursor).unit f

def modifyClass (id : ClassId) (f : ClassFacts → ClassFacts) : Analyze Unit :=
  modifyUnit fun u => u.modifyClass id f

def happen (e : UnitEvent) : Analyze Unit := do
  let id := (← cursor).unit
  modifyWork fun w => w.happen id e

def modifyFunction (f : FunctionContext → FunctionContext) : Analyze Unit :=
  modifyCursor fun c => { c with function := c.function.map f }

def modifyScope (f : Scope → Scope) : Analyze Unit :=
  modifyCursor fun c => { c with scope := f c.scope }

def modifyFound (f : NodeFacts → NodeFacts) : Analyze Unit :=
  modifyCursor fun c => { c with found := f c.found }

def setStatement (span : Span) : Analyze Unit :=
  modifyCursor fun c => { c with statement := some span }

def report (d : Diagnostic) : Analyze Unit := happen (.reported d)

def unresolved (fault : ResolutionFault) (span : Span) : Analyze Unit :=
  report (.resolution fault span)

def illTyped (fault : TypeFault) (span : Span) : Analyze Unit := report (.typing fault span)

def warn (w : Warning) (message : String) (span : Span) : Analyze Unit := do
  match (← settings).level w with
  | .ignore => pure ()
  | level => report (.warning w level message span)

def errorCount : Analyze Nat := return (← unit).errorCount

/-- Note that the current statement leaves a check to when the program runs. -/
def markUnsafe : Analyze Unit := do
  match (← cursor).statement with
  | some span => modifyFound fun t => span.lineRange.foldl NodeFacts.addUnsafeLine t
  | none => pure ()

def refOf (id : ClassId) : Analyze ClassRef := do
  let u ← unit
  return (u.classRef? id).getD { path := u.path, qualified := u.path, name := u.path, index := id }

def currentRef : Analyze ClassRef := do refOf (← cursor).cls

def className (id : ClassId) : Analyze String := return (← refOf id).name

def cyclicReference (span : Span) : Analyze Unit := do
  unresolved (.cyclicReference (← className (← cursor).cls)) span

def resolvePath (path : String) : Analyze String := return Path.resolve (← unit).path path

def known? (id : NodeId) : Analyze (Option ExprFacts) := do
  match (← cursor).found.exprs.find? id with
  | some f => return some f
  | none => return (← unit).nodes.exprs.find? id

def record (id : NodeId) (f : ExprFacts) : Analyze ExprFacts := do
  modifyFound fun t => { t with exprs := t.exprs.insert id f }
  return f

def isStaticContext : Analyze Bool := return (← cursor).function.any (·.isStatic)

def markUsesSelf : Analyze Unit :=
  modifyCursor fun c =>
    { c with
      function := c.function.map fun f => { f with usesSelf := true }
      selfUsers := c.lambdas ++ c.selfUsers }

/-- Do something at the level of a class, outside any function, and come back. -/
def inClass {α : Type} (cls : ClassId) (act : Analyze α) : Analyze α := do
  let saved ← cursor
  modifyCursor fun c =>
    { c with cls, function := none, scope := {}, lambdas := [], statement := none }
  let a ← act
  modifyCursor fun c =>
    { c with
      cls := saved.cls
      function := saved.function
      scope := saved.scope
      lambdas := saved.lambdas
      statement := saved.statement }
  return a

/-- Do something in another unit that has a tree, file what was found there, and come back. -/
def inUnit {α : Type} (id : UnitId) (act : Analyze α) : Analyze (Option α) := do
  match (← unitAt id).tree with
  | none => return none
  | some _ =>
    let saved ← cursor
    modifyCursor fun _ => { unit := id }
    let a ← act
    let found := (← cursor).found
    modifyUnitAt id fun u => u.fileFacts found
    modifyCursor fun _ => saved
    return some a

def inInitializer {α : Type} (isStatic : Bool) (span : Span) (act : Analyze α) : Analyze α := do
  let saved ← cursor
  modifyCursor fun c =>
    { c with
      function := some
        { name := if isStatic then "@static_initializer" else "@implicit_new", isStatic }
      statement := some span }
  let a ← act
  modifyCursor fun c => { c with function := saved.function, statement := saved.statement }
  return a

end Analyze

end HotScript
