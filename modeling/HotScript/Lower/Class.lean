import HotScript.Lower.Body

/-!
The code of classes and files.

Only a file that was analysed to the end without errors has code. The functions of a class are
compiled in the order of its members, then those that run its initializers; the lambdas of all of
them share one numbering.
-/

namespace HotScript

namespace FunctionCode

def initName : String := "@implicit_new"

def staticInitName : String := "@static_initializer"

end FunctionCode

/-- The variables that name a function as their accessor. -/
def ClassDecl.accessedBy (c : ClassDecl) (function : String) : List String :=
  (c.variableDecls.filter fun d =>
    match d.accessors with
    | .named getter setter =>
      getter.any (·.name == function) || setter.any (·.name == function)
    | _ => false).map (·.name.name)

/-- A step of compiling a class: the lambdas of the class so far, and faults. -/
abbrev LowerClass := StateT (Array FunctionCode) (Except CompileFault)

namespace Plan

open Lower

def emitting {α : Type} (line : Nat) (act : Lower α) : LowerClass (α × Emitter) := do
  let (a, e) ← act.run { line, classLambdas := ← get }
  set e.classLambdas
  return (a, e)

def function (p : Plan) (f : FunctionDecl) (name : String) (accessorOf : List String) :
    LowerClass FunctionCode := do
  match p.facts.functions.find? f.id with
  | none => throw (.internal ("function \"" ++ name ++ "\" was not analyzed") f.span)
  | some facts =>
    let p := { p with isStatic := f.isStatic, result := facts.signature.result, accessorOf }
    let (entries, e) ← emitting f.span.line do
      declareInputs facts f.params
      let entries ← p.defaults (f.params.length - f.defaultCount) facts.signature.params f.params
      p.statements f.body
      endFunction f.span
      return if f.defaultCount = 0 then [] else entries
    return p.functionCode f.name name f.params facts entries e

def initVariable (p : Plan) (d : VariableDecl) : Lower Unit := do
  match d.initializer with
  | none => pure ()
  | some init =>
    setLine d.name.span.line
    let value ← p.expr init
    let source := p.typeOf init
    if d.isStatic then
      let slot ← p.staticSlot p.cls d.name.name
      let value ← convert value slot.type source
      emit .setStatic [← classPlace p.cls, slot.index, value.word]
      release value
    else
      let slot ← p.memberSlot p.cls d.name.name
      store (.member slot.index) value slot.type source
      release value

def initializer (p : Plan) (vars : List VariableDecl) (isStatic : Bool) (line : Nat) :
    LowerClass (Option FunctionCode) := do
  if !vars.any (·.initializer.isSome) then return none
  let p := { p with isStatic }
  let name := if isStatic then FunctionCode.staticInitName else FunctionCode.initName
  let (_, e) ← emitting line do
    vars.forM p.initVariable
    emit .giveBack [Address.nil.encode]
  return some (e.finish name { name, result := .nil, isStatic } isStatic line)

def inlineAccessors (p : Plan) (d : VariableDecl) : LowerClass (List FunctionCode) := do
  match d.accessors with
  | .inline getter setter =>
    let g ← getter.mapM fun f => p.function f (Build.getterName d.name.name) [d.name.name]
    let s ← setter.mapM fun f => p.function f (Build.setterName d.name.name) [d.name.name]
    return g.toList ++ s.toList
  | _ => return []

def addMember (p : Plan) (decl : ClassDecl) (facts : ClassFacts) (c : ClassCode) (m : Member) :
    LowerClass ClassCode := do
  match m.name? with
  | none => return c
  | some name =>
    let c := { c with lines := c.lines.insert name m.span.line }
    let known := facts.members.find? name
    match m with
    | .var d =>
      let fs ← p.inlineAccessors d
      return { c with functions := fs.foldl (fun t f => t.insert f.name f) c.functions }
    | .const _ | .enum _ | .enumValue _ =>
      return { c with constants := c.constants.insert name ((known.bind (·.value)).getD .nil) }
    | .signal _ =>
      let s := (known.bind (·.signature)).getD { name }
      return { c with signals := c.signals.insert name s.toMethod }
    | .func f =>
      let code ← p.function f name (decl.accessedBy name)
      return { c with functions := c.functions.insert name code }
    | .cls id _ => return { c with inner := c.inner.insert name id }
    | .group _ => return c

def classCode (p : Plan) (defaultBase : String) (decl : ClassDecl) (facts : ClassFacts) :
    Except CompileFault ClassCode := do
  let layout ← match p.layouts.find? facts.ref with
    | some layout => layout
    | none => .error (.notAnalyzed facts.ref)
  let native := facts.native.getD defaultBase
  let start : ClassCode :=
    { ref := facts.ref
      globalName := if decl.isHead then decl.name? else none
      base := match facts.base.class?, facts.base.native? with
        | some base, _ => .script base
        | none, some base => .native base
        | none, none => .native native
      native
      members := layout.instances
      baseMembers := layout.baseCount
      statics := layout.statics
      capabilities := facts.capabilities
      outer := decl.outer
      icon := decl.icon }
  let build : LowerClass ClassCode := do
    let c ← decl.members.toList.foldlM (p.addMember decl facts) start
    let vars := decl.variableDecls
    let init ← p.initializer (vars.filter (!·.isStatic)) false decl.span.line
    let staticInit ← p.initializer (vars.filter (·.isStatic)) true decl.span.line
    return { c with init, staticInit }
  let (c, lambdas) ← build.run #[]
  return { c with lambdas }

end Plan

/-- The code of a file, given the layouts of the classes it uses. -/
def FileUnit.compile (u : FileUnit) (settings : Settings) (registry : Registry)
    (layouts : Layouts) : Except CompileFault FileCode := do
  let tree ← match u.status, u.isFailed, u.tree with
    | .fullySolved, false, some tree => pure tree
    | _, _, _ => throw (.invalidAnalysis u.path)
  let classes ← tree.classes.mapM fun decl => do
    match u.classFacts? decl.id with
    | none =>
      throw (.internal ("class \"" ++ decl.qualified ++ "\" was not analyzed") decl.span)
    | some facts =>
      let p : Plan := { facts := u.nodes, registry, layouts, cls := facts.ref }
      p.classCode settings.defaultBase decl facts
  return { path := u.path, hash := u.digest, classes, dependencies := u.dependencies }

/-- Compile a unit.  Nothing only when the analysis of a class it uses gave up. -/
def Workspace.compile (w : Workspace) (id : UnitId) :
    Option (Except CompileFault FileCode × Workspace) := do
  let u := w.unit id
  if u.status ≠ .fullySolved || u.isFailed then some (.error (.invalidAnalysis u.path), w)
  else
    let (layouts, w) ← w.layoutsFor id
    some ((w.unit id).compile w.settings w.registry layouts, w)

end HotScript
