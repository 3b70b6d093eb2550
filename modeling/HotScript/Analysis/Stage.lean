import HotScript.Analysis.Interface

/-!
The stages of the analysis, and the resolver that ties them together.

Raising a unit runs the stages it lacks, each over all classes of the file. `resolver n` answers
requests as long as they do not nest deeper than `n`.
-/

namespace HotScript

/-- What a function that was not declared under its own name is for. -/
inductive AccessorRole
  | getter (type : StaticType)
  | setter (type : StaticType)

/-- The signature of an accessor: a getter gives back the variable's type, and a setter takes it
when its parameter has no type of its own. -/
def AccessorRole.adjust (role : AccessorRole) (params : List ParamDecl) (s : Signature) :
    Signature :=
  match role with
  | getter type => { s with result := type }
  | setter type =>
    match params, s.params with
    | p :: _, (name, _) :: rest =>
      if p.type.isNone then { s with params := (name, type) :: rest, result := .nil }
      else { s with result := .nil }
    | _, _ => { s with result := .nil }

namespace Analyze

variable (r : Resolver)

/-! ### Bodies -/

def resolveFunction (f : FunctionDecl) (role : Option AccessorRole) : Analyze Unit := do
  let s ← match role with
    | some role => pure (role.adjust f.params (← functionSignature r f))
    | none =>
      match (← classMember r (← currentRef) f.name.name).bind (·.signature) with
      | some s => pure s
      | none => functionSignature r f
  modifyCursor fun c =>
    { c with
      function := some { name := f.name.name, isStatic := f.isStatic, result := s.result }
      scope := {} }
  declareParams r f.params 0 s.params
  let returns ← block (statements r f.body {})
  checkMissingReturn f.result s returns f.name.span
  reportUnusedParams
  let context := (← cursor).function.getD {}
  modifyCursor fun c => { c with function := none }
  if context.hasAwait then
    modifyClass (← cursor).cls fun c =>
      { c with
        members := c.members.modify f.name.name fun m =>
          { m with signature := m.signature.map fun s => { s with isCoroutine := true } } }
  modifyFound fun t =>
    { t with
      functions := t.functions.insert f.id
        { signature := { s with isCoroutine := s.isCoroutine || context.hasAwait }
          usesSelf := context.usesSelf } }

def resolveVariable (id : ClassId) (d : VariableDecl) : Analyze Unit := do
  let type := ((← classMember r (← refOf id) d.name.name).map (·.type)).getD .variant
  match d.initializer with
  | none => pure ()
  | some e =>
    inClass id <| inInitializer d.isStatic d.name.span do
      let f ← asValue e (reduce r e)
      checkStored r type e.id e.span f .assignment
  match d.accessors with
  | .inline getter setter =>
    match getter with
    | some g => inClass id (resolveFunction r g (some (.getter type)))
    | none => pure ()
    match setter with
    | some s =>
      if s.params.length ≠ 1 then
        illTyped (.invalidAccessor d.name.name "a setter takes exactly one parameter") s.name.span
      inClass id (resolveFunction r s (some (.setter type)))
    | none => pure ()
  | _ => pure ()

def resolveBody (id : ClassId) : Analyze Unit := do
  resolveInterface r id
  if (← unit).stageOf? id ≠ some .interfaceSolved then return
  if (← unit).inheritanceOf id = .invalid then
    modifyClass id fun c => { c with stage := .bodySolved }
  else
    modifyClass id fun c => { c with stage := .bodyResolving }
    match (← tree).class? id with
    | none => pure ()
    | some decl =>
      decl.members.toList.forM fun
        | .var d => resolveVariable r id d
        | .func f => inClass id (resolveFunction r f none)
        | _ => pure ()
      modifyClass id fun c => { c with stage := .bodySolved }

/-- Do the work of a stage for all classes of a unit. -/
def runStage (id : UnitId) (stage : UnitStatus) : Analyze Unit := do
  let count := ((← unitAt id).tree.map (·.classes.size)).getD 0
  let _ ← inUnit id do
    (List.range count).forM fun cls => do
      match stage with
      | .inheritanceSolved => resolveInheritance r cls
      | .interfaceSolved => resolveInterface r cls
      | .fullySolved => resolveBody r cls
      | .empty | .parsed => pure ()

/-- Raise a unit to a status, running at most so many stages. -/
def raiseWithin (id : UnitId) (target : UnitStatus) : Nat → Analyze (Except LoadFault Unit)
  | 0 => return .ok ()
  | n + 1 => do
    let u ← unitAt id
    match u.failedAt.filter target.reaches with
    | some failed => return .error (u.failure failed)
    | none =>
      if u.status.reaches target then return .ok ()
      else if u.status = .empty then return .error (.invalidScript u.path)
      else
        match u.status.next? with
        | none => return .ok ()
        | some next =>
          modifyWork fun w => w.happen id (.began next)
          runStage r id next
          modifyWork fun w => w.endStage id next u.errorCount
          let after ← unitAt id
          if u.errorCount < after.errorCount then return .error (after.failure next)
          else raiseWithin id target n

/-- Raise a unit to a status.  There are never more stages to run than statuses. -/
def raise (id : UnitId) (target : UnitStatus) : Analyze (Except LoadFault Unit) := do
  let result ← raiseWithin r id target 5
  modifyWork fun w => w.happen id (.answered target result.toBool)
  return result

def getUnit (path : String) (status : UnitStatus) : Analyze (Except LoadFault UnitId) := do
  match ← onWork fun w => w.openUnit path with
  | .error fault => return .error fault
  | .ok id => return (← raise r id status).map fun _ => id

def answer : (d : Demand) → Analyze d.Answer
  | .inheritance id => resolveInheritance r id
  | .interface id => resolveInterface r id
  | .member id index => resolveMember r id index
  | .unit path status => getUnit r path status

def resolver : Nat → Resolver
  | 0, _ => failure
  | n + 1, d => answer (resolver n) d

end Analyze

namespace Workspace

def analyze {α : Type} (w : Workspace) (act : Analyze α) : Option (α × Workspace) := do
  let (a, d) ← act.run { work := w, cursor := { unit := 0 } }
  some (a, d.work)

/-- Raise a unit to a status. -/
def raiseUnit (w : Workspace) (id : UnitId) (status : UnitStatus) :
    Option (Except LoadFault Unit × Workspace) :=
  w.analyze (Analyze.raise (Analyze.resolver Analyze.patience) id status)

/-- The unit of a file, opened if need be and raised to a status. -/
def getUnit (w : Workspace) (path : String) (status : UnitStatus) :
    Option (Except LoadFault UnitId × Workspace) :=
  w.analyze (Analyze.getUnit (Analyze.resolver Analyze.patience) path status)

end Workspace

end HotScript
