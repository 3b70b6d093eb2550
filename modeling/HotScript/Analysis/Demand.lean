import HotScript.Analysis.Desk
import HotScript.Type.Compatible

/-!
Requests that one declaration makes of another.

Resolving a declaration may need a base, members or another file, each of which may need further
ones. A `Demand` is such a request about the unit the cursor is in, and a `Resolver` answers it.
Every step takes the resolver as an argument, and the stages tie the knot, with a bound on how deep
requests nest.
-/

namespace HotScript

/-- A request that a declaration makes of another. -/
inductive Demand
  | inheritance (id : ClassId)
  | interface (id : ClassId)
  | member (id : ClassId) (index : Nat)
  | unit (path : String) (status : UnitStatus)
deriving DecidableEq, Repr

@[reducible] def Demand.Answer : Demand → Type
  | inheritance _ => Unit
  | interface _ => Unit
  | member .. => Option MemberFacts
  | unit .. => Except LoadFault UnitId

abbrev Resolver := (d : Demand) → Analyze d.Answer

inductive BaseState
  | native (name : String)
  | script (cls : ClassRef)
  | resolving
  | invalid
  | unknown
deriving DecidableEq, Repr

def ClassFacts.baseState (c : ClassFacts) : BaseState :=
  match c.inheritance with
  | .invalid => .invalid
  | .resolving | .unresolved => .resolving
  | .resolved =>
    match c.base.shape with
    | .native name => .native name
    | .script cls => .script cls
    | _ => .unknown

namespace Analyze

variable (r : Resolver)

def unitOf (path : String) : Analyze (Option UnitId) := do
  let here ← unit
  if path == here.path then return some (← cursor).unit
  match here.depended.find? path with
  | some id => return some id
  | none => return (← r (.unit path .parsed)).toOption

/-- The unit of a path raised to a status, noted as a dependency of the current one. -/
def loadUnit (path : String) (status : UnitStatus) : Analyze (Except ResolutionFault UnitId) := do
  if path == (← unit).path then return .ok (← cursor).unit
  match ← r (.unit path status) with
  | .ok id =>
    let other := (← unitAt id).path
    modifyUnit fun u => u.addDependency other id
    return .ok id
  | .error _ => return .error (.dependencyFailed path)

/-! ### Bases -/

def ensureInheritance (cls : ClassRef) : Analyze Unit := do
  if cls.path == (← unit).path then r (.inheritance cls.index)
  else
    match ← unitOf r cls.path with
    | none => pure ()
    | some id =>
      if (← unitAt id).inheritanceOf cls.index = .unresolved then
        let _ ← inUnit id (r (.inheritance cls.index))

def ensureInterface (cls : ClassRef) : Analyze (Except ResolutionFault Unit) := do
  if cls.path == (← unit).path then
    r (.interface cls.index)
    return .ok ()
  match ← loadUnit r cls.path .interfaceSolved with
  | .error fault => return .error fault
  | .ok id =>
    if (← unitAt id).stageOf? cls.index = some .inheritance then
      let _ ← inUnit id (r (.interface cls.index))
    return .ok ()

def baseOf (cls : ClassRef) : Analyze BaseState := do
  ensureInheritance r cls
  match ← unitOf r cls.path with
  | none => return .unknown
  | some id => return (((← unitAt id).classFacts? cls.index).map (·.baseState)).getD .unknown

def rootFrom : Nat → List ClassRef → ClassRef → Analyze (Option String)
  | 0, _, _ => failure
  | n + 1, visited, cls => do
    if visited.any (·.same cls) then return none
    match ← baseOf r cls with
    | .native name => return some name
    | .script base => rootFrom n (cls :: visited) base
    | _ => return none

def nativeRoot (cls : ClassRef) : Analyze (Option String) := do
  let cached ← match ← unitOf r cls.path with
    | none => pure none
    | some id => pure (((← unitAt id).classFacts? cls.index).bind (·.native))
  match cached with
  | some name => return some name
  | none => rootFrom r patience [] cls

def nativeOf (t : StaticType) : Analyze (Option String) :=
  match t.shape with
  | .native name => return some name
  | .script cls => nativeRoot r cls
  | _ => return none

/-- Follow bases from a class, gathering the script classes; those gathered so far, latest first,
are not gathered again. -/
def chainFrom : Nat → List ClassRef → ClassRef → Analyze (List ClassRef)
  | 0, _, _ => failure
  | n + 1, gathered, cls => do
    match ← baseOf r cls with
    | .script base =>
      if gathered.any (·.same base) then return gathered.reverse
      chainFrom n (base :: gathered) base
    | _ => return gathered.reverse

def scriptChain (cls : ClassRef) : Analyze (List ClassRef) := chainFrom r patience [cls] cls

def treeOf (cls : ClassRef) : Analyze (Option Tree) := do
  match ← unitOf r cls.path with
  | none => return none
  | some id => return (← unitAt id).tree

def declares (cls : ClassRef) (name : String) : Analyze Bool := do
  return ((← treeOf r cls).bind (·.class? cls.index)).any (·.hasMember name)

def classMember (cls : ClassRef) (name : String) : Analyze (Option MemberFacts) := do
  match ← unitOf r cls.path with
  | none => return none
  | some id =>
    let u ← unitAt id
    match u.member? cls.index name with
    | some m => return some m
    | none =>
      match (u.tree.bind (·.class? cls.index)).bind (·.places.find? name) with
      | none => return none
      | some index =>
        if cls.path == (← unit).path then r (.member cls.index index)
        else return (← inUnit id (r (.member cls.index index))).join

def memberFrom (name : String) :
    Nat → List ClassRef → ClassRef → Analyze (Option (ClassRef × MemberFacts))
  | 0, _, _ => failure
  | n + 1, visited, cls => do
    if visited.any (·.same cls) then return none
    match ← classMember r cls name with
    | some m => return some (cls, m)
    | none =>
      match ← baseOf r cls with
      | .script base => memberFrom name n (cls :: visited) base
      | _ => return none

def lookupMember (cls : ClassRef) (name : String) : Analyze (Option (ClassRef × MemberFacts)) :=
  memberFrom r name patience [] cls

def nestedFrom (name : String) : Nat → ClassRef → Analyze (Except ResolutionFault (Option ClassRef))
  | 0, _ => failure
  | n + 1, cls => do
    match (← treeOf r cls).bind (·.nested? cls.index [name]) with
    | some inner =>
      match ← unitOf r cls.path with
      | none => return .ok none
      | some id => return .ok ((← unitAt id).classRef? inner)
    | none =>
      match ← baseOf r cls with
      | .script base => nestedFrom name n base
      | .resolving => return .error (.cyclicReference cls.name)
      | _ => return .ok none

def nestedClass (cls : ClassRef) (name : String) :
    Analyze (Except ResolutionFault (Option ClassRef)) :=
  nestedFrom r name patience cls

def hierarchy : Analyze (Hierarchy Analyze) := do
  let registry ← registry
  return {
    descends := fun a b => a == b || registry.descends a b
    parent := fun cls => do
      match ← baseOf r cls with
      | .script base => return .script base
      | .native name => return .native name
      | .resolving => return .resolving
      | .invalid | .unknown => return .unknown }

def compatible (target source : StaticType) :
    Analyze (Except ResolvingBase Compatibility) := do
  (← hierarchy r).compatible target source

end Analyze

end HotScript
