import HotScript.Analysis.Demand

/-!
The base of a class.

A class is marked before its `extends` clause is looked at. A chain of bases that meets such a class
stops there, so only the class that entered a cycle first finds itself at the end of its own chain;
it reports the cycle and makes every class on it unusable.
-/

namespace HotScript

/-- Whether a fault found in an `extends` clause makes the class unusable. -/
def ResolutionFault.poisons : ResolutionFault → Bool
  | .cyclicInheritance .. | .cyclicReference _ | .missingBase .. => true
  | _ => false

inductive ChainEnd
  | clear
  /-- Back to the class; the classes on the way, both ends included. -/
  | cycle (classes : List ClassRef)
  | invalid (cls : ClassRef)
deriving DecidableEq, Repr

namespace Analyze

variable (r : Resolver)

def poison (id : ClassId) : Analyze Unit := happen (.spoiled id .variant)

/-! ### Extends clauses -/

def enclosingFrom (t : Tree) (name : String) : Nat → ClassId → Option ClassId
  | 0, _ => none
  | n + 1, id =>
    match t.class? id with
    | none => none
    | some c =>
      match c.member? name, c.outer with
      | some (.cls inner _), _ => some inner
      | _, some outer => enclosingFrom t name n outer
      | _, none => none

/-- A class that a name means inside the class `id`: one nested in it or in a class around it, or
the head class by its name. -/
def enclosing? (t : Tree) (id : ClassId) (name : String) : Option ClassId :=
  match enclosingFrom t name t.classes.size id with
  | some inner => some inner
  | none => if (t.class? id).isSome && t.head.name? == some name then some 0 else none

/-- Follow names of nested classes; `missing` is the fault when there is none. -/
def descendClass (missing : ResolutionFault × Span) : List Ident → ClassRef →
    Analyze (Except (ResolutionFault × Span) ClassRef)
  | [], cls => return .ok cls
  | ident :: rest, cls => do
    match ← nestedClass r cls ident.name with
    | .error fault => return .error (fault, ident.span)
    | .ok (some inner) => descendClass missing rest inner
    | .ok none => return .error missing

def baseFile (path : String) : Analyze (Option ClassRef) := do
  match ← loadUnit r path .inheritanceSolved with
  | .error _ => return none
  | .ok id => return (← unitAt id).head?

def extendsType (id : ClassId) (clause : ExtendsClause) :
    Analyze (Except (ResolutionFault × Span) StaticType) := do
  let missing := (ResolutionFault.missingBase (← className id) clause.text, clause.span)
  let finish (start : Option ClassRef) (rest : List Ident) :
      Analyze (Except (ResolutionFault × Span) StaticType) := do
    match start with
    | none => return .error missing
    | some cls => return (← descendClass r missing rest cls).map StaticType.script
  match clause.path, clause.chain with
  | some path, chain => finish (← baseFile r (← resolvePath path)) chain
  | none, [] => return .error missing
  | none, first :: rest =>
    if (← registry).hasClass first.name then
      if rest.isEmpty then return .ok (.native first.name)
      else return .error missing
    else
      match enclosing? (← tree) id first.name with
      | some inner => finish (some (← refOf inner)) rest
      | none =>
        match (← registry).global? first.name with
        | none => return .error missing
        | some global => finish (← baseFile r global.path) rest

/-! ### Chains and cycles -/

/-- Follow bases until the chain ends or comes back to `own`. -/
def chainEnd (own : ClassRef) : Nat → List ClassRef → ClassRef → Analyze ChainEnd
  | 0, _, _ => failure
  | n + 1, passed, cls => do
    if cls.same own then return .cycle (cls :: passed).reverse
    if passed.dropLast.any (·.same cls) then return .clear
    match ← baseOf r cls with
    | .script next => chainEnd own n (cls :: passed) next
    | .invalid => return .invalid cls
    | _ => return .clear

def reportCycle (id : ClassId) (classes : List ClassRef) (span : Span) : Analyze Unit := do
  unresolved (.cyclicInheritance (← className id) (classes.map (·.name))) span
  for cls in classes.dropLast do
    if cls.path == (← unit).path then poison cls.index
    else
      match ← unitOf r cls.path with
      | none => pure ()
      | some other =>
        let u ← unitAt other
        if u.inheritanceOf cls.index ≠ .invalid then
          let clause := ((u.tree.bind (·.class? cls.index)).bind (·.extends?)).map (·.span)
          let fault := Diagnostic.resolution (.invalidClass cls.name) (clause.getD {})
          modifyWork fun w => w.poison other cls.index fault

def settleBase (id : ClassId) (base : StaticType) : Analyze Unit := do
  let native ← nativeOf r base
  happen (.inherits id base native)

def wantedBase (id : ClassId) (decl : ClassDecl) :
    Analyze (Except (ResolutionFault × Span) StaticType) := do
  match decl.extends? with
  | none => return .ok (.native (← settings).defaultBase)
  | some clause => inClass id (extendsType r id clause)

def takeBase (id : ClassId) (span : Span) :
    Except (ResolutionFault × Span) StaticType → Analyze Unit
  | .error (fault, place) => do
    unresolved fault place
    if fault.poisons then poison id else happen (.inherits id .variant none)
  | .ok base =>
    match base.class? with
    | none => settleBase r id base
    | some cls => do
      match ← chainEnd r (← refOf id) patience [← refOf id] cls with
      | .cycle classes => reportCycle r id classes span
      | .invalid cls =>
        unresolved (.invalidClass cls.name) span
        settleBase r id base
      | .clear => settleBase r id base

/-- Find out the base of a class of the unit, unless it was looked for already. -/
def resolveInheritance (id : ClassId) : Analyze Unit := do
  if (← unit).inheritanceOf id ≠ .unresolved then return
  match (← tree).class? id with
  | none => pure ()
  | some decl =>
    happen (.inheriting id)
    takeBase r id ((decl.extends?.map (·.span)).getD decl.span) (← wantedBase r id decl)

end Analyze

end HotScript
