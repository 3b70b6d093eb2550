import HotScript.Analysis.Body
import HotScript.Syntax.Draft

/-!
The members of a class.

Members are found out on request as well: a constant that uses a later one, or another class that
asks for a member, has just that member resolved. A member whose resolution leads back to itself is
a cycle.
-/

namespace HotScript

def VariableDecl.accessorNames (d : VariableDecl) : Option String × Option String :=
  match d.accessors with
  | .none => (none, none)
  | .inline getter setter =>
    (getter.map fun _ => Build.getterName d.name.name,
      setter.map fun _ => Build.setterName d.name.name)
  | .named getter setter => (getter.map (·.name), setter.map (·.name))

/-- The names that members declare again, with their places, in order. -/
def Member.repeated : List String → List Member → List Ident
  | _, [] => []
  | seen, m :: rest =>
    match m.name? with
    | none => repeated seen rest
    | some name =>
      if seen.contains name then m.ident :: repeated seen rest
      else repeated (name :: seen) rest

/-- Whether a member may not have the name of a member of the native root. -/
def Member.excludesNative : Member → Bool
  | .var _ | .const _ | .signal _ | .enum _ => true
  | _ => false

namespace Analyze

open Text (quoted)

variable (r : Resolver)

/-! ### Members by kind -/

def functionSignature (f : FunctionDecl) : Analyze Signature := do
  signatureWith r f.name f.params f.result f.isStatic (← paramTypes r f.params)

def memberVariableType (d : VariableDecl) : Analyze StaticType := do
  match d.type, d.initializer, d.infer with
  | some spec, _, _ => writtenType r spec
  | none, some e, true =>
    let f ← inInitializer d.isStatic d.name.span (reduce r e)
    inferredType d.name.name f.type e.span
  | _, _, _ => return .variant

def memberConstant (d : ConstantDecl) : Analyze (StaticType × Option Value) := do
  let declared ← d.type.mapM (writtenType r)
  let before ← errorCount
  let f ← inInitializer true d.name.span (reduce r d.initializer)
  let (type, value) ← constantOf r d.name.name declared f d.initializer.span before
  match declared with
  | some _ => return (type, value)
  | none => return (if type.isSet then type.withProvenance .annotated else .variant, value)

def entryValue (name : Ident) (e : Expr) : Analyze (Option Int64) := do
  let before ← errorCount
  let f ← inInitializer true e.span (reduce r e)
  match f.value.bind (·.int?) with
  | some i => return some i
  | none =>
    if (← errorCount) = before then
      illTyped (.notConstant ("value of enum member " ++ quoted name.name)) e.span
    return none

/-- The entries of an enum; one without a value is one more than the one before. -/
def enumEntries : List EnumValueDecl → Int64 → Analyze EnumValues
  | [], _ => return []
  | d :: rest, next => do
    let given ← match d.value with
      | some e => entryValue r d.name e
      | none => pure none
    let value := given.getD next
    return (d.name.name, value) :: (← enumEntries rest (value + 1))

def looseEntry (id : ClassId) (d : EnumValueDecl) : Analyze Int64 := do
  let given ← match d.value with
    | some e => entryValue r d.name e
    | none => pure none
  match given, d.previous with
  | some i, _ => return i
  | none, none => return 0
  | none, some previous =>
    let before ← r (.member id previous)
    return ((before.bind (·.value)).bind (·.int?)).elim 0 (· + 1)

def memberFacts (id : ClassId) (m : Member) (index : Nat) : Analyze MemberFacts := do
  let facts (kind : MemberKind) (type : StaticType) : MemberFacts :=
    { name := m.name?.getD "", kind, type, index, span := m.span }
  match m with
  | .var d =>
    let (getter, setter) := d.accessorNames
    return facts (.variable d.isStatic getter setter d.exported) (← memberVariableType r d)
  | .const d =>
    let (type, value) ← memberConstant r d
    return { facts .constant type with value }
  | .signal d =>
    let params ← paramTypes r d.params
    return { facts .signal (.builtin .signal) with
               signature := some { name := d.name.name, params } }
  | .enum d =>
    let values ← enumEntries r d.values 0
    let type := StaticType.enum d.name.name (← currentRef).qualified values
    let dict ← onHeap fun h => h.enumDict values
    return { facts .enum type.toMeta with value := some (.dictionary dict) }
  | .enumValue d =>
    return { facts .enumValue (.builtin .int) with value := some (.int (← looseEntry r id d)) }
  | .func d =>
    return { facts .function (.builtin .callable) with signature := some (← functionSignature r d) }
  | .cls inner _ => return facts .cls (StaticType.script (← refOf inner)).toMeta
  | .group _ => return facts .constant .variant

/-- Find out a member of a class of the unit, unless it is known.  Only the declaration that a name
leads to is looked at. -/
def resolveMember (id : ClassId) (index : Nat) : Analyze (Option MemberFacts) := do
  match (← tree).class? id with
  | none => return none
  | some decl =>
    match decl.members[index]? with
    | none => return none
    | some m =>
      match m.name? with
      | none => return none
      | some name =>
        match (← unit).member? id name with
        | some known => return some known
        | none =>
          if decl.places.find? name ≠ some index then return none
          resolveInheritance r id
          if (← unit).resolving.contains (id, name) then
            unresolved (.cyclicReference (← className id)) m.span
            return none
          modifyUnit fun u => { u with resolving := (id, name) :: u.resolving }
          let facts ← inClass id (memberFacts r id m index)
          modifyUnit fun u => { u with resolving := u.resolving.erase (id, name) }
          modifyClass id fun c => { c with members := c.members.insertNew name facts }
          return some facts

/-! ### Checks of a class -/

def hiddenBy (decl : ClassDecl) (name : String) : Analyze (Option String) := do
  let reg ← registry
  let path := (← unit).path
  if name = "Variant" ∨ (Tag.ofName? name).isSome then return some "builtin type"
  else if reg.hasClass name then return some "native class"
  else if (reg.global? name).any fun g => g.path != path || !decl.isHead then
    return some "global class"
  else return none

def checkClassName (decl : ClassDecl) : Analyze Unit := do
  match decl.name with
  | none => pure ()
  | some ident =>
    match ← hiddenBy decl ident.name with
    | some kind => unresolved (.hidesGlobal ident.name kind) ident.span
    | none => pure ()

def checkRepeated (decl : ClassDecl) : Analyze Unit :=
  (Member.repeated [] decl.members.toList).forM fun ident =>
    unresolved (.duplicateMember ident.name) ident.span

/-- Whether a member has the name of a member of a base that it may not have: functions may only
take the place of functions. -/
def conflictsWithBase (base : BaseState) (m : Member) (name : String) :
    Analyze (Option ClassRef) := do
  match base with
  | .script cls =>
    match ← lookupMember r cls name with
    | some (owner, inherited) =>
      match m with
      | .func _ => return if inherited.kind = .function then none else some owner
      | _ => return some owner
    | none => return none
  | _ => return none

def checkConflicts (id : ClassId) (decl : ClassDecl) : Analyze Unit := do
  let own ← refOf id
  let base ← baseOf r own
  let native ← nativeRoot r own
  decl.members.toList.forM fun m => do
    match m.name? with
    | none => pure ()
    | some name =>
      match ← conflictsWithBase r base m name with
      | some owner => unresolved (.memberConflictBase name owner.name) m.span
      | none =>
        match m.excludesNative, native with
        | true, some native =>
          let reg ← registry
          if reg.hasProperty native name || reg.hasMethod native name ||
            reg.hasSignal native name ||
              reg.hasConstant native name then
            unresolved (.memberConflictNative name native) m.span
        | _, _ => pure ()

/-- Types that agree as far as both are enforced. -/
def accessorTypesAgree (a b : StaticType) : Bool := !a.isHard || !b.isHard || a.same b

def getterFault (own : ClassRef) (name : String) (type : StaticType) : Analyze (Option String) := do
  match ← functionOf r own name with
  | none => return some ("getter function " ++ quoted name ++ " not found")
  | some s =>
    if 0 < s.least then return some ("getter " ++ quoted name ++ " must take no arguments")
    else if !accessorTypesAgree type s.result then
      return some ("getter " ++ quoted name ++ " must return " ++ quoted type.text)
    else return none

def setterFault (own : ClassRef) (name : String) (type : StaticType) : Analyze (Option String) := do
  match ← functionOf r own name with
  | none => return some ("setter function " ++ quoted name ++ " not found")
  | some s =>
    let tooMany := some ("setter " ++ quoted name ++ " must take exactly one argument")
    match s.params with
    | [] => return tooMany
    | (_, first) :: _ =>
      if 1 < s.least then return tooMany
      else if !accessorTypesAgree first type then
        return some ("setter " ++ quoted name ++ " must accept " ++ quoted type.text)
      else return none

def checkAccessors (id : ClassId) (decl : ClassDecl) : Analyze Unit := do
  let own ← refOf id
  let complain (d : VariableDecl) (accessor : Ident) (message : Option String) : Analyze Unit :=
    match message with
    | some message => illTyped (.invalidAccessor d.name.name message) accessor.span
    | none => pure ()
  decl.variableDecls.forM fun d => do
    match d.accessors with
    | .named getter setter =>
      let type := (((← unit).member? id d.name.name).map (·.type)).getD .unresolved
      match getter with
      | some g => complain d g (← getterFault r own g.name type)
      | none => pure ()
      match setter with
      | some s => complain d s (← setterFault r own s.name type)
      | none => pure ()
    | _ => pure ()

def inheritedCapabilities (base : StaticType) : Analyze Nat := do
  match base.class? with
  | none => return 0
  | some cls =>
    match ← unitOf r cls.path with
    | none => return 0
    | some id => return (((← unitAt id).classFacts? cls.index).map (·.capabilities)).getD 0

def resolveInterface (id : ClassId) : Analyze Unit := do
  if (← unit).stageOf? id ≠ some .inheritance then return
  match (← tree).class? id with
  | none => pure ()
  | some decl =>
    resolveInheritance r id
    if (← unit).inheritanceOf id = .invalid then
      modifyClass id fun c => { c with stage := .interfaceSolved }
      if (← errorCount) = 0 then unresolved (.invalidClass (← className id)) decl.span
    else
      modifyClass id fun c => { c with stage := .interfaceResolving }
      let base := (((← unit).classFacts? id).map (·.base)).getD .unresolved
      match base.class? with
      | none => pure ()
      | some cls =>
        match ← ensureInterface r cls with
        | .ok _ => pure ()
        | .error fault => unresolved fault ((decl.extends?.map (·.span)).getD decl.span)
      checkClassName decl
      checkRepeated decl
      (List.range decl.members.size).forM fun i => do
        let _ ← resolveMember r id i
      checkConflicts r id decl
      checkAccessors r id decl
      let inherited ← inheritedCapabilities r base
      let capabilities := decl.functions.foldl
        (fun caps f => caps ||| Capability.ofMethod f.name.name) inherited
      modifyClass id fun c => { c with capabilities, stage := .interfaceSolved }

end Analyze

end HotScript
