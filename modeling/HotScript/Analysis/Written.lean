import HotScript.Analysis.Inheritance

/-!
Types as written.

A written type is a builtin kind or a dotted name. The first name is looked for among the nested
classes and enums, then in the bases, then among native and last among global classes; each further
name in what the names before it mean.
-/

namespace HotScript.Analyze

variable (r : Resolver)

/-- Nested classes and named enums of a class and of the classes around it. -/
def enclosingType (t : Tree) (name : String) : Nat → ClassId → Analyze (Option StaticType)
  | 0, _ => return none
  | n + 1, id => do
    match t.class? id with
    | none => return none
    | some c =>
      match c.member? name, c.outer with
      | some (.cls inner _), _ => return some (.script (← refOf inner))
      | some (.enum _), _ =>
        return (← classMember r (← refOf id) name).map (·.type.toInstance)
      | _, some outer => enclosingType t name n outer
      | _, none =>
        if t.head.name? == some name then return some (.script (← refOf 0)) else return none

def inheritedType (name : String) : List ClassRef → Analyze (Option StaticType)
  | [] => return none
  | base :: rest => do
    if ← declares r base name then
      match ← classMember r base name with
      | some m =>
        if m.kind = .cls ∨ m.kind = .enum then return some m.type.toInstance
        else inheritedType name rest
      | none => inheritedType name rest
    else inheritedType name rest

def headType (name : String) : Analyze (Except ResolutionFault (Option StaticType)) := do
  let t ← tree
  match ← enclosingType r t name t.classes.size (← cursor).cls with
  | some type => return .ok (some type)
  | none =>
    match ← inheritedType r name ((← scriptChain r (← currentRef)).drop 1) with
    | some type => return .ok (some type)
    | none =>
      if (← registry).hasClass name then return .ok (some (.native name))
      else
        match (← registry).global? name with
        | none => return .ok none
        | some global =>
          match ← loadUnit r global.path .inheritanceSolved with
          | .error fault => return .error fault
          | .ok id => return .ok ((← unitAt id).head?.map .script)

def innerType (type : StaticType) (name : String) :
    Analyze (Except ResolutionFault (Option StaticType)) := do
  match type.shape with
  | .native cls =>
    return .ok (((← registry).enum? cls name).map (.enum name cls))
  | .script cls =>
    match ← nestedClass r cls name with
    | .error fault => return .error fault
    | .ok (some inner) => return .ok (some (.script inner))
    | .ok none =>
      match ← lookupMember r cls name with
      | some (_, m) => return .ok (if m.kind = .enum then some m.type.toInstance else none)
      | none => return .ok none
  | _ => return .ok none

def dottedType (missing : ResolutionFault × Span) : List Ident → StaticType →
    Analyze (Except (ResolutionFault × Span) StaticType)
  | [], type => return .ok type
  | ident :: rest, type => do
    match ← innerType r type ident.name with
    | .error fault => return .error (fault, ident.span)
    | .ok none => return .error missing
    | .ok (some inner) => dottedType missing rest inner

def namedType (missing : ResolutionFault × Span) :
    List Ident → Analyze (Except (ResolutionFault × Span) StaticType)
  | [] => return .error missing
  | first :: rest => do
    match ← headType r first.name with
    | .error fault => return .error (fault, first.span)
    | .ok none => return .error missing
    | .ok (some type) => dottedType r missing rest type

def writtenTag? : List Ident → Option Tag
  | [ident] => Tag.ofName? ident.name
  | _ => none

def specType : TypeSpec → Analyze (Except (ResolutionFault × Span) StaticType)
  | .mk chain elements span => do
    let missing :=
      (ResolutionFault.unresolvedType (TypeSpec.mk chain elements span).dotted, span)
    if chain.map (·.name) = ["void"] then return .ok .nil
    if chain.map (·.name) = ["Variant"] then return .ok StaticType.variant.hard
    match writtenTag? chain, elements with
    | some .array, [e] => return (← specType e).map .arrayOf
    | some .dictionary, [k, v] =>
      match ← specType k with
      | .error fault => return .error fault
      | .ok k => return (← specType v).map (.dictionaryOf k)
    | some tag, [] => return .ok (.builtin tag)
    | some _, _ => return .error missing
    | none, _ => namedType r missing chain

/-- The type that a written type means; when it means none, that is reported and any value will
do. -/
def writtenType (spec : TypeSpec) : Analyze StaticType := do
  match ← specType r spec with
  | .ok type => return type
  | .error (fault, span) =>
    unresolved fault span
    return .variant

end HotScript.Analyze
