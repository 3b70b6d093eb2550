import HotScript.Analysis.Demand

/-!
What names mean.

A bare name is a local, a member of the class or its bases, a static member of a class around it, or
something outside the file, in that order. A name after a dot is looked for in the type of what
stands before the dot.
-/

namespace HotScript

namespace ExprFacts

def unknown : ExprFacts := typed .variant

def named (type : StaticType) (referent : Referent) : ExprFacts :=
  { type, referent := some referent }

def scriptClass (cls : ClassRef) : ExprFacts :=
  named (StaticType.script cls).toMeta (.scriptClass cls)

def needsInstance (f : ExprFacts) : Bool := f.referent.any (·.needsInstance)

end ExprFacts

namespace Analyze

open Text (quoted)

variable (r : Resolver)

/-! ### Locals and members -/

/-- The facts about a local; this counts as a use of it. -/
def localName (found : Lookup) : Analyze ExprFacts := do
  let known := (← cursor).found.locals.find? found.decl
  modifyFound fun t =>
    { t with locals := t.locals.modify found.decl fun l => { l with uses := l.uses + 1 } }
  let kind := match known, found with
    | some l, _ => l.kind
    | none, .here l => l.kind
    | none, .captured _ => .variable
  return { type := found.type, value := known.bind (·.value),
           referent := some (.local found.decl kind) }

/-- Look a name up among the locals, capturing it when it belongs to a function around. -/
def findLocal (name : String) : Analyze (Option Lookup) := do
  let (found, scope) := (← cursor).scope.lookup name
  modifyScope fun _ => scope
  return found

def requireInstance (member : String) (span : Span) : Analyze Unit := do
  if ← isStaticContext then unresolved (.instanceFromStatic member) span else markUsesSelf

def memberName (owner : ClassRef) (m : MemberFacts) : ExprFacts :=
  match m.kind with
  | .variable false .. => .named m.type (.memberVariable owner m.name)
  | .variable true .. => .named m.type (.staticVariable owner m.name)
  | .function => .named m.type (.memberFunction owner m.name m.isStatic)
  | .signal => .named m.type (.memberSignal owner m.name)
  | .cls =>
    match m.type.class? with
    | some cls => .named m.type (.scriptClass cls)
    | none => .named m.type (.memberConstant owner m.name)
  | .constant | .enum | .enumValue =>
    { type := m.type, value := m.value, referent := some (.memberConstant owner m.name) }

def declarer (name : String) : List ClassRef → Analyze (Option ClassRef)
  | [] => return none
  | cls :: rest => do if ← declares r cls name then return some cls else declarer name rest

def memberOfSelf (name : String) (span : Span) : Analyze (Option ExprFacts) := do
  match ← declarer r name (← scriptChain r (← currentRef)) with
  | none => return none
  | some owner =>
    match ← classMember r owner name with
    | none => return some .unknown
    | some m =>
      let facts := memberName owner m
      if facts.needsInstance then requireInstance name span
      return some facts

/-- A static member of a class around the class `id`. -/
def memberOfOuter (t : Tree) (name : String) : Nat → ClassId → Analyze (Option ExprFacts)
  | 0, _ => return none
  | n + 1, id => do
    match (t.class? id).bind (·.outer) with
    | none => return none
    | some outer =>
      let ref ← refOf outer
      if ← declares r ref name then
        match ← classMember r ref name with
        | some m => if m.isStatic then return some (memberName ref m)
        | none => pure ()
      memberOfOuter t name n outer

/-- A member of a native class: a constant, enum, property, method or signal, in that order. -/
def nativeMember (cls name : String) : Analyze (Option ExprFacts) := do
  let reg ← registry
  match reg.constant? cls name with
  | some value =>
    let type := do
      let owner ← reg.enumOf? cls name
      let values ← reg.enum? cls owner
      some (StaticType.enum owner cls values)
    return some
      { type := type.getD (.builtin .int)
        value := some (.int value)
        referent := some (.nativeConstant cls) }
  | none =>
    match reg.enum? cls name with
    | some values =>
      let dict ← onHeap fun h => h.enumDict values
      return some
        { type := (StaticType.enum name cls values).toMeta
          value := some (.dictionary dict)
          referent := some (.nativeConstant cls) }
    | none =>
      match reg.property? cls name with
      | some p => return some (.named p.type (.nativeProperty cls))
      | none =>
        if reg.hasMethod cls name then
          return some (.named (.builtin .callable) (.nativeMethod cls))
        else if reg.hasSignal cls name then
          return some (.named (.builtin .signal) (.nativeSignal cls))
        else return none

def memberOfRoot (name : String) (span : Span) : Analyze (Option ExprFacts) := do
  match ← nativeRoot r (← currentRef) with
  | none => return none
  | some native =>
    match ← nativeMember native name with
    | none => return none
    | some facts =>
      let isStatic := ((← registry).method? native name).any (·.isStatic)
      if facts.needsInstance && !isStatic then requireInstance name span
      return some facts

/-! ### Names from outside -/

def headOf (path : String) (span : Span) : Analyze ExprFacts := do
  match ← loadUnit r path .interfaceSolved with
  | .ok id => return ((← unitAt id).head?.map ExprFacts.scriptClass).getD .unknown
  | .error fault =>
    unresolved fault span
    return .unknown

def outsideName (name : String) (span : Span) : Analyze (Option ExprFacts) := do
  match Tag.ofName? name with
  | some tag => return some (.named (StaticType.builtin tag).toMeta (.builtinType tag))
  | none =>
    if (← tree).head.name? == some name then return some (.scriptClass (← refOf 0))
    let reg ← registry
    if reg.hasClass name then
      return some (.named (StaticType.native name).toMeta (.nativeClass name))
    match reg.global? name with
    | some global => return some (← headOf r global.path span)
    | none =>
      match reg.singleton? name with
      | some cls => return some (.named (.native cls) (.singleton name))
      | none =>
        match reg.globalConstant? name with
        | some v =>
          return some
            { type := .builtin v.tag, value := some v, referent := some .globalConstant }
        | none =>
          if (reg.utility? name).isSome then return some (.named (.builtin .callable) .utility)
          else return none

def bareName (name : String) (span : Span) : Analyze ExprFacts := do
  match ← findLocal name with
  | some found => localName found
  | none =>
    match ← memberOfSelf r name span with
    | some facts => return facts
    | none =>
      let t ← tree
      match ← memberOfOuter r t name t.classes.size (← cursor).cls with
      | some facts => return facts
      | none =>
        match ← memberOfRoot r name span with
        | some facts => return facts
        | none =>
          match ← outsideName r name span with
          | some facts => return facts
          | none =>
            unresolved (.unresolvedIdentifier name) span
            return .unknown

def selfName (span : Span) : Analyze ExprFacts := do
  if ← isStaticContext then
    illTyped (.invalidContext "\"self\" cannot be used in a static function") span
    return .unknown
  else
    markUsesSelf
    return .typed (.script (← currentRef))

/-! ### Names after a dot -/

def unknownMember (base : StaticType) (name : Ident) : Analyze ExprFacts := do
  unresolved (.unknownMember base.text name.name) name.span
  return .unknown

def unsafeField (name : Ident) : Analyze ExprFacts := do
  warn .unsafePropertyAccess ("property " ++ quoted name.name ++ " is not known statically")
    name.span
  markUnsafe
  return .unknown

def fieldOfClass (cls : ClassRef) (base : StaticType) (name : Ident) : Analyze ExprFacts := do
  match ← lookupMember r cls name.name with
  | some (owner, m) =>
    let facts := memberName owner m
    if facts.needsInstance then unresolved (.instanceFromStatic name.name) name.span
    return facts
  | none =>
    if name.name = "new" then return .typed (.builtin .callable)
    let native ← match ← nativeRoot r cls with
      | some native => nativeMember native name.name
      | none => pure none
    match native with
    | some facts => if facts.isConstant then return facts else unknownMember base name
    | none => unknownMember base name

def fieldOfNativeClass (cls : String) (base : StaticType) (name : Ident) : Analyze ExprFacts := do
  match ← nativeMember cls name.name with
  | none => unknownMember base name
  | some facts =>
    match facts.referent with
    | some (.nativeProperty _) | some (.nativeSignal _) =>
      unresolved (.instanceFromStatic name.name) name.span
    | _ => pure ()
    return facts

def fieldOfMeta (base : StaticType) (name : Ident) : Analyze ExprFacts := do
  match base.shape with
  | .script cls => fieldOfClass r cls base name
  | .native cls => fieldOfNativeClass cls base name
  | .enum _ _ values =>
    match values.lookup name.name with
    | some value => return .constant base.toInstance (.int value)
    | none => unknownMember base name
  | _ => unsafeField name

def fieldOfValue (base : StaticType) (name : Ident) : Analyze ExprFacts := do
  match base.shape with
  | .script cls =>
    match ← lookupMember r cls name.name with
    | some (owner, m) => return memberName owner m
    | none =>
      let native ← match ← nativeRoot r cls with
        | some native => nativeMember native name.name
        | none => pure none
      match native with
      | some facts => return facts
      | none => unknownMember base name
  | .native cls =>
    match ← nativeMember cls name.name with
    | some facts => return facts
    | none => unknownMember base name
  | .builtin .dictionary _ => unsafeField name
  | .builtin tag _ =>
    let reg ← registry
    match reg.builtinMember? tag name.name with
    | some member => return .typed (.builtin member)
    | none =>
      if (reg.builtinMethod? tag name.name).isSome then return .typed (.builtin .callable)
      else unknownMember base name
  | .enum .. => unknownMember base name
  | .resolving =>
    cyclicReference name.span
    return .unknown
  | .variant | .unresolved => unsafeField name

def fieldOf (base : StaticType) (name : Ident) : Analyze ExprFacts :=
  if base.isMeta then fieldOfMeta r base name else fieldOfValue r base name

end Analyze

end HotScript
