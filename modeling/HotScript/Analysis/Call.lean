import HotScript.Analysis.Operation

/-!
Calls.

A call is sorted by what the callee names. The `Dispatch` so found decides how it is compiled; a
signature, when there is one, is what the arguments are checked against.
-/

namespace HotScript

structure SortedCall where
  dispatch : Dispatch
  signature : Option Signature := none
  result : StaticType := .variant

def SortedCall.checked (dispatch : Dispatch) (s : Signature) : SortedCall :=
  { dispatch, signature := some s, result := s.result }

def SortedCall.ofMethod (dispatch : Dispatch) (m : MethodDesc) : SortedCall :=
  checked dispatch (.ofMethod m)

def MethodDesc.bindsExactly (m : MethodDesc) (count : Nat) : Bool := !m.isVararg && m.accepts count

namespace Analyze

open Text (quoted)

variable (r : Resolver)

/-! ### Callees -/

def functionOf (cls : ClassRef) (name : String) : Analyze (Option Signature) := do
  match ← lookupMember r cls name with
  | some (_, m) => return if m.kind = .function then m.signature else none
  | none => return none

def rootMethod (cls : ClassRef) (name : String) : Analyze (Option (String × MethodDesc)) := do
  match ← nativeRoot r cls with
  | none => return none
  | some root => return ((← registry).method? root name).map (root, ·)

def superCall (name : String) (span : Span) : Analyze SortedCall := do
  if ← isStaticContext then
    illTyped (.invalidContext "\"super\" cannot be used in a static function") span
  else markUsesSelf
  let (signature, native) ← match ← baseOf r (← currentRef) with
    | .script base =>
      match ← functionOf r base name with
      | some s => pure (some s, none)
      | none => pure (none, ← nativeRoot r base)
    | .native cls => pure (none, some cls)
    | _ => pure (none, none)
  match signature with
  | some s => return .checked (.super name) s
  | none =>
    let reg ← registry
    match native.bind fun cls => reg.method? cls name with
    | some m => return .ofMethod (.super name) m
    | none =>
      unresolved (.unknownMember "super" name) span
      return { dispatch := .super name }

def memberCall (owner : ClassRef) (m : MemberFacts) (callee : NodeId) (span : Span) :
    Analyze SortedCall := do
  let _ ← record callee (memberName owner m)
  match m.kind, m.signature with
  | .function, some s =>
    if !s.isStatic then requireInstance m.name span
    return .checked (.self m.name s.isStatic) s
  | .variable isStatic .., _ =>
    if !m.type.isHard || m.type.isBuiltin .callable then
      if !isStatic then requireInstance m.name span
      return { dispatch := .callable }
    else
      illTyped (.notCallable m.name) span
      return { dispatch := .dynamic m.name }
  | _, _ =>
    illTyped (.notCallable m.name) span
    return { dispatch := .dynamic m.name }

def outsideCall (name : String) (span : Span) (count : Nat) : Analyze SortedCall := do
  let reg ← registry
  match ← rootMethod r (← currentRef) name with
  | some (cls, m) =>
    if !m.isStatic then requireInstance name span
    return .ofMethod (.native cls name (m.bindsExactly count)) m
  | none =>
    match Tag.ofName? name with
    | some tag => return { dispatch := .construct tag, result := .builtin tag }
    | none =>
      match reg.utility? name with
      | some m => return .ofMethod (.utility name) m
      | none =>
        if reg.hasClass name || (reg.global? name).isSome then illTyped (.notCallable name) span
        else unresolved (.unresolvedIdentifier name) span
        return { dispatch := .dynamic name }

def bareCall (callee : Node) (name : String) (count : Nat) : Analyze SortedCall := do
  match ← findLocal name with
  | some found =>
    let _ ← record callee.id (← localName found)
    return { dispatch := .callable }
  | none =>
    match ← declarer r name (← scriptChain r (← currentRef)) with
    | none => outsideCall r name callee.span count
    | some owner =>
      match ← classMember r owner name with
      | none => return { dispatch := .dynamic name }
      | some m => memberCall owner m callee.id callee.span

/-! ### Methods -/

def unknownMethod (receiver : StaticType) (name : Ident) : Analyze SortedCall := do
  unresolved (.unknownMember receiver.text name.name) name.span
  return { dispatch := .dynamic name.name }

/-- A method that is only looked for when the program runs. -/
def dynamicCall (name : Ident) : Analyze SortedCall := do
  warn .unsafeMethodAccess ("method " ++ quoted name.name ++ " is not known statically") name.span
  markUnsafe
  return { dispatch := .dynamic name.name }

def builtinCall (tag : Tag) (receiver : StaticType) (name : Ident) : Analyze SortedCall := do
  match (← registry).builtinMethod? tag name.name with
  | some m => return .ofMethod (.builtin tag name.name) m
  | none => unknownMethod receiver name

def callOnClass (cls : ClassRef) (receiver : StaticType) (name : Ident) : Analyze SortedCall := do
  if name.name = "new" then
    let init := (← lookupMember r cls "_init").bind (·.2.signature)
    return .checked .new { init.getD { name := "_init" } with result := .script cls }
  match ← lookupMember r cls name.name with
  | some (_, m) =>
    match m.kind, m.signature with
    | .function, some s =>
      if !s.isStatic then unresolved (.instanceFromStatic name.name) name.span
      return .checked (.script name.name true false) s
    | _, _ =>
      illTyped (.notCallable name.name) name.span
      return { dispatch := .callable }
  | none =>
    match ← rootMethod r cls name.name with
    | some (root, m) =>
      if m.isStatic then return .ofMethod (.native root name.name false) m
      else unknownMethod receiver name
    | none => unknownMethod receiver name

def callOnNativeClass (cls : String) (receiver : StaticType) (name : Ident) (count : Nat) :
    Analyze SortedCall := do
  let reg ← registry
  if name.name = "new" then
    if !reg.canInstantiate cls then
      illTyped (.invalidContext ("native class " ++ quoted cls ++ " cannot be instantiated"))
        name.span
    return { dispatch := .new, result := .native cls }
  match reg.method? cls name.name with
  | none => unknownMethod receiver name
  | some m =>
    if !m.isStatic then unresolved (.instanceFromStatic name.name) name.span
    return .ofMethod (.native cls name.name (m.bindsExactly count)) m

def callOnScript (cls : ClassRef) (receiver : StaticType) (name : Ident) : Analyze SortedCall := do
  match ← lookupMember r cls name.name with
  | some (_, m) =>
    match m.kind, m.signature with
    | .function, some s =>
      if s.isStatic then
        warn .staticCalledOnInstance
          ("static function " ++ quoted name.name ++ " called on an instance") name.span
      return .checked (.script name.name s.isStatic true) s
    | _, _ =>
      if m.type.isHard && !m.type.isBuiltin .callable then
        illTyped (.notCallable name.name) name.span
      return { dispatch := .dynamic name.name }
  | none =>
    match ← rootMethod r cls name.name with
    | some (root, m) => return .ofMethod (.native root name.name false) m
    | none => unknownMethod receiver name

def callOnNative (cls : String) (receiver : StaticType) (name : Ident) (count : Nat) :
    Analyze SortedCall := do
  match (← registry).method? cls name.name with
  | some m => return .ofMethod (.native cls name.name (m.bindsExactly count)) m
  | none => unknownMethod receiver name

def methodCall (receiver : StaticType) (name : Ident) (count : Nat) : Analyze SortedCall := do
  match receiver.isMeta, receiver.shape with
  | true, .script cls => callOnClass r cls receiver name
  | true, .native cls => callOnNativeClass cls receiver name count
  | true, .builtin tag _ => builtinCall tag receiver name
  | true, .enum .. => builtinCall .dictionary receiver name
  | true, _ => dynamicCall name
  | false, .script cls => callOnScript r cls receiver name
  | false, .native cls => callOnNative cls receiver name count
  | false, .builtin tag _ => builtinCall tag receiver name
  | false, .enum .. => unknownMethod receiver name
  | false, .resolving =>
    cyclicReference name.span
    return { dispatch := .dynamic name.name }
  | false, .variant | false, .unresolved => dynamicCall name

def checkArguments (function : String) :
    Nat → List (Node × ExprFacts) → List (String × StaticType) → Analyze Unit
  | i, (node, facts) :: args, (_, type) :: params => do
    checkStored r type node.id node.span facts (.argument function i)
    checkArguments function (i + 1) args params
  | _, _, _ => pure ()

def checkCall (function : String) (s : Signature) (args : List (Node × ExprFacts)) (span : Span) :
    Analyze Unit := do
  let most := s.params.length
  if args.length < s.least ∨ (!s.isVararg ∧ most < args.length) then
    illTyped (.argumentCount function s.least most args.length) span
  checkArguments r function 0 args s.params

def callFacts (function : String) (call : SortedCall) (args : List (Node × ExprFacts))
    (span : Span) : Analyze ExprFacts := do
  match call.signature with
  | some s => checkCall r function s args span
  | none => pure ()
  let h ← heap
  let value := match call.dispatch, args with
    | .construct tag, [(_, only)] => only.value.bind fun v => h.convert v tag
    | _, _ => none
  return { type := call.result, value, dispatch := some call.dispatch }

end Analyze

end HotScript
