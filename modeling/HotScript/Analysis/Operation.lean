import HotScript.Analysis.Assignable
import HotScript.Analysis.Naming

/-!
Operators, containers, subscripts, casts and assignments: what is known about the whole, given what
is known about the parts.
-/

namespace HotScript

/-- The kind that values of a type have, when the type is enforced. -/
def StaticType.operandTag? (t : StaticType) : Option Tag := if t.isHard then t.valueTag? else none

def ExprFacts.isReadOnly (f : ExprFacts) : Bool :=
  f.value.isSome || f.type.readOnly ||
    match f.referent with
    | some (.local _ .constant) | some (.memberConstant ..) | some (.memberFunction ..)
    | some (.memberSignal ..) | some (.nativeMethod _) | some (.nativeSignal _)
    | some (.nativeConstant _) | some (.scriptClass _) | some (.nativeClass _)
    | some (.builtinType _) | some (.singleton _) | some .globalConstant | some .utility => true
    | _ => false

namespace Expr

def calleeName : Expr → String
  | .call _ (.ident _ name) _ _ => name
  | .call _ (.field _ _ name) _ _ => name.name
  | .call .. => "<callable>"
  | _ => "<expression>"

def targetName : Expr → String
  | .ident _ name => name
  | .field _ _ name => name.name
  | _ => "subscript"

def base? : Expr → Option Expr
  | .field _ base _ => some base
  | .subscript _ base _ => some base
  | _ => none

end Expr

namespace Analyze

open Text (quoted)

variable (r : Resolver)

def boolFacts : ExprFacts := .typed (.builtin .bool)

def truth (b : Bool) : ExprFacts := .constant (.builtin .bool) (.bool b)

def truthy (v : Value) : Analyze Bool := return (← heap).truthy (fun _ => false) v

def operate (op : Operator) (a b : Value) : Analyze (Option Value) := do
  match op.result? (← heap) (fun _ => false) a b with
  | none => return none
  | some (v, h) => onHeap fun _ => (some v, h)

/-! ### Operators -/

def invalidUnary (op : String) (t : StaticType) (span : Span) : Analyze ExprFacts := do
  illTyped (.invalidOperator op (quoted t.text)) span
  return .unknown

def invalidBinary (op : String) (a b : StaticType) (span : Span) : Analyze ExprFacts := do
  illTyped (.invalidOperator op (quoted a.text ++ " and " ++ quoted b.text)) span
  return .unknown

def unaryFacts (op : UnaryOp) (operand : ExprFacts) (span : Span) : Analyze ExprFacts := do
  if op = .not then
    match operand.value with
    | some v => return truth (!(← truthy v))
    | none => return boolFacts
  else
    match operand.value with
    | some v =>
      match ← operate op.operator v .nil with
      | some w => return .constant (.builtin w.tag) w
      | none => invalidUnary op.spelling operand.type span
    | none =>
      match operand.type.operandTag? with
      | some tag =>
        match op.operator.resultTag? tag .nil with
        | some result => return .typed (.builtin result)
        | none => invalidUnary op.spelling operand.type span
      | none =>
        markUnsafe
        return .unknown

def logicFacts (op : BinaryOp) (left right : ExprFacts) : Analyze ExprFacts := do
  match left.value, right.value with
  | some a, some b =>
    let a ← truthy a
    let b ← truthy b
    return truth (if op = .and then a && b else a || b)
  | _, _ => return boolFacts

def foldBinary (op : BinaryOp) (left right : ExprFacts) (a b : Value) (span : Span) :
    Analyze ExprFacts := do
  match ← operate op.operator a b with
  | some v =>
    if op = .notIn then return truth (!(← truthy v)) else return .constant (.builtin v.tag) v
  | none => invalidBinary op.spelling left.type right.type span

def binaryFacts (op : BinaryOp) (left right : ExprFacts) (span : Span) : Analyze ExprFacts := do
  if op.isShortCircuit then logicFacts op left right
  else
    let a := left.type.operandTag?
    let b := right.type.operandTag?
    if op = .div ∧ a = some .int ∧ b = some .int then
      warn .integerDivision "integer division, the decimal part is discarded" span
    match left.value, right.value with
    | some v, some w => foldBinary op left right v w span
    | _, _ =>
      match a, b with
      | some a, some b =>
        match op.operator.resultTag? a b with
        | some result => return .typed (.builtin result)
        | none => invalidBinary op.spelling left.type right.type span
      | _, _ =>
        if op.isComparison ∨ op = .isIn ∨ op = .notIn then return boolFacts
        else
          markUnsafe
          return .unknown

/-- The type that values of both types may be stored in, or any. -/
def commonType (a b : StaticType) : Analyze StaticType := do
  if !a.isHard || !b.isHard then return .variant
  if a.same b then return a
  match ← compatible r a b with
  | .ok .compatible => return a
  | _ =>
    match ← compatible r b a with
    | .ok .compatible => return b
    | _ => return .variant

def choiceFacts (condition yes no : ExprFacts) : Analyze ExprFacts := do
  match condition.value, yes.value, no.value with
  | some test, some _, some _ => return if ← truthy test then yes else no
  | _, _, _ => return .typed (← commonType r yes.type no.type)

def arrayFacts (elements : List ExprFacts) : Analyze ExprFacts := do
  match elements.mapM (·.value) with
  | some values => return .constant (.builtin .array) (← onHeap fun h => h.foldArray values)
  | none => return .typed (.builtin .array)

def dictionaryFacts (entries : List (ExprFacts × ExprFacts)) : Analyze ExprFacts := do
  match entries.mapM fun e => return (← e.1.value, ← e.2.value) with
  | some entries =>
    return .constant (.builtin .dictionary) (← onHeap fun h => h.foldDictionary entries)
  | none => return .typed (.builtin .dictionary)

def fieldFacts (base : ExprFacts) (name : Ident) : Analyze ExprFacts := do
  let h ← heap
  match base.value.bind fun v => h.foldField? v name.name with
  | some v =>
    if base.type.isEnum && base.type.isMeta then return .constant base.type.toInstance v
    else return .constant (.builtin v.tag) v
  | none => fieldOf r base.type name

/-- The type of the elements of a hard type: nothing when it has none, and no type when it is not
known. -/
def elementType? (t : StaticType) : Option (Option StaticType) :=
  match t.valueTag? with
  | some .array => some (t.element? 0)
  | some .dictionary => some (t.element? 1)
  | some .string | some .stringName => some (some (.builtin .string))
  | some .vector2 | some .vector3 => some (some (.builtin .float))
  | some .object => some none
  | _ => none

def subscriptFacts (base index : ExprFacts) (span : Span) : Analyze ExprFacts := do
  let h ← heap
  let folded := do
    let container ← base.value
    let v ← h.foldSubscript? container (← index.value)
    some (container, v)
  match folded with
  | some (container, v) =>
    let place := if container.tag = .dictionary then 1 else 0
    return .constant ((base.type.element? place).getD (.builtin v.tag)) v
  | none =>
    if !base.type.isHard || base.type.isMeta then
      markUnsafe
      return .unknown
    else
      match elementType? base.type with
      | none => invalidBinary "[]" base.type index.type span
      | some (some t) => return .typed t
      | some none =>
        markUnsafe
        return .unknown

def castable (source target : StaticType) : Analyze Bool := do
  let accepted (a b : StaticType) : Analyze Bool := do
    match ← compatible r a b with
    | .ok verdict => return verdict.isAccepted
    | .error _ => return false
  if source.isObject && target.isObject then
    let down ← accepted target source
    let up ← accepted source target
    return down || up
  else if source.isMeta || target.isMeta || source.isObject || target.isObject then return false
  else
    match source.valueTag?, target.valueTag? with
    | some a, some b => return a == b || a.castsTo b
    | _, _ => return false

def castFacts (operand : ExprFacts) (target : StaticType) (span : Span) : Analyze ExprFacts := do
  if target.isVariant then return .typed target
  let h ← heap
  match operand.value.bind fun v => Heap.foldCast target v h with
  | some (v, h) =>
    onHeap fun _ => ((), h)
    return .constant target v
  | none =>
    if !operand.type.isHard then
      warn .unsafeConversion
        ("casting a Variant to " ++ quoted target.text ++ " is checked at runtime") span
      markUnsafe
    else if !(← castable r operand.type target) then
      illTyped (.invalidCast operand.type.text target.text) span
    return .typed target

def assignFacts (op : Option BinaryOp) (target value : Expr) (targetFacts valueFacts : ExprFacts)
    (span : Span) : Analyze ExprFacts := do
  if !target.isAssignable then
    illTyped (.invalidContext "cannot assign to this expression") target.span
    return .unknown
  let constantBase ← match target.base? with
    | some base => pure ((← known? base.id).any (·.isConstant))
    | none => pure false
  let type := targetFacts.type
  if constantBase || targetFacts.isReadOnly then
    illTyped (.readOnlyAssignment target.targetName) target.span
    return .typed type
  match op with
  | none =>
    checkStored r type value.id value.span valueFacts .assignment
    return .typed type
  | some op =>
    match type.operandTag?, valueFacts.type.operandTag? with
    | some a, some b =>
      match op.operator.resultTag? a b with
      | some result => checkStore r type (.builtin result) value.span .assignment
      | none =>
        let _ ← invalidBinary op.spelling type valueFacts.type span
    | _, _ => checkStore r type .variant value.span .assignment
    return .typed type

def awaitFacts (operand : ExprFacts) : Analyze ExprFacts := do
  modifyFunction fun f => { f with hasAwait := true }
  if operand.type.isBuiltin .signal || operand.type.isVoid then return .unknown
  else return .typed operand.type

end Analyze

end HotScript
