import HotScript.Analysis.Demand
import HotScript.Analysis.Fold

/-!
Storing values where a type is expected.

Only hard types are enforced. A value of unknown type is checked when the program runs, and so is
one whose type the target could be stored in.
-/

namespace HotScript

/-- What a value is stored for. -/
inductive StoreReason
  | assignment
  /-- As an argument, counted from zero. -/
  | argument (function : String) (index : Nat)
  | result

def StoreReason.fault (reason : StoreReason) (target source : StaticType) : TypeFault :=
  match reason with
  | assignment => .incompatibleAssignment target.text source.text
  | argument function index => .incompatibleArgument function (index + 1) target.text source.text
  | result => .incompatibleReturn target.text source.text

namespace Analyze

open Text (quoted)

variable (r : Resolver)

/-- A store that is only right the other way round: it is let through when the target could be
stored where the source is expected. -/
def checkReversed (target source : StaticType) (span : Span) (reason : StoreReason) :
    Analyze Unit := do
  let reversed := match ← compatible r source target with
    | .ok verdict => verdict.isAccepted && target.isMeta == source.isMeta
    | .error _ => false
  if reversed then
    markUnsafe
    if target.tag?.any (·.isNumeric) && source.tag?.any (·.isNumeric) then
      warn .narrowingConversion
        ("narrowing conversion from " ++ quoted source.text ++ " to " ++ quoted target.text) span
  else illTyped (reason.fault target source) span

def checkStore (target source : StaticType) (span : Span) (reason : StoreReason) :
    Analyze Unit := do
  if !target.isHard || target.isVariant then return
  if source.isResolving then
    cyclicReference span
    return
  if !source.isHard then
    markUnsafe
    match reason with
    | .argument function index =>
      warn .unsafeCallArgument
        ("argument " ++ toString (index + 1) ++ " of " ++ quoted function ++
          " is Variant but the parameter is " ++ quoted target.text) span
    | _ => pure ()
    return
  match ← compatible r target source with
  | .error base =>
    let cls ← match base.cls with
      | some cls => pure cls.name
      | none => className (← cursor).cls
    unresolved (.cyclicReference cls) span
  | .ok .compatible =>
    if target.isEnum && source.isBuiltin .int then
      warn .intAsEnumWithoutCast ("integer used as enum " ++ quoted target.text ++
        " without a cast") span
  | .ok .deferred => markUnsafe
  | .ok .incompatible => checkReversed r target source span reason

/-- Convert a constant to the way a place of type `target` holds it. -/
def adaptConstant (target : StaticType) (v : Value) : Analyze (Option Value) := do
  match Heap.adapt target v (← heap) with
  | none => return none
  | some (w, h) =>
    onHeap fun _ => (some w, h)

/-- Check that the value of an expression may be stored where `target` is expected.  A constant that
fits takes the form it is held in right away. -/
def checkStored (target : StaticType) (id : NodeId) (span : Span) (facts : ExprFacts)
    (reason : StoreReason) : Analyze Unit := do
  let adapted ←
    if target.isHard && !target.isVariant && !target.isEnum then
      match facts.value with
      | some v => adaptConstant target v
      | none => pure none
    else pure none
  match adapted with
  | some w =>
    let _ ← record id { facts with value := some w, type := target }
  | none => checkStore r target facts.type span reason

end Analyze

end HotScript
