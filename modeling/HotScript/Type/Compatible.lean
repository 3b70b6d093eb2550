import HotScript.Type.Basic

/-!
Compatibility of static types.

`compatible target source` says whether a value of type `source` may be stored where `target` is
expected. Class types ask a `Hierarchy` for their parents; answering may take effects, so the
hierarchy lives in a monad. Chains of script classes are followed for at most 256 links.
-/

namespace HotScript

inductive Compatibility
  | compatible
  /-- Accepted, and checked again when the program runs. -/
  | deferred
  | incompatible
deriving DecidableEq, Repr

def Compatibility.isAccepted : Compatibility → Bool
  | .incompatible => false
  | _ => true

def Compatibility.ofBool (b : Bool) : Compatibility :=
  if b then .compatible else .incompatible

/-- A check met a class whose base is just being found out, or such a type itself. -/
structure ResolvingBase where
  cls : Option ClassRef
deriving DecidableEq, Repr

inductive ScriptParent
  | script (cls : ClassRef)
  | native (name : String)
  | resolving
  | unknown
deriving DecidableEq, Repr

/-- The relations between classes that a check consults. -/
structure Hierarchy (m : Type → Type) where
  /-- Whether the first native class is the second or inherits from it. -/
  descends : String → String → Bool
  parent : ClassRef → m ScriptParent

def chainLimit : Nat := 256

namespace Hierarchy

variable {m : Type → Type} [Monad m] (h : Hierarchy m)

/-- Whether the native root of a script class's chain descends from `target`. -/
def rootDescends (target : String) : Nat → ClassRef → m (Except ResolvingBase Compatibility)
  | 0, _ => pure (.ok .incompatible)
  | n + 1, current => do
    match ← h.parent current with
    | .script next => rootDescends target n next
    | .native root => pure (.ok (.ofBool (h.descends root target)))
    | .resolving => pure (.error ⟨some current⟩)
    | .unknown => pure (.ok .incompatible)

def chainHas (target : ClassRef) : Nat → ClassRef → m (Except ResolvingBase Compatibility)
  | n, current => do
    if current.same target then pure (.ok .compatible)
    else
      match n with
      | 0 => pure (.ok .incompatible)
      | n + 1 =>
        match ← h.parent current with
        | .script next => chainHas target n next
        | .resolving => pure (.error ⟨some current⟩)
        | .native _ | .unknown => pure (.ok .incompatible)

def compatibleShape (target source : TypeShape) : m (Except ResolvingBase Compatibility) :=
  match target, source with
  | .builtin tag es, .builtin tag' es' =>
    let verdict : Compatibility :=
      if tag == tag' then
        if es.isEmpty || StaticType.sameAll es es' then .compatible
        else if es'.isEmpty then .deferred
        else .incompatible
      else .ofBool (tag'.widensTo tag)
    pure (.ok verdict)
  | .builtin tag _, .enum .. => pure (.ok (.ofBool (tag == .int)))
  | .enum .., .builtin .int _ => pure (.ok .compatible)
  | .enum n o _, .enum n' o' _ => pure (.ok (.ofBool (n == n' && o == o')))
  | .native _, .builtin .nil _ => pure (.ok .compatible)
  | .native c, .native c' => pure (.ok (.ofBool (h.descends c' c)))
  | .native c, .script s => h.rootDescends c chainLimit s
  | .script _, .builtin .nil _ => pure (.ok .compatible)
  | .script c, .script s => h.chainHas c chainLimit s
  | _, _ => pure (.ok .incompatible)

/-- Whether values of type `source` may be stored where `target` is expected. -/
def compatible (target source : StaticType) : m (Except ResolvingBase Compatibility) :=
  if target.isResolving || source.isResolving then pure (.error ⟨none⟩)
  else if target.isVariant || !target.isSet then pure (.ok .compatible)
  else if source.isVariant || !source.isSet then pure (.ok .deferred)
  else if target.isMeta != source.isMeta then pure (.ok .incompatible)
  else h.compatibleShape target.shape source.shape

end Hierarchy

end HotScript
