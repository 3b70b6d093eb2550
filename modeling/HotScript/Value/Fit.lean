import HotScript.Value.Convert

/-!
Fitting values into typed storage.

Types that are not hard take everything. Integers widen to floats and the two kinds of text into
each other; untyped containers are copied into typed ones when all they hold fits, and typed
containers fit only their own type.
-/

namespace HotScript

/-- What fitting asks about objects. -/
structure Kinship where
  /-- Whether the first native class is the second or inherits from it. -/
  descends : String → String → Bool
  /-- Whether the script instance attached to an object is of a class or one derived from it. -/
  isInstance : ObjectRef → ClassRef → Bool

def fitEach (one : Value → StateT Heap Option Value) : List Value → StateT Heap Option (List Value)
  | [] => pure []
  | v :: vs => do
    let w ← one v
    return w :: (← fitEach one vs)

def fitEntries (key value : Value → StateT Heap Option Value) (d : DictRef) :
    List (Value × Value) → StateT Heap Option Unit
  | [] => pure ()
  | e :: es => do
    let k ← key e.1
    let v ← value e.2
    modify fun h => (h.insertDict d k v).2
    fitEntries key value d es

def fitArray (element : StaticType) (one : Value → StateT Heap Option Value) (a : ArrayRef) :
    StateT Heap Option Value := do
  let cell := (← get).array a
  match cell.elementType with
  | some t => if t.same element then return .array a else failure
  | none =>
    let items ← fitEach one cell.elements.toList
    let b ← modifyGet fun h => h.newArray { elements := items.toArray, elementType := some element }
    return .array b

def fitDict (keyType valueType : StaticType) (key value : Value → StateT Heap Option Value)
    (d : DictRef) : StateT Heap Option Value := do
  let cell := (← get).dict d
  if cell.keyType.isSome || cell.valueType.isSome then
    if cell.keyType.any (·.same keyType) && cell.valueType.any (·.same valueType) then
      return .dictionary d
    else failure
  else
    let e ← modifyGet fun h => h.newDict { keyType := some keyType, valueType := some valueType }
    fitEntries key value e cell.entries
    return .dictionary e

/-- The value as it is stored where a type is expected; there is none when it does not fit. -/
def fit (k : Kinship) : StaticType → Value → StateT Heap Option Value
  | ⟨shape, p, isMeta, _⟩, v =>
    if !p.isEnforced then pure v
    else
      match shape with
      | .variant | .unresolved | .resolving => pure v
      | shape =>
        if isMeta then if v.tag == .object || v.tag == .nil then pure v else failure
        else
          match shape, v with
          | .builtin .array (element :: _), .array a => fitArray element (fit k element) a
          | .builtin .dictionary [kt, vt], .dictionary d => fitDict kt vt (fit k kt) (fit k vt) d
          | .builtin tag _, v => do
            if v.tag == tag then pure v
            else if v.tag.widensTo tag then ((← get).convert v tag : Option Value)
            else failure
          | .enum .., .int i => pure (.int i)
          | .enum .., .float x => pure (.int x.toInt64)
          | .native _, .nil => pure .nil
          | .native c, .object o => if k.descends o.className c then pure v else failure
          | .script _, .nil => pure .nil
          | .script c, .object o => if k.isInstance o c then pure v else failure
          | _, _ => failure

end HotScript
