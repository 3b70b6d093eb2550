import HotScript.Value.Convert

/-!
Constant values.

A container of constants is a constant, and so is an element of one. Folded containers are
read-only, so a constant cannot be changed through another name for it.
-/

namespace HotScript

namespace Heap

def foldArray (h : Heap) (elements : List Value) : Value × Heap :=
  let (a, h) := h.newArray { elements := elements.toArray, readOnly := true }
  (.array a, h)

/-- A constant dictionary; of equal keys the later value counts. -/
def foldDictionary (h : Heap) (entries : List (Value × Value)) : Value × Heap :=
  let (d, h) := h.dictOf entries none none
  (.dictionary d, h.freezeDict d)

/-- A place counted from the front, or from the end when negative. -/
def placeIn (length : Nat) (i : Int64) : Option Nat :=
  let i := if i < 0 then i + Int64.ofNat length else i
  if i < 0 then none else some i.toInt.toNat

/-- A part of a vector, counted from the front only. -/
def partOf (parts : List Float) (i : Int64) : Option Value :=
  if i < 0 then none else parts[i.toInt.toNat]?.map .float

def foldSubscript? (h : Heap) (base index : Value) : Option Value :=
  match base with
  | .array a => do
    let items := (h.array a).elements
    items[← placeIn items.size (← index.int?)]?
  | .dictionary d => h.lookupDict d index
  | .string s => do
    let chars := s.toList
    let c ← chars[← placeIn chars.length (← index.int?)]?
    some (.string (String.singleton c))
  | .vector2 x y => do partOf [x, y] (← index.int?)
  | .vector3 x y z => do partOf [x, y, z] (← index.int?)
  | _ => none

def foldField? (h : Heap) (base : Value) (name : String) : Option Value :=
  match base, name with
  | .dictionary d, _ =>
    (h.lookupDict d (.string name)).orElse fun _ => h.lookupDict d (.stringName name)
  | .vector2 x _, "x" | .vector3 x _ _, "x" => some (.float x)
  | .vector2 _ y, "y" | .vector3 _ y _, "y" => some (.float y)
  | .vector3 _ _ z, "z" => some (.float z)
  | _, _ => none

def adaptEach (adapt : Value → Heap → Option (Value × Heap)) :
    List Value → Heap → Option (List Value × Heap)
  | [], h => some ([], h)
  | v :: vs, h => do
    let (v, h) ← adapt v h
    let (vs, h) ← adaptEach adapt vs h
    some (v :: vs, h)

def adaptEntries (onKey onValue : Value → Heap → Option (Value × Heap)) (d : DictRef) :
    List (Value × Value) → Heap → Option Heap
  | [], h => some h
  | (k, v) :: rest, h => do
    let (k, h) ← onKey k h
    let (v, h) ← onValue v h
    adaptEntries onKey onValue d rest (h.insertDict d k v).2

def widen (tag : Tag) (v : Value) (h : Heap) : Option (Value × Heap) :=
  if v.tag == tag then some (v, h)
  else if v.tag.widensTo tag then (h.convert v tag).map (·, h)
  else none

mutual

/-- The constant as a place of type `target` holds it: numbers widened, texts of the right kind,
containers typed and read-only.  Nothing when some part does not fit. -/
def adapt : StaticType → Value → Heap → Option (Value × Heap)
  | ⟨shape, _, isMeta, _⟩, v, h => if isMeta then some (v, h) else adaptShape shape v h

def adaptShape : TypeShape → Value → Heap → Option (Value × Heap)
  | .variant, v, h | .unresolved, v, h | .resolving, v, h => some (v, h)
  | .builtin .array es, v, h =>
    match v, es with
    | .array _, [] => some (v, h)
    | .array a, e :: _ =>
      if (h.array a).elementType.any (·.same e) then some (v, h)
      else do
        let (items, h) ← adaptEach (adapt e) (h.items a) h
        let (b, h) := h.newArray
          { elements := items.toArray, elementType := some e, readOnly := true }
        some (.array b, h)
    | _, _ => none
  | .builtin .dictionary [], v, h => widen .dictionary v h
  | .builtin .dictionary (k :: es), v, h =>
    match v with
    | .dictionary d =>
      let entries := h.entries d
      match es with
      | [] => do
        let (e, h) := h.newDict { keyType := some k }
        let h ← adaptEntries (adapt k) (fun v h => some (v, h)) e entries h
        some (.dictionary e, h.freezeDict e)
      | t :: _ => do
        let (e, h) := h.newDict { keyType := some k, valueType := some t }
        let h ← adaptEntries (adapt k) (adapt t) e entries h
        some (.dictionary e, h.freezeDict e)
    | _ => none
  | .builtin tag _, v, h => widen tag v h
  | .enum .., v, h => v.int?.map fun i => (.int i, h)
  | .native _, v, h | .script _, v, h => if v.isNil then some (.nil, h) else none

end

def foldCast (target : StaticType) (v : Value) (h : Heap) : Option (Value × Heap) :=
  match target.shape with
  | .builtin tag [] => (h.convert v tag).map (·, h)
  | .builtin .. => adapt target v h
  | .enum .. => v.int?.map fun i => (.int i, h)
  | _ => none

end Heap

end HotScript
