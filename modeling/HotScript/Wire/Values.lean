import HotScript.Wire.Types
import HotScript.Text.Hex
import HotScript.Value.Convert

/-!
Values as documents.

Reading a container allocates it; writing one follows the heap. What a document says about an object
or callable beyond its identity is answered by a `ValueView`.
-/

namespace HotScript.Wire

/-- What is shown of objects and callables. -/
structure ValueView where
  /-- The qualified name of the script class of the instance attached to an object. -/
  scriptOf : ObjectRef → Option String := fun _ => none
  valid : Callable → Bool := fun _ => false

instance : ToDatum Float := ⟨fun x => if x.isNaN then "nan" else Hex.ofWord x.toBits⟩

def readFloat (d : Datum) : Option Float := do
  let s ← d.str?
  if s = "nan" then some (0 / 0)
  else some (Float.ofBits (← Hex.number? s.toList).toUInt64)

/-- A field that is written only when there is something to write. -/
def present {α : Type} [ToDatum α] (key : String) : Option α → List (String × Datum)
  | some a => [(key, a)]
  | none => []

/-- A mark that is written only when it is set. -/
def mark (key : String) (b : Bool) : List (String × Datum) := if b then [(key, true)] else []

def ofValueWithin (view : ValueView) (h : Heap) : Nat → Value → Datum
  | _, .nil => .null
  | _, .bool b => b
  | _, .int i => i
  | _, .float x => .record [("f", x)]
  | _, .string s => s
  | _, .stringName s => .record [("sn", s)]
  | _, .vector2 x y => .record [("v2", [x, y])]
  | _, .vector3 x y z => .record [("v3", [x, y, z])]
  | _, .object o => .record [("obj", o.label), ("class", o.className), ("script", view.scriptOf o)]
  | _, .callable c => .record [("callable", c.text), ("valid", view.valid c)]
  | _, .signal o name => .record [("signal", name), ("obj", o.label)]
  | 0, .array _ => .record [("arr", .list [])]
  | 0, .dictionary _ => .record [("dict", .list [])]
  | depth + 1, .array a =>
    let cell := h.array a
    .record (("arr", cell.elements.toList.map (ofValueWithin view h depth)) ::
      (present "ty" cell.elementType ++ mark "ro" cell.readOnly))
  | depth + 1, .dictionary d =>
    let cell := h.dict d
    .record (("dict", cell.entries.map fun e => [e.1, e.2].map (ofValueWithin view h depth)) ::
      (present "kt" cell.keyType ++ present "vt" cell.valueType ++ mark "ro" cell.readOnly))

def ofValue (view : ValueView) (h : Heap) (v : Value) : Datum :=
  ofValueWithin view h (h.size + 1) v

def ofOption (view : ValueView) (h : Heap) (v : Option Value) : Datum :=
  v.elim .absent (ofValue view h)

def optional {m : Type → Type} {α : Type} [Monad m] (d : Datum) (key : String)
    (read : Datum → m α) : m (Option α) :=
  if d.has key then some <$> read d[key] else pure none

/-- Read a value that nests at most `depth` levels; `named` finds stored values. -/
def readValueWithin (named : String → Option Value) : Nat → Datum → StateT Heap Option Value
  | 0, _ => failure
  | depth + 1, d =>
    let value := readValueWithin named depth
    let type (key : String) : StateT Heap Option (Option StaticType) := optional d key (readType ·)
    match d with
    | .null => pure .nil
    | .bool b => pure (.bool b)
    | .int i => pure (.int (Int64.ofInt i))
    | .str s => pure (.string s)
    | .list _ => failure
    | .record _ => do
      if d.has "f" then return .float (← readFloat d["f"])
      else if d.has "sn" then return .stringName (← d["sn"].str?)
      else if d.has "v2" then
        let v := d["v2"]
        return .vector2 (← readFloat v[0]) (← readFloat v[1])
      else if d.has "v3" then
        let v := d["v3"]
        return .vector3 (← readFloat v[0]) (← readFloat v[1]) (← readFloat v[2])
      else if d.has "arr" then
        let items ← d["arr"].items.mapM value
        let elementType ← type "ty"
        let a ← modifyGet fun h => h.newArray { elements := items.toArray, elementType }
        if d["ro"].isTrue then modify (·.freezeArray a)
        return .array a
      else if d.has "dict" then
        let keyType ← type "kt"
        let valueType ← type "vt"
        let entries ← d["dict"].items.mapM fun e => do
          let k ← value e[0]
          return (k, ← value e[1])
        let r ← modifyGet fun h => h.dictOf entries keyType valueType
        if d["ro"].isTrue then modify (·.freezeDict r)
        return .dictionary r
      else if d.has "var" then named (← d["var"].str?)
      else if d.has "method" then
        return .callable (.method (← objectOf d["method"][0]) (← d["method"][1].str?))
      else if d.has "signal" then return .signal (← objectOf d["signal"][0]) (← d["signal"][1].str?)
      else failure
where
  objectOf (d : Datum) : Option ObjectRef := do (← named (← d.str?)).object?

def readValue (named : String → Option Value) (d : Datum) : StateT Heap Option Value :=
  readValueWithin named d.depth d

def readPlain (d : Datum) : StateT Heap Option Value := readValue (fun _ => none) d

end HotScript.Wire
