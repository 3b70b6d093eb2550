import HotScript.Value.Equal
import HotScript.Number.Decimal

/-!
The text of values, conversions, truth and default values.
-/

namespace HotScript

def Callable.text : Callable → String
  | .method o m => o.className ++ ":" ++ o.label ++ "::" ++ m
  | .custom _ name => name

namespace Heap

/-- The text of a value through at most `depth` levels of containers. -/
def showWithin (h : Heap) : Nat → Value → String
  | _, .nil => "<null>"
  | _, .bool b => if b then "true" else "false"
  | _, .int i => toString i.toInt
  | _, .float x => Number.text .pointed x
  | _, .string s => s
  | _, .stringName s => s
  | _, .vector2 x y => "(" ++ Number.text .bare x ++ ", " ++ Number.text .bare y ++ ")"
  | _, .vector3 x y z =>
    "(" ++ Number.text .bare x ++ ", " ++ Number.text .bare y ++ ", " ++ Number.text .bare z ++ ")"
  | _, .object o => "<" ++ o.className ++ o.label ++ ">"
  | _, .callable c => c.text
  | _, .signal o name => o.label ++ "::" ++ name
  | 0, .array _ => "[]"
  | 0, .dictionary _ => "\x7b\x7d"
  | n + 1, .array a => "[" ++ ", ".intercalate ((h.items a).map (h.showWithin n)) ++ "]"
  | n + 1, .dictionary d =>
    let pairs := (h.entries d).map fun e => h.showWithin n e.1 ++ ": " ++ h.showWithin n e.2
    "\x7b" ++ ", ".intercalate pairs ++ "\x7d"

def text (h : Heap) (v : Value) : String :=
  h.showWithin (h.size + 1) v

end Heap

namespace Heap

/-- Whether a value counts as true.  A callable does while it can still be called, which `valid`
decides. -/
def truthy (h : Heap) (valid : Callable → Bool) : Value → Bool
  | .nil => false
  | .bool b => b
  | .int i => i != 0
  | .float x => x != 0
  | .string s | .stringName s => s != ""
  | .vector2 x y => x != 0 || y != 0
  | .vector3 x y z => x != 0 || y != 0 || z != 0
  | .array a => !(h.array a).elements.isEmpty
  | .dictionary d => !(h.entries d).isEmpty
  | .object _ => true
  | .callable c => valid c
  | .signal .. => true

def convert (h : Heap) (v : Value) (target : Tag) : Option Value :=
  if v.tag == target then some v
  else
    match v, target with
    | .int i, .float => some (.float (nearestFloat i))
    | .float x, .int => some (.int x.toInt64)
    | .bool b, .int => some (.int (if b then 1 else 0))
    | .bool b, .float => some (.float (if b then 1 else 0))
    | .int i, .bool => some (.bool (i != 0))
    | .float x, .bool => some (.bool (x != 0))
    | .string s, .stringName => some (.stringName s)
    | .stringName s, .string => some (.string s)
    | v, .string => some (.string (h.text v))
    | .nil, .object => some .nil
    | _, _ => none

/-- A copy of a container whose elements are the same values; any other value is its own copy. -/
def duplicate (h : Heap) : Value → Value × Heap
  | .array a =>
    let (b, h) := h.copyArray a
    (.array b, h)
  | .dictionary d =>
    let (e, h) := h.dictOf (h.entries d) none none
    (.dictionary e, h)
  | v => (v, h)

def defaultOf (h : Heap) : Tag → Value × Heap
  | .bool => (.bool false, h)
  | .int => (.int 0, h)
  | .float => (.float 0, h)
  | .string => (.string "", h)
  | .stringName => (.stringName "", h)
  | .vector2 => (.vector2 0 0, h)
  | .vector3 => (.vector3 0 0 0, h)
  | .array =>
    let (a, h) := h.newArray {}
    (.array a, h)
  | .dictionary =>
    let (d, h) := h.newDict {}
    (.dictionary d, h)
  | .nil | .object | .callable | .signal => (.nil, h)

/-- The value a variable of type `t` starts with when nothing else is said. -/
def defaultValue (h : Heap) (t : StaticType) : Value × Heap :=
  if t.isMeta then (.nil, h)
  else
    match t.shape with
    | .builtin .array es =>
      let (a, h) := h.newArray { elementType := es.head? }
      (.array a, h)
    | .builtin .dictionary es =>
      let (d, h) := h.newDict { keyType := es.head?, valueType := es[1]? }
      (.dictionary d, h)
    | .builtin tag _ => h.defaultOf tag
    | .enum .. => (.int 0, h)
    | _ => (.nil, h)

/-- The value a slot of type `t` starts with: null unless the type is hard. -/
def slotDefault (h : Heap) (t : StaticType) : Value × Heap :=
  if t.isHard then h.defaultValue t else (.nil, h)

end Heap

/-- Whether a value fits a builtin or enum type as it is; of object types only the kind is asked. -/
def StaticType.acceptsKind (h : Heap) (t : StaticType) (v : Value) : Bool :=
  match t.shape with
  | .variant => true
  | .builtin tag es =>
    (v.tag == tag || v.tag.widensTo tag) &&
      match v, es.head? with
      | .array a, some element => (h.array a).elementType.any (·.same element)
      | _, _ => true
  | .enum .. => v.tag == .int
  | .native _ | .script _ => v.tag == .object || v.tag == .nil
  | .unresolved | .resolving => false

end HotScript
