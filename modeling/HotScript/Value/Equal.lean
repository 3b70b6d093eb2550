import HotScript.Value.Heap

/-!
Equality of values.

Integers equal floats of the same number and strings equal string names of the same text.
Dictionaries are equal when they are one cell or have equally many entries, each of the first with
an equal entry in the second. The recursion goes through the heap, so it carries a bound on its
depth: containers that do not contain themselves are never nested deeper than there are cells.
-/

namespace HotScript

def agree {α : Type} (eq : α → α → Bool) : List α → List α → Bool
  | [], [] => true
  | a :: as, b :: bs => eq a b && agree eq as bs
  | _, _ => false

namespace Heap

/-- Equality through at most `depth` levels of containers. -/
def equalWithin (h : Heap) : Nat → Value → Value → Bool
  | _, .nil, .nil => true
  | _, .bool a, .bool b => a == b
  | _, .int a, .int b => a == b
  | _, .float a, .float b => a == b
  | _, .int a, .float b => nearestFloat a == b
  | _, .float a, .int b => nearestFloat b == a
  | _, .string a, .string b => a == b
  | _, .string a, .stringName b => a == b
  | _, .stringName a, .string b => a == b
  | _, .stringName a, .stringName b => a == b
  | _, .vector2 a b, .vector2 c d => a == c && b == d
  | _, .vector3 a b c, .vector3 d e f => a == d && b == e && c == f
  | _, .object a, .object b => a.id == b.id
  | _, .callable (.method a m), .callable (.method b n) => a.id == b.id && m == n
  | _, .callable (.custom a _), .callable (.custom b _) => a == b
  | _, .signal a m, .signal b n => a.id == b.id && m == n
  | 0, .array a, .array b => a == b
  | 0, .dictionary a, .dictionary b => a == b
  | n + 1, .array a, .array b => a == b || agree (h.equalWithin n) (h.items a) (h.items b)
  | n + 1, .dictionary a, .dictionary b =>
    a == b ||
      (h.entries a).length == (h.entries b).length &&
        (h.entries a).all fun e =>
          (h.entries b).any fun e' => h.equalWithin n e.1 e'.1 && h.equalWithin n e.2 e'.2
  | _, _, _ => false

def equal (h : Heap) (a b : Value) : Bool :=
  h.equalWithin (h.size + 1) a b

def lookupDict (h : Heap) (d : DictRef) (k : Value) : Option Value :=
  ((h.entries d).find? fun e => h.equal e.1 k).map (·.2)

def hasKey (h : Heap) (d : DictRef) (k : Value) : Bool :=
  (h.entries d).any fun e => h.equal e.1 k

/-- Replace the value of the first entry whose key equals `k`, or append an entry. -/
def putEntry (eq : Value → Value → Bool) (k v : Value) : List (Value × Value) → List (Value × Value)
  | [] => [(k, v)]
  | e :: rest => if eq e.1 k then (e.1, v) :: rest else e :: putEntry eq k v rest

/-- Write an entry; refused when read-only. -/
def insertDict (h : Heap) (d : DictRef) (k v : Value) : Bool × Heap :=
  let cell := h.dict d
  if cell.readOnly then (false, h)
  else (true, h.setDict d { cell with entries := putEntry h.equal k v cell.entries })

def hasItem (h : Heap) (a : ArrayRef) (v : Value) : Bool :=
  (h.items a).any fun e => h.equal e v

/-- A fresh dictionary with the given types, filled by writing the entries in order. -/
def dictOf (h : Heap) (entries : List (Value × Value)) (keyType : Option StaticType)
    (valueType : Option StaticType) : DictRef × Heap :=
  let (d, h) := h.newDict { keyType, valueType }
  (d, entries.foldl (fun h e => (h.insertDict d e.1 e.2).2) h)

def enumDict (h : Heap) (values : EnumValues) : DictRef × Heap :=
  let (d, h) := h.dictOf (values.map fun e => (.string e.1, .int e.2)) none none
  (d, h.freezeDict d)

end Heap

end HotScript
