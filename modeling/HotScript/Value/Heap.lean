import HotScript.Value.Basic

/-!
The heap of shared containers.

Cells are only ever added, so a place once given out keeps its meaning. A read-only cell refuses
every write; a cell may record the types of what it holds.
-/

namespace HotScript

structure ArrayCell where
  elements : Array Value := #[]
  elementType : Option StaticType := none
  readOnly : Bool := false
deriving Inhabited

structure DictCell where
  entries : List (Value × Value) := []
  keyType : Option StaticType := none
  valueType : Option StaticType := none
  readOnly : Bool := false
deriving Inhabited

structure Heap where
  arrays : Array ArrayCell := #[]
  dicts : Array DictCell := #[]
deriving Inhabited

namespace Heap

def size (h : Heap) : Nat := h.arrays.size + h.dicts.size

def array (h : Heap) (a : ArrayRef) : ArrayCell := h.arrays[a.id]?.getD {}

def dict (h : Heap) (d : DictRef) : DictCell := h.dicts[d.id]?.getD {}

def items (h : Heap) (a : ArrayRef) : List Value := (h.array a).elements.toList

def entries (h : Heap) (d : DictRef) : List (Value × Value) := (h.dict d).entries

def newArray (h : Heap) (cell : ArrayCell) : ArrayRef × Heap :=
  (⟨h.arrays.size⟩, { h with arrays := h.arrays.push cell })

def newDict (h : Heap) (cell : DictCell) : DictRef × Heap :=
  (⟨h.dicts.size⟩, { h with dicts := h.dicts.push cell })

def setArray (h : Heap) (a : ArrayRef) (cell : ArrayCell) : Heap :=
  { h with arrays := h.arrays.setIfInBounds a.id cell }

def setDict (h : Heap) (d : DictRef) (cell : DictCell) : Heap :=
  { h with dicts := h.dicts.setIfInBounds d.id cell }

def arrayOf (h : Heap) (elements : List Value) : Value × Heap :=
  let (a, h) := h.newArray { elements := elements.toArray }
  (.array a, h)

/-- Store at an index; refused out of range and when read-only. -/
def storeAt (h : Heap) (a : ArrayRef) (i : Nat) (v : Value) : Bool × Heap :=
  let cell := h.array a
  if !cell.readOnly && decide (i < cell.elements.size) then
    (true, h.setArray a { cell with elements := cell.elements.setIfInBounds i v })
  else (false, h)

def push (h : Heap) (a : ArrayRef) (v : Value) : Bool × Heap :=
  let cell := h.array a
  if cell.readOnly then (false, h)
  else (true, h.setArray a { cell with elements := cell.elements.push v })

def freezeArray (h : Heap) (a : ArrayRef) : Heap :=
  h.setArray a { h.array a with readOnly := true }

def freezeDict (h : Heap) (d : DictRef) : Heap :=
  h.setDict d { h.dict d with readOnly := true }

/-- A writable copy of an array with the same type. -/
def copyArray (h : Heap) (a : ArrayRef) : ArrayRef × Heap :=
  h.newArray { h.array a with readOnly := false }

end Heap

end HotScript
