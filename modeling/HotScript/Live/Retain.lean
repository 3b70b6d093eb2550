import HotScript.Live.World

/-!
What is still alive.

A cell is given up when nothing that is still there refers to it, and giving it up takes its own
references away. So what stays is the largest set of cells in which each is held by the host or a
running function, or referred to by a member of the set; circles stay for good.
-/

namespace HotScript

def Value.cell? : Value → Option Cell
  | .array a => some (.array a.id)
  | .dictionary d => some (.dict d.id)
  | .object o => some (.object o.id)
  | .callable (.method o _) => some (.object o.id)
  | .callable (.custom id _) => some (.closure id)
  | .signal o _ => some (.object o.id)
  | _ => none

def Value.cells (vs : List Value) : List Cell := vs.filterMap Value.cell?

def FunctionCode.containers (f : FunctionCode) : List Cell :=
  Value.cells (f.pool.constants.toList.filterMap (·.value?))

def ClassCode.containers (c : ClassCode) : List Cell :=
  Value.cells c.constants.values ++
    (c.functions.values ++ c.lambdas.toList ++ c.init.toList ++ c.staticInit.toList).flatMap
      (·.containers)

def LambdaTable.containers (t : LambdaTable) : List Cell :=
  t.functions.toList.flatMap fun f => (f.map (·.containers)).getD []

def Activation.cells (a : Activation) : List Cell :=
  .script a.script :: a.bound.toList.map .inst ++ Value.cells a.stack.toList ++
    a.function.containers

namespace World

variable (w : World)

def successors : Cell → List Cell
  | .array id => Value.cells (w.heap.items ⟨id⟩)
  | .dict id => Value.cells ((w.heap.entries ⟨id⟩).flatMap fun e => [e.1, e.2])
  | .object id =>
    match w.objects[id]? with
    | some (.native properties attached) =>
      Value.cells properties.values ++ attached.toList.map .inst
    | _ => []
  | .closure id =>
    match w.closures[id]? with
    | some (.lambda table _ _ captures _) =>
      Value.cells captures ++ (w.lambdaTable table).containers
    | _ => []
  | .script id =>
    let s := w.script id
    s.base.toList.map .script ++ s.inner.values.map .script ++
      s.nested.toList.filterMap (·.map .script) ++ Value.cells s.statics.toList ++
      s.classObject.toList.map (fun o => .object o.id) ++ (s.code.map (·.containers)).getD []
  | .inst id =>
    let i := w.inst id
    .script i.script :: Value.cells i.members.toList

/-- What is held from outside: by the host, by name or in the cache, and by what is running. -/
def roots : List Cell :=
  w.frames.flatMap (·.cells) ++ w.held.flatten ++
    Value.cells w.handles.values.values ++ w.handles.scripts.values.map .script ++
    w.handles.instances.values.map .inst ++ w.cache.full.values.map .script ++
    w.cache.shallow.values.map .script ++ w.cache.pinned.values.map .script ++
    Value.cells w.registry.constants.values

def cells : List Cell :=
  (List.range w.heap.arrays.size).map .array ++ (List.range w.heap.dicts.size).map .dict ++
    (List.range w.objects.size).map .object ++ (List.range w.closures.size).map .closure ++
    (List.range w.scripts.size).map .script ++ (List.range w.instances.size).map .inst

def number (c : Cell) : Nat :=
  let dicts := w.heap.arrays.size
  let objects := dicts + w.heap.dicts.size
  let closures := objects + w.objects.size
  let scripts := closures + w.closures.size
  match c with
  | .array id => id
  | .dict id => dicts + id
  | .object id => objects + id
  | .closure id => closures + id
  | .script id => scripts + id
  | .inst id => scripts + w.scripts.size + id

end World

namespace Retain

def refer (counts : Array Nat) (cells : List Nat) : Array Nat :=
  cells.foldl (fun counts i => counts.modify i (· + 1)) counts

def counts (successors : Array (List Nat)) (roots : List Nat) : Array Nat :=
  successors.foldl refer (refer (Array.replicate successors.size 0) roots)

/-- Take away one reference to each of the cells; those that have none left are to be released. -/
def unrefer (counts : Array Nat) (pending : List Nat) (cells : List Nat) : Array Nat × List Nat :=
  cells.foldl
    (fun (counts, pending) i =>
      let left := (counts[i]?.getD 0) - 1
      (counts.setIfInBounds i left, if left = 0 ∧ i < counts.size then i :: pending else pending))
    (counts, pending)

def release (successors : Array (List Nat)) : Nat → List Nat → Array Nat → Array Nat
  | 0, _, counts => counts
  | _, [], counts => counts
  | n + 1, i :: pending, counts =>
    let (counts, pending) := unrefer counts pending (successors[i]?.getD [])
    release successors n pending counts

/-- The references to each cell when nothing is left to release. -/
def settle (successors : Array (List Nat)) (roots : List Nat) : Array Nat :=
  let start := counts successors roots
  let free := (List.range start.size).filter fun i => start[i]?.getD 0 == 0
  release successors start.size free start

end Retain

namespace World

variable (w : World)

/-- Whether a cell is still there.  What is held from outside is, without looking any further. -/
def isAlive (c : Cell) : Bool :=
  w.roots.contains c ||
    let successors := (w.cells.map fun c => (w.successors c).map w.number).toArray
    decide (0 < ((Retain.settle successors (w.roots.map w.number))[w.number c]?).getD 0)

def isScriptAlive (s : ScriptId) : Bool := w.isAlive (.script s)
def isInstanceAlive (i : InstanceId) : Bool := w.isAlive (.inst i)
def isObjectAlive (o : ObjectRef) : Bool := w.isAlive (.object o.id)

end World

end HotScript
