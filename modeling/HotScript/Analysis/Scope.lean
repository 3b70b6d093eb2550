import HotScript.Ordered
import HotScript.Table
import HotScript.Type.Basic
import HotScript.Source.Span

/-!
Local names of a function under analysis.

A frame holds the names of one function: a name declared again in an inner block shadows the outer
one until the block is left. A lambda opens a frame inside that of the function around it; looking
up a name of an outer frame captures it, once, in every lambda on the way.
-/

namespace HotScript

inductive LocalKind
  | param (index : Nat)
  | variable
  | constant
  | loop
  | binding
deriving DecidableEq, Repr, Inhabited

structure Local where
  name : String
  decl : Nat
  type : StaticType
  kind : LocalKind
  /-- How deep the block is that declares it; parameters are at depth 0. -/
  depth : Nat
  span : Span
deriving Inhabited

structure Capture where
  name : String
  decl : Nat
  type : StaticType
  index : Nat
deriving Inhabited

inductive Lookup
  | here (l : Local)
  | captured (c : Capture)

namespace Lookup

def decl : Lookup → Nat
  | here l => l.decl
  | captured c => c.decl

def type : Lookup → StaticType
  | here l => l.type
  | captured c => c.type

end Lookup

structure Frame where
  names : Table String Local := {}
  depth : Nat := 0
  /-- Names that are shadowed, with the depth of the block that shadows them; latest first. -/
  shadowed : List (Nat × Local) := []
  captures : List Capture := []
deriving Inhabited

namespace Frame

/-- Declare a name in the current block; refused when the block has it. -/
def declare (f : Frame) (l : Local) : Except Span Frame :=
  let l := { l with depth := f.depth }
  match f.names.find? l.name with
  | some old =>
    if old.depth == f.depth then .error old.span
    else
      .ok { f with
        names := f.names.insert l.name l
        shadowed := (f.depth, old) :: f.shadowed }
  | none => .ok { f with names := f.names.insert l.name l }

def restore (depth : Nat) :
    List (Nat × Local) → Table String Local → List (Nat × Local) × Table String Local
  | [], names => ([], names)
  | (d, l) :: rest, names =>
    if d == depth then restore depth rest (names.insert l.name l) else ((d, l) :: rest, names)

def byDecl (l : List Local) : List Local := orderBy (·.decl) l

/-- Leave the current block; its names come back in the order of their declarations. -/
def leave (f : Frame) : List Local × Frame :=
  let removed := f.names.values.filter fun l => decide (f.depth ≤ l.depth)
  let kept := f.names.entries.filter fun e => decide (e.2.depth < f.depth)
  let (shadowed, names) := restore f.depth f.shadowed ⟨kept⟩
  (byDecl removed, { f with names, shadowed, depth := f.depth - 1 })

/-- Everything still declared, shadowed names included; the frame is left empty. -/
def drain (f : Frame) : List Local × Frame :=
  (byDecl (f.names.values ++ f.shadowed.map (·.2)), { f with names := {}, shadowed := [] })

end Frame

structure Scope where
  frame : Frame := {}
  outer : List Frame := []
deriving Inhabited

namespace Scope

def enter (s : Scope) : Scope := { s with frame := { s.frame with depth := s.frame.depth + 1 } }

def leave (s : Scope) : List Local × Scope :=
  let (removed, frame) := s.frame.leave
  (removed, { s with frame })

def drain (s : Scope) : List Local × Scope :=
  let (all, frame) := s.frame.drain
  (all, { s with frame })

def nested (s : Scope) : Scope := { outer := s.frame :: s.outer }

def parent? (s : Scope) : Option Scope :=
  match s.outer with
  | [] => none
  | f :: rest => some ⟨f, rest⟩

def declare (s : Scope) (l : Local) : Except Span Scope :=
  (s.frame.declare l).map fun frame => { s with frame }

def setType (s : Scope) (name : String) (t : StaticType) : Scope :=
  { s with frame :=
      { s.frame with names := s.frame.names.modify name fun l => { l with type := t } } }

def find? (s : Scope) (name : String) : Option Local := s.frame.names.find? name

/-- Find a name in a frame or in the frames around it, recording a capture in every frame it had to
pass. -/
def captureIn (name : String) : Frame → List Frame → Option Lookup × Frame × List Frame
  | f, outer =>
    match f.names.find? name with
    | some l => (some (.here l), f, outer)
    | none =>
      match f.captures.find? (·.name == name) with
      | some c => (some (.captured c), f, outer)
      | none =>
        match outer with
        | [] => (none, f, [])
        | g :: rest =>
          match captureIn name g rest with
          | (some found, g, rest) =>
            let c : Capture :=
              { name, decl := found.decl, type := found.type, index := f.captures.length }
            (some (.captured c), { f with captures := f.captures ++ [c] }, g :: rest)
          | (none, g, rest) => (none, f, g :: rest)

def lookup (s : Scope) (name : String) : Option Lookup × Scope :=
  let (found, frame, outer) := captureIn name s.frame s.outer
  (found, ⟨frame, outer⟩)

def isLocal (s : Scope) (name : String) : Bool := s.frame.names.contains name

def isVisible (s : Scope) (name : String) : Bool :=
  (s.frame :: s.outer).any (·.names.contains name)

end Scope

end HotScript
