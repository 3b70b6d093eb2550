import HotScript.Lower.Name

/-!
Assignments through a chain of containers.

Assigning to `items[2].position.x` reads every container on the way into a temporary, sets the
innermost element, and writes the containers back outward, up to the first that is shared; where
that is not known it is asked when the program runs.
-/

namespace HotScript

inductive ElementKey
  | named (place : Nat)
  | keyed (key : Operand)

/-- Where the root of a chain is written back to. -/
inductive RootWrite
  | inPlace
  | member (owner : ClassRef) (name : String)
  | static (owner : ClassRef) (name : String)
  | property (name : String)

structure ChainStep where
  key : ElementKey
  container : Operand
  type : StaticType

structure Chain where
  root : Operand
  rootType : StaticType
  write : RootWrite
  /-- The containers below the root, innermost first. -/
  steps : List ChainStep := []

namespace Chain

def containerOf (root : Operand) : List ChainStep → Operand
  | [] => root
  | s :: _ => s.container

def innermost (c : Chain) : Operand := containerOf c.root c.steps

end Chain

namespace Lower

def getElement (container : Operand) (key : ElementKey) : Lower Operand := do
  let dst ← temporary
  match key with
  | .named name => emit .getNamed [dst.word, container.word, name]
  | .keyed key => emit .getKeyed [dst.word, container.word, key.word]
  return dst

def setElement (container : Operand) (key : ElementKey) (value : Operand) : Lower Unit :=
  match key with
  | .named name => emit .setNamed [container.word, name, value.word]
  | .keyed key => emit .setKeyed [container.word, key.word, value.word]

def memberKey (name : String) : Lower ElementKey :=
  return .named (← namePlace name)

def indexKey (index : Lower Operand) : Lower ElementKey :=
  return .keyed (← materialize (← index))

def releaseKey : ElementKey → Lower Unit
  | .named _ => pure ()
  | .keyed key => release key

/-- Leave the writing back when a container is shared, known or found at run time.  Gives whether it
is over, and the jump that leaves. -/
def unlessShared (container : Operand) (type : StaticType) : Lower (Bool × List Nat) := do
  match type.isShared? with
  | some true => return (true, [])
  | some false => return (false, [])
  | none => return (false, [← emitJump .jumpIfShared [container.word]])

/-- Write containers back into the ones around them, innermost first. Gives whether it stopped
before the root, and the jumps that leave. -/
def writeBack (root : Operand) : List ChainStep → Lower (Bool × List Nat)
  | [] => return (false, [])
  | s :: rest => do
    let (ended, exits) ← unlessShared s.container s.type
    if ended then return (true, exits)
    else
      setElement (Chain.containerOf root rest) s.key s.container
      let (ended, more) ← writeBack root rest
      return (ended, exits ++ more)

end Lower

namespace Plan

open Lower

variable (p : Plan)

/-- Whether a chain begins at a member access: it is read as a whole. -/
def startsChain (f : ExprFacts) : Bool :=
  f.value.isSome ||
    match f.referent with
    | some (.staticVariable ..) | some (.scriptClass _) | some (.nativeClass _) => true
    | _ => false

def chainRoot (e : Expr) (f : ExprFacts) (whole : Lower Operand) : Lower Chain := do
  let rootType := p.typeOf e
  match e, f.referent with
  | _, some (.staticVariable owner name) =>
    return { root := ← p.readStatic owner name, rootType, write := .static owner name }
  | .ident .., some (.memberVariable owner name) =>
    let slot ← p.memberSlot owner name
    if (slot.getter.isNone && slot.setter.isNone) || p.accessorOf.contains name then
      return { root := { address := .member slot.index }, rootType, write := .inPlace }
    else
      let root ← materialize (← p.readMember owner name)
      return { root, rootType, write := .member owner name }
  | .ident _ name, some (.nativeProperty _) =>
    return { root := ← whole, rootType, write := .property name }
  | _, _ => return { root := ← whole, rootType, write := .inPlace }

def descend (c : Chain) (e : Node) (key : Lower ElementKey) : Lower Chain := do
  let key ← key
  let container ← getElement c.innermost key
  return { c with steps := { key, container, type := p.facts.exprType e.id } :: c.steps }

def writeRoot (c : Chain) : Lower Unit := do
  match c.write with
  | .inPlace => pure ()
  | .member owner name =>
    let slot ← p.memberSlot owner name
    match slot.setter with
    | some setter => emitList .callSelf [Address.nil.encode, ← namePlace setter] 1 [c.root.word]
    | none => emit .assign [(Address.member slot.index).encode, c.root.word]
  | .static owner name =>
    let slot ← p.staticSlot owner name
    let cls ← classPlace owner
    match p.accessor? name slot.setter with
    | some setter =>
      emitList .callStatic [Address.nil.encode, cls, ← namePlace setter] 1 [c.root.word]
    | none => emit .setStatic [cls, slot.index, c.root.word]
  | .property name => emit .setNamed [Address.self.encode, ← namePlace name, c.root.word]

/-- Write the root back unless it is changed in place or shared; gives the jumps that leave. -/
def writeBackRoot (c : Chain) : Lower (List Nat) := do
  match c.write with
  | .inPlace => return []
  | _ =>
    let (ended, exits) ← unlessShared c.root c.rootType
    if !ended then p.writeRoot c
    return exits

def assignElement (op : Option BinaryOp) (c : Chain) (key : Lower ElementKey) (type : StaticType)
    (rhs : Lower Operand) (source : StaticType) : Lower Unit := do
  let key ← key
  let old ← current op (getElement c.innermost key)
  let (value, valueType) ← assigned op old rhs source
  let value ← convert value type valueType
  setElement c.innermost key value
  release value
  let (ended, exits) ← writeBack c.root c.steps
  let more ← if ended then pure [] else p.writeBackRoot c
  patchAll (exits ++ more)
  release c.root
  releaseAll (c.steps.reverse.map (·.container))
  (c.steps.reverse.map (·.key)).forM releaseKey
  releaseKey key

end Plan

end HotScript
