import HotScript.Lower.Emit

/-!
Names and calls.

What a name or a callee means has been found out by the analysis; here each meaning gets its
instructions. Evaluating parts is left to the caller.
-/

namespace HotScript

/-- The object or class that a method is called on, and the step that evaluates it. -/
structure Receiver where
  node : Node
  value : Lower Operand

namespace Plan

open Lower

variable (p : Plan)

def getNamed (base : Operand) (name : String) : Lower Operand := do
  let dst ← temporary
  emit .getNamed [dst.word, base.word, ← namePlace name]
  release base
  return dst

def readMember (owner : ClassRef) (name : String) : Lower Operand := do
  let slot ← p.memberSlot owner name
  match p.accessor? name slot.getter with
  | some getter =>
    let dst ← temporary
    emitList .callSelf [dst.word, ← namePlace getter] 0 []
    return dst
  | none => return { address := .member slot.index }

def readStatic (owner : ClassRef) (name : String) : Lower Operand := do
  let slot ← p.staticSlot owner name
  let cls ← classPlace owner
  let dst ← temporary
  match p.accessor? name slot.getter with
  | some getter => emitList .callStatic [dst.word, cls, ← namePlace getter] 0 []
  | none => emit .getStatic [dst.word, cls, slot.index]
  return dst

def readName (n : Node) (name : String) (f : ExprFacts) : Lower Operand := do
  match f.referent with
  | none => internal ("identifier \"" ++ name ++ "\" was not resolved") n.span
  | some referent =>
    match referent with
    | .local decl _ => return { address := ← localAddress decl n.span }
    | .memberVariable owner name => p.readMember owner name
    | .staticVariable owner name => p.readStatic owner name
    | .memberConstant _ name =>
      match f.type.class? with
      | some cls => classOperand cls
      | none => internal ("constant \"" ++ name ++ "\" has no value") n.span
    | .memberFunction owner _ true => getNamed (← classOperand owner) name
    | .memberFunction _ _ false | .memberSignal .. | .nativeProperty _ | .nativeMethod _
    | .nativeSignal _ | .nativeConstant _ => getNamed .self name
    | .scriptClass cls => classOperand cls
    | .nativeClass cls => nativeOperand cls
    | .builtinType tag => return { address := .constant (← typePlace (.builtin tag)) }
    | .singleton _ | .globalConstant | .utility =>
      let dst ← temporary
      emit .getGlobal [dst.word, ← namePlace name]
      return dst

def readField (name : String) (f : ExprFacts) (base : Lower Operand) : Lower Operand := do
  match f.referent with
  | some (.staticVariable owner name) => p.readStatic owner name
  | some (.scriptClass cls) => classOperand cls
  | some (.nativeClass cls) => nativeOperand cls
  | _ => getNamed (← base) name

def writeMember (owner : ClassRef) (name : String) (value : Operand) (source : StaticType) :
    Lower Unit := do
  let slot ← p.memberSlot owner name
  match p.accessor? name slot.setter with
  | some setter =>
    let value ← convert value slot.type source
    emitList .callSelf [Address.nil.encode, ← namePlace setter] 1 [value.word]
    release value
  | none =>
    store (.member slot.index) value slot.type source
    release value

def writeStatic (owner : ClassRef) (name : String) (value : Operand) (source : StaticType) :
    Lower Unit := do
  let slot ← p.staticSlot owner name
  let value ← convert value slot.type source
  let cls ← classPlace owner
  match p.accessor? name slot.setter with
  | some setter => emitList .callStatic [Address.nil.encode, cls, ← namePlace setter] 1 [value.word]
  | none => emit .setStatic [cls, slot.index, value.word]
  release value

/-- The value to store with its type: what `rhs` evaluates, or what an operator makes of it and the
current value. -/
def assigned (op : Option BinaryOp) (current : Operand) (rhs : Lower Operand)
    (source : StaticType) : Lower (Operand × StaticType) := do
  let right ← rhs
  match op with
  | none => return (right, source)
  | some op =>
    let dst ← temporary
    emitOperator dst current right op.operator
    releaseAll [current, right]
    return (dst, .variant)

def current (op : Option BinaryOp) (read : Lower Operand) : Lower Operand :=
  if op.isSome then read else return .nil

def assignStatic (op : Option BinaryOp) (owner : ClassRef) (name : String) (rhs : Lower Operand)
    (source : StaticType) : Lower Unit := do
  let old ← current op (p.readStatic owner name)
  let (value, type) ← assigned op old rhs source
  p.writeStatic owner name value type

/-- Assign to a name that stands alone and is no static variable. -/
def assignName (op : Option BinaryOp) (n : Node) (name : String) (f : ExprFacts) (target : Referent)
    (rhs : Lower Operand) (source : StaticType) : Lower Unit := do
  match target with
  | .local decl _ =>
    let slot ← localAddress decl n.span
    let (value, type) ← assigned op { address := slot } rhs source
    store slot value f.type type
    release value
  | .memberVariable owner name =>
    let old ← current op (p.readMember owner name)
    let (value, type) ← assigned op old rhs source
    p.writeMember owner name value type
  | .nativeProperty _ =>
    let place ← namePlace name
    let old ← current op do
      let dst ← temporary
      emit .getNamed [dst.word, Address.self.encode, place]
      return dst
    let (value, _) ← assigned op old rhs source
    emit .setNamed [Address.self.encode, place, value.word]
    release value
  | _ => internal ("cannot assign to \"" ++ name ++ "\"") n.span

/-- Call a method on what the receiver evaluates; `head` stands between the receiver and the
name. -/
def callOn (op : Opcode) (receiver : Lower Operand) (args : Lower (List Operand))
    (head : Lower (List Nat)) : Lower Operand := do
  let base ← receiver
  let args ← args
  let dst ← emitCall op (base.word :: (← head)) args
  release base
  return dst

def callNative (cls name : String) (exact : Bool) (receiver : Option Receiver)
    (args : Lower (List Operand)) : Lower Operand := do
  let onClass ← match receiver with
    | some r => pure (← p.factsOf r.node).type.isMeta
    | none => pure ((p.registry.method? cls name).any (·.isStatic))
  if onClass then
    let args ← args
    emitCall .callNativeStatic [← nativePlace cls, ← namePlace name] args
  else
    let base := match receiver with
      | some r => r.value
      | none => return .self
    if exact then
      callOn .callMethodBind base args do
        let name ← namePlace name
        return [← nativePlace cls, name]
    else callOn .call base args (return [← namePlace name])

def call (n : Node) (d : Dispatch) (receiver : Option Receiver) (whole : Lower Operand)
    (args : Lower (List Operand)) : Lower Operand := do
  match d with
  | .self name isStatic =>
    let args ← args
    let name ← namePlace name
    if isStatic then emitCall .callStatic [← classPlace p.cls, name] args
    else emitCall .callSelf [name] args
  | .super name =>
    let args ← args
    emitCall .callSelfBase [← namePlace name] args
  | .script name _ onInstance =>
    match receiver with
    | none => internal "method call without a receiver" n.span
    | some r =>
      if onInstance then callOn .call r.value args (return [← namePlace name])
      else
        match (← p.factsOf r.node).type.class? with
        | none => internal "static call on an unknown class" n.span
        | some cls =>
          let args ← args
          let cls ← classPlace cls
          emitCall .callStatic [cls, ← namePlace name] args
  | .native cls name exact => p.callNative cls name exact receiver args
  | .builtin _ name =>
    match receiver with
    | none => internal "builtin method call without a receiver" n.span
    | some r => callOn .callBuiltin r.value args (return [← namePlace name])
  | .utility name =>
    let args ← args
    emitCall .callUtility [← namePlace name] args
  | .construct tag =>
    let args ← args
    emitCall .construct [← typePlace (.builtin tag)] args
  | .new =>
    match receiver with
    | none => internal "constructor call without a class" n.span
    | some r => callOn .new r.value args (return [])
  | .callable => callOn .callCallable whole args (return [])
  | .dynamic name =>
    match receiver with
    | some r => callOn .call r.value args (return [← namePlace name])
    | none =>
      let args ← args
      emitCall .callSelf [← namePlace name] args

end Plan

end HotScript
