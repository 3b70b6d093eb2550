import HotScript.Live.Instance

/-!
Running compiled functions.

An activation is a function with its stack. Each instruction reads its operands, does one thing and
says how to go on. Instructions that need a richer host (types at run time, iteration, waiting)
fail.
-/

namespace HotScript

inductive Progress
  | next (a : Activation)
  | jump (a : Activation) (target : Nat)
  | done (v : Value)

namespace Activation

def start (script : ScriptId) (function : FunctionCode) (bound : Option InstanceId)
    (args : List Value) : Activation :=
  { script, function, bound
    stack := args.toArray ++ Array.replicate (function.stackSize - args.length) .nil }

def fault (a : Activation) (message : String) : CallFault := .execution a.function.name message

def put (a : Activation) (slot : Nat) (v : Value) : Activation :=
  if slot < a.stack.size then { a with stack := a.stack.setIfInBounds slot v }
  else { a with stack := (a.stack ++ Array.replicate (slot - a.stack.size) Value.nil).push v }

def constant? (a : Activation) (place : Nat) : Option Constant := a.function.pool.get? place

end Activation

namespace Attempt

variable (r : Runner)

/-! ### Values in the hands of a function -/

/-- Call a lambda of a class with what it captured; it has no function once a reload removed it. -/
def callLambda (name : String) (function : Option FunctionCode) (s : ScriptId)
    (captures : List Value) (bound : Option InstanceId) (args : List Value) : Attempt Value := do
  match function with
  | none => throw (.execution name "the lambda was removed by a reload")
  | some f =>
    let w ← get
    if w.isScriptAlive s && bound.all w.isInstanceAlive then r.execute s f bound (captures ++ args)
    else throw .instanceIsNull

def callCallable (c : Callable) (args : List Value) : Attempt Value := do
  match c with
  | .method o name => callObject r o name args
  | .custom id name =>
    let w ← get
    match w.closures[id]? with
    | none => throw .instanceIsNull
    | some (.lambda table place s captures bound) =>
      callLambda r name ((w.lambdaTable table).get? place) s captures bound args
    | some (.method i name) =>
      if w.isInstanceAlive i then callMethod r i name args else throw .instanceIsNull
    | some (.static s name) =>
      if w.isScriptAlive s then holding [.script s] (callStatic r s name args)
      else throw .instanceIsNull

def getNamed (base : Value) (name : String) : Live (Option Value) := do
  let w ← get
  match base with
  | .object o =>
    match w.attached? o with
    | some i => Live.getMember r i name
    | none => Live.getProperty o name
  | .dictionary d => return w.heap.lookupDict d (.string name)
  | _ => return none

def setNamed (base : Value) (name : String) (v : Value) : Live Bool := do
  match base with
  | .object o =>
    match (← get).attached? o with
    | some i => Live.setByName r i name v
    | none => Live.setProperty o name v
  | .dictionary d => Live.onHeap fun h => h.insertDict d (.string name) v
  | _ => return false

def callNamed (base : Value) (name : String) (args : List Value) : Attempt Value := do
  match base with
  | .object o =>
    match (← get).attached? o with
    | some i => callMethod r i name args
    | none => callObject r o name args
  | .callable c => if name = "call" then callCallable r c args else throw (.invalidMethod name)
  | _ => throw (.invalidMethod name)

def element? (h : Heap) (base key : Value) : Option Value :=
  match base, key with
  | .array a, .int i => if 0 ≤ i then (h.items a)[i.toNatClampNeg]? else none
  | .dictionary d, key => h.lookupDict d key
  | _, _ => none

def setElement (base key v : Value) : Live Bool :=
  match base, key with
  | .array a, .int i =>
    if 0 ≤ i then Live.onHeap fun h => h.storeAt a i.toNatClampNeg v else return false
  | .dictionary d, key => Live.onHeap fun h => h.insertDict d key v
  | _, _ => return false

/-! ### Operands -/

variable (a : Activation)

def bound : Attempt InstanceId :=
  match a.bound with
  | some i => return i
  | none => throw .instanceIsNull

def readAddress (address : Address) : Attempt Value := do
  match address with
  | .stack slot => return a.stack[slot]?.getD .nil
  | .constant place =>
    match a.constant? place with
    | some (.value v) => return v
    | some (.cls cls) =>
      match ← Live.resolveClass r a.script cls with
      | some s => Live.classValue s
      | none => throw (a.fault ("class " ++ cls.qualified ++ " is not loaded"))
    | some (.name s) | some (.native s) => return .stringName s
    | _ => throw (a.fault ("constant " ++ toString place ++ " is not a value"))
  | .member slot => return ((← get).member? (← bound a) slot).getD .nil
  | .self =>
    match a.bound with
    | none => Live.classValue a.script
    | some i =>
      match (← get).owner? i with
      | some o => return .object o
      | none => throw .instanceIsNull
  | .nil => return .nil

def writeAddress (address : Address) (v : Value) : Attempt Activation := do
  match address with
  | .stack slot => return a.put slot v
  | .member slot =>
    if ← Live.setMember (← bound a) slot v then return a
    else throw (a.fault ("no member slot " ++ toString slot))
  | .nil => return a
  | .constant _ | .self => throw (a.fault "write to a read-only address")

variable (i : Instr)

def addressAt (n : Nat) : Attempt Address :=
  match i.address? n with
  | some address => return address
  | none => throw (a.fault ("bad address operand " ++ toString n))

def wordAt (n : Nat) (missing : String) : Attempt Nat :=
  match i.word? n with
  | some word => return word
  | none => throw (a.fault missing)

def read (n : Nat) : Attempt Value := do readAddress r a (← addressAt a i n)

/-- Go on with the value of an operand, which stays alive until the instruction is done. -/
def operand {α : Type} (n : Nat) (go : Value → Attempt α) : Attempt α := do
  let v ← read r a i n
  holding (Value.cells [v]) (go v)

/-- Go on with the values at encoded addresses, each alive from when it is read. -/
def valuesAt {α : Type} : List Nat → (List Value → Attempt α) → Attempt α
  | [], go => go []
  | word :: rest, go => do
    match Address.decode? word with
    | some address =>
      let v ← readAddress r a address
      holding (Value.cells [v]) (valuesAt rest fun vs => go (v :: vs))
    | none => throw (a.fault "bad address")

/-- Go on with the values of the operands behind the fixed ones. -/
def trailing {α : Type} (go : List Value → Attempt α) : Attempt α := valuesAt r a i.trailing go

def holds (n : Nat) : Attempt Bool := operand r a i n fun v => do return (← get).truthy v

def nameAt (n : Nat) : Attempt String := do
  let place ← wordAt a i n "missing name operand"
  match (a.constant? place).bind (·.name?) with
  | some name => return name
  | none => throw (a.fault ("constant " ++ toString place ++ " is not a name"))

def typeAt (n : Nat) : Attempt StaticType := do
  let place ← wordAt a i n "missing type operand"
  match (a.constant? place).bind (·.type?) with
  | some type => return type
  | none => throw (a.fault ("constant " ++ toString place ++ " is not a type"))

def scriptAt (n : Nat) : Attempt ScriptId := do
  let place ← wordAt a i n "missing class operand"
  match a.constant? place with
  | some (.cls cls) =>
    match ← Live.resolveClass r a.script cls with
    | some s => return s
    | none => throw (a.fault ("class " ++ cls.qualified ++ " is not loaded"))
  | _ => throw (a.fault ("constant " ++ toString place ++ " is not a class"))

def result (v : Value) :
    Attempt Progress := do return .next (← writeAddress a (← addressAt a i 0) v)

def goTo (n : Nat) : Attempt Progress := do return .jump a (← wordAt a i n "missing jump target")

/-! ### Builtin functions -/

def callBuiltin (base : Value) (name : String) (args : List Value) : Attempt Value := do
  match base, name with
  | .array x, "size" => return .int (Int64.ofNat ((← get).heap.items x).length)
  | .array x, "append" | .array x, "push_back" =>
    args.forM fun v => do let _ ← sure (Live.onHeap fun h => h.push x v)
    return .nil
  | .array x, "has" =>
    let h := (← get).heap
    return .bool (args.head?.any (h.hasItem x))
  | .string s, "length" => return .int (Int64.ofNat s.length)
  | _, _ => throw (a.fault ("unsupported builtin method " ++ Text.quoted name))

def callUtility (name : String) (args : List Value) : Attempt Value := do
  let h := (← get).heap
  match name, args with
  | "len", [.array x] => return .int (Int64.ofNat (h.items x).length)
  | "len", [.string s] => return .int (Int64.ofNat s.length)
  | "str", args => return .string (Text.join "" (args.map h.text))
  | "abs", [.int n] => return .int (if n < 0 then -n else n)
  | "print", _ => return .nil
  | _, _ => throw (a.fault ("unsupported utility " ++ Text.quoted name))

def makeValue (type : StaticType) (args : List Value) : Attempt Value := do
  match args, type.tag? with
  | [], _ => sure (Live.onHeap fun h => h.defaultValue type)
  | [v], some tag =>
    match (← get).heap.convert v tag with
    | some v => return v
    | none => throw (a.fault ("cannot construct " ++ Text.quoted type.text))
  | _, _ => throw (a.fault ("unsupported constructor of " ++ Text.quoted type.text))

def makeObject (cls : Value) (args : List Value) : Attempt Value := do
  match cls with
  | .object o => callObject r o "new" args
  | .stringName native =>
    match ← Live.instantiate native with
    | some o => return .object o
    | none => throw (a.fault ("cannot instantiate " ++ Text.quoted native))
  | _ => throw (a.fault "not a class")

def pairs : List Value → List (Value × Value)
  | k :: v :: rest => (k, v) :: pairs rest
  | _ => []

/-! ### Instructions -/

def step : Attempt Progress := do
  match i.op with
  | .assign => result a i (← read r a i 1)
  | .assignTyped =>
    let v ← read r a i 1
    let type ← typeAt a i 2
    match ← Live.fitTo type v with
    | some v => result a i v
    | none => throw (a.fault ("value does not fit " ++ Text.quoted type.text))
  | .operator =>
    operand r a i 1 fun x => operand r a i 2 fun y => do
      match (i.word? 3).bind Operator.ofCode? with
      | none => throw (a.fault "bad operator")
      | some op =>
        let w ← get
        match op.result? w.heap w.isCallable x y with
        | none => throw (a.fault ("invalid operands for " ++ op.title))
        | some (v, h) =>
          set (w.withHeap h)
          result a i v
  | .jump => goTo a i 0
  | .jumpIf => if ← holds r a i 0 then goTo a i 1 else return .next a
  | .jumpIfNot => if ← holds r a i 0 then return .next a else goTo a i 1
  | .jumpIfShared => if (← read r a i 0).tag.isShared then goTo a i 1 else return .next a
  | .giveBack => return .done (← read r a i 0)
  | .assert =>
    if ← holds r a i 0 then return .next a else throw (a.fault "assertion failed")
  | .constructArray =>
    trailing r a i fun items => do
      result a i (← sure (Live.onHeap fun h => h.arrayOf items))
  | .constructDictionary =>
    trailing r a i fun items => do
      result a i (.dictionary (← sure (Live.onHeap fun h => h.dictOf (pairs items) none none)))
  | .construct =>
    let type ← typeAt a i 1
    trailing r a i fun args => do result a i (← makeValue a type args)
  | .getNamed =>
    operand r a i 1 fun base => do
      let name ← nameAt a i 2
      result a i ((← sure (getNamed r base name)).getD .nil)
  | .setNamed =>
    operand r a i 0 fun base => do
      let name ← nameAt a i 1
      operand r a i 2 fun v => do
        if ← sure (setNamed r base name v) then return .next a
        else throw (a.fault ("cannot set " ++ Text.quoted name))
  | .getKeyed =>
    operand r a i 1 fun base => operand r a i 2 fun key => do
      let h := (← get).heap
      match element? h base key with
      | some v => result a i v
      | none => throw (a.fault ("invalid key " ++ h.text key))
  | .setKeyed =>
    operand r a i 0 fun base => operand r a i 1 fun key => operand r a i 2 fun v => do
      if ← setElement base key v then return .next a
      else throw (a.fault ("cannot set key " ++ (← get).heap.text key))
  | .getStatic =>
    let s ← scriptAt r a i 1
    let slot ← wordAt a i 2 "missing slot"
    result a i (((← get).script s).statics[slot]?.getD .nil)
  | .setStatic =>
    let s ← scriptAt r a i 0
    let slot ← wordAt a i 1 "missing slot"
    let v ← holding [.script s] (read r a i 2)
    if ← Live.setStaticValue s slot v then return .next a
    else throw (a.fault "static value does not fit")
  | .getGlobal =>
    let name ← nameAt a i 1
    result a i (((← get).registry.globalConstant? name).getD .nil)
  | .call =>
    operand r a i 1 fun base => do
      let name ← nameAt a i 2
      trailing r a i fun args => do result a i (← callNamed r base name args)
  | .callSelf =>
    let name ← nameAt a i 1
    trailing r a i fun args => do
      match a.bound with
      | some self => result a i (← callMethod r self name args)
      | none => result a i (← callStatic r a.script name args)
  | .callSelfBase =>
    let name ← nameAt a i 1
    trailing r a i fun args => do
      let w ← get
      match ((w.script a.script).base).bind (w.function? · name) with
      | some (level, f) => result a i (← invoke r level f a.bound args)
      | none => throw (a.fault ("no base implementation of " ++ Text.quoted name))
  | .callStatic =>
    let s ← scriptAt r a i 1
    let name ← nameAt a i 2
    holding [.script s] <| trailing r a i fun args => do
      result a i (← callStatic r s name args)
  | .callBuiltin =>
    operand r a i 1 fun base => do
      let name ← nameAt a i 2
      trailing r a i fun args => do result a i (← callBuiltin a base name args)
  | .callUtility =>
    let name ← nameAt a i 1
    trailing r a i fun args => do result a i (← callUtility a name args)
  | .callCallable =>
    operand r a i 1 fun f => trailing r a i fun args => do
      match f with
      | .callable c => result a i (← callCallable r c args)
      | _ => throw (a.fault "value is not callable")
  | .new =>
    operand r a i 1 fun cls => trailing r a i fun args => do
      result a i (← makeObject r a cls args)
  | .createLambda | .createSelfLambda =>
    let place ← wordAt a i 1 "missing lambda index"
    trailing r a i fun captures => do
      let self := if i.op = .createSelfLambda then a.bound else none
      match ← Live.createLambda a.script place captures self with
      | some v => result a i v
      | none => throw (a.fault ("no lambda " ++ toString place))
  | op => throw (a.fault ("unsupported opcode " ++ op.name))

end Attempt

namespace Attempt

variable (r : Runner)

def during {α : Type} (a : Activation) (act : Attempt α) : Attempt α :=
  ExceptT.mk do
    modify fun w => { w with frames := a :: w.frames }
    let v ← act.run
    modify fun w => { w with frames := w.frames.tail }
    return v

def runFrom : Nat → Activation → Nat → Attempt Value
  | 0, _, _ => sure failure
  | n + 1, a, offset => do
    match a.function.chunk.instr? offset with
    | none => throw (a.fault ("no instruction at " ++ toString offset))
    | some i =>
      match ← during a (step r a i) with
      | .next a => runFrom n a i.next
      | .jump a target => runFrom n a target
      | .done v => return v

def patience : Nat := 0x1000000000000

/-- Run a function. Calls may only nest so deep. The arguments stay alive to the end, also when the
function has overwritten them. -/
def execute (s : ScriptId) (f : FunctionCode) (self : Option InstanceId) (args : List Value) :
    Attempt Value := do
  let w ← get
  if !w.runs then throw (.execution f.name "no executor is installed")
  modify fun w => { w with log := ((w.script s).name ++ ":" ++ f.name) :: w.log }
  if w.settings.maxCallDepth ≤ w.depth then throw (.execution f.name "stack overflow")
  modify fun w => { w with depth := w.depth + 1 }
  let v ← outcome <| holding (Value.cells args) <|
    runFrom r patience (.start s f self args) (f.entry (args.length - f.captures))
  modify fun w => { w with depth := w.depth - 1 }
  match v with
  | .ok v => return v
  | .error fault => throw fault

end Attempt

end HotScript
