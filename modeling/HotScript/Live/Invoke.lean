import HotScript.Live.Script

/-!
Calling functions of scripts and reaching their static side.

Running the code of a function and bringing in a file lead back to everything else. Both come as a
`Runner`.
-/

namespace HotScript

/-- What the operations on scripts need from elsewhere. -/
structure Runner where
  /-- Run a function of a script on an instance; the values are those a lambda captured, then the
  arguments. -/
  execute : ScriptId → FunctionCode → Option InstanceId → List Value → Attempt Value
  /-- The script of a file, compiled; with `true` the file is looked at again. -/
  full : String → Bool → Live (Except ScriptFault ScriptId)

namespace Live

def fitTo (type : StaticType) (v : Value) : Live (Option Value) :=
  modifyGet fun w =>
    match (fit w.kinship type v).run w.heap with
    | some (v, h) => (some v, w.withHeap h)
    | none => (none, w)

def slotDefault (type : StaticType) : Live Value := onHeap fun h => h.slotDefault type

/-! ### Static variables and constants -/

def classValue (s : ScriptId) : Live Value :=
  modifyGet fun w =>
    match (w.script s).classObject with
    | some o => (.object o, w)
    | none =>
      let (o, w) := w.addObject "Script" (.cls s)
      (.object o, w.modifyScript s fun c => { c with classObject := some o })

def ownConstant (name : String) (s : ScriptId) (code : ClassCode) : Live (Option Value) := do
  match code.constants.find? name with
  | some v => return some v
  | none =>
    match ((← get).script s).inner.find? name with
    | some inner => return some (← classValue inner)
    | none => return none

def findConstant (name : String) : List (ScriptId × ClassCode) → Live (Option Value)
  | [] => return none
  | (s, code) :: rest => do
    match ← ownConstant name s code with
    | some v => return some v
    | none => findConstant name rest

def lookupStatic (s : ScriptId) (name : String) : Live (Option Value) := do
  let w ← get
  match w.staticSlot? s name with
  | some (level, slot) => return (w.script level).statics[slot.index]?
  | none => findConstant name (w.codeChain s)

/-- Store into a static variable that a class declares itself; refused when the value does not
fit. -/
def setStaticValue (s : ScriptId) (index : Nat) (v : Value) : Live Bool := do
  let c := (← get).script s
  match c.code.bind fun code => code.statics.values.find? (·.index == index) with
  | none => return false
  | some slot =>
    match ← fitTo slot.type v with
    | none => return false
    | some v =>
      if index < c.statics.size then
        modify fun w => w.modifyScript s fun c =>
          { c with statics := c.statics.setIfInBounds index v }
        return true
      else return false

/-- Store into the static variable of a name; nothing when there is none. -/
def setStatic (s : ScriptId) (name : String) (v : Value) : Live (Option Bool) := do
  match (← get).staticSlot? s name with
  | some (level, slot) => return some (← setStaticValue level slot.index v)
  | none => return none

/-- Read a name on a class: static variables, constants and inner classes, static functions. -/
def readStatic (s : ScriptId) (name : String) : Live (Option Value) := do
  match ← lookupStatic s name with
  | some v => return some v
  | none =>
    match (← get).function? s name with
    | some (level, f) =>
      if f.isStatic then some <$> modifyGet fun w => w.addClosure name (.static level name)
      else return none
    | none => return none

def constants (s : ScriptId) : Live (Table String Value) := do
  let c := (← get).script s
  match c.code with
  | none => return {}
  | some code =>
    c.inner.entries.foldlM (fun t e => return t.insert e.1 (← classValue e.2)) code.constants

/-- Make a callable of the lambda at a place of a class. -/
def createLambda (s : ScriptId) (place : Nat) (captures : List Value) (bound : Option InstanceId) :
    Live (Option Value) :=
  modifyGet fun w =>
    match w.scripts[s]?.map (·.lambdas) with
    | none => (none, w)
    | some table =>
      match (w.lambdaTable table).get? place with
      | none => (none, w)
      | some f =>
        let (v, w) := w.addClosure f.name (.lambda table place s captures bound)
        (some v, w)

/-- The class that code refers to, in its own file or in another that is loaded for it. -/
def resolveClass (r : Runner) (s : ScriptId) (cls : ClassRef) : Live (Option ScriptId) := do
  let w ← get
  if cls.path = (w.script s).path then return w.memberClass? s cls
  else
    match ← r.full cls.path false with
    | .error _ => return none
    | .ok file => return (← get).memberClass? file cls

end Live

namespace Attempt

/-- The arguments from the place `i` on, each converted to the type of its parameter. -/
def fitArguments (f : FunctionCode) : Nat → List Value → Attempt (List Value)
  | _, [] => return []
  | i, v :: rest => do
    let fitted ← match f.argTypes[i]? with
      | none => pure v
      | some type =>
        match ← Live.fitTo type v with
        | some v => pure v
        | none => throw (.invalidArgument f.name i type.text)
    return fitted :: (← fitArguments f (i + 1) rest)

/-- Call a function of a script: the number of arguments is checked and each is fitted to its type.
The arguments stay alive as they were given, too. -/
def invoke (r : Runner) (s : ScriptId) (f : FunctionCode) (bound : Option InstanceId)
    (args : List Value) : Attempt Value := do
  if args.length < f.least then throw (.tooFewArguments f.name f.least args.length)
  if f.arity < args.length then throw (.tooManyArguments f.name f.arity args.length)
  let fitted ← fitArguments f 0 args
  holding (Value.cells args) (r.execute s f (if f.isStatic then none else bound) fitted)

def callStatic (r : Runner) (s : ScriptId) (name : String) (args : List Value) : Attempt Value := do
  match (← get).function? s name with
  | none => throw (.invalidMethod name)
  | some (level, f) => if f.isStatic then invoke r level f none args else throw .instanceIsNull

end Attempt

end HotScript
