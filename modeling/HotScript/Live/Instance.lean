import HotScript.Live.Object

/-!
Instances: reading, writing and calling by name.

A name is looked for among the variables of the chain, on the static side of the class, and among
functions and signals; then the script may answer itself (`_get`, `_set`), and last the native
object is asked.
-/

namespace HotScript

namespace World

variable (w : World)

def isUsable (i : InstanceId) : Bool := (w.inst i).state != .cleared

def member? (i : InstanceId) (index : Nat) : Option Value := (w.inst i).members[index]?

end World

/-- Store into a slot as it is; refused when there is no such slot. -/
def Live.setMember (i : InstanceId) (index : Nat) (v : Value) : Live Bool :=
  modifyGet fun w =>
    if index < (w.inst i).members.size then
      (true, w.modifyInstance i fun s => { s with members := s.members.setIfInBounds index v })
    else (false, w)

/-- Call a function on an instance, or a method of its object when the script has none. -/
def Attempt.callMethod (r : Runner) (i : InstanceId) (name : String) (args : List Value) :
    Attempt Value := do
  let w ← get
  if !w.isUsable i then throw .instanceIsNull
  match w.function? (w.inst i).script name with
  | some (level, f) => holding [.inst i, .script level] (invoke r level f (some i) args)
  | none =>
    match w.owner? i with
    | some owner => callObject r owner name args
    | none => throw .instanceIsNull

namespace Live

variable (r : Runner)

def callResult (i : InstanceId) (name : String) (args : List Value) : Live (Option Value) := do
  match ← (Attempt.callMethod r i name args).run with
  | .ok v => return some v
  | .error _ => return none

/-- The first function or signal of a name along the chain: a bound callable, or the signal of the
object.  The outer option says whether there is one. -/
def findBound (i : InstanceId) (name : String) :
    List (ScriptId × ClassCode) → Live (Option (Option Value))
  | [] => return none
  | (_, code) :: rest => do
    if code.functions.contains name then
      return some (some (← modifyGet fun w => w.addClosure name (.method i name)))
    else if code.signals.contains name then
      return some (((← get).owner? i).map fun o => .signal o name)
    else findBound i name rest

def askScript (i : InstanceId) (name : String) : Live (Option Value) := do
  let w ← get
  if w.hasCapability (w.inst i).script Capability.get then
    return (← callResult r i "_get" [.stringName name]).filter (!·.isNil)
  else return none

/-- Read a name of an instance. -/
def getMember (i : InstanceId) (name : String) : Live (Option Value) := do
  let w ← get
  if !w.isUsable i then return none
  let s := (w.inst i).script
  match w.slot? s name with
  | some slot =>
    match slot.getter with
    | some getter => callResult r i getter []
    | none => return w.member? i slot.index
  | none =>
    match ← lookupStatic s name with
    | some v => return some v
    | none =>
      match ← findBound i name (w.codeChain s) with
      | some found => return found
      | none =>
        match ← askScript r i name with
        | some v => return some v
        | none =>
          match (← get).owner? i with
          | some owner => getProperty owner name
          | none => return none

def offerScript (i : InstanceId) (name : String) (v : Value) : Live Bool := do
  let w ← get
  if w.hasCapability (w.inst i).script Capability.set then
    match ← callResult r i "_set" [.stringName name, v] with
    | some (.bool true) => return true
    | _ => return false
  else return false

/-- Write a variable of an instance, through its setter or fitted to its type. -/
def writeSlot (i : InstanceId) (slot : Slot) (v : Value) : Live Bool := do
  match slot.setter with
  | some setter => return (← callResult r i setter [v]).isSome
  | none =>
    match ← fitTo slot.type v with
    | some v => Live.setMember i slot.index v
    | none => return false

/-- Write a name of an instance; says whether it was stored. -/
def setByName (i : InstanceId) (name : String) (v : Value) : Live Bool := do
  let w ← get
  if !w.isUsable i then return false
  let s := (w.inst i).script
  match w.slot? s name with
  | some slot => writeSlot r i slot v
  | none =>
    match ← setStatic s name v with
    | some stored => return stored
    | none =>
      if (← get).hasConstant s name then return false
      else if ← offerScript r i name v then return true
      else
        match (← get).owner? i with
        | some owner => setProperty owner name v
        | none => return false

/-- A property as a script describes it: a dictionary with a name and the number of a kind. -/
def describedProperty (h : Heap) (entry : Value) : Option PropertyDesc := do
  match entry with
  | .dictionary d =>
    let name ← h.lookupDict d (.string "name")
    let tag := do
      let n ← (← h.lookupDict d (.string "type")).int?
      if 0 ≤ n then Tag.all[n.toNatClampNeg]? else none
    some { name := ← name.text?, tag := tag.getD .nil }
  | _ => none

def addedProperties (i : InstanceId) : Live (List PropertyDesc) := do
  let w ← get
  if w.hasCapability (w.inst i).script Capability.propertyList then
    match ← callResult r i "_get_property_list" [] with
    | some (.array a) =>
      let h := (← get).heap
      return (h.items a).filterMap (describedProperty h)
    | _ => return []
  else return []

/-- The variables of the script, what it adds itself, and the properties of the native class. -/
def properties (i : InstanceId) : Live (List PropertyDesc) := do
  let w ← get
  let own := w.propertyList (w.inst i).script
  let added ← addedProperties r i
  let w ← get
  let ofObject := ((w.owner? i).map fun o => w.registry.properties o.className).getD []
  return own ++ added ++ ofObject

/-- Send a code to every class of the chain that takes notifications, bases first unless
reversed. -/
def notify (i : InstanceId) (code : Int64) (reversed : Bool) : Live Unit := do
  let w ← get
  let s := (w.inst i).script
  if w.isUsable i && w.hasCapability s Capability.notification then
    let chain := w.chain s
    (if reversed then chain else chain.reverse).forM fun level => do
      match ((← get).script level).code.bind (·.functions.find? "_notification") with
      | some f => let _ ← (Attempt.invoke r level f (some i) [.int code]).run
      | none => pure ()

def describe (i : InstanceId) : Live (Option String) := do
  let w ← get
  if w.hasCapability (w.inst i).script Capability.toText then
    return (← callResult r i "_to_string" []).bind Value.text?
  else return none

def namedCells (values : List (String × Value)) : List Cell := Value.cells (values.map (·.2))

/-- The values of variables, read one after the other; what was read stays alive. -/
def readSlots (i : InstanceId) : List Slot → Live (List (String × Value))
  | [] => return []
  | slot :: rest => do
    match ← getMember r i slot.name with
    | none => readSlots i rest
    | some v => return (slot.name, v) :: (← holding (Value.cells [v]) (readSlots i rest))

/-- The values of all variables of an instance, by name. -/
def snapshot (i : InstanceId) : Live (List (String × Value)) := do
  let w ← get
  readSlots r i (w.slots (w.inst i).script)

/-- Write a saved value; that of a variable that is gone is dropped. A value is let go when its turn
is over. -/
def putBack (i : InstanceId) (e : String × Value) (rest : List (String × Value)) : Live Unit := do
  let w ← get
  if (w.slot? (w.inst i).script e.1).isSome then
    let _ ← holding (namedCells (e :: rest)) (setByName r i e.1 e.2)

def writeSaved (i : InstanceId) : List (String × Value) → Live Unit := each (putBack r i)

/-- Give an instance the storage that its class has now, and run the initializers. -/
def renew (i : InstanceId) (cells : List Cell) : Live Unit := do
  let members ← defaultMembers ((← get).inst i).script
  modify fun w => w.modifyInstance i fun s => { s with members }
  let _ ← holding cells (Attempt.initializeMembers r i).run

/-- Rebuild an instance for the layout its script has now and write saved values into it. -/
def restore (i : InstanceId) (values : List (String × Value)) : Live Unit := do
  if (← get).isUsable i then
    renew r i (namedCells values)
    writeSaved r i values

end Live

end HotScript
