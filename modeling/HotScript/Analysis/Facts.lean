import HotScript.Analysis.Scope
import HotScript.Host.Descriptor
import HotScript.Syntax.Tree

/-!
What the analysis finds out about a file, by class and by node.
-/

namespace HotScript

inductive InheritanceState
  | unresolved
  /-- It is being found out: meeting the class again is a cycle. -/
  | resolving
  | resolved
  | invalid
deriving DecidableEq, Repr, Inhabited

def InheritanceState.title : InheritanceState → String
  | unresolved => "Unresolved"
  | resolving => "Resolving"
  | resolved => "Resolved"
  | invalid => "Invalid"

inductive ClassStage
  | inheritance | interfaceResolving | interfaceSolved | bodyResolving | bodySolved
deriving DecidableEq, Repr, Inhabited

def ClassStage.title : ClassStage → String
  | inheritance => "Inheritance"
  | interfaceResolving => "InterfaceResolving"
  | interfaceSolved => "InterfaceSolved"
  | bodyResolving => "BodyResolving"
  | bodySolved => "BodySolved"

structure Signature where
  name : String
  params : List (String × StaticType) := []
  defaults : Nat := 0
  result : StaticType := .variant
  isStatic : Bool := false
  isCoroutine : Bool := false
  isVararg : Bool := false
deriving Inhabited

def PropertyDesc.type (p : PropertyDesc) : StaticType :=
  match p.tag with
  | .nil => if p.className == "" then .variant else .builtin .nil
  | .object => if p.className == "" then .variant else .native p.className
  | tag => .builtin tag

namespace Signature

def least (s : Signature) : Nat := s.params.length - s.defaults

def ofMethod (m : MethodDesc) : Signature :=
  { name := m.name
    params := m.arguments.map fun a => (a.name, a.type)
    defaults := m.defaults
    result := m.result.type
    isStatic := m.isStatic
    isCoroutine := m.hasFlag .coroutine
    isVararg := m.isVararg }

def toMethod (s : Signature) : MethodDesc :=
  let flag (b : Bool) (f : MethodFlag) : Nat := if b then f.bit else 0
  { name := s.name
    arguments := s.params.map fun p => .ofType p.1 p.2
    defaults := s.defaults
    result := .ofType "" s.result
    flags := MethodFlag.normal.bit ||| flag s.isStatic .static ||| flag s.isCoroutine .coroutine |||
      flag s.isVararg .vararg }

end Signature

inductive MemberKind
  | variable (isStatic : Bool) (getter setter : Option String) (exported : Bool)
  | constant | signal | enum | enumValue | function | cls
deriving DecidableEq, Repr, Inhabited

structure MemberFacts where
  name : String
  kind : MemberKind
  type : StaticType
  value : Option Value := none
  signature : Option Signature := none
  /-- Its place among the members of the class. -/
  index : Nat
  span : Span
deriving Inhabited

def MemberFacts.isStatic (m : MemberFacts) : Bool :=
  match m.kind with
  | .variable s .. => s
  | .function => m.signature.any (·.isStatic)
  | .signal => false
  | _ => true

structure ClassFacts where
  ref : ClassRef
  inheritance : InheritanceState := .unresolved
  base : StaticType := .unresolved
  /-- The native class at the root of its chain. -/
  native : Option String := none
  stage : ClassStage := .inheritance
  members : Table String MemberFacts := {}
  capabilities : Nat := 0
deriving Inhabited

inductive Referent
  | local (decl : NodeId) (kind : LocalKind)
  | memberVariable (owner : ClassRef) (name : String)
  | staticVariable (owner : ClassRef) (name : String)
  | memberConstant (owner : ClassRef) (name : String)
  | memberFunction (owner : ClassRef) (name : String) (isStatic : Bool)
  | memberSignal (owner : ClassRef) (name : String)
  | nativeProperty (cls : String)
  | nativeMethod (cls : String)
  | nativeSignal (cls : String)
  | nativeConstant (cls : String)
  | scriptClass (cls : ClassRef)
  | nativeClass (cls : String)
  | builtinType (tag : Tag)
  | singleton (name : String)
  | globalConstant
  | utility
deriving DecidableEq, Repr

def Referent.needsInstance : Referent → Bool
  | memberVariable .. | memberFunction _ _ false | memberSignal .. | nativeProperty _
  | nativeMethod _ | nativeSignal _ => true
  | _ => false

inductive Dispatch
  /-- A function of the class or its bases, on the instance or the class itself. -/
  | self (name : String) (isStatic : Bool)
  | super (name : String)
  /-- A script function on another object or class. -/
  | script (name : String) (isStatic onInstance : Bool)
  /-- A native method; `exact` when class and number of arguments are known. -/
  | native (cls name : String) (exact : Bool)
  | builtin (tag : Tag) (name : String)
  | utility (name : String)
  | construct (tag : Tag)
  | new
  | callable
  | dynamic (name : String)
deriving DecidableEq, Repr

structure ExprFacts where
  type : StaticType := .unresolved
  value : Option Value := none
  referent : Option Referent := none
  dispatch : Option Dispatch := none
  isUnsafe : Bool := false
deriving Inhabited

namespace ExprFacts

def typed (t : StaticType) : ExprFacts := { type := t }
def constant (t : StaticType) (v : Value) : ExprFacts := { type := t, value := some v }
def isConstant (f : ExprFacts) : Bool := f.value.isSome

end ExprFacts

structure LocalFacts where
  name : String
  type : StaticType
  kind : LocalKind
  value : Option Value := none
  uses : Nat := 0
  span : Span
deriving Inhabited

structure FunctionFacts where
  signature : Signature
  /-- Names of functions around it that it uses, in the order of first use. -/
  captures : List Capture := []
  /-- Whether it, or a lambda in it, touches the instance. -/
  usesSelf : Bool := false
  isLambda : Bool := false
deriving Inhabited

structure NodeFacts where
  exprs : Table NodeId ExprFacts := {}
  locals : Table NodeId LocalFacts := {}
  functions : Table NodeId FunctionFacts := {}
  typeTests : Table NodeId StaticType := {}
  /-- Lines with checks that were left to when the program runs, ascending. -/
  unsafeLines : List Nat := []
deriving Inhabited

namespace NodeFacts

def exprType (t : NodeFacts) (id : NodeId) : StaticType :=
  ((t.exprs.find? id).map (·.type)).getD .variant

def insertLine (n : Nat) : List Nat → List Nat
  | [] => [n]
  | m :: rest =>
    if n < m then n :: m :: rest else if n = m then m :: rest else m :: insertLine n rest

def addUnsafeLine (t : NodeFacts) (n : Nat) : NodeFacts :=
  { t with unsafeLines := insertLine n t.unsafeLines }

end NodeFacts

end HotScript
