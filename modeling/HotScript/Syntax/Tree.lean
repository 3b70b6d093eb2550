import HotScript.Value.Operator
import HotScript.Report.Diagnostic
import HotScript.Table

/-!
Syntax trees of script files.

A file is a list of classes; the head class comes first. Every expression, statement, pattern and
declaration carries a number that is unique in its file.
-/

namespace HotScript

inductive BinaryOp
  | and | or | isIn | notIn
  | equal | notEqual | less | lessEqual | greater | greaterEqual
  | bitOr | bitXor | bitAnd | shiftLeft | shiftRight
  | add | sub | mul | div | mod | pow
deriving DecidableEq, Repr, Inhabited

namespace BinaryOp

def all : List BinaryOp :=
  [and, or, isIn, notIn, equal, notEqual, less, lessEqual, greater, greaterEqual,
    bitOr, bitXor, bitAnd, shiftLeft, shiftRight, add, sub, mul, div, mod, pow]

def operator : BinaryOp → Operator
  | and => .and
  | or => .or
  | isIn | notIn => .isIn
  | equal => .equal
  | notEqual => .notEqual
  | less => .less
  | lessEqual => .lessEqual
  | greater => .greater
  | greaterEqual => .greaterEqual
  | bitOr => .bitOr
  | bitXor => .bitXor
  | bitAnd => .bitAnd
  | shiftLeft => .shiftLeft
  | shiftRight => .shiftRight
  | add => .add
  | sub => .subtract
  | mul => .multiply
  | div => .divide
  | mod => .module
  | pow => .power

/-- Whether the second operand is evaluated only when needed. -/
def isShortCircuit : BinaryOp → Bool
  | and | or => true
  | _ => false

def isComparison : BinaryOp → Bool
  | equal | notEqual | less | lessEqual | greater | greaterEqual => true
  | _ => false

def spelling : BinaryOp → String
  | notIn => "not in"
  | op => op.operator.spelling

def ofSpelling? (s : String) : Option BinaryOp :=
  all.find? (·.spelling == s)

end BinaryOp

inductive UnaryOp
  | negate | positive | bitNot | not
deriving DecidableEq, Repr, Inhabited

namespace UnaryOp

def all : List UnaryOp := [negate, positive, bitNot, not]

def operator : UnaryOp → Operator
  | negate => .negate
  | positive => .positive
  | bitNot => .bitNegate
  | not => .not

def spelling : UnaryOp → String
  | negate => "-"
  | positive => "+"
  | bitNot => "~"
  | not => "not"

def ofSpelling? (s : String) : Option UnaryOp :=
  all.find? (·.spelling == s)

end UnaryOp

/-- The number of a node in its file. -/
abbrev NodeId := Nat

/-- The number of a class in its file; the head class is 0. -/
abbrev ClassId := Nat

structure Ident where
  name : String
  span : Span
deriving DecidableEq, Repr, Inhabited

structure Node where
  id : NodeId
  span : Span
deriving DecidableEq, Repr, Inhabited

/-- A type as written: a dotted name and the types of what a container holds. -/
inductive TypeSpec
  | mk (chain : List Ident) (elements : List TypeSpec) (span : Span)
deriving Repr, Inhabited

namespace TypeSpec

def chain : TypeSpec → List Ident
  | mk c _ _ => c

def span : TypeSpec → Span
  | mk _ _ s => s

def head (t : TypeSpec) : String := (t.chain.head?.map (·.name)).getD ""

def isVoid (t : TypeSpec) : Bool := t.chain.length == 1 && t.head == "void"

def dotted (t : TypeSpec) : String := ".".intercalate (t.chain.map (·.name))

end TypeSpec

mutual

inductive Expr
  | literal (node : Node) (value : Value)
  | ident (node : Node) (name : String)
  | self (node : Node)
  | array (node : Node) (elements : List Expr)
  | dictionary (node : Node) (entries : List (Expr × Expr))
  | unary (node : Node) (op : UnaryOp) (operand : Expr)
  | binary (node : Node) (op : BinaryOp) (left right : Expr)
  | ternary (node : Node) (condition yes no : Expr)
  | assign (node : Node) (op : Option BinaryOp) (target value : Expr)
  | field (node : Node) (base : Expr) (name : Ident)
  | subscript (node : Node) (base index : Expr)
  | call (node : Node) (callee : Expr) (args : List Expr) (isSuper : Bool)
  | cast (node : Node) (operand : Expr) (type : TypeSpec)
  | typeTest (node : Node) (operand : Expr) (type : TypeSpec) (negated : Bool)
  | lambda (node : Node) (function : FunctionDecl)
  | preload (node : Node) (path : String)
  | await (node : Node) (operand : Expr)

structure ParamDecl where
  id : NodeId
  name : Ident
  type : Option TypeSpec
  /-- The type is to be taken from the default. -/
  infer : Bool
  default : Option Expr

structure FunctionDecl where
  id : NodeId
  name : Ident
  params : List ParamDecl
  result : Option TypeSpec
  body : List Stmt
  bodySpan : Span
  isStatic : Bool

inductive Accessors
  | none
  | inline (getter setter : Option FunctionDecl)
  | named (getter setter : Option Ident)

structure VariableDecl where
  id : NodeId
  name : Ident
  type : Option TypeSpec
  /-- The type is to be taken from the initializer. -/
  infer : Bool
  initializer : Option Expr
  isStatic : Bool
  accessors : Accessors
  exported : Bool

structure ConstantDecl where
  id : NodeId
  name : Ident
  type : Option TypeSpec
  initializer : Expr

inductive Stmt
  | expr (node : Node) (e : Expr)
  | var (node : Node) (decl : VariableDecl)
  | const (node : Node) (decl : ConstantDecl)
  | ifElse (node : Node) (condition : Expr) (yes : List Stmt) (no : Option (List Stmt))
  | whileLoop (node : Node) (condition : Expr) (body : List Stmt)
  | forLoop (node : Node) (name : Ident) (type : Option TypeSpec) (iterable : Expr)
    (body : List Stmt)
  | matchOn (node : Node) (subject : Expr) (branches : List Branch)
  | giveBack (node : Node) (value : Option Expr)
  | breakLoop (node : Node)
  | continueLoop (node : Node)
  | pass (node : Node)
  | assert (node : Node) (condition : Expr) (message : Option Expr)

/-- A branch of a match: it is taken when one of its patterns matches and its guard holds. -/
structure Branch where
  node : Node
  patterns : List Pattern
  guard : Option Expr
  body : List Stmt

inductive Pattern
  | literal (node : Node) (e : Expr)
  | expr (node : Node) (e : Expr)
  | bind (node : Node) (name : Ident)
  | wildcard (node : Node)
  /-- Stands for all that is left, at the end of a container pattern. -/
  | rest (node : Node)
  | array (node : Node) (elements : List Pattern)
  /-- A key without a pattern only has to be present. -/
  | dictionary (node : Node) (entries : List (Pattern × Option Pattern))

end

instance : Inhabited Expr := ⟨.self default⟩
instance : Inhabited Stmt := ⟨.pass default⟩
instance : Inhabited Pattern := ⟨.wildcard default⟩

namespace Expr

def node : Expr → Node
  | literal n _ | ident n _ | self n | array n _ | dictionary n _ | unary n _ _ | binary n _ _ _
  | ternary n _ _ _ | assign n _ _ _ | field n _ _ | subscript n _ _ | call n _ _ _
  | cast n _ _ | typeTest n _ _ _ | lambda n _ | preload n _ | await n _ => n

def id (e : Expr) : NodeId := e.node.id
def span (e : Expr) : Span := e.node.span

def isAssignable : Expr → Bool
  | ident .. | field .. | subscript .. => true
  | _ => false

end Expr

namespace Stmt

def node : Stmt → Node
  | expr n _ | var n _ | const n _ | ifElse n _ _ _ | whileLoop n _ _ | forLoop n _ _ _ _
  | matchOn n _ _ | giveBack n _ | breakLoop n | continueLoop n | pass n | assert n _ _ => n

def span (s : Stmt) : Span := s.node.span

/-- Whether control never goes on to the next statement. -/
def isTerminator : Stmt → Bool
  | giveBack .. | breakLoop _ | continueLoop _ => true
  | _ => false

end Stmt

namespace Pattern

def node : Pattern → Node
  | literal n _ | expr n _ | bind n _ | wildcard n | rest n | array n _ | dictionary n _ => n

def id (p : Pattern) : NodeId := p.node.id
def span (p : Pattern) : Span := p.node.span

def isRest : Pattern → Bool
  | rest _ => true
  | _ => false

/-- Whether a container pattern ends in "and all that is left". -/
def isOpen : Pattern → Bool
  | array _ es => (es.getLast?.map isRest).getD false
  | dictionary _ es => (es.getLast?.map fun e => isRest e.1).getD false
  | _ => false

mutual

def binds : Pattern → Bool
  | bind .. => true
  | array _ es => bindsAny es
  | dictionary _ es => bindsEntry es
  | _ => false

def bindsAny : List Pattern → Bool
  | [] => false
  | p :: ps => binds p || bindsAny ps

/-- Whether a key or value of the entries binds a name. -/
def bindsEntry : List (Pattern × Option Pattern) → Bool
  | [] => false
  | (k, some v) :: es => binds k || binds v || bindsEntry es
  | (k, none) :: es => binds k || bindsEntry es

end

end Pattern

def Branch.binds (b : Branch) : Bool := Pattern.bindsAny b.patterns

def Accessors.isNone : Accessors → Bool
  | .none => true
  | _ => false

def FunctionDecl.defaultCount (f : FunctionDecl) : Nat :=
  f.params.countP (·.default.isSome)

def FunctionDecl.span (f : FunctionDecl) : Span := f.name.span

structure SignalDecl where
  id : NodeId
  name : Ident
  params : List ParamDecl

/-- One entry of an enum.  Without a value it is one more than the entry before. -/
structure EnumValueDecl where
  id : NodeId
  name : Ident
  value : Option Expr
  /-- The place, among the members of the class, of the entry before it in an unnamed enum. -/
  previous : Option Nat

structure EnumDecl where
  id : NodeId
  name : Ident
  values : List EnumValueDecl

inductive Member
  | var (decl : VariableDecl)
  | const (decl : ConstantDecl)
  | signal (decl : SignalDecl)
  | enum (decl : EnumDecl)
  /-- An entry of an unnamed enum, which is a constant of the class. -/
  | enumValue (decl : EnumValueDecl)
  | func (decl : FunctionDecl)
  | cls (id : ClassId) (name : Ident)
  /-- A heading under which exported variables are shown. -/
  | group (name : Ident)

namespace Member

def ident : Member → Ident
  | var d => d.name
  | const d => d.name
  | signal d => d.name
  | enum d => d.name
  | enumValue d => d.name
  | func d => d.name
  | cls _ name => name
  | group name => name

def name? : Member → Option String
  | group _ => none
  | m => some m.ident.name

def span (m : Member) : Span := m.ident.span

def kindName : Member → String
  | var _ => "variable"
  | const _ => "constant"
  | signal _ => "signal"
  | enum _ => "enum"
  | enumValue _ => "enum value"
  | func _ => "function"
  | cls .. => "class"
  | group _ => "group"

end Member

/-- The base a class names: a file, a dotted name, or a name inside a file. -/
structure ExtendsClause where
  path : Option String
  chain : List Ident
  span : Span
deriving DecidableEq, Repr

def ExtendsClause.text (c : ExtendsClause) : String :=
  let chain := ".".intercalate (c.chain.map (·.name))
  match c.path with
  | some path => "\"" ++ path ++ "\"" ++ (if chain = "" then "" else "." ++ chain)
  | none => chain

/-- A class: the head class of a file or one nested in another. -/
structure ClassDecl where
  id : ClassId
  name : Option Ident
  /-- The path of the file, then the names of the classes down to this one. -/
  qualified : String
  extends? : Option ExtendsClause := none
  members : Array Member := #[]
  places : Table String Nat := {}
  outer : Option ClassId := none
  icon : Option String := none
  span : Span
deriving Inhabited

namespace ClassDecl

def isHead (c : ClassDecl) : Bool := c.outer.isNone

def name? (c : ClassDecl) : Option String := c.name.map (·.name)

def member? (c : ClassDecl) (name : String) : Option Member :=
  (c.places.find? name).bind fun i => c.members[i]?

def hasMember (c : ClassDecl) (name : String) : Bool := c.places.contains name

def functions (c : ClassDecl) : List FunctionDecl :=
  c.members.toList.filterMap fun
    | .func d => some d
    | _ => none

def variableDecls (c : ClassDecl) : List VariableDecl :=
  c.members.toList.filterMap fun
    | .var d => some d
    | _ => none

def inner (c : ClassDecl) : List ClassId :=
  c.members.toList.filterMap fun
    | .cls id _ => some id
    | _ => none

/-- The function of a name: the first that was declared. -/
def function? (c : ClassDecl) (name : String) : Option FunctionDecl :=
  c.functions.find? (·.name.name == name)

/-- Append a member; a name that is taken keeps its first place. -/
def addMember (c : ClassDecl) (m : Member) : ClassDecl :=
  { c with
    members := c.members.push m
    places := match m.name? with
      | some name => c.places.insertNew name c.members.size
      | none => c.places }

/-- Append a nested class; it takes over a name that is taken. -/
def addClass (c : ClassDecl) (id : ClassId) (name : Ident) : ClassDecl :=
  { c with
    members := c.members.push (.cls id name)
    places := c.places.insert name.name c.members.size }

end ClassDecl

structure Tree where
  path : String
  classes : Array ClassDecl
  nodeCount : Nat
deriving Inhabited

namespace Tree

def class? (t : Tree) (id : ClassId) : Option ClassDecl := t.classes[id]?

def head (t : Tree) : ClassDecl := (t.class? 0).getD default

def byQualified? (t : Tree) (name : String) : Option ClassDecl :=
  t.classes.toList.find? (·.qualified == name)

/-- Follow names of nested classes downward from a class. -/
def nested? (t : Tree) (start : ClassId) : List String → Option ClassId
  | [] => some start
  | name :: rest =>
    match (t.class? start).bind (·.member? name) with
    | some (.cls id _) => t.nested? id rest
    | _ => none

end Tree

/-- What the reader of a file hands on: a tree unless reading failed outright, and what it had to
say about the text. -/
structure Reading where
  tree : Option Tree := none
  diagnostics : List Diagnostic := []
  dependencies : List String := []

def Reading.hasErrors (r : Reading) : Bool :=
  r.tree.isNone || r.diagnostics.any (·.isError)

/-- What a file says about its head class, known without analysis. -/
structure Header where
  className : Option String := none
  base : Option String := none
  icon : Option String := none
deriving DecidableEq, Repr

def Reading.header (r : Reading) : Header :=
  match r.tree with
  | some t =>
    { className := t.head.name?
      base := t.head.extends?.map (·.text)
      icon := t.head.icon }
  | none => {}

end HotScript
