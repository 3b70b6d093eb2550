import HotScript.Syntax.Tree

/-!
Trees under construction.

A draft numbers nodes in the order in which they are made and keeps count of the line. Statements
and members take a new line each. The order of numbering is part of what a tree means, since facts
about it are filed by number.
-/

namespace HotScript

structure Draft where
  next : NodeId := 0
  line : Nat := 1
  classes : Array ClassDecl := #[]
  heap : Heap := {}

/-- Construction; there is no result for input that is not a tree. -/
abbrev Build := StateT Draft Option

namespace Build

def fresh : Build NodeId :=
  modifyGet fun d => (d.next, { d with next := d.next + 1 })

def here : Build Span := do return .on (← get).line 1 1

def nextLine : Build Span :=
  modifyGet fun d => (.on (d.line + 1) 1 1, { d with line := d.line + 1 })

/-- Let the next declaration or statement stand on `line`. -/
def atLine (line : Nat) : Build Unit :=
  modify fun d => { d with line := line - 1 }

def ident (name : String) : Build Ident := do return ⟨name, ← here⟩

def exprNode : Build Node := do
  let id ← fresh
  return ⟨id, ← here⟩

/-- The number and place of a statement of one line. -/
def stmtNode : Build Node := do
  let span ← nextLine
  return ⟨← fresh, .lines span.line span.line⟩

/-- The number of a statement that stands on the line of its declaration. -/
def declNode (line : Nat) : Build Node := do
  let node ← stmtNode
  return ⟨node.id, .lines line line⟩

/-- The number and place of a statement that starts on `start` and reaches to the current line. -/
def blockNode (start : Nat) : Build Node := do
  return ⟨← fresh, .lines start (← get).line⟩

def patternNode : Build Node := do
  let id ← fresh
  return ⟨id, ← nextLine⟩

def suiteSpan (body : List Stmt) : Build Span := do
  match body.head?, body.getLast? with
  | some first, some last => return .lines first.span.line last.span.endLine
  | _, _ => here

def typeSpec (chain : List String) (elements : List TypeSpec) : Build TypeSpec := do
  return .mk (← chain.mapM ident) elements (← here)

def function (name : String) (params : List ParamDecl) (body : List Stmt) : Build FunctionDecl := do
  let span ← match body.head? with
    | some first => do pure (Span.lines (first.span.line - 1) (← get).line)
    | none => nextLine
  let id ← fresh
  return {
    id, params, body
    name := ⟨name, span⟩
    result := none
    bodySpan := ← suiteSpan body
    isStatic := false }

/-- The name of the function that an inline getter becomes. -/
def getterName (member : String) : String := "@" ++ member ++ "_getter"

def setterName (member : String) : String := "@" ++ member ++ "_setter"

def param (name : String) : Build ParamDecl := do
  let span ← here
  return { id := ← fresh, name := ⟨name, span⟩, type := none, infer := false, default := none }

def identExpr (name : String) : Build Expr := do return .ident (← exprNode) name

def updateClass (id : ClassId) (f : ClassDecl → ClassDecl) : Build Unit :=
  modify fun d => { d with classes := d.classes.modify id f }

def addMember (cls : ClassId) (m : Member) : Build Unit :=
  updateClass cls (·.addMember m)

def innerClass (outer : ClassId) (name : String) : Build ClassId := do
  let span ← nextLine
  let d ← get
  let id := d.classes.size
  let qualified := ((d.classes[outer]?).map (·.qualified)).getD "" ++ "::" ++ name
  let cls : ClassDecl := { id, qualified, span, name := some ⟨name, span⟩, outer := some outer }
  set { d with classes := d.classes.push cls }
  updateClass outer (·.addClass id ⟨name, span⟩)
  return id

/-- Add the entries of an unnamed enum as members, each pointing at the one before. -/
def addEnumValues (cls : ClassId) : Option Nat → List EnumValueDecl → Build Unit
  | _, [] => pure ()
  | previous, v :: rest => do
    let place := (((← get).classes[cls]?).map (·.members.size)).getD 0
    addMember cls (.enumValue { v with previous })
    addEnumValues cls (some place) rest

def start (path : String) : Build Unit :=
  let head : ClassDecl := { id := 0, name := none, qualified := path, span := .lines 1 1 }
  modify fun d => { d with classes := #[head] }

def finish (path : String) : Build Tree := do
  let d ← get
  return { path, classes := d.classes, nodeCount := d.next }

end Build

end HotScript
