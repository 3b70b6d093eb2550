import HotScript.Syntax.Draft
import HotScript.Wire.Values

/-!
Programs as documents.

A program spells out the tree of a file. Parts are made before what holds them, in the order in
which they stand.
-/

namespace HotScript.Wire

open Build

def literalValue (d : Datum) : Build Value := do
  let draft ← get
  let (v, heap) ← (readPlain d).run draft.heap
  set { draft with heap }
  return v

/-- Read a type that nests at most `depth` levels. -/
def typeSpecWithin : Nat → Datum → Build TypeSpec
  | 0, _ => failure
  | depth + 1, d =>
    match d with
    | .str name => typeSpec [name] []
    | _ => do
      if d.has "array" then
        let t ← typeSpecWithin depth d["array"]
        typeSpec ["Array"] [t]
      else if d.has "dict" then
        let k ← typeSpecWithin depth d["dict"][0]
        let v ← typeSpecWithin depth d["dict"][1]
        typeSpec ["Dictionary"] [k, v]
      else if d.has "chain" then
        let t ← typeSpec d["chain"].strings []
        let es ← d["of"].items.mapM (typeSpecWithin depth)
        return .mk t.chain es t.span
      else failure

def typeOf (d : Datum) : Build TypeSpec := typeSpecWithin d.depth d

/-- An optional expression of a record, which may be the null literal. -/
def optionalExpr (d : Datum) (key : String) (expr : Datum → Build Expr) : Build (Option Expr) :=
  if d.holds key then some <$> expr d[key] else pure none

section

variable (expr : Datum → Build Expr) (stmt : Datum → Build Stmt) (d : Datum)

/-- Parameters: a name, or a name with a type and a default. -/
def paramWith : Build ParamDecl := do
  match d with
  | .str name => param name
  | _ =>
    let p ← param (← d["name"].str?)
    let type ← optional d "type" typeOf
    let default ← optionalExpr d "default" expr
    let inferred ← optionalExpr d "infer" expr
    return { p with type, infer := inferred.isSome, default := inferred <|> default }

/-- Functions: a header line if wanted, parameters, body, then the function itself. -/
def functionWith : Build FunctionDecl := do
  if d["header"].isTrue then discard nextLine
  let params ← d["params"].items.mapM (paramWith expr)
  let body ← d["body"].items.mapM stmt
  let f ← function d["name"].text params body
  let result ← optional d "ret" typeOf
  return { f with result, isStatic := d["static"].isTrue }

/-- An accessor written with its variable: a whole function, or only its body. -/
def accessorWith (member : String) (isSetter : Bool) : Build FunctionDecl := do
  if d.has "name" then functionWith expr stmt d
  else
    let body ← d["body"].items.mapM stmt
    if isSetter then function (setterName member) [← param d["param"].text] body
    else function (getterName member) [] body

/-- Variables: inline accessors first, then the variable, then its parts. -/
def variableWith : Build VariableDecl := do
  let name ← d["name"].str?
  let getter ← optional d["inline"] "get" (accessorWith expr stmt · name false)
  let setter ← optional d["inline"] "set" (accessorWith expr stmt · name true)
  let span ← nextLine
  let id ← fresh
  let type ← optional d "type" typeOf
  let initial ← optionalExpr d "init" expr
  let inferred ← optionalExpr d "infer" expr
  let namedIdent (key : String) : Option Ident := d["named"][key].str?.map (⟨·, span⟩)
  let accessors : Accessors :=
    if d.has "named" then .named (namedIdent "get") (namedIdent "set")
    else if d.has "inline" then .inline getter setter
    else .none
  return {
    id, type, accessors
    name := ⟨name, span⟩
    infer := inferred.isSome
    initializer := inferred <|> initial
    isStatic := d["static"].isTrue
    exported := d["export"].isTrue }

/-- Constants: the value first, then the constant. -/
def constantWith : Build ConstantDecl := do
  let initializer ← expr d["value"]
  let span ← nextLine
  let id ← fresh
  let type ← optional d "type" typeOf
  return { id, type, initializer, name := ⟨← d["name"].str?, span⟩ }

end

mutual

def exprWithin : Nat → Datum → Build Expr
  | 0, _ => failure
  | depth + 1, d => do
    let expr := exprWithin depth
    let one {α : Type} (part : Build α) (make : Node → α → Expr) : Build Expr := do
      let a ← part
      return make (← exprNode) a
    let two (a b : Datum) (make : Node → Expr → Expr → Expr) : Build Expr := do
      let a ← expr a
      one (expr b) (make · a)
    let typed (e t : Datum) (make : Node → Expr → TypeSpec → Expr) : Build Expr := do
      let e ← expr e
      one (typeOf t) (make · e)
    let call (name : String) (args : List Datum) (isSuper : Bool) : Build Expr := do
      let args ← args.mapM expr
      one (identExpr name) (.call · · args isSuper)
    match d with
    | .str name => identExpr name
    | .null | .bool _ | .int _ => one (literalValue d) .literal
    | .list (.str kind :: parts) =>
      match kind, parts with
      | "str", [.str s] => return .literal (← exprNode) (.string s)
      | "lit", [v] => one (literalValue v) .literal
      | "self", [] => return .self (← exprNode)
      | "arr", es => one (es.mapM expr) .array
      | "dict", es =>
        let es := es.mapM fun e => do
          let k ← expr e[0]
          return (k, ← expr e[1])
        one es .dictionary
      | "un", [.str op, e] =>
        let op ← UnaryOp.ofSpelling? op
        one (expr e) (.unary · op)
      | "bin", [.str op, a, b] =>
        let op ← BinaryOp.ofSpelling? op
        two a b (.binary · op)
      | "tern", [c, t, f] =>
        let c ← expr c
        two t f (.ternary · c)
      | "=", [target, v] => two target v (.assign · none)
      | "op=", [.str op, target, v] =>
        let op ← BinaryOp.ofSpelling? op
        two target v (.assign · (some op))
      | "attr", [e, .str name] =>
        let e ← expr e
        one (ident name) (.field · e)
      | "idx", [e, i] => two e i .subscript
      | "call", .str name :: args => call name args false
      | "callx", callee :: args =>
        let callee ← expr callee
        one (args.mapM expr) (.call · callee · false)
      | "m", e :: .str name :: args =>
        let e ← expr e
        let args ← args.mapM expr
        let callee ← one (ident name) (.field · e)
        return .call (← exprNode) callee args false
      | "super", .str name :: args => call name args true
      | "as", [e, t] => typed e t .cast
      | "is", [e, t] => typed e t (.typeTest · · · false)
      | "isnot", [e, t] => typed e t (.typeTest · · · true)
      | "lambda", [f] => one (functionWith expr (stmtWithin depth) f) .lambda
      | "preload", [.str path] => return .preload (← exprNode) path
      | "await", [e] => one (expr e) .await
      | _, _ => failure
    | _ => failure

def stmtWithin : Nat → Datum → Build Stmt
  | 0, _ => failure
  | depth + 1, d => do
    let expr := exprWithin depth
    let stmt := stmtWithin depth
    let block (d : Datum) : Build (List Stmt) := d.items.mapM stmt
    match d with
    | .list (.str kind :: parts) =>
      match kind, parts with
      | "at", [line, s] =>
        atLine (← line.nat?)
        stmt s
      | "expr", [e] =>
        let e ← expr e
        return .expr (← stmtNode) e
      | "var", [v] =>
        let v ← variableWith expr stmt v
        return .var (← declNode v.name.span.line) v
      | "const", [c] =>
        let c ← constantWith expr c
        return .const (← declNode c.name.span.line) c
      | "if", c :: yes :: more =>
        let c ← expr c
        let yes ← block yes
        let no ← match more with
          | .list no :: _ => some <$> no.mapM stmt
          | _ => pure none
        return .ifElse (← blockNode c.span.line) c yes no
      | "while", [c, body] =>
        let c ← expr c
        let body ← block body
        return .whileLoop (← blockNode c.span.line) c body
      | "for", [.str name, t, iterable, body] =>
        let t ← if t.isNull then pure none else some <$> typeOf t
        let iterable ← expr iterable
        let body ← block body
        return .forLoop (← blockNode iterable.span.line) ⟨name, iterable.span⟩ t iterable body
      | "match", [e, branches] =>
        let e ← expr e
        let branches ← branches.items.mapM fun b => do
          let patterns ← b["p"].items.mapM (patternWithin depth)
          let guard ← optionalExpr b "when" expr
          let body ← block b["body"]
          let span ← match patterns.head? with
            | some p => pure p.span
            | none => here
          return { node := ⟨← fresh, span⟩, patterns, guard, body : Branch }
        return .matchOn (← blockNode e.span.line) e branches
      | "ret", [] => return .giveBack (← stmtNode) none
      | "ret", [e] =>
        let e ← expr e
        return .giveBack (← stmtNode) (some e)
      | "break", [] => return .breakLoop (← stmtNode)
      | "continue", [] => return .continueLoop (← stmtNode)
      | "pass", [] => return .pass (← stmtNode)
      | "assert", e :: more =>
        let e ← expr e
        let message ← more.head?.mapM expr
        return .assert (← stmtNode) e message
      | _, _ => failure
    | _ => failure

def patternWithin : Nat → Datum → Build Pattern
  | 0, _ => failure
  | depth + 1, d => do
    let pattern := patternWithin depth
    let one {α : Type} (part : Build α) (make : Node → α → Pattern) : Build Pattern := do
      let a ← part
      return make (← patternNode) a
    match d with
    | .str "_" => return .wildcard (← patternNode)
    | .str ".." => return .rest (← patternNode)
    | .list [.str "lit", e] => one (exprWithin depth e) .literal
    | .list [.str "expr", e] => one (exprWithin depth e) .expr
    | .list [.str "bind", .str name] => one (ident name) .bind
    | .list (.str "arr" :: ps) => one (ps.mapM pattern) .array
    | .list (.str "dict" :: es) =>
      let es := es.mapM fun e => do
        let k ← pattern e[0]
        return (k, ← if e[1].isNull then pure none else some <$> pattern e[1])
      one es .dictionary
    | _ => failure

end

def extendsClause (d : Datum) : Build ExtendsClause := do
  match d with
  | .str name => return { path := none, chain := [← ident name], span := ← here }
  | _ =>
    let chain ← d["chain"].strings.mapM ident
    return { path := d["path"].str?, chain, span := ← here }

def classBodyWithin (cls : ClassId) : Nat → Datum → Build Unit
  | 0, _ => failure
  | depth + 1, d => do
    let expr := exprWithin depth
    let stmt := stmtWithin depth
    if d.has "extends" then
      let clause ← extendsClause d["extends"]
      updateClass cls fun c => { c with extends? := some clause }
    d["members"].items.forM fun m => do
      if m.has "line" then atLine (← m["line"].nat?)
      if m.has "var" then
        addMember cls (.var (← variableWith expr stmt m["var"]))
      else if m.has "const" then
        addMember cls (.const (← constantWith expr m["const"]))
      else if m.has "signal" then
        let s := m["signal"]
        let params ← s["params"].items.mapM (paramWith expr)
        let span ← nextLine
        let id ← fresh
        addMember cls (.signal { id, params, name := ⟨← s["name"].str?, span⟩ })
      else if m.has "enum" then
        let e := m["enum"]
        let values ← e["values"].items.mapM fun v => do
          let value ← if v[1].isNull then pure none else some <$> expr v[1]
          pure (← v[0].str?, value)
        let span ← nextLine
        let id ← fresh
        let values ← values.mapM fun (name, value) => do
          return { id := ← fresh, name := ⟨name, span⟩, value, previous := none : EnumValueDecl }
        match e["name"].str? with
        | some name => addMember cls (.enum { id, name := ⟨name, span⟩, values })
        | none => addEnumValues cls none values
      else if m.has "func" then
        addMember cls (.func (← functionWith expr stmt m["func"]))
      else if m.has "class" then
        let inner := m["class"]
        let id ← innerClass cls (← inner["name"].str?)
        classBodyWithin id depth inner
      else if m.has "group" then
        let span ← nextLine
        addMember cls (.group ⟨← m["group"].str?, span⟩)
      else failure

/-- The tree that a program spells out, as the file `path`. -/
def readTree (path : String) (d : Datum) : Build Tree := do
  start path
  match d["class_name"].str? with
  | some name =>
    let name ← ident name
    updateClass 0 fun c => { c with name := some name }
  | none => pure ()
  match d["icon"].str? with
  | some icon => updateClass 0 fun c => { c with icon := some icon }
  | none => pure ()
  classBodyWithin 0 d.depth d
  finish path

/-- What a program says went wrong while it was read. -/
def readDiagnostic (d : Datum) : Option Diagnostic := do
  let message ← d[0].str?
  let span := Span.on (← d[1].nat?) (← d[2].nat?) 1
  let plain := Diagnostic.reading message span
  some (if d[3].str? = some "warning" then { plain with severity := .warning } else plain)

def readProgram (path : String) (d : Datum) : StateT Heap Option Reading := do
  let diagnostics := d["diagnostics"].items.filterMap readDiagnostic
  if d["fail"].isTrue then return { diagnostics }
  else
    let (tree, draft) ← (readTree path d).run { heap := ← get }
    set draft.heap
    return { tree := some tree, diagnostics, dependencies := d["dependencies"].strings }

end HotScript.Wire
