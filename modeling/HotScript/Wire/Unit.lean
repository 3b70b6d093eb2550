import HotScript.Wire.Values
import HotScript.Analysis.Unit

/-!
Units and the facts in them as documents.
-/

namespace HotScript.Wire

def localKindText : LocalKind → String
  | .param i => "param" ++ toString i
  | .variable => "var"
  | .constant => "const"
  | .loop => "for"
  | .binding => "bind"

def boolText (b : Bool) : String := if b then "true" else "false"

def referentText : Referent → String
  | .local decl kind => "local " ++ toString decl ++ " " ++ localKindText kind
  | .memberVariable c n => "member " ++ classText c ++ " " ++ n
  | .staticVariable c n => "static " ++ classText c ++ " " ++ n
  | .memberConstant c n => "const " ++ classText c ++ " " ++ n
  | .memberFunction c n s => "func " ++ classText c ++ " " ++ n ++ " " ++ boolText s
  | .memberSignal c n => "signal " ++ classText c ++ " " ++ n
  | .nativeProperty c => "native_property " ++ c
  | .nativeMethod c => "native_method " ++ c
  | .nativeSignal c => "native_signal " ++ c
  | .nativeConstant c => "native_const " ++ c
  | .scriptClass c => "class " ++ classText c
  | .nativeClass c => "native " ++ c
  | .builtinType t => "builtin " ++ t.name
  | .singleton s => "singleton " ++ s
  | .globalConstant => "global"
  | .utility => "utility"

def dispatchText : Dispatch → String
  | .self n s => "self " ++ n ++ " " ++ boolText s
  | .super n => "super " ++ n
  | .script n s i => "script " ++ n ++ " " ++ boolText s ++ " " ++ boolText i
  | .native c n e => "native " ++ c ++ " " ++ n ++ " " ++ boolText e
  | .builtin t n => "builtin " ++ t.name ++ " " ++ n
  | .utility n => "utility " ++ n
  | .construct t => "construct " ++ t.name
  | .new => "new"
  | .callable => "callable"
  | .dynamic n => "dynamic " ++ n

instance : ToDatum LocalKind := ⟨fun k => localKindText k⟩

instance : ToDatum Referent := ⟨fun r => referentText r⟩

instance : ToDatum Dispatch := ⟨fun d => dispatchText d⟩

instance : ToDatum Signature where
  datum s := .record
    [ ("name", s.name), ("params", s.params.map fun p => Datum.list [p.1, p.2])
      , ("defaults", s.defaults), ("ret", s.result), ("static", s.isStatic)
      , ("coroutine", s.isCoroutine), ("vararg", s.isVararg) ]

instance : ToDatum MemberKind where
  datum
    | .variable s getter setter exported => .list ["var", s, getter, setter, exported]
    | .constant => "const"
    | .signal => "signal"
    | .enum => "enum"
    | .enumValue => "enum_value"
    | .function => "func"
    | .cls => "class"

variable (view : ValueView) (h : Heap)

def ofMemberFacts (m : MemberFacts) : Datum :=
  .record
    (("kind", m.kind) :: ("type", m.type) :: ("index", m.index) :: ("line", m.span.line) ::
      (present "value" (m.value.map (ofValue view h)) ++ present "sig" m.signature))

def ofClassFacts (c : ClassFacts) : Datum :=
  .record
    [ ("key", c.ref), ("name", c.ref.name), ("inheritance", c.inheritance.title), ("base", c.base)
      , ("native", c.native), ("stage", c.stage.title), ("caps", c.capabilities)
      , ("members", .record (c.members.entries.map fun e => (e.1, ofMemberFacts view h e.2))) ]

def ofExprFacts (f : ExprFacts) : Datum :=
  .record (("t", f.type) :: (present "v" (f.value.map (ofValue view h)) ++ present "src"
    f.referent ++ present "call" f.dispatch ++ mark "unsafe" f.isUnsafe))

def ofLocalFacts (l : LocalFacts) : Datum :=
  .record (("name", l.name) :: ("t", l.type) :: ("kind", l.kind) :: ("uses", l.uses) ::
    present "v" (l.value.map (ofValue view h)))

def ofFunctionFacts (f : FunctionFacts) : Datum :=
  .record
    [ ("sig", f.signature), ("captures", f.captures.map fun c => Datum.list [c.name, c.decl,
      c.type]) , ("self", f.usesSelf), ("lambda", f.isLambda) ]

def rows {α : Type} (limit : Option NodeId) (f : α → Datum) (t : Table NodeId α) : Datum :=
  let kept := t.entries.filter fun e => limit.all fun n => decide (e.1 ≤ n)
  (kept.mergeSort fun a b => decide (a.1 ≤ b.1)).map fun e => Datum.list [e.1, f e.2]

def unitItem (u : FileUnit) (limit : Option NodeId) : String → Datum
  | "diagnostics" => u.diagnostics
  | "counts" => [u.errors.length, u.warnings.length]
  | "unsafe_lines" => u.nodes.unsafeLines
  | "dependencies" => u.dependencies
  | "hash" => Hex.ofWord u.digest
  | "classes" => u.classes.toList.map (ofClassFacts view h)
  | "exprs" => rows limit (ofExprFacts view h) u.nodes.exprs
  | "decls" => rows limit (ofLocalFacts view h) u.nodes.locals
  | "functions" => rows limit ofFunctionFacts u.nodes.functions
  | "type_tests" => rows limit datum u.nodes.typeTests
  | code => (Warning.ofCode? code).map u.warningsOf

/-- What is asked of a unit: items, and the function of the head class up to which tables go. -/
def unitReport (u : FileUnit) (ask : Datum) : List (String × Datum) :=
  let limit := do (← (← u.tree).head.function? (← ask["upto"].str?)).id
  ("status", u.status.name) :: ("failed", u.isFailed) ::
    ask["what"].strings.map fun what => (what, unitItem view h u limit what)

end HotScript.Wire
