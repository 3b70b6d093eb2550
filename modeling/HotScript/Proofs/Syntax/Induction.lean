import HotScript.Syntax.Tree

/-!
Induction over syntax trees.

Expressions, statements and patterns nest in each other through lists, options and declarations. The
principle asks for one step per construct, which may assume the property of all its direct parts.
-/

namespace HotScript

/-- Properties of expressions, statements and patterns that pass from the parts of a construct to
the construct. -/
structure Hereditary (PE : Expr → Prop) (PS : Stmt → Prop) (PP : Pattern → Prop) : Prop where
  literal : ∀ n v, PE (.literal n v)
  ident : ∀ n name, PE (.ident n name)
  self : ∀ n, PE (.self n)
  array : ∀ n es, (∀ x ∈ es, PE x) → PE (.array n es)
  dictionary : ∀ n es, (∀ e ∈ es, PE e.1 ∧ PE e.2) → PE (.dictionary n es)
  unary : ∀ n op x, PE x → PE (.unary n op x)
  binary : ∀ n op x y, PE x → PE y → PE (.binary n op x y)
  ternary : ∀ n c x y, PE c → PE x → PE y → PE (.ternary n c x y)
  assign : ∀ n op target value, PE target → PE value → PE (.assign n op target value)
  field : ∀ n base name, PE base → PE (.field n base name)
  subscript : ∀ n base index, PE base → PE index → PE (.subscript n base index)
  call : ∀ n callee args isSuper, PE callee → (∀ x ∈ args, PE x) → PE (.call n callee args isSuper)
  cast : ∀ n x t, PE x → PE (.cast n x t)
  typeTest : ∀ n x t negated, PE x → PE (.typeTest n x t negated)
  lambda : ∀ n f, (∀ d ∈ f.params, ∀ x ∈ d.default, PE x) → (∀ s ∈ f.body, PS s) → PE (.lambda n f)
  preload : ∀ n path, PE (.preload n path)
  await : ∀ n x, PE x → PE (.await n x)
  expr : ∀ n x, PE x → PS (.expr n x)
  var : ∀ n d, (∀ x ∈ d.initializer, PE x) → PS (.var n d)
  const : ∀ n d, PE d.initializer → PS (.const n d)
  ifElse : ∀ n c yes no, PE c → (∀ s ∈ yes, PS s) → (∀ body ∈ no, ∀ s ∈ body, PS s) →
    PS (.ifElse n c yes no)
  whileLoop : ∀ n c body, PE c → (∀ s ∈ body, PS s) → PS (.whileLoop n c body)
  forLoop : ∀ n name t iterable body, PE iterable → (∀ s ∈ body, PS s) →
    PS (.forLoop n name t iterable body)
  matchOn : ∀ n subject bs, PE subject →
    (∀ b ∈ bs, (∀ p ∈ b.patterns, PP p) ∧ (∀ g ∈ b.guard, PE g) ∧ ∀ s ∈ b.body, PS s) →
    PS (.matchOn n subject bs)
  giveBack : ∀ n v, (∀ x ∈ v, PE x) → PS (.giveBack n v)
  breakLoop : ∀ n, PS (.breakLoop n)
  continueLoop : ∀ n, PS (.continueLoop n)
  pass : ∀ n, PS (.pass n)
  assert : ∀ n c m, PE c → (∀ x ∈ m, PE x) → PS (.assert n c m)
  patternLiteral : ∀ n x, PE x → PP (.literal n x)
  patternExpr : ∀ n x, PE x → PP (.expr n x)
  bind : ∀ n name, PP (.bind n name)
  wildcard : ∀ n, PP (.wildcard n)
  rest : ∀ n, PP (.rest n)
  patternArray : ∀ n es, (∀ p ∈ es, PP p) → PP (.array n es)
  patternDictionary : ∀ n es, (∀ e ∈ es, PP e.1 ∧ ∀ v ∈ e.2, PP v) → PP (.dictionary n es)

namespace Hereditary

variable {PE : Expr → Prop} {PS : Stmt → Prop} {PP : Pattern → Prop} (h : Hereditary PE PS PP)
include h

set_option linter.unusedSectionVars false in
mutual

theorem exprs : (x : Expr) → PE x
  | .literal n v => h.literal n v
  | .ident n name => h.ident n name
  | .self n => h.self n
  | .array n es => h.array n es (exprList es)
  | .dictionary n es => h.dictionary n es (entryList es)
  | .unary n op x => h.unary n op x (exprs x)
  | .binary n op x y => h.binary n op x y (exprs x) (exprs y)
  | .ternary n c x y => h.ternary n c x y (exprs c) (exprs x) (exprs y)
  | .assign n op target value => h.assign n op target value (exprs target) (exprs value)
  | .field n base name => h.field n base name (exprs base)
  | .subscript n base index => h.subscript n base index (exprs base) (exprs index)
  | .call n callee args isSuper => h.call n callee args isSuper (exprs callee) (exprList args)
  | .cast n x t => h.cast n x t (exprs x)
  | .typeTest n x t negated => h.typeTest n x t negated (exprs x)
  | .lambda n ⟨_, _, params, _, body, _, _⟩ =>
    h.lambda n _ (paramList params) (stmtList body)
  | .preload n path => h.preload n path
  | .await n x => h.await n x (exprs x)

theorem exprList : (es : List Expr) → ∀ x ∈ es, PE x
  | [] => by simp
  | x :: es => List.forall_mem_cons.2 ⟨exprs x, exprList es⟩

theorem entryList : (es : List (Expr × Expr)) → ∀ e ∈ es, PE e.1 ∧ PE e.2
  | [] => by simp
  | (x, y) :: es => List.forall_mem_cons.2 ⟨⟨exprs x, exprs y⟩, entryList es⟩

theorem exprOption : (o : Option Expr) → ∀ x ∈ o, PE x
  | none => by simp
  | some x => by simpa using exprs x

theorem paramList : (ds : List ParamDecl) → ∀ d ∈ ds, ∀ x ∈ d.default, PE x
  | [] => by simp
  | ⟨_, _, _, _, o⟩ :: ds => List.forall_mem_cons.2 ⟨exprOption o, paramList ds⟩

theorem stmts : (s : Stmt) → PS s
  | .expr n x => h.expr n x (exprs x)
  | .var n ⟨_, _, _, _, o, _, _, _⟩ => h.var n _ (exprOption o)
  | .const n ⟨_, _, _, x⟩ => h.const n _ (exprs x)
  | .ifElse n c yes none => h.ifElse n c yes none (exprs c) (stmtList yes) (by simp)
  | .ifElse n c yes (some no) =>
    h.ifElse n c yes (some no) (exprs c) (stmtList yes) (by simpa using stmtList no)
  | .whileLoop n c body => h.whileLoop n c body (exprs c) (stmtList body)
  | .forLoop n name t iterable body =>
    h.forLoop n name t iterable body (exprs iterable) (stmtList body)
  | .matchOn n subject bs => h.matchOn n subject bs (exprs subject) (branchList bs)
  | .giveBack n o => h.giveBack n o (exprOption o)
  | .breakLoop n => h.breakLoop n
  | .continueLoop n => h.continueLoop n
  | .pass n => h.pass n
  | .assert n c o => h.assert n c o (exprs c) (exprOption o)

theorem stmtList : (ss : List Stmt) → ∀ s ∈ ss, PS s
  | [] => by simp
  | s :: ss => List.forall_mem_cons.2 ⟨stmts s, stmtList ss⟩

theorem branchList : (bs : List Branch) →
    ∀ b ∈ bs, (∀ p ∈ b.patterns, PP p) ∧ (∀ g ∈ b.guard, PE g) ∧ ∀ s ∈ b.body, PS s
  | [] => by simp
  | ⟨_, ps, o, ss⟩ :: bs =>
    List.forall_mem_cons.2 ⟨⟨patternList ps, exprOption o, stmtList ss⟩, branchList bs⟩

theorem patterns : (p : Pattern) → PP p
  | .literal n x => h.patternLiteral n x (exprs x)
  | .expr n x => h.patternExpr n x (exprs x)
  | .bind n name => h.bind n name
  | .wildcard n => h.wildcard n
  | .rest n => h.rest n
  | .array n es => h.patternArray n es (patternList es)
  | .dictionary n es => h.patternDictionary n es (patternEntryList es)

theorem patternList : (ps : List Pattern) → ∀ p ∈ ps, PP p
  | [] => by simp
  | p :: ps => List.forall_mem_cons.2 ⟨patterns p, patternList ps⟩

theorem patternEntryList :
    (es : List (Pattern × Option Pattern)) → ∀ e ∈ es, PP e.1 ∧ ∀ v ∈ e.2, PP v
  | [] => by simp
  | (p, none) :: es => List.forall_mem_cons.2 ⟨⟨patterns p, by simp⟩, patternEntryList es⟩
  | (p, some v) :: es =>
    List.forall_mem_cons.2 ⟨⟨patterns p, by simpa using patterns v⟩, patternEntryList es⟩

end

end Hereditary

/-- Names and elements are what can be assigned to or looked into. -/
def Expr.isPlace : Expr → Bool
  | .ident .. | .field .. | .subscript .. => true
  | _ => false

theorem Expr.ne_place {x : Expr} (h : x.isPlace = false) : (∀ n name, x ≠ .ident n name) ∧
    (∀ n b name, x ≠ .field n b name) ∧ ∀ n b i, x ≠ .subscript n b i := by
  cases x <;> simp_all [isPlace]

end HotScript
