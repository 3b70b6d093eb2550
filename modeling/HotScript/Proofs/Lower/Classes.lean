import HotScript.Live.Project
import HotScript.Proofs.Lower.Bodies

/-!
Compiled files are well formed.

The functions of a class are emitted one after the other and share its lambdas, whose numbering only
grows. `LowerClass.Builds` says that a step of compiling a class keeps every lambda sound, and what
is known of its result then.
-/

namespace HotScript

/-! ### Steps of a class -/

/-- The lambdas of a class are sound, each with all of them at hand. -/
def SoundLambdas (lambdas : Array FunctionCode) : Prop := ∀ f ∈ lambdas, f.Sound lambdas

def GrownLambdas (lambdas more : Array FunctionCode) : Prop :=
  ∀ (i : Nat) f, lambdas[i]? = some f → more[i]? = some f

/-- A step of a class adds sound lambdas, and `post` holds of its result and of the lambdas then. -/
def LowerClass.Builds {α : Type} (m : LowerClass α) (post : Array FunctionCode → α → Prop) : Prop :=
  ∀ ⦃ls a ls'⦄, SoundLambdas ls → m ls = .ok (a, ls') →
    GrownLambdas ls ls' ∧ SoundLambdas ls' ∧ post ls' a

namespace Plan

open Lower Emitter

theorem emitting_builds {α : Type} (line : Nat) {act : Lower α} (entries : α → List Nat)
    (h : Completes (do return entries (← act))) :
    (emitting line act).Builds fun ls x => ∀ f : FunctionCode, f.chunk = x.2.chunk →
      f.pool = x.2.pool → f.stackSize = x.2.stackSize → f.entries = entries x.1 → f.Sound ls := by
  intro ls x ls' hls hx
  obtain ⟨_, _, h1, hx⟩ := bind_ok.1 hx
  obtain ⟨rfl, rfl⟩ := get_ok.1 h1
  obtain ⟨⟨a, e⟩, _, h2, hx⟩ := bind_ok.1 hx
  obtain ⟨hrun, rfl⟩ := lift_ok.1 h2
  obtain ⟨_, _, h3, hx⟩ := bind_ok.1 hx
  have hset := set_ok.1 h3
  subst hset
  obtain ⟨rfl, rfl⟩ := pure_ok.1 hx
  obtain ⟨hleads, hlambdas, hsound⟩ :=
    h (.fresh hls line) rfl (bind_ok.2 ⟨a, e, hrun, pure_ok.2 ⟨rfl, rfl⟩⟩)
  exact ⟨hleads.storage.lambdas, hlambdas, hsound⟩

variable (p : Plan) (decl : ClassDecl) (facts : ClassFacts) (d : VariableDecl)

theorem function_builds (d : FunctionDecl) (name : String) (accessorOf : List String) :
    (p.function d name accessorOf).Builds fun ls f => f.Sound ls := by
  intro ls f ls' hls h
  rw [function] at h
  cases hf : p.facts.functions.find? d.id with
  | none => exact (throw_ok.1 (hf ▸ h)).elim
  | some facts =>
    simp only [hf] at h
    obtain ⟨⟨entries, e⟩, ls1, h1, h⟩ := bind_ok.1 h
    obtain ⟨rfl, rfl⟩ := pure_ok.1 h
    obtain ⟨hgrown, hall, hsound⟩ := emitting_builds d.span.line id (by
      simp only [id_eq, bind_pure]
      exact completes (fun ts => if d.defaultCount = 0 then [] else ts)
        (defaults_emits (fun _ _ x _ => expr_evaluates _ x) _ _) (body_acts _ d.body)
        fun ts t ht => by split at ht <;> simp_all) hls h1
    exact ⟨hgrown, hall, hsound _ rfl rfl rfl rfl⟩

theorem initVariable_acts : (p.initVariable d).Acts [] := by
  refine .of_goes fun _ => ?_
  unfold initVariable
  split
  · exact .done
  · refine .bind .setLine fun _ => .bind (p.expr_evaluates _).free fun _ => ?_
    split
    · exact .bind .staticSlot fun _ => .bind .step fun _ => .bind .classPlace fun _ =>
        .bind (.emit (by simp [Opcode.roles, Opcode.isJump, Opcode.shape])) fun _ => .last .release
    · exact .bind .memberSlot fun _ => .bind .step fun _ => .last .release

theorem initializer_builds (vars : List VariableDecl) (isStatic : Bool) (line : Nat) :
    (p.initializer vars isStatic line).Builds fun ls f => ∀ g ∈ f, g.Sound ls := by
  intro ls f ls' hls h
  rw [initializer] at h
  split at h
  · obtain ⟨rfl, rfl⟩ := pure_ok.1 h
    exact ⟨fun _ _ h => h, hls, by simp⟩
  · obtain ⟨⟨u, e⟩, ls1, h1, h⟩ := bind_ok.1 h
    obtain ⟨rfl, rfl⟩ := pure_ok.1 h
    obtain ⟨hgrown, hall, hsound⟩ := emitting_builds line (fun _ => [])
      (fun e0 hs hl entries e h => by
      simp only [bind_ok] at h
      obtain ⟨_, e1, ⟨_, e2, h2, h1⟩, rfl, rfl⟩ := h
      have r := Goes.forM (fun d _ => (initVariable_acts _ d).free) (Run.start hs) h2
      exact complete_of_run r hl h1 (by simp)) hls h1
    exact ⟨hgrown, hall, fun g hg => Option.some.inj hg ▸ hsound _ rfl rfl rfl rfl⟩

theorem accessor_builds (d : Option FunctionDecl) (name : String) (accessorOf : List String) :
    (d.mapM fun f => p.function f name accessorOf).Builds fun ls f => ∀ g ∈ f, g.Sound ls := by
  intro ls f ls' hls h
  cases d with
  | none =>
    obtain ⟨rfl, rfl⟩ := pure_ok.1 h
    exact ⟨fun _ _ h => h, hls, by simp⟩
  | some d =>
    rw [Option.mapM_some, map_eq_pure_bind] at h
    obtain ⟨g, ls1, h1, h⟩ := bind_ok.1 h
    obtain ⟨rfl, rfl⟩ := pure_ok.1 h
    obtain ⟨hgrown, hall, hg⟩ := p.function_builds d name accessorOf hls h1
    exact ⟨hgrown, hall, by simpa using hg⟩

theorem inlineAccessors_builds :
    (p.inlineAccessors d).Builds fun ls fs => ∀ f ∈ fs, f.Sound ls := by
  intro ls fs ls' hls h
  rw [inlineAccessors] at h
  cases hd : d.accessors with
  | none | named =>
    obtain ⟨rfl, rfl⟩ := pure_ok.1 (by simpa only [hd] using h)
    exact ⟨fun _ _ h => h, hls, by simp⟩
  | inline getter setter =>
    simp only [hd] at h
    obtain ⟨g, ls1, h1, h⟩ := bind_ok.1 h
    obtain ⟨s, ls2, h2, h⟩ := bind_ok.1 h
    obtain ⟨rfl, rfl⟩ := pure_ok.1 h
    obtain ⟨hgrown, hls, hg⟩ := p.accessor_builds getter _ _ hls h1
    obtain ⟨hgrown', hls, hs⟩ := p.accessor_builds setter _ _ hls h2
    refine ⟨fun i f hi => hgrown' i f (hgrown i f hi), hls, fun f hf => ?_⟩
    rcases List.mem_append.1 hf with hf | hf
    · exact (hg f (by simpa using hf)).mono hgrown'
    · exact hs f (by simpa using hf)

def SoundFunctions (ls : Array FunctionCode) (c : ClassCode) : Prop :=
  ∀ f ∈ c.functions.values, f.Sound ls

variable {ls : Array FunctionCode}
variable {t : Table String FunctionCode} {c c' : ClassCode} {ls' : Array FunctionCode}

theorem soundFunctions_insert (ht : ∀ f ∈ t.values, f.Sound ls) {name : String} {g : FunctionCode}
    (hg : g.Sound ls) : ∀ f ∈ (t.insert name g).values, f.Sound ls := by
  intro f hf
  rcases Table.mem_values_insert hf with rfl | hf
  · exact hg
  · exact ht f hf

theorem soundFunctions_foldl {fs : List FunctionCode} (hfs : ∀ f ∈ fs, f.Sound ls)
    (ht : ∀ f ∈ t.values, f.Sound ls) :
    ∀ f ∈ (fs.foldl (fun t f => t.insert f.name f) t).values, f.Sound ls := by
  induction fs generalizing t with
  | nil => exact ht
  | cons g fs ih =>
    obtain ⟨hg, hfs⟩ := List.forall_mem_cons.1 hfs
    exact ih hfs (soundFunctions_insert ht hg)

theorem addMember_builds (m : Member) (hls : SoundLambdas ls) (hc : SoundFunctions ls c)
    (h : p.addMember decl facts c m ls = .ok (c', ls')) :
    GrownLambdas ls ls' ∧ SoundLambdas ls' ∧ SoundFunctions ls' c' := by
  rw [addMember] at h
  cases hn : m.name? with
  | none =>
    obtain ⟨rfl, rfl⟩ := pure_ok.1 (by simpa only [hn] using h)
    exact ⟨fun _ _ h => h, hls, hc⟩
  | some name =>
    cases m with
    | var d =>
      obtain ⟨fs, ls1, h1, h⟩ := bind_ok.1 h
      obtain ⟨rfl, rfl⟩ := pure_ok.1 h
      obtain ⟨hgrown, hls, hfs⟩ := p.inlineAccessors_builds d hls h1
      exact ⟨hgrown, hls, soundFunctions_foldl hfs fun f hf => (hc f hf).mono hgrown⟩
    | func d =>
      obtain ⟨f, ls1, h1, h⟩ := bind_ok.1 h
      obtain ⟨rfl, rfl⟩ := pure_ok.1 h
      obtain ⟨hgrown, hls, hf⟩ := p.function_builds d _ _ hls h1
      exact ⟨hgrown, hls, soundFunctions_insert (fun f hf => (hc f hf).mono hgrown) hf⟩
    | _ =>
      obtain ⟨rfl, rfl⟩ := pure_ok.1 h
      exact ⟨fun _ _ h => h, hls, hc⟩

theorem addMembers_builds {ms : List Member} (hls : SoundLambdas ls) (hc : SoundFunctions ls c)
    (h : ms.foldlM (p.addMember decl facts) c ls = .ok (c', ls')) :
    GrownLambdas ls ls' ∧ SoundLambdas ls' ∧ SoundFunctions ls' c' := by
  induction ms generalizing c ls with
  | nil =>
    obtain ⟨rfl, rfl⟩ := pure_ok.1 h
    exact ⟨fun _ _ h => h, hls, hc⟩
  | cons m ms ih =>
    obtain ⟨c1, ls1, h1, h⟩ := bind_ok.1 h
    obtain ⟨hgrown, hls, hc⟩ := p.addMember_builds decl facts m hls hc h1
    obtain ⟨hgrown', hls, hc⟩ := ih hls hc h
    exact ⟨fun i f hi => hgrown' i f (hgrown i f hi), hls, hc⟩

end Plan

/-! ### Classes and files -/

/-- All code of a class: functions and accessors, lambdas, and what runs its initializers. -/
def ClassCode.codes (c : ClassCode) : List FunctionCode :=
  c.functions.values ++ c.lambdas.toList ++ c.init.toList ++ c.staticInit.toList

namespace Plan

open Lower

variable {c : ClassCode}

theorem codes_sound (hls : SoundLambdas c.lambdas) (hc : SoundFunctions c.lambdas c)
    (hi : ∀ f ∈ c.init, f.Sound c.lambdas) (hs : ∀ f ∈ c.staticInit, f.Sound c.lambdas) :
    ∀ f ∈ c.codes, f.Sound c.lambdas := by
  intro f hf
  simp only [ClassCode.codes, List.mem_append, Option.mem_toList, Array.mem_toList_iff] at hf
  rcases hf with ((hf | hf) | hf) | hf
  · exact hc f hf
  · exact hls f hf
  · exact hi f hf
  · exact hs f hf

variable (p : Plan) {defaultBase : String} {decl : ClassDecl} {facts : ClassFacts}

theorem layout_of_classCode (h : p.classCode defaultBase decl facts = .ok c) :
    ∃ l, p.layouts.find? facts.ref = some (.ok l) := by
  rw [classCode] at h
  split at h
  · next hl =>
    obtain ⟨l, rfl, -⟩ := except_bind_ok.1 h
    exact ⟨l, hl⟩
  · cases h

theorem classCode_sound (h : p.classCode defaultBase decl facts = .ok c) :
    ∀ f ∈ c.codes, f.Sound c.lambdas := by
  obtain ⟨layout, hl⟩ := p.layout_of_classCode h
  rw [classCode, hl] at h
  obtain ⟨layout, -, h⟩ := except_bind_ok.1 h
  obtain ⟨⟨c', ls⟩, h0, h⟩ := except_bind_ok.1 h
  cases h
  obtain ⟨c1, ls1, h1, h⟩ := bind_ok.1 h0
  obtain ⟨init, ls2, h2, h⟩ := bind_ok.1 h
  obtain ⟨staticInit, ls3, h3, h⟩ := bind_ok.1 h
  obtain ⟨rfl, rfl⟩ := pure_ok.1 h
  obtain ⟨-, hls, hc⟩ := p.addMembers_builds decl facts (by simp [SoundLambdas])
    (by simp [SoundFunctions, Table.values]) h1
  obtain ⟨hgrown, hls, hi⟩ := p.initializer_builds _ _ _ hls h2
  obtain ⟨hgrown', hls, hs⟩ := p.initializer_builds _ _ _ hls h3
  exact codes_sound hls (fun f hf => ((hc f hf).mono hgrown).mono hgrown')
    (fun f hf => (hi f hf).mono hgrown') hs

end Plan

open Lower in
theorem forall₂_of_mapM_ok {α β : Type} {f : α → Except CompileFault β} {xs : List α} {ys : List β}
    (h : xs.mapM f = .ok ys) : List.Forall₂ (f · = .ok ·) xs ys := by
  induction xs generalizing ys with
  | nil =>
    cases h
    exact .nil
  | cons x xs ih =>
    rw [List.mapM_cons] at h
    obtain ⟨z, hz, h⟩ := except_bind_ok.1 h
    obtain ⟨zs, hzs, h⟩ := except_bind_ok.1 h
    cases h
    exact .cons hz (ih hzs)

variable {u : FileUnit} {settings : Settings} {registry : Registry} {layouts : Layouts}
  {code : FileCode}

open Lower in
theorem FileUnit.classes_of_compile (h : u.compile settings registry layouts = .ok code) :
    code.path = u.path ∧ code.hash = u.digest ∧ code.dependencies = u.dependencies ∧
      ∃ tree, u.tree = some tree ∧ List.Forall₂ (fun decl c => ∃ (p : Plan) (facts : ClassFacts),
        p.layouts = layouts ∧ p.classCode settings.defaultBase decl facts = .ok c)
        tree.classes.toList code.classes.toList := by
  rw [compile] at h
  split at h
  swap
  · cases h
  next tree hstatus hfailed htree =>
  obtain ⟨_, hpure, h⟩ := except_bind_ok.1 h
  cases hpure
  obtain ⟨classes, h1, h⟩ := except_bind_ok.1 h
  cases h
  rw [Array.mapM_eq_mapM_toList, map_eq_pure_bind] at h1
  obtain ⟨cs, hcs, h1⟩ := except_bind_ok.1 h1
  cases h1
  refine ⟨rfl, rfl, rfl, tree, htree, (forall₂_of_mapM_ok hcs).imp fun decl c h => ?_⟩
  cases hf : u.classFacts? decl.id with
  | none => simp [hf, throw, throwThe, MonadExceptOf.throw] at h
  | some facts =>
    simp only [hf] at h
    exact ⟨_, facts, rfl, h⟩

theorem FileUnit.compile_sound (h : u.compile settings registry layouts = .ok code) :
    ∀ c ∈ code.classes, ∀ f ∈ c.codes, f.Sound c.lambdas := by
  obtain ⟨-, -, -, tree, -, hall⟩ := classes_of_compile h
  intro c hc
  obtain ⟨i, hi, rfl⟩ := Array.mem_iff_getElem.1 hc
  obtain ⟨p, facts, -, h⟩ := hall.get (hall.length_eq ▸ hi) hi
  exact p.classCode_sound h

/-- **Compiled code is well formed.**  Whatever a workspace compiles from a file, every function,
accessor, lambda and initializer of every class that fits into words is well formed. -/
theorem Workspace.wellFormed_of_compile {w w' : Workspace} {id : UnitId} {code : FileCode}
    (h : w.compile id = some (.ok code, w')) {c : ClassCode} (hc : c ∈ code.classes)
    (hl : c.lambdas.size ≤ 0x100000000) {f : FunctionCode} (hf : f ∈ c.codes) (hr : f.InRange) :
    f.WellFormed c.lambdas := by
  rw [compile] at h
  split at h
  · cases h
  · simp only [Option.bind_eq_bind, Option.bind_eq_some_iff] at h
    obtain ⟨⟨layouts, w₁⟩, -, h⟩ := h
    have hcode := (Prod.mk.inj (Option.some.inj h)).1
    exact (FileUnit.compile_sound hcode c hc f hf).wellFormed hr hl

/-- A file with a function that has a default, a loop and a lambda with a capture, and with a
variable that has an initializer and a getter. -/
def countdownTree (path : String) : Tree :=
  let node (id : NodeId) : Node := ⟨id, .lines 1 1⟩
  let name (s : String) : Ident := ⟨s, .lines 1 1⟩
  let int (id : NodeId) (i : Int64) : Expr := .literal (node id) (.int i)
  let n (id : NodeId) : Expr := .ident (node id) "n"
  let function (id : NodeId) (called : String) (params : List ParamDecl) (body : List Stmt) :
      FunctionDecl :=
    { id, name := name called, params, result := none, body, bodySpan := .lines 1 1,
      isStatic := false }
  let lambda := function 1 "" [] [.giveBack (node 2) (some (n 3))]
  let param : ParamDecl :=
    { id := 4, name := name "n", type := none, infer := false, default := some (int 5 3) }
  let f := function 6 "f" [param]
    [ .whileLoop (node 7) (.binary (node 8) .greater (n 9) (int 10 0))
        [.expr (node 11) (.assign (node 12) (some .sub) (n 13) (int 14 1))],
      .giveBack (node 15) (some (.lambda (node 16) lambda)) ]
  let getter := function 17 "v" [] [.giveBack (node 18) (some (.ident (node 19) "v"))]
  let v : VariableDecl :=
    { id := 20, name := name "v", type := none, infer := false, isStatic := false, exported := false
      initializer := some (.array (node 21) [int 22 1]), accessors := .inline (some getter) none }
  let head : ClassDecl := { id := 0, name := none, qualified := path, span := .lines 1 1 }
  { path, nodeCount := 23, classes := #[(head.addMember (.func f)).addMember (.var v)] }

def countdown : Workspace :=
  let start : Workspace :=
    { files := .ofList [("res://m.br", .text "")]
      programs := .ofList [("", fun path h => ({ tree := some (countdownTree path) }, h))] }
  ((start.getUnit "res://m.br" .fullySolved).map (·.2)).getD start

/-- The function, the getter, the lambda and the initializer of the file are compiled and well
formed. -/
theorem countdown_wellFormed : ∃ code w', countdown.compile 0 = some (.ok code, w') ∧
    code.classes.size = 1 ∧ ∀ c ∈ code.classes, c.lambdas.size = 1 ∧ c.codes.length = 4 ∧
      ∀ f ∈ c.codes, f.InRange ∧ f.WellFormed c.lambdas := by
  have h : ((countdown.compile 0).any fun x => x.1.toOption.any fun code =>
      code.classes.size = 1 ∧ ∀ c ∈ code.classes,
        c.lambdas.size = 1 ∧ c.codes.length = 4 ∧ ∀ f ∈ c.codes, f.InRange) = true := by
    decide +kernel
  obtain ⟨⟨r, w'⟩, hcode, h⟩ := (Option.any_eq_true _ _).1 h
  cases r with
  | error fault => cases h
  | ok code =>
    obtain ⟨hsize, hall⟩ := of_decide_eq_true h
    refine ⟨code, w', hcode, hsize, fun c hc => ?_⟩
    obtain ⟨hl, hn, hr⟩ := hall c hc
    refine ⟨hl, hn, fun f hf => ⟨hr f hf, ?_⟩⟩
    exact Workspace.wellFormed_of_compile hcode hc (by omega) hf (hr f hf)

end HotScript
