import HotScript.Proofs.Live.Restoring

/-!
What functions are given when they are called.

A function that is called by its name is run only with as many arguments as it takes, each fitted to
the type of its parameter. A callable for a lambda has the function run with whatever it was given.
-/

namespace HotScript

variable {f : FunctionCode} {k : Kinship} {w : World}

/-- What a function takes for the value given in place `i`: the value as it is where no type is
declared, and otherwise what fitting it to the declared type makes of it. Fitting may build
containers, so the heap goes along. -/
def FunctionCode.Converts (f : FunctionCode) (k : Kinship) (i : Nat) (v : Value) (heap : Heap)
    (y : Value) (heap' : Heap) : Prop :=
  match f.argTypes[i]? with
  | none => y = v ∧ heap' = heap
  | some type => (fit k type v).run heap = some (y, heap')

/-- Arguments are converted from the first to the last, each in the heap that the one before
left. -/
inductive FunctionCode.Fitted (f : FunctionCode) (k : Kinship) :
    Nat → List Value → Heap → List Value → Heap → Prop
  | nil {i : Nat} {heap : Heap} : Fitted f k i [] heap [] heap
  | cons {i : Nat} {v y : Value} {rest fitted : List Value} {heap heap1 heap' : Heap} :
    f.Converts k i v heap y heap1 → Fitted f k (i + 1) rest heap1 fitted heap' →
      Fitted f k i (v :: rest) heap (y :: fitted) heap'

/-- The first argument that cannot be converted, in the heap that the ones before it left, is the
fault. -/
inductive FunctionCode.Misfit (f : FunctionCode) (k : Kinship) :
    Nat → List Value → Heap → CallFault → Heap → Prop
  | here {i : Nat} {v : Value} {rest : List Value} {heap : Heap} {type : StaticType} :
    f.argTypes[i]? = some type → (fit k type v).run heap = none →
      Misfit f k i (v :: rest) heap (.invalidArgument f.name i type.text) heap
  | later {i : Nat} {v y : Value} {rest : List Value} {heap heap1 heap' : Heap}
      {fault : CallFault} :
    f.Converts k i v heap y heap1 → Misfit f k (i + 1) rest heap1 fault heap' →
      Misfit f k i (v :: rest) heap fault heap'

/-- A call of a function has it run with the right number of arguments, each converted, or fails and
has nothing run. The state is the one before the call, up to the containers that converting
built. -/
def FunctionCode.Checks (f : FunctionCode) (w : World) (s : ScriptId) (bound : Option InstanceId)
    (args : List Value) : Prop :=
  (f.least ≤ args.length ∧ args.length ≤ f.arity ∧
    ∃ fitted heap, f.Fitted w.kinship 0 args w.heap fitted heap ∧
      ∀ r, (Attempt.invoke r s f bound args).run w = (Attempt.holding (Value.cells args)
        (r.execute s f (if f.isStatic then none else bound) fitted)).run (w.withHeap heap)) ∨
  ∃ fault heap,
    (∀ r, (Attempt.invoke r s f bound args).run w = some (.error fault, w.withHeap heap)) ∧
    (args.length < f.least ∧ fault = .tooFewArguments f.name f.least args.length ∧ heap = w.heap ∨
      f.arity < args.length ∧ fault = .tooManyArguments f.name f.arity args.length ∧ heap = w.heap ∨
      f.least ≤ args.length ∧ args.length ≤ f.arity ∧ f.Misfit w.kinship 0 args w.heap fault heap)

/-- Fitting a value changes the heap at most, and to what `fit` makes of it. -/
theorem Live.fitTo_heap (type : StaticType) (v : Value) (w : World) :
    (∃ y heap, fitTo type v w = some (some y, w.withHeap heap) ∧
      (fit w.kinship type v).run w.heap = some (y, heap)) ∨
    fitTo type v w = some (none, w) ∧ (fit w.kinship type v).run w.heap = none := by
  unfold fitTo
  cases hfit : (fit w.kinship type v).run w.heap with
  | none => exact .inr ⟨congrArg some (by simp only [hfit]), rfl⟩
  | some y => exact .inl ⟨y.1, y.2, congrArg some (by simp only [hfit]), rfl⟩

/-- What descends from what does not depend on the heap. -/
theorem World.kinship_withHeap (w : World) (heap : Heap) :
    (w.withHeap heap).kinship = w.kinship := by
  have hchain : (w.withHeap heap).codeChain = w.codeChain := by
    funext s
    exact codeChain_congr (v := w.withHeap heap) (w := w) rfl (fun _ => ⟨rfl, rfl⟩) s
  unfold World.kinship World.inheritsClass
  rw [hchain]
  rfl

namespace Attempt

/-- One argument: it is converted and the others follow in the state that this leaves, or it is the
fault. -/
theorem fitArguments_cons (i : Nat) (v : Value) (rest : List Value) (w : World) :
    (∃ y heap, f.Converts w.kinship i v w.heap y heap ∧ (fitArguments f i (v :: rest)).run w =
      (do return y :: (← fitArguments f (i + 1) rest) : Attempt (List Value)).run
        (w.withHeap heap)) ∨
    ∃ fault, f.Misfit w.kinship i (v :: rest) w.heap fault w.heap ∧
      (fitArguments f i (v :: rest)).run w = some (.error fault, w) := by
  rw [fitArguments]
  unfold FunctionCode.Converts
  cases htype : f.argTypes[i]? with
  | none => exact .inl ⟨v, w.heap, ⟨rfl, rfl⟩, rfl⟩
  | some type =>
    obtain ⟨y, heap, hrun, hfit⟩ | ⟨hrun, hfit⟩ := Live.fitTo_heap type v w
    · refine .inl ⟨y, heap, hfit, ?_⟩
      rw [run_lift_bind, hrun]
      rfl
    · refine .inr ⟨_, .here htype hfit, ?_⟩
      rw [run_lift_bind, hrun]
      rfl

theorem fitArguments_run (f : FunctionCode) (i : Nat) (args : List Value) (w : World) :
    (∃ fitted heap, f.Fitted w.kinship i args w.heap fitted heap ∧
      (fitArguments f i args).run w = some (.ok fitted, w.withHeap heap)) ∨
    ∃ fault heap, f.Misfit w.kinship i args w.heap fault heap ∧
      (fitArguments f i args).run w = some (.error fault, w.withHeap heap) := by
  induction args generalizing i w with
  | nil => exact .inl ⟨[], w.heap, .nil, rfl⟩
  | cons v rest ih =>
    obtain ⟨y, heap, hconv, hrun⟩ | ⟨fault, hmisfit, hrun⟩ := fitArguments_cons (f := f) i v rest w
    · -- the classes are those of the state before: only the heap has changed
      obtain ⟨fitted, heap', hfitted, hrest⟩ | ⟨fault, heap', hmisfit, hrest⟩ :=
        w.kinship_withHeap heap ▸ ih (i + 1) (w.withHeap heap)
      · exact .inl ⟨_, heap', .cons hconv hfitted, hrun.trans (bind_some.2 ⟨_, _, hrest, rfl⟩)⟩
      · exact .inr ⟨fault, heap', .later hconv hmisfit, hrun.trans (bind_some.2 ⟨_, _, hrest, rfl⟩)⟩
    · exact .inr ⟨fault, w.heap, hmisfit, hrun⟩

theorem checked_invoke (w : World) (s : ScriptId) (f : FunctionCode) (bound : Option InstanceId)
    (args : List Value) : f.Checks w s bound args := by
  unfold FunctionCode.Checks Attempt.invoke
  by_cases hleast : args.length < f.least
  · simp only [if_pos hleast]
    exact .inr ⟨_, w.heap, fun r => rfl, .inl ⟨hleast, rfl, rfl⟩⟩
  by_cases hmost : f.arity < args.length
  · simp only [if_neg hleast, if_pos hmost]
    exact .inr ⟨_, w.heap, fun r => rfl, .inr (.inl ⟨hmost, rfl, rfl⟩)⟩
  simp only [if_neg hleast, if_neg hmost]
  have hleast := Nat.le_of_not_lt hleast
  have hmost := Nat.le_of_not_lt hmost
  have hrun {result heap} (h : (fitArguments f 0 args).run w = some (result, w.withHeap heap))
      (go : List Value → Attempt Value) : (fitArguments f 0 args >>= go).run w =
      (ExceptT.bindCont go result) (w.withHeap heap) := by
    show ((fitArguments f 0 args).run w).bind _ = _
    rw [h]
    rfl
  obtain ⟨fitted, heap, hfitted, h⟩ | ⟨fault, heap, hmisfit, h⟩ := fitArguments_run f 0 args w
  · exact .inl ⟨hleast, hmost, fitted, heap, hfitted, fun r => hrun h _⟩
  · exact .inr ⟨fault, heap, fun r => hrun h _, .inr (.inr ⟨hleast, hmost, hmisfit⟩)⟩

/-- **Arguments are checked where a function is called by its name.** A call on an instance, on a
class, of the function of a base, or of a callable for a method or a static function comes down to
`invoke`, which checks them. A lambda is run with what it captured and whatever it was given. -/
theorem calls_checked (w : World) :
    (∀ s (f : FunctionCode) bound args, f.Checks w s bound args) ∧
    ∀ r args, (∀ i name level f, w.isUsable i →
      w.function? (w.inst i).script name = some (level, f) →
        (callMethod r i name args).run w =
          (holding [.inst i, .script level] (invoke r level f (some i) args)).run w) ∧
      (∀ s name level f, w.function? s name = some (level, f) → f.isStatic →
        (callStatic r s name args).run w = (invoke r level f none args).run w) ∧
      (∀ (a : Activation) (i : Instr), i.op = .callSelfBase → step r a i = (do
        let name ← nameAt a i 1
        trailing r a i fun args => do
          let w ← get
          match ((w.script a.script).base).bind (w.function? · name) with
          | some (level, f) => result a i (← invoke r level f a.bound args)
          | none => throw (a.fault ("no base implementation of " ++ Text.quoted name)))) ∧
      (∀ id shown i name, w.closures[id]? = some (.method i name) → w.isInstanceAlive i →
        (callCallable r (.custom id shown) args).run w = (callMethod r i name args).run w) ∧
      (∀ id shown s name, w.closures[id]? = some (.static s name) → w.isScriptAlive s →
        (callCallable r (.custom id shown) args).run w =
          (holding [.script s] (callStatic r s name args)).run w) ∧
      ∀ id shown table place s captures bound f,
        w.closures[id]? = some (.lambda table place s captures bound) →
        (w.lambdaTable table).get? place = some f → w.isScriptAlive s →
        bound.all w.isInstanceAlive →
        (callCallable r (.custom id shown) args).run w =
          (r.execute s f bound (captures ++ args)).run w := by
  refine ⟨checked_invoke w, fun r args => ⟨fun i name level f husable hfound => ?_,
    fun s name level f hfound hstatic => ?_, fun a i hop => ?_,
    fun id shown i name hmade halive => ?_, fun id shown s name hmade halive => ?_,
    fun id shown table place s captures bound f hmade hf hs hi => ?_⟩⟩
  · unfold callMethod
    rw [run_get_bind, husable, hfound]
    rfl
  · unfold callStatic
    rw [run_get_bind, hfound]
    dsimp only
    rw [if_pos hstatic]
  · unfold step
    exact hop ▸ rfl
  · unfold callCallable
    rw [run_get_bind, hmade]
    dsimp only
    rw [if_pos halive]
  · unfold callCallable
    rw [run_get_bind, hmade]
    dsimp only
    rw [if_pos halive]
  · rw [callCallable_lambda hmade, hf, callLambda]
    rw [run_get_bind, if_pos (by rw [hs, hi]; rfl)]

end Attempt

/-! ### Functions that take a number -/

open Attempt

/-- A file with a function of its instances, one of the class and a lambda that take a number each.
It is loaded, an instance made, and a callable for each of the three. -/
def numberTakers : List Request :=
  let number (id : NodeId) : ParamDecl :=
    { id, name := .named "a", type := some (.mk [.named "int"] [] (.lines 1 1)), infer := false
      default := none }
  let taker (id : NodeId) (name : String) (isStatic : Bool) : FunctionDecl :=
    { id, name := .named name, params := [number (id + 1)], result := none, isStatic
      body := [.giveBack (.numbered (id + 2)) (some (.ident (.numbered (id + 3)) "a"))]
      bodySpan := .lines 1 1 }
  let gives (id : NodeId) (name : String) (e : Expr) : Member :=
    .function id name true [.giveBack (.numbered (id + 1)) (some e)]
  [.texts [("res://a.br", "one")] [("one", fileWith none
      [.func (taker 0 "take" false), .func (taker 4 "keep" true),
        gives 8 "keeper" (.ident (.numbered 10) "keep"),
        gives 11 "make" (.lambda (.numbered 13) (taker 14 "" false))] [] 18)],
    .load "res://a.br" false, .newObject 0 [], .getMember 0 "take", .callStatic 0 "keeper" [],
    .createLambda 0 0 [] none]

/-- The function of an instance or of a class that a callable stands for. -/
def Closure.named? : Closure → Option (Nat × String × Bool)
  | .method i name => some (i, name, false)
  | .static s name => some (s, name, true)
  | .lambda .. => none

/-- The lambda that a callable without captures and without an instance stands for. -/
def Closure.lambda? : Closure → Option (LambdasId × Nat × ScriptId)
  | .lambda table place s [] none => some (table, place, s)
  | _ => none

theorem Closure.of_named? {c : Closure} {n : Nat} {name : String} {isStatic : Bool}
    (h : c.named? = some (n, name, isStatic)) :
    c = if isStatic then .static n name else .method n name := by
  cases c with
  | lambda => cases h
  | method | static =>
    cases h
    rfl

theorem Closure.of_lambda? {c : Closure} {table : LambdasId} {place : Nat} {s : ScriptId}
    (h : c.lambda? = some (table, place, s)) : c = .lambda table place s [] none := by
  unfold lambda? at h
  split at h
  · cases h
    rfl
  · cases h

/-- A text is refused by both functions, whichever way they are called, and handed to the lambda. -/
theorem numberTakers_checked :
    ∃ w take keep f, Live.serve numberTakers .host = some ((), w) ∧
      w.function? 0 "take" = some (0, take) ∧ w.function? 0 "keep" = some (0, keep) ∧
      (w.lambdaTable (w.script 0).lambdas).get? 0 = some f ∧
      take.Checks w 0 (some 0) [.string "a"] ∧ keep.Checks w 0 none [.string "a"] ∧
      ∀ r, (callMethod r 0 "take" [.string "a"]).run w =
          (holding [.inst 0, .script 0] (invoke r 0 take (some 0) [.string "a"])).run w ∧
        (callStatic r 0 "keep" [.string "a"]).run w = (invoke r 0 keep none [.string "a"]).run w ∧
        (callCallable r (.custom 0 "take") [.string "a"]).run w =
          (callMethod r 0 "take" [.string "a"]).run w ∧
        (callCallable r (.custom 1 "keep") [.string "a"]).run w =
          (holding [.script 0] (callStatic r 0 "keep" [.string "a"])).run w ∧
        (callCallable r (.custom 2 "") [.string "a"]).run w =
          (r.execute 0 f none [.string "a"]).run w := by
  obtain ⟨w, run, h0, h1, h2, hhome, husable, halive, hscript,
    ⟨level, take, htake, rfl⟩, ⟨level', keep, hkeep, rfl, hstatic⟩, hf⟩ :
      ∃ w, Live.serve numberTakers .host = some ((), w) ∧
        w.closures[0]?.bind Closure.named? = some (0, "take", false) ∧
        w.closures[1]?.bind Closure.named? = some (0, "keep", true) ∧
        w.closures[2]?.bind Closure.lambda? = some ((w.script 0).lambdas, 0, 0) ∧
        (w.inst 0).script = 0 ∧ w.isUsable 0 ∧ w.isInstanceAlive 0 ∧ w.isScriptAlive 0 ∧
        (∃ l f, w.function? 0 "take" = some (l, f) ∧ l = 0) ∧
        (∃ l f, w.function? 0 "keep" = some (l, f) ∧ l = 0 ∧ f.isStatic) ∧
        ((w.lambdaTable (w.script 0).lambdas).get? 0).isSome := by
    decide +kernel
  obtain ⟨f, hf⟩ := Option.isSome_iff_exists.1 hf
  obtain ⟨c0, h0, hc0⟩ := Option.bind_eq_some_iff.1 h0
  obtain ⟨c1, h1, hc1⟩ := Option.bind_eq_some_iff.1 h1
  obtain ⟨c2, h2, hc2⟩ := Option.bind_eq_some_iff.1 h2
  rw [Closure.of_named? hc0] at h0
  rw [Closure.of_named? hc1] at h1
  rw [Closure.of_lambda? hc2] at h2
  obtain ⟨hchecks, hcalls⟩ := calls_checked w
  refine ⟨w, take, keep, f, run, htake, hkeep, hf, hchecks .., hchecks .., fun r => ?_⟩
  obtain ⟨hmethod, hclass, -, hbound, hfunction, hlambda⟩ := hcalls r [.string "a"]
  exact ⟨hmethod 0 "take" 0 take husable (hhome.symm ▸ htake), hclass 0 "keep" 0 keep hkeep hstatic,
    hbound 0 "take" 0 "take" h0 halive, hfunction 1 "keep" 0 "keep" h1 hscript,
    hlambda 2 "" _ 0 0 [] none f h2 hf hscript rfl⟩

/-- The lambda takes one number, and is run without any and with a text, which it gives back. -/
theorem numberTakers_unchecked :
    ∃ w f, Live.serve numberTakers .host = some ((), w) ∧
      (w.lambdaTable (w.script 0).lambdas).get? 0 = some f ∧
      f.least = 1 ∧ f.arity = 1 ∧ f.argTypes[0]?.map (·.text) = some "int" ∧
      (((callCallable .standard (.custom 2 "") []).run w).bind (·.1.toOption)).map Value.tag =
        some .nil ∧
      (((callCallable .standard (.custom 2 "") [.string "a"]).run w).bind
        (·.1.toOption.bind Value.text?)) = some "a" := by
  obtain ⟨w, run, ⟨f, hf⟩, hcalls⟩ : ∃ w, Live.serve numberTakers .host = some ((), w) ∧
      (∃ f, (w.lambdaTable (w.script 0).lambdas).get? 0 = some f ∧ f.least = 1 ∧ f.arity = 1 ∧
        f.argTypes[0]?.map (·.text) = some "int") ∧
      (((callCallable .standard (.custom 2 "") []).run w).bind (·.1.toOption)).map Value.tag =
        some .nil ∧
      (((callCallable .standard (.custom 2 "") [.string "a"]).run w).bind
        (·.1.toOption.bind Value.text?)) = some "a" := by
    decide +kernel
  exact ⟨w, f, run, hf.1, hf.2.1, hf.2.2.1, hf.2.2.2, hcalls⟩

end HotScript
