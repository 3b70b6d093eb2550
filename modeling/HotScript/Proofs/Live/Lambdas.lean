import HotScript.Proofs.Live.Requests
import HotScript.Proofs.Live.Running

/-!
Callables made for lambdas, across reloads.

A callable should stand for the lambda at its place in the class as it is installed now, or for
nothing (`World.IsCurrent`). But a second version of the class retargets only the table that the
first one made, and the callable stays with the function that the first version gave it
(`serve_followsFirst`).
-/

namespace HotScript

variable {w' : World} {events : List CodeEvent}

namespace Live

theorem journeying_perform {J : World.Journey} (request : Request) :
    Evolving J.toCourse (perform request) := by
  have hr := Runner.evolving_standard (J := J)
  cases request with
  | write files programs => exact .modify fun _ => J.work ..
  | setSource s source => exact .modify fun _ => J.dressed
  | load path update => exact .done (follows_fullScript hr _ _)
  | reload s keep => exact .done (follows_reload hr _ _)
  | reloadFiles paths keep => exact .done (follows_reloadFiles hr _ _)
  | reloadAll => exact .done (follows_reloadAll hr)
  | createLambda s place captures bound =>
    exact .done (evolving_createLambda _ _ _ _)
  | callValue c args => exact .done (Attempt.evolving_callCallable hr _ _)
  | callStatic s name args => exact .done (Attempt.follows_callStatic hr _ _ _)
  | callMethod i name args => exact .done (Attempt.follows_callMethod hr _ _ _)
  | newObject s args => exact .done (Attempt.follows_newObject hr _ _)
  | getMember i name => exact .done (follows_getMember hr _ _)
  | setMember i name v => exact .done (follows_setByName hr _ _ _)

theorem evolving_perform (request : Request) :
    Evolving World.evolution.toCourse (perform request) :=
  journeying_perform request

end Live

/-! ### Entries of tables -/

theorem LambdaTable.get?_retarget (t : LambdaTable) (replacement : Array FunctionCode) (i : Nat) :
    (t.retarget replacement).get? i = successor (t.get? i) replacement[i]? := by
  unfold retarget get?
  rw [Array.getElem?_mapIdx]
  cases t.functions[i]? with
  | none => rfl
  | some old => rfl

theorem LambdaTable.get?_ofFunctions (functions : Array FunctionCode) (i : Nat) :
    (ofFunctions functions).get? i = functions[i]? := by
  unfold ofFunctions get?
  rw [Array.getElem?_map]
  cases functions[i]? with
  | none => rfl
  | some f => rfl

/-- What was made of a function by the versions that followed: the first of them decides. -/
def followedBy (f : FunctionCode) (place : Nat) (later : List ClassCode) : Option FunctionCode :=
  match later.head? with
  | none => some f
  | some c => LambdaTable.successor (some f) c.lambdas[place]?

/-- An entry that was made for the function `f` of a class is empty or holds the function at its
place in the code that the class has now, which takes the calls made for `f`. -/
def World.IsCurrent (w : World) (table : LambdasId) (place : Nat) (s : ScriptId)
    (f : FunctionCode) : Prop :=
  ∀ g, (w.lambdaTable table).get? place = some g →
    LambdaTable.sameShape f g ∧ ∃ c, (w.script s).code = some c ∧ c.lambdas[place]? = some g

variable {f g : FunctionCode} {w : World} {s : ScriptId} {place i : Nat}

theorem LambdaTable.successor_eq_some {new : Option FunctionCode}
    (h : successor (some f) new = some g) : new = some g ∧ sameShape f g := by
  cases new with
  | none => cases h
  | some n =>
    simp only [successor] at h
    split at h
    · rename_i hshape
      cases h
      exact ⟨rfl, hshape⟩
    · cases h

theorem LambdaTable.sameShape_refl (f : FunctionCode) : sameShape f f := by simp [sameShape]

section

variable (h : w.Evolves events w') (hw : w.OwnTables) (hs : s < w.scripts.size) (hf : (w.lambdaTable
  (w.script s).lambdas).get? place = some f)
include h hw hs hf

theorem World.Evolves.entry :
    (w'.lambdaTable (w.script s).lambdas).get? place = followedBy f place (versions s events) := by
  rw [h.table hw hs, followedBy]
  cases (versions s events).head? with
  | none => exact hf
  | some c => exact (LambdaTable.get?_retarget ..).trans (congrArg (LambdaTable.successor · _) hf)

theorem World.Evolves.isCurrent (hone : (versions s events).length ≤ 1) :
    w'.IsCurrent (w.script s).lambdas place s f := by
  intro g hg
  rw [h.entry hw hs hf] at hg
  have hcode := h.code s
  match hv : versions s events with
  | [] =>
    rw [hv] at hg hcode
    cases hg
    refine ⟨LambdaTable.sameShape_refl f, ?_⟩
    have htable := hw.current s hs
    rw [htable] at hf
    cases hc : (w.script s).code with
    | none =>
      rw [hc] at hf
      cases hf
    | some c =>
      rw [hc, LambdaTable.get?_ofFunctions] at hf
      exact ⟨c, hcode.trans hc, hf⟩
  | [c] =>
    rw [hv] at hg hcode
    obtain ⟨hnew, hshape⟩ := LambdaTable.successor_eq_some hg
    exact ⟨hshape, c, hcode, hnew⟩
  | _ :: _ :: _ => simp [hv] at hone

end

theorem Attempt.callCallable_lambda {table : LambdasId} {captures : List Value}
    {bound : Option InstanceId} (h : w.closures[i]? = some (.lambda table place s captures bound))
    (r : Runner) (name : String) (args : List Value) :
    (callCallable r (.custom i name) args).run w =
      (callLambda r name ((w.lambdaTable table).get? place) s captures bound args).run w := by
  unfold callCallable
  rw [run_get_bind, h]

/-- Every callable for a lambda was made on the way. Its entry holds what the first version of its
class installed since made of its function, and is current when at most one version was installed
since. -/
def World.FollowsFirst (w : World) (events : List CodeEvent) : Prop :=
  ∀ (i : Nat) (table : LambdasId) (place : Nat) (s : ScriptId) captures bound,
    w.closures[i]? = some (.lambda table place s captures bound) →
    ∃ before after f, events = before ++ .made i s place f :: after ∧
      (w.lambdaTable table).get? place = followedBy f place (versions s after) ∧
      (∀ r name args, (Attempt.callCallable r (.custom i name) args).run w =
        (Attempt.callLambda r name
          (followedBy f place (versions s after)) s captures bound args).run w) ∧
      (w.script s).code = (versions s events).getLast? ∧
      ((versions s after).length ≤ 1 → w.IsCurrent table place s f)

/-- **A callable follows the first version after it was made, and no other**, whatever a host asks
for and however what is done is taken apart into steps. -/
theorem serve_followsFirst {requests : List Request} {w w' : World} (hs : w.scripts = #[])
    (hc : w.closures = #[]) (run : Live.serve requests w = some ((), w')) :
    w.Leads w' ∧ ∀ events, w.Evolves events w' → w'.FollowsFirst events := by
  refine ⟨(Live.Follows.forM Live.evolving_perform requests).leads run, fun events h => ?_⟩
  intro i table place s captures bound hi
  have hw : w.OwnTables := .empty hs
  obtain h₀ | ⟨before, after, w₁, f, rfl, hbefore, hafter, hlt, rfl, hf⟩ := h.made hi
  · simp [hc] at h₀
  · have hw₁ := hbefore.ownTables hw
    have hentry := hafter.entry hw₁ hlt hf
    have hnone : (w.script s).code = none := by
      rw [World.script_of_ge (by simp [hs])]
      rfl
    refine ⟨before, after, f, rfl, hentry, fun r name args => ?_, ?_, hafter.isCurrent hw₁ hlt hf⟩
    · rw [Attempt.callCallable_lambda hi, hentry]
      rfl
    · rw [h.code s, hnone, Option.or_none]

/-! ### Reloading once and twice -/

/-- A file with a function that gives back a lambda of the given name. -/
def lambdaNamed (name : String) : Program := fun path h =>
  let node (id : NodeId) : Node := ⟨id, .lines 1 1⟩
  let function (id : NodeId) (name : String) (body : List Stmt) (isStatic : Bool) : FunctionDecl :=
    { id, name := ⟨name, .lines 1 1⟩, params := [], result := none, body, bodySpan := .lines 1 1
      isStatic }
  let lambda := function 0 name [.pass (node 1)] false
  let make := function 2 "make" [.giveBack (node 3) (some (.lambda (node 4) lambda))] true
  let head : ClassDecl := { id := 0, name := none, qualified := path, span := .lines 1 1 }
  ({ tree := some { path, nodeCount := 5, classes := #[head.addMember (.func make)] } }, h)

/-- The file is loaded with a lambda `a`, a callable is made for it, and then the file is reloaded
with a lambda of another name at its place, once for each name. -/
def reloadedWith (names : List String) : List Request :=
  let programs : Table String Program := .ofList (("a" :: names).map fun n => (n, lambdaNamed n))
  let write (name : String) : Request := .write (.ofList [("res://m.br", .text name)]) programs
  [write "a", .load "res://m.br" false, .createLambda 0 0 [] none] ++
    names.flatMap fun name => [write name, .reloadFiles ["res://m.br"] true]

/-- The name of the function that a callable stands for, and the names of the lambdas in the code of
its class. -/
def World.lambdaNames? (w : World) (i : Nat) : Option (String × List String) :=
  match w.closures[i]? with
  | some (.lambda table place s _ _) =>
    match (w.lambdaTable table).get? place, (w.script s).code with
    | some f, some c => some (f.name, c.lambdas.toList.map (·.name))
    | _, _ => none
  | _ => none

theorem World.not_isCurrent_of_names {name : String} {names : List String}
    (h : w.lambdaNames? i = some (name, names)) (hname : name ∉ names) :
    ∃ (table : LambdasId) (place : Nat) (s : ScriptId), ∃ captures bound,
      w.closures[i]? = some (.lambda table place s captures bound) ∧
      ∀ f, ¬ w.IsCurrent table place s f := by
  unfold lambdaNames? at h
  split at h
  · rename_i table place s captures bound hi
    split at h
    · rename_i f c hf hc
      cases h
      refine ⟨table, place, s, captures, bound, hi, fun g hg => hname ?_⟩
      obtain ⟨-, c', hc', hplace⟩ := hg f hf
      cases hc.symm.trans hc'
      exact List.mem_map_of_mem (Array.mem_toList_iff.2 (Array.mem_of_getElem? hplace))
    · cases h
  · cases h

/-- After one reload the callable stands for the lambda `b` that the class has now. -/
theorem reloadedOnce_followsFirst :
    ∃ w', Live.serve (reloadedWith ["b"]) {} = some ((), w') ∧
      w'.lambdaNames? 0 = some ("b", ["b"]) ∧ World.Leads {} w' ∧
      ∀ events, World.Evolves {} events w' → w'.FollowsFirst events := by
  obtain ⟨w', run, hnames⟩ : ∃ w', Live.serve (reloadedWith ["b"]) {} = some ((), w') ∧
      w'.lambdaNames? 0 = some ("b", ["b"]) := by
    decide +kernel
  exact ⟨w', run, hnames, serve_followsFirst rfl rfl run⟩

/-- After two reloads it stands for the lambda `b` of the first, while the class has the lambda
`c`. -/
theorem reloadedTwice_not_isCurrent :
    ∃ w', Live.serve (reloadedWith ["b", "c"]) {} = some ((), w') ∧
      w'.lambdaNames? 0 = some ("b", ["c"]) ∧
      ∃ (table : LambdasId) (place : Nat) (s : ScriptId), ∃ captures bound,
        w'.closures[0]? = some (.lambda table place s captures bound) ∧
          ∀ f, ¬ w'.IsCurrent table place s f := by
  obtain ⟨w', run, hnames⟩ : ∃ w', Live.serve (reloadedWith ["b", "c"]) {} = some ((), w') ∧
      w'.lambdaNames? 0 = some ("b", ["c"]) := by
    decide +kernel
  exact ⟨w', run, hnames, World.not_isCurrent_of_names hnames (by decide)⟩

end HotScript
