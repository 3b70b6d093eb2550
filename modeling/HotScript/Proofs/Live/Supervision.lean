import HotScript.Proofs.Live.Running

/-!
Watching what code does.

A watched runner runs functions as the standard one does, but gives up as soon as a function that
has been run breaks a rule (`Runner.watched`). An operation that gets to its end under watch
therefore never broke the rule, and it comes to the same without watch (`Runner.below_standard`).
-/

namespace HotScript

def World.anywhere : World.Journey where
  Leads _ _ := True
  refl _ := trivial
  trans _ _ := trivial
  calls _ _ _ _ _ := trivial
  heap _ _ := trivial
  objects _ _ _ _ := trivial
  born _ _ _ := ⟨trivial, trivial⟩
  inst _ _ _ _ := trivial
  closure _ _ _ := trivial
  made _ _ _ _ _ _ _ _ := trivial
  script _ _ _ _ := trivial
  work _ _ := trivial
  cache _ _ := trivial
  place _ _ _ _ := trivial
  added _ _ _ _ := trivial
  installed _ _ _ _ _ _ _ _ _ := trivial

/-- Whatever the first operation comes to, the second comes to the same. -/
abbrev Live.Below {α : Type} (m m' : Live α) : Prop := Follows World.anywhere.toCourse m m'

theorem Live.Below.refl {α : Type} (m : Live α) : Below m m := .of_leads fun _ _ _ _ => trivial

namespace Live.Follows

variable {α : Type} {C D : World.Course} {m m' : Live α} {w : World}

theorem isSome (h : Follows C m m') (hm : (m w).isSome) : (m' w).isSome := by
  obtain ⟨x, hx⟩ := Option.isSome_iff_exists.1 hm
  exact Option.isSome_iff_exists.2 ⟨x, h.same hx⟩

theorem eq_some (h : Follows C m m') (hm : (m w).isSome) {x : α × World} (hx : m' w = some x) :
    m w = some x := by
  obtain ⟨y, hy⟩ := Option.isSome_iff_exists.1 hm
  rw [hy, ← h.same hy, hx]

theorem evolving (h : Follows C m m') (hm : Evolving D m') : Evolving D m :=
  .of_leads fun _ _ _ run => hm.leads (h.same run)

end Live.Follows

/-- Whatever the first runner comes to, the second comes to the same. -/
abbrev Runner.Below (r r' : Runner) : Prop := r.Follows World.anywhere.toCourse r'

/-! ### Watched runners -/

/-- What a function that is run may do: which class and function it is, on which instance it runs,
and the states before and after. -/
abbrev Rule := ScriptId → FunctionCode → Option InstanceId → World → World → Prop

abbrev Rule.Refines (rule rule' : Rule) : Prop := ∀ {s f bound w w'}, rule s f bound w w' →
    rule' s f bound w w'

open Classical in
/-- Give up where what was done is not allowed. -/
noncomputable def Attempt.watched {α : Type} (allowed : World → World → Prop) (act : Attempt α) :
    Attempt α := fun w => (act w).filter fun x => decide (allowed w x.2)

theorem Attempt.watched_some {α : Type} {allowed : World → World → Prop} {act : Attempt α}
    {w : World} {x : Except CallFault α × World} :
    watched allowed act w = some x ↔ act w = some x ∧ allowed w x.2 := by
  simp only [watched, Option.filter_eq_some_iff, decide_eq_true_eq]

/-- A runner to a depth of `n` that gives up as soon as a function has broken a rule. What the
function calls in turn counts as done by it. -/
noncomputable def Runner.watched (rule : Rule) : Nat → Runner
  | 0 => .within 0
  | n + 1 =>
    { execute := fun s f bound args =>
        .watched (rule s f bound) (Attempt.execute (.within n) s f bound args)
      full := fun path update => Live.fullScript (.watched rule n) path update }

noncomputable def Runner.supervised (rule : Rule) : Runner := .watched rule 0x100000000

namespace Runner

variable {rule : Rule}

theorem below_within (rule : Rule) (n : Nat) : (watched rule n).Below (within n) := by
  induction n with
  | zero => exact ⟨fun _ _ _ _ => Live.Below.refl _, fun _ => Live.Below.refl _⟩
  | succ n ih =>
    refine ⟨fun s f bound args w v w' h => ?_, fun path => Live.follows_fullScript ih path false⟩
    exact ⟨(Attempt.watched_some.1 h).1, trivial⟩

theorem below_standard (rule : Rule) : (supervised rule).Below standard := below_within rule _

theorem Follows.evolving {C D : World.Course} {r r' : Runner} (h : r.Follows C r')
    (hr : r'.Evolving D) : r.Evolving D :=
  ⟨fun s f bound args => Live.Follows.evolving (h.execute s f bound args)
    (hr.execute s f bound args), fun path => (h.full path).evolving (hr.full path)⟩

theorem allowed_of_watched {n : Nat} {s : ScriptId} {f : FunctionCode}
    {bound : Option InstanceId} {args : List Value} {w w' : World} {v : Except CallFault Value}
    (h : (watched rule n).execute s f bound args w = some (v, w')) : rule s f bound w w' := by
  cases n with
  | zero => cases h
  | succ n => exact (Attempt.watched_some.1 h).2

/-- A runner to a depth of `n` that gives up as soon as a function fails a test, which is a rule
that can be run. -/
def tested (test : ScriptId → FunctionCode → Option InstanceId → World → World → Bool) :
    Nat → Runner
  | 0 => .within 0
  | n + 1 =>
    { execute := fun s f bound args w =>
        (Attempt.execute (.within n) s f bound args w).filter fun x => test s f bound w x.2
      full := fun path update => Live.fullScript (.tested test n) path update }

theorem below_watched {test : ScriptId → FunctionCode → Option InstanceId → World → World → Bool}
    (h : ∀ s f bound w w', test s f bound w w' → rule s f bound w w') (n : Nat) :
    (tested test n).Below (watched rule n) := by
  induction n with
  | zero => exact ⟨fun _ _ _ _ => Live.Below.refl _, fun _ => Live.Below.refl _⟩
  | succ n ih =>
    refine ⟨fun s f bound args w v w' hrun => ?_, fun path => Live.follows_fullScript ih path false⟩
    obtain ⟨hrun, htest⟩ := Option.filter_eq_some_iff.1 hrun
    exact ⟨Attempt.watched_some.2 ⟨hrun, h s f bound w w' htest⟩, trivial⟩

end Runner

end HotScript
