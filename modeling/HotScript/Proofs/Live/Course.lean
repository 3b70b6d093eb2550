import HotScript.Proofs.Analysis.Keeps
import HotScript.Proofs.Live.Evolution

/-!
Courses: what running code leads to.

A `World.Course` relates a running project to what may become of it, and allows what code does when
it runs. `Live.Evolving C m` says that what comes of `m` keeps to the course `C`. It passes from the
parts of an operation to the operation; of runners the same is assumed (`Runner.Evolving`). What a
run guarantees is said by a course made for it, and the machine is not looked at again.
-/

namespace HotScript

/-- The same class, apart from what running code changes in it: its static variables, its instances
and the object that stands for it. -/
def Script.Same (x y : Script) : Prop :=
  { y with
    staticsReady := x.staticsReady, statics := x.statics, instances := x.instances
    classObject := x.classObject } = x

namespace Script.Same

theorem refl (x : Script) : x.Same x := rfl

variable {x y z : Script}

section

variable (h : x.Same y)

include h

theorem eq : { y with
      staticsReady := x.staticsReady, statics := x.statics, instances := x.instances
      classObject := x.classObject } = x := h

theorem trans (h' : y.Same z) : x.Same z := by
  rw [Same, ← h.eq, ← h'.eq]

theorem path : y.path = x.path := (congrArg Script.path h.eq :)

theorem outer : y.outer = x.outer := (congrArg Script.outer h.eq :)

theorem code : y.code = x.code := (congrArg Script.code h.eq :)

theorem file : y.file = x.file := (congrArg Script.file h.eq :)

theorem base : y.base = x.base := (congrArg Script.base h.eq :)

theorem inner : y.inner = x.inner := (congrArg Script.inner h.eq :)

theorem nested : y.nested = x.nested := (congrArg Script.nested h.eq :)

theorem lambdas : y.lambdas = x.lambdas := (congrArg Script.lambdas h.eq :)

theorem isValid : y.isValid = x.isValid := (congrArg Script.isValid h.eq :)

theorem source : y.source = x.source := (congrArg Script.source h.eq :)

end

end Script.Same

def HostObject.attached? : HostObject → Option InstanceId
  | .native _ i => i
  | .cls _ => none

namespace World

theorem attached?_eq (w : World) (o : ObjectRef) :
    w.attached? o = w.objects[o.id]?.bind HostObject.attached? := by
  rw [attached?]
  rcases w.objects[o.id]? with _ | ⟨_ | _⟩ <;> rfl

/-- An object is given an instance or loses it, and a class changes its list. -/
def hand (w : World) (s : ScriptId) (owner : ObjectRef) (i : Option InstanceId)
    (f : Table Nat InstanceId → Table Nat InstanceId) : World :=
  (w.attach owner i).modifyScript s fun c => { c with instances := f c.instances }

/-- An object is given a fresh instance of a class, which lists it. -/
def give (w : World) (s : ScriptId) (owner : ObjectRef) (members : Array Value) : World :=
  hand { w with instances := w.instances.push { script := s, owner, members } } s owner
    (some w.instances.size) fun t => t.insert owner.id w.instances.size

/-- An object loses its instance, which is cleared, and the class no longer lists it. -/
def lose (w : World) (s : ScriptId) (owner : ObjectRef) (i : InstanceId) : World :=
  hand (w.modifyInstance i fun x => { x with members := #[], state := .cleared }) s owner none
    fun t => t.erase owner.id

end World

structure World.Drift where
  Leads : World → World → Prop
  refl : ∀ w, Leads w w
  trans : ∀ {w w1 w'}, Leads w w1 → Leads w1 w' → Leads w w'

/-- A relation on states that running code keeps to. -/
structure World.Course extends World.Drift where
  calls : ∀ (w : World) (frames : List Activation) (held : List (List Cell)) (depth : Nat)
    (log : List String), Leads w { w with frames, held, depth, log }
  heap : ∀ (w : World) (h : Heap), Leads w (w.withHeap h)
  /-- Objects keep their instances, and new ones have none. -/
  objects : ∀ (w : World) (objects : Array HostObject), w.objects.size ≤ objects.size →
    (∀ o, attached? { w with objects } o = w.attached? o) → Leads w { w with objects }
  /-- A valid class makes an object with an instance, which may get lost in the end. -/
  born : ∀ {w : World} {s : ScriptId} {owner : ObjectRef} {members : Array Value} {w' : World},
    owner.id = w.objects.size → (w.script s).isValid →
    Leads (give { w with objects := w.objects.push (.native {} none) } s owner members) w' →
    Leads w w' ∧ Leads w (w'.lose s owner w.instances.size)
  inst : ∀ (w : World) (i : InstanceId) (f : Instance → Instance),
    (∀ x : Instance, (f x).script = x.script) → Leads w (w.modifyInstance i f)
  closure : ∀ (w : World) (c : Closure), c.IsNamed →
    Leads w { w with closures := w.closures.push c }
  /-- A callable is made for the lambda of a class that has a place. -/
  made : ∀ (w : World) (s : ScriptId) (place : Nat) (captures : List Value)
    (bound : Option InstanceId) (f : FunctionCode), s < w.scripts.size →
    (w.lambdaTable (w.script s).lambdas).get? place = some f →
    Leads w { w with
      closures := w.closures.push (.lambda (w.script s).lambdas place s captures bound) }
  /-- A class is written to: what stands for it as a value, or its static variables. -/
  script : ∀ (w : World) (s : ScriptId) (f : Script → Script),
    (∀ x : Script, x.Same (f x) ∧ (f x).instances = x.instances ∧
      (f x).statics.size = x.statics.size) → Leads w (w.modifyScript s f)

/-- A relation that allows what two courses allow both, where an instance may get lost at any
time. -/
def World.Course.meet (D E : Course) (lost : ∀ w s owner i, D.Leads w (w.lose s owner i))
    (lost' : ∀ w s owner i, E.Leads w (w.lose s owner i)) (Leads : World → World → Prop)
    (trans : ∀ {w w1 w'}, Leads w w1 → Leads w1 w' → Leads w w')
    (of : ∀ {w w'}, D.Leads w w' → E.Leads w w' → Leads w w') : Course where
  Leads := Leads
  refl w := of (D.refl w) (E.refl w)
  trans := trans
  calls _ _ _ _ _ := of (D.calls ..) (E.calls ..)
  heap _ _ := of (D.heap ..) (E.heap ..)
  objects _ _ grow same := of (D.objects _ _ grow same) (E.objects _ _ grow same)
  born fresh valid h :=
    have hborn := trans (of (D.born fresh valid (D.refl _)).1 (E.born fresh valid (E.refl _)).1) h
    ⟨hborn, trans hborn (of (lost ..) (lost' ..))⟩
  inst _ _ _ home := of (D.inst _ _ _ home) (E.inst _ _ _ home)
  closure _ _ named := of (D.closure _ _ named) (E.closure _ _ named)
  made _ _ _ _ _ f known entry := of (D.made _ _ _ _ _ f known entry)
    (E.made _ _ _ _ _ f known entry)
  script _ _ _ same := of (D.script _ _ _ same) (E.script _ _ _ same)

instance : Coe World.Course World.Drift := ⟨World.Course.toDrift⟩

variable {D : World.Drift} {C : World.Course}

namespace World.Drift.Leads

theorem refl (w : World) : D.Leads w w := D.refl w

variable {w w1 w' : World}

theorem trans (h : D.Leads w w1) (h' : D.Leads w1 w') : D.Leads w w' := D.trans h h'

theorem calls (w : World) (frames : List Activation) (held : List (List Cell)) (depth : Nat)
    (log : List String) : C.Leads w { w with frames, held, depth, log } := C.calls ..

theorem withHeap (w : World) (h : Heap) : C.Leads w (w.withHeap h) := C.heap ..

theorem addObject (w : World) (cls : String) {o : HostObject} (bare : o.attached? = none) :
    C.Leads w (w.addObject cls o).2 := by
  refine C.objects _ _ (by simp) fun x => ?_
  rw [World.attached?_eq, World.attached?_eq, Array.getElem?_push]
  split
  · next heq =>
    rw [heq, Array.getElem?_eq_none (Nat.le_refl _)]
    exact bare
  · rfl

theorem inst {i : InstanceId} {f : Instance → Instance}
    (home : ∀ x : Instance, (f x).script = x.script) : C.Leads w (w.modifyInstance i f) :=
  C.inst _ _ _ home

theorem closure {name : String} {c : Closure} (named : c.IsNamed) :
    C.Leads w (w.addClosure name c).2 := C.closure _ _ named

theorem script {s : ScriptId} {f : Script → Script}
    (same : ∀ x : Script, x.Same (f x) ∧ (f x).instances = x.instances ∧
      (f x).statics.size = x.statics.size) : C.Leads w (w.modifyScript s f) := C.script _ _ _ same

theorem foldl {β γ : Type} (world : γ → World) {f : γ → β → γ}
    (h : ∀ acc b, D.Leads (world acc) (world (f acc b))) (bs : List β) (acc : γ) :
    D.Leads (world acc) (world (bs.foldl f acc)) := by
  induction bs generalizing acc with
  | nil => exact .refl _
  | cons b bs ih => exact (h acc b).trans (ih _)

end World.Drift.Leads

namespace Live

variable {α β : Type} {m : Live α} {w w1 : World} {w' : World}

theorem onWork_some {f : Workspace → Option (α × Workspace)} {a : α}
    (h : onWork f w = some (a, w')) : ∃ work, f w.work = some (a, work) ∧ w' = { w with work } := by
  obtain ⟨w1, w2, h1, h⟩ := bind_some.1 h
  cases h1
  cases hf : f w.work with
  | none =>
    rw [hf] at h
    cases h
  | some x =>
    rw [hf] at h
    cases h
    exact ⟨_, rfl, rfl⟩

/-- What comes of an operation at a state keeps to a course, and another operation comes to the
same. -/
def FollowsAt (D : World.Drift) (w : World) (m m' : Live α) : Prop :=
  ∀ ⦃a w'⦄, m w = some (a, w') → m' w = some (a, w') ∧ D.Leads w w'

/-- Whatever the first operation comes to keeps to a course, and the second comes to the same. -/
def Follows (D : World.Drift) (m m' : Live α) : Prop := ∀ w, FollowsAt D w m m'

/-- What comes of an operation keeps to a course. -/
abbrev Evolving (D : World.Drift) (m : Live α) : Prop := Follows D m m

variable {m' : Live α}

namespace FollowsAt

theorem pure (a : α) : FollowsAt D w (pure a) (pure a) := by
  intro b w' h
  cases h
  exact ⟨rfl, .refl w⟩

theorem set_bind {f f' : PUnit → Live β} (h : D.Leads w w1)
    (hf : FollowsAt D w1 (f ⟨⟩) (f' ⟨⟩)) : FollowsAt D w (set w1 >>= f) (set w1 >>= f') := by
  intro b w' hm
  obtain ⟨a, w2, h1, h2⟩ := bind_some.1 hm
  cases h1
  obtain ⟨hsame, hleads⟩ := hf h2
  exact ⟨hsame, h.trans hleads⟩

theorem bind {f f' : α → Live β} (hm : FollowsAt D w m m')
    (hf : ∀ ⦃a w1⦄, m w = some (a, w1) → FollowsAt D w1 (f a) (f' a)) :
    FollowsAt D w (m >>= f) (m' >>= f') := by
  intro b w' h
  obtain ⟨a, w1, h1, h2⟩ := bind_some.1 h
  obtain ⟨hsame1, hleads1⟩ := hm h1
  obtain ⟨hsame2, hleads2⟩ := hf h1 h2
  exact ⟨bind_some.2 ⟨a, w1, hsame1, hsame2⟩, hleads1.trans hleads2⟩

end FollowsAt

namespace Follows

theorem same {a : α} (h : Follows D m m') (run : m w = some (a, w')) :
    m' w = some (a, w') := (h w run).1

theorem leads {a : α} (h : Follows D m m') (run : m w = some (a, w')) : D.Leads w w' :=
  (h w run).2

theorem of_leads (h : ∀ ⦃w a w'⦄, m w = some (a, w') → D.Leads w w') : Evolving D m :=
  fun _ _ _ run => ⟨run, h run⟩

/-! ### Putting operations together -/

theorem pure (a : α) : Evolving D (pure a : Live α) := fun _ => .pure a

theorem failure : Evolving D (failure : Live α) := by
  intro w a w' h
  cases h

theorem bind {f f' : α → Live β} (hm : Follows D m m') (hf : ∀ a, Follows D (f a) (f' a)) :
    Follows D (m >>= f) (m' >>= f') := fun w => (hm w).bind fun a w1 _ => hf a w1

theorem done {f : α → β} (hm : Follows D m m') :
    Follows D (m >>= fun a => Pure.pure (f a)) (m' >>= fun a => Pure.pure (f a)) :=
  hm.bind fun _ => .pure _

theorem map {f : α → β} (hm : Follows D m m') : Follows D (f <$> m) (f <$> m') := hm.done

theorem ite {c : Prop} [Decidable c] {n n' : Live α} (hm : Follows D m m') (hn : Follows D n n') :
    Follows D (if c then m else n) (if c then m' else n') := by
  split
  · exact hm
  · exact hn

theorem get : Evolving D (get : Live World) := by
  intro w a w' h
  cases h
  exact ⟨rfl, .refl w⟩

theorem get_bind {f f' : World → Live β} (h : ∀ w, FollowsAt D w (f w) (f' w)) :
    Follows D (MonadState.get >>= f) (MonadState.get >>= f') := by
  intro w b w' hm
  obtain ⟨a, w1, h1, h2⟩ := bind_some.1 hm
  cases h1
  exact h _ h2

theorem modify {f : World → World} (h : ∀ w : World, D.Leads w (f w)) :
    Evolving D (modify f : Live PUnit) := by
  intro w a w' hm
  cases hm
  exact ⟨rfl, h w⟩

theorem modifyGet {f : World → α × World} (h : ∀ w : World, D.Leads w (f w).2) :
    Evolving D (modifyGet f : Live α) := by
  intro w a w' hm
  have hf : f w = (a, w') := Option.some.inj hm
  have hl := h w
  rw [hf] at hl
  exact ⟨hm, hl⟩

theorem forM_mem {f f' : β → Live PUnit} {bs : List β} (h : ∀ b ∈ bs, Follows D (f b) (f' b)) :
    Follows D (bs.forM f) (bs.forM f') := by
  induction bs with
  | nil => exact .pure _
  | cons b bs ih =>
    exact .bind (h b (.head _)) fun _ => ih fun b hb => h b (.tail _ hb)

theorem forM {f f' : β → Live PUnit} (h : ∀ b, Follows D (f b) (f' b)) (bs : List β) :
    Follows D (bs.forM f) (bs.forM f') := .forM_mem fun b _ => h b

theorem foldlM {f : α → β → Live α} (h : ∀ a b, Evolving D (f a b)) (bs : List β) (a : α) :
    Evolving D (bs.foldlM f a) := by
  induction bs generalizing a with
  | nil => exact .pure _
  | cons b bs ih => exact .bind (h a b) ih

theorem each {f f' : β → List β → Live Unit} (h : ∀ b rest, Follows D (f b rest) (f' b rest))
    (bs : List β) : Follows D (each f bs) (each f' bs) := by
  induction bs with
  | nil => exact .pure _
  | cons b bs ih => exact .bind (h b bs) fun _ => ih

theorem holding {cells : List Cell} (hm : Follows C m m') :
    Follows C (holding cells m) (holding cells m') :=
  .bind (.modify fun _ => .calls ..) fun _ => .bind hm fun _ =>
    .done (.modify fun _ => .calls ..)

theorem onHeap (f : Heap → α × Heap) : Evolving C (onHeap f) := .modifyGet fun _ => .withHeap ..

attribute [grind ←] pure failure bind map get modify modifyGet forM foldlM each holding onHeap

end Follows

end Live

namespace Attempt

theorem run_get_bind (f : World → Attempt α) (w : World) :
    (get >>= f : Attempt α).run w = (f w).run w := rfl

theorem run_lift_bind (m : Live α) (g : α → Attempt β) (w : World) :
    (liftM m >>= g : Attempt β).run w = (m w).bind fun x => (g x.1).run x.2 := by
  show ((Except.ok <$> m : Live (Except CallFault α)) >>= ExceptT.bindCont g) w = _
  rw [map_eq_pure_bind, bind_assoc]
  rfl

variable {α β : Type} {m m' : Attempt α}

/-- Whatever the first attempt comes to keeps to a course, also when it fails, and the second comes
to the same. -/
def Follows (D : World.Drift) (m m' : Attempt α) : Prop := Live.Follows D m.run m'.run

/-- What comes of an attempt keeps to a course, also when it fails. -/
abbrev Evolving (D : World.Drift) (m : Attempt α) : Prop := Follows D m m

namespace Follows

theorem pure (a : α) : Evolving D (pure a : Attempt α) := Live.Follows.pure _

theorem throw (e : CallFault) : Evolving D (throw e : Attempt α) := Live.Follows.pure _

theorem bind {f f' : α → Attempt β} (hm : Follows D m m') (hf : ∀ a, Follows D (f a) (f' a)) :
    Follows D (m >>= f) (m' >>= f') := by
  refine Live.Follows.bind hm fun a => ?_
  cases a with
  | error e => exact .pure _
  | ok a => exact hf a

theorem done {f : α → β} (hm : Follows D m m') :
    Follows D (m >>= fun a => Pure.pure (f a)) (m' >>= fun a => Pure.pure (f a)) :=
  hm.bind fun _ => .pure _

theorem guard {c : Prop} [Decidable c] {e : CallFault} {f f' : PUnit → Attempt α}
    (hf : Follows D (f ⟨⟩) (f' ⟨⟩)) :
    Follows D (if c then MonadExcept.throw e >>= f else f ⟨⟩)
      (if c then MonadExcept.throw e >>= f' else f' ⟨⟩) := by
  split
  · exact .bind (.throw e) fun _ => hf
  · exact hf

theorem lift {m : Live α} (hm : Live.Evolving D m) :
    Evolving D (liftM m : Attempt α) := Live.Follows.map hm

theorem sure {m : Live α} (hm : Live.Evolving D m) : Evolving D (sure m) := Live.Follows.map hm

theorem get : Evolving D (get : Attempt World) := .lift .get

theorem get_bind {f f' : World → Attempt β} (h : ∀ w, Live.FollowsAt D w (f w).run (f' w).run) :
    Follows D (MonadState.get >>= f) (MonadState.get >>= f') := Live.Follows.get_bind h

theorem set_bind {w w1 : World} {f : PUnit → Attempt β} (h : D.Leads w w1)
    (hf : Evolving D (f ⟨⟩)) :
    Live.FollowsAt D w (MonadStateOf.set w1 >>= f : Attempt β).run
    (MonadStateOf.set w1 >>= f).run := by
  intro b w' hm
  exact ⟨hm, h.trans (Live.Follows.leads hf hm)⟩

theorem modify {f : World → World} (h : ∀ w : World, D.Leads w (f w)) :
    Evolving D (modify f : Attempt PUnit) := .lift (.modify h)

theorem outcome (hm : Follows D m m') : Follows D (outcome m) (outcome m') := Live.Follows.map hm

theorem holding {cells : List Cell} (hm : Follows C m m') :
    Follows C (holding cells m) (holding cells m') := Live.Follows.holding hm

theorem forM {f f' : β → Attempt PUnit} (h : ∀ b, Follows D (f b) (f' b)) (bs : List β) :
    Follows D (bs.forM f) (bs.forM f') := by
  induction bs with
  | nil => exact .pure _
  | cons b bs ih => exact .bind (h b) fun _ => ih

attribute [grind ←] pure throw bind lift sure get modify outcome holding forM

end Follows

end Attempt

/-- Whatever the first runner comes to, without reading files again, keeps to a course, and the
second comes to the same. -/
structure Runner.Follows (C : World.Course) (r r' : Runner) : Prop where
  execute : ∀ s f bound args, Attempt.Follows C (r.execute s f bound args)
    (r'.execute s f bound args)
  full : ∀ path, Live.Follows C (r.full path false) (r'.full path false)

attribute [grind .] Runner.Follows.execute Runner.Follows.full

/-- Running code and bringing in files, without reading them again, keep to a course. -/
abbrev Runner.Evolving (C : World.Course) (r : Runner) : Prop := r.Follows C r

/-! ### Static variables, constants and lambdas -/

namespace Live

variable (type : StaticType) (s : ScriptId) (name : String) (v : Value)

@[grind ←]
theorem evolving_fitTo : Evolving C (fitTo type v) := by
  refine .modifyGet fun w => ?_
  split
  · exact .withHeap ..
  · exact .refl w

@[grind ←]
theorem evolving_slotDefault : Evolving C (slotDefault type) := .onHeap _

@[grind ←]
theorem evolving_classValue : Evolving C (classValue s) := by
  refine .modifyGet fun w => ?_
  split
  · exact .refl w
  · exact (World.Drift.Leads.addObject _ _ rfl).trans (.script fun _ => ⟨rfl, rfl, rfl⟩)

@[grind ←]
theorem evolving_ownConstant (code : ClassCode) : Evolving C (ownConstant name s code) := by
  grind [ownConstant]

@[grind ←]
theorem evolving_findConstant (chain : List (ScriptId × ClassCode)) :
    Evolving C (findConstant name chain) := by
  induction chain with
  | nil => exact .pure _
  | cons level rest ih =>
    refine .bind (evolving_ownConstant _ _ _) fun found => ?_
    split
    · exact .pure _
    · exact ih

@[grind ←]
theorem evolving_lookupStatic : Evolving C (lookupStatic s name) := by
  refine .bind .get fun w => ?_
  grind

@[grind ←]
theorem evolving_setStaticValue (index : Nat) : Evolving C (setStaticValue s index v) := by
  refine .bind .get fun w => ?_
  dsimp only
  split
  · exact .pure _
  · refine .bind (evolving_fitTo _ _) fun fitted => ?_
    split
    · exact .pure _
    · refine .ite (.done (.modify fun _ => ?_)) (.pure _)
      exact .script fun _ => ⟨rfl, rfl, Array.size_setIfInBounds⟩

@[grind ←]
theorem evolving_setStatic : Evolving C (setStatic s name v) := by grind [setStatic]

@[grind ←]
theorem evolving_readStatic : Evolving C (readStatic s name) := by
  refine .bind (evolving_lookupStatic _ _) fun found => ?_
  split
  · exact .pure _
  · refine .bind .get fun w => ?_
    split
    · exact .ite (.map (.modifyGet fun w => .closure trivial)) (.pure _)
    · exact .pure _

@[grind ←]
theorem evolving_createLambda (place : Nat) (captures : List Value) (bound : Option InstanceId) :
    Evolving C (createLambda s place captures bound) := by
  refine .modifyGet fun w => ?_
  split
  · exact .refl w
  · rename_i table htable
    split
    · exact .refl w
    · rename_i f hf
      obtain ⟨x, hx, rfl⟩ := Option.map_eq_some_iff.1 htable
      obtain ⟨hs, rfl⟩ := Array.getElem?_eq_some_iff.1 hx
      have hscript : w.script s = w.scripts[s] := by simp [World.script, hx]
      have h := C.made w s place captures bound f hs (hscript ▸ hf)
      rwa [hscript] at h

variable {r : Runner} (hr : Runner.Evolving C r)
include hr

@[grind ←]
theorem evolving_resolveClass (cls : ClassRef) : Evolving C (resolveClass r s cls) := by
  grind [resolveClass]

end Live

namespace Attempt

@[grind ←]
theorem evolving_fitArguments (f : FunctionCode) (i : Nat) (args : List Value) :
    Evolving C (fitArguments f i args) := by
  induction args generalizing i with
  | nil => exact .pure _
  | cons v rest ih =>
    unfold fitArguments
    split
    · exact .bind (.pure _) fun _ => .done (ih _)
    · refine .bind (.lift (Live.evolving_fitTo _ _)) fun fitted => ?_
      split
      · exact .bind (.pure _) fun _ => .done (ih _)
      · exact .bind (.throw _) fun _ => .done (ih _)

variable {r r' : Runner} (hr : r.Follows C r')
include hr

@[grind ←]
theorem follows_invoke (s : ScriptId) (f : FunctionCode) (bound : Option InstanceId)
    (args : List Value) : Follows C (invoke r s f bound args) (invoke r' s f bound args) := by
  unfold invoke
  refine .guard ?_
  refine .guard ?_
  exact .bind (evolving_fitArguments _ _ _) fun _ => .holding (hr.execute _ _ _ _)

@[grind ←]
theorem follows_callStatic (s : ScriptId) (name : String) (args : List Value) :
    Follows C (callStatic r s name args) (callStatic r' s name args) := by grind [callStatic]

end Attempt

/-! ### Host objects -/

namespace Live

@[grind ←]
theorem evolving_defaultMembers (s : ScriptId) : Evolving C (defaultMembers s) := by
  grind [defaultMembers]

variable {w : World}

theorem foldlM_slotDefault {α : Type} (put : α → Slot → Value → α) (slots : List Slot) (a : α)
    (w : World) :
    ∃ a' heap, (slots.foldlM (fun a slot => do return put a slot (← slotDefault slot.type))
      a : Live α) w = some (a', w.withHeap heap) := by
  induction slots generalizing a w with
  | nil => exact ⟨a, w.heap, rfl⟩
  | cons slot slots ih =>
    let made := w.heap.slotDefault slot.type
    exact ih (put a slot made.1) (w.withHeap made.2)

theorem defaultMembers_run (s : ScriptId) (w : World) :
    ∃ members heap, defaultMembers s w = some (members, w.withHeap heap) := foldlM_slotDefault ..

theorem staticDefaults_run (c : ClassCode) (w : World) :
    ∃ statics heap, staticDefaults c w = some (statics, w.withHeap heap) := foldlM_slotDefault ..

variable (name : String) (o : ObjectRef) (i : InstanceId)

@[grind ←]
theorem evolving_setState (state : InstanceState) : Evolving C (setState i state) :=
  .modify fun _ => .inst fun _ => rfl

@[grind ←]
theorem evolving_instantiate (cls : String) : Evolving C (instantiate cls) := by
  refine .modifyGet fun w => ?_
  split
  · exact .addObject w cls rfl
  · exact .refl w

@[grind ←]
theorem evolving_getProperty : Evolving C (getProperty o name) := by
  unfold getProperty
  grind

@[grind ←]
theorem evolving_setProperty (v : Value) : Evolving C (setProperty o name v) := by
  refine .get_bind fun w => ?_
  split
  · exact Follows.ite (.done (evolving_setStatic _ _ _)) (.pure _) w
  · next hfound =>
    split
    · exact .pure _
    · refine .set_bind (C.objects _ _ (by simp) fun x => ?_) (.pure _)
      rw [World.attached?_eq, World.attached?_eq, Array.getElem?_modify]
      split
      · next heq =>
        rw [← heq, hfound]
        rfl
      · rfl
  · exact .pure _

end Live

namespace Attempt

theorem create_run (s : ScriptId) (owner : ObjectRef) (args : List Value) (w : World) :
    (∃ fault, ∀ r, (create r s owner args).run w = some (.error fault, w)) ∨
    (w.script s).isValid ∧ ∃ heap members, ∀ r, (create r s owner args).run w =
      ((holding [.object owner.id, .inst w.instances.size] (construct r w.instances.size args)).run
        ((w.withHeap heap).give s owner members)).map fun x =>
          match x.1 with
          | .ok _ => (.ok w.instances.size, x.2)
          | .error fault => (.error fault, x.2.lose s owner w.instances.size) := by
  unfold create
  simp only [run_get_bind]
  cases hcode : (w.script s).code.filter fun _ => (w.script s).isValid with
  | none => exact .inl ⟨_, fun r => rfl⟩
  | some code =>
    dsimp only
    split
    · exact .inl ⟨_, fun r => rfl⟩
    obtain ⟨members, heap, hmembers⟩ := Live.defaultMembers_run s w
    have hgiven : attachFresh s owner w =
        some (w.instances.size, (w.withHeap heap).give s owner members) :=
      bind_some.2 ⟨_, _, hmembers, rfl⟩
    refine .inr ⟨(Option.filter_eq_some_iff.1 hcode).2, heap, members, fun r => ?_⟩
    rw [run_lift_bind, hgiven]
    show (liftM (holding _ (construct r _ args)).run >>= _ : Attempt _).run _ = _
    rw [run_lift_bind]
    rcases (holding _ (construct r _ args)).run _ with _ | ⟨_ | _, _⟩ <;> rfl

variable (o : ObjectRef) (args : List Value)

@[grind ←]
theorem evolving_runNative (body : NativeBody) : Evolving C (runNative body o args) := by
  unfold runNative
  grind

@[grind ←]
theorem evolving_callNative (name : String) : Evolving C (callNative o name args) := by
  grind [callNative]

variable {r r' : Runner}

theorem follows_initializeMembers (i : InstanceId)
    (hr : ∀ s f, Follows D (r.execute s f (some i) []) (r'.execute s f (some i) [])) :
    Follows D (initializeMembers r i) (initializeMembers r' i) := by
  refine .bind .get fun w => .forM (fun level => .bind .get fun w => ?_) _
  split
  · exact .done (hr _ _)
  · exact .pure _

variable (hr : r.Follows C r') (s : ScriptId) (i : InstanceId) (args : List Value)
include hr

@[grind ←]
theorem follows_construct : Follows C (construct r i args) (construct r' i args) := by
  refine .bind (follows_initializeMembers i fun _ _ => hr.execute _ _ _ _) fun _ =>
    .bind (.lift (Live.evolving_setState i _)) fun _ => .bind .get fun w => ?_
  have hlive : Evolving C (liftM (Live.setState i .live) : Attempt Unit) :=
    .lift (Live.evolving_setState i _)
  split
  · exact .bind (follows_invoke hr _ _ _ _) fun _ =>
      .bind (.lift (Live.evolving_setState i _)) fun _ => hlive
  · exact .guard hlive

theorem follows_create {w w' : World} {o : ObjectRef} {x : Except CallFault InstanceId}
    (fresh : o.id = w.objects.size)
    (h : (create r s o args).run { w with objects := w.objects.push (.native {} none) } =
      some (x, w')) :
    (create r' s o args).run { w with objects := w.objects.push (.native {} none) } = some (x, w') ∧
      C.Leads w w' := by
  rcases create_run s o args { w with objects := w.objects.push (.native {} none) } with
    ⟨fault, hrun⟩ | ⟨valid, heap, members, hrun⟩
  · rw [hrun] at h ⊢
    cases h
    exact ⟨rfl, .addObject w "" rfl⟩
  · rw [hrun] at h ⊢
    obtain ⟨⟨made, w1⟩, hmade, h⟩ := Option.map_eq_some_iff.1 h
    obtain ⟨hsame, hleads⟩ := Follows.holding (follows_construct hr _ args) _ hmade
    obtain ⟨hborn, hlost⟩ := C.born (w := w.withHeap heap) fresh valid hleads
    rw [hsame]
    cases made with
    | ok =>
      cases h
      exact ⟨rfl, .trans (.withHeap w heap) hborn⟩
    | error =>
      cases h
      exact ⟨rfl, .trans (.withHeap w heap) hlost⟩

@[grind ←]
theorem follows_newObject : Follows C (newObject r s args) (newObject r' s args) := by
  refine .get_bind fun w => ?_
  split
  · exact Follows.throw _ w
  next native _ =>
  intro x w' h
  rw [run_lift_bind] at h ⊢
  have hmade : Live.instantiate native w = some (if w.registry.canInstantiate native then
      (some { id := w.objects.size, className := native },
        { w with objects := w.objects.push (.native {} none) }) else (none, w)) := rfl
  rw [hmade] at h ⊢
  split at h
  · next hcan =>
    rw [if_pos hcan]
    obtain ⟨made, _, hheld, h⟩ := bind_some.1 (show (_ >>= _ : Live _) _ = _ from h)
    obtain ⟨_, _, h1, hheld⟩ := bind_some.1 (show (_ >>= _ : Live _) _ = _ from hheld)
    cases h1
    obtain ⟨_, w1, hcreate, hheld⟩ := bind_some.1 hheld
    cases hheld
    obtain ⟨hsame, hleads⟩ := follows_create hr s args (w := { w with held := _ :: w.held })
      rfl hcreate
    have hkept := (World.Drift.Leads.calls w w.frames _ w.depth w.log).trans (hleads.trans
      (.calls w1 w1.frames w1.held.tail w1.depth w1.log))
    refine ⟨bind_some.2 ⟨made, _, bind_some.2 ⟨_, _, rfl, bind_some.2 ⟨_, _, hsame, rfl⟩⟩, h⟩, ?_⟩
    cases made with
    | ok | error =>
      cases h
      exact hkept
  · next hcan =>
    rw [if_neg hcan]
    exact Follows.throw _ w h

@[grind ←]
theorem follows_callObject (o : ObjectRef) (name : String) :
    Follows C (callObject r o name args) (callObject r' o name args) := by
  refine .bind .get fun w => ?_
  split
  · grind
  · exact evolving_callNative _ _ _

end Attempt

/-! ### Instances -/

@[grind ←]
theorem Live.evolving_setMember (i : InstanceId) (index : Nat) (v : Value) :
    Evolving C (setMember i index v) := by
  refine .modifyGet fun w => ?_
  split
  · exact .inst fun _ => rfl
  · exact .refl w

@[grind ←]
theorem Attempt.follows_callMethod {r r' : Runner} (hr : r.Follows C r') (i : InstanceId)
    (name : String) (args : List Value) :
    Follows C (callMethod r i name args) (callMethod r' i name args) := by
  refine .bind .get fun w => .guard ?_
  split
  · exact .holding (follows_invoke hr _ _ _ _)
  · split
    · exact follows_callObject hr _ _ _
    · exact .throw _

namespace Live

@[grind ←]
theorem evolving_findBound (i : InstanceId) (name : String) (chain : List (ScriptId × ClassCode)) :
    Evolving C (findBound i name chain) := by
  induction chain with
  | nil => exact .pure _
  | cons level rest ih =>
    refine .ite (.done (.modifyGet fun w => ?_))
      (.ite (.done .get) ih)
    exact .closure trivial

variable {r r' : Runner} (hr : r.Follows C r')
include hr

variable (i : InstanceId) (values : List (String × Value)) (name : String) (v : Value)

@[grind ←]
theorem follows_callResult (args : List Value) :
    Follows C (callResult r i name args) (callResult r' i name args) := by
  refine .bind (Attempt.follows_callMethod hr i name args) fun v => ?_
  grind

@[grind ←]
theorem follows_askScript : Follows C (askScript r i name) (askScript r' i name) := by
  grind [askScript]

@[grind ←]
theorem follows_getMember : Follows C (getMember r i name) (getMember r' i name) := by
  refine .bind .get fun w => ?_
  dsimp only
  refine .ite (.pure _) ?_
  split
  · split
    · exact follows_callResult hr _ _ _
    · exact .pure _
  · refine .bind (evolving_lookupStatic _ _) fun found => ?_
    split
    · exact .pure _
    · grind

@[grind ←]
theorem follows_offerScript : Follows C (offerScript r i name v) (offerScript r' i name v) := by
  grind [offerScript]

@[grind ←]
theorem follows_writeSlot (slot : Slot) :
    Follows C (writeSlot r i slot v) (writeSlot r' i slot v) := by
  unfold writeSlot
  split
  · exact .done (follows_callResult hr _ _ _)
  · refine .bind (evolving_fitTo _ _) fun fitted => ?_
    split
    · exact evolving_setMember _ _ _
    · exact .pure _

@[grind ←]
theorem follows_setByName : Follows C (setByName r i name v) (setByName r' i name v) := by
  refine .bind .get fun w => ?_
  dsimp only
  refine .ite (.pure _) ?_
  split
  · exact follows_writeSlot hr _ _ _
  · refine .bind (evolving_setStatic _ _ _) fun stored => ?_
    split
    · exact .pure _
    · refine .bind .get fun w => .ite (.pure _) (.bind (follows_offerScript hr _ _ _) fun _ => ?_)
      grind

@[grind ←]
theorem follows_readSlots (slots : List Slot) :
    Follows C (readSlots r i slots) (readSlots r' i slots) := by
  induction slots with
  | nil => exact .pure _
  | cons slot rest ih =>
    refine .bind (follows_getMember hr _ _) fun v => ?_
    split
    · exact ih
    · exact .done (.holding ih)

@[grind ←]
theorem follows_snapshot : Follows C (snapshot r i) (snapshot r' i) :=
  .bind .get fun _ => follows_readSlots hr _ _

@[grind ←]
theorem follows_putBack (e : String × Value) (rest : List (String × Value)) :
    Follows C (putBack r i e rest) (putBack r' i e rest) :=
  .bind .get fun _ => .ite (.done (.holding (follows_setByName hr _ _ _))) (.pure _)

@[grind ←]
theorem follows_writeSaved : Follows C (writeSaved r i values) (writeSaved r' i values) :=
  .each (follows_putBack hr i) values

theorem follows_renew (cells : List Cell) : Follows C (renew r i cells) (renew r' i cells) :=
  .bind .get fun _ => .bind (evolving_defaultMembers _) fun _ =>
    .bind (.modify fun _ => .inst fun _ => rfl)
    fun _ => .done (.holding (Attempt.follows_initializeMembers i fun _ _ => hr.execute _ _ _ _))

@[grind ←]
theorem follows_restore : Follows C (restore r i values) (restore r' i values) :=
  .bind .get fun _ => .ite (.bind (follows_renew hr i _) fun _ => follows_writeSaved hr i _)
    (.pure _)

end Live

/-! ### Bases and static variables of a class, saving and writing back -/

namespace Live

@[grind ←]
theorem evolving_staticDefaults (c : ClassCode) : Evolving C (staticDefaults c) := by
  grind [staticDefaults]

variable {r r' : Runner}

section

variable (hr : ∀ path, Follows D (r.full path false) (r'.full path false))
include hr

theorem follows_externalBase (cls : ClassRef) :
    Follows D (externalBase r cls) (externalBase r' cls) := by
  grind [externalBase]

variable (path : String) (scripts : List ScriptId) (code : FileCode)

theorem follows_linkBase (c : ClassCode) :
    Follows D (linkBase r path scripts code c) (linkBase r' path scripts code c) := by
  unfold linkBase
  split
  · exact .pure _
  · extract_lets rest
    have hrest (linked) : Follows D (rest linked) (rest linked) := by
      dsimp only [rest]
      split
      · exact .ite (.pure _) (.pure _)
      · exact .pure _
    refine .ite (.bind (.pure _) hrest) (.bind (follows_externalBase hr _) fun base => ?_)
    exact .bind .get fun w => .bind (.pure _) hrest

theorem follows_linkBases (cs : List ClassCode) :
    Follows D (linkBases r path scripts code cs) (linkBases r' path scripts code cs) := by
  induction cs with
  | nil => exact .pure _
  | cons c rest ih =>
    refine .bind (follows_linkBase hr _ _ _ _) fun linked => ?_
    split
    · exact .pure _
    · exact .done ih

end

variable (hr : r.Follows C r') (head : ScriptId)
include hr

@[grind ←]
theorem follows_runStatics (n : Nat) (s : ScriptId) :
    Follows C (runStatics r n s) (runStatics r' n s) := by
  induction n generalizing s with
  | zero => exact .pure _
  | succ n ih =>
    refine .get_bind fun w => ?_
    extract_lets c rest rest'
    have hrest (x) : Follows C (rest x) (rest' x) := by
      dsimp only [rest, rest']
      split
      · exact .pure _
      · exact .forM (fun f => .done (hr.execute _ _ _ _)) _
    split
    · refine .set_bind (.script fun _ => ⟨rfl, rfl, rfl⟩) ?_
      split
      · exact Follows.bind (ih _) hrest _
      · exact hrest ⟨⟩ _
    · exact .pure _

@[grind ←]
theorem follows_snapshots (is : List InstanceId) :
    Follows C (snapshots r is) (snapshots r' is) := by
  induction is with
  | nil => exact .pure _
  | cons i rest ih =>
    exact .bind (follows_snapshot hr i) fun _ => .done (.holding ih)

@[grind ←]
theorem follows_saveInstances (ss : List ScriptId) :
    Follows C (saveInstances r ss) (saveInstances r' ss) := by
  induction ss with
  | nil => exact .pure _
  | cons s rest ih =>
    exact .bind .get fun _ => .bind (.holding (follows_snapshots hr _)) fun _ =>
      .done (.holding ih)

@[grind ←]
theorem follows_saveState (keep : Bool) :
    Follows C (saveState r head keep) (saveState r' head keep) := by
  refine .bind .get fun w => ?_
  exact .ite (.pure _) (.done (.holding (follows_saveInstances hr _)))

theorem follows_restoreInstance (e : InstanceId × List (String × Value))
    (rest : List (InstanceId × List (String × Value))) :
    Follows C (restoreInstance r e rest) (restoreInstance r' e rest) :=
  .bind .get fun _ => .ite (.holding (follows_restore hr _ _)) (.pure _)

@[grind ←]
theorem follows_restoreInstances (saved : List (InstanceId × List (String × Value))) :
    Follows C (restoreInstances r saved) (restoreInstances r' saved) :=
  .each (follows_restoreInstance hr) saved

omit hr in
theorem evolving_writeStatics (s : ScriptId) (values : List (String × Value)) :
    Evolving C (writeStatics s values) :=
  .each (fun e _ => .done (evolving_setStatic s e.1 e.2)) values

omit hr in
theorem evolving_restoreStatics (statics : List (String × List (String × Value))) :
    Evolving C (restoreStatics head statics) := by
  refine .each (fun e _ => .bind .get fun w => ?_) statics
  cases w.findClass? head e.1 with
  | some s => exact evolving_writeStatics s e.2
  | none => exact .pure _

@[grind ←]
theorem follows_restoreState (saved : SavedState) :
    Follows C (restoreState r head saved) (restoreState r' head saved) := by
  exact .bind (evolving_restoreStatics head _) fun _ => follows_restoreInstances hr _

end Live

/-! ### Running functions -/

namespace Attempt

section Values

variable {r : Runner} (hr : Runner.Evolving C r)
include hr

variable (c : Callable) (args : List Value) (base : Value) (name : String)

@[grind ←]
theorem evolving_callLambda (function : Option FunctionCode) (s : ScriptId) (captures : List Value)
    (bound : Option InstanceId) :
    Evolving C (callLambda r name function s captures bound args) := by
  unfold callLambda
  grind

@[grind ←]
theorem evolving_callCallable : Evolving C (callCallable r c args) := by
  unfold callCallable
  grind

@[grind ←]
theorem evolving_getNamed : Live.Evolving C (getNamed r base name) := by grind [getNamed]

@[grind ←]
theorem evolving_setNamed (v : Value) : Live.Evolving C (setNamed r base name v) := by
  unfold setNamed
  grind

@[grind ←]
theorem evolving_callNamed : Evolving C (callNamed r base name args) := by
  unfold callNamed
  grind

end Values

@[grind ←]
theorem evolving_setElement (base key v : Value) : Live.Evolving C (setElement base key v) := by
  unfold setElement
  grind

variable (a : Activation) (i : Instr)

@[grind ←]
theorem evolving_bound : Evolving C (bound a) := by grind [bound]

variable (n : Nat)

@[grind ←]
theorem evolving_addressAt : Evolving C (addressAt a i n) := by grind [addressAt]

@[grind ←]
theorem evolving_wordAt (missing : String) : Evolving C (wordAt a i n missing) := by grind [wordAt]

@[grind ←]
theorem evolving_writeAddress (address : Address) (v : Value) :
    Evolving C (writeAddress a address v) := by
  unfold writeAddress
  grind

@[grind ←]
theorem evolving_nameAt : Evolving C (nameAt a i n) := by grind [nameAt]

@[grind ←]
theorem evolving_typeAt : Evolving C (typeAt a i n) := by grind [typeAt]

@[grind ←]
theorem evolving_result (v : Value) : Evolving C (result a i v) := by grind [result]

@[grind ←]
theorem evolving_goTo : Evolving C (goTo a i n) := by grind [goTo]

@[grind ←]
theorem evolving_callBuiltin (base : Value) (name : String) (args : List Value) :
    Evolving C (callBuiltin a base name args) := by
  unfold callBuiltin
  grind

@[grind ←]
theorem evolving_callUtility (name : String) (args : List Value) :
    Evolving C (callUtility a name args) := by grind [callUtility]

@[grind ←]
theorem evolving_makeValue (type : StaticType) (args : List Value) :
    Evolving C (makeValue a type args) := by
  unfold makeValue
  grind

variable {α : Type}

@[grind ←]
theorem evolving_during {act : Attempt α} (h : Evolving C act) : Evolving C (during a act) :=
  Live.Follows.bind (.modify fun _ => .calls ..) fun _ => .bind h fun _ =>
    .done (.modify fun _ => .calls ..)

variable {r : Runner} (hr : Runner.Evolving C r)
include hr

@[grind ←]
theorem evolving_readAddress (address : Address) : Evolving C (readAddress r a address) := by
  unfold readAddress
  split <;> grind

variable (n : Nat)

@[grind ←]
theorem evolving_read : Evolving C (read r a i n) := by grind [read]

@[grind ←]
theorem evolving_operand {go : Value → Attempt α} (hgo : ∀ v, Evolving C (go v)) :
    Evolving C (operand r a i n go) := by grind [operand]

@[grind ←]
theorem evolving_valuesAt (words : List Nat) {go : List Value → Attempt α}
    (hgo : ∀ vs, Evolving C (go vs)) : Evolving C (valuesAt r a words go) := by
  induction words generalizing go with
  | nil => exact hgo []
  | cons word rest ih =>
    unfold valuesAt
    split
    · exact .bind (evolving_readAddress a hr _) fun v => .holding (ih fun vs => hgo (v :: vs))
    · exact .throw _

@[grind ←]
theorem evolving_trailing {go : List Value → Attempt α} (hgo : ∀ vs, Evolving C (go vs)) :
    Evolving C (trailing r a i go) := evolving_valuesAt a hr _ hgo

@[grind ←]
theorem evolving_holds : Evolving C (holds r a i n) := by grind [holds]

@[grind ←]
theorem evolving_scriptAt : Evolving C (scriptAt r a i n) := by grind [scriptAt]

@[grind ←]
theorem evolving_makeObject (cls : Value) (args : List Value) :
    Evolving C (makeObject r a cls args) := by
  unfold makeObject
  grind

@[grind ←]
theorem evolving_step : Evolving C (step r a i) := by
  unfold step
  split
  case h_3 =>
    refine evolving_operand a i hr 1 fun x => evolving_operand a i hr 2 fun y => ?_
    split
    · exact .throw _
    · refine .get_bind fun w => ?_
      split
      · exact Follows.throw _ w
      · exact Follows.set_bind (.withHeap ..) (evolving_result a i _)
  all_goals grind

@[grind ←]
theorem evolving_runFrom (offset : Nat) : Evolving C (runFrom r n a offset) := by
  induction n generalizing a offset with
  | zero => exact .sure .failure
  | succ n ih =>
    unfold runFrom
    split
    · exact .throw _
    · refine .bind (evolving_during a (evolving_step a _ hr)) fun progress => ?_
      split
      · exact ih _ _
      · exact ih _ _
      · exact .pure _

@[grind ←]
theorem evolving_execute (s : ScriptId) (f : FunctionCode) (self : Option InstanceId)
    (args : List Value) : Evolving C (execute r s f self args) := by
  refine .bind .get fun w => .guard (.bind (.modify fun _ => .calls ..) fun _ => ?_)
  refine .guard (.bind (.modify fun _ => .calls ..) fun _ => ?_)
  refine .bind (.outcome (.holding (evolving_runFrom _ hr _ _))) fun v => ?_
  refine .bind (.modify fun _ => .calls ..) fun _ => ?_
  split
  · exact .pure _
  · exact .throw _

end Attempt

end HotScript
