import HotScript.Proofs.Analysis.Enumerated

/-!
Steps of the analysis keep to an order on workspaces.

A `Workspace.Order` relates a workspace to what it may become, and allows the small changes.
`Analyze.Keeps O m` says that the step `m` leads up in the order `O`. It passes from the parts of a
step to the step; resolvers are assumed to keep to the order (`Resolver.Sound`), and the stages
close the circle. What a run guarantees is said by an order made for it, and no function is looked
at again.
-/

namespace HotScript

/-- A cycle of bases is reported in this way and in no other. -/
def ResolutionFault.isCycle : ResolutionFault → Bool
  | cyclicInheritance .. => true
  | _ => false

@[grind →]
theorem ResolutionFault.eq_of_isCycle {fault : ResolutionFault} (h : fault.isCycle = true) :
    ∃ cls chain, fault = .cyclicInheritance cls chain := by
  cases fault with
  | cyclicInheritance cls chain => exact ⟨cls, chain, rfl⟩
  | _ => cases h

def Diagnostic.isCycle (d : Diagnostic) : Bool :=
  match d.complaint with
  | .resolution fault => fault.isCycle
  | _ => false

/-- An order on workspaces that the small changes keep to. -/
structure Workspace.Order where
  le : Workspace → Workspace → Prop
  refl : ∀ w, le w w
  trans : ∀ {w1 w2 w3}, le w1 w2 → le w2 w3 → le w1 w3
  later : ∀ {w w'}, le w w' → w.Later w'
  heap : ∀ w h, w.heap.KeepsFrozen h → le w { w with heap := h }
  quiet : ∀ {w id f}, id < w.units.size → (w.unit id).Quiet (f (w.unit id)) →
    ((w.unit id).Enumerated w.heap → (f (w.unit id)).Enumerated w.heap) → le w (w.modifyUnit id f)
  depends : ∀ {w path id} (k : UnitId), w.unitOf.find? path = some id →
    UnitStatus.inheritanceSolved.rank ≤ (w.unit id).status.rank →
    le w (w.modifyUnit k fun u => u.addDependency (w.unit id).path id)
  reported : ∀ w id {d}, Diagnostic.isCycle d = false → le w (w.happen id (.reported d))

theorem Workspace.Order.modifyUnit (O : Workspace.Order) {w : Workspace} {id : UnitId}
    {f : FileUnit → FileUnit} (h : (w.unit id).Quiet (f (w.unit id)))
    (he : (w.unit id).Enumerated w.heap → (f (w.unit id)).Enumerated w.heap) :
    O.le w (w.modifyUnit id f) := by
  rcases Nat.lt_or_ge id w.units.size with hid | hid
  · exact O.quiet hid h he
  · rw [modifyUnit_of_le hid]
    exact O.refl w

theorem bind_some {σ α β : Type} {m : StateT σ Option α} {f : α → StateT σ Option β} {d d'' : σ}
    {b : β} :
    (m >>= f) d = some (b, d'') ↔ ∃ a d', m d = some (a, d') ∧ f a d' = some (b, d'') := by
  show (m d).bind (fun x => f x.1 x.2) = _ ↔ _
  simp [Option.bind_eq_some_iff]

theorem of_get_bind {σ β : Type} {f : σ → StateT σ Option β} {d : σ} {x : β × σ}
    (h : (get >>= f) d = some x) : f d d = some x := h

namespace Analyze

variable {O : Workspace.Order} {α β : Type} {m : Analyze α}

/-- Whatever a step answers is so. -/
def Answers (Q : α → Prop) (m : Analyze α) : Prop := ∀ ⦃d a d'⦄, m d = some (a, d') → Q a

/-- An error is of a kind. -/
abbrev OnError {ε : Type} (R : ε → Prop) (x : Except ε α) : Prop :=
  ∀ fault, x = .error fault → R fault

namespace Answers

variable {Q : α → Prop}

theorem pure {a : α} (h : Q a) : Answers Q (pure a) := by
  intro d b d' hm
  cases hm
  exact h

theorem bind {m : Analyze β} {f : β → Analyze α} (h : ∀ b, Answers Q (f b)) :
    Answers Q (m >>= f) := by
  intro d a d'' hm
  obtain ⟨b, d', -, h2⟩ := bind_some.1 hm
  exact h b h2

theorem bind_of {m : Analyze β} {f : β → Analyze α} {R : β → Prop} (hm : Answers R m)
    (h : ∀ b, R b → Answers Q (f b)) : Answers Q (m >>= f) := by
  intro d a d'' hrun
  obtain ⟨b, d', h1, h2⟩ := bind_some.1 hrun
  exact h b (hm h1) h2

theorem ite {c : Prop} [Decidable c] {m' : Analyze α} (hm : Answers Q m) (hm' : Answers Q m') :
    Answers Q (if c then m else m') := by
  split
  · exact hm
  · exact hm'

theorem failure : Answers Q (failure : Analyze α) := by
  intro d a d' hm
  cases hm

theorem error {ε : Type} {R : ε → Prop} {e : ε} (h : R e) :
    Answers (OnError R) (Pure.pure (.error e) : Analyze (Except ε α)) := by
  refine .pure ?_
  rintro _ ⟨⟩
  exact h

end Answers

/-- A step that leads up in the order and comes back to the unit it was taken in. -/
def Keeps (O : Workspace.Order) (m : Analyze α) : Prop :=
  ∀ ⦃d a d'⦄, m d = some (a, d') → d'.cursor.unit = d.cursor.unit ∧ O.le d.work d'.work

namespace Keeps

/-! ### Putting steps together -/

theorem pure (a : α) : Keeps O (pure a) := by
  intro d b d' h
  cases h
  exact ⟨rfl, O.refl _⟩

theorem bind_of {Q : α → Prop} {f : α → Analyze β} (hm : Keeps O m) (hQ : Answers Q m)
    (hf : ∀ a, Q a → Keeps O (f a)) : Keeps O (m >>= f) := by
  intro d b d'' h
  obtain ⟨a, d', h1, h2⟩ := bind_some.1 h
  obtain ⟨hu, hle⟩ := hm h1
  obtain ⟨hu', hle'⟩ := hf a (hQ h1) h2
  exact ⟨hu'.trans hu, O.trans hle hle'⟩

theorem bind {f : α → Analyze β} (hm : Keeps O m) (hf : ∀ a, Keeps O (f a)) : Keeps O (m >>= f) :=
  hm.bind_of (fun _ _ _ _ => trivial) fun a _ => hf a

theorem done {f : α → β} (hm : Keeps O m) : Keeps O (m >>= fun a => Pure.pure (f a)) :=
  hm.bind fun _ => .pure _

theorem ite {c : Prop} [Decidable c] {m' : Analyze α} (hm : Keeps O m) (hm' : Keeps O m') :
    Keeps O (if c then m else m') := by
  split
  · exact hm
  · exact hm'

theorem failure : Keeps O (failure : Analyze α) := by
  intro d a d' h
  cases h

theorem forM {f : β → Analyze PUnit} {bs : List β} (h : ∀ b ∈ bs, Keeps O (f b)) :
    Keeps O (bs.forM f) := by
  induction bs with
  | nil => exact .pure _
  | cons b bs ih =>
    exact .bind (h b (.head _)) fun _ => ih fun b hb => h b (.tail _ hb)

theorem forIn {f : β → α → Analyze (ForInStep α)} (h : ∀ b a, Keeps O (f b a)) (bs : List β)
    (a : α) : Keeps O (forIn bs a f) := by
  induction bs generalizing a with
  | nil => exact .pure _
  | cons b bs ih =>
    rw [List.forIn_cons]
    refine .bind (h b a) fun step => ?_
    cases step with
    | done a => exact .pure _
    | yield a => exact ih a

theorem mapM_option {f : β → Analyze α} (h : ∀ b, Keeps O (f b)) (o : Option β) :
    Keeps O (o.mapM f) := by
  cases o with
  | none => exact .pure _
  | some b => exact .bind (h b) fun _ => .pure _

theorem read {f : Desk → α} (h : ∀ d, m d = some (f d, d)) : Keeps O m := by
  intro d a d' hm
  rw [h d] at hm
  cases hm
  exact ⟨rfl, O.refl _⟩

theorem cursor : Keeps O cursor := .read fun _ => rfl

theorem registry : Keeps O registry := .read fun _ => rfl

theorem settings : Keeps O settings := .read fun _ => rfl

theorem heap : Keeps O heap := .read fun _ => rfl

theorem unitAt (id : UnitId) : Keeps O (unitAt id) := .read fun _ => rfl

theorem unit : Keeps O unit := .read fun _ => rfl

theorem tree : Keeps O tree := .read fun _ => rfl

theorem errorCount : Keeps O errorCount := .read fun _ => rfl
variable (fault : TypeFault) (span : Span) (id : ClassId)

theorem refOf : Keeps O (refOf id) := .read fun _ => rfl

theorem currentRef : Keeps O currentRef := .read fun _ => rfl

theorem className : Keeps O (className id) := .read fun _ => rfl

theorem resolvePath (path : String) : Keeps O (resolvePath path) := .read fun _ => rfl

theorem isStaticContext : Keeps O isStaticContext := .read fun _ => rfl

theorem known? (id : NodeId) : Keeps O (known? id) := by
  refine .bind .cursor fun c => ?_
  split
  · exact .pure _
  · exact .bind .unit fun _ => .pure _

theorem modifyCursor {f : Cursor → Cursor} (hu : ∀ c, (f c).unit = c.unit) :
    Keeps O (modifyCursor f) := by
  intro d a d' h
  cases h
  exact ⟨hu _, O.refl _⟩

theorem modifyScope (f : Scope → Scope) : Keeps O (modifyScope f) := .modifyCursor fun _ => rfl

theorem modifyFunction (f : FunctionContext → FunctionContext) : Keeps O (modifyFunction f) :=
  .modifyCursor fun _ => rfl

theorem setStatement : Keeps O (setStatement span) := .modifyCursor fun _ => rfl

theorem markUsesSelf : Keeps O markUsesSelf := .modifyCursor fun _ => rfl

theorem modifyFound (f : NodeFacts → NodeFacts) : Keeps O (modifyFound f) :=
  .modifyCursor fun _ => rfl

theorem record (id : NodeId) (f : ExprFacts) : Keeps O (record id f) :=
  .bind (.modifyFound _) fun _ => .pure _

theorem markUnsafe : Keeps O markUnsafe := by
  refine .bind .cursor fun c => ?_
  split
  · exact .modifyFound _
  · exact .pure _

/-! ### Changing the workspace -/

theorem modifyWork {f : Workspace → Workspace} (h : ∀ w, O.le w (f w)) :
    Keeps O (modifyWork f) := by
  intro d a d' hm
  cases hm
  exact ⟨rfl, h _⟩

theorem onHeap {f : Heap → α × Heap} (hf : ∀ h, Heap.KeepsFrozen h (f h).2) :
    Keeps O (onHeap f) := by
  intro d a d' h
  cases h
  exact ⟨rfl, O.heap _ _ (hf _)⟩

theorem enumDict (values : EnumValues) : Keeps O (Analyze.onHeap fun h => h.enumDict values) :=
  .onHeap fun h => (h.keepsFrozen_dictOf ..).trans (Heap.keepsFrozen_freezeDict _ _)

theorem heap_bind {f : Heap → Analyze α} (hf : ∀ ⦃d a d'⦄, f d.work.heap d = some (a, d') →
    d'.cursor.unit = d.cursor.unit ∧ O.le d.work d'.work) : Keeps O (Analyze.heap >>= f) := by
  intro d a d' h
  obtain ⟨_, _, h1, h⟩ := bind_some.1 h
  cases h1
  exact hf h

theorem modifyUnit {f : FileUnit → FileUnit} (h : ∀ u : FileUnit, u.Quiet (f u))
    (he : ∀ u h, u.Enumerated h → (f u).Enumerated h) : Keeps O (modifyUnit f) :=
  .bind .cursor fun _ => .modifyWork fun _ => O.modifyUnit (h _) (he _ _)

theorem modifyKept {id : ClassId} {f : ClassFacts → ClassFacts}
    (hl : ∀ c : ClassFacts, c.Later (f c)) (hb : ∀ c, (f c).bond = c.bond)
    (hn : ∀ c, c.members.keys.Nodup → (f c).members.keys.Nodup)
    (hk : ∀ c name m, (f c).members.find? name = some m → ∃ m0, c.members.find? name = some m0 ∧
      m0.Kept m) :
    Keeps O (modifyClass id f) :=
  .modifyUnit (fun _ => .modifyClass hl hb fun hu => hu.modifyClass hn fun c name m hm =>
    .inl (hk c name m hm)) fun _ _ hu => hu.modifyClass fun c name m hm => .inl (hk c name m hm)

theorem modifyClass {id : ClassId} {f : ClassFacts → ClassFacts}
    (h : ∀ c, (f c).ref = c.ref ∧ (f c).members = c.members ∧ (f c).bond = c.bond) :
    Keeps O (modifyClass id f) := by
  refine .modifyKept (fun c => ?_) (fun c => (h c).2.2) (fun c hc => (h c).2.1 ▸ hc)
    fun c _ m hm => ⟨m, (h c).2.1 ▸ hm, .refl m⟩
  obtain ⟨href, hmembers, hbond⟩ := h c
  rw [ClassFacts.bond, Prod.mk.injEq, Prod.mk.injEq] at hbond
  exact ⟨href, fun name m hm => ⟨m, hmembers ▸ hm, .refl m⟩, .inr (.inr ⟨hbond.1, hbond.2.1⟩)⟩

theorem report {d : Diagnostic} (h : d.isCycle = false) : Keeps O (report d) :=
  .bind .cursor fun _ => .modifyWork fun _ => O.reported _ _ h

theorem unresolved {fault : ResolutionFault} (h : fault.isCycle = false) (span : Span) :
    Keeps O (unresolved fault span) :=
  .report h

theorem illTyped : Keeps O (illTyped fault span) := .report rfl

theorem warn (w : Warning) (message : String) : Keeps O (warn w message span) := by
  refine .bind .settings fun s => ?_
  split
  · exact .pure _
  · exact .report rfl

theorem cyclicReference : Keeps O (cyclicReference span) :=
  .bind .cursor fun _ => .bind (.className _) fun _ => .unresolved rfl _

/-! ### Moving the cursor -/

theorem inClass {cls : ClassId} (h : Keeps O m) : Keeps O (inClass cls m) :=
  .bind .cursor fun _ => .bind (.modifyCursor fun _ => rfl) fun _ =>
    .bind h fun _ => .bind (.modifyCursor fun _ => rfl) fun _ => .pure _

theorem inInitializer {isStatic : Bool} {span : Span} (h : Keeps O m) :
    Keeps O (inInitializer isStatic span m) :=
  .bind .cursor fun _ => .bind (.modifyCursor fun _ => rfl) fun _ =>
    .bind h fun _ => .bind (.modifyCursor fun _ => rfl) fun _ => .pure _

theorem inUnit {id : UnitId} (h : Keeps O m) : Keeps O (inUnit id m) := by
  intro d a d' hrun
  obtain ⟨u, d1, h1, hrun⟩ := bind_some.1 hrun
  cases h1
  cases ht : (d.work.unit id).tree with
  | none =>
    simp only [ht] at hrun
    cases hrun
    exact ⟨rfl, O.refl _⟩
  | some t =>
    simp only [ht] at hrun
    obtain ⟨saved, d1, h1, hrun⟩ := bind_some.1 hrun
    cases h1
    obtain ⟨_, d1, h1, hrun⟩ := bind_some.1 hrun
    cases h1
    obtain ⟨x, d2, h2, hrun⟩ := bind_some.1 hrun
    obtain ⟨-, hle⟩ := h h2
    cases hrun
    exact ⟨rfl, O.trans hle (O.modifyUnit (.of_rest rfl rfl rfl rfl rfl rfl) fun h => h)⟩

attribute [grind ←] pure bind failure forM mapM_option cursor registry settings heap unitAt unit
  tree errorCount refOf currentRef className resolvePath isStaticContext known? modifyCursor
  modifyScope modifyFunction setStatement markUsesSelf modifyFound record markUnsafe illTyped
  unresolved warn cyclicReference inClass inInitializer

end Keeps

end Analyze

def Demand.level : Demand → UnitStatus
  | inheritance _ => .inheritanceSolved
  | interface _ | member .. => .interfaceSolved
  | unit _ status => status

/-- A resolver that gives the unit that a path leads to, with the status that was asked for. -/
def Resolver.FindsUnits (r : Resolver) : Prop :=
  ∀ ⦃path status d id d'⦄, r (.unit path status) d = some (.ok id, d') →
    d'.work.unitOf.find? path = some id ∧ status.rank ≤ (d'.work.unit id).status.rank

/-- A resolver whose answers to requests up to a level keep to an order. -/
structure Resolver.Sound (O : Workspace.Order) (level : UnitStatus) (r : Resolver) : Prop where
  bases : UnitStatus.inheritanceSolved.rank ≤ level.rank
  keeps : ∀ d : Demand, d.level.rank ≤ level.rank → Analyze.Keeps O (r d)
  finds : r.FindsUnits

end HotScript
