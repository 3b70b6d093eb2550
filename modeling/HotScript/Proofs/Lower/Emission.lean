import HotScript.Lower.Body
import HotScript.Proofs.Code.WellFormed

/-!
What emitting code keeps.

While a function is emitted its code has *holes*: jumps whose targets are not known yet.
`Emitter.Stands` says that the code so far is sound up to its holes, together with facts about it.
`Emitter.Leads` says what later code does to earlier code: storage grows, and no byte changes
outside the holes.

`Lower.Goes` says how a step lets a run go on, in terms of open loops, holes and facts. Each step
has one such lemma, and a whole function is put together from them with `Goes.bind`.
-/

namespace HotScript

/-! ### Steps that succeed

They are stated for any state, since a class is compiled in steps of the same kind as a function. -/

namespace Lower

variable {σ ε α β : Type} {e e' : σ}

theorem bind_ok {m : StateT σ (Except ε) α} {k : α → StateT σ (Except ε) β} {b : β} :
    (m >>= k) e = .ok (b, e') ↔ ∃ a e1, m e = .ok (a, e1) ∧ k a e1 = .ok (b, e') := by
  show (m e >>= fun x => k x.1 x.2) = _ ↔ _
  cases h : m e with
  | error fault => simp [bind, Except.bind]
  | ok x =>
    obtain ⟨a, e1⟩ := x
    constructor
    · intro hk
      exact ⟨a, e1, rfl, hk⟩
    · rintro ⟨a, e1, ha, hk⟩
      obtain ⟨rfl, rfl⟩ := Prod.mk.inj (Except.ok.inj ha)
      exact hk

theorem except_bind_ok {x : Except ε α} {k : α → Except ε β} {b : β} :
    (x >>= k) = .ok b ↔ ∃ a, x = .ok a ∧ k a = .ok b := by
  cases x <;> simp [bind, Except.bind]

theorem pure_ok {a b : α} : (pure a : StateT σ (Except ε) α) e = .ok (b, e') ↔ a = b ∧ e = e' := by
  show Except.ok (a, e) = _ ↔ _
  simp

theorem get_ok {a : σ} : (get : StateT σ (Except ε) σ) e = .ok (a, e') ↔ e = a ∧ e = e' := by
  show Except.ok (e, e) = _ ↔ _
  simp

variable {u : PUnit}

theorem set_ok {a : σ} : (set a : StateT σ (Except ε) PUnit) e = .ok (u, e') ↔ a = e' := by
  show Except.ok (PUnit.unit, a) = _ ↔ _
  simp

theorem modify_ok {f : σ → σ} :
    (modify f : StateT σ (Except ε) PUnit) e = .ok (u, e') ↔ f e = e' := by
  show Except.ok (PUnit.unit, f e) = _ ↔ _
  simp

theorem modifyGet_ok {f : σ → α × σ} {a : α} :
    (modifyGet f : StateT σ (Except ε) α) e = .ok (a, e') ↔ f e = (a, e') := by
  show Except.ok (f e) = _ ↔ _
  simp

theorem lift_ok {x : Except ε α} {a : α} :
    (liftM x : StateT σ (Except ε) α) e = .ok (a, e') ↔ x = .ok a ∧ e = e' := by
  show (x >>= fun a => pure (a, e)) = _ ↔ _
  cases x <;> simp [bind, Except.bind, pure, Except.pure]

theorem throw_ok {fault : ε} {a : α} :
    (throw fault : StateT σ (Except ε) α) e = .ok (a, e') ↔ False := by
  show Except.error _ = _ ↔ _
  simp

theorem internal_ok {message : String} {span : Span} {a : α} {e e' : Emitter} :
    (internal message span : Lower α) e = .ok (a, e') ↔ False := by
  show Except.error _ = _ ↔ _
  simp

end Lower

/-! ### Emitters -/

/-- The jumps of a loop that are still to be patched. -/
def LoopLabels.holes (l : LoopLabels) : List Nat := l.breaks ++ l.continues

/-- The innermost loop may have more labels, the others have not changed. -/
def LoopLabels.Grown : List LoopLabels → List LoopLabels → Prop
  | [], [] => True
  | l :: ls, m :: ms => l.breaks <:+ m.breaks ∧ l.continues <:+ m.continues ∧ ls = ms
  | _, _ => False

theorem LoopLabels.Grown.refl (ls : List LoopLabels) : Grown ls ls := by
  cases ls with
  | nil => trivial
  | cons l ls => exact ⟨List.suffix_rfl, List.suffix_rfl, rfl⟩

/-- A fact about the code so far that later code keeps. -/
inductive Fact
  | source (a : Address)
  | dest (a : Address)
  | place (role : Role) (i : Nat)
  | boundary (offset : Nat)

namespace Emitter

def storage (e : Emitter) : Storage :=
  { stackSize := e.stackSize, pool := e.pool, lambdas := e.classLambdas }

/-- The holes that belong to the loops around. -/
def labels (e : Emitter) : List Nat := e.loops.flatMap LoopLabels.holes

def Knows (e : Emitter) (cs : Listing) : Fact → Prop
  | .source a => e.storage.Has a
  | .dest a => e.storage.Has a ∧ a.Writable
  | .place role i =>
    (role = .name ∨ role = .type ∨ role = .cls ∨ role = .native) ∧ e.storage.Admits 0 role i
  | .boundary offset => cs.Boundary offset

/-- The code so far is sound up to its holes, and the facts hold. -/
structure Stands (e : Emitter) (holes : List Nat) (facts : List Fact) : Prop where
  listing : ∃ cs : Listing, e.chunk.Lists cs ∧ (∀ c ∈ cs, c.Sound e.storage) ∧
    cs.Linked (holes ++ e.labels) ∧ ∀ f ∈ facts, e.Knows cs f
  free : ∀ slot ∈ e.free, slot < e.stackSize
  locals : ∀ decl slot, e.locals.find? decl = some slot → slot < e.stackSize
  lambdas : ∀ f ∈ e.classLambdas, f.Sound e.classLambdas

/-- What emission from `e` to `e'` has left of `e`. -/
structure Leads (holes : List Nat) (e : Emitter) (holes' : List Nat) (e' : Emitter) : Prop where
  storage : e.storage.Within e'.storage
  size : e.chunk.size ≤ e'.chunk.size
  code : ∀ i < e.chunk.size, (∀ p ∈ holes ++ e.labels, ¬(p ≤ i ∧ i < p + 4)) →
    e'.chunk.code[i]? = e.chunk.code[i]?
  holes : ∀ p ∈ holes' ++ e'.labels, p ∈ holes ++ e.labels ∨ e.chunk.size ≤ p

theorem Leads.refl (holes : List Nat) (e : Emitter) : e.Leads holes holes e :=
  ⟨.refl _, Nat.le_refl _, fun _ _ _ => rfl, fun _ hp => .inl hp⟩

theorem Leads.trans {H H1 H2 : List Nat} {e e1 e2 : Emitter} (h : Leads H e H1 e1)
    (k : Leads H1 e1 H2 e2) : Leads H e H2 e2 where
  storage := h.storage.trans k.storage
  size := Nat.le_trans h.size k.size
  code := by
    intro i hi hout
    rw [k.code i (Nat.lt_of_lt_of_le hi h.size), h.code i hi hout]
    intro p hp hin
    rcases h.holes p hp with hold | hnew
    · exact hout p hold hin
    · omega
  holes := by
    intro p hp
    rcases k.holes p hp with h1 | h2
    · exact h.holes p h1
    · exact .inr (Nat.le_trans h.size h2)

/-- Emission that started at the emitter `base` with the holes `base.2`, has opened `depth` loops
since and is now at `e`. -/
structure Run (base : Emitter × List Nat) (depth : Nat) (e : Emitter) (holes : List Nat)
    (facts : List Fact) : Prop where
  stands : e.Stands holes facts
  leads : base.1.Leads base.2 holes e
  opened : depth ≤ e.loops.length
  loops : LoopLabels.Grown base.1.loops (e.loops.drop depth)

theorem Run.start {e : Emitter} {holes : List Nat} {facts : List Fact} (h : e.Stands holes facts) :
    Run (e, holes) 0 e holes facts :=
  ⟨h, .refl _ _, Nat.zero_le _, .refl _⟩

variable {b : Emitter × List Nat} {k slot : Nat} {e e' : Emitter} {H H' : List Nat}
  {K K' : List Fact}
variable {cs : Listing} {f : Fact} {decl : NodeId} {role : Role}

theorem Knows.mono (h : e.storage.Within e'.storage) (hf : e.Knows cs f) : e'.Knows cs f := by
  cases f with
  | source a => exact Storage.Has.mono h hf
  | dest a => exact ⟨Storage.Has.mono h hf.1, hf.2⟩
  | place role i => exact ⟨hf.1, hf.2.mono h⟩
  | boundary offset => exact hf

theorem Knows.append (ds : Listing) (hf : e.Knows cs f) : e.Knows (cs ++ ds) f := by
  cases f with
  | source a => exact hf
  | dest a => exact hf
  | place role i => exact hf
  | boundary offset => exact Listing.Boundary.append hf ds

theorem Run.forget (r : Run b k e H K) (h : ∀ f ∈ K', f ∈ K) : Run b k e H K' := by
  obtain ⟨cs, hl, hs, hk, hf⟩ := r.stands.listing
  exact { r with stands := { r.stands with listing := ⟨cs, hl, hs, hk, fun f hm =>
    hf f (h f hm)⟩ } }

theorem Run.holes_congr (r : Run b k e H K) (h : ∀ p, p ∈ H' ↔ p ∈ H) : Run b k e H' K := by
  obtain ⟨cs, hl, hs, hk, hf⟩ := r.stands.listing
  have hm (p : Nat) : p ∈ H' ++ e.labels ↔ p ∈ H ++ e.labels := by
    rw [List.mem_append, List.mem_append, h]
  exact { r with
    stands := { r.stands with listing := ⟨cs, hl, hs, hk.congr hm, hf⟩ }
    leads := { r.leads with holes := fun p hp => r.leads.holes p ((hm p).1 hp) } }

variable {a : Address} {i : Nat}

theorem knows_slot (h : slot < e.stackSize) :
    ∀ f ∈ .dest (.stack slot) :: .source (.stack slot) :: K, f ∈ K ∨ ∀ cs, e.Knows cs f := by
  intro f hm
  simp only [List.mem_cons] at hm
  rcases hm with rfl | rfl | hm
  · exact .inr fun _ => ⟨h, trivial⟩
  · exact .inr fun _ => h
  · exact .inl hm

section

variable (r : Run b k e H K)

include r

theorem Run.source (h : .source a ∈ K) : e.storage.Has a := by
  obtain ⟨cs, -, -, -, hf⟩ := r.stands.listing
  exact hf _ h

theorem Run.learn (h : ∀ f ∈ K', f ∈ K ∨ ∀ cs, e.chunk.Lists cs → e.Knows cs f) :
    Run b k e H K' := by
  obtain ⟨cs, hl, hs, hk, hf⟩ := r.stands.listing
  exact { r with stands := { r.stands with
    listing := ⟨cs, hl, hs, hk, fun f hm => (h f hm).elim (hf f) fun h => h cs hl⟩ } }

theorem Run.keep (hchunk : e'.chunk = e.chunk) (hloops : e'.loops = e.loops)
    (hstorage : e.storage.Within e'.storage) (hfree : ∀ slot ∈ e'.free, slot < e'.stackSize)
    (hlocals : ∀ decl slot, e'.locals.find? decl = some slot → slot < e'.stackSize)
    (hlambdas : ∀ f ∈ e'.classLambdas, f.Sound e'.classLambdas)
    (hfacts : ∀ f ∈ K', f ∈ K ∨ ∀ cs, e'.Knows cs f) : Run b k e' H K' := by
  obtain ⟨cs, hl, hs, hk, hf⟩ := r.stands.listing
  have hlabels : e'.labels = e.labels := by rw [labels, labels, hloops]
  refine ⟨⟨⟨cs, hchunk ▸ hl, fun c hc => (hs c hc).mono hstorage, hlabels ▸ hk, fun f hm => ?_⟩,
    hfree, hlocals, hlambdas⟩, r.leads.trans ⟨hstorage, ?_, ?_, ?_⟩, hloops ▸ r.opened,
    hloops ▸ r.loops⟩
  · rcases hfacts f hm with hold | hnew
    · exact (hf f hold).mono hstorage
    · exact hnew cs
  · exact Nat.le_of_eq (by rw [hchunk])
  · intro i _ _
    rw [hchunk]
  · intro p hp
    rw [hlabels] at hp
    exact .inl hp

end

end Emitter

/-! ### Putting steps together -/

namespace Fact

inductive Evident : Fact → Prop
  | nil : Evident (.source .nil)
  | self : Evident (.source .self)
  | source (i : Nat) : Evident (.source (.member i))
  | dest (i : Nat) : Evident (.dest (.member i))

attribute [simp] Evident.nil Evident.self Evident.source Evident.dest

theorem Evident.knows {f : Fact} (h : f.Evident) (e : Emitter) (cs : Listing) : e.Knows cs f := by
  cases h <;> simp [Emitter.Knows, Storage.Has, Address.Writable]

/-- A fact holds wherever the facts `K` do. -/
@[simp] def Known (K : List Fact) (f : Fact) : Prop := f ∈ K ∨ f.Evident

/-- The word that a fact speaks about, with its role. -/
@[simp] def word : Fact → Role × Nat
  | .source a => (.source, a.encode)
  | .dest a => (.dest, a.encode)
  | .place role i => (role, i)
  | .boundary offset => (.target, offset)

/-- A word is right for its role wherever the facts `K` hold. -/
@[simp] def Suits (K : List Fact) (role : Role) (w : Nat) : Prop :=
  role = .slot ∨ role = .operator ∨ role = .count ∨ (role, w) ∈ K.map word ∨
    role = .source ∧ (w = Address.nil.encode ∨ w = Address.self.encode) ∨
    role = .dest ∧ w = Address.nil.encode

theorem suits_words {K : List Fact} {os : List Operand} (h : ∀ o ∈ os, .source o.address ∈ K) :
    ∀ w ∈ os.map Operand.word, Suits K .source w := by
  intro w hw
  obtain ⟨o, ho, rfl⟩ := List.mem_map.1 hw
  exact .inr (.inr (.inr (.inl (List.mem_map.2 ⟨_, h o ho, rfl⟩))))

end Fact

namespace Emitter

variable {b : Emitter × List Nat} {k : Nat} {e : Emitter} {H : List Nat} {K K' : List Fact}
  {role : Role} {w : Nat}

theorem Run.known (r : Run b k e H K) (h : ∀ f ∈ K', f.Known K) : Run b k e H K' :=
  r.learn fun f hf => (h f hf).imp_right fun h cs _ => h.knows e cs

theorem Run.suits (r : Run b k e H K) (h : Fact.Suits K role w) (n : Nat) :
    e.storage.Admits n role w := by
  rcases h with rfl | rfl | rfl | h | ⟨rfl, rfl | rfl⟩ | ⟨rfl, rfl⟩
  · trivial
  · trivial
  · trivial
  · obtain ⟨f, hf, hw⟩ := List.mem_map.1 h
    obtain ⟨cs, -, -, -, hknows⟩ := r.stands.listing
    have hf := hknows f hf
    cases f with
    | source a =>
      cases hw
      exact ⟨a, rfl, hf⟩
    | dest a =>
      cases hw
      exact ⟨a, rfl, hf⟩
    | place =>
      cases hw
      obtain ⟨rfl | rfl | rfl | rfl, ha⟩ := hf <;> exact ha
    | boundary =>
      cases hw
      trivial
  · exact ⟨.nil, rfl, trivial⟩
  · exact ⟨.self, rfl, trivial⟩
  · exact ⟨.nil, rfl, trivial, trivial⟩

end Emitter

/-- The role of the places that such a constant is filed under. -/
def Constant.role : Constant → Role
  | value _ => .source
  | name _ => .name
  | type _ => .type
  | cls _ => .cls
  | native _ => .native

namespace Lower

open Emitter

/-- How far emission has come: the loops that it has opened, its holes, and what is known. -/
structure Mark where
  loops : Nat
  holes : List Nat
  facts : List Fact

/-- A step of emission goes from one mark to another one, which depends on what it gives. -/
def Goes {α : Type} (s : Mark) (m : Lower α) (t : α → Mark) : Prop :=
  ∀ ⦃b e⦄, Run b s.loops e s.holes s.facts → ∀ ⦃a e'⦄, m e = .ok (a, e') →
    Run b (t a).loops e' (t a).holes (t a).facts

-- The side conditions of steps speak about words and roles that are written out. Where no proof is
-- given
-- `simp` closes them.
attribute [simp] Operand.word Operand.self Operand.nil

namespace Goes

variable {α β : Type} {s : Mark} {m : Lower α} {t u : α → Mark} {k line : Nat} {H : List Nat}
  {K K' : List Fact} {span : Span} {decl : NodeId} {c : Constant} {name message : String}
  {cls : ClassRef}

theorem bind {f : α → Lower β} {v : β → Mark} (hm : Goes s m t) (hf : ∀ a, Goes (t a) (f a) v) :
    Goes s (m >>= f) v := by
  intro b e r x e' h
  obtain ⟨a, e1, h1, h2⟩ := bind_ok.1 h
  exact hf a (hm r h1) h2

theorem last (hm : Goes s m t) (h : ∀ a, (u a).loops = (t a).loops ∧
    (∀ p, p ∈ (u a).holes ↔ p ∈ (t a).holes) ∧ ∀ f ∈ (u a).facts, f.Known (t a).facts := by
      simp +contextual) :
    Goes s m u := by
  intro b e r a e' ha
  rw [(h a).1]
  exact ((hm r ha).known (h a).2.2).holes_congr (h a).2.1

theorem done {a : α} (h : (u a).loops = s.loops ∧ (∀ p, p ∈ (u a).holes ↔ p ∈ s.holes) ∧
    ∀ f ∈ (u a).facts, f.Known s.facts := by simp +contextual [or_imp, or_left_comm]) :
    Goes s (pure a) u := by
  intro b e r a' e' ha
  obtain ⟨rfl, rfl⟩ := pure_ok.1 ha
  rw [h.1]
  exact (r.known h.2.2).holes_congr h.2.1

theorem skip {a : α} : Goes s (pure a) fun _ => s :=
  .done

theorem learn {f : Fact} (hf : f.Evident) (hm : Goes ⟨k, H, f :: K⟩ m t) : Goes ⟨k, H, K⟩ m t :=
  fun _ _ r => hm (r.known (by simp +contextual [hf]))

theorem forget (hm : Goes ⟨k, H, K'⟩ m t) (hf : ∀ f ∈ K', f ∈ K := by simp +contextual) :
    Goes ⟨k, H, K⟩ m t:=
  fun _ _ r => hm (r.forget hf)

theorem reorder (H' : List Nat) (hm : Goes ⟨k, H', K⟩ m t) (hh : ∀ p, p ∈ H' ↔ p ∈ H := by grind) :
    Goes ⟨k, H, K⟩ m t :=
  fun _ _ r => hm (r.holes_congr hh)

theorem internal : Goes s (internal message span : Lower α) t :=
  fun _ _ _ _ _ h => (internal_ok.1 h).elim

/-! ### Slots -/

theorem temporary : Goes ⟨k, H, K⟩ temporary fun dst =>
    ⟨k, H, .dest dst.address :: .source dst.address :: K⟩ := by
  intro b e r dst e' h
  rw [Lower.temporary, modifyGet_ok] at h
  have hfree := r.stands.free
  cases hf : e.free with
  | cons slot free =>
    rw [hf] at h hfree
    obtain ⟨rfl, rfl⟩ := Prod.mk.inj h
    exact r.keep rfl rfl (.refl _) (fun s hs => hfree s (by simp [hs])) r.stands.locals
      r.stands.lambdas (knows_slot (hfree slot (by simp)))
  | nil =>
    rw [hf] at h
    obtain ⟨rfl, rfl⟩ := Prod.mk.inj h
    exact r.keep rfl rfl ⟨Nat.le_succ _, fun _ _ h => h, fun _ _ h => h⟩ (by simp)
      (fun d s hd => Nat.lt_succ_of_lt (r.stands.locals d s hd)) r.stands.lambdas
      (knows_slot (Nat.lt_succ_self _))

theorem release {o : Operand} (ho : Fact.Known K (.source o.address) := by simp +contextual) :
    Goes ⟨k, H, K⟩ (release o) fun _ => ⟨k, H, K⟩ := by
  intro b e r u e' h
  rw [Lower.release, modify_ok] at h
  subst h
  split
  · next slot _ ha =>
    have hslot : slot < e.stackSize := by
      have hknown : ∀ f ∈ [Fact.source o.address], f.Known K := by simpa using ho
      have := (r.known hknown).source (List.mem_singleton_self _)
      rw [ha] at this
      exact this
    split
    · exact r
    · refine r.keep rfl rfl (.refl _) (fun s hs => ?_) r.stands.locals r.stands.lambdas
        fun f hf => .inl hf
      rcases List.mem_cons.1 hs with rfl | hs
      · exact hslot
      · exact r.stands.free s hs
  · exact r

theorem forM {as : List α} {act : α → Lower Unit} (h : ∀ a ∈ as, Goes s (act a) fun _ => s) :
    Goes s (as.forM act) fun _ => s := by
  induction as with
  | nil => exact .skip
  | cons a as ih =>
    exact .bind (h a (by simp)) fun _ => ih fun a ha => h a (by simp [ha])

theorem releaseAll {os : List Operand}
    (ho : ∀ o ∈ os, Fact.Known K (.source o.address) := by simp +contextual) :
    Goes ⟨k, H, K⟩ (releaseAll os) fun _ => ⟨k, H, K⟩ :=
  .forM fun o h => .release (ho o h)

theorem declareLocal : Goes ⟨k, H, K⟩ (declareLocal decl) fun a =>
    ⟨k, H, .dest a :: .source a :: K⟩ := by
  intro b e r a e' h
  rw [Lower.declareLocal, modifyGet_ok] at h
  obtain ⟨rfl, rfl⟩ := Prod.mk.inj h
  have hslot : e.stackSize < e.stackSize + 1 := Nat.lt_succ_self _
  refine r.keep rfl rfl ⟨Nat.le_succ _, fun _ _ h => h, fun _ _ h => h⟩
    (fun s hs => Nat.lt_succ_of_lt (r.stands.free s hs)) (fun d s hd => ?_) r.stands.lambdas
    (knows_slot hslot)
  by_cases hdd : d = decl
  · subst hdd
    rw [Table.find?_insert_self] at hd
    obtain ⟨rfl⟩ := hd
    exact hslot
  · rw [Table.find?_insert_of_ne _ _ hdd] at hd
    exact Nat.lt_succ_of_lt (r.stands.locals d s hd)

theorem localAddress : Goes ⟨k, H, K⟩ (localAddress decl span) fun a =>
    ⟨k, H, .dest a :: .source a :: K⟩ := by
  intro b e r a e' h
  obtain ⟨e0, e1, h0, h⟩ := bind_ok.1 h
  obtain ⟨rfl, rfl⟩ := get_ok.1 h0
  cases hd : e.locals.find? decl with
  | none =>
    rw [hd] at h
    exact (internal_ok.1 h).elim
  | some slot =>
    rw [hd] at h
    obtain ⟨rfl, rfl⟩ := pure_ok.1 h
    exact r.keep rfl rfl (.refl _) r.stands.free r.stands.locals r.stands.lambdas
      (knows_slot (r.stands.locals decl slot hd))

theorem setLine : Goes ⟨k, H, K⟩ (setLine line) fun _ => ⟨k, H, K⟩ := by
  intro b e r u e' h
  rw [Lower.setLine, modify_ok] at h
  subst h
  exact r.keep rfl rfl (.refl _) r.stands.free r.stands.locals r.stands.lambdas fun f hf => .inl hf

/-! ### Constants -/

/-- A constant is filed under a place, of which things are known that follow from what is there. -/
theorem constantPlace (facts : Nat → List Fact)
    (h : ∀ {i e}, (e.pool.size ≤ 0x100000000 → ∃ d, e.pool.get? i = some d ∧
      (d = c ∨ d.same c = true)) → ∀ f ∈ facts i, ∀ cs, Emitter.Knows e cs f) :
    Goes ⟨k, H, K⟩ (constantPlace c) fun i => ⟨k, H, facts i ++ .source (.constant i) :: K⟩ := by
  intro b e r i e' hi
  rw [Lower.constantPlace, modifyGet_ok] at hi
  obtain ⟨rfl, rfl⟩ := Prod.mk.inj hi
  obtain ⟨hlt, hheld, hkeep⟩ := Pool.add_spec (rfl : e.pool.add c = (_, _))
  refine r.keep rfl rfl ⟨Nat.le_refl _, hkeep, fun _ _ h => h⟩ r.stands.free r.stands.locals
    r.stands.lambdas fun f hf => ?_
  rcases List.mem_append.1 hf with hf | hf
  · exact .inr (h hheld f hf)
  · rcases List.mem_cons.1 hf with rfl | hf
    · exact .inr fun _ => hlt
    · exact .inl hf

theorem place (hc : c.role ≠ .source) :
    Goes ⟨k, H, K⟩ (Lower.constantPlace c) fun i =>
    ⟨k, H, .place c.role i :: .source (.constant i) :: K⟩ := by
  refine constantPlace (fun i => [.place c.role i]) fun {i e} hheld f hf cs => ?_
  obtain rfl := List.mem_singleton.1 hf
  -- Constants that count as the same are of one kind.
  have hkind : ∀ d : Constant, d = c ∨ d.same c = true → d.role = c.role := by
    rintro d (rfl | hs)
    · rfl
    · cases d <;> cases c <;> first | rfl | cases hs
  cases c with
  | value v => exact absurd rfl hc
  | name | type | cls | native =>
    refine ⟨by simp [Constant.role], fun hsize => ?_⟩
    obtain ⟨d, hd, hs⟩ := hheld hsize
    have hrole := hkind d hs
    cases d <;> cases hrole
    exact ⟨_, hd⟩

theorem namePlace : Goes ⟨k, H, K⟩ (namePlace name) fun i =>
    ⟨k, H, .place .name i :: .source (.constant i) :: K⟩ := place nofun

theorem typePlace {type : StaticType} : Goes ⟨k, H, K⟩ (typePlace type) fun i =>
    ⟨k, H, .place .type i :: .source (.constant i) :: K⟩ := place nofun

theorem classPlace : Goes ⟨k, H, K⟩ (classPlace cls) fun i =>
    ⟨k, H, .place .cls i :: .source (.constant i) :: K⟩ := place nofun

theorem nativePlace : Goes ⟨k, H, K⟩ (nativePlace name) fun i =>
    ⟨k, H, .place .native i :: .source (.constant i) :: K⟩ := place nofun

theorem constantOperand :
    Goes ⟨k, H, K⟩ (do return { address := .constant (← Lower.constantPlace c) }) fun o : Operand =>
      ⟨k, H, .source o.address :: K⟩ :=
  .bind (.constantPlace (fun _ => []) (by simp)) fun _ => .done

theorem constant {v : Value} : Goes ⟨k, H, K⟩ (constant v) fun o =>
    ⟨k, H, .source o.address :: K⟩ := .constantOperand

theorem classOperand : Goes ⟨k, H, K⟩ (classOperand cls) fun o =>
    ⟨k, H, .source o.address :: K⟩ := .constantOperand

theorem nativeOperand : Goes ⟨k, H, K⟩ (nativeOperand name) fun o =>
    ⟨k, H, .source o.address :: K⟩ := .constantOperand

/-! ### Instructions -/

end Goes

end Lower

namespace Emitter

variable {b : Emitter × List Nat} {k jump target count stride : Nat} {e : Emitter}
  {H H' head items : List Nat} {K : List Fact}

theorem Run.append {c : Command} (r : Run b k e H K) (hc : c.Sound e.storage) (line : Nat)
    (hH : ∀ p, p ∈ H' ↔ p ∈ H ∨ c.op.isJump = true ∧ p = Listing.hole e.chunk.size c) :
    Run b k { e with chunk := e.chunk.write c.op c.words line } H' K := by
  obtain ⟨cs, hl, hs, hk, hf⟩ := r.stands.listing
  have hw := hl.write c.op c.words line
  refine ⟨⟨⟨cs ++ [c], hw, ?_, hk.append fun p => ?_, fun f hm => (hf f hm).append [c]⟩,
    r.stands.free, r.stands.locals, r.stands.lambdas⟩, r.leads.trans ⟨.refl _, ?_,
    ?_, fun p hp => ?_⟩,
    r.opened, r.loops⟩
  · intro d hd
    rcases List.mem_append.1 hd with hd | hd
    · exact hs d hd
    · rw [List.mem_singleton.1 hd]
      exact hc
  · rw [List.mem_append, List.mem_append, hH p, hl.size_eq, or_right_comm]
    rfl
  · rw [hw.size_eq, hl.size_eq, Listing.size_append]
    exact Nat.le_add_right _ _
  · intro i hi _
    exact Chunk.getElem?_write _ _ _ hi
  · rcases List.mem_append.1 hp with hp | hp
    · rcases (hH p).1 hp with hp | ⟨hj, rfl⟩
      · exact .inl (List.mem_append_left _ hp)
      · obtain ⟨ws, t, hws, -⟩ := hc.words_of_isJump hj
        rw [Listing.hole, Command.length, hws, List.length_append, List.length_singleton]
        omega
    · exact .inl (List.mem_append_right _ hp)

theorem Run.emitItems {e' : Emitter} {u : Unit} {op : Opcode} (r : Run b k e H K)
    (h : Lower.emitList op head count items e = .ok (u, e'))
    (hj : op.isJump = false) (hop : op.shape = .counted op.roles.length stride)
    (hcount : items.length = count * stride)
    (hw : List.Forall₂ (e.storage.Admits items.length) op.roles (head ++ [count]))
    (hi : ∀ w ∈ items, e.storage.Admits 0 .source w)
    (hb : op.creates = true → ∃ i f, (head ++ count :: items)[1]? = some i ∧
      e.storage.lambdas[i]? = some f ∧ (op = .createSelfLambda ↔ f.usesSelf = true)) :
    Run b k e' H K := by
  rw [Lower.emitList, Lower.emit, Lower.modify_ok] at h
  subst h
  have hlen := hw.length_eq
  rw [List.length_append] at hlen
  have hshaped : Command.Shaped ⟨op, head ++ count :: items⟩ := by
    rw [Command.Shaped, hop]
    exact ⟨head, count, items, rfl, hlen.symm, hcount⟩
  exact r.append (c := ⟨op, head ++ count :: items⟩)
    ⟨hshaped, ⟨head ++ [count], items, by simp, hw, hi⟩, hb⟩ e.line (by simp [hj])

theorem Run.fill (r : Run b k e (jump :: H) K)
    (ht : ∀ cs, e.chunk.Lists cs → (∀ f ∈ K, e.Knows cs f) → cs.Boundary target) :
    Run b k { e with chunk := e.chunk.patchWord jump target } H K := by
  obtain ⟨cs, hl, hs, hk, hf⟩ := r.stands.listing
  have htarget := ht cs hl hf
  obtain ⟨offset, c, hc, hjump, hhole⟩ := hk.holes jump (by simp)
  obtain ⟨pre, post, rfl, rfl⟩ := hc
  subst hhole
  have hwords : ∀ d ∈ pre ++ c :: post, d.op.isJump = true → d.words ≠ [] := by
    intro d hd hj
    obtain ⟨ws, t, hw, -⟩ := (hs d hd).words_of_isJump hj
    simp [hw]
  have hlen := Command.length_aim (hwords c (by simp) hjump) target
  have hlabels : ∀ p ∈ H ++ e.labels, p ∈ Listing.hole pre.size c :: H ++ e.labels :=
    fun p hp => List.mem_cons_of_mem _ hp
  refine ⟨⟨⟨pre ++ c.aim target :: post, hl.patchWord (hwords c (by simp) hjump) target, ?_,
    hk.aim hwords hjump htarget, ?_⟩, r.stands.free, r.stands.locals, r.stands.lambdas⟩,
    r.leads.trans ⟨.refl _, ?_, ?_, fun p hp => .inl (hlabels p hp)⟩, r.opened, r.loops⟩
  · intro d hd
    rcases List.mem_append.1 hd with hd | hd
    · exact hs d (List.mem_append_left _ hd)
    · rcases List.mem_cons.1 hd with rfl | hd
      · exact (hs c (by simp)).aim hjump target
      · exact hs d (by simp [hd])
  · intro f hm
    have hknown := hf f hm
    cases f with
    | source a => exact hknown
    | dest a => exact hknown
    | place role i => exact hknown
    | boundary t => exact Listing.Boundary.replace hlen hknown
  · exact Nat.le_of_eq (Chunk.size_patchWord _ _).symm
  · intro i _ hout
    exact Chunk.getElem?_patchWord_of_ne _ (hout _ (by simp))

end Emitter

namespace Lower.Goes

open Emitter

variable {k jump target count stride next : Nat} {H jumps words head items : List Nat}
  {K : List Fact} {op : Opcode}

theorem emit (hop : op.isJump = false ∧ op.shape = .fixed op.roles.length ∧
    List.Forall₂ (Fact.Suits K) op.roles words := by simp +contextual) :
    Goes ⟨k, H, K⟩ (emit op words) fun _ => ⟨k, H, K⟩ := by
  intro b e r u e' h
  obtain ⟨hj, hop, hw⟩ := hop
  rw [Lower.emit, modify_ok] at h
  subst h
  have hshaped : Command.Shaped ⟨op, words⟩ := by
    rw [Command.Shaped, hop]
    exact hw.length_eq.symm
  exact r.append (c := ⟨op, words⟩) ⟨hshaped, ⟨words, [], by simp,
    hw.imp fun _ _ h => r.suits h 0, by simp⟩, fun hc => absurd hc (Opcode.not_creates hop)⟩ e.line
    (by simp [hj])

theorem emitList (hop : op.Lists stride := by exact ⟨rfl, rfl⟩)
    (hcount : items.length = count * stride := by rfl)
    (hw : List.Forall₂ (Fact.Suits K) op.roles (head ++ [count]) ∧
      ∀ w ∈ items, Fact.Suits K .source w := by simp +contextual) :
    Goes ⟨k, H, K⟩ (emitList op head count items) fun _ => ⟨k, H, K⟩ := by
  intro b e r u e' h
  obtain ⟨hw, hi⟩ := hw
  obtain ⟨hj, hc⟩ := Bool.or_eq_false_iff.1 hop.1
  exact r.emitItems h hj hop.2 hcount (hw.imp fun _ _ h => r.suits h _)
    (fun w hw => r.suits (hi w hw) 0) fun h => absurd (h.symm.trans hc) (by decide)

theorem emitJump (hop : op.isJump = true ∧
    List.Forall₂ (Fact.Suits K) op.roles.dropLast words := by simp +contextual) :
    Goes ⟨k, H, K⟩ (emitJump op words) fun jump => ⟨k, jump :: H, K⟩ := by
  intro b e r jump e' h
  obtain ⟨hop, hw⟩ := hop
  rw [Lower.emitJump, modifyGet_ok] at h
  obtain ⟨rfl, rfl⟩ := Prod.mk.inj h
  obtain ⟨cs, hl, -⟩ := r.stands.listing
  obtain ⟨hshape, hroles, -⟩ := Opcode.roles_of_isJump hop
  show Run b k { e with chunk := (e.chunk.writeJump op words e.line).2 }
    ((e.chunk.writeJump op words e.line).1 :: H) K
  have hhole := hl.writeJump op words e.line
  rw [Chunk.writeJump_eq] at hhole ⊢
  refine r.append (c := ⟨op, words ++ [Chunk.pending]⟩)
    ⟨?_, ⟨words ++ [Chunk.pending], [], by simp, ?_,
    by simp⟩, fun hc => absurd hc (Opcode.not_creates hshape)⟩ e.line fun p => ?_
  · rw [Command.Shaped, hshape, hroles]
    simp [hw.length_eq]
  · rw [hroles]
    exact List.rel_append (hw.imp fun _ _ h => r.suits h _) (.cons trivial .nil)
  · rw [List.mem_cons, Listing.hole, hl.size_eq, ← hhole, Nat.add_sub_cancel, or_comm]
    simp [hop]

theorem offset : Goes ⟨k, H, K⟩ offset fun at' => ⟨k, H, .boundary at' :: K⟩ := by
  intro b e r offset e' h
  obtain ⟨e0, e1, h0, h⟩ := bind_ok.1 h
  obtain ⟨rfl, rfl⟩ := get_ok.1 h0
  obtain ⟨rfl, rfl⟩ := pure_ok.1 h
  refine r.learn fun f hf => ?_
  rcases List.mem_cons.1 hf with rfl | hf
  · refine .inr fun cs hl => ?_
    rw [hl.size_eq]
    exact cs.boundary_size
  · exact .inl hf

theorem patch : Goes ⟨k, jump :: H, K⟩ (patch jump) fun _ => ⟨k, H, K⟩ := by
  intro b e r u e' h
  rw [Lower.patch, modify_ok] at h
  subst h
  refine r.fill fun cs hl _ => ?_
  rw [hl.size_eq]
  exact cs.boundary_size

theorem patchNext : Goes ⟨k, next :: jump :: H, K⟩ (Lower.patch jump) fun _ => ⟨k, next :: H, K⟩ :=
  .reorder _ .patch

theorem patchTo (ht : .boundary target ∈ K := by simp) :
    Goes ⟨k, jump :: H, K⟩ (patchTo jump target) fun _ => ⟨k, H, K⟩ := by
  intro b e r u e' h
  rw [Lower.patchTo, modify_ok] at h
  subst h
  exact r.fill fun cs _ hf => hf _ ht

theorem fillAll {act : Nat → Lower Unit}
    (h : ∀ jump H, Goes ⟨k, jump :: H, K⟩ (act jump) fun _ => ⟨k, H, K⟩) :
    Goes ⟨k, jumps ++ H, K⟩ (jumps.forM act) fun _ => ⟨k, H, K⟩ := by
  induction jumps with
  | nil => exact .skip
  | cons jump jumps ih => exact .bind (h jump _) fun _ => ih

theorem patchAll : Goes ⟨k, jumps ++ H, K⟩ (patchAll jumps) fun _ => ⟨k, H, K⟩ :=
  .fillAll fun _ _ => .patch

theorem patchAllTo (ht : .boundary target ∈ K := by simp) :
    Goes ⟨k, jumps ++ H, K⟩ (jumps.forM fun jump => Lower.patchTo jump target) fun _ => ⟨k, H, K⟩ :=
  .fillAll fun _ _ => .patchTo ht

theorem enterLoop : Goes ⟨k, H, K⟩ enterLoop fun _ => ⟨k + 1, H, K⟩ := by
  intro b e r u e' h
  rw [Lower.enterLoop, modify_ok] at h
  subst h
  exact ⟨⟨r.stands.listing, r.stands.free, r.stands.locals, r.stands.lambdas⟩,
    ⟨r.leads.storage, r.leads.size, r.leads.code, r.leads.holes⟩, Nat.succ_le_succ r.opened,
    r.loops⟩

theorem leaveLoop : Goes ⟨k + 1, H, K⟩ leaveLoop fun l =>
    ⟨k, l.breaks ++ (l.continues ++ H), K⟩ := by
  intro b e r l e' h
  rw [Lower.leaveLoop, modifyGet_ok] at h
  cases hl : e.loops with
  | nil =>
    have := r.opened
    rw [hl] at this
    cases this
  | cons m ms =>
    rw [hl] at h
    obtain ⟨rfl, rfl⟩ := Prod.mk.inj h
    obtain ⟨cs, hlist, hs, hk, hf⟩ := r.stands.listing
    have hmem (p : Nat) : p ∈ m.breaks.reverse ++ (m.continues.reverse ++ H) ++
        ms.flatMap LoopLabels.holes ↔ p ∈ H ++ e.labels := by
      rw [labels, hl]
      simp only [List.mem_append, List.flatMap_cons, LoopLabels.holes]
      grind
    have hopened := r.opened
    have hloops := r.loops
    rw [hl] at hopened hloops
    exact ⟨⟨⟨cs, hlist, hs, hk.congr hmem, hf⟩, r.stands.free, r.stands.locals, r.stands.lambdas⟩,
      ⟨r.leads.storage, r.leads.size, r.leads.code,
        fun p hp => r.leads.holes p ((hmem p).1 hp)⟩, Nat.le_of_succ_le_succ hopened, hloops⟩

theorem addLabel {f : LoopLabels → LoopLabels} {span : Span}
    (hholes : ∀ l p, p ∈ (f l).holes ↔ p = jump ∨ p ∈ l.holes)
    (hgrown : ∀ l : LoopLabels, l.breaks <:+ (f l).breaks ∧ l.continues <:+ (f l).continues) :
    Goes ⟨k, jump :: H, K⟩ (addLabel f span) fun _ => ⟨k, H, K⟩ := by
  intro b e r u e' h
  obtain ⟨e0, e1, h0, h⟩ := bind_ok.1 h
  obtain ⟨rfl, rfl⟩ := get_ok.1 h0
  cases hl : e.loops with
  | nil =>
    rw [hl] at h
    exact (internal_ok.1 h).elim
  | cons m ms =>
    rw [hl] at h
    have h := modify_ok.1 h
    subst h
    obtain ⟨cs, hlist, hs, hk, hf⟩ := r.stands.listing
    have hmem (p : Nat) : p ∈ H ++ (f m :: ms).flatMap LoopLabels.holes ↔ p ∈ jump :: H ++
        e.labels := by
      rw [labels, hl]
      grind
    have hopened := r.opened
    have hloops := r.loops
    rw [hl] at hopened hloops
    refine ⟨⟨⟨cs, hlist, hs, hk.congr hmem, hf⟩, r.stands.free, r.stands.locals, r.stands.lambdas⟩,
      ⟨r.leads.storage, r.leads.size, r.leads.code,
        fun p hp => r.leads.holes p ((hmem p).1 hp)⟩, hopened, ?_⟩
    cases k with
    | succ k => exact hloops
    | zero =>
      cases hb : b.1.loops with
      | nil =>
        rw [hb] at hloops
        exact hloops.elim
      | cons l ls =>
        rw [hb] at hloops
        obtain ⟨hbr, hco, rfl⟩ := hloops
        exact ⟨hbr.trans (hgrown m).1, hco.trans (hgrown m).2, rfl⟩

end Lower.Goes

namespace Emitter

variable {b : Emitter × List Nat} {k place : Nat} {e e' : Emitter} {H : List Nat} {K : List Fact}
  {line : Nat}

/-! ### Whole functions -/

theorem Stands.fresh {lambdas : Array FunctionCode} (h : ∀ f ∈ lambdas, f.Sound lambdas)
    (line : Nat) : Stands { line, classLambdas := lambdas } [] [] where
  listing := ⟨[],
    Chunk.lists_empty, by simp, ⟨by rintro o c ⟨pre, post, hc, -⟩; simp at hc, by simp [labels]⟩,
    by simp⟩
  free := by simp
  locals := by simp [Table.find?]
  lambdas := h

theorem Run.loops_nil (r : Run b 0 e H K) (hb : b.1.loops = []) : e.loops = [] := by
  have h := r.loops
  rw [hb] at h
  cases he : e.loops with
  | nil => rfl
  | cons l ls =>
    rw [he] at h
    exact h.elim

theorem Run.finish (r : Run b 0 e [] K) (hb : b.1.loops = []) {f : FunctionCode}
    (hchunk : f.chunk = e.chunk.write .giveBack [Address.nil.encode] line) (hpool : f.pool = e.pool)
    (hstack : f.stackSize = e.stackSize) (hentries : ∀ t ∈ f.entries, .boundary t ∈ K) :
    f.Sound e.classLambdas := by
  obtain ⟨cs, hl, hs, hk, hf⟩ := r.stands.listing
  have hstorage : f.storage e.classLambdas = e.storage := by
    rw [FunctionCode.storage, hstack, hpool]
    rfl
  have hlabels : [] ++ e.labels = [] := by rw [labels, r.loops_nil hb]; rfl
  rw [hlabels] at hk
  refine ⟨cs, ⟨.giveBack, [Address.nil.encode]⟩, hchunk ▸ hl.write _ _ _, rfl, ?_, hk,
    fun t ht => hf _ (hentries t ht)⟩
  intro c hc
  rw [hstorage]
  rcases List.mem_append.1 hc with hc | hc
  · exact hs c hc
  · rw [List.mem_singleton.1 hc]
    exact ⟨rfl, ⟨[Address.nil.encode], [], rfl, .cons ⟨.nil, rfl, trivial⟩ .nil, by simp⟩, nofun⟩

theorem Run.addLambda (r : Run b k e H K) {code : FunctionCode}
    (hcode : code.Sound e.classLambdas) (h : Lower.addLambda code e = .ok (place, e')) :
    Run b k e' H K ∧ e'.classLambdas[place]? = some code := by
  rw [Lower.addLambda, Lower.modifyGet_ok] at h
  obtain ⟨rfl, rfl⟩ := Prod.mk.inj h
  have hkeep : ∀ (i : Nat) g, e.classLambdas[i]? = some g →
      (e.classLambdas.push code)[i]? = some g := by
    intro i g hi
    obtain ⟨hlt, hg⟩ := Array.getElem?_eq_some_iff.1 hi
    rw [Array.getElem?_push_lt hlt, hg]
  refine ⟨r.keep rfl rfl ⟨Nat.le_refl _, fun _ _ h => h, hkeep⟩ r.stands.free r.stands.locals
    (fun f hf => ?_) fun f hf => .inl hf, Array.getElem?_push_size⟩
  rcases Array.mem_push.1 hf with hf | rfl
  · exact (r.stands.lambdas f hf).mono hkeep
  · exact hcode.mono hkeep

end Emitter

open Emitter in
/-- The steps of a whole function, which gives its default entries: from a fresh emitter on they
lead to code that makes a sound function. -/
def Lower.Completes (m : Lower (List Nat)) : Prop :=
  ∀ ⦃e0⦄, Stands e0 [] [] → e0.loops = [] → ∀ ⦃entries e⦄, m e0 = .ok (entries, e) →
    e0.Leads [] [] e ∧ (∀ f ∈ e.classLambdas, f.Sound e.classLambdas) ∧
      ∀ f : FunctionCode, f.chunk = e.chunk → f.pool = e.pool → f.stackSize = e.stackSize →
        f.entries = entries → f.Sound e.classLambdas

namespace Emitter

variable {b : Emitter × List Nat} {k line : Nat} {e e' inner : Emitter} {H entries : List Nat}
  {K : List Fact}

theorem Run.apart (r : Run b k e H K) {act : Lower (List Nat)} (hact : act.Completes)
    (h : Lower.apart line act e = .ok ((entries, inner), e')) :
    Run b k e' H K ∧ ∀ f : FunctionCode, f.chunk = inner.chunk → f.pool = inner.pool →
      f.stackSize = inner.stackSize → f.entries = entries → f.Sound e'.classLambdas := by
  obtain ⟨e0, e1, h0, h⟩ := Lower.bind_ok.1 h
  obtain ⟨rfl, rfl⟩ := Lower.get_ok.1 h0
  obtain ⟨⟨entries', inner'⟩, e1, h1, h⟩ := Lower.bind_ok.1 h
  obtain ⟨hrun, rfl⟩ := Lower.lift_ok.1 h1
  obtain ⟨_, e1, h1, h⟩ := Lower.bind_ok.1 h
  have hset := Lower.set_ok.1 h1
  subst hset
  obtain ⟨ha, rfl⟩ := Lower.pure_ok.1 h
  obtain ⟨rfl, rfl⟩ := Prod.mk.inj ha
  obtain ⟨hleads, hlambdas, hsound⟩ := hact (.fresh r.stands.lambdas line) rfl hrun
  exact ⟨r.keep rfl rfl ⟨Nat.le_refl _, fun _ _ h => h, hleads.storage.lambdas⟩ r.stands.free
    r.stands.locals hlambdas fun f hf => .inl hf, hsound⟩

end Emitter

end HotScript
