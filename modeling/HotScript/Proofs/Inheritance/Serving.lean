import HotScript.Proofs.Inheritance.Reading

/-!
Requests for bases, and what they are answered with.

`Analyze.Does B m d Q` says of a step from a given desk that it comes to an end if `B` holds, and
what its answer and its outcome are like. Requests come to an end since one that leads to others
begins a stage of a unit or the look at a class, and each is begun once
(`Workspace.Project.pending`).
-/

namespace HotScript

open Option (all_some isSome_iff_exists map_some)

/-! ### What a step does -/

namespace Analyze

variable {α β : Type} {B B' : Prop} {m : Analyze α} {d : Desk} {Q : α → Desk → Prop}

/-- A step that comes to an end if `B` holds, and whose answer and outcome are as said. -/
def Does (B : Prop) (m : Analyze α) (d : Desk) (Q : α → Desk → Prop) : Prop :=
  (B → (m d).isSome) ∧ ∀ ⦃a d'⦄, m d = some (a, d') → Q a d'

namespace Does

theorem pure {a : α} (h : Q a d) : Does B (pure a) d Q := by
  refine ⟨fun _ => rfl, fun b d' hrun => ?_⟩
  cases hrun
  exact h

theorem bind {f : α → Analyze β} {T : β → Desk → Prop} (hm : Does B m d Q)
    (hf : ∀ a d', Q a d' → Does B (f a) d' T) : Does B (m >>= f) d T := by
  constructor
  · intro hB
    obtain ⟨⟨a, d'⟩, hrun⟩ := isSome_iff_exists.1 (hm.1 hB)
    obtain ⟨⟨b, d''⟩, hrun'⟩ := isSome_iff_exists.1 ((hf a d' (hm.2 hrun)).1 hB)
    exact isSome_iff_exists.2 ⟨(b, d''), bind_some.2 ⟨a, d', hrun, hrun'⟩⟩
  · intro b d'' hrun
    obtain ⟨a, d', h1, h2⟩ := bind_some.1 hrun
    exact (hf a d' (hm.2 h1)).2 h2

theorem mono {T : α → Desk → Prop} (h : Does B m d Q) (hQ : ∀ a d', Q a d' → T a d') :
    Does B m d T :=
  ⟨h.1, fun a d' hrun => hQ a d' (h.2 hrun)⟩

theorem weaken (h : Does B m d Q) (hB : B' → B) : Does B' m d Q := ⟨fun hB' => h.1 (hB hB'), h.2⟩

variable {d' : Desk}

theorem step {f : α → Analyze β} {T : β → Desk → Prop} {a : α} (h : m d = some (a, d'))
    (hf : Does B (f a) d' T) : Does B (m >>= f) d T := by
  refine bind (Q := fun b e => b = a ∧ e = d') ⟨fun _ => by rw [h]; rfl, fun b e hrun => ?_⟩ ?_
  · rw [h] at hrun
    cases hrun
    exact ⟨rfl, rfl⟩
  · rintro _ _ ⟨rfl, rfl⟩
    exact hf

theorem ite {c : Prop} [Decidable c] {m' : Analyze α} (hm : c → Does B m d Q)
    (hm' : ¬ c → Does B m' d Q) : Does B (if c then m else m') d Q := by
  split
  · next hc => exact hm hc
  · next hc => exact hm' hc

theorem run {a : α} (h : m d = some (a, d')) (hQ : Q a d') : Does B m d Q := by
  refine ⟨fun _ => by rw [h]; rfl, fun b e hrun => ?_⟩
  rw [h] at hrun
  cases hrun
  exact hQ

theorem forM {f : β → Analyze PUnit} {xs : List β} {I : List β → Desk → Prop} (h : I xs d)
    (hstep : ∀ x xs d, I (x :: xs) d → Does B (f x) d fun _ d' => I xs d') :
    Does B (xs.forM f) d fun _ d' => I [] d' := by
  induction xs generalizing d with
  | nil => exact .pure h
  | cons x xs ih => exact .bind (hstep x xs d h) fun _ d' h' => ih h'

theorem forIn {f : β → PUnit → Analyze (ForInStep PUnit)} {xs : List β} {I : List β → Desk → Prop}
    (h : I xs d)
    (hstep : ∀ x xs d, I (x :: xs) d → Does B (f x ⟨⟩) d fun a d' => a = .yield ⟨⟩ ∧ I xs d') :
    Does B (forIn xs ⟨⟩ f) d fun _ d' => I [] d' := by
  induction xs generalizing d with
  | nil => exact .pure h
  | cons x xs ih =>
    rw [List.forIn_cons]
    refine .bind (hstep x xs d h) fun a d' ⟨ha, h'⟩ => ?_
    subst ha
    exact ih h'

theorem lasting (h : Does B m d Q) (hk : Keeps .lasting m) :
    Does B m d fun a d' => (d'.cursor.unit = d.cursor.unit ∧ d.work.Later d'.work) ∧ Q a d' :=
  ⟨h.1, fun _ _ hrun => ⟨hk hrun, h.2 hrun⟩⟩

end Does

end Analyze

namespace Workspace

variable {w0 : Workspace} {P : w0.Project} {R : Looking} {S : List Place}
  {w w' : Workspace} {k : UnitId} {i : ClassId} {n : Nat} {d d' d1 d2 d3 : Desk} {f : ClassFacts}

/-! ### What is left to do -/

def unraised (w : Workspace) (p : String) : Bool :=
  (w.unitOf.find? p).all fun k =>
    decide ((w.unit k).status.rank < UnitStatus.inheritanceSolved.rank)

def untouched (w : Workspace) (c : Place) : Bool := (w.stateAt? c).all (· == .unresolved)

/-- How many units are to be raised, and how many classes to be looked at. -/
def Project.pending (P : w0.Project) (w : Workspace) : Nat :=
  P.files.countP w.unraised + P.places.countP w.untouched

theorem unraised_of_later (hl : w.Later w') (hlinked : w.Linked) {p : String}
    (h : w'.unraised p = true) : w.unraised p = true := by
  rw [unraised] at h ⊢
  cases hk : w.unitOf.find? p with
  | none => rfl
  | some k =>
    rw [hl.unitOf p k hk, all_some, decide_eq_true_iff] at h
    rw [all_some, decide_eq_true_iff]
    exact Nat.lt_of_le_of_lt (hl.units k (hlinked.placed p k hk).1).2.status h

variable {c b : Place}

theorem Later.stateAt? {s : InheritanceState} (hl : w.Later w') (hlinked : w.Linked)
    (h : w.stateAt? c = some s) (hs : s ≠ .unresolved) :
    w'.stateAt? c = some s ∨ w'.stateAt? c = some .invalid := by
  obtain ⟨f, hf, rfl⟩ := Option.map_eq_some_iff.1 h
  obtain ⟨f', hf', hlater⟩ := hl.classAt? hlinked hf
  rw [Workspace.stateAt?, hf']
  rcases hlater.base with hopen | hinvalid | ⟨hsame, -⟩
  · exact absurd hopen hs
  · exact .inr (congrArg some hinvalid)
  · exact .inl (congrArg some hsame)

theorem untouched_of_later (hl : w.Later w') (hlinked : w.Linked) (h : w'.untouched c = true) :
    w.untouched c = true := by
  rw [untouched] at h ⊢
  cases hs : w.stateAt? c with
  | none => rfl
  | some s =>
    rw [all_some, beq_iff_eq]
    refine Decidable.byContradiction fun hne => ?_
    rcases hl.stateAt? hlinked hs hne with hs' | hs'
    · rw [hs', all_some, beq_iff_eq] at h
      exact hne h
    · rw [hs'] at h
      cases h

/-- Nothing that was done is to be done again. -/
theorem Project.budget {B : Prop} (hB : B → P.pending w < n) (hl : w.Later w') (hlinked : w.Linked)
    (hB' : B) : P.pending w' < n :=
  Nat.lt_of_le_of_lt (Nat.add_le_add (List.countP_mono_left fun _ _ => unraised_of_later hl hlinked)
    (List.countP_mono_left fun _ _ => untouched_of_later hl hlinked)) (hB hB')

theorem Unmoved.pending (hu : Unmoved w w') (P : w0.Project) : P.pending w' = P.pending w := by
  have hunraised : w'.unraised = w.unraised := by
    funext p
    rw [unraised, unraised, hu.unitOf]
    simp only [(hu.same _).1]
  have huntouched : w'.untouched = w.untouched := by
    funext c
    rw [untouched, untouched, hu.stateAt?]
  rw [Project.pending, Project.pending, hunraised, huntouched]

theorem countP_lt_countP {α : Type} {p q : α → Bool} {l : List α}
    (hpq : ∀ a, p a = true → q a = true) {a : α} (ha : a ∈ l) (hq : q a = true) (hp : p a = false) :
    l.countP p < l.countP q := by
  obtain ⟨front, back, rfl⟩ := List.append_of_mem ha
  rw [List.countP_append, List.countP_append, List.countP_cons_of_neg (by simp [hp]),
    List.countP_cons_of_pos hq]
  have hfront : front.countP p ≤ front.countP q := List.countP_mono_left fun a _ => hpq a
  have hback : back.countP p ≤ back.countP q := List.countP_mono_left fun a _ => hpq a
  omega

section

variable (h : Core P R S w) (hk : k < w.units.size) (hi : i < (w.unit k).classes.size)

include h hk hi

theorem Core.place_mem : ((w.unit k).path, i) ∈ P.places := by
  have hs := h.stands k hk
  exact P.mem_places.2 ⟨hs.file, hs.count ▸ hi⟩

theorem Core.stateAt?_eq : w.stateAt? ((w.unit k).path, i) = some ((w.unit k).inheritanceOf i) := by
  have hf := Array.getElem?_eq_getElem hi
  have hat : w.classAt? ((w.unit k).path, i) = some ((w.unit k).classes[i]) :=
    (classAt?_of_find? (h.linked.owned k hk)).trans hf
  rw [stateAt?, hat, inheritanceOf_of_classAt? (h.linked.owned k hk) hat]
  rfl

theorem Core.pending_inheriting (hopen : (w.unit k).inheritanceOf i = .unresolved) :
    P.pending (w.happen k (.inheriting i)) < P.pending w := by
  have hl := later_inheriting hopen
  have hb := (bonds_inheriting i).happen hk
  refine Nat.add_lt_add_of_le_of_lt (List.countP_mono_left fun _ _ => unraised_of_later hl h.linked)
    (countP_lt_countP (fun _ => untouched_of_later hl h.linked) (h.place_mem hk hi) ?_ ?_)
  · rw [untouched, h.stateAt?_eq hk hi, hopen]
    rfl
  · rw [untouched, hb.stateAt? h.linked hk hi, if_pos rfl]
    rfl

end

/-! ### Resolvers -/

open Analyze

/-- A unit was found for a path, or the cycle has been reported. -/
def Found (P : w0.Project) (R : Looking) (path : String) {ε : Type} (a : Except ε UnitId)
    (w : Workspace) : Prop :=
  (∃ k, a = .ok k ∧ w.unitOf.find? path = some k ∧ w.Solved path) ∨ (∃ fault, a = .error fault) ∧
    Told P R w

/-- What a resolver does with requests for bases, nested not deeper than `n`. -/
structure Serves (P : w0.Project) (n : Nat) (r : Resolver) : Prop where
  carries : Ladder.lasting.Carries r
  parsed : ∀ {R S d path k}, Core P R S d.work → d.work.unitOf.find? path = some k →
    Does (0 < n) (r (.unit path .parsed)) d fun a d' =>
      a = .ok k ∧ d'.cursor = d.cursor ∧ Unmoved d.work d'.work
  unit : ∀ {R S d path}, Inv P R S d.work → path ∈ P.files →
    Does (P.pending d.work < n) (r (.unit path .inheritanceSolved)) d fun a d' =>
      Inv P R S d'.work ∧ Found P R path a d'.work
  bases : ∀ {R S d i}, Inv P R S d.work → d.cursor.unit < d.work.units.size →
    d.work.Solved (d.work.unit d.cursor.unit).path →
    i < (d.work.unit d.cursor.unit).classes.size →
    Does (P.pending d.work < n) (r (.inheritance i)) d fun _ d' =>
      Inv P R S d'.work ∧ (d'.work.unit d.cursor.unit).inheritanceOf i ≠ .unresolved

theorem Serves.sound {r : Resolver} (hr : Serves P n r) :
    r.Sound .lasting .inheritanceSolved := hr.carries.sound .inheritanceSolved (Nat.le_refl _)

/-- Where a step may lead that finds out about bases. -/
structure Onward (P : w0.Project) (R : Looking) (S : List Place) (d d' : Desk) : Prop where
  unit : d'.cursor.unit = d.cursor.unit
  later : d.work.Later d'.work
  inv : Inv P R S d'.work

theorem Onward.trans (h : Onward P R S d1 d2) (h' : Onward P R S d2 d3) :
    Onward P R S d1 d3 := ⟨h'.unit.trans h.unit, h.later.trans h'.later, h'.inv⟩

/-- The unit that the analysis stands in is there, and a stage of it looks at all of its classes. -/
structure Stood (d : Desk) : Prop where
  lt : d.cursor.unit < d.work.units.size
  solved : d.work.Solved (d.work.unit d.cursor.unit).path

theorem Onward.lt (ho : Onward P R S d d') (h : d.cursor.unit < d.work.units.size) :
    d'.cursor.unit < d'.work.units.size := by
  rw [ho.unit]
  exact (ho.later.units _ h).1

theorem Stood.onward (h : Stood d) (hl : d.work.Linked) (ho : Onward P R S d d') : Stood d' := by
  refine ⟨ho.lt h.lt, ?_⟩
  rw [ho.unit, (ho.later.units _ h.lt).2.path]
  exact h.solved.later hl ho.later

/-- A class that may be asked for its base. -/
structure Ready (P : w0.Project) (w : Workspace) (c : Place) : Prop where
  mem : c ∈ P.places
  solved : w.Solved c.1

theorem Ready.later (h : Ready P w c) (hlinked : w.Linked) (hl : w.Later w') : Ready P w' c :=
  ⟨h.mem, h.solved.later hlinked hl⟩

theorem Core.ready (h : Core P R S w) (hc : c ∈ P.places) (hf : w.classAt? c = some f)
    (hres : f.inheritance = .resolved) (hcb : P.Extends c b) : Ready P w b :=
  ⟨Project.Extends.mem P hc hcb, (h.bases c f hf hres).2 b hcb⟩

/-- What is said to be the base of a class that was looked at. -/
inductive Says (P : w0.Project) (R : Looking) (S : List Place) (w : Workspace) (c : Place) :
    BaseState → Prop
  | script {b : Place} (hstate : w.stateAt? c = some .resolved) (hcb : P.Extends c b)
    (hb : Ready P w b) : Says P R S w c (.script (P.ref b))
  | native (name : String) (hroot : P.base c = none) : Says P R S w c (.native name)
  | unknown (hroot : P.base c = none) : Says P R S w c .unknown
  | resolving (hmem : c ∈ S) : Says P R S w c .resolving
  | invalid (ht : Told P R w) : Says P R S w c .invalid

theorem Inv.says (h : Inv P R S w) (hc : c ∈ P.places) (hf : w.classAt? c = some f)
    (hstate : f.inheritance ≠ .unresolved) : Says P R S w c f.baseState := by
  have hat : w.stateAt? c = some f.inheritance := by rw [stateAt?, hf, map_some]
  rw [ClassFacts.baseState]
  cases hi : f.inheritance with
  | unresolved => exact absurd hi hstate
  | resolving => exact .resolving ((h.core.stack c).2 (hi ▸ hat))
  | invalid =>
    -- a class is unusable only because of the cycle
    rcases h.verdict with hq | ht
    · exact absurd (hi ▸ hat) (hq.usable c)
    · exact .invalid ht
  | resolved =>
    have hclass := (h.core.bases c f hf hi).1
    cases hb : P.base c with
    | none =>
      rw [hb, StaticType.class?] at hclass
      cases hshape : f.base.shape with
      | script cls =>
        rw [hshape] at hclass
        cases hclass
      | native name => exact .native name hb
      | _ => exact .unknown hb
    | some b =>
      rw [hb, StaticType.class?] at hclass
      cases hshape : f.base.shape with
      | script cls =>
        rw [hshape] at hclass
        cases hclass
        exact .script (hi ▸ hat) hb (h.core.ready hc hf hi hb)
      | _ =>
        rw [hshape] at hclass
        cases hclass

section

variable {r : Resolver} (hr : Serves P n r) {B : Prop}

include hr

/-! ### Units -/

variable {path : String}

section

variable (hB : B → 0 < n) (hc : Core P R S d.work) (hlt : d.cursor.unit < d.work.units.size)
include hB hc hlt

theorem unitOf_does (hfind : d.work.unitOf.find? path = some k) :
    Does B (Analyze.unitOf r path) d fun a d' =>
      a = some k ∧ d'.cursor = d.cursor ∧ Unmoved d.work d'.work := by
  refine .step rfl (.ite (fun heq => ?_) fun hne => ?_)
  · refine .step rfl (.pure ⟨?_, rfl, .refl _⟩)
    rw [← hc.linked.owned _ hlt, ← beq_iff_eq.1 heq]
    exact hfind
  · cases hdep : (d.work.unit d.cursor.unit).depended.find? path with
    | some id => exact .pure ⟨(hc.linked.depended _ path id hdep).symm.trans hfind, rfl, .refl _⟩
    | none =>
      refine .bind ((hr.parsed hc hfind).weaken hB) fun a d' hd => .pure ?_
      obtain ⟨rfl, hcursor, hu⟩ := hd
      exact ⟨rfl, hcursor, hu⟩

theorem treeOf_does {cls : ClassRef} (hfind : d.work.unitOf.find? cls.path = some k) :
    Does B (treeOf r cls) d fun a d' =>
      a = (d.work.unit k).tree ∧ d'.cursor = d.cursor ∧ Unmoved d.work d'.work := by
  refine .bind (unitOf_does hr hB hc hlt hfind) fun a d' hd => ?_
  obtain ⟨rfl, hcursor, hu⟩ := hd
  exact .step rfl (.pure ⟨hu.tree k, hcursor, hu⟩)

end

omit hr in
theorem inUnit_does {α : Type} {m : Analyze α} {Q : α → Desk → Prop} {T : Option α → Desk → Prop}
    (htree : (d.work.unit k).tree.isSome) (hm : Does B m { d with cursor := { unit := k } } Q)
    (hT : ∀ a d', Q a d' → T (some a)
      { work := d'.work.modifyUnit k (·.fileFacts d'.cursor.found), cursor := d.cursor }) :
    Does B (inUnit k m) d T := by
  obtain ⟨t, ht⟩ := isSome_iff_exists.1 htree
  refine .step rfl ?_
  rw [ht]
  exact .step rfl (.step rfl (.bind hm fun a d' hQ =>
    .step rfl (.step rfl (.step rfl (.pure (hT a d' hQ))))))

variable (hB : B → P.pending d.work < n) (h : Inv P R S d.work)

include hB h

theorem loadUnit_does (hstood : Stood d) (hpath : path ∈ P.files) :
    Does B (loadUnit r path .inheritanceSolved) d fun a d' =>
      Onward P R S d d' ∧ Found P R path a d'.work := by
  have hlasting : Keeps .lasting (loadUnit r path .inheritanceSolved) :=
    .loadUnit hr.sound path (Nat.le_refl _) (Nat.le_refl _)
  refine (Does.lasting (Q := fun a d' => Inv P R S d'.work ∧ Found P R path a d'.work)
    ?_ hlasting).mono fun a d' ⟨⟨hu, hl⟩, hinv, hfound⟩ => ⟨⟨hu, hl, hinv⟩, hfound⟩
  refine .step rfl (.ite (fun heq => ?_) fun _ => ?_)
  · obtain rfl : path = (d.work.unit d.cursor.unit).path := beq_iff_eq.1 heq
    exact .step rfl (.pure ⟨h, .inl ⟨_, rfl, h.core.linked.owned _ hstood.lt, hstood.solved⟩⟩)
  · refine .bind ((hr.unit h hpath).weaken hB) fun a d' hd => ?_
    obtain ⟨hinv, ⟨k, rfl, hk, hs⟩ | ⟨⟨fault, rfl⟩, ht⟩⟩ := hd
    · refine .step rfl (.step rfl (.pure ?_))
      have hu := Unmoved.addDependency d'.cursor.unit hk
      exact ⟨hinv.unmoved hu, .inl ⟨k, rfl, hu.unitOf ▸ hk, hu.solved hs⟩⟩
    · exact .pure ⟨hinv, .inr ⟨⟨_, rfl⟩, ht⟩⟩

theorem baseFile_does (hstood : Stood d) (hpath : path ∈ P.files) :
    Does B (baseFile r path) d fun a d' => Onward P R S d d' ∧ (a = some (P.ref (path, 0)) ∧
          (∀ i, (path, i) ∈ P.places → Ready P d'.work (path, i)) ∨
        a = none ∧ Told P R d'.work) := by
  refine .bind (loadUnit_does hr hB h hstood hpath) fun a d' hd => ?_
  obtain ⟨ho, ⟨k, rfl, hk, hs⟩ | ⟨⟨fault, rfl⟩, ht⟩⟩ := hd
  · refine .step rfl (.pure ⟨ho, .inl ⟨?_, fun i hi => ⟨hi, hs⟩⟩⟩)
    obtain ⟨hlt, hp⟩ := ho.inv.core.linked.placed path k hk
    have hst := ho.inv.core.stands k hlt
    have hpos : 0 < (d'.work.unit k).classes.size := by
      rw [hst.count, hp]
      exact List.length_pos_iff.2 (P.headed path (P.mem_files.1 hpath))
    have hf := Array.getElem?_eq_getElem hpos
    rw [FileUnit.head?, FileUnit.classRef?, FileUnit.classFacts?, hf, map_some, hst.refs 0 _ hf, hp]
  · exact .pure ⟨ho, .inr ⟨rfl, ht⟩⟩

/-! ### Bases -/

section

variable (hlt : d.cursor.unit < d.work.units.size) (hc : Ready P d.work c)
include hlt hc

theorem ensureInheritance_does : Does B (ensureInheritance r (P.ref c)) d fun _ d' =>
      Inv P R S d'.work ∧ ∃ f, d'.work.classAt? c = some f ∧ f.inheritance ≠ .unresolved := by
  obtain ⟨k, hk, -⟩ := hc.solved
  obtain ⟨hklt, hpath⟩ := h.core.linked.placed _ k hk
  have hi : c.2 < (d.work.unit k).classes.size := by
    rw [(h.core.stands k hklt).count, hpath]
    exact (P.mem_places.1 hc.mem).2
  -- the class of a later workspace, where it was looked at
  have hlooked {w' : Workspace} (hl : d.work.Later w')
      (hstate : (w'.unit k).inheritanceOf c.2 ≠ .unresolved) :
      ∃ f, w'.classAt? c = some f ∧ f.inheritance ≠ .unresolved := by
    have hat : d.work.classAt? c = some ((d.work.unit k).classes[c.2]) :=
      (classAt?_of_find? hk).trans (Array.getElem?_eq_getElem hi)
    obtain ⟨f, hf, -⟩ := hl.classAt? h.core.linked hat
    exact ⟨f, hf, inheritanceOf_of_classAt? (hl.unitOf _ k hk) hf ▸ hstate⟩
  refine (Does.lasting (Q := fun _ d' => Inv P R S d'.work ∧
    (d'.work.unit k).inheritanceOf c.2 ≠ .unresolved) ?_ (.ensureInheritance hr.sound _)).mono
    fun _ d' ⟨⟨_, hl⟩, hinv, hstate⟩ => ⟨hinv, hlooked hl hstate⟩
  refine .step rfl (.ite (fun heq => ?_) fun _ => ?_)
  · have hown : d.cursor.unit = k := by
      have hsame : c.1 = (d.work.unit d.cursor.unit).path := by simpa using heq
      exact Option.some.inj ((h.core.linked.owned _ hlt).symm.trans (hsame ▸ hk))
    rw [← hown] at hi hpath ⊢
    rw [P.ref_index]
    exact (hr.bases h hlt (hpath ▸ hc.solved) hi).weaken hB
  · have hfind : d.work.unitOf.find? (P.ref c).path = some k := by rw [P.ref_path, hk]
    refine .bind (unitOf_does hr (fun hB' => Nat.zero_lt_of_lt (hB hB')) h.core hlt hfind)
      fun a d' hd => ?_
    obtain ⟨rfl, hcursor, hu⟩ := hd
    have hinv := h.unmoved hu
    rw [P.ref_index]
    refine .step rfl (.ite (fun hopen => ?_) fun hopen => .pure ⟨hinv, hopen⟩)
    -- the class is looked at in its own unit
    have hklt' : k < d'.work.units.size := hu.size.symm ▸ hklt
    have hbases := hr.bases (R := R) (S := S) (d := { d' with cursor := { unit := k } })
        (i := c.2) hinv
      hklt' (by rw [hu.path, hpath]; exact hu.solved hc.solved)
      (Nat.lt_of_lt_of_eq hi hu.count.symm)
    refine .bind (inUnit_does (T := fun _ d'' => Inv P R S d''.work ∧
      (d''.work.unit k).inheritanceOf c.2 ≠ .unresolved) ?_ (hbases.weaken (hu.pending P ▸ hB))
        fun _ d'' ⟨hinv', hstate⟩ => ?_) fun _ d'' hd => .pure hd
    · obtain ⟨t, ht, -⟩ := (hinv.core.stands k hklt').tree
      rw [ht]
      rfl
    · have hu' := Unmoved.fileFacts d''.work k d''.cursor.found
      refine ⟨hinv'.unmoved hu', ?_⟩
      rw [FileUnit.inheritanceOf, FileUnit.classFacts?] at hstate ⊢
      have hsame : ((d''.work.modifyUnit k fun u => u.fileFacts d''.cursor.found).unit k).classes =
          (d''.work.unit k).classes := congr_modifyUnit (·.classes) rfl k
      rw [hsame]
      exact hstate

theorem baseOf_does : Does B (baseOf r (P.ref c)) d fun a d' =>
      Onward P R S d d' ∧ Says P R S d'.work c a := by
  refine (Does.lasting (Q := fun a d' => Inv P R S d'.work ∧ Says P R S d'.work c a) ?_
    (.baseOf hr.sound _)).mono fun a d' ⟨⟨hu, hl⟩, hinv, hsays⟩ => ⟨⟨hu, hl, hinv⟩, hsays⟩
  refine .bind ((ensureInheritance_does hr hB h hlt hc).lasting
    (.ensureInheritance hr.sound _)) fun _ d1 hd => ?_
  obtain ⟨⟨hu1, hl1⟩, hinv1, f, hf, hstate⟩ := hd
  obtain ⟨k, hk, hfk⟩ := Option.bind_eq_some_iff.1 hf
  have hfind : d1.work.unitOf.find? (P.ref c).path = some k := by rw [P.ref_path, hk]
  refine .bind (unitOf_does hr (fun hB' => Nat.zero_lt_of_lt (hB hB')) hinv1.core
    (hu1 ▸ (hl1.units _ hlt).1) hfind) fun a d2 hd => ?_
  obtain ⟨rfl, -, hu2⟩ := hd
  have hinv2 := hinv1.unmoved hu2
  refine .step rfl (.pure ⟨hinv2, ?_⟩)
  have hlink := hu2.links_classAt? c
  rw [hf, map_some, Option.map_eq_some_iff] at hlink
  obtain ⟨f2, hf2, hsame⟩ := hlink
  have hstate2 : f2.inheritance = f.inheritance := congrArg (·.2.1) hsame
  have hk2 : d2.work.unitOf.find? c.1 = some k := hu2.unitOf ▸ hk
  have hfk2 : (d2.work.unit k).classes[c.2]? = some f2 := by
    rw [← hf2, classAt?, hk2]
    rfl
  rw [P.ref_index, FileUnit.classFacts?, hfk2]
  exact hinv2.says hc.mem hf2 (hstate2 ▸ hstate)

end

end

end Workspace

end HotScript
