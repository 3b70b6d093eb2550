import HotScript.Proofs.Analysis.Blocks

/-!
Names of the functions around a lambda.

A lambda that uses a name of a function around it captures it, and so does every lambda between
them. While a lambda is analysed, the functions around it stand still. So a capture, once recorded,
is what its name means around the lambda (`Frame.Draws`).
-/

namespace HotScript

/-- The nearest declaration of a name in functions inside each other, and how many functions it is
away. -/
def nearest? (name : String) : List Blocks → Option (Nat × Local)
  | [] => none
  | b :: outer =>
    match b.find? name with
    | some l => some (0, l)
    | none => (nearest? name outer).map fun (k, l) => (k + 1, l)

/-- The blocks of a function and those of the functions around it, innermost first. -/
structure Nest where
  blocks : Blocks := {}
  outer : List Blocks := []

/-- A step in the analysis of functions and of the lambdas in them. -/
inductive Scope.Step
  | enter
  | declare (l : Local)
  | leave
  | begin
  | finish
  | look (name : String)

namespace Nest

variable (n : Nest)

def all : List Blocks := n.blocks :: n.outer

def step : Scope.Step → Nest
  | .enter => { n with blocks := n.blocks.enter }
  | .declare l => { n with blocks := (n.blocks.declare l).getD n.blocks }
  | .leave => { n with blocks := n.blocks.leave }
  | .begin => { outer := n.all }
  | .finish =>
    match n.outer with
    | [] => n
    | blocks :: outer => ⟨blocks, outer⟩
  | .look _ => n

end Nest

namespace Scope

variable (s : Scope)

def frames : List Frame := s.frame :: s.outer

def step : Step → Scope
  | .enter => s.enter
  | .declare l => (s.declare l).toOption.getD s
  | .leave => s.leave.2
  | .begin => s.nested
  | .finish => s.parent?.getD s
  | .look name => (s.lookup name).2

end Scope

/-! ### Captures -/

namespace Frame

variable (f : Frame) (name : String) (decl : Nat)

/-- A name is captured once, for a declaration. -/
def Notes : Prop := (f.captures.filter (·.name == name)).map (·.decl) = [decl]

/-- A lambda in the function can take a name from it: the function has or captures it. -/
def Provides : Prop :=
  (∃ l, f.names.find? name = some l ∧ l.decl = decl) ∨ ∃ c ∈ f.captures, c.name = name ∧
    c.decl = decl

/-- A capture of a name may have been recorded, and nothing else has happened. -/
inductive Grows : Frame → Prop
  | same : Grows f
  | capture (c : Capture) : c.name = name → Grows { f with captures := f.captures ++ [c] }

/-- The captures of a frame are what their names mean around it, and the next function can supply
them. -/
structure Draws (outer : List Frame) (blocks : List Blocks) : Prop where
  index : ∀ (i : Nat) (c : Capture), f.captures[i]? = some c → c.index = i
  nodup : (f.captures.map (·.name)).Nodup
  decl : ∀ c ∈ f.captures, (nearest? c.name blocks).map (·.2.decl) = some c.decl
  supply : ∀ c ∈ f.captures, ∃ g ∈ outer.head?, g.Provides c.name c.decl

variable {f name decl} {f' : Frame} {c : Capture} {outer outer' : List Frame} {blocks : List Blocks}
  {b : Blocks}

theorem Grows.provides {x : String} (h : f.Grows name f') (hp : f.Provides x decl) :
    f'.Provides x decl := by
  cases h with
  | same => exact hp
  | capture c _ => exact hp.imp_right fun ⟨d, hd, hx⟩ => ⟨d, List.mem_append_left _ hd, hx⟩

/-- What is recorded around a lambda takes nothing from it. -/
theorem Draws.grow (h : f.Draws outer blocks) (hg : List.Forall₂ (Grows · name) outer outer') :
    f.Draws outer' blocks where
  index := h.index
  nodup := h.nodup
  decl := h.decl
  supply c hc := by
    obtain ⟨g, hhead, hp⟩ := h.supply c hc
    cases hg with
    | nil => cases hhead
    | cons hgrows _ =>
      cases hhead
      exact ⟨_, rfl, hgrows.provides hp⟩

theorem notes_of_mem (h : (f.captures.map (·.name)).Nodup) (hc : c ∈ f.captures) :
    f.Notes c.name c.decl := by
  have hfilter : f.captures.filter (·.name == c.name) = [c] := by
    generalize f.captures = captures at h hc
    induction captures with
    | nil => cases hc
    | cons d captures ih =>
      obtain ⟨hd, h⟩ := List.nodup_cons.1 h
      rcases List.mem_cons.1 hc with rfl | hc
      · have hnone : captures.filter (·.name == c.name) = [] := by
          rw [List.filter_eq_nil_iff]
          exact fun e he heq => hd (List.mem_map.2 ⟨e, he, beq_iff_eq.1 heq⟩)
        rw [List.filter_cons_of_pos (by simp), hnone]
      · have hne : d.name ≠ c.name := fun heq => hd (List.mem_map.2 ⟨c, hc, heq.symm⟩)
        rw [List.filter_cons_of_neg (by simpa using hne), ih h hc]
  rw [Notes, hfilter]
  rfl

theorem Draws.start (outer : List Frame) (blocks : List Blocks) : Draws {} outer blocks :=
  ⟨nofun, .nil, nofun, nofun⟩

end Frame

/-- Frames have the names of the functions, and capture what these mean around them. -/
inductive Scoped : List Frame → List Blocks → Prop
  | nil : Scoped [] []
  | cons {f outer b blocks} : f.Shows b → f.Draws outer blocks → Scoped outer blocks →
      Scoped (f :: outer) (b :: blocks)

namespace Scoped

variable {f g : Frame} {frames outer : List Frame} {blocks : List Blocks} {b : Blocks}
  {name : String} {decl k i : Nat} {l : Local}

theorem notes (h : Scoped (g :: outer) blocks) (hn : nearest? name blocks = some (k, l))
    (hp : g.Provides name l.decl) : ∀ f ∈ (g :: outer).take k, f.Notes name l.decl := by
  generalize hframes : g :: outer = frames at h
  induction h generalizing g outer k with
  | nil => cases hframes
  | @cons f frames b blocks hshows hdraws hrest ih =>
    obtain ⟨rfl, rfl⟩ := List.cons.inj hframes
    rw [nearest?, ← hshows.find?] at hn
    cases hfind : g.names.find? name with
    | some a =>
      rw [hfind] at hn
      cases hn
      exact fun f hf => absurd hf List.not_mem_nil
    | none =>
      rw [hfind] at hn
      obtain ⟨⟨j, l⟩, hj, heq⟩ := Option.map_eq_some_iff.1 hn
      cases heq
      rcases hp with ⟨a, ha, -⟩ | ⟨c, hc, rfl, hdecl⟩
      · rw [hfind] at ha
        cases ha
      · obtain ⟨next, hhead, hnext⟩ := hdraws.supply c hc
        rw [List.take_succ_cons, List.forall_mem_cons]
        refine ⟨hdecl ▸ Frame.notes_of_mem hdraws.nodup hc, ?_⟩
        cases outer with
        | nil => cases hhead
        | cons d outer =>
          cases hhead
          exact ih hj (hdecl ▸ hnext) rfl

theorem draws (h : Scoped frames blocks) (hi : frames[i]? = some f) :
    ∃ blocks, f.Draws (frames.drop (i + 1)) blocks := by
  induction h generalizing i with
  | nil => cases hi
  | cons _ hd _ ih =>
    cases i with
    | zero =>
      cases hi
      exact ⟨_, hd⟩
    | succ i => exact ih hi

theorem shows (h : Scoped (f :: outer) (b :: blocks)) : f.Shows b := by
  cases h with
  | cons hshows _ _ => exact hshows

end Scoped

/-! ### Looking -/

namespace Scope

/-- What comes of looking for a name: the nearest declaration is found, it is captured once by every
frame up to the one that declares it, and the others are as they were. -/
structure Looked (name : String) (blocks : List Blocks) (frames : List Frame)
    (found : Option Lookup) (frames' : List Frame) : Prop where
  nearest : found.map (·.decl) = (nearest? name blocks).map (·.2.decl)
  grown : List.Forall₂ (Frame.Grows · name) frames frames'
  noted : ∀ k l, nearest? name blocks = some (k, l) →
    (∀ f ∈ frames'.take k, f.Notes name l.decl) ∧ frames'.drop k = frames.drop k
  missed : nearest? name blocks = none → frames' = frames
  supplied : ∀ a ∈ found, ∃ g ∈ frames'.head?, g.Provides name a.decl

variable {name : String} {b : Blocks} {blocks : List Blocks} {f : Frame} {outer frames : List Frame}

theorem Looked.refl {found : Option Lookup}
    (hnearest : found.map (·.decl) = (nearest? name blocks).map (·.2.decl))
    (hnoted : ∀ k l, nearest? name blocks = some (k, l) → ∀ f ∈ frames.take k, f.Notes name l.decl)
    (hsupplied : ∀ a ∈ found, ∃ g ∈ frames.head?, g.Provides name a.decl) :
    Looked name blocks frames found frames where
  nearest := hnearest
  grown := List.forall₂_same.2 fun _ _ => .same
  noted k l hn := ⟨hnoted k l hn, rfl⟩
  missed _ := rfl
  supplied := hsupplied

theorem nearest?_of_none (h : b.find? name = none) :
    nearest? name (b :: blocks) = (nearest? name blocks).map fun (k, l) => (k + 1, l) := by
  rw [nearest?, h]

theorem looked_captured {c : Capture} (h : Scoped (f :: outer) (b :: blocks))
    (hb : b.find? name = none) (hc : c ∈ f.captures) (hname : c.name = name) :
    Looked name (b :: blocks) (f :: outer) (some (.captured c)) (f :: outer) := by
  subst hname
  cases h with
  | cons _ hdraws hrest =>
  have hdecl := hdraws.decl c hc
  refine .refl ?_ (fun k l hn => ?_) fun a ha =>
    ⟨f, rfl, .inr ⟨c, hc, rfl, Option.some.inj ha ▸ rfl⟩⟩
  · rw [nearest?_of_none hb, Option.map_map]
    exact hdecl.symm
  · rw [nearest?_of_none hb] at hn
    obtain ⟨⟨j, a⟩, hj, heq⟩ := Option.map_eq_some_iff.1 hn
    cases heq
    rw [hj] at hdecl
    replace hdecl : l.decl = c.decl := Option.some.inj hdecl
    obtain ⟨g, hhead, hp⟩ := hdraws.supply c hc
    obtain ⟨outer, rfl⟩ := List.head?_eq_some_iff.1 hhead
    rw [← hdecl] at hp
    rw [List.take_succ_cons, List.forall_mem_cons]
    exact ⟨hdecl ▸ Frame.notes_of_mem hdraws.nodup hc, hrest.notes hj hp⟩

variable {found : Lookup} {outer' : List Frame} {c : Capture}

theorem looked_capture (hb : b.find? name = none)
    (hrest : Looked name blocks outer (some found) outer')
    (hname : c.name = name) (hdecl : c.decl = found.decl)
    (hnodup : ((f.captures ++ [c]).map (·.name)).Nodup) :
    Looked name (b :: blocks) (f :: outer) (some (.captured c))
      ({ f with captures := f.captures ++ [c] } :: outer') where
  nearest := by
    rw [nearest?_of_none hb, Option.map_map, Option.map_some,
      show Lookup.decl (.captured c) = _ from hdecl]
    exact hrest.nearest
  grown := .cons (.capture c hname) hrest.grown
  noted k l hn := by
    rw [nearest?_of_none hb] at hn
    obtain ⟨⟨j, a⟩, hj, heq⟩ := Option.map_eq_some_iff.1 hn
    cases heq
    obtain ⟨hnotes, hdrop⟩ := hrest.noted j l hj
    have hfound : found.decl = l.decl := by simpa [hj] using hrest.nearest
    rw [List.take_succ_cons, List.forall_mem_cons, ← hfound, ← hdecl, ← hname]
    refine ⟨⟨Frame.notes_of_mem hnodup (List.mem_append_right _ (.head _)), ?_⟩, hdrop⟩
    rw [hname, hdecl, hfound]
    exact hnotes
  missed hn := by
    rw [nearest?_of_none hb, Option.map_eq_none_iff] at hn
    have hfound := hrest.nearest
    rw [hn] at hfound
    cases hfound
  supplied a ha := by
    cases ha
    exact ⟨_, rfl, .inr ⟨c, List.mem_append_right _ (.head _), hname, rfl⟩⟩

theorem draws_capture (hd : f.Draws outer blocks)
    (hrest : Looked name blocks outer (some found) outer')
    (hname : c.name = name) (hdecl : c.decl = found.decl) (hindex : c.index = f.captures.length)
    (hnodup : ((f.captures ++ [c]).map (·.name)).Nodup) :
    ({ f with captures := f.captures ++ [c] } : Frame).Draws outer' blocks where
  index i d hi := by
    rw [List.getElem?_append] at hi
    split at hi
    · exact hd.index i d hi
    · next hlt =>
      obtain ⟨hzero, rfl⟩ : i - f.captures.length = 0 ∧ c = d := by
        simpa [List.getElem?_singleton] using hi
      omega
  nodup := hnodup
  decl d hmem := by
    rcases List.mem_append.1 hmem with hmem | hmem
    · exact hd.decl d hmem
    · rw [List.mem_singleton.1 hmem, hname, hdecl]
      exact hrest.nearest.symm
  supply d hmem := by
    rcases List.mem_append.1 hmem with hmem | hmem
    · exact (hd.grow hrest.grown).supply d hmem
    · rw [List.mem_singleton.1 hmem, hname, hdecl]
      exact hrest.supplied found rfl

theorem looked_captureIn (h : Scoped (f :: outer) (b :: blocks)) :
    Looked name (b :: blocks) (f :: outer) (captureIn name f outer).1
      ((captureIn name f outer).2.1 :: (captureIn name f outer).2.2) ∧
    Scoped ((captureIn name f outer).2.1 :: (captureIn name f outer).2.2) (b :: blocks) := by
  fun_induction captureIn name f outer generalizing b blocks with
  | case1 f outer l hl =>
    have hb : b.find? name = some l := (h.shows.find? name).symm.trans hl
    have hn : nearest? name (b :: blocks) = some (0, l) := by rw [nearest?, hb]
    refine ⟨.refl (by rw [hn]; rfl) (fun k a ha => ?_) fun a ha => ?_, h⟩
    · rw [hn] at ha
      cases ha
      exact fun f hf => absurd hf List.not_mem_nil
    · exact ⟨f, rfl, .inl ⟨l, hl, Option.some.inj ha ▸ rfl⟩⟩
  | case2 f outer hl c hc =>
    have hb : b.find? name = none := (h.shows.find? name).symm.trans hl
    exact ⟨looked_captured h hb (List.mem_of_find?_eq_some hc) (by simpa using List.find?_some hc),
      h⟩
  | case3 f hl hc =>
    have hb : b.find? name = none := (h.shows.find? name).symm.trans hl
    cases h with
    | cons hshows hdraws hrest =>
    cases hrest
    have hn : nearest? name [b] = none := nearest?_of_none hb
    exact ⟨.refl (by rw [hn]; rfl) (fun k l h => by rw [hn] at h; cases h) nofun,
      .cons hshows hdraws .nil⟩
  | case4 f hl hc g rest found g' rest' hrun c =>
    rename_i ih
    have hb : b.find? name = none := (h.shows.find? name).symm.trans hl
    cases h with
    | cons hshows hdraws hrest =>
    cases id hrest with
    | cons hg hdg hrest' =>
    obtain ⟨hlook, hscoped⟩ := ih hrest
    rw [hrun] at hlook hscoped
    have hnodup : ((f.captures ++ [c]).map (·.name)).Nodup := by
      rw [List.map_append, List.nodup_append]
      refine ⟨hdraws.nodup, List.nodup_singleton _, fun x hx y hy heq => ?_⟩
      obtain ⟨d, hd, rfl⟩ := List.mem_map.1 hx
      exact List.find?_eq_none.1 hc d hd (by simpa [heq] using hy)
    exact ⟨looked_capture hb hlook rfl rfl hnodup,
      .cons ⟨hshows.depth, hshows.find?, hshows.shadowed, hshows.keys, hshows.leveled⟩
        (draws_capture hdraws hlook rfl rfl rfl hnodup) hscoped⟩
  | case5 f hl hc g rest g' rest' hrun ih =>
    have hb : b.find? name = none := (h.shows.find? name).symm.trans hl
    cases h with
    | cons hshows hdraws hrest =>
    cases id hrest with
    | cons hg hdg hrest' =>
    obtain ⟨hlook, hscoped⟩ := ih hrest
    rw [hrun] at hlook hscoped
    have hn : nearest? name _ = none := Option.map_eq_none_iff.1 hlook.nearest.symm
    rw [hlook.missed hn]
    have hn' : nearest? name (b :: _) = none := (nearest?_of_none hb).trans (by rw [hn]; rfl)
    exact ⟨.refl (by rw [hn']; rfl) (fun k l h => by rw [hn'] at h; cases h) nofun,
      .cons hshows hdraws hrest⟩

end Scope

/-! ### All steps -/

section

variable {s : Scope} {n : Nest} {f f' : Frame} {b b' : Blocks} {outer : List Frame}
  {blocks : List Blocks}

theorem Scoped.inner (h : Scoped (f :: outer) (b :: blocks)) (hc : f'.captures = f.captures)
    (hs : f'.Shows b') : Scoped (f' :: outer) (b' :: blocks) := by
  cases h with
  | cons _ hd hrest =>
    obtain ⟨names, depth, shadowed, captures⟩ := f'
    subst hc
    exact .cons hs ⟨hd.index, hd.nodup, hd.decl, hd.supply⟩ hrest

theorem Scoped.step (h : Scoped s.frames n.all) (st : Scope.Step) :
    Scoped (s.step st).frames (n.step st).all := by
  cases st with
  | enter => exact h.inner rfl h.shows.enter
  | declare l =>
    have herror := h.shows.declare_error l
    cases hf : s.frame.declare l with
    | error span =>
      have hs : s.step (.declare l) = s := by
        simp [Scope.step, Scope.declare, hf, Except.map, Except.toOption]
      have hn : n.step (.declare l) = n := by simp [Nest.step, herror.1 ⟨span, hf⟩]
      rwa [hs, hn]
    | ok frame =>
      obtain ⟨b, hb⟩ := Option.ne_none_iff_exists'.1 fun hb => by
        obtain ⟨span, herror⟩ := herror.2 hb
        rw [hf] at herror
        cases herror
      have hs : s.step (.declare l) = { s with frame } := by
        simp [Scope.step, Scope.declare, hf, Except.map, Except.toOption]
      have hn : n.step (.declare l) = { n with blocks := b } := by simp [Nest.step, hb]
      rw [hs, hn]
      refine h.inner ?_ (h.shows.declare hf hb)
      rw [Frame.declare] at hf
      grind
  | leave => exact h.inner rfl h.shows.leave
  | begin => exact .cons (.start []) (.start _ _) h
  | finish =>
    obtain ⟨frame, outer⟩ := s
    obtain ⟨blocks, around⟩ := n
    cases h with
    | cons hs hd hrest =>
    cases hrest with
    | nil => exact .cons hs hd .nil
    | cons hs' hd' hrest' => exact .cons hs' hd' hrest'
  | look name => exact (Scope.looked_captureIn h).2

theorem scoped_run (steps : List Scope.Step) :
    Scoped (steps.foldl Scope.step {}).frames (steps.foldl Nest.step {}).all := by
  have run {s : Scope} {n : Nest} (h : Scoped s.frames n.all) :
      Scoped (steps.foldl Scope.step s).frames (steps.foldl Nest.step n).all := by
    induction steps generalizing s n with
    | nil => exact h
    | cons st steps ih => exact ih (h.step st)
  exact run (.cons (.start []) (.start _ _) .nil)

end

/-- **The flat table of a function's names is a stack of blocks.** -/
theorem Scope.names_stack (steps : List Scope.Step) :
    let s := steps.foldl Scope.step {}
    let b := (steps.foldl Nest.step {}).blocks
    (∀ name, s.find? name = b.find? name) ∧
    (∀ l, ((∃ span, s.declare l = .error span) ↔ ∃ a ∈ b.inner, a.name = l.name) ∧
      ((∃ a ∈ b.inner, a.name = l.name) → s.step (.declare l) = s)) ∧
    (s.leave.1.Perm b.inner ∧ s.leave.1.Pairwise (·.decl ≤ ·.decl) ∧
      ∀ name, s.leave.2.find? name = b.leave.find? name) ∧
    s.drain.1.Perm b.all.flatten := by
  intro s b
  have h : s.frame.Shows b := (scoped_run steps).shows
  have hdeclare (l : Local) : (∃ span, s.declare l = .error span) ↔ ∃ a ∈ b.inner,
      a.name = l.name := by
    have hscope : (∃ span, s.declare l = .error span) ↔
        ∃ span, s.frame.declare l = .error span := by
      rw [Scope.declare]
      cases s.frame.declare l <;> simp [Except.map]
    rw [hscope, h.declare_error]
    simp [Blocks.declare]
  refine ⟨h.find?, fun l => ⟨hdeclare l, fun ha => ?_⟩, ⟨h.removed, pairwise_orderBy _ _,
    h.leave.find?⟩, h.drain⟩
  obtain ⟨span, herror⟩ := (hdeclare l).2 ha
  rw [Scope.step, herror]
  rfl

/-- **Captures follow lexical scope.** -/
theorem Scope.captures_lexical (steps : List Scope.Step) (name : String) :
    let s := steps.foldl Scope.step {}
    let n := steps.foldl Nest.step {}
    Scope.Looked name n.all s.frames (s.lookup name).1 (s.lookup name).2.frames ∧
    ∀ i f, s.frames[i]? = some f →
      (∀ (j : Nat) (c : Capture), f.captures[j]? = some c → c.index = j) ∧
      ∀ c ∈ f.captures, ∃ g, s.frames[i + 1]? = some g ∧ g.Provides c.name c.decl := by
  intro s n
  have h : Scoped s.frames n.all := scoped_run steps
  refine ⟨(Scope.looked_captureIn h).1, ?_⟩
  intro i f hi
  obtain ⟨blocks, hd⟩ := h.draws hi
  refine ⟨hd.index, fun c hc => ?_⟩
  obtain ⟨g, hg, hp⟩ := hd.supply c hc
  rw [List.head?_drop] at hg
  exact ⟨g, hg, hp⟩

end HotScript
