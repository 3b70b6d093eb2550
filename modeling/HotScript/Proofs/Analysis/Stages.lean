import HotScript.Proofs.Analysis.Members
import HotScript.Proofs.Analysis.Opening

/-!
The stages and the resolver keep to orders that allow them.

A stage makes requests for statuses up to its own, and a look at bodies none that is higher than
where members are known. A `Workspace.Ladder` is an order for each such level, which allows a whole
stage when what happens within it keeps to the order of the stage's level. Then every run of the
analysis keeps to it (`Workspace.Ladder.le_getUnit`).
-/

namespace HotScript

namespace UnitStatus

/-- The highest status that a stage makes requests for. -/
def reach : UnitStatus → UnitStatus
  | fullySolved => interfaceSolved
  | s => s

variable {s t : UnitStatus} {next : UnitStatus}

theorem rank_next (h : s.next? = some next) : next.rank = s.rank + 1 := by
  cases s <;> cases h <;> rfl

theorem bases_le_reach (h : s.next? = some next) (hs : s ≠ .empty) :
    inheritanceSolved.rank ≤ next.reach.rank := by
  cases s <;> cases h <;> first | exact absurd rfl hs | decide

theorem not_reaches : ¬ s.reaches t ↔ s.rank < t.rank := by
  rw [reaches, decide_eq_true_iff, Nat.not_le]

end UnitStatus

/-- Whether a unit that may be raised no further has a status. -/
def FileUnit.grants (u : FileUnit) (status : UnitStatus) : Bool :=
  (u.failedAt.filter status.reaches).isNone && u.status.reaches status

/-- Orders, one for each level of requests, that the stages keep to. -/
structure Workspace.Ladder where
  order : UnitStatus → Workspace.Order
  opened : ∀ level w path, (order level).le w (w.openUnit path).2
  stage : ∀ {level w w' id next}, (w.unit id).status.next? = some next →
    (w.unit id).status ≠ .empty →
    next.rank ≤ level.rank → (w.unit id).failedAt.filter next.reaches = none →
    (order next.reach).le (w.happen id (.began next)) w' →
    (order level).le w (w'.endStage id next (w.unit id).errorCount)
  answered : ∀ level w id status,
    (order level).le w (w.happen id (.answered status ((w.unit id).grants status)))

namespace Analyze

variable {O : Workspace.Order} {r : Resolver}

namespace Keeps

/-! ### Bodies -/

theorem noteCoroutine (id : ClassId) (name : String) (f : Signature → Signature) :
    Keeps O (Analyze.modifyClass id fun c => { c with members := c.members.modify name fun m =>
      { m with signature := m.signature.map f } }) := by
  have hkept (c : ClassFacts) (other : String) (m : MemberFacts)
      (hm : (c.members.modify name fun m =>
        { m with signature := m.signature.map f }).find? other = some m) :
      ∃ m0, c.members.find? other = some m0 ∧ m0.Kept m := by
    by_cases hother : other = name
    · subst hother
      rw [Table.find?_modify_self] at hm
      obtain ⟨m0, hm0, rfl⟩ := Option.map_eq_some_iff.1 hm
      exact ⟨m0, hm0, rfl, rfl, rfl, rfl, rfl⟩
    · rw [Table.find?_modify_of_ne _ _ hother] at hm
      exact ⟨m, hm, .refl m⟩
  refine .modifyKept (fun c => ?_) (fun _ => rfl) (fun c => Table.nodup_keys_modify _ _) hkept
  refine ⟨rfl, fun other m hm => ?_, .inr (.inr ⟨rfl, rfl⟩)⟩
  by_cases hother : other = name
  · subst hother
    refine ⟨{ m with signature := m.signature.map f }, ?_, rfl, rfl, rfl, rfl, rfl⟩
    rw [Table.find?_modify_self, hm, Option.map_some]
  · exact ⟨m, by rw [Table.find?_modify_of_ne _ _ hother, hm], .refl m⟩

section

variable (hr : Resolver.Sound O .interfaceSolved r)

include hr

theorem resolveFunction (f : FunctionDecl) (role : Option AccessorRole) :
    Keeps O (resolveFunction r f role) := by
  unfold Analyze.resolveFunction
  extract_lets looked
  have hlooked (s : Signature) : Keeps O (looked s) := by
    refine .bind (.modifyCursor fun _ => rfl) fun _ =>
      .bind (.declareParams hr (fun _ _ _ _ => .reduce hr _) _ _) fun _ =>
      .bind (.block (.statements (fun _ _ => .statement hr _) _)) fun _ =>
      .bind (.checkMissingReturn _ _ _ _) fun _ => .bind .reportUnusedParams fun _ =>
      .bind .cursor fun c => .bind (.modifyCursor fun _ => rfl) fun _ => ?_
    exact .ite (.bind .cursor fun _ => .bind (.noteCoroutine _ _ _) fun _ => .modifyFound _)
      (.modifyFound _)
  cases role with
  | some role => exact .bind (.functionSignature hr _) fun _ => .bind (.pure _) hlooked
  | none =>
    refine .bind .currentRef fun _ => .bind (.classMember hr _ _) fun m => ?_
    cases m.bind (·.signature) with
    | some s => exact .bind (.pure _) hlooked
    | none => exact .bind (.functionSignature hr _) hlooked

theorem resolveVariable (id : ClassId) (d : VariableDecl) : Keeps O (resolveVariable r id d) := by
  refine .bind (.refOf _) fun _ => .bind (.classMember hr _ _) fun m => ?_
  extract_lets type rest
  have hrest (x : Unit) : Keeps O (rest x) := by
    dsimp -zeta only [rest]
    cases d.accessors with
    | none => exact .pure _
    | named getter setter => exact .pure _
    | inline getter setter =>
      dsimp -zeta only
      extract_lets setting
      have hsetting : Keeps O (setting ()) := by
        cases setter with
        | none => exact .pure _
        | some s =>
          have hset := resolveFunction hr s (some (.setter type))
          exact .ite (.bind (.illTyped _ _) fun _ => .inClass hset) (.inClass hset)
      cases getter with
      | none => exact hsetting
      | some g => exact .bind (.inClass (.resolveFunction hr _ _)) fun _ => hsetting
  cases d.initializer with
  | none => exact hrest ()
  | some e =>
    exact .bind (.inClass (.inInitializer (.bind (.asValue (.reduce hr _)) fun _ =>
      .checkStored hr _ _ _ _ _))) hrest

variable (hb : ∀ id, Keeps O (Analyze.resolveInheritance r id))

include hb

theorem resolveBody (id : ClassId) : Keeps O (resolveBody r id) := by
  refine .bind (.resolveInterface hr hb _) fun _ => .bind .unit fun _ => .ite (.pure _)
    (.bind .unit fun _ => .ite (.setStage _ _) (.bind (.setStage _ _) fun _ =>
      .bind .tree fun t => ?_))
  cases t.class? id with
  | none => exact .pure _
  | some decl =>
    refine .bind (.forM fun m _ => ?_) fun _ => .setStage _ _
    cases m with
    | var d => exact .resolveVariable hr id d
    | func f => exact .inClass (.resolveFunction hr _ _)
    | _ => exact .pure _

end

theorem runStage (id : UnitId) {stage : UnitStatus} (hr : Resolver.Sound O stage.reach r)
    (hb : ∀ id, Keeps O (Analyze.resolveInheritance r id)) : Keeps O (runStage r id stage) := by
  refine .bind (.unitAt _) fun _ => .done (.inUnit (.forM fun cls _ => ?_))
  cases stage with
  | empty => exact .pure _
  | parsed => exact .pure _
  | inheritanceSolved => exact hb _
  | interfaceSolved => exact .resolveInterface hr hb _
  | fullySolved => exact .resolveBody hr hb _

end Keeps

end Analyze

/-! ### Raising a unit -/

/-- A resolver that keeps to a ladder, and with whose help bases are found. -/
structure Workspace.Ladder.Carries (L : Ladder) (r : Resolver) : Prop where
  sound : ∀ level, UnitStatus.inheritanceSolved.rank ≤ level.rank → r.Sound (L.order level) level
  bases : ∀ level, UnitStatus.inheritanceSolved.rank ≤ level.rank →
    ∀ id, Analyze.Keeps (L.order level) (Analyze.resolveInheritance r id)

namespace Analyze

variable {r : Resolver} {target level : UnitStatus}

/-- A unit that has the status, or cannot get it, is left alone. Otherwise its next stage is run,
and the unit fails there or goes on. -/
theorem raiseWithin_cases {id : UnitId} {n : Nat} {d d' : Desk} {result : Except LoadFault Unit}
    (hrun : raiseWithin r id target (n + 1) d = some (result, d')) :
    d' = d ∧ result.toBool = (d.work.unit id).grants target ∨
    ∃ next d2, (d.work.unit id).status.next? = some next ∧ (d.work.unit id).status ≠ .empty ∧
      next.rank ≤ target.rank ∧ (d.work.unit id).failedAt.filter next.reaches = none ∧
      runStage r id next { d with work := d.work.happen id (.began next) } = some ((), d2) ∧
      let d3 := { d2 with work := d2.work.endStage id next (d.work.unit id).errorCount }
      if (d.work.unit id).errorCount < (d3.work.unit id).errorCount then
        d' = d3 ∧ result.toBool = false
      else raiseWithin r id target n d3 = some (result, d') := by
  obtain ⟨u, d1, h1, hrun⟩ := bind_some.1 hrun
  cases h1
  revert hrun
  cases hfailed : (d.work.unit id).failedAt.filter target.reaches with
  | some failed =>
    intro hrun
    cases hrun
    exact .inl ⟨rfl, by simp [FileUnit.grants, hfailed, Except.toBool]⟩
  | none =>
    split
    · next hreach =>
      intro hrun
      cases hrun
      exact .inl ⟨rfl, by simp [FileUnit.grants, hfailed, hreach, Except.toBool]⟩
    next hreach =>
    split
    · intro hrun
      cases hrun
      exact .inl ⟨rfl, by simp [FileUnit.grants, hreach, Except.toBool]⟩
    next hempty =>
    cases hnext : (d.work.unit id).status.next? with
    | none =>
      refine absurd ?_ hreach
      revert hnext
      cases (d.work.unit id).status <;> cases target <;> decide
    | some next =>
      intro hrun
      have hle : next.rank ≤ target.rank := by
        rw [UnitStatus.rank_next hnext]
        exact UnitStatus.not_reaches.1 hreach
      have hopen : (d.work.unit id).failedAt.filter next.reaches = none := by
        rw [Option.filter_eq_none_iff] at hfailed ⊢
        intro f hf hn
        refine hfailed f hf (decide_eq_true (Nat.le_trans ?_ hle))
        exact of_decide_eq_true hn
      obtain ⟨_, d1, h1, hrun⟩ := bind_some.1 hrun
      cases h1
      obtain ⟨_, d2, h2, hrun⟩ := bind_some.1 hrun
      obtain ⟨_, d3, h3, hrun⟩ := bind_some.1 hrun
      cases h3
      obtain ⟨after, d3, h3, hrun⟩ := bind_some.1 hrun
      cases h3
      refine .inr ⟨next, d2, rfl, hempty, hle, hopen, h2, ?_⟩
      split at hrun
      · next hmore =>
        cases hrun
        rw [if_pos hmore]
        exact ⟨rfl, rfl⟩
      · next hmore => rwa [if_neg hmore]

theorem Keeps.raiseWithin {L : Workspace.Ladder} (h : L.Carries r) (id : UnitId)
    (ht : target.rank ≤ level.rank) (n : Nat) :
    Keeps (L.order level) (raiseWithin r id target n) := by
  induction n with
  | zero => exact .pure _
  | succ n ih =>
    intro d a d' hrun
    obtain ⟨rfl, -⟩ | ⟨next, d2, hnext, hempty, hle, hopen, h2, hrun⟩ := raiseWithin_cases hrun
    · exact ⟨rfl, (L.order level).refl _⟩
    · have hbases := UnitStatus.bases_le_reach hnext hempty
      obtain ⟨hu, hstage⟩ := Keeps.runStage id (h.sound _ hbases) (h.bases _ hbases) h2
      have hended := L.stage hnext hempty (Nat.le_trans hle ht) hopen hstage
      dsimp only at hrun
      split at hrun
      · obtain ⟨rfl, -⟩ := hrun
        exact ⟨hu, hended⟩
      · obtain ⟨hu', hle'⟩ := ih hrun
        exact ⟨hu'.trans hu, (L.order level).trans hended hle'⟩

end Analyze

/-! ### The ladder of what is never undone -/

namespace Workspace

variable {w : Workspace} {id : UnitId}

theorem later_began {next : UnitStatus} (h : (w.unit id).status.next? = some next) :
    w.Later (w.happen id (.began next)) :=
  .happen fun _ => .of_classes rfl rfl (Nat.le_of_lt (UnitStatus.rank_next h ▸ Nat.lt_succ_self _))
    (fun h => h) (List.prefix_refl _)

section

variable (w : Workspace) (id : UnitId)

theorem later_answered (status : UnitStatus) (granted : Bool) :
    w.Later (w.happen id (.answered status granted)) := .happen fun _ => .refl _

theorem later_endStage (stage : UnitStatus) (before : Nat) :
    w.Later (w.endStage id stage before) := by
  rw [endStage]
  split
  · exact (later_failed _ _ _).trans (.happen fun _ => .refl _)
  · exact .happen fun _ => .refl _

theorem unit_endStage (stage : UnitStatus) (before : Nat) : (w.endStage id stage before).unit id =
      if before < (w.unit id).errorCount then (w.unit id).apply (.failed stage) else w.unit id := by
  rw [endStage, unit_happen_of_apply fun _ => rfl]
  split
  · next hmore =>
    rcases Nat.lt_or_ge id w.units.size with hid | hid
    · exact unit_happen_self hid
    · rw [unit, Array.getElem?_eq_none hid] at hmore
      exact absurd hmore (Nat.not_lt_zero _)
  · rfl

theorem later_spoiled (cls : ClassId) (base : StaticType) :
    w.Later (w.happen id (.spoiled cls base)) :=
  .happen fun _ => (FileUnit.Later.refl _).modifyClass_of_members (fun _ => rfl) fun _ _ _ hlc =>
    hlc.trans ⟨rfl, fun _ m hm => ⟨m, hm, .refl m⟩, .inr (.inl rfl)⟩

theorem later_poison (cls : ClassId) (d : Diagnostic) : w.Later (w.poison id cls d) := by
  rw [poison]
  split
  · exact (later_spoiled _ _ _ _).trans (later_reported _ _ _)
  · exact ((later_spoiled _ _ _ _).trans (later_reported _ _ _)).trans (later_failed _ _ _)

end

theorem later_addDependency {path : String} (k : UnitId) (h : w.unitOf.find? path = some id) :
    w.Later (w.modifyUnit k fun u => u.addDependency (w.unit id).path id) := by
  refine .modifyUnit (fun _ => ?_) fun hlinked p other hfind => ?_
  · rw [FileUnit.addDependency]
    split
    · exact .refl _
    · exact .of_classes rfl rfl (Nat.le_refl _) (fun h => h) (List.prefix_refl _)
  · have hpath := (hlinked.placed path id h).2
    rw [FileUnit.addDependency] at hfind
    split at hfind
    · exact hlinked.depended _ p other hfind
    · by_cases hp : p = (w.unit id).path
      · subst hp
        obtain rfl : id = other := by simpa using hfind
        rwa [hpath]
      · rw [Table.find?_insert_of_ne _ _ hp] at hfind
        exact hlinked.depended _ p other hfind

variable {cls : ClassId} {w0 : Workspace}

theorem Later.ofUnresolved (hl : w0.Later w) (h : (w0.unit id).inheritanceOf cls = .unresolved)
    {f : ClassFacts → ClassFacts} (hr : ∀ c, (f c).ref = c.ref)
    (hm : ∀ c, (f c).members = c.members) :
    w0.Later (w.modifyUnit id fun u => u.modifyClass cls f) := by
  obtain ⟨c0, hc0, hopen⟩ : ∃ c0, (w0.unit id).classes[cls]? = some c0 ∧
    c0.inheritance = .unresolved := by
    rw [FileUnit.inheritanceOf, FileUnit.classFacts?] at h
    cases hc : (w0.unit id).classes[cls]? with
    | none => simp [hc] at h
    | some c0 => exact ⟨c0, rfl, by simpa [hc] using h⟩
  have hlt : id < w0.units.size := by
    refine Nat.lt_of_not_le fun hle => ?_
    rw [unit, Array.getElem?_eq_none hle] at hc0
    cases hc0
  refine hl.andModify hlt ?_ fun hlinked => hlinked.depended _
  refine (hl.units _ hlt).2.modifyClass_of_members hm fun c c' hc hlc => ?_
  obtain rfl : c0 = c := by simpa [hc0] using hc
  exact ⟨(hr c').trans hlc.ref, fun name m hfind => hm c' ▸ hlc.members name m hfind, .inl hopen⟩

theorem later_inheriting (h : (w.unit id).inheritanceOf cls = .unresolved) :
    w.Later (w.happen id (.inheriting cls)) :=
  .andHappen (.refl w) (Later.ofUnresolved
    (f := fun c => { c with inheritance := .resolving, base := .resolving }) (.refl w) h
    (fun _ => rfl) fun _ => rfl)

theorem Later.inherits (hl : w0.Later w) (h : (w0.unit id).inheritanceOf cls = .unresolved)
    (base : StaticType) (native : Option String) :
    w0.Later (w.happen id (.inherits cls base native)) :=
  hl.andHappen (Later.ofUnresolved (f := fun c => { c with inheritance := .resolved, base, native })
    hl h (fun _ => rfl) fun _ => rfl)

/-- What no step undoes, as an order. -/
def Order.lasting : Order where
  le := Later
  refl := .refl
  trans := .trans
  later h := h
  heap _ _ _ := .heap _
  quiet _ h _ := .quiet fun _ => h
  depends k h _ := later_addDependency k h
  reported w id _ _ := later_reported w id _

theorem Order.lasting_solvesBases : Order.lasting.SolvesBases where
  begun := later_inheriting
  settled base native h hle := Later.inherits ((later_inheriting h).trans hle) h base native
  spoiled := later_spoiled
  complained := later_reported
  poisoned := later_poison

def Ladder.lasting : Ladder where
  order _ := .lasting
  opened _ := later_openUnit
  stage hnext _ _ _ hle := ((later_began hnext).trans hle).trans (later_endStage _ _ _ _)
  answered _ w id status := later_answered w id status _

end Workspace

/-! ### Answers to requests for a status -/

namespace Analyze

variable {r : Resolver} {id : UnitId} {target next status : UnitStatus} {d d' : Desk}

theorem not_grants_endStage {w : Workspace} {before : Nat}
    (hle : next.rank ≤ target.rank)
    (h : before < ((w.endStage id next before).unit id).errorCount) :
    ((w.endStage id next before).unit id).grants target = false := by
  rw [Workspace.unit_endStage] at h ⊢
  split at h
  · next hmore => simp [if_pos hmore, FileUnit.grants, FileUnit.apply, UnitStatus.reaches, hle]
  · next hmore => exact absurd h hmore

variable {result : Except LoadFault Unit}

theorem grants_of_raiseWithin (h : Workspace.Ladder.lasting.Carries r) {n : Nat}
    (hn : target.rank ≤ (d.work.unit id).status.rank + n)
    (hrun : raiseWithin r id target (n + 1) d = some (result, d')) :
    result.toBool = (d'.work.unit id).grants target := by
  induction n generalizing d with
  | zero =>
    obtain ⟨rfl, hgrants⟩ | ⟨next, d2, hnext, -, hle, -⟩ := raiseWithin_cases hrun
    · exact hgrants
    · rw [UnitStatus.rank_next hnext] at hle
      exact absurd (Nat.le_trans hle hn) (Nat.not_succ_le_self _)
  | succ n ih =>
    obtain ⟨rfl, hgrants⟩ | ⟨next, d2, hnext, hempty, hle, -, h2, hrun⟩ := raiseWithin_cases hrun
    · exact hgrants
    · dsimp only at hrun
      split at hrun
      · next hmore =>
        obtain ⟨rfl, hresult⟩ := hrun
        rw [hresult, not_grants_endStage hle hmore]
      · refine ih ?_ hrun
        have hid : id < d.work.units.size := by
          refine Nat.lt_of_not_le fun hge => hempty ?_
          rw [Workspace.unit, Array.getElem?_eq_none hge]
          rfl
        have hbases := UnitStatus.bases_le_reach hnext hempty
        obtain ⟨-, hstage⟩ := Keeps.runStage id (h.sound _ hbases) (h.bases _ hbases) h2
        have hlater := hstage.trans
          (Workspace.later_endStage d2.work id next (d.work.unit id).errorCount)
        have hstatus :=
          (hlater.units id (Nat.lt_of_lt_of_eq hid Workspace.size_happen.symm)).2.status
        rw [Workspace.unit_happen_self hid] at hstatus
        calc target.rank ≤ (d.work.unit id).status.rank + (n + 1) := hn
          _ = next.rank + n := by rw [UnitStatus.rank_next hnext]; omega
          _ ≤ _ := Nat.add_le_add_right hstatus n

theorem raise_some : raise r id target d = some (result, d') ↔
      ∃ d1, raiseWithin r id target 5 d = some (result, d1) ∧
        d' = { d1 with work := d1.work.happen id (.answered target result.toBool) } := by
  constructor
  · intro h
    obtain ⟨result, d1, h1, h⟩ := bind_some.1 h
    cases h
    exact ⟨d1, h1, rfl⟩
  · rintro ⟨d1, h1, rfl⟩
    exact bind_some.2 ⟨result, d1, h1, rfl⟩

theorem onWork_some {α : Type} {f : Workspace → α × Workspace} {a : α} :
    onWork f d = some (a, d') ↔ (f d.work).1 = a ∧ { d with work := (f d.work).2 } = d' := by
  show some ((f d.work).1, { d with work := (f d.work).2 }) = some (a, d') ↔ _
  simp

section

variable (hl : Workspace.Ladder.lasting.Carries r)

include hl

theorem grants_of_raise (hrun : raise r id target d = some (result, d')) :
    ∃ d1, raiseWithin r id target 5 d = some (result, d1) ∧
      d' = { d1 with
        work := d1.work.happen id (.answered target ((d1.work.unit id).grants target)) } ∧
      result.toBool = (d1.work.unit id).grants target := by
  obtain ⟨d1, h1, rfl⟩ := raise_some.1 hrun
  have hn : target.rank ≤ (d.work.unit id).status.rank + 4 :=
    Nat.le_trans (by cases target <;> decide) (Nat.le_add_left _ _)
  have hgrants := grants_of_raiseWithin hl hn h1
  exact ⟨d1, h1, by rw [hgrants], hgrants⟩

theorem find?_of_getUnit {path : String} (h : getUnit r path status d = some (.ok id, d')) :
    d'.work.unitOf.find? path = some id ∧ status.rank ≤ (d'.work.unit id).status.rank := by
  obtain ⟨answer, d1, h1, h⟩ := bind_some.1 h
  obtain ⟨hopen, rfl⟩ := onWork_some.1 h1
  cases answer with
  | error fault => cases h
  | ok other =>
    obtain ⟨raised, d2, h2, h⟩ := bind_some.1 h
    obtain ⟨d1, h1, rfl, hgrants⟩ := grants_of_raise hl h2
    cases raised with
    | error fault => cases h
    | ok _ =>
      have hlater : Workspace.Later _ _ :=
        (Keeps.raiseWithin hl other (Nat.le_refl status.rank) 5 h1).2
      have hfind := (hlater.trans (Workspace.later_answered _ other status
        ((d1.work.unit other).grants status))).unitOf path other (Workspace.find?_of_openUnit hopen)
      cases h
      have hstatus : (d1.work.unit other).status.reaches status := by
        have hgrants : (d1.work.unit other).grants status = true := hgrants.symm
        exact (Bool.and_eq_true_iff.1 hgrants).2
      refine ⟨hfind, ?_⟩
      rw [Workspace.unit_happen_of_apply fun _ => rfl]
      exact of_decide_eq_true hstatus

variable {L : Workspace.Ladder} (h : L.Carries r) {level status : UnitStatus}

include h

namespace Keeps

theorem raise (id : UnitId) (ht : target.rank ≤ level.rank) :
    Keeps (L.order level) (raise r id target) := by
  intro d result d' hrun
  obtain ⟨d1, h1, rfl, -⟩ := grants_of_raise hl hrun
  obtain ⟨hu, hle⟩ := raiseWithin h id ht 5 h1
  exact ⟨hu, (L.order level).trans hle (L.answered level _ _ _)⟩

theorem getUnit (path : String) (hs : status.rank ≤ level.rank) :
    Keeps (L.order level) (getUnit r path status) := by
  have hopen : Keeps (L.order level) (onWork fun w => w.openUnit path) := by
    intro d a d' hrun
    cases hrun
    exact ⟨rfl, L.opened level _ _⟩
  refine .bind hopen fun answer => ?_
  cases answer with
  | error fault => exact .pure _
  | ok id => exact .done (.raise hl h id hs)

/-! ### The resolver -/

theorem answer (hlevel : UnitStatus.inheritanceSolved.rank ≤ level.rank) {d : Demand}
    (hd : d.level.rank ≤ level.rank) : Keeps (L.order level) (answer r d) := by
  have hsound := h.sound level hlevel
  have hmembers (hd : UnitStatus.interfaceSolved.rank ≤ level.rank) :
      Resolver.Sound (L.order level) .interfaceSolved r :=
    ⟨by decide, fun d hd' => hsound.keeps d (Nat.le_trans hd' hd), hsound.finds⟩
  cases d with
  | inheritance id => exact h.bases level hlevel id
  | interface id => exact .resolveInterface (hmembers hd) (h.bases level hlevel) id
  | member id index => exact .resolveMember (hmembers hd) (h.bases level hlevel) id index
  | unit path status => exact .getUnit hl h path hd

end Keeps

end

end Analyze

namespace Workspace.Ladder

open Analyze

/-- With resolvers that keep to a ladder, bases are found keeping to it. -/
def FindsBases (L : Ladder) : Prop :=
  ∀ ⦃level r⦄, Resolver.Sound (L.order level) level r → ∀ id, Keeps (L.order level)
    (resolveInheritance r id)

theorem lasting_findsBases :
    lasting.FindsBases := fun _ _ hr => .resolveInheritance Order.lasting_solvesBases hr

theorem carries_zero {L : Ladder} (hL : L.FindsBases) : L.Carries (resolver 0) := by
  have hsound (level : UnitStatus) (hlevel : UnitStatus.inheritanceSolved.rank ≤ level.rank) :
      Resolver.Sound (L.order level) level (resolver 0) :=
    ⟨hlevel, fun _ _ => .failure, fun _ _ _ _ _ h => by cases h⟩
  exact ⟨hsound, fun level hlevel => hL (hsound level hlevel)⟩

theorem Carries.succ {L : Ladder} (hL : L.FindsBases) {n : Nat} (hl : lasting.Carries (resolver n))
    (h : L.Carries (resolver n)) : L.Carries (resolver (n + 1)) := by
  have hsound (level : UnitStatus) (hlevel : UnitStatus.inheritanceSolved.rank ≤ level.rank) :
      Resolver.Sound (L.order level) level (resolver (n + 1)) :=
    ⟨hlevel, fun _ hd => .answer hl h hlevel hd, fun _ _ _ _ _ hrun => find?_of_getUnit hl hrun⟩
  exact ⟨hsound, fun level hlevel => hL (hsound level hlevel)⟩

theorem carries_lasting (n : Nat) : lasting.Carries (resolver n) := by
  induction n with
  | zero => exact carries_zero lasting_findsBases
  | succ n ih => exact .succ lasting_findsBases ih ih

theorem carries_resolver {L : Ladder} (hL : L.FindsBases) (n : Nat) : L.Carries (resolver n) := by
  induction n with
  | zero => exact carries_zero hL
  | succ n ih => exact .succ hL (carries_lasting n) ih

variable {L : Ladder} (hL : L.FindsBases) {w w' : Workspace}

include hL

variable {status : UnitStatus}

theorem le_getUnit {path : String} {answer : Except LoadFault UnitId}
    (h : w.getUnit path status = some (answer, w')) : (L.order .fullySolved).le w w' := by
  obtain ⟨⟨a, d⟩, hrun, h⟩ := Option.bind_eq_some_iff.1 h
  cases h
  exact (Keeps.getUnit (carries_lasting _) (carries_resolver hL _) path
    (by cases status <;> decide) hrun).2

theorem le_raiseUnit {id : UnitId} {answer : Except LoadFault Unit}
    (h : w.raiseUnit id status = some (answer, w')) : (L.order .fullySolved).le w w' := by
  obtain ⟨⟨a, d⟩, hrun, h⟩ := Option.bind_eq_some_iff.1 h
  cases h
  exact (Keeps.raise (carries_lasting _) (carries_resolver hL _) id
    (by cases status <;> decide) hrun).2

end Workspace.Ladder

namespace Workspace

variable {w w' : Workspace} {status : UnitStatus} {path : String} {id : UnitId}

theorem later_getUnit {answer : Except LoadFault UnitId}
    (h : w.getUnit path status = some (answer, w')) : w.Later w' :=
  Ladder.le_getUnit Ladder.lasting_findsBases h

theorem later_raiseUnit {answer : Except LoadFault Unit}
    (h : w.raiseUnit id status = some (answer, w')) : w.Later w' :=
  Ladder.le_raiseUnit Ladder.lasting_findsBases h

theorem find?_of_getUnit (h : w.getUnit path status = some (.ok id, w')) :
    w'.unitOf.find? path = some id := by
  obtain ⟨⟨a, d⟩, hrun, h⟩ := Option.bind_eq_some_iff.1 h
  cases h
  exact (Analyze.find?_of_getUnit (Ladder.carries_lasting _) hrun).1

end Workspace

end HotScript
