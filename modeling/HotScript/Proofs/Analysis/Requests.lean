import HotScript.Proofs.Analysis.Keeps

/-!
Requests and the questions put in terms of them keep to an order.

Bases are found with requests for bases only; members are asked for one level higher.
-/

namespace HotScript.Analyze

variable {O : Workspace.Order} {level status : UnitStatus} {r : Resolver}

namespace Answers

theorem loadUnit (path : String) (status : UnitStatus) :
    Answers (OnError (·.isCycle = false)) (loadUnit r path status) := by
  refine .bind fun here => .ite (.bind fun _ => .pure nofun) (.bind fun answer => ?_)
  cases answer with
  | ok id => exact .bind fun _ => .bind fun _ => .pure nofun
  | error fault => exact .error rfl

theorem ensureInterface (cls : ClassRef) :
    Answers (OnError (·.isCycle = false)) (ensureInterface r cls) := by
  refine .bind fun here => .ite (.bind fun _ => .pure nofun)
    (.bind_of (.loadUnit _ _) fun answer h => ?_)
  cases answer with
  | error fault => exact .error (h fault rfl)
  | ok id => exact .bind fun _ => .ite (.bind fun _ => .pure nofun) (.pure nofun)

theorem nestedClass (cls : ClassRef) (name : String) :
    Answers (OnError (·.isCycle = false)) (nestedClass r cls name) := by
  unfold Analyze.nestedClass
  generalize patience = n
  induction n generalizing cls with
  | zero => exact .failure
  | succ n ih =>
    refine .bind fun t => ?_
    split
    · refine .bind fun id => ?_
      cases id with
      | none => exact .pure nofun
      | some id => exact .bind fun _ => .pure nofun
    · refine .bind fun base => ?_
      cases base with
      | script base => exact ih base
      | resolving => exact .error rfl
      | native | invalid | unknown => exact .pure nofun

end Answers

namespace Keeps

section

variable (hr : Resolver.Sound O level r)

include hr

variable (path : String) (cls : ClassRef) (name : String) (n : Nat) {h : Hierarchy Analyze}

theorem unitOf : Keeps O (unitOf r path) := by
  refine .bind .unit fun here => .ite (.done .cursor) ?_
  split
  · exact .pure _
  · exact .done (hr.keeps _ (Nat.le_of_succ_le hr.bases))

theorem loadUnit (hs : UnitStatus.inheritanceSolved.rank ≤ status.rank)
    (hl : status.rank ≤ level.rank) : Keeps O (loadUnit r path status) := by
  refine .bind .unit fun here => .ite (.done .cursor) ?_
  intro d a d' hrun
  obtain ⟨answer, d1, h1, hrun⟩ := bind_some.1 hrun
  obtain ⟨hu, hle⟩ := hr.keeps (.unit path status) hl h1
  cases answer with
  | error fault =>
    cases hrun
    exact ⟨hu, hle⟩
  | ok id =>
    cases hrun
    obtain ⟨hplace, hstatus⟩ := hr.finds h1
    exact ⟨hu, O.trans hle (O.depends _ hplace (Nat.le_trans hs hstatus))⟩

theorem ensureInheritance : Keeps O (ensureInheritance r cls) := by
  refine .bind .unit fun here => .ite (hr.keeps _ hr.bases) (.bind (.unitOf hr _) fun id => ?_)
  cases id with
  | none => exact .pure _
  | some id =>
    refine .bind (.unitAt _) fun u => .ite ?_ (.pure _)
    exact .done (.inUnit (hr.keeps _ hr.bases))

attribute [grind .] unitOf ensureInheritance

@[grind .]
theorem baseOf : Keeps O (baseOf r cls) := by grind [Analyze.baseOf]

theorem rootFrom (visited : List ClassRef) : Keeps O (rootFrom r n visited cls) := by
  induction n generalizing visited cls with
  | zero => exact .failure
  | succ n ih =>
    unfold Analyze.rootFrom
    grind

theorem nativeRoot : Keeps O (nativeRoot r cls) := by
  refine .bind (.unitOf hr _) fun id => ?_
  cases id with
  | none => exact .rootFrom hr _ _ _
  | some id =>
    refine .bind (.unitAt _) fun _ => .bind (.pure _) fun cached => ?_
    cases cached with
    | none => exact .rootFrom hr _ _ _
    | some name => exact .pure _

theorem nativeOf (t : StaticType) : Keeps O (nativeOf r t) := by
  grind [nativeOf, nativeRoot]

theorem chainFrom (gathered : List ClassRef) : Keeps O (chainFrom r n gathered cls) := by
  induction n generalizing gathered cls with
  | zero => exact .failure
  | succ n ih =>
    unfold chainFrom
    grind

theorem scriptChain : Keeps O (scriptChain r cls) := .chainFrom hr _ _ _

@[grind .]
theorem treeOf : Keeps O (treeOf r cls) := by grind [Analyze.treeOf]

theorem declares : Keeps O (declares r cls name) :=
  .done (.treeOf hr _)

theorem nestedFrom : Keeps O (nestedFrom r name n cls) := by
  induction n generalizing cls with
  | zero => exact .failure
  | succ n ih =>
    unfold nestedFrom
    grind

theorem nestedClass : Keeps O (nestedClass r cls name) :=
  .nestedFrom hr _ _ _

omit hr in
theorem rootDescends (hp : ∀ cls, Keeps O (h.parent cls))
    (target : String) (n : Nat) (cls : ClassRef) : Keeps O (h.rootDescends target n cls) := by
  induction n generalizing cls with
  | zero => exact .pure _
  | succ n ih =>
    unfold Hierarchy.rootDescends
    grind

omit hr in
theorem chainHas (hp : ∀ cls, Keeps O (h.parent cls))
    (target : ClassRef) (n : Nat) (cls : ClassRef) : Keeps O (h.chainHas target n cls) := by
  induction n generalizing cls with
  | zero => grind [Hierarchy.chainHas]
  | succ n ih =>
    unfold Hierarchy.chainHas
    grind

theorem scriptParent (cls : ClassRef) : Keeps O (do
    match ← Analyze.baseOf r cls with
    | .script base => return ScriptParent.script base
    | .native name => return .native name
    | .resolving => return .resolving
    | .invalid | .unknown => return .unknown) := by
  refine .bind (.baseOf hr _) fun base => ?_
  cases base with
  | native | script | resolving | invalid | unknown => exact .pure _

theorem compatible (target source : StaticType) : Keeps O (compatible r target source) := by
  intro d a d' hrun
  obtain ⟨h, d1, h1, hrun⟩ := bind_some.1 hrun
  obtain ⟨reg, d2, h2, h1⟩ := bind_some.1 h1
  cases h2
  cases h1
  refine ite (.pure _) (.ite (.pure _) (.ite (.pure _) (.ite (.pure _) ?_))) hrun
  unfold Hierarchy.compatibleShape
  split
  case h_7 => exact .rootDescends (scriptParent hr) _ _ _
  case h_9 => exact .chainHas (scriptParent hr) _ _ _
  all_goals exact .pure _

end

section

variable (hr : Resolver.Sound O .interfaceSolved r)

include hr

variable (cls : ClassRef) (name : String)

theorem ensureInterface : Keeps O (ensureInterface r cls) := by
  refine .bind .unit fun here => .ite (.done (hr.keeps _ (Nat.le_refl _)))
    (.bind (.loadUnit hr _ (by decide) (Nat.le_refl _)) fun answer => ?_)
  cases answer with
  | error fault => exact .pure _
  | ok id =>
    refine .bind (.unitAt _) fun u => ?_
    split
    · exact .done (.inUnit (hr.keeps _ (Nat.le_refl _)))
    · exact .pure _

@[grind ←]
theorem classMember : Keeps O (classMember r cls name) := by
  refine .bind (.unitOf hr _) fun id => ?_
  cases id with
  | none => exact .pure _
  | some id =>
    refine .bind (.unitAt _) fun u => ?_
    split
    · exact .pure _
    · split
      · exact .pure _
      · refine .bind .unit fun _ => .ite (hr.keeps _ (Nat.le_refl _)) ?_
        exact .done (.inUnit (hr.keeps _ (Nat.le_refl _)))

theorem memberFrom (n : Nat) (visited : List ClassRef) :
    Keeps O (memberFrom r name n visited cls) := by
  induction n generalizing visited cls with
  | zero => exact .failure
  | succ n ih =>
    unfold memberFrom
    grind

theorem lookupMember : Keeps O (lookupMember r cls name) :=
  .memberFrom hr _ _ _ _

attribute [grind .] nativeRoot nativeOf scriptChain declares nestedClass compatible
attribute [grind ←] ensureInterface lookupMember

end

end Keeps

end HotScript.Analyze
