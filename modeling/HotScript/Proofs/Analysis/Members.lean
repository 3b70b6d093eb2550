import HotScript.Proofs.Analysis.Bodies

/-!
Finding out the base and the members of a class keeps to an order.

What happens while the base of a class is found out lies between the mark and the base that is
noted. An order that allows this as a whole is `Workspace.Order.SolvesBases`. `Analyze.Leads`
follows a run from one workspace in order to compare it with another.
-/

namespace HotScript

/-- An order that finding out a base keeps to. -/
structure Workspace.Order.SolvesBases (O : Workspace.Order) : Prop where
  begun : ∀ {w id cls}, (w.unit id).inheritanceOf cls = .unresolved →
    O.le w (w.happen id (.inheriting cls))
  settled : ∀ {w0 w id cls} (base : StaticType) (native : Option String),
    (w0.unit id).inheritanceOf cls = .unresolved → O.le (w0.happen id (.inheriting cls)) w →
    O.le w0 (w.happen id (.inherits cls base native))
  spoiled : ∀ w id cls base, O.le w (w.happen id (.spoiled cls base))
  complained : ∀ w id d, O.le w (w.happen id (.reported d))
  poisoned : ∀ w id cls d, O.le w (w.poison id cls d)

namespace Analyze

variable {O : Workspace.Order} {k : UnitId} {α β : Type} {m : Analyze α}

/-- In the unit `k`, from workspaces above `w`, the step leads to ones above `w₀`. -/
def Leads (O : Workspace.Order) (k : UnitId) (w w0 : Workspace) (m : Analyze α) : Prop :=
  ∀ ⦃d a d'⦄, d.cursor.unit = k → O.le w d.work → m d = some (a, d') → d'.cursor.unit = k ∧
    O.le w0 d'.work

theorem Keeps.leads {w w0 : Workspace} (h : Keeps O m) (hle : O.le w0 w) : Leads O k w w0 m := by
  intro d a d' hk hd hm
  obtain ⟨hu, hd'⟩ := h hm
  exact ⟨hu.trans hk, O.trans hle (O.trans hd hd')⟩

namespace Leads

variable {w w0 : Workspace}

theorem bind_of {Q : α → Prop} {f : α → Analyze β} (hm : Keeps O m) (hQ : Answers Q m)
    (hf : ∀ a, Q a → Leads O k w w0 (f a)) : Leads O k w w0 (m >>= f) := by
  intro d b d'' hk hd h
  obtain ⟨a, d', h1, h2⟩ := bind_some.1 h
  obtain ⟨hu, hle⟩ := hm h1
  exact hf a (hQ h1) (hu.trans hk) (O.trans hd hle) h2

theorem bind {f : α → Analyze β} (hm : Keeps O m) (hf : ∀ a, Leads O k w w0 (f a)) :
    Leads O k w w0 (m >>= f) :=
  .bind_of hm (fun _ _ _ _ => trivial) fun a _ => hf a

theorem ite {c : Prop} [Decidable c] {m' : Analyze α} (hm : Leads O k w w0 m)
    (hm' : Leads O k w w0 m') : Leads O k w w0 (if c then m else m') := by
  split
  · exact hm
  · exact hm'

end Leads

namespace Keeps

variable {level : UnitStatus} {r : Resolver} {id cls : ClassId} {facts : MemberFacts} {d d' : Desk}
  {index : Nat}

/-! ### Bases -/

section

variable (hO : O.SolvesBases) (hr : Resolver.Sound O level r)

include hO in
theorem complain (fault : ResolutionFault) (span : Span) :
    Keeps O (Analyze.unresolved fault span) :=
  .bind .cursor fun _ => .modifyWork fun _ => hO.complained _ _ _

include hO in
theorem poison (id : ClassId) : Keeps O (poison id) :=
  .bind .cursor fun _ => .modifyWork fun _ => hO.spoiled _ _ _ _

include hr

@[grind .]
theorem descendClass (missing : ResolutionFault × Span) (names : List Ident) (cls : ClassRef) :
    Keeps O (descendClass r missing names cls) := by
  induction names generalizing cls with
  | nil => exact .pure _
  | cons ident rest ih =>
    unfold Analyze.descendClass
    grind

@[grind .]
theorem baseFile (path : String) : Keeps O (baseFile r path) := by
  refine .bind (.loadUnit hr _ (Nat.le_refl _) hr.bases) fun answer => ?_
  grind

@[grind .]
theorem extendsType (id : ClassId) (clause : ExtendsClause) :
    Keeps O (extendsType r id clause) := by
  refine .bind (.className _) fun name => ?_
  extract_lets missing finish
  have hfinish (start : Option ClassRef) (rest : List Ident) : Keeps O (finish start rest) := by
    grind
  clear_value finish
  split
  · grind
  · exact .pure _
  · grind

@[grind .]
theorem chainEnd (own : ClassRef) (n : Nat) (passed : List ClassRef) (cls : ClassRef) :
    Keeps O (chainEnd r own n passed cls) := by
  induction n generalizing passed cls with
  | zero => exact .failure
  | succ n ih =>
    unfold Analyze.chainEnd
    grind

include hO

theorem reportCycle (id : ClassId) (classes : List ClassRef) (span : Span) :
    Keeps O (reportCycle r id classes span) := by
  refine .bind (.className _) fun name => .bind (.complain hO _ _) fun _ =>
    .done (.forIn (fun cls _ => .bind .unit fun here => .ite ?_ ?_) _ _)
  · exact .done (.poison hO _)
  · refine .bind (.unitOf hr _) fun other => ?_
    cases other with
    | none => exact .pure _
    | some other =>
      exact .bind (.unitAt _) fun u =>
        .ite (.done (.modifyWork fun _ => hO.poisoned _ _ _ _)) (.pure _)

omit hO in
@[grind .]
theorem wantedBase (id : ClassId) (decl : ClassDecl) : Keeps O (wantedBase r id decl) := by
  grind [wantedBase]

theorem takeBase {w0 : Workspace} (hid : (w0.unit k).inheritanceOf id = .unresolved) (span : Span)
    (base : Except (ResolutionFault × Span) StaticType) :
    Leads O k (w0.happen k (.inheriting id)) w0 (takeBase r id span base) := by
  have hbegun := hO.begun hid
  have hsettled (base : StaticType) (native : Option String) :
      Leads O k (w0.happen k (.inheriting id)) w0 (happen (.inherits id base native)) := by
    intro d a d' hk hle hm
    cases hm
    exact ⟨hk, hk ▸ hO.settled base native hid hle⟩
  have hsettle (base : StaticType) :
      Leads O k (w0.happen k (.inheriting id)) w0 (settleBase r id base) :=
    .bind (.nativeOf hr _) fun _ => hsettled _ _
  cases base with
  | error fault =>
    exact .bind (.complain hO _ _) fun _ => .ite ((poison hO _).leads hbegun) (hsettled _ _)
  | ok base =>
    unfold Analyze.takeBase
    dsimp only
    cases base.class? with
    | none => exact hsettle base
    | some cls =>
      refine .bind (.refOf _) fun _ => .bind (.refOf _) fun _ =>
        .bind (.chainEnd hr _ _ _ _) fun answer => ?_
      cases answer with
      | cycle classes => exact (reportCycle hO hr _ _ _).leads hbegun
      | invalid cls => exact .bind (.complain hO _ _) fun _ => hsettle base
      | clear => exact hsettle base

theorem resolveInheritance (id : ClassId) : Keeps O (resolveInheritance r id) := by
  intro d0 a d' h
  obtain ⟨here, d, hd, h⟩ := bind_some.1 h
  cases hd
  split at h
  · cases h
    exact ⟨rfl, O.refl _⟩
  next hopen =>
  have hid : (d0.work.unit d0.cursor.unit).inheritanceOf id = .unresolved := by
    simpa using hopen
  obtain ⟨t, d, hd, h⟩ := bind_some.1 h
  cases hd
  revert h
  cases ((d0.work.unit d0.cursor.unit).tree.getD default).class? id with
  | none => exact fun h => pure _ h
  | some decl =>
    intro h
    obtain ⟨_, d1, hd, h⟩ := bind_some.1 h
    cases hd
    obtain ⟨base, d2, h2, h⟩ := bind_some.1 h
    obtain ⟨hu, hle⟩ := wantedBase hr id decl h2
    exact takeBase hO hr hid _ base hu hle h

end

section

variable (hr : Resolver.Sound O .interfaceSolved r)

include hr

@[grind ←]
theorem functionSignature (f : FunctionDecl) : Keeps O (functionSignature r f) := by
  grind [functionSignature]

@[grind ←]
theorem memberVariableType (d : VariableDecl) : Keeps O (memberVariableType r d) := by
  grind [memberVariableType]

@[grind ←]
theorem memberConstant (d : ConstantDecl) : Keeps O (memberConstant r d) := by
  grind [memberConstant]

@[grind ←]
theorem entryValue (name : Ident) (e : Expr) : Keeps O (entryValue r name e) := by
  grind [entryValue]

@[grind ←]
theorem enumEntries (ds : List EnumValueDecl) (next : Int64) : Keeps O (enumEntries r ds next) := by
  induction ds generalizing next with
  | nil => exact .pure _
  | cons d ds ih =>
    unfold Analyze.enumEntries
    grind

@[grind ←]
theorem looseEntry (id : ClassId) (d : EnumValueDecl) : Keeps O (looseEntry r id d) := by
  unfold Analyze.looseEntry
  extract_lets rest
  have hrest (given : Option Int64) : Keeps O (rest given) := by
    dsimp only [rest]
    split
    · exact .pure _
    · exact .pure _
    · exact .done (hr.keeps _ (Nat.le_refl _))
  cases d.value with
  | none => exact .bind (.pure _) hrest
  | some e => exact .bind (.entryValue hr _ _) hrest

@[grind ←]
theorem memberFacts (id : ClassId) (m : Member) (index : Nat) :
    Keeps O (memberFacts r id m index) := by
  cases m with
  | enum e =>
    exact .bind (.enumEntries hr _ _) fun _ => .bind .currentRef fun _ => .done (.enumDict _)
  | _ => grind [Analyze.memberFacts]

end

/-! ### Members -/

theorem place_of_memberFacts {m : Member}
    (h : Analyze.memberFacts r id m index d = some (facts, d')) :
    facts.name = m.name?.getD "" ∧ facts.index = index := by
  cases m with
  | group d =>
    cases h
    exact ⟨rfl, rfl⟩
  | enum e =>
    obtain ⟨_, _, -, h⟩ := bind_some.1 h
    cases h
    exact ⟨rfl, rfl⟩
  | _ =>
    obtain ⟨_, _, -, h⟩ := bind_some.1 h
    cases h
    exact ⟨rfl, rfl⟩

theorem exists_of_inClass {a : α}
    (h : Analyze.inClass cls m d = some (a, d')) :
    ∃ d1 d2, m d1 = some (a, d2) ∧ d2.work = d'.work := by
  obtain ⟨_, _, -, h⟩ := bind_some.1 h
  obtain ⟨_, d1, -, h⟩ := bind_some.1 h
  obtain ⟨_, d2, hm, h⟩ := bind_some.1 h
  cases h
  exact ⟨d1, d2, hm, rfl⟩

theorem numbers_enumEntries {ds : List EnumValueDecl} {next : Int64} {values : EnumValues}
    (h : Analyze.enumEntries r ds next d = some (values, d')) :
    EnumValueDecl.Numbers ds next values := by
  induction ds generalizing next values d d' with
  | nil =>
    cases h
    rfl
  | cons e ds ih =>
    rw [Analyze.enumEntries] at h
    cases hv : e.value
    all_goals
      rw [hv] at h
      obtain ⟨given, _, hgiven, h⟩ := bind_some.1 h
      obtain ⟨rest, _, hrest, h⟩ := bind_some.1 h
      cases h
      refine ⟨_, rest, rfl, fun he => ?_, ih hrest⟩
    · cases hgiven
      rfl
    · simp [hv] at he

theorem enumerates_memberFacts {e : EnumDecl}
    (h : Analyze.memberFacts r id (.enum e) index d = some (facts, d')) :
    facts.Enumerates e d'.work.heap := by
  obtain ⟨values, d1, h1, h⟩ := bind_some.1 h
  cases h
  exact ⟨_, values, _, rfl, rfl, numbers_enumEntries h1, d1.work.heap.spells_enumDict values⟩

theorem addMember {w0 : Workspace} {t : Tree} {decl : ClassDecl} {name : String}
    (ht : (w0.unit k).tree = some t) (hdecl : t.class? id = some decl)
    (hfacts : decl.Declares name facts)
    ⦃d a d'⦄ (hk : d.cursor.unit = k) (hle : O.le w0 d.work)
    (he : ∀ e, decl.members[facts.index]? = some (.enum e) → facts.Enumerates e d.work.heap)
    (h : Analyze.modifyClass id (fun c => { c with members := c.members.insertNew name facts }) d =
      some (a, d')) : d'.cursor.unit = k ∧ O.le w0 d'.work := by
  cases h
  have hlt : k < w0.units.size := by
    refine Nat.lt_of_not_le fun hle => ?_
    rw [Workspace.unit, Array.getElem?_eq_none hle] at ht
    cases ht
  have htree : (d.work.unit d.cursor.unit).tree = some t := by
    rw [hk, ((O.later hle).units _ hlt).2.tree, ht]
  refine ⟨hk, O.trans hle (O.modifyUnit (.modifyClass (fun c => ?_) (fun _ => rfl) fun hfaithful =>
    ?_) fun hu => hu.modifyClass fun c other m hm => ?_)⟩
  · exact ⟨rfl, fun other m hm => ⟨m, Table.find?_insertNew_of_some hm, .refl m⟩,
      .inr (.inr ⟨rfl, rfl⟩)⟩
  · refine hfaithful.modifyClass (fun c => Table.nodup_keys_insertNew name facts)
      fun c other m hm => ?_
    rcases Table.find?_insertNew hm with hm | ⟨rfl, rfl⟩
    · exact .inl ⟨m, hm, .refl m⟩
    · exact .inr ⟨t, decl, htree, hdecl, hfacts⟩
  · rcases Table.find?_insertNew hm with hm | ⟨rfl, rfl⟩
    · exact .inl ⟨m, hm, .refl m⟩
    · refine .inr fun t' decl' e ht' hdecl' hm => he e ?_
      cases htree.symm.trans ht'
      cases hdecl.symm.trans hdecl'
      exact hm

/-! ### Checks of a class -/

section

variable (hr : Resolver.Sound O .interfaceSolved r)
  (own : ClassRef) (name : String) (type : StaticType) (id : ClassId) (decl : ClassDecl)

@[grind ←]
theorem checkClassName : Keeps O (checkClassName decl) := by
  have hhidden (name : String) : Keeps O (hiddenBy decl name) := by grind [hiddenBy]
  grind [checkClassName]

@[grind ←]
theorem checkRepeated : Keeps O (checkRepeated decl) :=
  .forM fun _ _ => .unresolved rfl _

theorem setStage (f : ClassFacts → ClassStage) :
    Keeps O (Analyze.modifyClass id fun c => { c with stage := f c }) :=
  .modifyClass fun _ => ⟨rfl, rfl, rfl⟩

include hr

@[grind ←]
theorem conflictsWithBase (base : BaseState) (m : Member) :
    Keeps O (conflictsWithBase r base m name) := by
  unfold Analyze.conflictsWithBase
  grind

@[grind ←]
theorem checkConflicts : Keeps O (checkConflicts r id decl) := by
  refine .bind (.refOf _) fun own => .bind (.baseOf hr _) fun base =>
    .bind (.nativeRoot hr _) fun native => .forM fun m _ => ?_
  cases m.name? <;> grind

@[grind ←]
theorem getterFault : Keeps O (getterFault r own name type) := by grind [Analyze.getterFault]

@[grind ←]
theorem setterFault : Keeps O (setterFault r own name type) := by grind [Analyze.setterFault]

@[grind ←]
theorem checkAccessors : Keeps O (checkAccessors r id decl) := by
  refine .bind (.refOf _) fun own => ?_
  extract_lets complain
  have hcomplain (d : VariableDecl) (accessor : Ident) (message : Option String) :
      Keeps O (complain d accessor message) := by
    cases message with
    | some message => exact .illTyped _ _
    | none => exact .pure _
  refine .forM fun d _ => ?_
  cases d.accessors with
  | none => exact .pure _
  | inline getter setter => exact .pure _
  | named getter setter =>
    refine .bind .unit fun u => ?_
    have hsetter (type : StaticType) (s : Ident) :
        Keeps O (do complain d s (← Analyze.setterFault r own s.name type)) :=
      .bind (.setterFault hr _ _ _) fun _ => hcomplain _ _ _
    cases getter with
    | none =>
      cases setter with
      | none => exact .pure _
      | some s => exact hsetter _ s
    | some g =>
      refine .bind (.getterFault hr _ _ _) fun _ => .bind (hcomplain _ _ _) fun _ => ?_
      cases setter with
      | none => exact .pure _
      | some s => exact hsetter _ s

@[grind ←]
theorem inheritedCapabilities (base : StaticType) : Keeps O (inheritedCapabilities r base) := by
  grind [inheritedCapabilities]

end

/-! ### The members of a class -/

section

variable (hr : Resolver.Sound O .interfaceSolved r)
  (hb : ∀ id, Keeps O (Analyze.resolveInheritance r id))

include hr hb

/-- Only the declaration that a name leads to is looked at, so what is added is declared. -/
theorem resolveMember (id : ClassId) (index : Nat) : Keeps O (resolveMember r id index) := by
  intro d0 a d' h
  obtain ⟨_, d, hd, h⟩ := bind_some.1 h
  cases hd
  cases ht : (d0.work.unit d0.cursor.unit).tree with
  | none =>
    rw [ht] at h
    cases h
    exact ⟨rfl, O.refl _⟩
  | some t =>
    rw [ht, Option.getD_some] at h
    revert h
    refine (?_ : Leads O d0.cursor.unit d0.work d0.work _) rfl (O.refl _)
    have hpure (x : Option MemberFacts) : Leads O d0.cursor.unit d0.work d0.work (Pure.pure x) :=
      (pure x).leads (O.refl _)
    cases hdecl : t.class? id with
    | none => exact hpure _
    | some decl =>
      dsimp only
      cases hm : decl.members[index]? with
      | none => exact hpure _
      | some m =>
        dsimp only
        cases hname : m.name? with
        | none => exact hpure _
        | some name =>
          refine .bind .unit fun u => ?_
          cases u.member? id name with
          | some known => exact hpure _
          | none =>
            dsimp only
            split
            · exact hpure _
            next hplace =>
            have hplace : decl.places.find? name = some index := by simpa using hplace
            have hresolving {f : FileUnit → List (ClassId × String)} :
                Keeps O (Analyze.modifyUnit fun u => { u with resolving := f u }) :=
              .modifyUnit (fun _ => .of_rest rfl rfl rfl rfl rfl rfl) fun _ _ hu => hu
            refine .bind (hb _) fun _ => .bind .unit fun _ => .ite ?_ ?_
            · exact .bind (.className _) fun _ => .bind (.unresolved rfl _) fun _ => hpure _
            refine .bind hresolving fun _ d a d' hk hle h => ?_
            obtain ⟨facts, d1, h1, h⟩ := bind_some.1 h
            obtain ⟨hk1, hle1⟩ := inClass (.memberFacts hr id m index) h1
            obtain ⟨_, d2, hfacts, hwork⟩ := exists_of_inClass h1
            obtain ⟨hn, hi⟩ := place_of_memberFacts hfacts
            have hdeclares : decl.Declares name facts :=
              ⟨hn.trans (by rw [hname]; rfl), hi ▸ hplace, m, hi ▸ hm, hname⟩
            obtain ⟨_, d3, h3, h⟩ := bind_some.1 h
            obtain ⟨hk3, hle3⟩ := hresolving h3
            obtain ⟨_, d4, h4, h⟩ := bind_some.1 h
            cases h
            refine addMember ht hdecl hdeclares (hk3.trans (hk1.trans hk))
              (O.trans (O.trans hle hle1) hle3) (fun e he => ?_) h4
            rw [hi, hm] at he
            cases he
            have hnew := enumerates_memberFacts hfacts
            rw [hwork] at hnew
            cases h3
            exact hnew

theorem resolveInterface (id : ClassId) : Keeps O (resolveInterface r id) := by
  refine .bind .unit fun _ => .ite (.pure _) (.bind .tree fun t => ?_)
  cases t.class? id with
  | none => exact .pure _
  | some decl =>
    refine .bind (hb _) fun _ => .bind .unit fun _ => .ite ?_ ?_
    · exact .bind (.setStage _ _) fun _ => .bind .errorCount fun _ =>
        .ite (.bind (.className _) fun _ => .unresolved rfl _) (.pure _)
    · refine .bind (.setStage _ _) fun _ => .bind .unit fun u => ?_
      extract_lets base checked
      have hchecked (x : Unit) : Keeps O (checked x) :=
        .bind (.checkClassName _) fun _ => .bind (.checkRepeated _) fun _ =>
          .bind (.forM fun _ _ => .done (.resolveMember hr hb _ _)) fun _ =>
          .bind (.checkConflicts hr _ _) fun _ => .bind (.checkAccessors hr _ _) fun _ =>
          .bind (.inheritedCapabilities hr _) fun _ =>
          .modifyClass fun _ => ⟨rfl, rfl, rfl⟩
      cases base.class? with
      | none => exact hchecked ()
      | some cls =>
        refine .bind_of (.ensureInterface hr _) (.ensureInterface _) fun answer h => ?_
        cases answer with
        | ok _ => exact hchecked ()
        | error fault => exact .bind (.unresolved (h fault rfl) _) hchecked

end

end Keeps

end Analyze

end HotScript
