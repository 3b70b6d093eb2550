import HotScript.Proofs.Live.Enrolment
import HotScript.Proofs.Live.Reloads

/-!
Which instances objects have, and which objects classes list.

What code does on its own keeps the two in step (`World.Registers`): it makes instances for fresh
objects only. Making an instance for an object that has one of another class does not
(`World.passed_on_listed`).
-/

namespace HotScript

namespace World

variable {w w1 w' : World} {s : ScriptId} {o owner : ObjectRef} {members : Array Value}

/-- The class of the instance that an object has lists the object. -/
def Listed (w : World) (o : ObjectRef) : Prop :=
  ∀ i, w.attached? o = some i → i < w.instances.size ∧ w.hasInstance (w.inst i).script o

/-- Only the class of the instance that an object has lists the object. -/
def Matched (w : World) (o : ObjectRef) : Prop :=
  w.Listed o ∧ ∀ s, w.hasInstance s o → w.scriptOf? o = some s

/-- An object has the same instance as before, and the same classes list it. -/
def Stays (w w' : World) (o : ObjectRef) : Prop :=
  w'.attached? o = w.attached? o ∧ ∀ s, w'.hasInstance s o = w.hasInstance s o

theorem Stays.trans (h : w.Stays w1 o) (h' : w1.Stays w' o) : w.Stays w' o :=
  ⟨h'.1.trans h.1, fun s => (h'.2 s).trans (h.2 s)⟩

theorem Listed.stays (hl : w.Listed o) (h : w.Stays w' o) (he : w.Enrols w') : w'.Listed o := by
  intro i hi
  obtain ⟨hlt, hlisted⟩ := hl i (h.1.symm.trans hi)
  rw [he.home i hlt, h.2]
  exact ⟨Nat.lt_of_lt_of_le hlt he.size, hlisted⟩

theorem Matched.stays (hm : w.Matched o) (h : w.Stays w' o) (he : w.Enrols w') : w'.Matched o := by
  refine ⟨hm.1.stays h he, fun s hs => ?_⟩
  obtain ⟨i, hi, rfl⟩ := Option.map_eq_some_iff.1 (hm.2 s (h.2 s ▸ hs))
  rw [scriptOf?, h.1, hi, ← he.home i (hm.1 i hi).1]
  rfl

theorem attached?_of_le (h : w.objects.size ≤ o.id) : w.attached? o = none := by
  rw [attached?_eq, Array.getElem?_eq_none h]
  rfl

theorem matched_of_none (h : w.attached? o = none) (hs : ∀ s, w.hasInstance s o = false) :
    w.Matched o := by
  refine ⟨fun i hi => ?_, fun s hlisted => absurd (hs s ▸ hlisted) Bool.false_ne_true⟩
  cases h.symm.trans hi

theorem Matched.unlisted (hm : w.Matched o) (h : w.attached? o = none) (s : ScriptId) :
    w.hasInstance s o = false := by
  refine Bool.eq_false_iff.2 fun hs => ?_
  have := hm.2 s hs
  rw [scriptOf?, h] at this
  cases this

/-! ### Attaching and detaching -/

/-- Instances can be attached to the object: it is there and stands for no class. -/
def Takes (w : World) (o : ObjectRef) : Prop := ∃ ps i, w.objects[o.id]? = some (.native ps i)

theorem Takes.lt (h : w.Takes o) : o.id < w.objects.size := by
  obtain ⟨ps, i, hobject⟩ := h
  exact (Array.getElem?_eq_some_iff.1 hobject).1

theorem attached?_attach (w : World) (owner o : ObjectRef) (i : Option InstanceId) :
    (w.attach owner i).attached? o =
      if o.id = owner.id then w.objects[owner.id]?.bind fun | .native _ _ => i | .cls _ => none
      else w.attached? o := by
  rw [attached?_eq, attached?_eq, attach, modifyObject, Array.getElem?_modify]
  by_cases h : o.id = owner.id
  · rw [if_pos h, if_pos h.symm, h]
    rcases w.objects[owner.id]? with _ | ⟨_ | _⟩ <;> rfl
  · rw [if_neg h, if_neg (Ne.symm h)]

theorem hasInstance_modifyScript (w : World) (s t : ScriptId) (f : Script → Script) :
    (w.modifyScript s f).hasInstance t o =
      if t = s ∧ s < w.scripts.size then (f (w.script s)).instances.contains o.id
      else w.hasInstance t o := by
  rw [hasInstance, script_modifyScript]
  split <;> rfl

section

variable {i x : Option InstanceId} {f : Table Nat InstanceId → Table Nat InstanceId}

theorem stays_hand (h : o.id ≠ owner.id) (hf : ∀ t, (f t).find? o.id = t.find? o.id) :
    w.Stays (w.hand s owner i f) o := by
  refine ⟨(attached?_attach w owner o i).trans (if_neg h), fun t => ?_⟩
  refine (hasInstance_modifyScript (w.attach owner i) s t _).trans ?_
  split
  · next hts =>
    rw [hts.1]
    exact congrArg Option.isSome (hf _)
  · rfl

theorem hand_self (hs : s < w.scripts.size) (h : o.id = owner.id)
    (hf : ∀ t, (f t).find? owner.id = x) (t : ScriptId) :
    (w.hand s owner i f).hasInstance t o = if t = s then x.isSome else w.hasInstance t o := by
  refine (hasInstance_modifyScript (w.attach owner i) s t _).trans ?_
  by_cases hts : t = s
  · rw [if_pos ⟨hts, hs⟩, if_pos hts, h]
    exact congrArg Option.isSome (hf _)
  · rw [if_neg fun h => hts h.1, if_neg hts]
    rfl

end

theorem stays_give (h : o.id ≠ owner.id) : w.Stays (w.give s owner members) o := by
  have hpush : w.Stays { w with instances := w.instances.push { script := s, owner, members } } o :=
    ⟨rfl, fun _ => rfl⟩
  exact hpush.trans (stays_hand h fun _ => Table.find?_insert_of_ne _ _ h)

theorem stays_inst (i : InstanceId) (f : Instance → Instance) : w.Stays (w.modifyInstance i f) o :=
  ⟨rfl, fun _ => rfl⟩

theorem stays_lose {i : InstanceId} (h : o.id ≠ owner.id) : w.Stays (w.lose s owner i) o :=
  (stays_inst i _).trans (stays_hand h fun _ => Table.find?_erase_of_ne _ h)

theorem give_self (members : Array Value) (takes : w.Takes owner) (hs : s < w.scripts.size)
    (h : o.id = owner.id) :
    (w.give s owner members).attached? o = some w.instances.size ∧
      ∀ t, (w.give s owner members).hasInstance t o = if t = s then true
      else w.hasInstance t o := by
  obtain ⟨ps, i, hobject⟩ := takes
  let w1 : World := { w with instances := w.instances.push { script := s, owner, members } }
  refine ⟨(attached?_attach w1 owner o _).trans ((if_pos h).trans ?_),
    hand_self (w := w1) hs h fun _ => Table.find?_insert_self ..⟩
  rw [hobject]
  rfl

theorem lose_self {i : InstanceId} (hs : s < w.scripts.size) (h : o.id = owner.id) :
    (w.lose s owner i).attached? o = none ∧
      ∀ t, (w.lose s owner i).hasInstance t o = if t = s then false else w.hasInstance t o := by
  refine ⟨(attached?_attach _ owner o _).trans ((if_pos h).trans ?_),
    hand_self (w := w.modifyInstance i _) hs h fun _ => Table.find?_erase_self ..⟩
  show w.objects[owner.id]?.bind _ = _
  rcases w.objects[owner.id]? with _ | ⟨_ | _⟩ <;> rfl

/-! ### What code does on its own -/

/-- Objects stay with their instances and lists, and those that are made match. -/
structure Registers (w w' : World) : Prop where
  size : w.objects.size ≤ w'.objects.size
  enrols : w.Enrols w'
  kept : ∀ o : ObjectRef, o.id < w.objects.size → w.Stays w' o
  fresh : ∀ o : ObjectRef, w.objects.size ≤ o.id → (∀ s, w.hasInstance s o = false) → w'.Matched o

namespace Registers

theorem trans (h : w.Registers w1) (h' : w1.Registers w') : w.Registers w' where
  size := Nat.le_trans h.size h'.size
  enrols := h.enrols.trans h'.enrols
  kept o ho := (h.kept o ho).trans (h'.kept o (Nat.lt_of_lt_of_le ho h.size))
  fresh o ho hs := by
    have hm := h.fresh o ho hs
    rcases Nat.lt_or_ge o.id w1.objects.size with hlt | hge
    · exact hm.stays (h'.kept o hlt) h'.enrols
    · exact h'.fresh o hge (hm.unlisted (attached?_of_le hge))

theorem of_stays (enrols : w.Enrols w')
    (stays : ∀ o, w.Stays w' o := by exact fun _ => ⟨rfl, fun _ => rfl⟩)
    (size : w.objects.size ≤ w'.objects.size := by exact Nat.le_refl _) : w.Registers w' where
  size := size
  enrols := enrols
  kept o _ := stays o
  fresh o ho hs := (matched_of_none (attached?_of_le ho) hs).stays (stays o) enrols

theorem stays_script {f : Script → Script} (h : ∀ x : Script, (f x).instances = x.instances) :
    w.Stays (w.modifyScript s f) o := by
  refine ⟨rfl, fun t => ?_⟩
  rw [hasInstance_modifyScript]
  split
  · next hts => rw [h, hts.1, hasInstance]
  · rfl

end Registers

/-- What becomes of objects when one of them is given an instance, which it may lose again. -/
structure Given (w : World) (s : ScriptId) (owner : ObjectRef) (x : Option InstanceId)
    (w' : World) : Prop where
  size : w.objects.size ≤ w'.objects.size
  enrols : w.Enrols w'
  kept : ∀ o : ObjectRef, o.id ≠ owner.id → o.id < w.objects.size → w.Stays w' o
  fresh : ∀ o : ObjectRef, o.id ≠ owner.id → w.objects.size ≤ o.id →
    (∀ s, w.hasInstance s o = false) → w'.Matched o
  attached : ∀ o : ObjectRef, o.id = owner.id → w'.attached? o = x
  home : ∀ i, x = some i → i < w'.instances.size ∧ (w'.inst i).script = s
  listed : ∀ o : ObjectRef, o.id = owner.id → ∀ t,
    w'.hasInstance t o = if t = s then x.isSome else w.hasInstance t o

namespace Given

variable {x : Option InstanceId}

theorem of_give (h : (w.give s owner members).Registers w') (takes : w.Takes owner)
    (valid : (w.script s).isValid) : w.Given s owner (some w.instances.size) w' := by
  have hu : (w.give s owner members).objects.size = w.objects.size := Array.size_modify
  have hlt : w.instances.size < (w.give s owner members).instances.size := by
    rw [show (w.give s owner members).instances.size = w.instances.size + 1 from Array.size_push _]
    exact Nat.lt_succ_self _
  have hself {o : ObjectRef} (ho : o.id = owner.id) :=
    give_self members takes (lt_of_isValid valid) ho
  have hkept {o : ObjectRef} (ho : o.id = owner.id) := h.kept o (hu ▸ ho ▸ takes.lt)
  refine ⟨hu ▸ h.size, (Enrols.give w s owner members valid).trans h.enrols, fun o hne ho => ?_,
    fun o hne ho hs => ?_, fun o ho => (hkept ho).1.trans (hself ho).1, fun i hi => ?_,
    fun o ho t => ((hkept ho).2 t).trans ((hself ho).2 t)⟩
  · exact (stays_give hne).trans (h.kept o (hu ▸ ho))
  · exact h.fresh o (hu ▸ ho) fun t => ((stays_give hne).2 t).trans (hs t)
  · cases hi
    refine ⟨Nat.lt_of_lt_of_le hlt h.enrols.size, (h.enrols.home _ hlt).trans ?_⟩
    exact congrArg Instance.script ((inst_push w _ _).trans (if_pos rfl))

theorem lose (h : w.Given s owner x w') (valid : (w.script s).isValid) (i : InstanceId) :
    w.Given s owner none (w'.lose s owner i) := by
  have hself {o : ObjectRef} (ho : o.id = owner.id) :=
    lose_self (i := i) (lt_of_isValid (h.enrols.valid s valid)) ho
  refine ⟨Nat.le_trans h.size (Nat.le_of_eq Array.size_modify.symm), h.enrols.trans (.lose ..),
    fun o hne ho => (h.kept o hne ho).trans (stays_lose hne),
    fun o hne ho hs => (h.fresh o hne ho hs).stays (stays_lose hne) (.lose ..), fun o ho =>
      (hself ho).1,
    nofun, fun o ho t => ?_⟩
  rw [(hself ho).2, h.listed o ho]
  split <;> rfl

theorem ownerListed (h : w.Given s owner x w') (ho : o.id = owner.id) : w'.Listed o := by
  intro i hi
  have hx := (h.attached o ho).symm.trans hi
  rw [(h.home i hx).2, h.listed o ho, if_pos rfl, hx]
  exact ⟨(h.home i hx).1, rfl⟩

theorem ownerMatched (h : w.Given s owner x w') (ho : o.id = owner.id)
    (hs : ∀ t, t ≠ s → w.hasInstance t o = false) : w'.Matched o := by
  refine ⟨h.ownerListed ho, fun t ht => ?_⟩
  rw [h.listed o ho] at ht
  split at ht
  · next hts =>
    obtain ⟨i, hi⟩ := Option.isSome_iff_exists.1 ht
    rw [scriptOf?, h.attached o ho, hi, hts, ← (h.home i hi).2]
    rfl
  · next hts => exact absurd (hs t hts ▸ ht) Bool.false_ne_true

theorem registers (fresh : owner.id = w.objects.size)
    (h : Given { w with objects := w.objects.push (.native {} none) } s owner x w') :
    w.Registers w' := by
  let v : World := { w with objects := w.objects.push (.native {} none) }
  have hv : v.objects.size = w.objects.size + 1 := Array.size_push _
  have hstays (o : ObjectRef) : w.Stays v o := by
    refine ⟨?_, fun _ => rfl⟩
    rw [attached?_eq, attached?_eq, Array.getElem?_push]
    split
    · next heq => rw [heq, Array.getElem?_eq_none (Nat.le_refl _)]; rfl
    · rfl
  replace h : v.Given s owner x w' := h
  refine ⟨?_, ?_, fun o ho => ?_, fun o ho hs => ?_⟩
  · have := h.size
    omega
  · exact (Enrols.of_scripts rfl rfl : w.Enrols v).trans h.enrols
  · exact (hstays o).trans (h.kept o (by omega) (by omega))
  · by_cases heq : o.id = owner.id
    · exact h.ownerMatched heq fun t _ => hs t
    · exact h.fresh o heq (by omega) hs

end Given

def registering : Journey where
  Leads := Registers
  refl w := .of_stays (.refl w)
  trans := .trans
  calls _ _ _ _ _ := .of_stays (enrolment.calls ..)
  heap _ _ := .of_stays (enrolment.heap ..)
  objects w objects grow same := .of_stays (enrolment.objects w objects grow same)
    (fun o => ⟨same o, fun _ => rfl⟩) grow
  born {w} _ _ _ _ fresh valid h := by
    have hgiven := Given.of_give h ⟨{}, none, by simp [fresh]⟩ valid
    exact ⟨hgiven.registers fresh, (hgiven.lose valid _).registers fresh⟩
  inst w i f home := .of_stays (enrolment.inst w i f home) fun _ => stays_inst i f
  closure w c named := .of_stays (enrolment.closure w c named)
  made w s place captures bound f known entry :=
    .of_stays (enrolment.made w s place captures bound f known entry)
  script w s f same := .of_stays (enrolment.script w s f same) fun _ =>
    Registers.stays_script fun x => (same x).2.1
  work _ _ := .of_stays (enrolment.work ..)
  cache _ _ := .of_stays (enrolment.cache ..)
  place w s f same := .of_stays (enrolment.place w s f same) fun _ =>
    Registers.stays_script fun x => (same x).2.1
  added w path qualified name := by
    refine .of_stays (enrolment.added w path qualified name) fun o => ⟨rfl, fun t => ?_⟩
    rw [hasInstance, hasInstance, script_addScript]
    split
    · next ht => rw [ht, script_of_ge (Nat.le_refl _)]; rfl
    · rfl
  installed w s c base scripts statics known keyed stored := by
    have hobjects : (w.swapClass s c base scripts statics).objects = w.objects := by
      simp [World.swapClass, known]
    refine .of_stays (enrolment.installed w s c base scripts statics known keyed stored)
      (fun o => ⟨by rw [attached?, hobjects, attached?], fun t => ?_⟩)
      (Nat.le_of_eq (congrArg Array.size hobjects.symm))
    by_cases hts : t = s
    · rw [hts, hasInstance, script_swapClass known, hasInstance]
    · rw [hasInstance, script_swapClass_of_ne known c base scripts statics hts, hasInstance]

/-! ### Making instances -/

theorem given_of_create {args : List Value} {x : Except CallFault InstanceId}
    (takes : w.Takes owner) (h : (Attempt.create .standard s owner args).run w = some (x, w')) :
    ((∃ fault, x = .error fault) ∧ w' = w) ∨ w.Given s owner x.toOption w' := by
  rcases Attempt.create_run s owner args w with ⟨fault, hrun⟩ | ⟨valid, heap, members, hrun⟩
  · cases (hrun _).symm.trans h
    exact .inl ⟨⟨fault, rfl⟩, rfl⟩
  · obtain ⟨⟨made, w1⟩, hmade, hx⟩ := Option.map_eq_some_iff.1 ((hrun _).symm.trans h)
    have hr := Runner.evolving_standard (J := registering)
    have hleads : Registers ((w.withHeap heap).give s owner members) w1 :=
      Live.Follows.leads (Attempt.Follows.holding (Attempt.follows_construct hr _ args)) hmade
    have hgiven : w.Given s owner (some w.instances.size) w1 :=
      { Given.of_give hleads takes valid with
        enrols := (enrolment.heap w heap).trans (Given.of_give hleads takes valid).enrols }
    cases made with
    | ok =>
      cases hx
      exact .inr hgiven
    | error fault =>
      cases hx
      exact .inr (hgiven.lose valid _)

/-- Instances are made for objects, one after the other, each where it may be; some fail. -/
inductive Creates (P : World → ScriptId → ObjectRef → Prop) : World → World → Prop
  | nil (w : World) : Creates P w w
  | cons {w w1 w' : World} {s : ScriptId} {owner : ObjectRef} {args : List Value}
      {x : Except CallFault InstanceId} (takes : w.Takes owner) (allowed : P w s owner)
      (run : (Attempt.create .standard s owner args).run w = some (x, w1))
      (rest : Creates P w1 w') :
      Creates P w w'

/-- Every object is listed by the class of its instance. Where all keep to one class, objects match;
what is no object yet does so anyway. -/
def Registered (strict : Prop) (w : World) : Prop :=
  ∀ o : ObjectRef, w.Listed o ∧ (strict ∨ w.objects.size ≤ o.id → w.Matched o)

theorem Given.registered {strict : Prop} {x : Option InstanceId} (h : w.Given s owner x w')
    (takes : w.Takes owner) (hs : strict → ∀ t, w.scriptOf? owner = some t → t = s)
    (hw : w.Registered strict) : w'.Registered strict := by
  have hlt := takes.lt
  have hsize := h.size
  intro o
  by_cases ho : o.id = owner.id
  · refine ⟨h.ownerListed ho, fun hstrict => h.ownerMatched ho fun t ht =>
      Bool.eq_false_iff.2 fun hlisted => ?_⟩
    have hstrict := hstrict.resolve_right (by omega)
    refine ht (hs hstrict t ?_)
    rw [← ((hw o).2 (.inl hstrict)).2 t hlisted, scriptOf?, scriptOf?, attached?_eq,
      attached?_eq, ho]
  rcases Nat.lt_or_ge o.id w.objects.size with hold | hnew
  · refine ⟨(hw o).1.stays (h.kept o ho hold) h.enrols, fun hstrict => ?_⟩
    exact ((hw o).2 (hstrict.imp_right fun hge => by omega)).stays (h.kept o ho hold) h.enrols
  · have hm := h.fresh o ho hnew (((hw o).2 (.inr hnew)).unlisted (attached?_of_le hnew))
    exact ⟨hm.1, fun _ => hm⟩

theorem Creates.registered (strict : Prop) {P : World → ScriptId → ObjectRef → Prop}
    (h : Creates P w w') (hP : strict → ∀ v s owner, P v s owner → ∀ t, v.scriptOf? owner = some t →
      t = s)
    (hw : w.Registered strict) : w'.Registered strict := by
  induction h with
  | nil => exact hw
  | cons takes allowed run _ ih =>
    rcases given_of_create takes run with ⟨-, rfl⟩ | hgiven
    · exact ih hw
    · exact ih (hgiven.registered takes (fun hstrict => hP hstrict _ _ _ allowed) hw)

/-- The class of the instance that an object has always lists it. No other class does, where
instances were only made for objects without an instance of another class. Making an instance that
fails leaves every object as it was, if it was made for one that had no instance and was not
listed. -/
theorem Creates.lists_attached {P : World → ScriptId → ObjectRef → Prop} (h : Creates P w w')
    (hw : ∀ o, w.Matched o) :
    (∀ o s, w'.scriptOf? o = some s → w'.hasInstance s o) ∧
    ((∀ v s owner, P v s owner → ∀ t, v.scriptOf? owner = some t → t = s) →
      ∀ o s, w'.hasInstance s o ↔ w'.scriptOf? o = some s) ∧
    ∀ s owner args fault later, w'.Takes owner → w'.attached? owner = none →
    w'.hasInstance s owner = false →
      (Attempt.create .standard s owner args).run w' = some (.error fault, later) →
      ∀ o, o.id < w'.objects.size → w'.Stays later o := by
  have hstart (strict : Prop) : w.Registered strict := fun o => ⟨(hw o).1, fun _ => hw o⟩
  have hscript (o : ObjectRef) (s : ScriptId) (hs : w'.scriptOf? o = some s) :
      w'.hasInstance s o := by
    obtain ⟨i, hi, rfl⟩ := Option.map_eq_some_iff.1 hs
    exact ((h.registered False nofun (hstart _) o).1 i hi).2
  refine ⟨hscript, fun hP o s => ⟨?_, hscript o s⟩,
    fun s owner args fault later takes hnone hs run o ho => ?_⟩
  · exact ((h.registered True (fun _ => hP) (hstart _) o).2 (.inl trivial)).2 s
  rcases given_of_create takes run with ⟨-, rfl⟩ | hgiven
  · exact ⟨rfl, fun _ => rfl⟩
  by_cases heq : o.id = owner.id
  · have hsame : w'.attached? o = w'.attached? owner := by rw [attached?_eq, heq, ← attached?_eq]
    refine ⟨(hgiven.attached o heq).trans (hsame.trans hnone).symm, fun t =>
      (hgiven.listed o heq t).trans ?_⟩
    split
    · next hts =>
      rw [hts, hasInstance, heq]
      exact hs.symm
    · rfl
  · exact hgiven.kept o heq ho

/-! ### Two classes and one object -/

theorem matched_of_serve {requests : List Request} (run : Live.serve requests host = some ((), w))
    (o : ObjectRef) : w.Matched o := by
  have hleads : Registers host w :=
    (Live.Follows.forM (fun request => Live.journeying_perform (J := registering) request)
      requests).leads run
  exact hleads.fresh o (Nat.zero_le _) fun _ => rfl

/-- Two files are loaded, and an object is made with an instance of the first. -/
def oneObject : List Request :=
  [twoFiles "plain" "plain", .load "res://a.br" false, .load "res://b.br" false, .newObject 0 []]

/-- An object gets another instance of its class. -/
theorem oneObject_registry :
    ∃ w x w', Live.serve oneObject host = some ((), w) ∧
      (Attempt.create .standard 0 ⟨0, "RefCounted"⟩ []).run w = some (x, w') ∧ x.toOption = some 1 ∧
      ∀ o s, w'.hasInstance s o ↔ w'.scriptOf? o = some s := by
  obtain ⟨w, run, htakes, hscript, x, w', hcreate, hx⟩ : ∃ w,
    Live.serve oneObject host = some ((), w) ∧
      (∃ object, w.objects[0]? = some object ∧ object.attached? = some 0) ∧
      w.scriptOf? ⟨0, "RefCounted"⟩ = some 0 ∧ ∃ x w',
        (Attempt.create .standard 0 ⟨0, "RefCounted"⟩ []).run w = some (x, w') ∧
        x.toOption = some 1 := by
    decide +kernel
  have htakes : w.Takes ⟨0, "RefCounted"⟩ := by
    obtain ⟨_ | _, hobject, hattached⟩ := htakes
    · exact ⟨_, _, hobject⟩
    · cases hattached
  have hcreates : Creates (fun v s owner => ∀ t, v.scriptOf? owner = some t → t = s) w w' := by
    refine .cons htakes (fun t ht => ?_) hcreate (.nil w')
    exact Option.some.inj (ht.symm.trans hscript)
  exact ⟨w, x, w', run, hcreate, hx, (hcreates.lists_attached (matched_of_serve run)).2.1
    fun _ _ _ h => h⟩

/-- The first class goes on to list an object that was passed on to the second, and an object loses
its instance when the second one fails. -/
theorem passed_on_listed :
    ∃ w, Live.serve oneObject host = some ((), w) ∧ w.attached? ⟨0, "RefCounted"⟩ = some 0 ∧
      (∃ x w', (Attempt.create .standard 1 ⟨0, "RefCounted"⟩ []).run w = some (x, w') ∧
        x.toOption = some 1 ∧ w'.scriptOf? ⟨0, "RefCounted"⟩ = some 1 ∧
        w'.hasInstance 0 ⟨0, "RefCounted"⟩) ∧
      ∃ x w', (Attempt.create .standard 1 ⟨0, "RefCounted"⟩ [.nil]).run w = some (x, w') ∧
        x.toOption = none ∧ w'.attached? ⟨0, "RefCounted"⟩ = none := by
  decide +kernel

end World

end HotScript
