import HotScript.Proofs.Live.Chains
import HotScript.Proofs.Live.Lambdas
import HotScript.Proofs.Live.Sessions

/-!
Instances and their classes.

A class lists the instances that were made of it from when it is valid, and an instance stays one of
its class for good (`World.Enrolled`). So a file that is not in use has no instances, and there is
nothing in it to be saved.
-/

namespace HotScript

namespace World

theorem inst_modifyInstance (w : World) (i j : InstanceId) (f : Instance → Instance) :
    (w.modifyInstance i f).inst j = if j = i ∧ i < w.instances.size then f (w.inst i)
    else w.inst j := by
  unfold modifyInstance inst
  rw [Array.getElem?_modify]
  by_cases hi : i = j
  · subst hi
    by_cases hlt : i < w.instances.size
    · simp [hlt]
    · simp [hlt]
  · simp [hi, Ne.symm hi]

theorem size_modifyInstance (w : World) (i : InstanceId) (f : Instance → Instance) :
    (w.modifyInstance i f).instances.size = w.instances.size := Array.size_modify

theorem inst_push (w : World) (x : Instance) (i : InstanceId) :
    inst { w with instances := w.instances.push x } i = if i = w.instances.size then x
    else w.inst i := by
  unfold inst
  rw [Array.getElem?_push]
  split <;> rfl

/-! ### Enrolment -/

/-- Only a valid class lists instances, and only those that are its own. A class that is not valid
has neither code nor a base, and where there is code, variables stand under their names and static
variables are stored. -/
structure Enrolled (w : World) : Prop where
  listed : ∀ s i, i ∈ (w.script s).instances.values →
    (w.script s).isValid ∧ i < w.instances.size ∧ (w.inst i).script = s
  blank : ∀ s, (w.script s).isValid = false → (w.script s).code = none ∧ (w.script s).base = none
  keyed : ∀ s c, (w.script s).code = some c → c.Keyed
  stored : ∀ s c, (w.script s).code = some c → c.Stores (w.script s).statics

structure EnrolledAt (w : World) (s : ScriptId) (x : Script) : Prop where
  listed : ∀ i ∈ x.instances.values, x.isValid ∧ i < w.instances.size ∧ (w.inst i).script = s
  blank : x.isValid = false → x.code = none ∧ x.base = none
  code : ∀ c, x.code = some c → c.Keyed ∧ c.Stores x.statics

variable {w : World}

theorem enrolled_iff : w.Enrolled ↔ ∀ s, w.EnrolledAt s (w.script s) where
  mp h s := ⟨h.listed s, h.blank s, fun c hc => ⟨h.keyed s c hc, h.stored s c hc⟩⟩
  mpr h := ⟨fun s => (h s).listed, fun s => (h s).blank, fun s c hc => ((h s).code c hc).1,
    fun s c hc => ((h s).code c hc).2⟩

theorem Enrolled.slot?_of_mem (hw : w.Enrolled) {s : ScriptId} {slot : Slot}
    (h : slot ∈ w.slots s) : ∃ found ∈ w.slots s, w.slot? s slot.name = some found := by
  obtain ⟨t, c, ht, hslot⟩ := mem_slots.1 h
  have hfound : c.members.find? slot.name = some slot :=
    (hw.keyed t c (mem_codeChain.1 ht).2).1.find?_of_mem hslot
  cases hname : w.slot? s slot.name with
  | none =>
    rw [slot?, List.findSome?_eq_none_iff] at hname
    cases hfound.symm.trans (hname _ ht)
  | some found =>
    obtain ⟨t', c', ht', hfind⟩ := of_slot? hname
    exact ⟨found, mem_slots.2 ⟨t', c', ht', Table.mem_values_of_find? hfind⟩, rfl⟩

/-- Instances stay, each with its class, valid classes stay valid, and classes go on to list their
own instances. -/
structure Enrols (w w' : World) : Prop where
  size : w.instances.size ≤ w'.instances.size
  home : ∀ i, i < w.instances.size → (w'.inst i).script = (w.inst i).script
  valid : ∀ s, (w.script s).isValid → (w'.script s).isValid
  enrolled : w.Enrolled → w'.Enrolled

namespace Enrols

variable {w1 w' : World} {s : ScriptId}

theorem refl (w : World) : w.Enrols w := ⟨Nat.le_refl _, fun _ _ => rfl, fun _ => id, id⟩

theorem trans (h : w.Enrols w1) (h' : w1.Enrols w') : w.Enrols w' where
  size := Nat.le_trans h.size h'.size
  home i hi := (h'.home i (Nat.lt_of_lt_of_le hi h.size)).trans (h.home i hi)
  valid s hs := h'.valid s (h.valid s hs)
  enrolled hw := h'.enrolled (h.enrolled hw)

theorem of_each (size : w.instances.size ≤ w'.instances.size)
    (home : ∀ i, i < w.instances.size → (w'.inst i).script = (w.inst i).script)
    (each : ∀ s, ((w.script s).isValid → (w'.script s).isValid) ∧
      (w.EnrolledAt s (w.script s) → w'.EnrolledAt s (w'.script s))) : w.Enrols w' where
  size := size
  home := home
  valid s := (each s).1
  enrolled hw := enrolled_iff.2 fun s => (each s).2 (enrolled_iff.1 hw s)

theorem at_of_listed {x : Script} (size : w.instances.size ≤ w'.instances.size)
    (home : ∀ i, i < w.instances.size → (w'.inst i).script = (w.inst i).script)
    (h : w.EnrolledAt s x) : w'.EnrolledAt s x where
  listed i hi :=
    let ⟨hvalid, hlt, hhome⟩ := h.listed i hi
    ⟨hvalid, Nat.lt_of_lt_of_le hlt size, (home i hlt).trans hhome⟩
  blank := h.blank
  code := h.code

theorem of_instances (hi : w'.instances = w.instances)
    (hs : ∀ s, (∀ i ∈ (w'.script s).instances.values, i ∈ (w.script s).instances.values) ∧
      (w.script s).SameVersion (w'.script s) ∧
      (w'.script s).statics.size = (w.script s).statics.size) : w.Enrols w' := by
  refine of_each (Nat.le_of_eq (congrArg Array.size hi.symm)) (fun i _ => by rw [inst, inst, hi])
    fun s => ?_
  obtain ⟨hlisted, hsame, hstatics⟩ := hs s
  refine ⟨hsame.isValid.trans, fun h => ⟨fun i hlist => ?_, fun hinvalid => ?_, fun c hc => ?_⟩⟩
  · rw [inst, hi, hsame.isValid]
    exact h.listed i (hlisted i hlist)
  · rw [hsame.code, hsame.base]
    exact h.blank (hsame.isValid ▸ hinvalid)
  · obtain ⟨hkeyed, hstored⟩ := h.code c (hsame.code ▸ hc)
    exact ⟨hkeyed, fun slot hslot => Nat.lt_of_lt_of_eq (hstored slot hslot) hstatics.symm⟩

theorem of_scripts (hi : w'.instances = w.instances) (hs : w'.scripts = w.scripts) :
    w.Enrols w' := by
  refine of_instances hi fun s => ?_
  rw [World.script, hs]
  exact ⟨fun _ h => h, .refl _, rfl⟩

theorem modifyScript (w : World) (s : ScriptId) {f : Script → Script}
    (h : ∀ x : Script, (∀ i ∈ (f x).instances.values, i ∈ x.instances.values) ∧
      x.SameVersion (f x) ∧ (f x).statics.size = x.statics.size) :
    w.Enrols (w.modifyScript s f) := by
  refine of_instances rfl fun t => ?_
  rw [script_modifyScript]
  split
  · next ht => exact ht.1 ▸ h _
  · exact ⟨fun _ h => h, .refl _, rfl⟩

theorem modifyInstance (w : World) (i : InstanceId) {f : Instance → Instance}
    (h : ∀ x : Instance, (f x).script = x.script) : w.Enrols (w.modifyInstance i f) := by
  have hhome (j : InstanceId) : ((w.modifyInstance i f).inst j).script = (w.inst j).script := by
    rw [inst_modifyInstance]
    split
    · next hj => rw [h, hj.1]
    · rfl
  refine ⟨Nat.le_of_eq (size_modifyInstance w i f).symm, fun j _ => hhome j, fun _ => id, fun hw =>
    ⟨fun s j hj => ?_, hw.blank, hw.keyed, hw.stored⟩⟩
  rw [hhome, size_modifyInstance]
  exact hw.listed s j hj

theorem give (w : World) (s : ScriptId) (owner : ObjectRef) (members : Array Value)
    (hs : (w.script s).isValid) : w.Enrols (w.give s owner members) := by
  have hinst (i : InstanceId) : (w.give s owner members).inst i =
      if i = w.instances.size then { script := s, owner, members } else w.inst i := inst_push w _ i
  have hsize : (w.give s owner members).instances.size = w.instances.size + 1 := Array.size_push _
  have hlt : w.instances.size < (w.give s owner members).instances.size := by omega
  have hhome (i : InstanceId) (hi : i < w.instances.size) :
      ((w.give s owner members).inst i).script = (w.inst i).script := by
    rw [hinst, if_neg (Nat.ne_of_lt hi)]
  refine of_each (Nat.le_of_lt hlt) hhome fun t => ?_
  have hscript : (w.give s owner members).script t = if t = s ∧ s < w.scripts.size then
        { w.script s with instances := (w.script s).instances.insert owner.id w.instances.size }
      else w.script t := script_modifyScript ..
  rw [hscript]
  split
  · next hts =>
    obtain ⟨rfl, -⟩ := hts
    refine ⟨id, fun h => ?_⟩
    have hold := at_of_listed (Nat.le_of_lt hlt) hhome h
    refine ⟨fun i hi => ?_, hold.blank, hold.code⟩
    -- the fresh instance, or one that the class has listed before
    rcases Table.mem_values_insert hi with rfl | hi
    · exact ⟨hs, hlt, by rw [hinst, if_pos rfl]⟩
    · exact hold.listed i hi
  · exact ⟨id, at_of_listed (Nat.le_of_lt hlt) hhome⟩

theorem addScript (w : World) (path qualified name : String) :
    w.Enrols (w.addScript path qualified name).2 := by
  refine of_each (Nat.le_refl _) (fun _ _ => rfl) fun s => ?_
  rw [script_addScript]
  split
  · next hs =>
    rw [hs, script_of_ge (Nat.le_refl _)]
    refine ⟨nofun, fun _ => ⟨fun _ hi => absurd hi List.not_mem_nil, fun _ => ⟨rfl, rfl⟩,
      fun c hc => ?_⟩⟩
    cases hc
  · exact ⟨id, at_of_listed (Nat.le_refl _) fun _ _ => rfl⟩

theorem swapClass (w : World) (known : s < w.scripts.size) {c : ClassCode} (keyed : c.Keyed)
    (base : Option ScriptId) (scripts : List ScriptId) {statics : Array Value}
    (stored : c.Stores statics) :
    w.Enrols (w.swapClass s c base scripts statics) := by
  have hinstances : (w.swapClass s c base scripts statics).instances = w.instances := by
    simp [World.swapClass, known]
  have hsize := Nat.le_of_eq (congrArg Array.size hinstances.symm)
  have hhome (i : InstanceId) (_ : i < w.instances.size) :
      ((w.swapClass s c base scripts statics).inst i).script = (w.inst i).script := by
    rw [inst, inst, hinstances]
  refine of_each hsize hhome fun t => ?_
  by_cases hts : t = s
  · subst hts
    rw [script_swapClass known]
    refine ⟨fun _ => rfl, fun h => ?_⟩
    have hold := at_of_listed hsize hhome h
    refine ⟨fun i hi => ⟨rfl, (hold.listed i hi).2⟩, by simp, fun c' hc => ?_⟩
    cases hc
    exact ⟨keyed, stored⟩
  · rw [script_swapClass_of_ne known c base scripts statics hts]
    exact ⟨id, at_of_listed hsize hhome⟩

theorem lose (w : World) (s : ScriptId) (owner : ObjectRef) (i : InstanceId) :
    w.Enrols (w.lose s owner i) := by
  refine .trans (.modifyInstance w i (f := fun x => { x with members := #[], state := .cleared })
    fun _ => rfl) (.trans ?_ (.modifyScript _ s fun _ => ?_))
  · exact .of_scripts rfl rfl
  · exact ⟨fun _ h => Table.mem_values_erase h, ⟨rfl, rfl, rfl, rfl⟩, rfl⟩

end Enrols

def enrolment : Journey where
  Leads := Enrols
  refl := .refl
  trans := .trans
  calls _ _ _ _ _ := .of_scripts rfl rfl
  heap _ _ := .of_scripts rfl rfl
  objects _ _ _ _ := .of_scripts rfl rfl
  born {w _ _ _ w'} _ valid h := by
    have hborn : w.Enrols w' := .trans ?_ h
    · exact ⟨hborn, hborn.trans (.lose ..)⟩
    · refine .trans ?_ (.give _ _ _ _ valid)
      exact .of_scripts rfl rfl
  inst w i _ home := .modifyInstance w i home
  closure _ _ _ := .of_scripts rfl rfl
  made _ _ _ _ _ _ _ _ := .of_scripts rfl rfl
  script w s _ same := .modifyScript w s fun x =>
    ⟨fun _ h => (same x).2.1 ▸ h, (same x).1.sameVersion, (same x).2.2⟩
  work _ _ := .of_scripts rfl rfl
  cache _ _ := .of_scripts rfl rfl
  place w s _ same := .modifyScript w s fun x =>
    ⟨fun _ h => (same x).2.1 ▸ h, (same x).1, congrArg Array.size (same x).2.2⟩
  added := .addScript
  installed w _ _ base scripts _ known keyed stored := .swapClass w known keyed base scripts stored

theorem Start.enrolled (h : w.Start) : w.Enrolled := by
  refine enrolled_iff.2 fun s => ?_
  rw [script_of_ge (by simp [h.scripts])]
  refine ⟨fun _ hi => absurd hi List.not_mem_nil, fun _ => ⟨rfl, rfl⟩, fun c hc => ?_⟩
  cases hc

/-- At all times classes list their own instances. -/
theorem Reached.enrolled (h : w.Reached) : w.Enrolled := by
  induction h with
  | start h => exact h.enrolled
  | asked _ request _ run ih =>
    exact Enrols.enrolled ((Live.journeying_perform (J := enrolment) request).leads run) ih

end World

end HotScript
