import HotScript.Proofs.Live.Reloading

/-!
Instances and reloads.

Every instance is initialized afresh with the new classes, and then the values of its variables are
written back by name. A variable that another one of the same name hides does not get its old value.
-/

namespace HotScript

/-- Of an instance, functions that run on it change the values of its variables at most, and others
nothing. -/
def Rule.members (i : InstanceId) : Rule := fun _ _ bound w w' =>
  if bound = some i then
    ∃ members, members.size = (w.inst i).members.size ∧ w'.inst i = { w.inst i with members }
  else w'.inst i = w.inst i

namespace Live

open World

variable {rule : Rule} {i : InstanceId} {w w' : World} {keep : Bool} {call : Reloading}
  {done : List String} {batch : List Prepared} {v v' : World}

theorem Round.inst_compiled
    (hrule : ∀ {s : ScriptId} {f : FunctionCode} {v v' : World}, rule s f none v v' →
      v'.inst i = v.inst i)
    (h : Round (.supervised rule) keep call done batch w v v' w') : v'.inst i = w.inst i := by
  have hbears : (Runner.supervised rule).Bears (staying (fun _ => False) i) :=
    Runner.bears_watched (B := staying (fun _ => False) i) (fun _ _ hrun => hrule hrun) _
  have hsame : v'.inst i = v.inst i := h.compiled.leads (fun _ => h.find?) hbears
      ⟨h.sound, h.poised.enrolled h.enrolled, fun _ hused => hused.elim⟩ fun _ _ => id
  exact hsame.trans (h.poised.inst i)

/-- What comes of the variables of an instance in a reload: when its turn came it was initialized
afresh, and then each place has one of the values whose name leads to it, or what the initializers
gave it. -/
theorem Round.settles_members (hrule : rule.Refines (.members i))
    (h : Round (.supervised rule) keep call done batch w v v' w')
    (hplain : ∀ f ∈ call.files w, ∀ s ∈ w.family f.2, w'.Plain s) {p : Prepared} (hp : p ∈ batch)
    {t : ScriptId} (ht : t ∈ w.family p.script) (hlive : i ∈ w.liveInstances t)
    (husable : w.isUsable i) :
    (w'.script t).isValid ∧
    ∃ u fresh, call.Writes .standard keep w (.inst i (w.values i)) u ∧
      renew .standard i (namedCells (w.values i)) u = some ((), fresh) ∧
      (∀ name x, (name, x) ∈ w.values i → ∃ k, PutsBack .standard i (w.values i) fresh name x k) ∧
      (fresh.inst i).members.size = (w'.inst i).members.size ∧
      (w'.inst i).members.size = ((w'.script t).code.map (·.memberCount)).getD 0 ∧
      ∀ index < (w'.inst i).members.size, Settles
        (fun type x k => ∃ name slot, PutsBack .standard i (w.values i) fresh name x k ∧
          w'.slot? t name = some slot ∧ slot.index = index ∧ slot.type = type)
        (fresh.member? i index) (w'.member? i index) := by
  obtain ⟨hfile, hstate⟩ := h.saved p hp
  have hlisted := List.mem_of_mem_filter hlive
  have hi := h.writable hplain hfile ht hlisted
  have hinst : v'.inst i = w.inst i := h.inst_compiled fun hrun => hrule hrun
  have husable' : v'.isUsable i = true := by
    rw [isUsable, hinst]
    exact husable
  have hmem : .inst i (w.values i) ∈ batch.flatMap (Prepared.entries w') := by
    refine List.mem_flatMap.2 ⟨p, hp, List.mem_append_right _ ?_⟩
    exact List.mem_map.2 ⟨_, hstate.live t ht i hlive, rfl⟩
  obtain ⟨u, fresh, hu, hfresh, hputs, hsize, hsize', hsettles⟩ :=
    Restoring.settles_members (h.steady v'.Present)
      (fun _ hrun => (if_pos rfl).mp (hrule (Runner.allowed_of_watched hrun)))
      (fun hne _ hrun => (if_neg fun heq => hne (Option.some.inj heq)).mp
        (hrule (Runner.allowed_of_watched hrun)))
      hi husable' (fun j values hj => (h.writable_of_mem hplain hj).2)
      (fun values hj => (h.writable_of_mem hplain hj).1) hmem h.restored
  obtain ⟨-, -, hsteady⟩ := h.settled
  have hbelow := Runner.below_standard rule
  refine ⟨hsteady.enrols.valid t hi.valid, u, fresh, hu.mono hbelow,
    (follows_renew hbelow i _).same hfresh, fun name x hx => ?_, hsize.trans hsize'.symm, hsize',
    fun index hindex => (hsettles index hindex).mono ?_ ?_⟩
  · obtain ⟨k, hk⟩ := hputs name x hx
    exact ⟨k, hk.mono hbelow⟩
  · rintro type x k ⟨name, slot, hk, hplace⟩
    exact ⟨name, slot, hk.mono hbelow, hplace⟩
  · rintro type x k ⟨name, slot, hk, hplace⟩
    obtain ⟨k', hk'⟩ := hputs name x hk.mem
    exact ⟨k', name, slot, hk', hplace⟩

end Live

namespace World

variable {w : World} {s : ScriptId} {i : InstanceId}

theorem Sound.slot?_unique (hw : w.Sound) (hs : (w.script s).isValid) (hstep : w.InStep s)
    {name name' : String} {slot slot' : Slot} (h : w.slot? s name = some slot)
    (h' : w.slot? s name' = some slot') :
    slot.index < ((w.script s).code.map (·.memberCount)).getD 0 ∧
      (slot.index = slot'.index → name = name' ∧ slot = slot') := by
  obtain ⟨c, hc, -⟩ := hw.code s hs
  obtain ⟨hnodup, hbelow⟩ := hw.nodup_slots hs hc hstep
  rw [hc]
  exact ⟨hbelow _ (index_mem_slotIndices h), slot?_inj hnodup h h'⟩

/-- **Instances survive a reload by name.** When its turn came the instance was initialized afresh,
and then the old values were written back one after the other. In the end a variable that its name
leads to has the old value of the name, fitted to its type at that moment. If there was none or it
was refused the variable has what the initializers gave it, and so has every other place. -/
theorem Reached.reloaded_members {w w' : World} (hw : w.Reached) {call : Reloading} {path : String}
    {head t : ScriptId} {i : InstanceId} {done : List String} (hfile : (path, head) ∈ call.files w)
    (hhead : w.cache.find? path = some head)
    (hplain : ∀ f ∈ call.files w, ∀ s ∈ w.family f.2, w.Plain s ∧ w'.Plain s)
    (h : call.run .standard w = some (done, w')) (hdone : path ∈ done)
    (hwatched : (call.run (.supervised (.members i)) w).isSome)
    (ht : t ∈ w.family head) (hlive : i ∈ w.liveInstances t) (husable : w.isUsable i)
    (hstep : w'.InStep t) :
    ∃ u fresh, call.Writes .standard true w (.inst i (w.values i)) u ∧
      Live.renew .standard i (Live.namedCells (w.values i)) u = some ((), fresh) ∧
      (∀ name slot x, w'.slot? t name = some slot → w.value? i name = some x →
        ∃ k, Live.PutsBack .standard i (w.values i) fresh name x k ∧
          ((∃ y, k.fitted slot.type x = some y ∧ w'.member? i slot.index = some y) ∨
            k.fitted slot.type x = none ∧ w'.member? i slot.index = fresh.member? i slot.index)) ∧
      ∀ index, (∀ name slot, w'.slot? t name = some slot → slot.index = index →
        w.value? i name = none) → w'.member? i index = fresh.member? i index := by
  have hrun := (call.below_run (Runner.below_standard _)).eq_some hwatched h
  obtain ⟨batch, v, v', hround⟩ := Reloading.round (fun _ => Runner.steady_watched ..)
    hw.sound.1 hw.enrolled hfile hhead (fun f hf s hs => (hplain f hf s hs).1) hrun hdone
  obtain ⟨-, hw', -⟩ := hround.settled
  obtain ⟨p, hp, rfl⟩ := List.mem_map.1 (hround.compiled.sublist.subset hdone)
  obtain rfl : p.script = head :=
    Option.some.inj ((hround.cached _ (hround.saved p hp).1).symm.trans hhead)
  obtain ⟨hvalid, u, fresh, hu, hfresh, hputs, hsize, hcount, hsettles⟩ :=
    hround.settles_members (fun hrun => hrun) (fun f hf s hs => (hplain f hf s hs).2)
      hp ht hlive husable
  have hvalue {name : String} {x : Value} : (name, x) ∈ w.values i ↔ w.value? i name = some x :=
    mem_values hw.enrolled
  refine ⟨u, fresh, hu, hfresh, fun name slot x hslot hx => ?_, fun index hnone => ?_⟩
  · have hindex := (hw'.sound.slot?_unique hvalid hstep hslot hslot).1
    obtain ⟨k, hk⟩ := hputs name x (hvalue.2 hx)
    obtain ⟨k', ⟨name', slot', hk', hslot', hsame, -⟩, hcomes⟩ :=
      (hsettles slot.index (hcount ▸ hindex)).of_only ⟨name, slot, hk, hslot, rfl, rfl⟩ (by
        rintro type' x' k' ⟨name', slot', hk', hslot', hsame, rfl⟩
        obtain ⟨rfl, rfl⟩ := (hw'.sound.slot?_unique hvalid hstep hslot' hslot).2 hsame
        exact ⟨rfl, Option.some.inj ((hvalue.1 hk'.mem).symm.trans hx)⟩)
    obtain ⟨rfl, -⟩ := (hw'.sound.slot?_unique hvalid hstep hslot' hslot).2 hsame
    exact ⟨k', hk', hcomes⟩
  · rcases Nat.lt_or_ge index (w'.inst i).members.size with hlt | hge
    · refine (hsettles index hlt).eq_of_none ?_
      rintro type x k ⟨name, slot, hk, hslot, hindex, -⟩
      cases (hnone name slot hslot hindex).symm.trans (hvalue.1 hk.mem)
    · rw [member?, member?, Array.getElem?_eq_none hge, Array.getElem?_eq_none (hsize.symm ▸ hge)]

/-! ### Files with variables -/

/-- A function is run on an instance and changes the values of its variables at most. -/
def ownMembers (i : InstanceId) (_ : ScriptId) (_ : FunctionCode) (bound : Option InstanceId)
    (w w' : World) : Bool :=
  bound == some i && (w'.inst i).script == (w.inst i).script &&
    (w'.inst i).owner == (w.inst i).owner &&
    (w'.inst i).state == (w.inst i).state && (w'.inst i).members.size == (w.inst i).members.size

theorem members_of_ownMembers {f : FunctionCode} {bound : Option InstanceId} {w' : World}
    (h : ownMembers i s f bound w w' = true) : Rule.members i s f bound w w' := by
  simp only [ownMembers, Bool.and_eq_true, beq_iff_eq] at h
  obtain ⟨⟨⟨⟨hbound, hscript⟩, howner⟩, hstate⟩, hsize⟩ := h
  refine (if_pos hbound).mpr ⟨(w'.inst i).members, hsize, ?_⟩
  show w'.inst i = ⟨(w.inst i).script, (w.inst i).owner, (w'.inst i).members, (w.inst i).state⟩
  rw [← hscript, ← howner, ← hstate]

theorem watched_of_ownMembers {call : Reloading}
    (h : (call.run (.tested (ownMembers i) 0x100000000) w).isSome) :
    (call.run (.supervised (.members i)) w).isSome :=
  Reloading.watched_of_tested (fun _ _ _ _ _ => members_of_ownMembers) h

/-- A file with two variables is loaded, an instance made and the first variable written. Then the
script is to be compiled from a text in which there is one more variable and the order is
another. -/
def reordered : List Request :=
  [.texts [("res://a.br", "one")]
      [("one", fileWith none [.number 0 "x" false 1, .number 2 "y" false 2] [] 4),
        ("two", fileWith none
          [.number 0 "z" false 3, .number 2 "y" false 4, .number 4 "x" false 5] [] 6)],
    .load "res://a.br" false, .newObject 0 [], .setMember 0 "x" (.int 7),
    .setSource 0 (.text "two")]

/-- After the reload the variable has the value that was written, at its new place, and the variable
that was added has the 3 that the initializers gave it. -/
theorem reordered_reloaded_members :
    ∃ w w' u fresh, Live.serve reordered host = some ((), w) ∧
      (Reloading.one 0).run .standard w = some (["res://a.br"], w') ∧
      (Reloading.one 0).Writes .standard true w (.inst 0 (w.values 0)) u ∧
      Live.renew .standard 0 (Live.namedCells (w.values 0)) u = some ((), fresh) ∧
      (w.value? 0 "x").bind Value.int? = some 7 ∧ (w'.member? 0 2).bind Value.int? = some 7 ∧
      w'.member? 0 0 = fresh.member? 0 0 ∧ (fresh.member? 0 0).bind Value.int? = some 3 := by
  obtain ⟨w, run, hcached, hfiles, hfamily, hplain, hlive, husable, ⟨x, hvalue, hint⟩, hnew,
    htested, w', hrun, hthree, hplain', hlayered, hvalid, ⟨first, hnamed, hplace'⟩, slot, hslot,
    hplace, hlenient⟩ :
      ∃ w, Live.serve reordered host = some ((), w) ∧ w.cache.find? "res://a.br" = some 0 ∧
      (Reloading.one 0).files w = [("res://a.br", 0)] ∧ w.family 0 = [0] ∧ w.Plain 0 ∧
      w.liveInstances 0 = [0] ∧ w.isUsable 0 ∧ (∃ x, w.value? 0 "x" = some x ∧ x.int? = some 7) ∧
      (w.value? 0 "z").isNone ∧
      ((Reloading.one 0).run (.tested (ownMembers 0) 0x100000000) w).isSome ∧
      ∃ w', (Reloading.one 0).run .standard w = some (["res://a.br"], w') ∧
        (w'.member? 0 0).bind Value.int? = some 3 ∧ w'.Plain 0 ∧ w'.Layered 0 ∧
        (w'.script 0).isValid ∧ (∃ slot, w'.slot? 0 "z" = some slot ∧ slot.index = 0) ∧
        ∃ slot, w'.slot? 0 "x" = some slot ∧ slot.index = 2 ∧
          slot.type.provenance.isEnforced = false := by
    decide +kernel
  have hreached : w.Reached := reached_host.serve (by simp [reordered]) run
  have hstep : w'.InStep 0 := hlayered.inStep
  obtain ⟨u, fresh, hu, hfresh, hkept, hrest⟩ := hreached.reloaded_members
    (hfiles ▸ List.mem_singleton.2 rfl) hcached (plain_of_single hfiles hfamily hplain hplain') hrun
    (List.mem_singleton.2 rfl) (watched_of_ownMembers htested) (hfamily ▸ List.mem_singleton.2 rfl)
    (hlive ▸ List.mem_singleton.2 rfl) husable hstep
  have hfirst : w'.member? 0 0 = fresh.member? 0 0 := hrest 0 fun name other hother hindex => ?_
  refine ⟨w, w', u, fresh, run, hrun, hu, hfresh, hvalue ▸ hint, ?_, hfirst, hfirst ▸ hthree⟩
  · obtain ⟨k, -, hwritten⟩ := hkept "x" slot x hslot hvalue
    rw [← hplace, written_of_lenient hlenient hwritten]
    exact hint
  · -- no other name leads to the first place
    have hreached' : w'.Reached := by
      refine Reloading.reached hreached (fun f hf => ?_) hrun
      rw [hfiles, List.mem_singleton] at hf
      exact hf ▸ hcached
    obtain ⟨hname, -⟩ := (hreached'.sound.1.slot?_unique hvalid hstep hother hnamed).2
      (hindex.trans hplace'.symm)
    exact hname ▸ Option.isNone_iff_eq_none.1 hnew

def coveredPrograms : List (String × Program) :=
  [("base", fileWith none [.number 0 "y" false 1] [] 2),
    ("derived", fileWith (some "res://b.br") [] [] 0),
    ("broken", fileWith none [.number 0 "w" false 2, .function 2 "f" false
      [.giveBack (.numbered 3) (some (.ident (.numbered 4) "nowhere"))]] [] 5),
    ("covering", fileWith (some "res://b.br") [.number 0 "y" false 3] [] 2)]

/-- The second file is loaded, an instance made and the variable of the first written. The first
file, read again, has another variable but cannot be compiled; the script of the second is to be
compiled from a text with a variable of that name. -/
def covered : List Request :=
  [.texts [("res://b.br", "base"), ("res://d.br", "derived")] coveredPrograms,
    .load "res://d.br" false, .newObject 0 [], .setMember 0 "y" (.int 7),
    .texts [("res://b.br", "broken"), ("res://d.br", "derived")] coveredPrograms,
    .load "res://b.br" true, .setSource 0 (.text "covering")]

/-- The reload succeeds, and the chain has two variables of the name then. The old value fits both,
but the one of the first file is initialized afresh. -/
theorem covered_reloaded_members :
    ∃ w w' slot, Live.serve covered host = some ((), w) ∧ w.Reached ∧
      w.cache.find? "res://d.br" = some 0 ∧ (Reloading.one 0).files w = [("res://d.br", 0)] ∧
      (∀ s ∈ w.family 0, w.Plain s ∧ w'.Plain s) ∧
      (Reloading.one 0).run .standard w = some (["res://d.br"], w') ∧
      ((Reloading.one 0).run (.supervised (.members 0)) w).isSome ∧
      0 ∈ w.family 0 ∧ 0 ∈ w.liveInstances 0 ∧ w.isUsable 0 ∧ w'.InStep 0 ∧
      (w.value? 0 "y").bind Value.int? = some 7 ∧ slot ∈ w'.slots 0 ∧ slot.name = "y" ∧
      slot.type.provenance.isEnforced = false ∧
      (w'.member? 0 slot.index).bind Value.int? = some 1 := by
  obtain ⟨w, run, hcached, hfiles, hfamily, hplain, hlive, husable, hseven, htested, w', hrun,
    hplain', hlayered, slot, hmem, hname, hlenient, hone⟩ : ∃ w,
    Live.serve covered host = some ((), w) ∧
      w.cache.find? "res://d.br" = some 0 ∧ (Reloading.one 0).files w = [("res://d.br", 0)] ∧
      w.family 0 = [0] ∧ w.Plain 0 ∧ w.liveInstances 0 = [0] ∧ w.isUsable 0 ∧
      (w.value? 0 "y").bind Value.int? = some 7 ∧
      ((Reloading.one 0).run (.tested (ownMembers 0) 0x100000000) w).isSome ∧
      ∃ w', (Reloading.one 0).run .standard w = some (["res://d.br"], w') ∧ w'.Plain 0 ∧
        w'.Layered 0 ∧ ∃ slot ∈ w'.slots 0, slot.name = "y" ∧
          slot.type.provenance.isEnforced = false ∧
          (w'.member? 0 slot.index).bind Value.int? = some 1 := by
    decide +kernel
  have hreached : w.Reached := reached_host.serve (by simp [covered, coveredPrograms]) run
  refine ⟨w, w', slot, run, hreached, hcached, hfiles, fun s hs => ?_, hrun, watched_of_ownMembers
    htested, hfamily ▸ List.mem_singleton.2 rfl, hlive ▸ List.mem_singleton.2 rfl, husable,
    hlayered.inStep, hseven,
    hmem, hname, hlenient, hone⟩
  rw [hfamily, List.mem_singleton] at hs
  exact hs ▸ ⟨hplain, hplain'⟩

end World

end HotScript
