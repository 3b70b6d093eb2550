import HotScript.Proofs.Live.Reloading

/-!
Static variables and reloads.

The value of a static variable is written back under the name of its class and its own name. A class
that no longer declares the variable may have a base that declares one of that name, and then the
value ends up there.
-/

namespace HotScript

/-- Static variables of the classes of a file are left alone, except by static functions of the
file. -/
def Rule.statics (path : String) : Rule := fun s _ bound w w' =>
  (bound = none ∧ (w.script s).path = path) ∨
    ∀ t, w.ClassOf path t → (w'.script t).statics = (w.script t).statics

theorem Runner.bears_statics {rule : Rule} {path : String} (hrule : rule.Refines (.statics path))
    (T : ScriptId → Prop) :
    (supervised rule).Bears (World.sparing (· = path) T fun _ => False) := by
  refine bears_watched (B := World.sparing (· = path) T fun _ => False)
    (fun hfixed hfree hrun => ?_) _
  refine ⟨hfixed, fun hcovers => ⟨fun t ht => ?_, nofun⟩⟩
  exact (hrule hrun).resolve_left (fun hown => hfree hown.2) t (hcovers t ht)

namespace World

/-- The value of a static variable that a class of a file had leads to a place in the storage of a
class: the class that has the name of the first one now, or the nearest of its bases that declares a
static variable of the name, has it there. -/
def LeadsTo (w w' : World) (head u : ScriptId) (name : String) (t : ScriptId) (index : Nat) :
    Prop :=
  u ∈ w.family head ∧ name ∈ (w.savedStatics u).map (·.1) ∧
    ∃ s slot, w'.findClass? head (w.script u).qualified = some s ∧
      w'.staticSlot? s name = some (t, slot) ∧ slot.index = index

theorem Enrolled.savedStatics_unique {w : World} (he : w.Enrolled) {s : ScriptId} {name : String}
    {x y : Value} (hx : (name, x) ∈ w.savedStatics s) (hy : (name, y) ∈ w.savedStatics s) :
    x = y := by
  cases hcode : (w.script s).code with
  | none =>
    rw [savedStatics, hcode] at hx
    cases hx
  | some c =>
    rw [savedStatics, hcode] at hx hy
    obtain ⟨slot, hslot, hx⟩ := List.mem_filterMap.1 hx
    obtain ⟨slot', hslot', hy⟩ := List.mem_filterMap.1 hy
    obtain ⟨_, hvalue, heq⟩ := Option.map_eq_some_iff.1 hx
    obtain ⟨_, hvalue', heq'⟩ := Option.map_eq_some_iff.1 hy
    obtain ⟨hname, rfl⟩ := Prod.mk.inj heq
    obtain ⟨hname', rfl⟩ := Prod.mk.inj heq'
    have hkeyed := (he.keyed s c hcode).2
    have hfind := hkeyed.find?_of_mem ((orderBy_perm ..).mem_iff.1 hslot)
    have hfind' := hkeyed.find?_of_mem ((orderBy_perm ..).mem_iff.1 hslot')
    rw [hname] at hfind
    rw [hname', hfind] at hfind'
    cases hfind'
    exact Option.some.inj (hvalue.symm.trans hvalue')

end World

namespace Live

open World

variable {rule : Rule} {path : String} {w w' : World} (hrule : rule.Refines (.statics path))
include hrule

variable {t head : ScriptId} {keep : Bool} {call : Reloading} {done : List String}
  {batch : List Prepared}

theorem entry_statics {i : InstanceId} {values : List (String × Value)} {u : Unit}
    (hi : Writable (· = path) w s i) (ht : w.ClassOf path t)
    (h : (SavedEntry.inst i values).restore (.supervised rule) w = some (u, w')) :
    (w'.script t).statics = (w.script t).statics := by
  have hsteady := Runner.steady_watched (· = path) rule 0x100000000
  have hleads : (World.sparing (· = path) (· = t) fun _ => False).Leads w w' := by
    refine entry_leads hsteady (fun hv hrun => ?_) (fun v f => ?_) hi h
    · have hfixed := (hsteady.run (fun hC => hC.execute _ _ _ _) hv hrun).2.fixed
      refine ⟨hfixed, fun hcovers => ⟨fun x hx => ?_, nofun⟩⟩
      exact (hrule (Runner.allowed_of_watched hrun)).resolve_left (fun hown => nomatch hown.1)
        x (hcovers x hx)
    · exact ⟨.still (stillness.inst v i _ fun _ => rfl), fun _ => ⟨fun _ _ => rfl, nofun⟩⟩
  refine (hleads.2 ?_).statics t rfl
  rintro _ rfl
  exact ht

/-- What comes of a static variable of a file in use when the state of files is written back: one of
the values that lead to it, fitted when its turn came, or what it had. -/
theorem Round.settles_static (h : Round (.supervised rule) keep call done batch w v v' w')
    (hplain : ∀ f ∈ call.files w, ∀ s ∈ w.family f.2, w'.Plain s) (hpresent : v'.Present path)
    (ht : v'.ClassOf path t) {index : Nat} {slot : Slot}
    (hslot : w'.staticAt? t index = some slot) :
    Settles
      (fun type x k => type = slot.type ∧ ∃ p ∈ batch, ∃ u name, w.LeadsTo w' p.script u name
        t index ∧ (name, x) ∈ w.savedStatics u ∧
        ∃ s, w'.findClass? p.script (w.script u).qualified = some s ∧
          call.Writes .standard keep w (.static s name x) k)
      (v'.script t).statics[index]? (w'.script t).statics[index]? := by
  obtain ⟨hv', hw', hsteady⟩ := h.settled
  have hused : v'.Present (v'.script t).path := ht.2.symm ▸ hpresent
  have hsub (p : String) (hp : p = path) : v'.Present p := hp ▸ hpresent
  rw [hsteady.staticAt? ht.1 hused] at hslot
  refine (Restoring.settles_static (h.steady _) hv' ht.1 hused hslot
    (fun _ _ _ => h.static_used)
    (fun i values hmem v1 v2 hv1 hsince hrun => ?_) h.restored).mono ?_ ?_
  · obtain ⟨-, s, hi⟩ := h.writable_of_mem hplain hmem
    have ht1 : v1.ClassOf path t :=
      ⟨Nat.lt_of_lt_of_le ht.1 hsince.fixed.size, (hsince.fixed.script t ht.1 hused).path.trans
        ht.2⟩
    exact entry_statics hrule ((hi.steady hv1 hsince).mono hsub) ht1 hrun
  · rintro type x k ⟨htype, s, name, found, hmem, hk, hfound, hindex⟩
    obtain ⟨p, hp, hmem⟩ := List.mem_flatMap.1 hmem
    obtain ⟨u, hu, hfind, hvalue⟩ := (Prepared.static_mem_entries (h.saved p hp).2).1 hmem
    exact ⟨htype, p, hp, u, name, ⟨hu, List.mem_map_of_mem hvalue, s, found, hfind, hfound, hindex⟩,
      hvalue, s, hfind, hk.mono (Runner.below_standard rule)⟩
  · rintro type x k ⟨htype, p, hp, u, name, ⟨hu, -, s, found, hfind, hfound, hindex⟩, hvalue, -⟩
    have hmem : .static s name x ∈ batch.flatMap (Prepared.entries w') :=
      List.mem_flatMap.2 ⟨p, hp,
        (Prepared.static_mem_entries (h.saved p hp).2).2 ⟨u, hu, hfind, hvalue⟩⟩
    obtain ⟨k', hk'⟩ := h.restored.met hmem
    exact ⟨k', htype, s, name, found, hmem, hk', hfound, hindex⟩

omit hrule in
/-- A file that was reloaded was compiled at some time. Its classes and, until state is written
back, its static variables are as that left them. -/
theorem Round.made (h : Round (.supervised (.statics path)) keep call done batch w v v' w')
    (hhead : w.cache.find? path = some head) (hdone : path ∈ done) :
    v'.Present path ∧ ∃ p ∈ batch, p.script = head ∧ p.path = path ∧
      ∃ u made, call.Compiles .standard keep w p u ∧
        recompile .standard head u = some (.ok (), made) ∧ made.Fixed (· = path) w' ∧
        ∀ t ∈ w'.family head, v'.ClassOf path t ∧
        (v'.script t).statics = (made.script t).statics := by
  have hk := h.steady fun _ => False
  obtain ⟨-, -, hsteady⟩ := h.settled
  obtain ⟨p, hp, rfl, u, made, batch', done', hu, hmake, hmade, hmadeHead, hrest, hnot, hfind⟩ :=
    h.compiled.made (fun _ => h.find?) hk.toOrderly h.sound (h.poised.enrolled h.enrolled)
      h.nodup hdone
  obtain rfl : p.script = head := Option.some.inj ((h.cached _ (h.saved p hp).1).symm.trans hhead)
  -- after that only other files were compiled, and what they run leaves the file alone
  obtain ⟨hfixed, hspares⟩ := hrest.leads hfind
    (Runner.bears_statics (fun hrun => hrun) fun t => made.ClassOf p.path t) hmade fun q hq hqp =>
    hnot (hqp ▸ hq)
  have hspares := hspares fun t ht => ht
  obtain ⟨s, hs, hvalid⟩ := hmade.inUse p.path rfl
  obtain rfl : s = p.script := Option.some.inj (hs.symm.trans hmadeHead)
  obtain ⟨hlt, hpath, -⟩ := hmade.sound.cached _ _ hmadeHead
  have hsame := hfixed.script p.script hlt hpath
  have hpresent : v'.Present p.path := by
    obtain ⟨-, -, hkept, -⟩ := hrest.keeps hfind hk.toOrderly hmade.sound
    exact ⟨p.script, hkept.cached _ _ hmadeHead, hsame.isValid.trans hvalid⟩
  have hlater := hfixed.trans (hsteady.fixed.mono fun q hq => hq ▸ hpresent)
  refine ⟨hpresent, p, hp, rfl, rfl, u, made, hu.mono (Runner.below_standard _),
    (follows_recompile (Runner.below_standard _) _).same hmake, hlater, fun t ht => ?_⟩
  rw [hlater.family hlt hpath] at ht
  obtain ⟨htlt, htpath⟩ := hmade.sound.family hlt ht
  have hclass : made.ClassOf p.path t := ⟨htlt, htpath.trans hpath⟩
  refine ⟨⟨Nat.lt_of_lt_of_le htlt hfixed.size, ?_⟩, hspares.statics t hclass⟩
  exact (hfixed.script t htlt hclass.2).path.trans hclass.2

end Live

namespace World

variable {w : World}

theorem Enrolled.staticSlot?_of_staticAt? (he : w.Enrolled) {t : ScriptId} (ht : t < w.scripts.size)
    {index : Nat} {slot : Slot} (h : w.staticAt? t index = some slot) :
    w.staticSlot? t slot.name = some (t, slot) ∧ slot.index = index := by
  obtain ⟨c, hc, hfind⟩ := Option.bind_eq_some_iff.1 h
  have hown := (he.keyed t c hc).2.find?_of_mem (List.mem_of_find?_eq_some hfind)
  refine ⟨?_, beq_iff_eq.1 (List.find?_some hfind :)⟩
  rw [staticSlot?, codeChain, chain]
  cases hsize : w.scripts.size with
  | zero => exact absurd (hsize ▸ ht) (Nat.not_lt_zero t)
  | succ n => simp [chainFrom, hc, hown]

/-- **Static variables survive a reload by class and name.** When its turn came the file was
compiled, which gave them the values of their initializers. In the end one to which nothing but its
own old value leads has that value, fitted to its type when it was written back, or if it was
refused then that of the initializer, as has one to which no old value leads. -/
theorem Reached.reloaded_statics {w w' : World} (hw : w.Reached) {call : Reloading} {path : String}
    {head : ScriptId} {done : List String} (hfile : (path, head) ∈ call.files w)
    (hhead : w.cache.find? path = some head)
    (hplain : ∀ f ∈ call.files w, ∀ s ∈ w.family f.2, w.Plain s ∧ w'.Plain s)
    (h : call.run .standard w = some (done, w')) (hdone : path ∈ done)
    (hwatched : (call.run (.supervised (.statics path)) w).isSome) :
    ∃ p u made, p.path = path ∧ call.Compiles .standard true w p u ∧
      Live.recompile .standard head u = some (.ok (), made) ∧ made.Fixed (· = path) w' ∧
      ∀ t ∈ w'.family head, ∀ index slot, w'.staticAt? t index = some slot →
        (∀ old ∈ w.family head, ∀ x, w'.findClass? head (w.script old).qualified = some t →
          (slot.name, x) ∈ w.savedStatics old →
          (∀ f ∈ call.files w, ∀ other name, w.LeadsTo w' f.2 other name t index →
            other = old ∧ name = slot.name) →
          ∃ k, call.Writes .standard true w (.static t slot.name x) k ∧
            ((∃ y, k.fitted slot.type x = some y ∧ (w'.script t).statics[index]? = some y) ∨
              k.fitted slot.type x = none ∧
                (w'.script t).statics[index]? = (made.script t).statics[index]?)) ∧
        ((∀ f ∈ call.files w, ∀ other name, ¬w.LeadsTo w' f.2 other name t index) →
          (w'.script t).statics[index]? = (made.script t).statics[index]?) := by
  have hrun := (call.below_run (Runner.below_standard _)).eq_some hwatched h
  obtain ⟨batch, v, v', hround⟩ := Reloading.round (fun _ => Runner.steady_watched ..)
    hw.sound.1 hw.enrolled hfile hhead (fun f hf s hs => (hplain f hf s hs).1) hrun hdone
  obtain ⟨-, hw', hsteady⟩ := hround.settled
  obtain ⟨hpresent, p, hp, rfl, hpath, u, made, hu, hmake, hfixed, hmade⟩ := hround.made hhead hdone
  refine ⟨p, u, made, hpath, hu, hmake, hfixed, fun t ht index slot hslot => ?_⟩
  obtain ⟨hclass, hstatics⟩ := hmade t ht
  have hsettles := hround.settles_static (fun hrun => hrun)
    (fun f hf s hs => (hplain f hf s hs).2) hpresent hclass hslot
  rw [hstatics] at hsettles
  refine ⟨fun old hold x hfound hvalue honly => ?_, fun hnone => ?_⟩
  · obtain ⟨hown, hindex⟩ := hw'.enrolled.staticSlot?_of_staticAt?
      (Nat.lt_of_lt_of_le hclass.1 hsteady.fixed.size) hslot
    have hlands : w.LeadsTo w' p.script old slot.name t index :=
      ⟨hold, List.mem_map_of_mem hvalue, t, slot, hfound, hown, hindex⟩
    obtain ⟨k, hk⟩ := hround.restored.met (List.mem_flatMap.2 ⟨p, hp,
      (Prepared.static_mem_entries (hround.saved p hp).2).2 ⟨old, hold, hfound, hvalue⟩⟩)
    have hlanded := hsettles.of_only ⟨rfl, p, hp, old, slot.name, hlands, hvalue, t, hfound,
        hk.mono (Runner.below_standard _)⟩ (by
      rintro type' x' k' ⟨rfl, q, hq, other, name, hleads, hvalue', -⟩
      obtain ⟨rfl, rfl⟩ := honly _ (hround.saved q hq).1 other name hleads
      exact ⟨rfl, hw.enrolled.savedStatics_unique hvalue' hvalue⟩)
    obtain ⟨k', ⟨-, q, hq, other, name, hleads, -, s, hs, hwrites⟩, hcomes⟩ := hlanded
    -- the class that had it is in one file only, so that there is one class that gets it
    obtain ⟨rfl, rfl⟩ := honly _ (hround.saved q hq).1 other name hleads
    have hsame : q.script = p.script :=
      hw.sound.1.family_disjoint (hround.cached _ (hround.saved q hq).1) hhead hleads.1 hold
    rw [hsame, hfound] at hs
    cases hs
    exact ⟨k', hwrites, hcomes⟩
  · refine hsettles.eq_of_none ?_
    rintro type x k ⟨-, q, hq, other, name, hleads, -⟩
    exact hnone _ (hround.saved q hq).1 other name hleads

/-! ### Files with static variables -/

/-- Static functions of a file are run and nothing else. -/
def staticsOf (path : String) (s : ScriptId) (_ : FunctionCode) (bound : Option InstanceId)
    (w _ : World) : Bool :=
  bound.isNone && (w.script s).path == path

theorem watched_of_staticsOf {call : Reloading} {path : String}
    (h : (call.run (.tested (staticsOf path) 0x100000000) w).isSome) :
    (call.run (.supervised (.statics path)) w).isSome := by
  refine Reloading.watched_of_tested (fun s f bound v v' htest => .inl ?_) h
  simpa [staticsOf] using htest

/-- A file with a static variable is loaded, and then its script is to be compiled from a text in
which the variable starts with another number and there is one more. -/
def recounted : List Request :=
  [.texts [("res://a.br", "one")]
      [("one", fileWith none [.number 0 "n" true 1] [] 2),
        ("two", fileWith none [.number 0 "m" true 3, .number 2 "n" true 2] [] 4)],
    .load "res://a.br" false, .setSource 0 (.text "two")]

/-- After the reload the variable has its old value at its new place, and the other one the 3 of its
initializer. -/
theorem recounted_reloaded_statics :
    ∃ w w' p u made, Live.serve recounted host = some ((), w) ∧
      (Reloading.one 0).run .standard w = some (["res://a.br"], w') ∧
      (Reloading.one 0).Compiles .standard true w p u ∧
      Live.recompile .standard 0 u = some (.ok (), made) ∧
      (w.script 0).statics[0]?.bind Value.int? = some 1 ∧
      (w'.script 0).statics[1]?.bind Value.int? = some 1 ∧
      (w'.script 0).statics[0]? = (made.script 0).statics[0]? ∧
      (made.script 0).statics[0]?.bind Value.int? = some 3 := by
  obtain ⟨w, run, hcached, hfiles, hfamily, hplain, hnames, ⟨⟨name, x⟩, hsaved, rfl, hint⟩, hone,
    htested, w', hrun, hthree, hfamily', hplain', hfound, ⟨level, found, hlevel, hindex⟩, hfirst,
    slot, hslot, hname,
    hlenient⟩ :
      ∃ w, Live.serve recounted host = some ((), w) ∧ w.cache.find? "res://a.br" = some 0 ∧
      (Reloading.one 0).files w = [("res://a.br", 0)] ∧ w.family 0 = [0] ∧ w.Plain 0 ∧
      (w.savedStatics 0).map (·.1) = ["n"] ∧ (∃ e ∈ w.savedStatics 0, e.1 = "n" ∧
        e.2.int? = some 1) ∧
      (w.script 0).statics[0]?.bind Value.int? = some 1 ∧
      ((Reloading.one 0).run (.tested (staticsOf "res://a.br") 0x100000000) w).isSome ∧
      ∃ w', (Reloading.one 0).run .standard w = some (["res://a.br"], w') ∧
        (w'.script 0).statics[0]?.bind Value.int? = some 3 ∧ w'.family 0 = [0] ∧
        w'.Plain 0 ∧ w'.findClass? 0 (w.script 0).qualified = some 0 ∧
        (∃ level found, w'.staticSlot? 0 "n" = some (level, found) ∧ found.index = 1) ∧
        (w'.staticAt? 0 0).isSome ∧
        ∃ slot, w'.staticAt? 0 1 = some slot ∧ slot.name = "n" ∧
          slot.type.provenance.isEnforced = false := by
    decide +kernel
  obtain ⟨other, hother⟩ := Option.isSome_iff_exists.1 hfirst
  have hreached : w.Reached := reached_host.serve (by simp [recounted]) run
  -- the old value leads to the second place and to no other
  have hleads {f : String × ScriptId} (hf : f ∈ (Reloading.one 0).files w) {old t : ScriptId}
      {name : String} {index : Nat} (h : w.LeadsTo w' f.2 old name t index) : old = 0 ∧ name = "n" ∧
        index = 1 := by
    rw [hfiles, List.mem_singleton] at hf
    rw [hf] at h
    obtain ⟨hold, hmem, s, place, hs, hplace, rfl⟩ := h
    rw [hfamily, List.mem_singleton] at hold
    subst hold
    rw [hnames, List.mem_singleton] at hmem
    subst hmem
    cases hfound.symm.trans hs
    cases hlevel.symm.trans hplace
    exact ⟨rfl, rfl, hindex⟩
  obtain ⟨p, u, made, -, hu, hmake, -, hstatics⟩ := hreached.reloaded_statics
    (hfiles ▸ List.mem_singleton.2 rfl) hcached (plain_of_single hfiles hfamily hplain hplain') hrun
    (List.mem_singleton.2 rfl) (watched_of_staticsOf htested)
  have hzero : 0 ∈ w'.family 0 := hfamily' ▸ List.mem_singleton.2 rfl
  have hfresh : (w'.script 0).statics[0]? = (made.script 0).statics[0]? := by
    refine (hstatics 0 hzero 0 other hother).2 fun f hf old name hold => ?_
    cases (hleads hf hold).2.2
  refine ⟨w, w', p, u, made, run, hrun, hu, hmake, hone, ?_, hfresh, hfresh ▸ hthree⟩
  obtain ⟨k, -, hwritten⟩ :=
    (hstatics 0 hzero 1 slot hslot).1 0 (hfamily ▸ List.mem_singleton.2 rfl) x
    hfound (hname.symm ▸ hsaved) fun f hf old name hold =>
      ⟨(hleads hf hold).1, (hleads hf hold).2.1.trans hname.symm⟩
  rw [written_of_lenient hlenient hwritten]
  exact hint

/-- A file has two classes with static variables of one name. In the text that its script is then to
be compiled from, the second class extends the first and declares none. -/
def inherited : List Request :=
  [.texts [("res://a.br", "one")]
      [("one", fileWith none [] [("A", none, [.number 0 "s" true 1]),
        ("B", none, [.number 2 "s" true 5])] 4),
        ("two", fileWith none [] [("A", none, [.number 0 "s" true 1]), ("B", some "A", [])] 2)],
    .load "res://a.br" false, .setSource 0 (.text "two")]

/-- The reload succeeds, and both versions of the first class declare the variable. Its old value
fits, but in the end the variable has the value that the second class had. -/
theorem inherited_reloaded_statics :
    ∃ w w' slot, Live.serve inherited host = some ((), w) ∧ w.Reached ∧
      w.cache.find? "res://a.br" = some 0 ∧ (Reloading.one 0).files w = [("res://a.br", 0)] ∧
      (∀ s ∈ w.family 0, w.Plain s ∧ w'.Plain s) ∧
      (Reloading.one 0).run .standard w = some (["res://a.br"], w') ∧
      ((Reloading.one 0).run (.supervised (.statics "res://a.br")) w).isSome ∧
      1 ∈ w.family 0 ∧ 1 ∈ w'.family 0 ∧ w'.findClass? 0 (w.script 1).qualified = some 1 ∧
      w'.staticAt? 1 0 = some slot ∧ slot.name = "s" ∧ slot.type.provenance.isEnforced = false ∧
      (w.savedStatics 1).map (fun e => (e.1, e.2.int?)) = [("s", some 1)] ∧
      (w'.script 1).statics[0]?.bind Value.int? = some 5 := by
  obtain ⟨w, run, hcached, hfiles, hfamily, hvalue, htested, w', hrun, hfamily', hplain, hfound,
    hfive, slot, hslot, hname, hlenient⟩ : ∃ w, Live.serve inherited host = some ((), w) ∧
      w.cache.find? "res://a.br" = some 0 ∧ (Reloading.one 0).files w = [("res://a.br", 0)] ∧
      1 ∈ w.family 0 ∧ (w.savedStatics 1).map (fun e => (e.1, e.2.int?)) = [("s", some 1)] ∧
      ((Reloading.one 0).run (.tested (staticsOf "res://a.br") 0x100000000) w).isSome ∧
      ∃ w', (Reloading.one 0).run .standard w = some (["res://a.br"], w') ∧ 1 ∈ w'.family 0 ∧
        (∀ s ∈ w.family 0, w.Plain s ∧ w'.Plain s) ∧
        w'.findClass? 0 (w.script 1).qualified = some 1 ∧
        (w'.script 1).statics[0]?.bind Value.int? = some 5 ∧ ∃ slot, w'.staticAt? 1 0 = some slot ∧
          slot.name = "s" ∧ slot.type.provenance.isEnforced = false := by
    decide +kernel
  have hreached : w.Reached := reached_host.serve (by simp [inherited]) run
  exact ⟨w, w', slot, run, hreached, hcached, hfiles, hplain, hrun, watched_of_staticsOf htested,
    hfamily, hfamily', hfound, hslot, hname, hlenient, hvalue, hfive⟩

end World

end HotScript
