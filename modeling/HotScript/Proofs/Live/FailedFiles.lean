import HotScript.Proofs.Live.InstanceState
import HotScript.Proofs.Live.Reloads
import HotScript.Proofs.Live.StaticState

/-!
Files that fail among others.

When one of several files that are reloaded fails, its classes stay as they are. But its state was
saved by then and is written back all the same, and instances are initialized afresh before, so the
initializers of the file are run once more.
-/

namespace HotScript

/-- Static variables of a file are left alone, and instances too except from within. -/
def Rule.failing (path : String) (I : InstanceId → Prop) : Rule := fun s f bound w w' =>
  Rule.statics path s f bound w w' ∧ ∀ i, I i → Rule.members i s f bound w w'

namespace World

/-- Every place in the storage of an instance is that of a variable that its name leads to. -/
structure Laid (w : World) (i : InstanceId) : Prop where
  size : (w.inst i).members.size = ((w.script (w.inst i).script).code.map (·.memberCount)).getD 0
  named : ∀ index < (w.inst i).members.size, ∃ name slot,
    w.slot? (w.inst i).script name = some slot ∧ slot.index = index

end World

namespace Live.Round

open World

variable {rule : Rule} {path : String} {head t : ScriptId} {keep : Bool} {call : Reloading}
  {done : List String} {batch : List Prepared} {w v v' w' : World}
  (h : Round (.supervised rule) keep call done batch w v v' w')
include h

section

variable (hrule : rule.Refines (.statics path))
  (hhead : w.cache.find? path = some head) (hvalid : (w.script head).isValid) (hnot : path ∉ done)
include hrule hhead hvalid hnot

theorem unreplaced : v'.Present path ∧ ∀ t, w.ClassOf path t → v'.ClassOf path t ∧
    (w.script t).Alike (w'.script t) ∧ (v'.script t).statics = (w.script t).statics := by
  obtain ⟨-, -, hsteady⟩ := h.settled
  have hv : v.Settled (· = path) := by
    refine ⟨h.sound, h.poised.enrolled h.enrolled, ?_⟩
    rintro _ rfl
    refine ⟨head, (h.poised.find? _).trans hhead, ?_⟩
    rw [h.poised.script]
    exact hvalid
  obtain ⟨hfixed, hspares⟩ := h.compiled.leads (fun _ => h.find?)
    (Runner.bears_statics hrule (w.ClassOf path)) hv fun q hq hqp => hnot (hqp ▸ hq)
  have hclass (t : ScriptId) (ht : w.ClassOf path t) : v.ClassOf path t := by
    refine ⟨h.poised.size.symm ▸ ht.1, ?_⟩
    rw [h.poised.script]
    exact ht.2
  have hspares := hspares hclass
  have hpresent : v'.Present path := by
    have hk := h.steady fun _ => False
    obtain ⟨-, -, hkept, hstays⟩ := h.compiled.keeps (fun _ => h.find?) hk.toOrderly h.sound
    have hhead' := (h.poised.find? path).trans hhead
    refine ⟨head, hkept.cached _ _ hhead', hstays _ _ hhead' ?_⟩
    rw [h.poised.script]
    exact hvalid
  refine ⟨hpresent, fun t ht => ?_⟩
  obtain ⟨hlt, hpath⟩ := hclass t ht
  have hsame := hfixed.script t hlt hpath
  have hclass' : v'.ClassOf path t := ⟨Nat.lt_of_lt_of_le hlt hfixed.size, hsame.path.trans hpath⟩
  have hsame' := hsteady.fixed.script t hclass'.1 (hclass'.2.symm ▸ hpresent)
  refine ⟨hclass', ?_, ?_⟩
  · have hsource : (w.script t).Alike (v.script t) := by
      rw [h.poised.script]
      exact .refl _
    exact hsource.trans (hsame.trans hsame').alike
  · rw [hspares.statics t ht, h.poised.script]

/-- The static variables of a file that is not done have the values they had, where these fit when
they are written back and no others lead there. -/
theorem failed_statics (hplain : ∀ f ∈ call.files w, ∀ s ∈ w.family f.2, w'.Plain s)
    (ht : w.ClassOf path t)
    (honly : ∀ f ∈ call.files w, ∀ other name index, w.LeadsTo w' f.2 other name t index →
      other = t)
    (hfits : ∀ index slot x, w.staticAt? t index = some slot →
      (w.script t).statics[index]? = some x →
      ∀ s name k, call.Writes .standard keep w (.static s name x) k →
      k.fitted slot.type x = some x) :
    w'.savedStatics t = w.savedStatics t := by
  obtain ⟨hpresent, hclasses⟩ := h.unreplaced hrule hhead hvalid hnot
  obtain ⟨hclass, halike, hstatics⟩ := hclasses t ht
  rw [savedStatics, savedStatics, halike.code]
  cases hcode : (w.script t).code with
  | none => rfl
  | some c =>
  refine List.filterMap_congr fun own hown => congrArg (Option.map (own.name, ·)) ?_
  have hown : own ∈ c.statics.values := (orderBy_perm ..).mem_iff.1 hown
  obtain ⟨slot, hslot⟩ : ∃ slot, w.staticAt? t own.index = some slot := by
    rw [staticAt?, hcode]
    refine Option.isSome_iff_exists.1 (List.find?_isSome.2 ⟨own, hown, beq_self_eq_true _⟩)
  obtain ⟨x, hx⟩ : ∃ x, (w.script t).statics[own.index]? = some x :=
    ⟨_, Array.getElem?_eq_getElem (h.enrolled.stored t c hcode own hown)⟩
  have hslot' : w'.staticAt? t own.index = some slot := by
    rw [staticAt?, halike.code]
    exact hslot
  have hsettles := h.settles_static hrule hplain hpresent hclass hslot'
  rw [hstatics, hx] at hsettles
  rw [hx]
  refine hsettles.eq_of_fits ?_ (.inl rfl)
  rintro type y k ⟨rfl, p, hp, other, name, hleads, hvalue, s, -, hk⟩
  obtain rfl := honly _ (h.saved p hp).1 other name own.index hleads
  suffices hsame : y = x from ⟨hsame, hfits own.index slot x hslot hx s name k (hsame ▸ hk)⟩
  -- the value is that of the variable found under the name, and that has the place
  obtain ⟨-, -, s, found, -, hfound, hindex⟩ := hleads
  obtain ⟨c', ht', hfind⟩ := of_staticSlot? hfound
  have hcode' : (w'.script other).code = some c := halike.code.trans hcode
  obtain rfl : c' = c := Option.some.inj ((mem_codeChain.1 ht').2.symm.trans hcode')
  rw [savedStatics, hcode] at hvalue
  obtain ⟨slot', hmem, hy⟩ := List.mem_filterMap.1 hvalue
  obtain ⟨_, hstored, heq⟩ := Option.map_eq_some_iff.1 hy
  obtain ⟨hname, rfl⟩ := Prod.mk.inj heq
  have hfind' := (h.enrolled.keyed other c' hcode).2.find?_of_mem ((orderBy_perm ..).mem_iff.1 hmem)
  rw [hname, hfind] at hfind'
  cases hfind'
  rw [hindex, hx] at hstored
  exact (Option.some.inj hstored).symm

end

theorem slot?_unreplaced (hvalid : (w.script t).isValid)
    (hbases : ∀ base ∈ w.chain t, (w.script base).path ∉ done) (name : String) :
    w'.slot? t name = w.slot? t name := by
  have hk := h.steady fun _ => False
  obtain ⟨hv', -, hsteady⟩ := h.settled
  obtain ⟨-, henrols, hkept, -⟩ := h.compiled.keeps (fun _ => h.find?) hk.toOrderly h.sound
  have hvalid0 : (v.script t).isValid := by
    rw [h.poised.script]
    exact hvalid
  have hchain : v.chain t = w.chain t :=
    chain_congr h.poised.size (fun t => by rw [h.poised.script t]) t
  have hcarries : v.Carries t v' := by
    refine ⟨hkept.size, fun s hs =>
      (hkept.script s ?_ (h.sound.valid_of_mem_chain hvalid0 hs)).alike⟩
    rw [h.poised.script s]
    exact hbases s (hchain ▸ hs)
  rw [hsteady.kept.upholds.slot? hv'.sound (henrols.valid _ hvalid0), hcarries.slot? h.sound
    hvalid0, h.poised.slot?]

section

variable {i : InstanceId} (hrule : rule.Refines (.members i))
  (hplain : ∀ f ∈ call.files w, ∀ s ∈ w.family f.2, w'.Plain s)
  (hhead : w.cache.find? path = some head)
  {t : ScriptId} (ht : t ∈ w.family head) (hlive : i ∈ w.liveInstances t)
include hrule hplain hhead ht hlive

theorem unsaved_members (hbatch : ∀ p ∈ batch, p.script ≠ head) : w'.inst i = w.inst i := by
  obtain ⟨hv', -, -⟩ := h.settled
  have hhome := (h.enrolled.listed t i (List.mem_of_mem_filter hlive)).2.2
  have hstays : w'.inst i = v'.inst i := by
    refine Restoring.leads (B := staying v'.Present i) (h.steady _) hv'
      (fun entry hentry v1 v2 hv1 hsince hrun => ?_) h.restored
    refine entry_stays (h.steady v'.Present) (fun hne _ hrun => ?_) (fun values heq => ?_)
      (fun j values heq => ?_) hrun
    · exact (if_neg fun heq => hne (Option.some.inj heq)).mp
        (hrule (Runner.allowed_of_watched hrun))
    · obtain ⟨p, hp, hmem⟩ := List.mem_flatMap.1 (heq ▸ hentry)
      obtain ⟨hfile, hstate⟩ := h.saved p hp
      obtain ⟨-, s, hs, hlisted⟩ := Prepared.inst_mem_entries hstate hmem
      obtain rfl := (h.enrolled.listed s i hlisted).2.2.symm.trans hhome
      exact hbatch p hp (h.start.family_disjoint (h.cached _ hfile) hhead hs ht)
    · obtain ⟨-, s, hj⟩ := h.writable_of_mem hplain (heq ▸ hentry)
      exact ⟨s, hj.steady hv1 hsince⟩
  rw [hstays, h.inst_compiled fun hrun => hrule hrun]

/-- The variables of an instance of a file that is not done have the values they had, where these
fit when they are written back and the classes of its chain were not done either. -/
theorem failed_members (halike : (w.script t).Alike (w'.script t))
    (hbases : ∀ base ∈ w.chain t, (w.script base).path ∉ done) (husable : w.isUsable i)
    (hlaid : w.Laid i)
    (hfits : ∀ name slot x, w.slot? t name = some slot → w.member? i slot.index = some x →
      ∀ k, call.Puts .standard keep w i name x k → k.fitted slot.type x = some x) :
    (w'.inst i).members = (w.inst i).members := by
  by_cases hbatch : ∃ p ∈ batch, p.script = head
  swap
  · rw [h.unsaved_members hrule hplain hhead ht hlive fun p hp heq => hbatch ⟨p, hp, heq⟩]
  obtain ⟨p, hp, rfl⟩ := hbatch
  obtain ⟨hvalid, -, rfl⟩ := h.enrolled.listed t i (List.mem_of_mem_filter hlive)
  obtain ⟨-, u, fresh, hu, hfresh, hputs, -, hcount, hsettles⟩ :=
    h.settles_members hrule hplain hp ht hlive husable
  rw [halike.code, ← hlaid.size] at hcount
  have hslot := h.slot?_unreplaced hvalid hbases
  have hvalue {name : String} {slot : Slot} (hname : w.slot? (w.inst i).script name = some slot) :
      w.value? i name = w.member? i slot.index := by
    rw [World.value?, if_pos husable, hname, Option.bind_some]
  refine Array.ext_getElem? fun index => ?_
  rcases Nat.lt_or_ge index (w.inst i).members.size with hlt | hge
  · -- what is written to the place is what it had, and some name leads there
    obtain ⟨name, slot, hname, hplace⟩ := hlaid.named index hlt
    have hx : w.member? i index = some (w.inst i).members[index] := Array.getElem?_eq_getElem hlt
    generalize (w.inst i).members[index] = x at hx
    obtain ⟨k, hk⟩ := hputs name x ((mem_values h.enrolled).2 (by rw [hvalue hname, hplace, hx]))
    refine Eq.trans ((hsettles index (hcount ▸ hlt)).eq_of_fits (v := x)
      ?_ (.inr ⟨slot.type, k, name, slot, hk, (hslot name).trans hname, hplace, rfl⟩)) hx.symm
    rintro type y k' ⟨name', slot', hk', hname', hplace', rfl⟩
    rw [hslot] at hname'
    have hy := (mem_values h.enrolled).1 hk'.mem
    rw [hvalue hname', hplace', hx] at hy
    cases hy
    exact ⟨rfl, hfits name' slot' x hname' (hplace'.symm ▸ hx) k' ⟨_, u, fresh, hu, hfresh, hk'⟩⟩
  · rw [Array.getElem?_eq_none hge, Array.getElem?_eq_none (hcount ▸ hge)]

end

end Live.Round

namespace World

/-- **A file that fails among others keeps its state.** Its classes and lambdas are the same. The
static variables of a class have their values if these fit when they are written back and nothing
else leads to their places, and so have the variables of an instance if its storage is laid out by
name. -/
theorem Reached.failed_file {w w' : World} (hw : w.Reached) {paths : List String} {keep : Bool}
    {report : ReloadReport} {path : String} {fault : ReloadFault} {head : ScriptId}
    (h : Live.reloadFiles .standard paths keep w = some (report, w'))
    (hfailed : (path, fault) ∈ report.failed)
    (hhead : w.cache.find? path = some head) (hvalid : (w.script head).isValid)
    (hbases : ∀ t ∈ w.family head, ∀ base ∈ w.chain t, (w.script base).path ∉ report.reloaded)
    (hplain : ∀ f ∈ w.inReloadOrder (w.cache.affected paths), ∀ s ∈ w.family f.2, w.Plain s ∧
      w'.Plain s)
    (hwatched : (Live.reloadFiles (.supervised (.failing path (w.InstanceOf path)))
      paths keep w).isSome) :
    ∀ t ∈ w.family head, (w.script t).Alike (w'.script t) ∧
      w'.lambdaTable (w'.script t).lambdas = w.lambdaTable (w.script t).lambdas ∧
      ((∀ f ∈ w.inReloadOrder (w.cache.affected paths), ∀ other name index,
          w.LeadsTo w' f.2 other name t index → other = t) →
        (∀ index slot x, w.staticAt? t index = some slot → (w.script t).statics[index]? = some x →
          ∀ s name k, (Reloading.many paths).Writes .standard keep w (.static s name x) k →
            k.fitted slot.type x = some x) →
        w'.savedStatics t = w.savedStatics t) ∧
      ∀ i ∈ w.liveInstances t, w.isUsable i → w.Laid i →
        (∀ name slot x, w.slot? t name = some slot → w.member? i slot.index = some x →
          ∀ k, (Reloading.many paths).Puts .standard keep w i name x k →
            k.fitted slot.type x = some x) →
        (w'.inst i).members = (w.inst i).members := by
  have hrun := (Live.follows_reloadFiles (Runner.below_standard _) paths keep).eq_some hwatched h
  have hsound := hw.sound.1
  have hplain' := fun f hf s hs => (hplain f hf s hs).2
  obtain ⟨batch, v, v', hround⟩ := Live.round_reloadFiles (fun _ => Runner.steady_watched ..)
    hsound hw.enrolled (fun f hf s hs => (hplain f hf s hs).1) hrun
  have hnot : path ∉ report.reloaded := by
    obtain ⟨-, -, hsplit, -⟩ := Live.reloadFiles_some Runner.keeping_standard hsound h
    have hnodup := (hsplit.perm.trans (w.perm_inReloadOrder _)).nodup_iff.2
      ((w.cache.nodup_affected paths).filter _)
    exact fun hmem => (List.nodup_append.1 hnodup).2.2 path hmem path
      (List.mem_map.2 ⟨_, hfailed, rfl⟩) rfl
  intro t ht
  have hclass : w.ClassOf path t := by
    obtain ⟨hlt, hpath, -⟩ := hsound.cached _ _ hhead
    obtain ⟨htlt, htpath⟩ := hsound.family hlt ht
    exact ⟨htlt, htpath.trans hpath⟩
  obtain ⟨hclass', halike, -⟩ :=
    (hround.unreplaced (fun hrun => hrun.1) hhead hvalid hnot).2 t hclass
  refine ⟨halike, ?_, fun honly hfits => ?_, fun i hi husable hlaid hfits => ?_⟩
  · obtain ⟨events, hevents⟩ := (Live.follows_reloadFiles (J := World.evolution)
      Runner.evolving_standard paths keep).leads h
    obtain ⟨-, -, hsteady⟩ := hround.settled
    have hcurrent := (hevents.ownTables hw.ownTables).current t
      (Nat.lt_of_lt_of_le hclass'.1 hsteady.fixed.size)
    rw [hcurrent, hw.ownTables.current t hclass.1, halike.code]
  · exact hround.failed_statics (fun hrun => hrun.1) hhead hvalid hnot hplain' hclass honly hfits
  · exact hround.failed_members (fun hrun => hrun.2 i ⟨t, hclass, hi⟩) hplain' hhead ht hi halike
      (hbases t ht) husable hlaid hfits

/-! ### One file that fails -/

def sameNumbers (a b : Array Value) : Bool :=
  a.toList.map Value.int? == b.toList.map Value.int? && a.toList.all fun x => x.int?.isSome

theorem eq_of_sameNumbers {a b : Array Value} (h : sameNumbers a b = true) : b = a := by
  have hint {x y : Value} (hx : x.int?.isSome) (hxy : x.int? = y.int?) : x = y := by
    cases x with
    | int i =>
      cases y with
      | int j => exact congrArg Value.int (Option.some.inj hxy)
      | _ => cases hxy
    | _ => cases hx
  simp only [sameNumbers, Bool.and_eq_true, beq_iff_eq, List.all_eq_true] at h
  obtain ⟨hmap, hsome⟩ := h
  refine Array.toList_inj.1 (List.ext_getElem? fun n => ?_)
  have hn := congrArg (·[n]?) hmap
  simp only [List.getElem?_map] at hn
  cases hx : a.toList[n]? with
  | none =>
    rw [hx] at hn
    exact Option.map_eq_none_iff.1 hn.symm
  | some x =>
    rw [hx] at hn
    obtain ⟨y, hy, hxy⟩ := Option.map_eq_some_iff.1 hn.symm
    rw [hy, hint (hsome x (List.mem_of_getElem? hx)) hxy.symm]

/-- A function is run on an instance, changes the values of its variables at most, and leaves the
static variables of a file alone, which are numbers. -/
def ownState (path : String) (i : InstanceId) (s : ScriptId) (f : FunctionCode)
    (bound : Option InstanceId) (w w' : World) : Bool :=
  ownMembers i s f bound w w' && (List.range w.scripts.size).all fun t =>
    (w.script t).path != path || sameNumbers (w.script t).statics (w'.script t).statics

theorem failing_of_ownState {path : String} {i : InstanceId} {I : InstanceId → Prop}
    (hI : ∀ j, I j → j = i) {s : ScriptId} {f : FunctionCode} {bound : Option InstanceId}
    {w w' : World}
    (h : ownState path i s f bound w w' = true) : Rule.failing path I s f bound w w' := by
  simp only [ownState, Bool.and_eq_true, List.all_eq_true, List.mem_range, Bool.or_eq_true,
    bne_iff_ne] at h
  refine ⟨.inr fun t ht => ?_, fun j hj => hI j hj ▸ members_of_ownMembers h.1⟩
  exact eq_of_sameNumbers ((h.2 t ht.1).resolve_left fun hne => hne ht.2)

/-- A file with a static variable and a variable is loaded, an instance made and its variable
written. Then the file is rewritten to a text that is no program. -/
def rewritten : List Request :=
  [.texts [("res://a.br", "one")]
      [("one", fileWith none [.number 0 "n" true 1, .number 2 "x" false 2] [] 4)],
    .load "res://a.br" false, .newObject 0 [], .setMember 0 "x" (.int 7),
    .texts [("res://a.br", "broken")] []]

/-- The file fails, and both variables have what they had although the initializers were run
again. -/
theorem rewritten_failed_file :
    ∃ w w' report fault, Live.serve rewritten host = some ((), w) ∧
      Live.reloadFiles .standard ["res://a.br"] true w = some (report, w') ∧
      report.failed = [("res://a.br", fault)] ∧ (w.script 0).Alike (w'.script 0) ∧
      (w.savedStatics 0).map (fun e => (e.1, e.2.int?)) = [("n", some 1)] ∧
      w'.savedStatics 0 = w.savedStatics 0 ∧ (w.member? 0 0).bind Value.int? = some 7 ∧
      (w'.inst 0).members = (w.inst 0).members := by
  obtain ⟨w, run, hcached, haffected, hone, hfamily, hvalid, hplain, hlenient, hlenient', hvalue,
    hlive, husable, hhome, hsize, hcount, ⟨slot, hslot, hplace⟩, hseven, htested, report, w', hrun,
    hnone, hfailed, hplain'⟩ :
      ∃ w, Live.serve rewritten host = some ((), w) ∧ w.cache.find? "res://a.br" = some 0 ∧
      (w.cache.affected ["res://a.br"]).filterMap (fun p => (w.cache.find? p).map (p, ·)) =
        [("res://a.br", 0)] ∧ w.scripts.size = 1 ∧ w.family 0 = [0] ∧ (w.script 0).isValid ∧
          w.Plain 0 ∧
      (∀ slot ∈ w.slots 0, slot.type.provenance.isEnforced = false) ∧
      (∀ c ∈ (w.script 0).code, ∀ slot ∈ c.statics.values,
        slot.type.provenance.isEnforced = false) ∧
      (w.savedStatics 0).map (fun e => (e.1, e.2.int?)) = [("n", some 1)] ∧
      w.liveInstances 0 = [0] ∧
      w.isUsable 0 ∧ (w.inst 0).script = 0 ∧ (w.inst 0).members.size = 1 ∧
      (w.script 0).code.map (·.memberCount) = some 1 ∧ (∃ slot, w.slot? 0 "x" = some slot ∧
        slot.index = 0) ∧
      (w.member? 0 0).bind Value.int? = some 7 ∧
      (Live.reloadOrdered (.tested (ownState "res://a.br" 0) 0x100000000) ["res://a.br"] true
        [("res://a.br", 0)] w).isSome ∧
      ∃ report w', Live.reloadOrdered .standard ["res://a.br"] true [("res://a.br", 0)] w =
          some (report, w') ∧ report.reloaded = [] ∧ report.failed.map (·.1) = ["res://a.br"] ∧
        w'.Plain 0 := by
    decide +kernel
  obtain ⟨⟨path, fault⟩, hreport, rfl⟩ := List.map_eq_singleton_iff.1 hfailed
  have hreached : w.Reached := reached_host.serve (by simp [rewritten]) run
  have horder := Live.inReloadOrder_eq haffected (List.pairwise_singleton _ _)
  have hsingle (r : Runner) : Live.reloadFiles r ["res://a.br"] true w = _ :=
    Live.reloadFiles_eq_reloadOrdered horder
  have hwatched :
      (Live.reloadFiles (.supervised (.failing "res://a.br" (w.InstanceOf "res://a.br")))
      ["res://a.br"] true w).isSome := by
    refine (Live.follows_reloadFiles (Runner.below_watched ?_ _) _ _).isSome ((hsingle _) ▸ htested)
    refine fun s f bound v v' => failing_of_ownState ?_
    rintro i ⟨s, ⟨hs, -⟩, hi⟩
    obtain rfl : s = 0 := Nat.lt_one_iff.1 (hone ▸ hs)
    rw [hlive, List.mem_singleton] at hi
    exact hi
  have hstate := hreached.failed_file ((hsingle _).trans hrun)
    (hreport ▸ List.mem_singleton.2 rfl) hcached hvalid
    (fun t ht base hbase => hnone ▸ List.not_mem_nil)
    (plain_of_single horder hfamily hplain hplain') hwatched 0
    (hfamily ▸ List.mem_singleton.2 rfl)
  obtain ⟨halike, -, hstatics, hmembers⟩ := hstate
  refine ⟨w, w', report, fault, run, (hsingle _).trans hrun, hreport, halike, hvalue,
    hstatics (fun f hf other name index hleads => ?_) (fun index slot x hat _ _ _ k _ => ?_),
    hseven,
    hmembers 0 (hlive ▸ List.mem_singleton.2 rfl) husable ⟨?_, fun index hindex => ?_⟩
      fun name slot x hname _ k _ => ?_⟩
  · rw [horder, List.mem_singleton] at hf
    have hother := hleads.1
    rw [hf, hfamily, List.mem_singleton] at hother
    exact hother
  · obtain ⟨c, hc, hfind⟩ := Option.bind_eq_some_iff.1 hat
    exact fitted_of_lenient (hlenient' c hc slot (List.mem_of_find?_eq_some hfind)) k x
  · rw [hhome, hcount]
    exact hsize
  · obtain rfl : index = 0 := Nat.lt_one_iff.1 (hsize ▸ hindex)
    exact ⟨"x", slot, hhome.symm ▸ hslot, hplace⟩
  · obtain ⟨t, c, ht, hfind⟩ := of_slot? hname
    exact fitted_of_lenient
      (hlenient slot (mem_slots.2 ⟨t, c, ht, Table.mem_values_of_find? hfind⟩)) k x

/-- A file with a static variable and a function that counts it up, with which the variable of every
instance starts. It is loaded, an instance made, and then it is rewritten to a text that is no
program. -/
def counted : List Request :=
  [.texts [("res://a.br", "one")]
      [("one", fileWith none
          [.number 0 "n" true 0, .function 2 "next" true
              [.expr (.numbered 3) (.assign (.numbered 4) (some .add) (.ident (.numbered 5) "n")
                  (.literal (.numbered 6) (.int 1))),
                .giveBack (.numbered 7) (some (.ident (.numbered 8) "n"))],
            .variable 9 "id" false
              (some (.call (.numbered 10) (.ident (.numbered 11) "next") [] false)) none]
          [] 12)],
    .load "res://a.br" false, .newObject 0 [], .texts [("res://a.br", "broken")] []]

/-- The file fails, and no base of its class was reloaded. But the initializer of the variable was
run once more and counted the static variable up. -/
theorem counted_failed_file :
    ∃ w w' report fault, Live.serve counted host = some ((), w) ∧ w.Reached ∧
      Live.reloadFiles .standard ["res://a.br"] true w = some (report, w') ∧ report.reloaded = [] ∧
      report.failed = [("res://a.br", fault)] ∧ w.cache.find? "res://a.br" = some 0 ∧
      (w.script 0).isValid ∧ w.family 0 = [0] ∧ w.Plain 0 ∧ w'.Plain 0 ∧ w.liveInstances 0 = [0] ∧
      (w.savedStatics 0).map (fun e => (e.1, e.2.int?)) = [("n", some 1)] ∧
      (w'.savedStatics 0).map (fun e => (e.1, e.2.int?)) = [("n", some 2)] := by
  obtain ⟨w, run, hcached, haffected, hfamily, hvalid, hplain, hone, hlive, report, w', hrun, hnone,
    hfailed, hplain', htwo⟩ : ∃ w, Live.serve counted host = some ((), w) ∧
    w.cache.find? "res://a.br" = some 0 ∧
      (w.cache.affected ["res://a.br"]).filterMap (fun p => (w.cache.find? p).map (p, ·)) =
        [("res://a.br", 0)] ∧ w.family 0 = [0] ∧ (w.script 0).isValid ∧ w.Plain 0 ∧
      (w.savedStatics 0).map (fun e => (e.1, e.2.int?)) = [("n", some 1)] ∧
      w.liveInstances 0 = [0] ∧
      ∃ report w', Live.reloadOrdered .standard ["res://a.br"] true [("res://a.br", 0)] w =
          some (report, w') ∧ report.reloaded = [] ∧ report.failed.map (·.1) = ["res://a.br"] ∧
        w'.Plain 0 ∧ (w'.savedStatics 0).map (fun e => (e.1, e.2.int?)) = [("n", some 2)] := by
    decide +kernel
  obtain ⟨⟨path, fault⟩, hreport, rfl⟩ := List.map_eq_singleton_iff.1 hfailed
  have hreached : w.Reached := reached_host.serve (by simp [counted]) run
  have hsingle : Live.reloadFiles .standard ["res://a.br"] true w = _ :=
    Live.reloadFiles_eq_reloadOrdered (Live.inReloadOrder_eq haffected
      (List.pairwise_singleton _ _))
  exact ⟨w, w', report, fault, run, hreached, hsingle.trans hrun, hnone, hreport, hcached, hvalid,
    hfamily, hplain, hplain', hlive, hone, htwo⟩

end World

end HotScript
