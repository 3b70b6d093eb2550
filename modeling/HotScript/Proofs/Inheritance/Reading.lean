import HotScript.Proofs.Inheritance.Verdicts

/-!
Reading a file of a project.

The unit has the classes of the file's outline, and nothing is known about any of them; so it does
not disturb what is known about the others (`Workspace.Inv.opened`).
-/

namespace HotScript

namespace Workspace

variable {w0 : Workspace} {P : w0.Project} {R : Looking} {S : List Place}
  {w w' : Workspace} {p q : String}

/-! ### What is read -/

theorem readingOf_congr (h : w.programs = w'.programs) (path : String) (source : Source)
    (heap : Heap) : w.readingOf path source heap = w'.readingOf path source heap := by
  have htext (text : String) : ({ w with heap }.readText path text).1 =
      ({ w' with heap }.readText path text).1 := by
    rw [readText, readText]
    dsimp only
    rw [h]
    split <;> rfl
  cases source with
  | empty => rfl
  | text s => exact htext s
  | binary b =>
    rw [readingOf, readingOf, readBytes, readBytes]
    split
    · exact htext _
    · rfl

theorem openUnit_new {source : Source} (hnew : w.unitOf.find? p = none)
    (hsource : w.source p = .ok source) (hne : source ≠ .empty) :
    ∃ heap, let u := FileUnit.install { path := p } (w.readingOf p source w.heap) source.digest
      w.openUnit p = (u.1.map fun _ => w.units.size,
        { w with
          heap
          units := w.units.push u.2
          journal := ⟨w.units.size, u.2.status, u.2.failedAt, .read⟩ :: w.journal
          unitOf := w.unitOf.insert p w.units.size }) := by
  have hlast : (w.addUnit p).2.unit w.units.size = { path := p } := by simp [addUnit, unit]
  have hread (r : Reading) (heap : Heap) :
      ((({ (w.addUnit p).2 with heap := heap }.unit w.units.size).install r source.digest).1.map
        fun _ => w.units.size,
        (({ (w.addUnit p).2 with heap := heap }.modifyUnit w.units.size fun u =>
          (u.install r source.digest).2).happen w.units.size .read).placeUnit p w.units.size) =
      ((FileUnit.install { path := p } r source.digest).1.map fun _ => w.units.size,
        { w with
          heap
          units := w.units.push (FileUnit.install { path := p } r source.digest).2
          journal := ⟨w.units.size, (FileUnit.install { path := p } r source.digest).2.status,
            (FileUnit.install { path := p } r source.digest).2.failedAt, .read⟩ :: w.journal
          unitOf := w.unitOf.insert p w.units.size }) := by
    have hunit : { (w.addUnit p).2 with heap := heap }.unit w.units.size = { path := p } := hlast
    rw [install_push, hunit]
    rfl
  have hopen : w.openUnit p = (((w.addUnit p).2.readInto w.units.size source).1.map
        fun _ => w.units.size,
      ((w.addUnit p).2.readInto w.units.size source).2.placeUnit p w.units.size) := by
    have hat : w.unitAt? p = none := hnew
    rw [openUnit, hat, hsource]
    rfl
  rw [hopen]
  cases source with
  | empty => exact absurd rfl hne
  | text s =>
    obtain ⟨heap, hheap⟩ := (w.addUnit p).2.readText_eq p s
    refine ⟨heap, ?_⟩
    have hfirst : ((w.addUnit p).2.readText p s).1 = w.readingOf p (.text s) w.heap :=
      readingOf_congr (show (w.addUnit p).2.programs = w.programs from rfl) p (.text s) w.heap
    rw [readInto, hlast]
    dsimp only
    rw [hheap, hfirst]
    exact hread _ heap
  | binary b =>
    obtain ⟨heap, hheap⟩ := (w.addUnit p).2.readBytes_eq p b
    refine ⟨heap, ?_⟩
    have hfirst : ((w.addUnit p).2.readBytes p b).1 = w.readingOf p (.binary b) w.heap :=
      readingOf_congr (show (w.addUnit p).2.programs = w.programs from rfl) p (.binary b) w.heap
    rw [readInto, hlast]
    dsimp only
    rw [hheap, hfirst]
    exact hread _ heap

structure Project.Newly (P : w0.Project) (u : FileUnit) : Prop extends P.Stands u where
  status : u.status = .parsed
  failedAt : u.failedAt = none
  unlooked : ∀ f ∈ u.classes, f.inheritance = .unresolved
  silent : cycleReports u = []

theorem Project.newly_install (P : w0.Project) (hp : p ∈ P.files) {r : Reading} {t : Tree}
    (ht : r.tree = some t) (herrors : r.hasErrors = false)
    (hsilent : ∀ d ∈ r.diagnostics, d.isCycle = false) (houtline : t.outline = P.outline p)
    (hnumbered : t.Numbered) (digest : UInt64) :
    (FileUnit.install { path := p } r digest).1 = .ok () ∧
      P.Newly (FileUnit.install { path := p } r digest).2 ∧
      (FileUnit.install { path := p } r digest).2.path = p := by
  have hinstall : FileUnit.install { path := p } r digest =
      (.ok (),
        { path := p
          digest
          status := .parsed
          tree := some t
          diagnostics := r.diagnostics
          dependencies := r.dependencies
          classes := t.classes.map fun c => { ref := FileUnit.refOf p c } }) := by
    rw [FileUnit.install]
    rw [herrors, ht]
    rfl
  rw [hinstall]
  refine ⟨rfl, ⟨⟨hp, ⟨t, rfl, houtline, hnumbered⟩, ?_, fun i f hf => ?_, Nat.le_refl _⟩, rfl, rfl,
    fun f hf => ?_, ?_⟩, rfl⟩
  · rw [Array.size_map, ← Tree.outline_length, houtline]
  · rw [Array.getElem?_map] at hf
    obtain ⟨decl, hdecl, rfl⟩ := Option.map_eq_some_iff.1 hf
    exact P.refOf_eq houtline hnumbered hdecl
  · obtain ⟨decl, -, rfl⟩ := Array.mem_map.1 hf
    rfl
  · rw [cycleReports, List.filter_eq_nil_iff]
    intro d hd
    rw [hsilent d hd]
    exact Bool.false_ne_true

/-! ### A unit more -/

/-- A workspace with one more unit, of a file of the project that was just read. -/
structure Joined (P : w0.Project) (w w' : Workspace) (p : String) : Prop where
  outside : w'.outside = w.outside
  unitOf : w'.unitOf = w.unitOf.insert p w.units.size
  units : ∃ u, P.Newly u ∧ u.path = p ∧ w'.units = w.units.push u
  journal : ∃ entry : JournalEntry, entry.unit = w.units.size ∧ entry.event = .read ∧
    w'.journal = entry :: w.journal

theorem Core.openUnit (h : Core P R S w) (hp : p ∈ P.files) (hnew : w.unitOf.find? p = none) :
    ∃ w', w.openUnit p = (.ok w.units.size, w') ∧ Joined P w w' p := by
  obtain ⟨source, hsource, hreads⟩ := P.reads p (P.mem_files.1 hp)
  have hload : w.source p = .ok source := (source_congr h.outside p).trans hsource
  obtain ⟨t, ht, herrors, hsilent, houtline, hnumbered⟩ := hreads w.heap
  have hne : source ≠ .empty := by
    rintro rfl
    cases ht
  rw [← readingOf_congr (congrArg (·.2.2.2) h.outside)] at ht herrors hsilent
  obtain ⟨heap, hopen⟩ := openUnit_new hnew hload hne
  obtain ⟨hok, hnewly, hpath⟩ := P.newly_install hp ht herrors hsilent houtline hnumbered
    source.digest
  refine ⟨_, hopen.trans (Prod.ext (by rw [hok]; rfl) rfl), rfl, rfl,
    ⟨_, hnewly, hpath, rfl⟩, ⟨_, rfl, rfl, rfl⟩⟩

namespace Joined

variable (h : Joined P w w' p) {k : UnitId} {j : Journal}

include h

theorem size : w'.units.size = w.units.size + 1 := by
  obtain ⟨u, -, -, hunits⟩ := h.units
  rw [hunits, Array.size_push]

theorem unit_of_ne (hk : k ≠ w.units.size) : w'.unit k = w.unit k := by
  obtain ⟨u, -, -, hunits⟩ := h.units
  rw [unit, unit, hunits, Array.getElem?_push, if_neg hk]

theorem newly : P.Newly (w'.unit w.units.size) ∧ (w'.unit w.units.size).path = p := by
  obtain ⟨u, hnewly, hpath, hunits⟩ := h.units
  have hlast : w'.unit w.units.size = u := by
    rw [unit, hunits, Array.getElem?_push, if_pos rfl]
    rfl
  rw [hlast]
  exact ⟨hnewly, hpath⟩

theorem lt_cases (hk : k < w'.units.size) : k < w.units.size ∨ k = w.units.size :=
  Nat.lt_succ_iff_lt_or_eq.1 (Nat.lt_of_lt_of_eq hk h.size)

theorem find?_of_ne (hq : q ≠ p) : w'.unitOf.find? q = w.unitOf.find? q := by
  rw [h.unitOf, Table.find?_insert_of_ne _ _ hq]

theorem find?_self : w'.unitOf.find? p = some w.units.size := by
  rw [h.unitOf, Table.find?_insert_self]

theorem stateAt? (hl : w.Linked) (c : Place) :
    w'.stateAt? c = w.stateAt? c ∨ c.1 = p ∧ w'.stateAt? c = some .unresolved ∨
      c.1 = p ∧ w'.classAt? c = none := by
  by_cases hc : c.1 = p
  · refine .inr ?_
    have hat : w'.classAt? c = (w'.unit w.units.size).classes[c.2]? := by
      rw [classAt?, hc, h.find?_self]
      rfl
    cases hf : (w'.unit w.units.size).classes[c.2]? with
    | none => exact .inr ⟨hc, hat.trans hf⟩
    | some f =>
      refine .inl ⟨hc, ?_⟩
      rw [Workspace.stateAt?, hat, hf]
      exact congrArg some (h.newly.1.unlooked f (Array.mem_of_getElem? hf))
  · refine .inl ?_
    rw [Workspace.stateAt?, Workspace.stateAt?, classAt?, classAt?,
      h.find?_of_ne hc]
    cases hk : w.unitOf.find? c.1 with
    | none => rfl
    | some k =>
      rw [Option.bind_some, Option.bind_some, h.unit_of_ne (Nat.ne_of_lt (hl.placed _ k hk).1)]

theorem classAt?_of_ne {c : Place} {f : ClassFacts} (hl : w.Linked) (hf : w'.classAt? c = some f)
    (hopen : f.inheritance ≠ .unresolved) : w.classAt? c = some f ∧ c.1 ≠ p := by
  have hc : c.1 ≠ p := by
    intro hc
    rw [classAt?, hc, h.find?_self] at hf
    exact hopen (h.newly.1.unlooked f (Array.mem_of_getElem? hf))
  refine ⟨?_, hc⟩
  rw [← hf, classAt?, classAt?, h.find?_of_ne hc]
  cases hk : w.unitOf.find? c.1 with
  | none => rfl
  | some k =>
    rw [Option.bind_some, Option.bind_some, h.unit_of_ne (Nat.ne_of_lt (hl.placed _ k hk).1)]

section

variable (hknown : ∀ e ∈ w.journal, e.unit < w.units.size) (hj : j <:+ w'.journal)
include hknown hj

theorem baseAt (i : ClassId) : Journal.baseAt j w.units.size i = none := by
  obtain ⟨entry, hunit, hread, hjournal⟩ := h.journal
  rw [hjournal] at hj
  rcases List.suffix_cons_iff.1 hj with rfl | hj
  · rw [Journal.baseAt, if_pos hunit, hread]
  · exact Journal.baseAt_eq_none fun e he => Nat.ne_of_lt (hknown e (hj.subset he))

theorem acyclic (hmoments : ∀ j, j <:+ w.journal → w.Acyclic j) : w'.Acyclic j := by
  obtain ⟨entry, hunit, -, hjournal⟩ := h.journal
  have hedge {j' : Journal} (hbase : ∀ k < w.units.size, ∀ i, Journal.baseAt j k i = j'.baseAt k i)
      {a b : Place} (hab : w'.BaseEdge j a b) : w.BaseEdge j' a b := by
    obtain ⟨k, hk, hpath, base, hat, hclass⟩ := hab
    rcases h.lt_cases hk with hk | rfl
    · exact ⟨k, hk, h.unit_of_ne (Nat.ne_of_lt hk) ▸ hpath, base, hbase k hk a.2 ▸ hat, hclass⟩
    · rw [h.baseAt hknown hj] at hat
      cases hat
  intro c hcycle
  have hj' := hj
  rw [hjournal] at hj'
  rcases List.suffix_cons_iff.1 hj' with rfl | hj'
  · refine hmoments w.journal (List.suffix_refl _) c
      (Relation.TransGen.mono (fun a b hab => hedge ?_ hab) _ _ hcycle)
    intro k hk i
    exact Journal.baseAt_cons_of_ne (hunit ▸ Nat.ne_of_gt hk)
  · exact hmoments j hj' c
      (Relation.TransGen.mono (fun a b hab => hedge (fun _ _ _ => rfl) hab) _ _ hcycle)

end

theorem solved (hl : w.Linked) (hq : q ≠ p) (hs : w.Solved q) : w'.Solved q := by
  obtain ⟨k, hk, hs⟩ := hs
  exact ⟨k, (h.find?_of_ne hq).trans hk, h.unit_of_ne (Nat.ne_of_lt (hl.placed _ k hk).1) ▸ hs⟩

end Joined

theorem Core.joined (h : Core P R S w) (hj : Joined P w w' p)
    (hnew : w.unitOf.find? p = none) (hlinked : w'.Linked) : Core P R S w' where
  outside := hj.outside.trans h.outside
  linked := hlinked
  stands k hk := by
    rcases hj.lt_cases hk with hk | rfl
    · rw [hj.unit_of_ne (Nat.ne_of_lt hk)]
      exact h.stands k hk
    · exact hj.newly.1.toStands
  stack c := by
    have hold (hc : c.1 = p) : c ∉ S := by
      intro hmem
      have hstate := (h.stack c).1 hmem
      rw [stateAt?, classAt?, hc, hnew] at hstate
      cases hstate
    rcases hj.stateAt? h.linked c with hstate | ⟨hc, hstate⟩ | ⟨hc, hat⟩
    · rw [hstate]
      exact h.stack c
    · rw [hstate]
      exact ⟨fun hmem => absurd hmem (hold hc), by simp⟩
    · rw [stateAt?, hat]
      exact ⟨fun hmem => absurd hmem (hold hc), by simp⟩
  bases c f hf hres := by
    obtain ⟨hf0, -⟩ := hj.classAt?_of_ne h.linked hf (by simp [hres])
    obtain ⟨hclass, hext⟩ := h.bases c f hf0 hres
    refine ⟨hclass, fun b hcb => ?_⟩
    have hb : b.1 ≠ p := by
      intro hb
      obtain ⟨k, hk, -⟩ := hext b hcb
      rw [hb, hnew] at hk
      cases hk
    exact hj.solved h.linked hb (hext b hcb)
  idle k hk hstatus hR := by
    rcases hj.lt_cases hk with hk | rfl
    · rw [hj.unit_of_ne (Nat.ne_of_lt hk)] at hstatus ⊢
      exact h.idle k hk hstatus hR
    · rw [hj.newly.1.status] at hstatus
      exact absurd hstatus (by decide)
  failed k f hf := by
    by_cases hk : k = w.units.size
    · subst hk
      rw [hj.newly.1.failedAt] at hf
      cases hf
    · exact h.failed k f (hj.unit_of_ne hk ▸ hf)
  running k n hR := by
    obtain ⟨hk, hstatus⟩ := h.running k n hR
    rw [hj.unit_of_ne (Nat.ne_of_lt hk), hj.size]
    exact ⟨Nat.lt_succ_of_lt hk, hstatus⟩
  known e he := by
    obtain ⟨entry, hunit, -, hjournal⟩ := hj.journal
    rw [hjournal] at he
    rw [hj.size]
    rcases List.mem_cons.1 he with rfl | he
    · exact hunit ▸ Nat.lt_succ_self _
    · exact Nat.lt_succ_of_lt (h.known e he)
  sync k hk i := by
    rcases hj.lt_cases hk with hk | rfl
    · obtain ⟨entry, hunit, -, hjournal⟩ := hj.journal
      rw [hjournal, Journal.baseAt_cons_of_ne (hunit ▸ Nat.ne_of_gt hk), h.sync k hk,
        hj.unit_of_ne (Nat.ne_of_lt hk)]
    · rw [hj.baseAt h.known (List.suffix_refl _)]
      cases hf : (w'.unit w.units.size).classes[i]? with
      | none => rfl
      | some f =>
        have hopen := hj.newly.1.unlooked f (Array.mem_of_getElem? hf)
        rw [Option.bind_some, ClassFacts.settled?, hopen]
        rfl
  moments j hsuffix := hj.acyclic h.known hsuffix h.moments

theorem Inv.opened (h : Inv P R S w) (hp : p ∈ P.files) (hnew : w.unitOf.find? p = none) :
    ∃ w', w.openUnit p = (.ok w.units.size, w') ∧ Inv P R S w' ∧
      w'.unitOf.find? p = some w.units.size := by
  obtain ⟨w', hopen, hj⟩ := h.core.openUnit hp hnew
  have hlater : w.Later w' := by
    have hl := later_openUnit w p
    rwa [hopen] at hl
  have hreports (k : UnitId) : cycleReports (w'.unit k) = cycleReports (w.unit k) := by
    by_cases hk : k = w.units.size
    · subst hk
      rw [hj.newly.1.silent, unit, Array.getElem?_eq_none (Nat.le_refl _)]
      rfl
    · rw [hj.unit_of_ne hk]
  refine ⟨w', hopen, ⟨h.core.joined hj hnew (hlater.linked h.core.linked), h.verdict.imp ?_ ?_⟩,
    hj.find?_self⟩
  · intro hq
    refine ⟨fun k => ?_, fun c => ?_, fun k => ?_, fun k n hR => ?_⟩
    · exact (hreports k).trans (hq.reports k)
    · rcases hj.stateAt? h.core.linked c with hstate | ⟨-, hstate⟩ | ⟨-, hat⟩
      · rw [hstate]
        exact hq.usable c
      · simp [hstate]
      · simp [stateAt?, hat]
    · by_cases hk : k = w.units.size
      · subst hk
        rw [hj.newly.1.failedAt]
        rfl
      · rw [hj.unit_of_ne hk]
        exact hq.failed k
    · rw [hj.unit_of_ne (Nat.ne_of_lt (h.core.running k n hR).1)]
      exact hq.errors k n hR
  · intro ht
    refine ⟨ht.report.congr hreports fun k hsome => ?_, fun c hc => ?_⟩
    · have hk : k ≠ w.units.size := by
        rintro rfl
        rw [unit, Array.getElem?_eq_none (Nat.le_refl _)] at hsome
        exact hsome rfl
      rw [hj.unit_of_ne hk]
    · obtain ⟨k, hk, hstate, hdoom⟩ := ht.spoiled c hc
      have hlt := (h.core.linked.placed _ k hk).1
      refine ⟨k, hlater.unitOf _ k hk, ?_, hdoom.later hlt hlater⟩
      rcases hj.stateAt? h.core.linked c with heq | ⟨hcp, -⟩ | ⟨hcp, -⟩
      · exact heq.trans hstate
      · rw [hcp, hnew] at hk
        cases hk
      · rw [hcp, hnew] at hk
        cases hk

end Workspace

end HotScript
