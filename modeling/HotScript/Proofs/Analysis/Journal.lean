import HotScript.Proofs.Analysis.Stages

/-!
The journal of a unit, and what every journal is like.

A journal is read from the latest entry back. Its `era` is what was written since the source was
last read. Within an era journals are `Orderly`, and messages are reported while a stage of the unit
runs, or are `strays`.

One invariant, `FileUnit.Regular`, speaks of a unit, its journal and the stage of it that is
running. A request that a stage makes is never for more than the stage's own status, so it cannot
begin another stage of the same unit (`Workspace.Ladder.regular`).
-/

namespace HotScript

/-! ### Reading a journal -/

def UnitEvent.isRead : UnitEvent → Bool
  | read => true
  | _ => false

def UnitEvent.isMark : UnitEvent → Bool
  | began _ | ended _ => true
  | _ => false

def UnitEvent.isReport : UnitEvent → Bool
  | reported _ => true
  | _ => false

abbrev Journal := List JournalEntry

namespace Journal

/-- What was written since the source was last read, the reading included. -/
def era : Journal → Journal
  | [] => []
  | e :: rest => if e.event.isRead then [e] else e :: era rest

def stages (j : Journal) : List UnitEvent := ((j.map (·.event)).filter (·.isMark)).reverse

def isRunning : Journal → Bool
  | [] => false
  | e :: rest =>
    match e.event with
    | .began _ => true
    | .ended _ => false
    | _ => isRunning rest

def reports : Journal → List Diagnostic
  | [] => []
  | e :: rest =>
    match e.event with
    | .reported d => if d.isError then reports rest ++ [d] else reports rest
    | _ => reports rest

/-- The errors that were reported while no stage was running. -/
def strays : Journal → List Diagnostic
  | [] => []
  | e :: rest =>
    match e.event with
    | .reported d => if d.isError && !isRunning rest then strays rest ++ [d] else strays rest
    | _ => strays rest

/-- All stages in order, each with its beginning and its end. -/
def ladder : List UnitEvent :=
  [.began .inheritanceSolved, .ended .inheritanceSolved, .began .interfaceSolved,
    .ended .interfaceSolved, .began .fullySolved, .ended .fullySolved]

/-- A journal as it should be at one moment. -/
structure Orderly (j : Journal) : Prop where
  /-- Stages are run in order, one at a time, and once. -/
  stages : j.era.stages <+: ladder
  climbs : j.era.Pairwise fun newer older => older.status.rank ≤ newer.status.rank
  /-- A unit that failed refuses what it failed at and what is above. -/
  refused : ∀ e rest status granted failed, j = e :: rest → e.event = .answered status granted →
    (∃ e' ∈ era rest, e'.failedAt = some failed) → failed.rank ≤ status.rank → granted = false
  /-- What was granted is granted again, unless the unit failed at it or below. -/
  kept : ∀ e rest status granted, j = e :: rest → e.event = .answered status granted →
    (∃ e' ∈ era rest, e'.event = .answered status true) →
    (∀ e' ∈ era rest, ∀ failed, e'.failedAt = some failed → status.rank < failed.rank) →
    granted = true

end Journal

/-! ### Growing a journal -/

namespace Journal

variable {e : JournalEntry} {j : Journal}

theorem era_cons (h : e.event.isRead = false) : era (e :: j) = e :: j.era := by
  rw [era, if_neg (by rw [h]; exact Bool.false_ne_true)]

theorem era_read (h : e.event = .read) : era (e :: j) = [e] := by
  simp [era, h, UnitEvent.isRead]

theorem stages_cons_of_isMark (h : e.event.isMark) : stages (e :: j) = j.stages ++ [e.event] := by
  simp [stages, h]

theorem stages_cons_of_not_isMark (h : e.event.isMark = false) : stages (e :: j) = j.stages := by
  simp [stages, h]

theorem isRunning_cons (h : e.event.isMark = false) : isRunning (e :: j) = j.isRunning := by
  rw [isRunning]
  revert h
  cases e.event <;> simp [UnitEvent.isMark]

theorem reports_cons (h : e.event.isReport = false) : reports (e :: j) = j.reports := by
  rw [reports]
  revert h
  cases e.event <;> simp [UnitEvent.isReport]

theorem strays_cons (h : e.event.isReport = false) : strays (e :: j) = j.strays := by
  rw [strays]
  revert h
  cases e.event <;> simp [UnitEvent.isReport]

variable {d : Diagnostic} {status next : UnitStatus}

theorem reports_reported (h : e.event = .reported d) :
    reports (e :: j) = j.reports ++ [d].filter (·.isError) := by
  rw [reports, h]
  by_cases hd : d.isError <;> simp [hd]

theorem strays_reported (h : e.event = .reported d) :
    strays (e :: j) = j.strays ++ if j.isRunning then [] else [d].filter (·.isError) := by
  rw [strays, h]
  by_cases hd : d.isError <;> cases j.isRunning <;> simp [hd]

theorem strays_sublist (j : Journal) : j.strays.Sublist j.reports := by
  induction j with
  | nil => exact .refl _
  | cons e j ih =>
    cases h : e.event.isReport with
    | false =>
      rw [strays_cons h, reports_cons h]
      exact ih
    | true =>
      obtain ⟨d, hd⟩ : ∃ d, e.event = .reported d := by
        revert h
        cases e.event <;> simp [UnitEvent.isReport]
      rw [strays_reported hd, reports_reported hd]
      refine ih.append ?_
      split
      · exact List.nil_sublist _
      · exact .refl _

/-- The beginnings and ends of stages that lie behind a unit with a status. -/
def passed (status : UnitStatus) (running : Bool) : List UnitEvent :=
  ladder.take (2 * (status.rank - 1) - running.toNat)

theorem passed_prefix (status : UnitStatus) (running : Bool) : passed status running <+: ladder :=
  List.take_prefix _ _

theorem passed_next (h : status.next? = some next) (hs : status ≠ .empty) :
    passed next true = passed status false ++ [.began next] := by
  cases status <;> cases h <;> first | exact absurd rfl hs | rfl

theorem passed_ended (h : UnitStatus.inheritanceSolved.rank ≤ status.rank) :
    passed status false = passed status true ++ [.ended status] := by
  cases status <;> first | exact absurd h (by decide) | rfl

end Journal

/-! ### The invariant -/

/-- A unit whose journal is as it should be, with the stage of it that is running, if any, and the
number of errors that the unit had when that stage began. -/
structure FileUnit.Regular (u : FileUnit) (running : Option (UnitStatus × Nat)) (j : Journal) :
    Prop where
  orderly : ∀ t, t <:+ j → Journal.Orderly t
  latest : ∀ e ∈ j.head?, e.status = u.status ∧ e.failedAt = u.failedAt
  passed : j.era.stages = Journal.passed u.status running.isSome
  below : ∀ e ∈ j.era, e.status.rank ≤ u.status.rank
  stuck : ∀ e ∈ j.era, ∀ f, e.failedAt = some f → u.failedAt = some f
  granted : ∀ e ∈ j.era, ∀ s, e.event = .answered s true → s.rank ≤ u.status.rank
  bound : ∀ f, u.failedAt = some f → f.rank ≤ max u.status.rank UnitStatus.inheritanceSolved.rank
  runs : j.era.isRunning = running.isSome
  stage : ∀ s n, running = some (s, n) → u.status = s ∧ UnitStatus.inheritanceSolved.rank ≤ s.rank ∧
    ∀ f, u.failedAt = some f → f = s
  errors : u.failedAt = none → u.errors = j.era.reports
  strays : running = none → u.failedAt = none → j.era.strays = j.era.reports
  count : ∀ s n, running = some (s, n) → u.failedAt = none → j.era.strays.length = n

namespace FileUnit.Regular

open Journal

variable {u u' : FileUnit} {running : Option (UnitStatus × Nat)} {j : Journal} {e : JournalEntry}
  {s next : UnitStatus}

theorem head_mem_era (h : e ∈ j.head?) : e ∈ j.era := by
  cases j with
  | nil => cases h
  | cons e' j =>
    obtain rfl : e' = e := by simpa using h
    rw [era]
    split <;> exact (.head _)

theorem errorCount_eq (u : FileUnit) :
    u.errorCount = u.errors.length := List.countP_eq_length_filter

section

variable (h : u.Regular running j)
include h

section

variable (hread : e.event.isRead = false)
include hread

/-- The journal stays orderly when stages come in order, the status does not fall, and a request is
granted when the unit can grant it. -/
theorem orderly_cons
    (hstages : Journal.stages (e :: j.era) <+: ladder) (hrank : u.status.rank ≤ e.status.rank)
    (hanswer : ∀ s g, e.event = .answered s g → g = u.grants s) : Orderly (e :: j) where
  stages := by rwa [era_cons hread]
  climbs := by
    rw [era_cons hread, List.pairwise_cons]
    exact ⟨fun e' he' => Nat.le_trans (h.below e' he') hrank,
      (h.orderly j (List.suffix_refl _)).climbs⟩
  refused := by
    rintro _ _ s g f ⟨⟩ hevent ⟨e', he', hf⟩ hle
    rw [hanswer s g hevent, grants, h.stuck e' he' f hf]
    simp [UnitStatus.reaches, hle]
  kept := by
    rintro _ _ s g ⟨⟩ hevent ⟨e', he', hgranted⟩ habove
    have hstatus := h.granted e' he' s hgranted
    have hfailed : u.failedAt.filter s.reaches = none := by
      rw [Option.filter_eq_none_iff]
      intro f hf hreach
      -- what the unit failed at stands in the latest entry
      obtain ⟨latest, hlatest⟩ : ∃ latest, latest ∈ j.head? := by
        cases j with
        | nil => cases he'
        | cons latest _ => exact ⟨latest, rfl⟩
      have hlt := habove latest (head_mem_era hlatest) f ((h.latest latest hlatest).2.trans hf)
      exact absurd (of_decide_eq_true hreach) (Nat.not_le.2 hlt)
    rw [hanswer s g hevent, grants, hfailed]
    simp [UnitStatus.reaches, hstatus]

theorem grow {running' : Option (UnitStatus × Nat)}
    (hentry : e.status = u'.status ∧ e.failedAt = u'.failedAt)
    (hrank : u.status.rank ≤ u'.status.rank)
    (hstages : Journal.stages (e :: j.era) = Journal.passed u'.status running'.isSome)
    (hstuck : ∀ f, u.failedAt = some f → u'.failedAt = some f)
    (hanswer : ∀ s g, e.event = .answered s g → g = u.grants s)
    (hbound : ∀ f, u'.failedAt = some f →
      f.rank ≤ max u'.status.rank UnitStatus.inheritanceSolved.rank)
    (hruns : Journal.isRunning (e :: j.era) = running'.isSome)
    (hstage : ∀ s n, running' = some (s, n) → u'.status = s ∧
      UnitStatus.inheritanceSolved.rank ≤ s.rank ∧ ∀ f, u'.failedAt = some f → f = s)
    (herrors : u'.failedAt = none → u'.errors = Journal.reports (e :: j.era))
    (hstrays : running' = none → u'.failedAt = none →
      Journal.strays (e :: j.era) = Journal.reports (e :: j.era))
    (hcount : ∀ s n, running' = some (s, n) → u'.failedAt = none →
      (Journal.strays (e :: j.era)).length = n) : u'.Regular running' (e :: j) := by
  rw [← era_cons hread] at hstages hruns herrors hstrays hcount
  constructor
  case orderly =>
    intro t ht
    rcases List.suffix_cons_iff.1 ht with rfl | ht
    · refine h.orderly_cons hread ?_ (hentry.1 ▸ hrank) hanswer
      exact era_cons hread ▸ hstages ▸ passed_prefix _ _
    · exact h.orderly t ht
  case latest =>
    rintro _ ⟨⟩
    exact hentry
  case below =>
    rw [era_cons hread, List.forall_mem_cons]
    exact ⟨Nat.le_of_eq (by rw [hentry.1]), fun e' he' => Nat.le_trans (h.below e' he') hrank⟩
  case stuck =>
    rw [era_cons hread, List.forall_mem_cons]
    exact ⟨fun f hf => hentry.2 ▸ hf, fun e' he' f hf => hstuck f (h.stuck e' he' f hf)⟩
  case granted =>
    rw [era_cons hread, List.forall_mem_cons]
    refine ⟨fun s hs => ?_, fun e' he' s hs => Nat.le_trans (h.granted e' he' s hs) hrank⟩
    have hgrants := hanswer s true hs
    rw [grants, eq_comm, Bool.and_eq_true_iff] at hgrants
    exact Nat.le_trans (of_decide_eq_true hgrants.2) hrank
  case passed => exact hstages
  case bound => exact hbound
  case runs => exact hruns
  case stage => exact hstage
  case errors => exact herrors
  case strays => exact hstrays
  case count => exact hcount

theorem cons (hmark : e.event.isMark = false)
    (hentry : e.status = u'.status ∧ e.failedAt = u'.failedAt) (hstatus : u'.status = u.status)
    (hstuck : ∀ f, u.failedAt = some f → u'.failedAt = some f)
    (hfailed : ∀ f, u'.failedAt = some f → u.failedAt = some f ∨
      f.rank ≤ max u.status.rank UnitStatus.inheritanceSolved.rank ∧ ∀ s n, running = some (s, n) →
      f = s)
    (hanswer : ∀ s g, e.event = .answered s g → g = u.grants s)
    (herrors : u.errors = j.era.reports → u'.errors = Journal.reports (e :: j.era))
    (hstrays : running = none → j.era.strays = j.era.reports →
      Journal.strays (e :: j.era) = Journal.reports (e :: j.era))
    (hcount : running ≠ none → Journal.strays (e :: j.era) = j.era.strays) :
    u'.Regular running (e :: j) := by
  have hnone (hu' : u'.failedAt = none) : u.failedAt = none := by
    cases hu : u.failedAt with
    | none => rfl
    | some f => rw [hstuck f hu] at hu'; cases hu'
  refine h.grow hread hentry (Nat.le_of_eq (by rw [hstatus])) ?_ hstuck hanswer (fun f hf => ?_) ?_
    (fun s n hs => ?_) (fun hu' => herrors (h.errors (hnone hu')))
    (fun hr hu' => hstrays hr (h.strays hr (hnone hu'))) fun s n hs hu' => ?_
  · rw [stages_cons_of_not_isMark hmark, hstatus]
    exact h.passed
  · rw [hstatus]
    rcases hfailed f hf with hf | ⟨hf, -⟩
    · exact h.bound f hf
    · exact hf
  · rw [isRunning_cons hmark]
    exact h.runs
  · obtain ⟨hu, hle, hsame⟩ := h.stage s n hs
    refine ⟨hstatus.trans hu, hle, fun f hf => ?_⟩
    rcases hfailed f hf with hf | ⟨-, hf⟩
    · exact hsame f hf
    · exact hf s n hs
  · rw [hcount (by rw [hs]; exact Option.some_ne_none _)]
    exact h.count s n hs (hnone hu')

end

theorem reported (id : UnitId) (d : Diagnostic) :
    (u.apply (.reported d)).Regular running (⟨id, u.status, u.failedAt, .reported d⟩ :: j) := by
  refine h.cons rfl rfl ⟨rfl, rfl⟩ rfl (fun _ hf => hf) (fun _ hf => .inl hf) nofun (fun hu => ?_)
    (fun hr hs => ?_) fun hr => ?_
  · rw [reports_reported rfl, ← hu]
    exact List.filter_append _ _
  · have hidle : j.era.isRunning = false := by rw [h.runs, hr]; rfl
    rw [strays_reported rfl, reports_reported rfl, hs, hidle]
    rfl
  · have hbusy : j.era.isRunning = true := by rw [h.runs, Option.isSome_iff_ne_none]; exact hr
    rw [strays_reported rfl, hbusy]
    exact List.append_nil _

theorem failed (id : UnitId) (hsame : ∀ f, u.failedAt = some f → f = s)
    (hbound : s.rank ≤ max u.status.rank UnitStatus.inheritanceSolved.rank)
    (hrun : ∀ s' n, running = some (s', n) → s = s') :
    (u.apply (.failed s)).Regular running (⟨id, u.status, some s, .failed s⟩ :: j) := by
  refine h.cons rfl rfl ⟨rfl, rfl⟩ rfl (fun f hf => ?_) (fun f hf => .inr ?_) nofun (fun hu => ?_)
    (fun _ hs => ?_) fun _ => strays_cons rfl
  · rw [hsame f hf]
    rfl
  · obtain rfl : s = f := Option.some.inj hf
    exact ⟨hbound, hrun⟩
  · exact hu
  · rw [strays_cons rfl, reports_cons rfl, hs]

theorem silent (hread : e.event.isRead = false) (hmark : e.event.isMark = false)
    (hreport : e.event.isReport = false) (hentry : e.status = u'.status ∧ e.failedAt = u'.failedAt)
    (hstatus : u'.status = u.status) (hfailed : u'.failedAt = u.failedAt)
    (hdiagnostics : u'.diagnostics = u.diagnostics)
    (hanswer : ∀ s g, e.event = .answered s g → g = u.grants s) :
    u'.Regular running (e :: j) := by
  refine h.cons hread hmark hentry hstatus (fun f hf => hfailed ▸ hf)
    (fun f hf => .inl (hfailed ▸ hf)) hanswer (fun hu => ?_) (fun _ hs => ?_) fun _ =>
    strays_cons hreport
  · rw [reports_cons hreport, ← hu, FileUnit.errors, FileUnit.errors, hdiagnostics]
  · rw [strays_cons hreport, reports_cons hreport, hs]

theorem quiet (hstatus : u'.status = u.status) (hfailed : u'.failedAt = u.failedAt)
    (hdiagnostics : u'.diagnostics = u.diagnostics) : u'.Regular running j where
  orderly := h.orderly
  latest := by
    rw [hstatus, hfailed]
    exact h.latest
  passed := hstatus ▸ h.passed
  below := hstatus ▸ h.below
  stuck := hfailed ▸ h.stuck
  granted := hstatus ▸ h.granted
  bound := by
    rw [hstatus, hfailed]
    exact h.bound
  runs := h.runs
  stage := by
    rw [hstatus, hfailed]
    exact h.stage
  errors := by
    rw [hfailed, FileUnit.errors, hdiagnostics]
    exact h.errors
  strays := hfailed ▸ h.strays
  count := hfailed ▸ h.count

end

theorem began (h : u.Regular none j) (id : UnitId)
    (hnext : u.status.next? = some next) (hempty : u.status ≠ .empty)
    (hopen : u.failedAt.filter next.reaches = none) :
    (u.apply (.began next)).Regular (some (next, u.errorCount))
    (⟨id, next, u.failedAt, .began next⟩ :: j):= by
  have hrank : u.status.rank ≤ next.rank := by
    rw [UnitStatus.rank_next hnext]
    exact Nat.le_succ _
  have hbases : UnitStatus.inheritanceSolved.rank ≤ next.rank :=
    Nat.le_trans (UnitStatus.bases_le_reach hnext hempty) (by cases next <;> decide)
  have hnone : u.failedAt = none := by
    rw [Option.eq_none_iff_forall_ne_some]
    intro f hf
    refine Option.filter_eq_none_iff.1 hopen f hf (decide_eq_true ?_)
    exact Nat.le_trans (h.bound f hf) (Nat.max_le.2 ⟨hrank, hbases⟩)
  refine h.grow rfl ⟨rfl, rfl⟩ hrank ?_ (fun _ hf => hf) nofun (fun f hf => ?_) rfl ?_
    (fun hu => h.errors hu) nofun ?_
  · rw [stages_cons_of_isMark rfl, h.passed]
    exact (passed_next hnext hempty).symm
  · cases hnone.symm.trans hf
  · rintro _ _ ⟨⟩
    exact ⟨rfl, hbases, fun f hf => by cases hnone.symm.trans hf⟩
  · rintro _ _ ⟨⟩ hu
    rw [strays_cons rfl, h.strays rfl hu, ← h.errors hu, errorCount_eq]

theorem ended {n : Nat} (h : u.Regular (some (s, n)) j) (id : UnitId)
    (hmore : u.failedAt = none → u.errorCount ≤ n) :
    u.Regular none (⟨id, u.status, u.failedAt, .ended s⟩ :: j) := by
  obtain ⟨hstatus, hbases, -⟩ := h.stage s n rfl
  refine h.grow rfl ⟨rfl, rfl⟩ (Nat.le_refl _) ?_ (fun _ hf => hf) nofun h.bound rfl nofun
    (fun hu => h.errors hu) (fun _ hu => ?_) nofun
  · rw [stages_cons_of_isMark rfl, h.passed, hstatus]
    exact (passed_ended hbases).symm
  · refine j.era.strays_sublist.eq_of_length_le ?_
    rw [h.count s n rfl hu, ← h.errors hu, ← errorCount_eq]
    exact hmore hu

theorem read (h : u.Regular none j) (id : UnitId) (r : Reading) (digest : UInt64) :
    let u' := (u.install r digest).2
    u'.Regular none (⟨id, u'.status, u'.failedAt, .read⟩ :: j) := by
  intro u'
  have hinstalled : u'.status = .parsed ∧ (u'.failedAt = some .parsed ∨
      u'.failedAt = none ∧ u'.errors = []) := by
    dsimp only [u', install]
    cases hr : r.hasErrors with
    | true => exact ⟨rfl, .inl rfl⟩
    | false =>
      rw [Reading.hasErrors, Bool.or_eq_false_iff] at hr
      obtain ⟨t, ht⟩ : ∃ t, r.tree = some t := by
        cases ht : r.tree with
        | none => rw [ht] at hr; cases hr.1
        | some t => exact ⟨t, rfl⟩
      simp only [ht]
      refine ⟨rfl, .inr ⟨rfl, ?_⟩⟩
      exact List.filter_eq_nil_iff.2 (by simpa using hr.2)
  constructor
  case orderly =>
    intro t ht
    rcases List.suffix_cons_iff.1 ht with rfl | ht
    · constructor
      case stages =>
        exact List.nil_prefix
      case climbs =>
        exact List.pairwise_singleton _ _
      case refused => rintro _ _ _ _ _ ⟨⟩ ⟨⟩
      case kept => rintro _ _ _ _ ⟨⟩ ⟨⟩
    · exact h.orderly t ht
  case latest =>
    rintro _ ⟨⟩
    exact ⟨rfl, rfl⟩
  case passed =>
    rw [hinstalled.1]
    rfl
  case below =>
    exact List.forall_mem_singleton.2 (Nat.le_refl _)
  case stuck =>
    rw [era_read rfl, List.forall_mem_singleton]
    exact fun _ hf => hf
  case granted =>
    rw [era_read rfl, List.forall_mem_singleton]
    nofun
  case bound =>
    intro f hf
    rcases hinstalled.2 with hu | ⟨hu, -⟩
    · rw [hu] at hf
      cases hf
      rw [hinstalled.1]
      decide
    · rw [hu] at hf
      cases hf
  case runs =>
    rfl
  case stage => nofun
  case errors =>
    intro hu
    rcases hinstalled.2 with hf | ⟨-, he⟩
    · rw [hu] at hf
      cases hf
    · exact he
  case strays =>
    intro _ _
    rfl
  case count => nofun

theorem orderly_nil : Orderly [] where
  stages := List.nil_prefix
  climbs := List.Pairwise.nil
  refused := by rintro _ _ _ _ _ ⟨⟩
  kept := by rintro _ _ _ _ ⟨⟩

theorem new (path : String) : FileUnit.Regular { path } none [] := by
  constructor
  case orderly =>
    intro t ht
    obtain rfl := List.suffix_nil.1 ht
    exact orderly_nil
  case passed => rfl
  case runs => rfl
  case errors => exact fun _ => rfl
  case strays => exact fun _ _ => rfl
  case latest => rintro _ ⟨⟩
  case stage => rintro _ _ ⟨⟩
  case count => rintro _ _ ⟨⟩
  case bound => rintro _ ⟨⟩
  case below | stuck | granted => exact fun _ he => absurd he List.not_mem_nil

end FileUnit.Regular

/-! ### Workspaces -/

namespace Workspace

def history (w : Workspace) (id : UnitId) : Journal := w.journal.filter (·.unit == id)

/-- The stages that are running, with the numbers of errors that their units had when they began. -/
abbrev Running := UnitId → Option (UnitStatus × Nat)

/-- Every unit is regular, and nothing was written about units that are not there. -/
structure Regular (w : Workspace) (running : Running) : Prop where
  units : ∀ id, (w.unit id).Regular (running id) (w.history id)
  known : ∀ e ∈ w.journal, e.unit < w.units.size

variable {w w' : Workspace} {running : Running} {id k : UnitId} {e : UnitEvent}

theorem history_happen_self (h : id < w.units.size) : (w.happen id e).history id =
      ⟨id, ((w.unit id).apply e).status, ((w.unit id).apply e).failedAt, e⟩ :: w.history id := by
  rw [happen_of_lt h]
  simp [history]

theorem history_happen_of_ne (h : k ≠ id) : (w.happen id e).history k = w.history k := by
  rcases Nat.lt_or_ge id w.units.size with hid | hid
  · rw [happen_of_lt hid]
    simp [history, h.symm]
  · rw [happen_of_le hid]

namespace Regular

theorem idle (h : w.Regular running) (hid : w.units.size ≤ id) :
    running id = none ∧ w.history id = [] := by
  have hnil : w.history id = [] := by
    refine List.filter_eq_nil_iff.2 fun e he heq => ?_
    have hlt := h.known e he
    rw [beq_iff_eq.1 heq] at hlt
    exact absurd hlt (Nat.not_lt.2 hid)
  have hruns := (h.units id).runs
  rw [hnil] at hruns
  exact ⟨Option.isSome_eq_false_iff.1 hruns.symm |> Option.isNone_iff_eq_none.1, hnil⟩

variable {running' : Running}

section

variable (h : w.Regular running)

include h

theorem of_unit (hsize : w'.units.size = w.units.size)
    (hunit : ∀ k, k ≠ id → w'.unit k = w.unit k) (hrunning : ∀ k, k ≠ id → running' k = running k)
    (hhistory : ∀ k, k ≠ id → w'.history k = w.history k)
    (hid : (w'.unit id).Regular (running' id) (w'.history id))
    (hknown : ∀ e ∈ w'.journal, e.unit < w.units.size) : w'.Regular running' where
  units k := by
    by_cases hk : k = id
    · subst hk
      exact hid
    · rw [hunit k hk, hrunning k hk, hhistory k hk]
      exact h.units k
  known e he := hsize ▸ hknown e he

theorem happen (hrunning : ∀ k, k ≠ id → running' k = running k)
    (hid : id < w.units.size) (hunit : (w.unit id).Regular (running id) (w.history id) →
      ((w.unit id).apply e).Regular (running' id)
        (⟨id, ((w.unit id).apply e).status, ((w.unit id).apply e).failedAt, e⟩ :: w.history id)) :
    (w.happen id e).Regular running' := by
  refine h.of_unit size_happen (fun k hk => unit_happen_of_ne hk) hrunning
    (fun k hk => history_happen_of_ne hk) ?_ ?_
  · rw [unit_happen_self hid, history_happen_self hid]
    exact hunit (h.units id)
  · rw [happen_of_lt hid, List.forall_mem_cons]
    exact ⟨hid, h.known⟩

theorem andHappen (id : UnitId) (hunit : (w.unit id).Regular (running id) (w.history id) →
      ((w.unit id).apply e).Regular (running id)
        (⟨id, ((w.unit id).apply e).status, ((w.unit id).apply e).failedAt, e⟩ :: w.history id)) :
    (w.happen id e).Regular running := by
  rcases Nat.lt_or_ge id w.units.size with hid | hid
  · exact h.happen (fun _ _ => rfl) hid hunit
  · rwa [happen_of_le hid]

section

variable (id) (cls : ClassId) (base : StaticType)

theorem reported (d : Diagnostic) : (w.happen id (.reported d)).Regular running :=
  h.andHappen id fun hu => hu.reported id d

theorem answered (status : UnitStatus) :
    (w.happen id (.answered status ((w.unit id).grants status))).Regular running := by
  refine h.andHappen id fun hu => hu.silent rfl rfl rfl ⟨rfl, rfl⟩ rfl rfl rfl fun s g hs => ?_
  cases hs
  rfl

theorem inheriting : (w.happen id (.inheriting cls)).Regular running :=
  h.andHappen id fun hu => hu.silent rfl rfl rfl ⟨rfl, rfl⟩ rfl rfl rfl nofun

theorem inherits (native : Option String) :
    (w.happen id (.inherits cls base native)).Regular running :=
  h.andHappen id fun hu => hu.silent rfl rfl rfl ⟨rfl, rfl⟩ rfl rfl rfl nofun

theorem spoiled : (w.happen id (.spoiled cls base)).Regular running :=
  h.andHappen id fun hu => hu.silent rfl rfl rfl ⟨rfl, rfl⟩ rfl rfl rfl nofun

theorem poison (d : Diagnostic) : (w.poison id cls d).Regular running := by
  rw [Workspace.poison]
  have h1 := (h.spoiled id cls
    ((((w.unit id).classFacts? cls).map (·.base)).getD .variant)).reported id d
  revert h1
  generalize ((w.happen id _).happen id _) = w1
  intro h1
  cases hfailed : (w1.unit id).failedAt with
  | some f => exact h1
  | none =>
    refine h1.andHappen id fun hu => hu.failed id (by simp [hfailed]) ?_ fun s n hs => ?_
    · split
      · exact Nat.le_max_left _ _
      · exact Nat.le_max_right _ _
    · obtain ⟨hstatus, hbases, -⟩ := hu.stage s n hs
      rw [hstatus]
      exact if_pos (decide_eq_true hbases)

end

theorem modifyUnit {f : FileUnit → FileUnit} (hs : (f (w.unit id)).status = (w.unit id).status)
    (hf : (f (w.unit id)).failedAt = (w.unit id).failedAt)
    (hd : (f (w.unit id)).diagnostics = (w.unit id).diagnostics) :
    (w.modifyUnit id f).Regular running := by
  rcases Nat.lt_or_ge id w.units.size with hid | hid
  · refine h.of_unit size_modifyUnit (fun k hk => unit_modifyUnit_of_ne hk) (fun _ _ => rfl)
      (fun _ _ => rfl) ?_ h.known
    rw [unit_modifyUnit_self hid]
    exact (h.units id).quiet hs hf hd
  · rwa [modifyUnit_of_le hid]

theorem of_units (hu : w'.units = w.units) (hj : w'.journal = w.journal) : w'.Regular running where
  units id := by
    have hunit : w'.unit id = w.unit id := by rw [unit, unit, hu]
    have hhistory : w'.history id = w.history id := by rw [history, history, hj]
    rw [hunit, hhistory]
    exact h.units id
  known := by
    rw [hj, hu]
    exact h.known

theorem addUnit (path : String) : (w.addUnit path).2.Regular running where
  units id := by
    obtain ⟨hidle, hnil⟩ := h.idle (Nat.le_refl w.units.size)
    by_cases hid : id = w.units.size
    · subst hid
      have hnew : (w.addUnit path).2.unit w.units.size = { path } := by
        simp [Workspace.addUnit, unit]
      rw [hnew, hidle]
      show FileUnit.Regular { path } none (w.history w.units.size)
      rw [hnil]
      exact .new path
    · have hold : (w.addUnit path).2.unit id = w.unit id := by
        simp [Workspace.addUnit, unit, Array.getElem?_push, hid]
      rw [hold]
      exact h.units id
  known e he := Nat.lt_of_lt_of_le (h.known e he) (by simp [Workspace.addUnit])

theorem installed (hid : running id = none) (r : Reading) (digest : UInt64) :
    ((w.modifyUnit id fun u => (u.install r digest).2).happen id .read).Regular running := by
  rcases Nat.lt_or_ge id w.units.size with hlt | hle
  · have hlt' : id < (w.modifyUnit id fun u => (u.install r digest).2).units.size :=
      size_modifyUnit.symm ▸ hlt
    refine h.of_unit (size_happen.trans size_modifyUnit)
      (fun k hk => (unit_happen_of_ne hk).trans (unit_modifyUnit_of_ne hk)) (fun _ _ => rfl)
      (fun k hk => history_happen_of_ne hk) ?_ ?_
    · rw [unit_happen_self hlt', history_happen_self hlt', unit_modifyUnit_self hlt, hid]
      exact (hid ▸ h.units id).read id r digest
    · rw [happen_of_lt hlt', List.forall_mem_cons]
      exact ⟨hlt, h.known⟩
  · rwa [modifyUnit_of_le hle, happen_of_le hle]

theorem readInto (hid : running id = none) (source : Source) :
    (w.readInto id source).2.Regular running := by
  obtain ⟨hsame, -⟩ | ⟨r, heap, -, hread⟩ := w.readInto_cases id source
  · rwa [hsame]
  · have h' : { w with heap := heap }.Regular running := h.of_units rfl rfl
    rw [hread]
    exact h'.installed hid r _

theorem openUnit (path : String) : (w.openUnit path).2.Regular running := by
  obtain hsame | ⟨source, -, hopen⟩ := w.openUnit_cases path
  · rwa [hsame]
  · rw [hopen]
    have hidle := (h.idle (Nat.le_refl w.units.size)).1
    exact ((h.addUnit path).readInto hidle source).of_units rfl rfl

end

end Regular

/-! ### The ladder -/

def Running.Above (running : Running) (level : UnitStatus) : Prop :=
  ∀ id s n, running id = some (s, n) → level.rank ≤ s.rank

def Order.regular (level : UnitStatus) : Order where
  le w w' := w.Later w' ∧ ∀ running : Running, running.Above level → w.Regular running →
    w'.Regular running
  refl w := ⟨.refl w, fun _ _ h => h⟩
  trans h h' := ⟨h.1.trans h'.1, fun running ha hr => h'.2 running ha (h.2 running ha hr)⟩
  later h := h.1
  heap _ _ _ := ⟨.heap _, fun _ _ h => h.of_units rfl rfl⟩
  quiet _ hq _ := ⟨.quiet fun _ => hq, fun _ _ h => h.modifyUnit hq.status hq.failedAt
    hq.diagnostics⟩
  depends k h _ := by
    refine ⟨later_addDependency k h, fun _ _ hr => hr.modifyUnit ?_ ?_ ?_⟩
    all_goals
      rw [FileUnit.addDependency]
      split <;> rfl
  reported w id d _ := ⟨later_reported w id d, fun _ _ h => h.reported id d⟩

theorem Order.regular_solvesBases (level : UnitStatus) : (Order.regular level).SolvesBases where
  begun h := ⟨later_inheriting h, fun _ _ hr => hr.inheriting _ _⟩
  settled base native h hle := ⟨Later.inherits ((later_inheriting h).trans hle.1) h base native,
    fun running ha hr => (hle.2 running ha (hr.inheriting _ _)).inherits _ _ _ _⟩
  spoiled w id cls base := ⟨later_spoiled w id cls base, fun _ _ h => h.spoiled _ _ _⟩
  complained w id d := ⟨later_reported w id d, fun _ _ h => h.reported _ _⟩
  poisoned w id cls d := ⟨later_poison w id cls d, fun _ _ h => h.poison _ _ _⟩

/-- A stage begins in a unit in which none is running: one that is running there is at the level of
the request or above, and the stage that begins is not. -/
theorem Regular.stage {level next : UnitStatus} (h : w.Regular running) (ha : running.Above level)
    (hnext : (w.unit id).status.next? = some next) (hempty : (w.unit id).status ≠ .empty)
    (hlevel : next.rank ≤ level.rank) (hopen : (w.unit id).failedAt.filter next.reaches = none)
    (hinner : ((Order.regular next.reach).le (w.happen id (.began next)) w')) :
    (w'.endStage id next (w.unit id).errorCount).Regular running := by
  have hidle : running id = none := by
    cases hr : running id with
    | none => rfl
    | some x =>
      obtain ⟨s, n⟩ := x
      obtain ⟨hstatus, -⟩ := (h.units id).stage s n hr
      have hle : next.rank ≤ s.rank := Nat.le_trans hlevel (ha id s n hr)
      rw [UnitStatus.rank_next hnext, hstatus] at hle
      exact absurd hle (Nat.not_succ_le_self _)
  have hid : id < w.units.size := by
    refine Nat.lt_of_not_le fun hle => hempty ?_
    rw [unit, Array.getElem?_eq_none hle]
    rfl
  -- while the stage is running
  let running' : Running := fun k =>
    if k = id then some (next, (w.unit id).errorCount) else running k
  have hself : running' id = some (next, (w.unit id).errorCount) := if_pos rfl
  have hother (k : UnitId) (hk : k ≠ id) : running' k = running k := if_neg hk
  have hbegan : (w.happen id (.began next)).Regular running' := by
    refine h.happen hother hid fun hu => ?_
    rw [hself]
    rw [hidle] at hu
    exact hu.began id hnext hempty hopen
  have habove : running'.Above next.reach := by
    have hreach : next.reach.rank ≤ next.rank := by cases next <;> decide
    intro k s n hk
    by_cases hkid : k = id
    · subst hkid
      rw [hself] at hk
      cases hk
      exact hreach
    · rw [hother k hkid] at hk
      exact Nat.le_trans (Nat.le_trans hreach hlevel) (ha k s n hk)
  have hran := hinner.2 running' habove hbegan
  have hsize : id < w'.units.size := (hinner.1.units id (Nat.lt_of_lt_of_eq hid size_happen.symm)).1
  -- when it ends
  rw [endStage]
  split
  · next hmore =>
    have hfailed : (w'.happen id (.failed next)).Regular running' := by
      refine hran.andHappen id fun hu => ?_
      obtain ⟨hstatus, -, hsame⟩ := hu.stage _ _ hself
      exact hu.failed id hsame (hstatus ▸ Nat.le_max_left _ _) fun s n hs => by
        rw [hself] at hs
        cases hs
        rfl
    refine hfailed.happen (fun k hk => (hother k hk).symm)
      (Nat.lt_of_lt_of_eq hsize size_happen.symm) fun hu => ?_
    rw [hself] at hu
    rw [hidle]
    refine hu.ended id fun hnone => ?_
    rw [unit_happen_self hsize] at hnone
    cases hnone
  · next hmore =>
    refine hran.happen (fun k hk => (hother k hk).symm) hsize fun hu => ?_
    rw [hself] at hu
    rw [hidle]
    exact hu.ended id fun _ => Nat.not_lt.1 hmore

def Ladder.regular : Ladder where
  order := Order.regular
  opened _ w path := ⟨later_openUnit w path, fun _ _ h => h.openUnit path⟩
  stage hnext hempty hlevel hopen hle :=
    ⟨((later_began hnext).trans hle.1).trans (later_endStage _ _ _ _), fun _ ha h =>
      h.stage ha hnext hempty hlevel hopen hle⟩
  answered _ w id status := ⟨later_answered w id status _, fun _ _ h => h.answered id status⟩

theorem Ladder.regular_findsBases : Ladder.regular.FindsBases :=
  fun level _ hr => .resolveInheritance (Order.regular_solvesBases level) hr

end Workspace

end HotScript
