import HotScript.Live.Project

/-!
How the code of a running project changes.

`World.Step` lists what can happen at once, and `World.Evolves` puts steps one after the other. Two
kinds of step leave a trace: code being installed in a class, and a callable being made for a
lambda.

A callable holds a place in the table that its class has when it is made, and every class has its
own (`World.OwnTables`). Installing code retargets the current table and gives the class a fresh
one, so an entry is retargeted by the first version after the callable was made and by no other
(`World.Evolves.table`).
-/

namespace HotScript

/-- What happened to code, or to a callable that stands for a lambda. -/
inductive CodeEvent
  | installed (s : ScriptId) (c : ClassCode)
  /-- A callable was made for the lambda of a class that has a place, a function at the time. -/
  | made (callable : Nat) (s : ScriptId) (place : Nat) (f : FunctionCode)

def CodeEvent.version? (s : ScriptId) : CodeEvent → Option ClassCode
  | .installed s' c => if s' = s then some c else none
  | .made .. => none

/-- The versions of a class that were installed, oldest first. -/
def versions (s : ScriptId) (events : List CodeEvent) : List ClassCode :=
  events.filterMap (CodeEvent.version? s)

structure Script.SameVersion (x y : Script) : Prop where
  code : y.code = x.code
  base : y.base = x.base
  isValid : y.isValid = x.isValid
  lambdas : y.lambdas = x.lambdas

theorem Script.SameVersion.refl (x : Script) : x.SameVersion x := ⟨rfl, rfl, rfl, rfl⟩

def Closure.IsNamed : Closure → Prop
  | .lambda .. => False
  | .method .. | .static .. => True

namespace World

/-- What can happen to a running project at once, with what it did to code. -/
inductive Step : World → List CodeEvent → World → Prop
  | calls (w : World) (frames : List Activation) (held : List (List Cell)) (depth : Nat)
      (log : List String) : Step w [] { w with frames, held, depth, log }
  | work (w : World) (work : Workspace) : Step w [] { w with work }
  | cache (w : World) (cache : Cache) : Step w [] { w with cache }
  | objects (w : World) (objects : Array HostObject) : Step w [] { w with objects }
  | attached (w : World) (i : Instance) : Step w [] { w with instances := w.instances.push i }
  | inst (w : World) (i : InstanceId) (f : Instance → Instance) : Step w [] (w.modifyInstance i f)
  | closure (w : World) (c : Closure) (named : c.IsNamed) :
      Step w [] { w with closures := w.closures.push c }
  | script (w : World) (s : ScriptId) (f : Script → Script)
      (same : ∀ x : Script, x.SameVersion (f x)) : Step w [] (w.modifyScript s f)
  | added (w : World) (path qualified name : String) : Step w [] (w.addScript path qualified name).2
  | made (w : World) (s : ScriptId) (place : Nat) (captures : List Value)
      (bound : Option InstanceId) (f : FunctionCode) (known : s < w.scripts.size)
      (entry : (w.lambdaTable (w.script s).lambdas).get? place = some f) :
      Step w [.made w.closures.size s place f]
        { w with closures := w.closures.push (.lambda (w.script s).lambdas place s captures bound) }
  | installed (w : World) (s : ScriptId) (c : ClassCode) (base : Option ScriptId)
      (scripts : List ScriptId) (statics : Array Value) (known : s < w.scripts.size) :
      Step w [.installed s c] (w.swapClass s c base scripts statics)

/-- Steps one after the other, with all that they did to code. -/
inductive Evolves : World → List CodeEvent → World → Prop
  | refl (w : World) : Evolves w [] w
  | step {w w1 w' : World} {e events : List CodeEvent} (head : w.Step e w1)
      (rest : Evolves w1 events w') : Evolves w (e ++ events) w'

namespace Evolves

variable {w' : World}

theorem single {w : World} {e : List CodeEvent} (h : w.Step e w') : w.Evolves e w' :=
  List.append_nil e ▸ .step h (.refl w')

theorem trans {w w1 : World} {events events' : List CodeEvent} (h : w.Evolves events w1)
    (h' : w1.Evolves events' w') : w.Evolves (events ++ events') w' := by
  induction h with
  | refl w => exact h'
  | step head _ ih =>
    rw [List.append_assoc]
    exact .step head (ih h')

end Evolves

/-! ### Classes and tables after a change -/

variable {w w' : World} {s : ScriptId}

theorem script_of_ge (h : w.scripts.size ≤ s) : w.script s = default := by
  simp [script, Array.getElem?_eq_none h]

theorem script_modifyScript (w : World) (s t : ScriptId) (f : Script → Script) :
    (w.modifyScript s f).script t = if t = s ∧ s < w.scripts.size then f (w.script s)
    else w.script t := by
  unfold modifyScript script
  rw [Array.getElem?_modify]
  by_cases hs : s = t
  · subst hs
    by_cases hlt : s < w.scripts.size
    · simp [hlt]
    · simp [hlt]
  · simp [hs, Ne.symm hs]

variable (path qualified name : String)

theorem script_addScript (w : World) (s : ScriptId) : (w.addScript path qualified name).2.script s =
      if s = w.scripts.size then { path, qualified, name, lambdas := w.lambdas.size }
      else w.script s := by
  unfold addScript script
  rw [Array.getElem?_push]
  split <;> rfl

theorem lt_of_lt_addScript {path qualified name : String}
    (h : s < (w.addScript path qualified name).2.scripts.size) (hne : s ≠ w.scripts.size) :
    s < w.scripts.size := by
  have hlt : s < w.scripts.size + 1 := by simpa [addScript] using h
  exact Nat.lt_of_le_of_ne (Nat.le_of_lt_succ hlt) hne

theorem addScript_lambdas_size (w : World) :
    (w.addScript path qualified name).2.lambdas.size = w.lambdas.size + 1 := by
  simp [addScript]

theorem lambdaTable_addScript (w : World) (t : LambdasId) :
    (w.addScript path qualified name).2.lambdaTable t = w.lambdaTable t := by
  unfold addScript lambdaTable
  rw [Array.getElem?_push]
  split
  · rename_i h
    rw [Array.getElem?_eq_none (Nat.le_of_eq h.symm)]
    rfl
  · rfl

section Swap

variable {s t : ScriptId} (known : s < w.scripts.size) (c : ClassCode) (base : Option ScriptId)
  (scripts : List ScriptId) (statics : Array Value)

theorem swapClass_scripts_size :
    (w.swapClass s c base scripts statics).scripts.size = w.scripts.size := by
  unfold swapClass
  split <;> simp

include known

theorem swapClass_lambdas_size :
    (w.swapClass s c base scripts statics).lambdas.size = w.lambdas.size + 1 := by
  simp [swapClass, known]

theorem swapClass_closures : (w.swapClass s c base scripts statics).closures = w.closures := by
  simp [swapClass, known]

theorem script_swapClass_self : ((w.swapClass s c base scripts statics).script s).code = some c ∧
      ((w.swapClass s c base scripts statics).script s).lambdas = w.lambdas.size := by
  simp [swapClass, script, known]

theorem script_swapClass_of_ne (h : t ≠ s) :
    (w.swapClass s c base scripts statics).script t = w.script t := by
  simp [swapClass, script, known, h.symm]

theorem lambdaTable_swapClass (t : LambdasId) :
    (w.swapClass s c base scripts statics).lambdaTable t =
      if t = w.lambdas.size then .ofFunctions c.lambdas
      else if t = (w.script s).lambdas then (w.lambdaTable t).retarget c.lambdas
      else w.lambdaTable t := by
  have htable : (w.swapClass s c base scripts statics).lambdaTable t =
      (((w.lambdas.modify (w.script s).lambdas (·.retarget c.lambdas)).push
        (.ofFunctions c.lambdas))[t]?).getD default := by
    simp [swapClass, script, known, lambdaTable]
  rw [htable, Array.getElem?_push, Array.size_modify, Array.getElem?_modify]
  split
  · rfl
  · unfold lambdaTable
    split
    · rename_i h
      rw [if_pos h.symm]
      cases w.lambdas[t]? with
      | none => rfl
      | some table => rfl
    · rename_i h
      rw [if_neg (Ne.symm h)]

end Swap

/-! ### Every class has its own table -/

/-- No two classes have the same table, and the table of a class holds the functions of the version
that is installed. -/
structure OwnTables (w : World) : Prop where
  known : ∀ s < w.scripts.size, (w.script s).lambdas < w.lambdas.size
  distinct : ∀ s < w.scripts.size, ∀ t < w.scripts.size,
    (w.script s).lambdas = (w.script t).lambdas → s = t
  current : ∀ s < w.scripts.size, w.lambdaTable (w.script s).lambdas = match (w.script s).code with
    | some c => .ofFunctions c.lambdas
    | none => {}

theorem OwnTables.empty (h : w.scripts = #[]) : w.OwnTables :=
  ⟨fun s hs => by simp [h] at hs, fun s hs => by simp [h] at hs, fun s hs => by simp [h] at hs⟩

/-- Nobody has a table any more. -/
def Abandoned (w : World) (t : LambdasId) : Prop :=
  t < w.lambdas.size ∧ ∀ s < w.scripts.size, (w.script s).lambdas ≠ t

/-- Two states with the same versions, tables and callables for lambdas. -/
structure SameCode (w w' : World) : Prop where
  size : w'.scripts.size = w.scripts.size
  script : ∀ s, (w.script s).SameVersion (w'.script s)
  tables : w'.lambdas = w.lambdas
  closures : ∀ (i : Nat) t p s captures bound,
    w'.closures[i]? = some (Closure.lambda t p s captures bound) ↔
      w.closures[i]? = some (Closure.lambda t p s captures bound)

theorem SameCode.of_eq (hs : w'.scripts = w.scripts) (ht : w'.lambdas = w.lambdas)
    (hc : w'.closures = w.closures) : w.SameCode w' where
  size := by rw [hs]
  script s := by
    rw [World.script, World.script, hs]
    exact .refl _
  tables := ht
  closures i t p s captures bound := by rw [hc]

/-- The steps by what they do to code. -/
inductive Recodes (w : World) : List CodeEvent → World → Prop
  | same {w' : World} (same : w.SameCode w') : Recodes w [] w'
  | added (path qualified name : String) : Recodes w [] (w.addScript path qualified name).2
  | made (s : ScriptId) (place : Nat) (captures : List Value) (bound : Option InstanceId)
      (f : FunctionCode) (known : s < w.scripts.size)
      (entry : (w.lambdaTable (w.script s).lambdas).get? place = some f) :
      Recodes w [.made w.closures.size s place f]
        { w with closures := w.closures.push (.lambda (w.script s).lambdas place s captures bound) }
  | installed (s : ScriptId) (c : ClassCode) (base : Option ScriptId) (scripts : List ScriptId)
      (statics : Array Value) (known : s < w.scripts.size) :
      Recodes w [.installed s c] (w.swapClass s c base scripts statics)

theorem Step.recodes {e : List CodeEvent} (h : w.Step e w') : w.Recodes e w' := by
  cases h with
  | calls | work | cache | objects | attached | inst => exact .same (.of_eq rfl rfl rfl)
  | closure c named =>
    refine .same ⟨rfl, fun s => .refl _, rfl, fun i t p s captures bound => ?_⟩
    rw [Array.getElem?_push]
    split
    · rename_i h
      rw [Array.getElem?_eq_none (Nat.le_of_eq h.symm)]
      refine ⟨fun hc => ?_, nofun⟩
      cases hc
      exact named.elim
    · exact .rfl
  | script s f same =>
    refine .same ⟨by simp [modifyScript], fun t => ?_, rfl, fun _ _ _ _ _ _ => .rfl⟩
    rw [script_modifyScript]
    split
    · rename_i h
      exact h.1 ▸ same _
    · exact .refl _
  | added path qualified name => exact .added path qualified name
  | made s place captures bound f known entry => exact .made s place captures bound f known entry
  | installed s c base scripts statics known => exact .installed s c base scripts statics known

theorem SameCode.lambdaTable (h : w.SameCode w') (t : LambdasId) :
    w'.lambdaTable t = w.lambdaTable t := by
  simp [World.lambdaTable, h.tables]

/-- A class gets a fresh table, and the others stay as they are. -/
structure Renews (w : World) (s : ScriptId) (w' : World) : Prop where
  tables : w'.lambdas.size = w.lambdas.size + 1
  self : (w'.script s).lambdas = w.lambdas.size
  others : ∀ t < w'.scripts.size, t ≠ s → t < w.scripts.size ∧ w'.script t = w.script t

theorem renews_addScript (w : World) :
    w.Renews w.scripts.size (w.addScript path qualified name).2 where
  tables := addScript_lambdas_size path qualified name w
  self := by rw [script_addScript, if_pos rfl]
  others t ht hne := ⟨lt_of_lt_addScript ht hne, by rw [script_addScript, if_neg hne]⟩

theorem renews_swapClass (known : s < w.scripts.size) (c : ClassCode) (base : Option ScriptId)
    (scripts : List ScriptId) (statics : Array Value) :
    w.Renews s (w.swapClass s c base scripts statics) where
  tables := swapClass_lambdas_size known c base scripts statics
  self := (script_swapClass_self known c base scripts statics).2
  others t ht hne := by
    rw [swapClass_scripts_size] at ht
    exact ⟨ht, script_swapClass_of_ne known c base scripts statics hne⟩

namespace Renews

variable {s : ScriptId} (h : w.Renews s w')

include h

theorem known (hw : w.OwnTables) :
    ∀ t < w'.scripts.size, (w'.script t).lambdas < w'.lambdas.size := by
  intro t ht
  rw [h.tables]
  by_cases hts : t = s
  · rw [hts, h.self]
    exact Nat.lt_succ_self _
  · obtain ⟨ht, hsame⟩ := h.others t ht hts
    rw [hsame]
    exact Nat.lt_succ_of_lt (hw.known t ht)

theorem distinct (hw : w.OwnTables) : ∀ t < w'.scripts.size, ∀ u < w'.scripts.size,
    (w'.script t).lambdas = (w'.script u).lambdas → t = u := by
  intro t ht u hu he
  have hold := fun v hv hvs => (h.others v hv hvs).2 ▸ hw.known v (h.others v hv hvs).1
  by_cases hts : t = s <;> by_cases hus : u = s
  · rw [hts, hus]
  · rw [hts, h.self] at he
    exact absurd he.symm (Nat.ne_of_lt (hold u hu hus))
  · rw [hus, h.self] at he
    exact absurd he (Nat.ne_of_lt (hold t ht hts))
  · rw [(h.others t ht hts).2, (h.others u hu hus).2] at he
    exact hw.distinct t (h.others t ht hts).1 u (h.others u hu hus).1 he

theorem abandoned {t : LambdasId} (hlt : t < w.lambdas.size)
    (hne : ∀ u < w.scripts.size, u ≠ s → (w.script u).lambdas ≠ t) : w'.Abandoned t := by
  refine ⟨h.tables ▸ Nat.lt_succ_of_lt hlt, fun u hu => ?_⟩
  by_cases hus : u = s
  · rw [hus, h.self]
    exact Nat.ne_of_gt hlt
  · obtain ⟨hu, hsame⟩ := h.others u hu hus
    rw [hsame]
    exact hne u hu hus

end Renews

namespace Step

variable {e : List CodeEvent}

section

variable (h : w.Step e w') {s : ScriptId}

include h

theorem versions_cases (s : ScriptId) : versions s e = [] ∨ ∃ c, versions s e = [c] := by
  cases h.recodes with
  | same | added | made => exact .inl rfl
  | installed s' c =>
    by_cases he : s' = s
    · exact .inr ⟨c, by simp [versions, CodeEvent.version?, he]⟩
    · exact .inl (by simp [versions, CodeEvent.version?, he])

theorem scripts_size_le : w.scripts.size ≤ w'.scripts.size := by
  cases h.recodes with
  | same h => exact Nat.le_of_eq h.size.symm
  | added => simp [addScript]
  | made => exact Nat.le_refl _
  | installed s c base scripts statics => exact Nat.le_of_eq (swapClass_scripts_size ..).symm

theorem ownTables (hw : w.OwnTables) : w'.OwnTables := by
  cases h.recodes with
  | same h =>
    refine ⟨fun s hs => ?_, fun s hs t ht he => ?_, fun s hs => ?_⟩
    · rw [(h.script s).lambdas, h.tables]
      exact hw.known s (h.size ▸ hs)
    · rw [(h.script s).lambdas, (h.script t).lambdas] at he
      exact hw.distinct s (h.size ▸ hs) t (h.size ▸ ht) he
    · rw [(h.script s).lambdas, (h.script s).code, h.lambdaTable]
      exact hw.current s (h.size ▸ hs)
  | added path qualified name =>
    have hnew := w.renews_addScript path qualified name
    refine ⟨hnew.known hw, hnew.distinct hw, fun s hs => ?_⟩
    rw [lambdaTable_addScript, script_addScript]
    split
    · simp [World.lambdaTable]
      rfl
    · rename_i hne
      exact hw.current s (lt_of_lt_addScript hs hne)
  | made => exact ⟨hw.known, hw.distinct, hw.current⟩
  | installed s c base scripts statics known =>
    have hnew := renews_swapClass known c base scripts statics
    refine ⟨hnew.known hw, hnew.distinct hw, fun t ht => ?_⟩
    rw [lambdaTable_swapClass known]
    by_cases hts : t = s
    · obtain ⟨hcode, htable⟩ := script_swapClass_self known c base scripts statics
      rw [hts, htable, hcode, if_pos rfl]
    · obtain ⟨ht, hsame⟩ := hnew.others t ht hts
      rw [hsame, if_neg (Nat.ne_of_lt (hw.known t ht)), if_neg fun he =>
        hts (hw.distinct t ht s known he)]
      exact hw.current t ht

theorem abandoned {t : LambdasId} (ht : w.Abandoned t) :
    w'.Abandoned t ∧ w'.lambdaTable t = w.lambdaTable t := by
  obtain ⟨hlt, hne⟩ := ht
  cases h.recodes with
  | same h =>
    refine ⟨⟨h.tables ▸ hlt, fun s hs => ?_⟩, h.lambdaTable t⟩
    rw [(h.script s).lambdas]
    exact hne s (h.size ▸ hs)
  | added path qualified name =>
    exact ⟨(w.renews_addScript path qualified name).abandoned hlt fun u hu _ => hne u hu,
      lambdaTable_addScript ..⟩
  | made => exact ⟨⟨hlt, hne⟩, rfl⟩
  | installed s c base scripts statics known =>
    refine ⟨(renews_swapClass known c base scripts statics).abandoned hlt fun u hu _ =>
      hne u hu, ?_⟩
    rw [lambdaTable_swapClass known, if_neg (Nat.ne_of_lt hlt), if_neg (hne s known).symm]

theorem code (s : ScriptId) :
    (w'.script s).code = (versions s e).getLast?.or (w.script s).code := by
  cases h.recodes with
  | same hsame => exact (hsame.script s).code
  | added =>
    rw [script_addScript]
    split
    · rename_i hs
      rw [script_of_ge (Nat.le_of_eq hs.symm)]
      rfl
    · rfl
  | made => rfl
  | installed s' c base scripts statics known =>
    by_cases he : s' = s
    · rw [← he, (script_swapClass_self known c base scripts statics).1]
      simp [versions, CodeEvent.version?]
    · rw [script_swapClass_of_ne known _ _ _ _ (Ne.symm he)]
      simp [versions, CodeEvent.version?, he]

theorem unchanged (hw : w.OwnTables) (hs : s < w.scripts.size) (hv : versions s e = []) :
    (w'.script s).lambdas = (w.script s).lambdas ∧
      w'.lambdaTable (w.script s).lambdas = w.lambdaTable (w.script s).lambdas := by
  cases h.recodes with
  | same h => exact ⟨(h.script s).lambdas, h.lambdaTable _⟩
  | added =>
    rw [script_addScript, if_neg (Nat.ne_of_lt hs)]
    exact ⟨rfl, lambdaTable_addScript ..⟩
  | made => exact ⟨rfl, rfl⟩
  | installed s' c base scripts statics known =>
    have hne : s ≠ s' := fun he => by simp [versions, CodeEvent.version?, he] at hv
    rw [script_swapClass_of_ne known _ _ _ _ hne, lambdaTable_swapClass known,
      if_neg (Nat.ne_of_lt (hw.known s hs)),
      if_neg fun he => hne (hw.distinct s hs s' known he)]
    exact ⟨rfl, rfl⟩

theorem replaced (hw : w.OwnTables) {c : ClassCode} (hv : versions s e = [c]) :
    w'.Abandoned (w.script s).lambdas ∧ w'.lambdaTable (w.script s).lambdas =
        (w.lambdaTable (w.script s).lambdas).retarget c.lambdas := by
  cases h.recodes with
  | same | added | made => cases hv
  | installed s' c' base scripts statics known =>
    have hsame : s' = s ∧ c' = c := by
      by_cases he : s' = s
      · exact ⟨he, by simpa [versions, CodeEvent.version?, he] using hv⟩
      · simp [versions, CodeEvent.version?, he] at hv
    obtain ⟨rfl, rfl⟩ := hsame
    have hlt := hw.known s' known
    refine ⟨(renews_swapClass known c' base scripts statics).abandoned hlt fun u hu hus he =>
      hus (hw.distinct u hu s' known he), ?_⟩
    rw [lambdaTable_swapClass known, if_neg (Nat.ne_of_lt hlt), if_pos rfl]

end

end Step

/-! ### Whole runs -/

theorem versions_append (s : ScriptId) (events events' : List CodeEvent) :
    versions s (events ++ events') = versions s events ++ versions s events' :=
  List.filterMap_append

namespace Evolves

variable {events : List CodeEvent}
section

variable (h : w.Evolves events w') {s : ScriptId}

include h

theorem ownTables (hw : w.OwnTables) : w'.OwnTables := by
  induction h with
  | refl => exact hw
  | step head _ ih => exact ih (head.ownTables hw)

theorem abandoned {t : LambdasId} (ht : w.Abandoned t) : w'.lambdaTable t = w.lambdaTable t := by
  induction h with
  | refl => rfl
  | step head _ ih => exact (ih (head.abandoned ht).1).trans (head.abandoned ht).2

theorem code (s : ScriptId) :
    (w'.script s).code = (versions s events).getLast?.or (w.script s).code := by
  induction h with
  | refl => rfl
  | step head _ ih => rw [ih, head.code, versions_append, List.getLast?_append, Option.or_assoc]

/-- The table that a class has at the start is retargeted by the first version installed from then
on and by no other. -/
theorem table (hw : w.OwnTables) (hs : s < w.scripts.size) :
    w'.lambdaTable (w.script s).lambdas = match (versions s events).head? with
      | none => w.lambdaTable (w.script s).lambdas
      | some c => (w.lambdaTable (w.script s).lambdas).retarget c.lambdas := by
  induction h with
  | refl => rfl
  | @step w w1 w' e events head rest ih =>
    rw [versions_append]
    obtain he | ⟨c, he⟩ := head.versions_cases s
    · obtain ⟨hlambdas, htable⟩ := head.unchanged hw hs he
      have h := ih (head.ownTables hw) (Nat.lt_of_lt_of_le hs head.scripts_size_le)
      rw [hlambdas, htable] at h
      rw [h, he]
      rfl
    · obtain ⟨habandoned, htable⟩ := head.replaced hw he
      rw [rest.abandoned habandoned, htable, he]
      rfl

theorem made {i place : Nat} {t : LambdasId} {captures : List Value} {bound : Option InstanceId}
    (hi : w'.closures[i]? = some (.lambda t place s captures bound)) :
    w.closures[i]? = some (.lambda t place s captures bound) ∨
      ∃ before after, ∃ w1 : World, ∃ f, events = before ++ .made i s place f :: after ∧
        w.Evolves before w1 ∧ w1.Evolves (.made i s place f :: after) w' ∧
        s < w1.scripts.size ∧ t = (w1.script s).lambdas ∧
        (w1.lambdaTable t).get? place = some f := by
  induction h with
  | refl => exact .inl hi
  | @step w w1 w' e events head rest ih =>
    obtain h | ⟨before, after, v, f, rfl, hbefore, hrest⟩ := ih hi
    · cases head.recodes with
      | same hsame => exact .inl ((hsame.closures i t place s captures bound).1 h)
      | added => exact .inl h
      | made s' place' captures' bound' f known entry =>
        rw [Array.getElem?_push] at h
        split at h
        · rename_i hlast
          subst hlast
          cases h
          exact .inr ⟨[], events, w, f, rfl, .refl w, .step head rest, known, rfl, entry⟩
        · exact .inl h
      | installed s' c base scripts statics known =>
        rw [swapClass_closures known] at h
        exact .inl h
    · exact .inr ⟨e ++ before, after, v, f, by simp, .step head hbefore, hrest⟩

end

end Evolves

end World

end HotScript
