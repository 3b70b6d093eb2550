import HotScript.Proofs.Live.Supervision

/-!
The moments of a reload.

A reload saves the state of files, compiles the files one after the other, and writes back what was
saved. Each of these things is done in a state that the run has come to by then. The relations here
say which states these are: they follow the run step by step (`Live.Meets`), so that nothing but a
state of the run is a moment of it. What one runner comes to, any runner above it comes to as well.
-/

namespace HotScript

/-- A part of saved state: the value of a static variable of a class, or the variables of an
instance. -/
inductive SavedEntry
  | static (s : ScriptId) (name : String) (v : Value)
  | inst (i : InstanceId) (values : List (String × Value))

/-- A reload: of the file of a class, or of files and everything that refers to them. -/
inductive Reloading
  | one (s : ScriptId)
  | many (paths : List String)

/-- The files that are reloaded, in order, with their head classes. -/
def Reloading.files (w : World) : Reloading → List (String × ScriptId)
  | .one s => [((w.script (w.head s)).path, w.head s)]
  | .many paths => w.inReloadOrder (w.cache.affected paths)

namespace Live

/-- A loop over a list comes to an element, with others still behind it, in a state. -/
inductive Meets {α : Type} (act : α → List α → Live Unit) :
    List α → World → α → List α → World → Prop
  | here {x : α} {rest : List α} {w : World} : Meets act (x :: rest) w x rest w
  | later {x y : α} {rest left : List α} {w w1 v : World} (run : act x rest w = some ((), w1))
    (next : Meets act rest w1 y left v) : Meets act (x :: rest) w y left v

/-- A saved value of an instance that was initialized afresh is written back in a state. -/
def PutsBack (r : Runner) (i : InstanceId) (values : List (String × Value)) (fresh : World)
    (name : String) (x : Value) (k : World) : Prop :=
  ∃ rest v, Meets (putBack r i) values fresh (name, x) rest v ∧
    k = { v with held := namedCells ((name, x) :: rest) :: v.held }

/-- When the state of a file is written back, starting in the state `w`, an entry has its turn. -/
inductive Returning (r : Runner) (p : Prepared) (w : World) : SavedEntry → World → Prop
  | static {qualified name : String} {values left : List (String × Value)} {x : Value}
      {s : ScriptId}
    {rest : List (String × List (String × Value))} {v k : World}
    (cls : Meets (restoreClass p.script) p.saved.statics w (qualified, values) rest v)
    (found : v.findClass? p.script qualified = some s)
    (turn : Meets (writeStatic s) values v (name, x) left k) : Returning r p w (.static s name x) k
  | inst {i : InstanceId} {values : List (String × Value)}
    {rest : List (InstanceId × List (String × Value))} {v k : World}
    (statics : restoreStatics p.script p.saved.statics w = some ((), v))
    (turn : Meets (restoreInstance r) p.saved.instances v (i, values) rest k) :
    Returning r p w (.inst i values) { k with held := (.inst i :: savedCells rest) :: k.held }

end Live

namespace Reloading

variable (r : Runner) (keep : Bool) (w : World)

/-- One of several files is about to be saved, with those before it saved or given up. -/
def Prepares (paths : List String) (path : String) (s : ScriptId) (u : World) : Prop :=
  ∃ before behind report batch v, w.inReloadOrder (w.cache.affected paths) = before ++ (path, s) ::
    behind ∧ Live.prepareAll r keep {} [] before (paths.foldl (fun w path => w.removeUnit path) w) =
      some ((report, batch), v) ∧
    u = { v with held := Prepared.cells batch :: v.held }

/-- The state of all files was saved, as far as it was not refused. -/
def Saves : Reloading → ReloadReport → List Prepared → World → Prop
  | .one s, report, batch, u => ∃ saved v,
      Live.saveState r (w.head s) keep { w with held := [.script (w.head s)] :: w.held } =
        some (.ok saved, v) ∧
      report = {} ∧ batch = [⟨(w.script (w.head s)).path, w.head s, saved⟩] ∧
      u = { v with held := saved.cells :: v.held }
  | .many paths, report, batch, u => ∃ v,
      Live.prepareAll r keep {} [] (w.inReloadOrder (w.cache.affected paths))
        (paths.foldl (fun w path => w.removeUnit path) w) = some ((report, batch), v) ∧
      u = { v with held := Prepared.cells batch :: v.held }

/-- A file is about to be compiled, with those before it installed or given up. -/
def Compiles (call : Reloading) (p : Prepared) (u : World) : Prop :=
  ∃ report before behind v report', call.Saves r keep w report (before ++ p :: behind) v ∧
    Live.recompileAll r report before v = some (report', u)

/-- The state of a file is about to be written back. -/
def Returns : Reloading → Prepared → World → Prop
  | .one s, p, u => ∃ report v w1, Saves r keep w (.one s) report [p] v ∧
      Live.recompile r p.script v = some (.ok (), w1) ∧ u = { w1 with held := w1.held.tail }
  | .many paths, p, u =>
    ∃ report batch v report' w1 rest k, Saves r keep w (.many paths) report batch v ∧
      Live.recompileAll r report batch v = some (report', w1) ∧
      Live.Meets (Live.restoreFile r) batch { w1 with held := w1.held.tail } p rest k ∧
      u = { k with held := (.script p.script :: Prepared.cells rest) :: k.held }

/-- An entry of what was saved is written back in a state. -/
def Writes (call : Reloading) (entry : SavedEntry) (k : World) : Prop :=
  ∃ p u, call.Returns r keep w p u ∧ Live.Returning r p u entry k

/-- A saved value of an instance is written back in a state. -/
def Puts (call : Reloading) (i : InstanceId) (name : String) (x : Value) (k : World) : Prop :=
  ∃ values u fresh, call.Writes r keep w (.inst i values) u ∧
    Live.renew r i (Live.namedCells values) u = some ((), fresh) ∧
    Live.PutsBack r i values fresh name x k

end Reloading

/-! ### Runners above one another -/

variable {r r' : Runner} {w : World}

theorem Live.Meets.mono {α : Type} {act act' : α → List α → Live Unit}
    (hact : ∀ x rest, Below (act x rest) (act' x rest)) {xs rest : List α} {x : α} {v : World}
    (h : Meets act xs w x rest v) : Meets act' xs w x rest v := by
  induction h with
  | here => exact .here
  | later run _ ih => exact .later ((hact _ _).same run) ih

theorem Live.Meets.mem {α : Type} {act : α → List α → Live Unit} {xs rest : List α} {x : α}
    {v : World} (h : Meets act xs w x rest v) : x ∈ xs := by
  induction h with
  | here => exact .head _
  | later _ _ ih => exact .tail _ ih

/-- A loop that ends has come to each element. -/
theorem Live.meets_of_mem {α : Type} {act : α → List α → Live Unit} {xs : List α} {x : α} {u : Unit}
    {w' : World} (h : each act xs w = some (u, w')) (hx : x ∈ xs) :
    ∃ rest v, Meets act xs w x rest v := by
  induction xs generalizing w with
  | nil => cases hx
  | cons y xs ih =>
    obtain ⟨_, w1, h1, h⟩ := bind_some.1 h
    rcases List.mem_cons.1 hx with rfl | hx
    · exact ⟨xs, w, .here⟩
    · obtain ⟨rest, v, hmeets⟩ := ih h hx
      exact ⟨rest, v, .later h1 hmeets⟩

variable (hr : r.Below r')
include hr

omit hr in
theorem Live.PutsBack.mem {i : InstanceId} {values : List (String × Value)} {name : String}
    {x : Value} {k : World} (h : PutsBack r i values w name x k) : (name, x) ∈ values := by
  obtain ⟨rest, v, hmeets, -⟩ := h
  exact hmeets.mem

theorem Live.PutsBack.mono {i : InstanceId} {values : List (String × Value)} {name : String}
    {x : Value} {k : World} (h : PutsBack r i values w name x k) :
    PutsBack r' i values w name x k := by
  obtain ⟨rest, v, hmeets, hk⟩ := h
  exact ⟨rest, v, hmeets.mono (follows_putBack hr i), hk⟩

theorem Live.Returning.mono {p : Prepared} {entry : SavedEntry} {k : World}
    (h : Returning r p w entry k) : Returning r' p w entry k := by
  cases h with
  | static cls found turn => exact .static cls found turn
  | inst statics turn => exact .inst statics (turn.mono (follows_restoreInstance hr))

namespace Reloading

variable {keep : Bool} {call : Reloading} {p : Prepared} {u : World}

theorem Saves.mono {report : ReloadReport} {batch : List Prepared}
    (h : call.Saves r keep w report batch u) : call.Saves r' keep w report batch u := by
  cases call with
  | one s =>
    obtain ⟨saved, v, hsave, hrest⟩ := h
    exact ⟨saved, v, (Live.follows_saveState hr _ keep).same hsave, hrest⟩
  | many paths =>
    obtain ⟨v, hprepare, hu⟩ := h
    exact ⟨v, (Live.follows_prepareAll hr _ _ _ _).same hprepare, hu⟩

theorem Compiles.mono (h : call.Compiles r keep w p u) : call.Compiles r' keep w p u := by
  obtain ⟨report, before, behind, v, report', hsaves, hrun⟩ := h
  exact ⟨report, before, behind, v, report', hsaves.mono hr,
    (Live.follows_recompileAll hr _ _).same hrun⟩

theorem Returns.mono (h : call.Returns r keep w p u) : call.Returns r' keep w p u := by
  cases call with
  | one s =>
    obtain ⟨report, v, w1, hsaves, hrun, hu⟩ := h
    exact ⟨report, v, w1, hsaves.mono hr, (Live.follows_recompile hr _).same hrun, hu⟩
  | many paths =>
    obtain ⟨report, batch, v, report', w1, rest, k, hsaves, hrun, hmeets, hu⟩ := h
    exact ⟨report, batch, v, report', w1, rest, k, hsaves.mono hr,
      (Live.follows_recompileAll hr _ _).same hrun,
      hmeets.mono fun _ _ => .holding (Live.follows_restoreState hr _ _), hu⟩

theorem Writes.mono {entry : SavedEntry} (h : call.Writes r keep w entry u) :
    call.Writes r' keep w entry u := by
  obtain ⟨p, v, hreturns, hturn⟩ := h
  exact ⟨p, v, hreturns.mono hr, hturn.mono hr⟩

end Reloading

end HotScript
