import HotScript.Analysis.Stage
import HotScript.Code.Function

/-!
Where the variables of a class are stored.

Instance variables are numbered in the order of their declarations, after those of the base; static
variables are numbered from zero in each class.
-/

namespace HotScript

structure Layout where
  baseCount : Nat := 0
  instances : Table String Slot := {}
  statics : Table String Slot := {}
deriving Inhabited

namespace Layout

def total (l : Layout) : Nat := l.baseCount + l.instances.size

def add (l : Layout) (m : MemberFacts) : Layout :=
  match m.kind with
  | .variable isStatic getter setter exported =>
    let slot (index : Nat) : Slot :=
      { name := m.name, index, type := m.type, getter, setter, exported, line := m.span.line }
    if isStatic then { l with statics := l.statics.insert m.name (slot l.statics.size) }
    else { l with instances := l.instances.insert m.name (slot l.total) }
  | _ => l

/-- The storage of a class whose bases use `baseCount` slots. -/
def ofMembers (baseCount : Nat) (members : List MemberFacts) : Layout :=
  (orderBy (·.index) members).foldl add { baseCount }

end Layout

abbrev Layouts := List (ClassRef × Except CompileFault Layout)

def Layouts.find? (ls : Layouts) (cls : ClassRef) : Option (Except CompileFault Layout) :=
  (List.find? (fun e => e.1.same cls) ls).map (·.2)

def CompileFault.notAnalyzed (cls : ClassRef) : CompileFault :=
  .internal ("class \"" ++ cls.qualified ++ "\" was not analyzed") {}

namespace Workspace

def factsFor (w : Workspace) (id : UnitId) (cls : ClassRef) :
    Option (Option ClassFacts × Workspace) := do
  let u := w.unit id
  if cls.path == u.path then some (u.classFacts? cls.index, w)
  else
    match u.depended.find? cls.path with
    | some other => some ((w.unit other).classFacts? cls.index, w)
    | none =>
      let (other, w) ← w.getUnit cls.path .interfaceSolved
      match other with
      | .ok other => some ((w.unit other).classFacts? cls.index, w)
      | .error _ => some (none, w)

/-- Add the layout of a class, and before it those of its bases, unless it is there. -/
def addLayout (id : UnitId) : Nat → ClassRef → Layouts → Workspace → Option (Layouts × Workspace)
  | 0, _, _, _ => none
  | n + 1, cls, ls, w =>
    if (ls.find? cls).isSome then some (ls, w)
    else do
      let (facts, w) ← w.factsFor id cls
      match facts with
      | none => some ((cls, .error (.notAnalyzed cls)) :: ls, w)
      | some facts =>
        let members := facts.members.values
        match facts.base.class? with
        | none => some ((cls, .ok (.ofMembers 0 members)) :: ls, w)
        | some base =>
          let (ls, w) ← addLayout id n base ls w
          let layout := ((ls.find? base).getD (.error (.notAnalyzed base))).map fun l =>
            Layout.ofMembers l.total members
          some ((cls, layout) :: ls, w)

/-- The class whose static storage a name is in. -/
def ownerOf (f : ExprFacts) : Option ClassRef :=
  match f.referent with
  | some (.staticVariable owner _) => some owner
  | _ => none

/-- The layouts of all classes whose storage the unit uses. Instance variables are only reached in
the unit's own classes and their bases; those of other objects are read by name. -/
def layoutsFor (w : Workspace) (id : UnitId) : Option (Layouts × Workspace) :=
  let u := w.unit id
  let classes := u.classes.toList.map (·.ref) ++ u.nodes.exprs.values.filterMap ownerOf
  classes.foldlM (fun (ls, w) cls => addLayout id Analyze.patience cls ls w) ([], w)

end Workspace

end HotScript
