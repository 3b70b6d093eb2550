import HotScript.Live.World

/-!
What a file says about itself, found by reading alone.

This is wanted while other files may be broken or missing, so nothing is analysed here and no unit
is made.
-/

namespace HotScript

structure Announcement where
  name : Option String
  /-- The native or global class that the file extends in the end, when it is known. -/
  base : Option String
  icon : Option String
deriving DecidableEq, Repr

namespace Workspace

variable (w : Workspace)

def treeAt? (path : String) : Option Tree :=
  match w.source path with
  | .ok (.text s) => (w.readText path s).1.tree
  | .ok (.binary b) => (w.readBytes path b).1.tree
  | _ => none

def announcementDepth : Nat := 64

/-- The class that a class extends in the end. Of the steps taken so far and still allowed, `depth`
and `n`, the first limits how many files are followed. -/
def finalBase? : Nat → Nat → String → Tree → ClassDecl → Option String
  | 0, _, _, _, _ => none
  | n + 1, depth, path, tree, c =>
    match c.extends? with
    | none => some w.settings.defaultBase
    | some clause =>
      match clause.path, clause.chain.map (·.name) with
      | some base, [] => do
        let path := Path.resolve path base
        if depth < announcementDepth then
          let tree ← w.treeAt? path
          finalBase? n (depth + 1) path tree tree.head
        else none
      | some base, chain => do
        let path := Path.resolve path base
        let tree ← w.treeAt? path
        let id ← tree.nested? 0 chain
        finalBase? n (depth + 1) path tree (← tree.class? id)
      | none, [name] => some name
      | none, first :: rest => do
        let outer ← tree.classes.toList.find? fun c => c.name? == some first
        let id ← tree.nested? outer.id rest
        finalBase? n (depth + 1) path tree (← tree.class? id)
      | none, [] => none

def announcement? (path : String) : Option Announcement := do
  let tree ← w.treeAt? path
  let head := tree.head
  some { name := head.name?, base := w.finalBase? 0x10000 0 path tree head, icon := head.icon }

/-- Let the global name that a file announces lead to it; gives the name. -/
def registerAnnounced (path : String) : Option String × Workspace :=
  match (w.announcement? path).bind fun a => a.name.map (a, ·) with
  | none => (none, w)
  | some (a, name) =>
    let base := a.base.getD w.settings.defaultBase
    (some name, { w with registry := w.registry.addGlobal { name, path, base, icon := a.icon } })

end Workspace

end HotScript
