import HotScript.Proofs.Live.Sessions

/-!
What a reload of several files reports.

The report goes in the order of the chains before the reload. If files start to extend each other in
the new versions, a file may come before its new base and find the old layout there.
-/

namespace HotScript

namespace Live

variable {w : World} {paths : List String} {files : List (String × ScriptId)}

theorem inReloadOrder_eq
    (hfiles : (w.cache.affected paths).filterMap (fun p => (w.cache.find? p).map (p, ·)) = files)
    (hsorted : files.Pairwise fun a b => (w.chain a.2).length < (w.chain b.2).length ∨
      (w.chain a.2).length = (w.chain b.2).length ∧ a.1 ≤ b.1) :
    w.inReloadOrder (w.cache.affected paths) = files := by
  rw [World.inReloadOrder, hfiles]
  refine List.mergeSort_of_pairwise (hsorted.imp fun hab => ?_)
  simpa using hab

theorem reloadFiles_eq_reloadOrdered {r : Runner} {keep : Bool}
    (h : w.inReloadOrder (w.cache.affected paths) = files) :
    reloadFiles r paths keep w = reloadOrdered r paths keep files w := by
  rw [← h]
  rfl

end Live

/-- Two files of which the second may get a variable and the first may come to extend it. -/
def twoFiles (first second : String) : Request :=
  .written [("res://a.br", first), ("res://b.br", second)]
    [("plain", none, []), ("variable", none, ["z"]), ("derived", some "res://b.br", [])]

end HotScript
