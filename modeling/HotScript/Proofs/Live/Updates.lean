import HotScript.Proofs.Live.Sessions

/-!
Reading a file again.

Its script gets the new source before it is compiled, and keeps it if that fails, while the version
before stays installed. Reading the file once more finds that the script has the source already, and
does nothing.
-/

namespace HotScript

/-- The installed code of a file is not that of the source that its script has. -/
def World.Outdated (w : World) (path : String) : Prop :=
  ∃ s code, w.cache.find? path = some s ∧ w.Installed s code ∧
    code.hash ≠ (w.script s).source.digest

/-- When a file is read again and a script is given back, that is the script of the file, it is
valid and has what the file holds as its source. The installed code is that of this source, unless
the script had it before with other code installed, and then nothing was done. -/
theorem Live.hash_eq_iff_of_update {w w' : World} (hw : w.Reached) {path : String} {s : ScriptId}
    (h : Live.fullScript .standard path true w = some (.ok s, w')) :
    ∃ source code, w'.work.source path = .ok source ∧ w'.cache.find? path = some s ∧
      w'.Installed s code ∧ (w'.script s).source.digest = source.digest ∧
      (code.hash = source.digest ↔ ¬(w' = w ∧ w.Outdated path)) := by
  obtain ⟨hsound, hidle⟩ := hw.sound
  obtain ⟨hw', hk', hok⟩ :=
    Live.fullScript_update_some Runner.keeping_standard hsound (hidle ▸ List.not_mem_nil) h
  obtain ⟨hs, source, hsource, hheld, hdone⟩ := hok s rfl
  have hsource' := (hk'.source path).trans hsource
  rcases hdone with ⟨rfl, hvalid⟩ | ⟨code, hcode, hhash⟩
  · obtain ⟨code, hfile⟩ := Option.isSome_iff_exists.1 (hw'.filed path s hs hvalid)
    refine ⟨source, code, hsource', hs, ⟨hvalid, hfile⟩, hheld, fun hhash => ?_, fun hnot => ?_⟩
    · rintro ⟨-, t, code', ht, ⟨-, hfile'⟩, hne⟩
      obtain rfl := Option.some.inj (hs.symm.trans ht)
      obtain rfl := Option.some.inj (hfile.symm.trans hfile')
      exact hne (hhash.trans hheld.symm)
    · by_contra hne
      exact hnot ⟨rfl, s, code, hs, ⟨hvalid, hfile⟩, hheld.symm ▸ hne⟩
  · refine ⟨source, code, hsource', hs, hcode, hheld, fun _ => ?_, fun _ => hhash⟩
    rintro ⟨rfl, t, code', ht, ⟨-, hfile'⟩, hne⟩
    obtain rfl := Option.some.inj (hs.symm.trans ht)
    obtain rfl := Option.some.inj (hcode.2.symm.trans hfile')
    exact hne (hhash.trans hheld.symm)

/-! ### After an update that failed -/

/-- A file that holds one of two programs, or one that extends a file that is not there. -/
def singleFile (text : String) : Request :=
  .written [("res://a.br", text)]
    [("one", none, []), ("two", none, ["x"]), ("broken", some "res://nowhere.br", [])]

/-- A file that was loaded is changed and read again: the new code is installed. -/
theorem changed_update :
    ∃ w w' source code,
      Live.serve [singleFile "one", .load "res://a.br" false, singleFile "two"] {} =
        some ((), w) ∧ Live.fullScript .standard "res://a.br" true w = some (.ok 0, w') ∧
      w'.work.source "res://a.br" = .ok source ∧ w'.Installed 0 code ∧
      code.hash = source.digest := by
  obtain ⟨w, run, hs, hhash, w', hrun, -⟩ : ∃ w,
      Live.serve [singleFile "one", .load "res://a.br" false, singleFile "two"] {} = some ((), w) ∧
        w.cache.find? "res://a.br" = some 0 ∧
        (w.script 0).file.map (·.hash) = some (w.script 0).source.digest ∧
        ∃ w', Live.fullScript .standard "res://a.br" true w = some (.ok 0, w') ∧ True := by
    decide +kernel
  have hfresh : ¬w.Outdated "res://a.br" := by
    rintro ⟨s, code, hs', ⟨-, hfile⟩, hne⟩
    obtain rfl := Option.some.inj (hs.symm.trans hs')
    rw [hfile] at hhash
    exact hne (Option.some.inj hhash)
  obtain ⟨source, code, hsource, -, hcode, -, hiff⟩ :=
    Live.hash_eq_iff_of_update (World.reached_empty.serve (by simp [singleFile]) run) hrun
  exact ⟨w, w', source, code, run, hrun, hsource, hcode, hiff.2 fun hboth => hfresh hboth.2⟩

/-- The file is changed to what cannot be compiled, and reading it again fails. Reading it once more
gives back its script, with the code of what the file held at first. -/
theorem failed_update_outdated :
    ∃ w w' source code, Live.serve [singleFile "one", .load "res://a.br" false, singleFile "broken",
        .load "res://a.br" true] {} = some ((), w) ∧ w.Reached ∧
      Live.fullScript .standard "res://a.br" true w = some (.ok 0, w') ∧
      w'.work.source "res://a.br" = .ok source ∧ w'.Installed 0 code ∧
      code.hash ≠ source.digest := by
  obtain ⟨w, run, w', hrun, hsource, hvalid, code, hcode, hne⟩ : ∃ w,
      Live.serve [singleFile "one", .load "res://a.br" false, singleFile "broken",
        .load "res://a.br" true] {} = some ((), w) ∧
      ∃ w', Live.fullScript .standard "res://a.br" true w = some (.ok 0, w') ∧
        w'.work.source "res://a.br" = .ok (.text "broken") ∧ (w'.script 0).isValid ∧
        ∃ code, (w'.script 0).file = some code ∧ code.hash ≠ (Source.text "broken").digest := by
    decide +kernel
  have hreached : w.Reached := World.reached_empty.serve (by simp [singleFile]) run
  exact ⟨w, w', .text "broken", code, run, hreached, hrun, hsource, ⟨hvalid, hcode⟩, hne⟩

end HotScript
