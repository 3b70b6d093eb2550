import HotScript.Source.Path
import Mathlib

/-!
Resolved paths.

A resolved path is a lead, which is a scheme, a slash or nothing, and segments that are names. The
lead tells where it starts, if it is not nothing.
-/

namespace HotScript

namespace Text

variable {l part a b : List Char} {s : String}

/-! ### Cutting -/

theorem splitAt_eq (sep : Char) (l : List Char) : splitAt sep l = l.splitOn sep := by
  induction l with
  | nil => simp [splitAt]
  | cons c l ih =>
    rw [splitAt, ih, List.splitOn_cons_eq_if_modifyHead]
    cases h : l.splitOn sep with
    | nil => exact absurd h (List.splitOn_ne_nil sep l)
    | cons piece more => rfl

theorem cutFirst?_eq (h : cutFirst? part l = some (a, b)) : l = a ++ part ++ b := by
  induction l generalizing a b with
  | nil => cases h
  | cons c rest ih =>
    rw [cutFirst?] at h
    split at h
    next hp =>
      cases h
      obtain ⟨t, ht⟩ := List.isPrefixOf_iff_prefix.1 hp
      rw [← ht]
      simp
    next =>
      obtain ⟨⟨a', b'⟩, hr, he⟩ := Option.map_eq_some_iff.1 h
      cases he
      simpa using ih hr

theorem cutFirst?_append (hpart : part ≠ []) (h : cutFirst? part l = some (a, b))
    (b' : List Char) : cutFirst? part (a ++ part ++ b') = some (a, b') := by
  induction l generalizing a b with
  | nil => cases h
  | cons c rest ih =>
    rw [cutFirst?] at h
    split at h
    next hp =>
      cases h
      obtain ⟨x, part, rfl⟩ := List.exists_cons_of_ne_nil hpart
      simp [cutFirst?]
    next hp =>
      obtain ⟨⟨a', b''⟩, hr, he⟩ := Option.map_eq_some_iff.1 h
      cases he
      have hp' : ¬ part.isPrefixOf (c :: (a' ++ part ++ b')) = true := by
        rw [List.isPrefixOf_iff_prefix] at hp ⊢
        intro hpre
        have hstart : part <+: c :: (a' ++ part) :=
          List.prefix_of_prefix_length_le hpre ⟨b', by simp⟩ (by simp; omega)
        exact hp (hstart.trans ⟨b, by simp [cutFirst?_eq hr]⟩)
      simp only [List.cons_append]
      rw [cutFirst?, if_neg hp', ih hr]
      rfl

theorem splitOnce?_eq {part a b : String} (h : splitOnce? s part = some (a, b)) :
    s = a ++ part ++ b := by
  obtain ⟨⟨x, y⟩, hcut, he⟩ := Option.map_eq_some_iff.1 h
  cases he
  apply String.toList_injective
  simpa using cutFirst?_eq hcut

theorem splitOnce?_append {part a b : String} (hpart : part ≠ "")
    (h : splitOnce? s part = some (a, b)) (b' : String) :
    splitOnce? (a ++ part ++ b') part = some (a, b') := by
  obtain ⟨⟨x, y⟩, hcut, he⟩ := Option.map_eq_some_iff.1 h
  cases he
  rw [splitOnce?, String.toList_append, String.toList_append, String.toList_ofList,
    cutFirst?_append (by simpa using hpart) hcut]
  simp

theorem not_mem_of_mem_splitOn {sep : Char} {piece : List Char} (h : piece ∈ l.splitOn sep) :
    sep ∉ piece := by
  induction l generalizing piece with
  | nil => simp_all
  | cons c l ih =>
    rw [List.splitOn_cons_eq_if_modifyHead] at h
    obtain ⟨first, more, hl⟩ := List.exists_cons_of_ne_nil (List.splitOn_ne_nil sep l)
    rw [hl] at h ih
    split at h
    next =>
      rcases List.mem_cons.1 h with rfl | h
      exacts [nofun, ih h]
    next hc =>
      rcases List.mem_cons.1 h with rfl | h
      · simpa [Ne.symm (ne_of_beq_false (Bool.eq_false_of_not_eq_true hc))] using ih (.head _)
      · exact ih (.tail _ h)

end Text

namespace Path

/-! ### Segments -/

def IsName (s : String) : Prop := s ≠ "" ∧ s ≠ "." ∧ s ≠ ".." ∧ '/' ∉ s.toList

theorem segments_names (path : String) : ∀ s ∈ segments path, IsName s := by
  suffices h : ∀ ss acc : List String, (∀ s ∈ ss, '/' ∉ s.toList) → (∀ s ∈ acc, IsName s) →
      ∀ s ∈ ss.foldl foldSegment acc, IsName s by
    intro s hs
    refine h _ [] (fun x hx => ?_) nofun s (List.mem_reverse.1 hs)
    rw [Text.split, Text.splitAt_eq] at hx
    obtain ⟨l, hl, rfl⟩ := List.mem_map.1 hx
    simpa using Text.not_mem_of_mem_splitOn hl
  intro ss
  induction ss with
  | nil => exact fun acc _ hacc => hacc
  | cons x ss ih =>
    intro acc hss hacc
    refine ih _ (fun s hs => hss s (.tail _ hs)) ?_
    rw [foldSegment]
    split
    next => exact hacc
    next hx =>
      split
      next => exact fun s hs => hacc s (List.mem_of_mem_tail hs)
      next hup =>
        obtain ⟨hempty, hdot⟩ := not_or.1 hx
        exact List.forall_mem_cons.2 ⟨⟨hempty, hdot, hup, hss x (.head _)⟩, hacc⟩

theorem foldl_names {ss : List String} (h : ∀ s ∈ ss, IsName s) (acc : List String) :
    ss.foldl foldSegment acc = ss.reverse ++ acc := by
  induction ss generalizing acc with
  | nil => rfl
  | cons x ss ih =>
    obtain ⟨⟨hempty, hdot, hup, -⟩, hss⟩ := List.forall_mem_cons.1 h
    simp [foldSegment, hempty, hdot, hup, ih hss]

variable {ss : List String}

theorem splitOn_join (h : ∀ s ∈ ss, IsName s) (hne : ss ≠ []) :
    (Text.join "/" ss).toList.splitOn '/' = ss.map String.toList := by
  rw [Text.join, String.toList_intercalate]
  refine List.splitOn_intercalate '/' (fun l hl => ?_) (by simpa using hne)
  obtain ⟨s, hs, rfl⟩ := List.mem_map.1 hl
  exact (h s hs).2.2.2

theorem segments_join (h : ∀ s ∈ ss, IsName s) : segments (Text.join "/" ss) = ss := by
  by_cases hne : ss = []
  · subst hne
    rfl
  · rw [segments, Text.split, Text.splitAt_eq, splitOn_join h hne, List.map_map]
    simp [foldl_names h]

theorem segments_slash (path : String) : segments ("/" ++ path) = segments path := by
  simp [segments, Text.split, Text.splitAt_eq, List.splitOn_cons_eq_if_modifyHead, foldSegment]

/-- Names that are joined are cut into the names, so no piece is empty. -/
theorem nil_notMem_splitOn (h : ∀ s ∈ ss, IsName s) (hne : ss ≠ []) :
    [] ∉ (Text.join "/" ss).toList.splitOn '/' := by
  rw [splitOn_join h hne, List.mem_map]
  rintro ⟨s, hs, he⟩
  exact (h s hs).1 (String.toList_eq_nil_iff.1 he)

/-- Between names stands one slash, so no scheme ends there. -/
theorem splitOnce?_slash_join (h : ∀ s ∈ ss, IsName s) :
    Text.splitOnce? ("/" ++ Text.join "/" ss) "://" = none := by
  refine Option.eq_none_iff_forall_ne_some.2 fun ⟨a, b⟩ hcut => ?_
  have hl := congrArg String.toList (Text.splitOnce?_eq hcut)
  simp only [String.toList_append] at hl
  by_cases hne : ss = []
  · subst hne
    have hlen := congrArg List.length hl
    simp [Text.join] at hlen
    omega
  · have hcut : a.toList ++ "://".toList ++ b.toList = (a.toList ++ [':']) ++ '/' ::
        ([] ++ '/' :: b.toList) := by
      simp
    obtain ⟨first, more, hf⟩ :=
      List.exists_cons_of_ne_nil (List.splitOn_ne_nil '/' (a.toList ++ [':']))
    have hs := congrArg (List.splitOn '/') (hl.trans hcut)
    rw [List.splitOn_append_cons_self, List.splitOn_append_cons_self, hf] at hs
    refine nil_notMem_splitOn h hne ?_
    simp [List.splitOn_cons_eq_if_modifyHead] at hs
    simp [hs]

theorem startsWith_join (h : ∀ s ∈ ss, IsName s) :
    Text.startsWith (Text.join "/" ss) "/" = false := by
  refine Bool.eq_false_of_not_eq_true fun hstart => ?_
  obtain ⟨t, ht⟩ := List.isPrefixOf_iff_prefix.1 hstart
  by_cases hne : ss = []
  · subst hne
    simp [Text.join] at ht
  · refine nil_notMem_splitOn h hne ?_
    rw [← ht]
    simp [List.splitOn_cons_eq_if_modifyHead]

/-! ### Resolving -/

def HasScheme (path : String) : Prop := (Text.splitOnce? path "://").isSome

/-- The start of a path: a scheme, a slash or nothing. -/
inductive Lead : String → Prop
  | none : Lead ""
  | slash : Lead "/"
  | scheme {path s rest : String} (h : Text.splitOnce? path "://" = some (s, rest)) :
      Lead (s ++ "://")

/-- The directory of a project, as what is in it is written after it. -/
def base (root : String) : String :=
  if root = "" ∨ root.toList.getLast? = some '/' then root else root ++ "/"

variable {origin path p s rest : String}

theorem resolve_scheme (hp : Text.splitOnce? p "://" = some (s, rest)) (h : ∀ s ∈ ss, IsName s) :
    resolve origin (s ++ "://" ++ Text.join "/" ss) = s ++ "://" ++ Text.join "/" ss := by
  rw [resolve, Text.splitOnce?_append (by decide) hp]
  simp [normalize, segments_join h]

theorem resolve_slash (h : ∀ s ∈ ss, IsName s) :
    resolve origin ("/" ++ Text.join "/" ss) = "/" ++ Text.join "/" ss := by
  have hstart : Text.startsWith ("/" ++ Text.join "/" ss) "/" = true := by simp [Text.startsWith]
  simp [resolve, splitOnce?_slash_join h, normalize, hstart, segments_slash, segments_join h]

theorem normalize_none (path : String) :
    ∃ lead, Lead lead ∧ normalize none path = lead ++ Text.join "/" (segments path) := by
  rw [normalize]
  split
  · exact ⟨"/", .slash, rfl⟩
  · exact ⟨"", .none, by simp⟩

theorem onDisk_res (h : ∀ s ∈ ss, IsName s) (root : String) :
    onDisk root ("res" ++ "://" ++ Text.join "/" ss) = base root ++ Text.join "/" ss := by
  have hdrop : Text.dropStart? ("res" ++ "://" ++ Text.join "/" ss)
      "res://" = some (Text.join "/" ss) := by
    simp [Text.dropStart?, show "res://".length = 6 from rfl]
  rw [onDisk, hdrop, base]
  simp only [startsWith_join h, Bool.false_eq_true, false_or]
  split
  · simp_all
  · simp_all
    split <;> simp_all

theorem splitOnce?_of_res (h : Text.startsWith origin "res://" = true) :
    ∃ rest, Text.splitOnce? origin "://" = some ("res", rest) := by
  obtain ⟨l, hl⟩ := List.isPrefixOf_iff_prefix.1 h
  have horigin : origin = "res" ++ "://" ++ String.ofList l := by
    apply String.toList_injective
    simp [← hl]
  have hres : Text.splitOnce? "res://" "://" = some ("res", "") := by decide
  exact ⟨_, horigin ▸ Text.splitOnce?_append (by decide) hres _⟩

/-- Every path resolves to a lead and names. The result resolves to itself if the path or the file
that mentions it tells where it starts, and what a project file mentions by a relative path is in
the project. -/
theorem resolve_canonical (origin path : String) :
    (∃ lead ss, Lead lead ∧ (∀ s ∈ ss, IsName s) ∧ resolve origin path = lead ++ Text.join "/" ss) ∧
    (HasScheme origin ∨ Text.startsWith path "/" ∨ HasScheme path →
      resolve origin (resolve origin path) = resolve origin path) ∧
    (Text.startsWith origin "res://" → ¬ Text.startsWith path "/" → ¬ HasScheme path → ∀ root,
      ∃ ss, (∀ s ∈ ss, IsName s) ∧ onDisk root (resolve origin path) = base root ++ Text.join "/"
      ss) := by
  have hres := resolve.eq_1 origin path
  cases hpath : Text.splitOnce? path "://" with
  | some cut =>
    obtain ⟨s, rest⟩ := cut
    simp only [hpath, normalize] at hres
    refine ⟨⟨_, _, .scheme hpath, segments_names rest, hres⟩, fun _ => ?_, fun _ _ hno => ?_⟩
    · rw [hres, resolve_scheme hpath (segments_names rest)]
    · simp [HasScheme, hpath] at hno
  | none =>
    cases hslash : Text.startsWith path "/" with
    | true =>
      simp only [hpath, hslash, normalize, if_true] at hres
      refine ⟨⟨_, _, .slash, segments_names path, hres⟩, fun _ => ?_, fun _ hno => absurd rfl hno⟩
      rw [hres, resolve_slash (segments_names path)]
    | false =>
      simp only [hpath, hslash, Bool.false_eq_true, if_false] at hres
      cases horigin : Text.splitOnce? origin "://" with
      | some cut =>
        obtain ⟨s, rest⟩ := cut
        simp only [horigin, normalize] at hres
        refine ⟨⟨_, _, .scheme horigin, segments_names _, hres⟩, fun _ =>
          ?_, fun hproject _ _ root => ?_⟩
        · rw [hres, resolve_scheme horigin (segments_names _)]
        · obtain ⟨rest', hrest⟩ := splitOnce?_of_res hproject
          cases horigin.symm.trans hrest
          exact ⟨_, segments_names _, by rw [hres, onDisk_res (segments_names _)]⟩
      | none =>
        simp only [horigin] at hres
        refine ⟨?_, fun hsome => ?_, fun hproject => ?_⟩
        · obtain ⟨lead, hlead, hnormal⟩ := normalize_none _
          exact ⟨lead, _, hlead, segments_names _, hres.trans hnormal⟩
        · simp [HasScheme, hpath, horigin] at hsome
        · obtain ⟨rest, hrest⟩ := splitOnce?_of_res hproject
          cases horigin.symm.trans hrest

theorem resolve_canonical_climbing :
    Text.startsWith "res://a/b.br" "res://" ∧ ¬ Text.startsWith "../.././c.br" "/" ∧
      ¬ HasScheme "../.././c.br" ∧ ∃ ss, (∀ s ∈ ss, IsName s) ∧
        onDisk "/p" (resolve "res://a/b.br" "../.././c.br") = base "/p" ++ Text.join "/" ss := by
  have hscheme : ¬ HasScheme "../.././c.br" := by
    unfold HasScheme
    decide
  exact ⟨by decide, by decide, hscheme,
    (resolve_canonical "res://a/b.br" "../.././c.br").2.2 (by decide) (by decide) hscheme "/p"⟩

end Path

end HotScript
