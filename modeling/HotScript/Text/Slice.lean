/-!
Searching and cutting text, as a list of characters.
-/

namespace HotScript.Text

/-- Whether `part` occurs somewhere in `whole`. -/
def occursIn (part : List Char) : List Char → Bool
  | [] => part.isEmpty
  | c :: rest => part.isPrefixOf (c :: rest) || occursIn part rest

def contains (whole part : String) : Bool :=
  occursIn part.toList whole.toList

/-- Replace the first occurrence of `part` by `fresh`. -/
def substitute (part fresh : List Char) : List Char → List Char
  | [] => if part.isEmpty then fresh else []
  | c :: rest =>
    if part.isPrefixOf (c :: rest) then fresh ++ (c :: rest).drop part.length
    else c :: substitute part fresh rest

def replaceFirst (whole part fresh : String) : String :=
  String.ofList (substitute part.toList fresh.toList whole.toList)

/-- Cut at every `sep`: always at least one piece, and one more than there are separators. -/
def splitAt (sep : Char) : List Char → List (List Char)
  | [] => [[]]
  | c :: rest =>
    match splitAt sep rest with
    | [] => [[c]]
    | piece :: more => if c == sep then [] :: piece :: more else (c :: piece) :: more

def split (sep : Char) (s : String) : List String :=
  (splitAt sep s.toList).map String.ofList

/-- What stands before and after the first occurrence of `part`, which is not empty. -/
def cutFirst? (part : List Char) : List Char → Option (List Char × List Char)
  | [] => none
  | c :: rest =>
    if part.isPrefixOf (c :: rest) then some ([], (c :: rest).drop part.length)
    else (cutFirst? part rest).map fun (before, after) => (c :: before, after)

/-- What stands before and after the first occurrence of `part`. -/
def splitOnce? (s part : String) : Option (String × String) :=
  (cutFirst? part.toList s.toList).map fun (a, b) => (String.ofList a, String.ofList b)

/-- Cut at every occurrence of `part`, from the left, at most `cuts` times. -/
def pieces (part : List Char) (s : List Char) : Nat → List (List Char)
  | 0 => [s]
  | cuts + 1 =>
    match cutFirst? part s with
    | some (before, after) => before :: pieces part after cuts
    | none => [s]

def splitBy (s part : String) : List String :=
  (pieces part.toList s.toList s.length).map String.ofList

/-- What stands before and after the last `sep`. -/
def splitLast? (sep : Char) (s : String) : Option (String × String) :=
  match (split sep s).reverse with
  | last :: before :: more =>
    some (String.ofList [sep] |>.intercalate (before :: more).reverse, last)
  | _ => none

/-- The text after `start`, when it begins so. -/
def dropStart? (s start : String) : Option String :=
  if start.toList.isPrefixOf s.toList then some (String.ofList (s.toList.drop start.length))
    else none

def startsWith (s start : String) : Bool :=
  start.toList.isPrefixOf s.toList

theorem dropStart?_append (start rest : String) : dropStart? (start ++ rest) start = some rest := by
  simp [dropStart?, ← String.length_toList]

theorem eq_append_of_startsWith {s start : String} (h : startsWith s start) :
    ∃ rest, s = start ++ rest := by
  obtain ⟨rest, hrest⟩ := List.isPrefixOf_iff_prefix.1 h
  exact ⟨String.ofList rest, String.toList_inj.1 (by simp [hrest])⟩

/-- Drop every leading copy of `part`, at most `tries` of them. -/
def dropCopies (part : List Char) (s : List Char) : Nat → List Char
  | 0 => s
  | tries + 1 =>
    if part.isPrefixOf s && !part.isEmpty then dropCopies part (s.drop part.length) tries else s

def trimStart (s part : String) : String :=
  String.ofList (dropCopies part.toList s.toList s.length)

def join (sep : String) (pieces : List String) : String :=
  sep.intercalate pieces

/-- Lower case of the letters A to Z; all else stays. -/
def lower (s : String) : String :=
  String.ofList (s.toList.map Char.toLower)

def quoted (s : String) : String :=
  "\"" ++ s ++ "\""

end HotScript.Text
