import HotScript.Text.Slice

/-!
Paths of script files.

A path may carry a scheme, as in `res://a/b`. One without scheme and without a leading slash is
relative to the directory of the file that mentions it. Resolving folds `.` and `..`, and a `..` at
the top goes nowhere.
-/

namespace HotScript.Path

/-- Fold one segment onto the segments gathered so far, last first. -/
def foldSegment (parts : List String) (segment : String) : List String :=
  if segment = "" ∨ segment = "." then parts
  else if segment = ".." then parts.tail
  else segment :: parts

/-- The segments of a path with `.`, `..` and empty segments folded away. -/
def segments (path : String) : List String :=
  ((Text.split '/' path).foldl foldSegment []).reverse

def normalize (scheme : Option String) (path : String) : String :=
  let body := Text.join "/" (segments path)
  match scheme with
  | some s => s ++ "://" ++ body
  | none => if Text.startsWith path "/" then "/" ++ body else body

def directory (path : String) : String :=
  match Text.splitLast? '/' path with
  | some (dir, _) => dir
  | none => ""

/-- The path `path` means when the file `origin` mentions it. -/
def resolve (origin path : String) : String :=
  match Text.splitOnce? path "://" with
  | some (scheme, rest) => normalize (some scheme) rest
  | none =>
    if Text.startsWith path "/" then normalize none path
    else
      let (scheme, rest) :=
        match Text.splitOnce? origin "://" with
        | some (s, r) => (some s, r)
        | none => (none, origin)
      let dir := directory rest
      normalize scheme (if dir = "" then path else dir ++ "/" ++ path)

/-- The file on disk that a path means, for a project under `root`.  A rooted remainder stands for
itself. -/
def onDisk (root path : String) : String :=
  match Text.dropStart? path "res://" with
  | none => path
  | some rest =>
    if Text.startsWith rest "/" ∨ root = "" then rest
    else if root.toList.getLast? = some '/' then root ++ rest
    else root ++ "/" ++ rest

end HotScript.Path
