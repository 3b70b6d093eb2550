import HotScript.Type.Basic

/-!
Types written out in full.

The text gives everything a type says: what it denotes, the entries of enums, provenance and marks.
Names stand in quotes, except that a class is its bare qualified name.
-/

namespace HotScript

namespace Text

/-- The characters with a mark of their own in quotes. -/
def marks : List (Char × Char) :=
  [('\x00', '0'), ('\t', 't'), ('\n', 'n'), ('\r', 'r'), ('"', '"'), ('\\', '\\')]

/-- How a character stands in quotes.  What is not ASCII stands as it is. -/
def escape (c : Char) : List Char :=
  match marks.find? (·.1 == c) with
  | some (_, mark) => ['\\', mark]
  | none =>
    if c.toNat < 32 ∨ c.toNat = 127 then
      '\\' :: 'u' :: '\x7b' :: (Nat.toDigits 16 c.toNat ++ ['\x7d'])
    else [c]

/-- The text of a name, in quotes. -/
def literal (s : String) : String :=
  "\"" ++ String.ofList (s.toList.flatMap escape) ++ "\""

/-- The texts with a comma and a blank between each two. -/
def joined (xs : List String) : String := String.intercalate ", " xs

end Text

def Bool.spelled (b : Bool) : String := if b then "true" else "false"

def Tag.spelled : Tag → String
  | nil => "Nil"
  | bool => "Bool"
  | int => "Int"
  | float => "Float"
  | string => "String"
  | stringName => "StringName"
  | vector2 => "Vector2"
  | vector3 => "Vector3"
  | array => "Array"
  | dictionary => "Dictionary"
  | object => "Object"
  | callable => "Callable"
  | signal => "Signal"

def Provenance.spelled : Provenance → String
  | undetected => "Undetected"
  | inferred => "Inferred"
  | annotated => "AnnotatedInferred"
  | explicit => "AnnotatedExplicit"

/-- An entry of an enum: its name and its number. -/
def EnumValues.spelled (entry : String × Int64) : String :=
  "(" ++ Text.literal entry.1 ++ ", " ++ toString entry.2 ++ ")"

/-- A shape whose elements have the given texts. -/
def TypeShape.spelledWith (elements : List String) : TypeShape → String
  | variant => "Variant"
  | builtin tag _ =>
    "Builtin \x7b ty: " ++ tag.spelled ++ ", elements: [" ++ Text.joined elements ++ "] \x7d"
  | native c => "Native \x7b class: " ++ Text.literal c ++ " \x7d"
  | script c => "Class(" ++ c.qualified ++ ")"
  | enum n o vs =>
    "Enum \x7b name: " ++ Text.literal n ++ ", owner: " ++ Text.literal o ++
      ", values: EnumValues([" ++ Text.joined (vs.map EnumValues.spelled) ++ "]) \x7d"
  | unresolved => "Unresolved"
  | resolving => "Resolving"

namespace StaticType

/-- A type whose elements have the given texts. -/
def spelledWith (elements : List String) (t : StaticType) : String :=
  "DataType \x7b kind: " ++ t.shape.spelledWith elements ++ ", source: " ++ t.provenance.spelled ++
    ", is_meta: " ++ Bool.spelled t.isMeta ++ ", is_read_only: " ++ Bool.spelled t.readOnly ++
      " \x7d"

mutual

/-- Everything a type says. -/
def spelled : StaticType → String
  | ⟨shape, p, m, r⟩ => spelledWith (spelledElements shape) ⟨shape, p, m, r⟩

def spelledElements : TypeShape → List String
  | .builtin _ es => spelledAll es
  | _ => []

def spelledAll : List StaticType → List String
  | [] => []
  | t :: ts => spelled t :: spelledAll ts

end

end StaticType

end HotScript
