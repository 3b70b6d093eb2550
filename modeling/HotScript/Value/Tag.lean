/-!
The kinds of dynamic values, and how kinds convert.

`Tag.widensTo` is the conversion that happens without being asked for; `Tag.castsTo` is the one that
an explicit cast may do.
-/

namespace HotScript

inductive Tag
  | nil | bool | int | float | string | stringName | vector2 | vector3
  | array | dictionary | object | callable | signal
deriving DecidableEq, Repr, Inhabited

namespace Tag

/-- Every kind, in the order of their codes. -/
def all : List Tag :=
  [nil, bool, int, float, string, stringName, vector2, vector3, array, dictionary, object,
    callable, signal]

def name : Tag → String
  | nil => "null"
  | bool => "bool"
  | int => "int"
  | float => "float"
  | string => "String"
  | stringName => "StringName"
  | vector2 => "Vector2"
  | vector3 => "Vector3"
  | array => "Array"
  | dictionary => "Dictionary"
  | object => "Object"
  | callable => "Callable"
  | signal => "Signal"

def named? (s : String) : Option Tag :=
  all.find? (·.name == s)

/-- The kind a written type names. `Object` names the root of the native classes there, and `null`
is no written type. -/
def ofName? (s : String) : Option Tag :=
  (all.filter fun t => t ≠ object ∧ t ≠ nil).find? (·.name == s)

/-- Whether values of the kind are shared: copying one copies a reference. -/
def isShared : Tag → Bool
  | array | dictionary | object | callable | signal => true
  | _ => false

def isNumeric : Tag → Bool
  | int | float => true
  | _ => false

def isText : Tag → Bool
  | string | stringName => true
  | _ => false

/-- Whether a value of the first kind becomes one of the second without a cast. -/
def widensTo : Tag → Tag → Bool
  | int, float | string, stringName | stringName, string => true
  | _, _ => false

def castsTo (a b : Tag) : Bool :=
  a == b || a.widensTo b ||
    match a, b with
    | float, int | int, bool | float, bool | bool, int | bool, float => true
    | _, string => true
    | _, _ => false

end Tag

end HotScript
