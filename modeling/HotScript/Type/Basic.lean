import HotScript.Value.Tag

/-!
Static types.

A type is *hard* when it was written in the source or taken over from something that was; only hard
types are enforced. A *meta* type is the type of a class itself. Two types are the same
(`StaticType.same`) when they denote the same thing: neither provenance nor the read-only mark takes
part, an enum is its name and owner, and a class is its file and qualified name.
-/

namespace HotScript

structure ClassRef where
  path : String
  /-- Its name qualified by the file, unique among all classes. -/
  qualified : String
  name : String
  /-- Its place among the classes of its file; the head class is 0. -/
  index : Nat
deriving DecidableEq, Repr, Inhabited

def ClassRef.same (a b : ClassRef) : Bool :=
  a.path == b.path && a.qualified == b.qualified

/-- The entries of an enum, in declaration order. -/
abbrev EnumValues := List (String × Int64)

inductive Provenance
  | undetected
  /-- Guessed from a value; not enforced. -/
  | inferred
  /-- Taken over, on request, from a value whose type is hard. -/
  | annotated
  | explicit
deriving DecidableEq, Repr, Inhabited

def Provenance.isEnforced : Provenance → Bool
  | .annotated | .explicit => true
  | _ => false

mutual

structure StaticType where
  shape : TypeShape
  provenance : Provenance
  isMeta : Bool
  readOnly : Bool

inductive TypeShape
  | variant
  /-- Values of one kind; containers may say the types of what they hold. -/
  | builtin (tag : Tag) (elements : List StaticType)
  | native (className : String)
  | script (cls : ClassRef)
  | enum (name owner : String) (values : EnumValues)
  | unresolved
  /-- It is just being found out: meeting it again is a cycle. -/
  | resolving

end

namespace StaticType

def ofShape (shape : TypeShape) : StaticType := ⟨shape, .undetected, false, false⟩

instance : Inhabited StaticType := ⟨ofShape .unresolved⟩
instance : Inhabited TypeShape := ⟨.unresolved⟩

def variant : StaticType := ofShape .variant
def unresolved : StaticType := ofShape .unresolved
def resolving : StaticType := ofShape .resolving

def hard (t : StaticType) : StaticType := { t with provenance := .explicit }

def soft (t : StaticType) : StaticType := { t with provenance := .inferred }

def withProvenance (t : StaticType) (p : Provenance) : StaticType := { t with provenance := p }

/-- The type of the class whose instances `t` describes. -/
def toMeta (t : StaticType) : StaticType := { t with isMeta := true }

def toInstance (t : StaticType) : StaticType := { t with isMeta := false }

def frozen (t : StaticType) : StaticType := { t with readOnly := true }

def builtin (tag : Tag) : StaticType := (ofShape (.builtin tag [])).hard
def arrayOf (element : StaticType) : StaticType := (ofShape (.builtin .array [element])).hard
def dictionaryOf (key value : StaticType) : StaticType :=
  (ofShape (.builtin .dictionary [key, value])).hard
def native (className : String) : StaticType := (ofShape (.native className)).hard
def script (cls : ClassRef) : StaticType := (ofShape (.script cls)).hard
def enum (name owner : String) (values : EnumValues) : StaticType :=
  (ofShape (.enum name owner values)).hard

/-- The type of the null value, which as a return type means "nothing". -/
def nil : StaticType := builtin .nil

/-! ### Questions -/

/-- Whether something is known: the type is neither unresolved nor being resolved. -/
def isSet (t : StaticType) : Bool :=
  match t.shape with
  | .unresolved | .resolving => false
  | _ => true

def isHard (t : StaticType) : Bool :=
  t.provenance.isEnforced && t.isSet

def isVariant (t : StaticType) : Bool :=
  match t.shape with
  | .variant => true
  | _ => false

def isResolving (t : StaticType) : Bool :=
  match t.shape with
  | .resolving => true
  | _ => false

def isUnresolved (t : StaticType) : Bool :=
  match t.shape with
  | .unresolved => true
  | _ => false

def tag? (t : StaticType) : Option Tag :=
  match t.shape with
  | .builtin tag _ => some tag
  | _ => none

def isVoid (t : StaticType) : Bool :=
  t.tag? == some .nil && t.isHard

def isBuiltin (t : StaticType) (tag : Tag) : Bool :=
  t.tag? == some tag && !t.isMeta

def elements (t : StaticType) : List StaticType :=
  match t.shape with
  | .builtin _ es => es
  | _ => []

def element? (t : StaticType) (i : Nat) : Option StaticType := t.elements[i]?

def class? (t : StaticType) : Option ClassRef :=
  match t.shape with
  | .script cls => some cls
  | _ => none

def native? (t : StaticType) : Option String :=
  match t.shape with
  | .native c => some c
  | _ => none

def enumValues? (t : StaticType) : Option EnumValues :=
  match t.shape with
  | .enum _ _ values => some values
  | _ => none

def isEnum (t : StaticType) : Bool := t.enumValues?.isSome

def isObject (t : StaticType) : Bool :=
  match t.shape with
  | .native _ | .script _ => !t.isMeta
  | _ => false

/-- Whether values of the type are shared, when that is known. -/
def isShared? (t : StaticType) : Option Bool :=
  if t.isMeta then some true
  else
    match t.shape with
    | .builtin tag _ => some tag.isShared
    | .native _ | .script _ => some true
    | .enum .. => some false
    | _ => none

/-- The kind that values of the type have, when that is known. -/
def valueTag? (t : StaticType) : Option Tag :=
  if t.isMeta then some .object
  else
    match t.shape with
    | .builtin tag _ => some tag
    | .native _ | .script _ => some .object
    | .enum .. => some .int
    | _ => none

mutual

/-- Whether two types denote the same thing. -/
def same : StaticType → StaticType → Bool
  | ⟨shape, _, m, _⟩, ⟨shape', _, m', _⟩ => m == m' && sameShape shape shape'

def sameShape : TypeShape → TypeShape → Bool
  | .variant, .variant | .unresolved, .unresolved | .resolving, .resolving => true
  | .builtin tag es, .builtin tag' es' => tag == tag' && sameAll es es'
  | .native c, .native c' => c == c'
  | .script c, .script c' => c.same c'
  | .enum n o _, .enum n' o' _ => n == n' && o == o'
  | _, _ => false

/-- Whether two lists of types agree place by place. -/
def sameAll : List StaticType → List StaticType → Bool
  | [], [] => true
  | t :: ts, u :: us => same t u && sameAll ts us
  | _, _ => false

end

mutual

def text : StaticType → String
  | ⟨shape, p, _, _⟩ =>
    match shape with
    | .variant => "Variant"
    | .builtin tag es =>
      if tag == .nil && p.isEnforced then "void"
      else if es.isEmpty then tag.name
      else tag.name ++ "[" ++ textAll es ++ "]"
    | .native c => c
    | .script c => c.name
    | .enum n _ _ => n
    | .unresolved => "<unresolved type>"
    | .resolving => "<resolving type>"

def textAll : List StaticType → String
  | [] => ""
  | [t] => text t
  | t :: u :: ts => text t ++ ", " ++ textAll (u :: ts)

end

end StaticType

end HotScript
