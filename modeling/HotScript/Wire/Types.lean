import HotScript.Host.Descriptor
import HotScript.Report.Fault

/-!
Types, descriptions, spans and failures as documents, the plain data that is exchanged. A field that
a record does not have reads as null.
-/

namespace HotScript

inductive Datum
  | null
  | bool (b : Bool)
  | int (i : Int)
  | str (s : String)
  | list (items : List Datum)
  | record (fields : List (String × Datum))
deriving Inhabited

namespace Datum

def isNull : Datum → Bool
  | null => true
  | _ => false

def str? : Datum → Option String
  | str s => some s
  | _ => none

def int? : Datum → Option Int
  | int i => some i
  | _ => none

def nat? : Datum → Option Nat
  | int i => if 0 ≤ i then some i.toNat else none
  | _ => none

/-- The items of a list; anything else has none. -/
def items : Datum → List Datum
  | list items => items
  | _ => []

def fields : Datum → List (String × Datum)
  | record fields => fields
  | _ => []

def isTrue : Datum → Bool
  | bool b => b
  | _ => false

instance : GetElem Datum String Datum fun _ _ => True where
  getElem d key _ := (d.fields.lookup key).getD null

instance : GetElem Datum Nat Datum fun _ _ => True where
  getElem d i _ := d.items[i]?.getD null

def has (d : Datum) (key : String) : Bool := !d[key].isNull

/-- Whether a record has a field, be it null. -/
def holds (d : Datum) (key : String) : Bool := (d.fields.lookup key).isSome

def text (d : Datum) : String := d.str?.getD ""

def strings (d : Datum) : List String := d.items.filterMap str?

/-- The document that stands for "no value" where null would be one. -/
def absent : Datum := record [("none", bool true)]

mutual

def depth : Datum → Nat
  | list items => depthAll items + 1
  | record fields => depthFields fields + 1
  | _ => 1

def depthAll : List Datum → Nat
  | [] => 0
  | d :: ds => max (depth d) (depthAll ds)

def depthFields : List (String × Datum) → Nat
  | [] => 0
  | (_, d) :: ds => max (depth d) (depthFields ds)

end

end Datum

class ToDatum (α : Type) where
  datum : α → Datum

export ToDatum (datum)

section

variable {α : Type} [ToDatum α]

instance : CoeOut α Datum := ⟨datum⟩

instance : ToDatum (List α) := ⟨fun l => .list (l.map datum)⟩

instance : ToDatum (Option α) := ⟨fun o => o.elim .null datum⟩

end

instance : ToDatum Datum := ⟨id⟩

instance : ToDatum String := ⟨.str⟩

instance : ToDatum Nat := ⟨fun n => .int n⟩

instance : ToDatum Int64 := ⟨fun i => .int i.toInt⟩

instance : ToDatum Bool := ⟨.bool⟩

namespace Wire

/-! ### Types -/

def provenanceMark : Provenance → String
  | .undetected => "?"
  | .inferred => "~"
  | .annotated => ":"
  | .explicit => "!"

def provenance? : String → Option Provenance
  | "undetected" => some .undetected
  | "inferred" => some .inferred
  | "annotated" => some .annotated
  | "explicit" => some .explicit
  | _ => none

def classText (c : ClassRef) : String := c.qualified ++ "#" ++ toString c.index

def enumText (values : EnumValues) : String :=
  ",".intercalate (values.map fun e => e.1 ++ "=" ++ toString e.2.toInt)

mutual

/-- The full text of a type: what it denotes, its provenance and its marks. -/
def typeText : StaticType → String
  | ⟨shape, p, m, r⟩ =>
    shapeText shape ++ provenanceMark p ++ (if m then "^" else "") ++ (if r then "#" else "")

def shapeText : TypeShape → String
  | .variant => "variant"
  | .unresolved => "unresolved"
  | .resolving => "resolving"
  | .builtin tag es => tag.name ++ elementsText es
  | .native c => "native(" ++ c ++ ")"
  | .script c => "class(" ++ classText c ++ ")"
  | .enum name owner values =>
    "enum(" ++ owner ++ "/" ++ name ++ "\x7b" ++ enumText values ++ "\x7d)"

/-- The element types in brackets; nothing when there are none. -/
def elementsText : List StaticType → String
  | [] => ""
  | t :: ts => "[" ++ typeText t ++ moreText ts ++ "]"

def moreText : List StaticType → String
  | [] => ""
  | t :: ts => "," ++ typeText t ++ moreText ts

end

instance : ToDatum Tag := ⟨fun t => t.name⟩

instance : ToDatum ClassRef := ⟨fun c => classText c⟩

instance : ToDatum StaticType := ⟨fun t => typeText t⟩

def readClass (d : Datum) : Option ClassRef := do
  match d with
  | .list [.str path, .str qualified, .str name, i] =>
    some { path, qualified, name, index := ← i.nat? }
  | _ => none

def readConstant (d : Datum) : Option (String × Int64) := do
  some (← d[0].str?, Int64.ofInt (← d[1].int?))

def readEnumValues (d : Datum) : EnumValues := d.items.filterMap readConstant

def namedType? (name : String) : Option StaticType :=
  match name with
  | "variant" => some .variant
  | "unresolved" => some .unresolved
  | "resolving" => some .resolving
  | _ => (Tag.named? name).map .builtin

def readTypeWithin : Nat → Datum → Option StaticType
  | 0, _ => none
  | depth + 1, d =>
    match d with
    | .str name => namedType? name
    | _ => do
      let base ←
        if d.has "b" then do
          let t ← readTypeWithin depth d["b"]
          let es ← d["e"].items.mapM (readTypeWithin depth)
          match t.shape with
          | .builtin tag _ => some { t with shape := .builtin tag es }
          | _ => some t
        else if d.has "native" then d["native"].str?.map .native
        else if d.has "class" then (readClass d["class"]).map .script
        else
          match d["enum"] with
          | .list [.str name, .str owner, values] => some (.enum name owner (readEnumValues values))
          | _ => none
      let t := (d["src"].str?.bind provenance?).elim base base.withProvenance
      let t := if d["meta"].isTrue then t.toMeta else t
      some (if d["ro"].isTrue then t.frozen else t)

def readType (d : Datum) : Option StaticType := readTypeWithin d.depth d

instance : ToDatum PropertyDesc := ⟨fun p => .list [p.name, p.tag, p.className, p.usage]⟩

def readProperty (d : Datum) : Option PropertyDesc := do
  some
    { name := ← d[0].str?
      tag := ← d[1].str?.bind Tag.named?
      className := d[2].text
      usage := d[3].nat?.getD Usage.standard }

instance : ToDatum MethodDesc where
  datum m := .record
    [("name", m.name), ("args", m.arguments), ("defaults", m.defaults), ("ret", m.result),
      ("flags", m.flags)]

def readMethod (d : Datum) : Option MethodDesc := do
  let m : MethodDesc :=
    { name := ← d["name"].str?
      arguments := d["args"].items.filterMap readProperty
      defaults := d["defaults"].nat?.getD 0 }
  let m := (readProperty d["ret"]).elim m fun p => { m with result := p }
  some { m with flags := m.flags ||| d["flags"].nat?.getD 0 }

/-! ### Places and failures -/

instance : ToDatum Span := ⟨fun s => .list [s.line, s.col, s.len, s.endLine]⟩

instance : ToDatum Diagnostic where
  datum d := .list [d.text, d.severity.text, d.warning?.map (·.code), d.span]

/-- A failure: what kind it is of, and what it says. -/
def ofFault (title message : String) (more : List (String × Datum)) : Datum :=
  .record (("error", title) :: ("message", message) :: more)

def CallFault.title : CallFault → String
  | .invalidMethod _ => "InvalidMethod"
  | .tooManyArguments .. => "TooManyArguments"
  | .tooFewArguments .. => "TooFewArguments"
  | .invalidArgument .. => "InvalidArgument"
  | .instanceIsNull => "InstanceIsNull"
  | .execution .. => "Execution"

instance : ToDatum CallFault := ⟨fun f => ofFault (CallFault.title f) f.message []⟩

def CompileFault.title : CompileFault → String
  | .internal .. => "Internal"
  | .invalidAnalysis _ => "InvalidAnalysis"

instance : ToDatum CompileFault := ⟨fun f => ofFault (CompileFault.title f) f.message []⟩

def LoadFault.title : LoadFault → String
  | .fileNotFound _ => "FileNotFound"
  | .cantRead .. => "CantRead"
  | .parseFailed .. => "ParseFailed"
  | .analysisFailed .. => "AnalysisFailed"
  | .compilationFailed .. => "CompilationFailed"
  | .invalidScript _ => "InvalidScript"

def ofLoadFault (f : LoadFault) (more : List (String × Datum)) : Datum :=
  ofFault (LoadFault.title f) f.message (("diagnostics", f.diagnostics.map (·.text)) :: more)

instance : ToDatum LoadFault := ⟨(ofLoadFault · [])⟩

instance : ToDatum ReloadFault where
  datum
    | .load f => ofLoadFault f [("via", "Reload")]
    | f@(.inUse ..) => ofFault "InUse" f.message []
    | f@(.link ..) => ofFault "Link" f.message []

end Wire

end HotScript
