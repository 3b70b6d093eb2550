import HotScript.Wire.Values
import HotScript.Host.Core
import HotScript.Settings

/-!
Settings and registries as documents.
-/

namespace HotScript.Wire

/-- Numbered settings are unsigned 64-bit; a negative number wraps. -/
def unsignedWord (i : Int) : Nat := (i % 0x10000000000000000).toNat

def level? : String → Option WarningLevel
  | "ignore" => some .ignore
  | "warn" => some .warn
  | "error" => some .error
  | _ => none

def readSettings (d : Datum) : Settings :=
  let base : Settings := {}
  { values := Table.ofList (d["props"].fields.filterMap fun (name, v) => do
      some (← Setting.all.find? (·.name == name), unsignedWord (← v.int?)))
    levels := Table.ofList (d["levels"].fields.filterMap fun (name, v) => do
      some (← Warning.ofCode? name, ← level? (← v.str?)))
    defaultBase := d["default_base"].str?.getD base.defaultBase
    sourceExtension := d["source_ext"].str?.getD base.sourceExtension
    binaryExtension := d["binary_ext"].str?.getD base.binaryExtension }

def body? : String → Option NativeBody
  | "null" => some .returnNil
  | "echo" => some .echo
  | "argc" => some .argc
  | "class" => some .className
  | "fail" => some .fail
  | _ => none

def readNativeClass (d : Datum) : Option NativeClass := do
  let c : NativeClass := { name := ← d["name"].str?, parent := d["parent"].str? }
  let methods := d["methods"].items.filterMap fun m => do
    some { desc := ← readMethod m, body := m["impl"].str?.bind body? : NativeMethod }
  let c := methods.foldl NativeClass.withMethod c
  let c := (d["properties"].items.filterMap readProperty).foldl NativeClass.withProperty c
  let c := (d["signals"].items.filterMap readMethod).foldl NativeClass.withSignal c
  let c := (readEnumValues d["constants"]).foldl (fun c e => c.withConstant e.1 e.2) c
  let c := d["enums"].items.foldl (fun c e => c.withEnum e[0].text (readEnumValues e[1])) c
  some { c with instantiable := !d["abstract"].isTrue }

def readGlobal (d : Datum) : Option GlobalClass := do
  some
    { name := ← d["name"].str?, path := ← d["path"].str?
      base := d["base"].text, icon := d["icon"].str? }

instance : ToDatum GlobalClass := ⟨fun g => .list [g.name, g.path, g.base, g.icon]⟩

/-- Read a registry; classes that cannot be added are reported. -/
def readRegistry (d : Datum) : StateT Heap Option (Registry × List RegistrationFault) := do
  let start : Registry := match d["core"] with
    | .bool false => {}
    | _ => .core
  let (r, faults) := (d["classes"].items.filterMap readNativeClass).foldl
    (fun (r, faults) c =>
      match r.addClass c with
      | .ok r => (r, faults)
      | .error f => (r, faults ++ [f]))
    (start, ([] : List RegistrationFault))
  let r := d["singletons"].items.foldl (fun r e => r.addSingleton e[0].text e[1].text) r
  let r ← d["constants"].items.foldlM
    (fun r e => do return r.addConstant e[0].text (← readPlain e[1])) r
  let r := (d["utilities"].items.filterMap readMethod).foldl Registry.addUtility r
  let r := d["builtin_methods"].items.foldl
    (fun r e =>
      match e[0].str?.bind Tag.named?, readMethod e[1] with
      | some t, some m => r.addBuiltinMethod t m
      | _, _ => r) r
  let r := d["builtin_members"].items.foldl
    (fun r e =>
      match e[0].str?.bind Tag.named?, e[2].str?.bind Tag.named? with
      | some t, some m => r.addBuiltinMember t e[1].text m
      | _, _ => r) r
  let r := (d["globals"].items.filterMap readGlobal).foldl Registry.addGlobal r
  return (r, faults)

end HotScript.Wire
