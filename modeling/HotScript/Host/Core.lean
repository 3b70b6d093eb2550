import HotScript.Host.Registry

/-!
The classes, methods, utilities and constants that every host offers.
-/

namespace HotScript

namespace Core

/-- A method without arguments that gives a value of a kind. -/
def plain (name : String) (result : Tag := .nil) : MethodDesc :=
  { name, result := { name := "", tag := result } }

def argument (name : String) (tag : Tag) : PropertyDesc := { name, tag }

def taking (name : String) (arguments : List PropertyDesc) (result : Tag := .nil) : MethodDesc :=
  { plain name result with arguments }

def varying (m : MethodDesc) : MethodDesc := { m with flags := m.flags ||| MethodFlag.vararg.bit }

def methodsOf (c : NativeClass) (ms : List MethodDesc) : NativeClass :=
  ms.foldl (fun c m => c.withMethod { desc := m }) c

def object : NativeClass :=
  let c := methodsOf { name := "Object" }
    [ plain "get_class" .string
      , taking "is_class" [argument "class" .string] .bool
      , taking "get" [argument "property" .stringName]
      , taking "set" [argument "property" .stringName, argument "value" .nil]
      , varying (taking "emit_signal" [argument "signal" .stringName])
      , plain "free" ]
  let c := c.withSignal (plain "script_changed")
  let c := c.withConstant "NOTIFICATION_POSTINITIALIZE" 0
  c.withConstant "NOTIFICATION_PREDELETE" 1

def refCounted : NativeClass :=
  methodsOf { name := "RefCounted", parent := some "Object" } [plain "get_reference_count" .int]

def resource : NativeClass :=
  let c : NativeClass := { name := "Resource", parent := some "RefCounted" }
  let c := c.withProperty (argument "resource_path" .string)
  let c := c.withProperty (argument "resource_name" .string)
  c.withSignal (plain "changed")

def node : NativeClass :=
  let c : NativeClass := { name := "Node", parent := some "Object" }
  let c := c.withProperty (argument "name" .stringName)
  let c := methodsOf c
    [ taking "add_child" [{ argument "node" .object with className := "Node" }]
      , plain "get_child_count" .int
      , plain "queue_free" ]
  let c := c.withSignal (plain "ready")
  let c := c.withSignal (plain "renamed")
  let c := c.withEnum "ProcessMode"
    [ ("PROCESS_MODE_INHERIT", 0)
      , ("PROCESS_MODE_PAUSABLE", 1)
      , ("PROCESS_MODE_ALWAYS", 3) ]
  c.withConstant "NOTIFICATION_READY" 13

/-- Methods of builtin kinds that take nothing: the kind, the name and the kind of the result. -/
def queries : List (Tag × String × Tag) :=
  [ (.array, "size", .int)
    , (.array, "is_empty", .bool)
    , (.array, "clear", .nil)
    , (.array, "pop_back", .nil)
    , (.dictionary, "size", .int)
    , (.dictionary, "is_empty", .bool)
    , (.dictionary, "keys", .array)
    , (.dictionary, "values", .array)
    , (.string, "length", .int)
    , (.string, "to_upper", .string)
    , (.string, "to_lower", .string)
    , (.vector2, "length", .float)
    , (.vector2, "normalized", .vector2)
    , (.vector3, "length", .float) ]

/-- Methods of builtin kinds that take one value: the kind, the name, the kind of the value and of
the result. -/
def updates : List (Tag × String × Tag × Tag) :=
  [ (.array, "append", .nil, .nil)
    , (.array, "push_back", .nil, .nil)
    , (.array, "has", .nil, .bool)
    , (.dictionary, "has", .nil, .bool)
    , (.dictionary, "erase", .nil, .bool)
    , (.string, "begins_with", .string, .bool) ]

def members : List (Tag × String) :=
  [(.vector2, "x"), (.vector2, "y"), (.vector3, "x"), (.vector3, "y"), (.vector3, "z")]

def utilities : List MethodDesc :=
  [ varying (plain "print")
    , taking "len" [argument "value" .nil] .int
    , varying (plain "str" .string)
    , { taking "range" [argument "from" .int, argument "to" .int, argument "step" .int] .array with
        defaults := 2 }
    , taking "typeof" [argument "value" .nil] .int
    , taking "abs" [argument "value" .nil] ]

/-- The float nearest to the ratio of a circle's circumference to its diameter. -/
def pi : Float := Float.ofBits 0x400921FB54442D18

def tau : Float := Float.ofBits 0x401921FB54442D18

def infinity : Float := Float.ofBits 0x7FF0000000000000

end Core

def Registry.core : Registry :=
  let r : Registry := { classes := [Core.node, Core.resource, Core.refCounted, Core.object] }
  let r := Core.queries.foldl (fun r (t, name, result) =>
    r.addBuiltinMethod t { Core.plain name result with
      flags := MethodFlag.normal.bit ||| MethodFlag.const.bit }) r
  let r := Core.updates.foldl (fun r (t, name, arg, result) =>
    r.addBuiltinMethod t (Core.taking name [Core.argument "value" arg] result)) r
  let r := r.addBuiltinMethod .vector2
    (Core.taking "dot" [Core.argument "with" .vector2] .float)
  let r := Core.members.foldl (fun r (t, name) => r.addBuiltinMember t name .float) r
  let r := Core.utilities.foldl Registry.addUtility r
  let r := r.addConstant "PI" (.float Core.pi)
  let r := r.addConstant "TAU" (.float Core.tau)
  r.addConstant "INF" (.float Core.infinity)

end HotScript
