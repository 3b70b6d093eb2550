/-!
The instruction set of compiled functions.

An instruction is one byte of operation followed by 32-bit words: storage, places in the constant
pool, counts, or code offsets.
-/

namespace HotScript

inductive Opcode
  | assign | assignTyped
  | operator | typeTest | cast | matchEqual
  | jump | jumpIf | jumpIfNot | jumpIfShared | giveBack | assert
  | constructArray | constructDictionary | construct | new
  | getNamed | setNamed | getKeyed | setKeyed | getStatic | setStatic | getGlobal
  | call | callMethodBind | callNativeStatic | callSelf | callSelfBase | callStatic | callBuiltin
  | callUtility | callCallable | await
  | createLambda | createSelfLambda
  | iterBegin | iterNext
deriving DecidableEq, Repr, Inhabited

inductive OperandShape
  | fixed (count : Nat)
  /-- `count` words, the last of which says how many groups of `stride` words follow. -/
  | counted (count stride : Nat)
deriving DecidableEq, Repr

namespace Opcode

/-- Every operation; the place in the list is its byte. -/
def all : List Opcode :=
  [assign, assignTyped, operator, typeTest, cast, matchEqual,
    jump, jumpIf, jumpIfNot, jumpIfShared, giveBack, assert,
    constructArray, constructDictionary, construct, new,
    getNamed, setNamed, getKeyed, setKeyed, getStatic, setStatic, getGlobal,
    call, callMethodBind, callNativeStatic, callSelf, callSelfBase, callStatic, callBuiltin,
    callUtility, callCallable, await, createLambda, createSelfLambda, iterBegin, iterNext]

def byte (op : Opcode) : UInt8 := UInt8.ofNat (all.idxOf op)

def ofByte? (b : UInt8) : Option Opcode := all[b.toNat]?

def shape : Opcode → OperandShape
  | jump | giveBack => .fixed 1
  | assign | jumpIf | jumpIfNot | jumpIfShared | assert | getGlobal | await => .fixed 2
  | assignTyped | typeTest | cast | matchEqual | getNamed | setNamed | getKeyed | setKeyed
  | getStatic | setStatic => .fixed 3
  | operator | iterBegin | iterNext => .fixed 4
  | constructArray | construct | new | callSelf | callSelfBase | callUtility | callCallable
  | createLambda | createSelfLambda => .counted 3 1
  | constructDictionary => .counted 3 2
  | call | callNativeStatic | callStatic | callBuiltin => .counted 4 1
  | callMethodBind => .counted 5 1

def isJump : Opcode → Bool
  | jump | jumpIf | jumpIfNot | jumpIfShared | iterBegin | iterNext => true
  | _ => false

def isCall : Opcode → Bool
  | call | callMethodBind | callNativeStatic | callSelf | callSelfBase | callStatic | callBuiltin
  | callUtility | callCallable => true
  | _ => false

def name : Opcode → String
  | assign => "ASSIGN"
  | assignTyped => "ASSIGN_TYPED"
  | operator => "OPERATOR"
  | typeTest => "TYPE_TEST"
  | cast => "CAST"
  | matchEqual => "MATCH_EQUAL"
  | jump => "JUMP"
  | jumpIf => "JUMP_IF"
  | jumpIfNot => "JUMP_IF_NOT"
  | jumpIfShared => "JUMP_IF_SHARED"
  | giveBack => "RETURN"
  | assert => "ASSERT"
  | constructArray => "CONSTRUCT_ARRAY"
  | constructDictionary => "CONSTRUCT_DICTIONARY"
  | construct => "CONSTRUCT"
  | new => "NEW"
  | getNamed => "GET_NAMED"
  | setNamed => "SET_NAMED"
  | getKeyed => "GET_KEYED"
  | setKeyed => "SET_KEYED"
  | getStatic => "GET_STATIC"
  | setStatic => "SET_STATIC"
  | getGlobal => "GET_GLOBAL"
  | call => "CALL"
  | callMethodBind => "CALL_METHOD_BIND"
  | callNativeStatic => "CALL_NATIVE_STATIC"
  | callSelf => "CALL_SELF"
  | callSelfBase => "CALL_SELF_BASE"
  | callStatic => "CALL_STATIC"
  | callBuiltin => "CALL_BUILTIN"
  | callUtility => "CALL_UTILITY"
  | callCallable => "CALL_CALLABLE"
  | await => "AWAIT"
  | createLambda => "CREATE_LAMBDA"
  | createSelfLambda => "CREATE_SELF_LAMBDA"
  | iterBegin => "ITER_BEGIN"
  | iterNext => "ITER_NEXT"

def ofName? (s : String) : Option Opcode := all.find? (·.name == s)

end Opcode

end HotScript
