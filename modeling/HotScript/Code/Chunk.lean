import HotScript.Code.Opcode

/-!
The code of a function: bytes, and the source line of each byte.

Words are written with their most significant byte first. A jump is written before its target is
known and patched later.
-/

namespace HotScript

/-- Where an operand is kept. -/
inductive Address
  /-- The stack of the function: captures, parameters, locals, temporaries. -/
  | stack (index : Nat)
  | constant (index : Nat)
  | member (index : Nat)
  /-- The instance, or the class in static functions. -/
  | self
  | nil
deriving DecidableEq, Repr, Inhabited

namespace Address

def indexBound : Nat := 0x20000000

def encode : Address → Nat
  | stack i => i % indexBound
  | constant i => indexBound + i % indexBound
  | member i => 2 * indexBound + i % indexBound
  | self => 3 * indexBound
  | nil => 4 * indexBound

def decode? (word : Nat) : Option Address :=
  let index := word % indexBound
  match word / indexBound with
  | 0 => some (stack index)
  | 1 => some (constant index)
  | 2 => some (member index)
  | 3 => some self
  | 4 => some nil
  | _ => none

def text : Address → String
  | stack i => "stack(" ++ toString i ++ ")"
  | constant i => "const(" ++ toString i ++ ")"
  | member i => "member(" ++ toString i ++ ")"
  | self => "self"
  | nil => "nil"

def InRange : Address → Prop
  | stack i | constant i | member i => i < indexBound
  | self | nil => True

/-- Addresses read back from their words. -/
theorem decode?_encode {a : Address} (h : a.InRange) : decode? a.encode = some a := by
  cases a with
  | stack i => simp_all [InRange, decode?, encode, Nat.mod_eq_of_lt, Nat.div_eq_of_lt]
  | constant i =>
    have hi : i < indexBound := h
    have hd : (indexBound + i) / indexBound = 1 := by
      simp only [indexBound] at *; omega
    have hm : (indexBound + i) % indexBound = i := by
      simp only [indexBound] at *; omega
    simp [decode?, encode, Nat.mod_eq_of_lt hi, hd, hm]
  | member i =>
    have hi : i < indexBound := h
    have hd : (2 * indexBound + i) / indexBound = 2 := by
      simp only [indexBound] at *; omega
    have hm : (2 * indexBound + i) % indexBound = i := by
      simp only [indexBound] at *; omega
    simp [decode?, encode, Nat.mod_eq_of_lt hi, hd, hm]
  | self => decide
  | nil => decide

end Address

structure Instr where
  offset : Nat
  op : Opcode
  operands : List Nat
deriving DecidableEq, Repr, Inhabited

namespace Instr

def word? (i : Instr) (n : Nat) : Option Nat := i.operands[n]?
def address? (i : Instr) (n : Nat) : Option Address := (i.word? n).bind Address.decode?

def trailing (i : Instr) : List Nat :=
  match i.op.shape with
  | .fixed _ => []
  | .counted n _ => i.operands.drop n

def next (i : Instr) : Nat := i.offset + 1 + i.operands.length * 4

end Instr

/-- Code, byte by byte, each with its line. -/
structure Chunk where
  code : Array UInt8 := #[]
  lines : Array Nat := #[]
deriving Repr, Inhabited, DecidableEq

namespace Chunk

/-- The largest word, which marks a target that is not known yet. -/
def pending : Nat := 0xFFFFFFFF

def size (c : Chunk) : Nat := c.code.size

def isEmpty (c : Chunk) : Bool := c.code.isEmpty

def wordBytes (w : Nat) : List UInt8 :=
  [UInt8.ofNat (w / 0x1000000), UInt8.ofNat (w / 0x10000), UInt8.ofNat (w / 0x100), UInt8.ofNat w]

def writeByte (c : Chunk) (b : UInt8) (line : Nat) : Chunk :=
  { code := c.code.push b, lines := c.lines.push line }

def writeOp (c : Chunk) (op : Opcode) (line : Nat) : Chunk := c.writeByte op.byte line

def writeWord (c : Chunk) (w line : Nat) : Chunk :=
  (wordBytes w).foldl (fun c b => c.writeByte b line) c

def writeAddress (c : Chunk) (a : Address) (line : Nat) : Chunk := c.writeWord a.encode line

def write (c : Chunk) (op : Opcode) (words : List Nat) (line : Nat) : Chunk :=
  words.foldl (fun c w => c.writeWord w line) (c.writeOp op line)

/-- Write a jump whose target comes later; the offset of the target word is returned. -/
def writeJump (c : Chunk) (op : Opcode) (words : List Nat) (line : Nat) : Nat × Chunk :=
  let c := c.write op words line
  (c.size, c.writeWord pending line)

def patchWord (c : Chunk) (offset w : Nat) : Chunk :=
  if offset + 4 ≤ c.code.size then
    { c with code :=
        ((wordBytes w).foldl (fun (acc : Nat × Array UInt8) b =>
          (acc.1 + 1, acc.2.setIfInBounds acc.1 b)) (offset, c.code)).2 }
  else c

def patchJump (c : Chunk) (offset : Nat) : Chunk := c.patchWord offset c.size

def writeLoop (c : Chunk) (target line : Nat) : Chunk := c.write .jump [target] line

def lineAt? (c : Chunk) (offset : Nat) : Option Nat := c.lines[offset]?

def word? (c : Chunk) (offset : Nat) : Option Nat := do
  let a ← c.code[offset]?
  let b ← c.code[offset + 1]?
  let d ← c.code[offset + 2]?
  let e ← c.code[offset + 3]?
  some (((a.toNat * 256 + b.toNat) * 256 + d.toNat) * 256 + e.toNat)

def op? (c : Chunk) (offset : Nat) : Option Opcode := (c.code[offset]?).bind Opcode.ofByte?

def words? (c : Chunk) (offset : Nat) : Nat → Option (List Nat)
  | 0 => some []
  | n + 1 => do
    let w ← c.word? offset
    let rest ← c.words? (offset + 4) n
    some (w :: rest)

def instr? (c : Chunk) (offset : Nat) : Option Instr := do
  let op ← c.op? offset
  match op.shape with
  | .fixed n =>
    let operands ← c.words? (offset + 1) n
    some { offset, op, operands }
  | .counted n stride =>
    let fixed ← c.words? (offset + 1) n
    let count ← fixed.getLast?
    let rest ← c.words? (offset + 1 + n * 4) (count * stride)
    some { offset, op, operands := fixed ++ rest }

/-- Instructions from an offset on, as long as they decode, at most `n` of them. -/
def instrsFrom (c : Chunk) (offset : Nat) : Nat → List Instr
  | 0 => []
  | n + 1 =>
    match c.instr? offset with
    | some i => i :: c.instrsFrom i.next n
    | none => []

def instrs (c : Chunk) : List Instr := c.instrsFrom 0 c.size

end Chunk

end HotScript
