import HotScript.Report.Fault
import HotScript.Settings

/-!
Files and the sources read from them.

A file is read as text, or as bytes when its path has the extension of files that were read ahead of
time. The digest of a source, by which versions are told apart, is XXH64 of its bytes with seed
zero.
-/

namespace HotScript

namespace Digest

def prime1 : UInt64 := 0x9E3779B185EBCA87
def prime2 : UInt64 := 0xC2B2AE3D27D4EB4F
def prime3 : UInt64 := 0x165667B19E3779F9
def prime4 : UInt64 := 0x85EBCA77C2B2AE63
def prime5 : UInt64 := 0x27D4EB2F165667C5

def rotate (x : UInt64) (n : UInt64) : UInt64 :=
  (x <<< n) ||| (x >>> (64 - n))

/-- The number whose little-endian bytes are given. -/
def word : List UInt8 → UInt64
  | [] => 0
  | b :: rest => b.toUInt64 ||| (word rest <<< 8)

def round (acc input : UInt64) : UInt64 :=
  rotate (acc + input * prime2) 31 * prime1

def mergeLane (acc lane : UInt64) : UInt64 :=
  (acc ^^^ round 0 lane) * prime1 + prime4

structure Lanes where
  a : UInt64 := prime1 + prime2
  b : UInt64 := prime2
  c : UInt64 := 0
  d : UInt64 := 0 - prime1

/-- Eat whole stripes, at most `n` of them; the rest of the input is returned. -/
def stripes (lanes : Lanes) (input : List UInt8) : Nat → Lanes × List UInt8
  | 0 => (lanes, input)
  | n + 1 =>
    if input.length < 32 then (lanes, input)
    else
      let lanes : Lanes :=
        { a := round lanes.a (word (input.take 8))
          b := round lanes.b (word ((input.drop 8).take 8))
          c := round lanes.c (word ((input.drop 16).take 8))
          d := round lanes.d (word ((input.drop 24).take 8)) }
      stripes lanes (input.drop 32) n

def Lanes.join (l : Lanes) : UInt64 :=
  let acc := rotate l.a 1 + rotate l.b 7 + rotate l.c 12 + rotate l.d 18
  mergeLane (mergeLane (mergeLane (mergeLane acc l.a) l.b) l.c) l.d

/-- Eat what is left after the stripes: words of eight bytes, then four, then single bytes. -/
def tail (acc : UInt64) (input : List UInt8) : Nat → UInt64
  | 0 => acc
  | n + 1 =>
    if 8 ≤ input.length then
      let acc := rotate (acc ^^^ round 0 (word (input.take 8))) 27 * prime1 + prime4
      tail acc (input.drop 8) n
    else if 4 ≤ input.length then
      let acc := rotate (acc ^^^ (word (input.take 4) * prime1)) 23 * prime2 + prime3
      tail acc (input.drop 4) n
    else
      match input with
      | [] => acc
      | b :: rest => tail (rotate (acc ^^^ (b.toUInt64 * prime5)) 11 * prime1) rest n

def avalanche (x : UInt64) : UInt64 :=
  let x := (x ^^^ (x >>> 33)) * prime2
  let x := (x ^^^ (x >>> 29)) * prime3
  x ^^^ (x >>> 32)

def ofBytes (input : List UInt8) : UInt64 :=
  let size := input.length
  let (start, rest) :=
    if size < 32 then (prime5, input)
    else
      let (lanes, rest) := stripes {} input size
      (lanes.join, rest)
  avalanche (tail (start + UInt64.ofNat size) rest size)

end Digest

def Text.bytes (s : String) : List UInt8 := s.toUTF8.toList

/-- The text that bytes spell, if they spell one. -/
def Text.ofBytes? (bytes : List UInt8) : Option String := String.fromUTF8? ⟨bytes.toArray⟩

inductive FileContent
  | text (s : String)
  | bytes (b : List UInt8)
  | unreadable (reason : String)
deriving DecidableEq, Repr

inductive Source
  | empty
  | text (s : String)
  | binary (b : List UInt8)
deriving DecidableEq, Repr, Inhabited

namespace Source

def bytes : Source → List UInt8
  | empty => []
  | text s => Text.bytes s
  | binary b => b

def isEmpty : Source → Bool
  | empty => true
  | _ => false

def text? : Source → Option String
  | text s => some s
  | _ => none

def digest (s : Source) : UInt64 := Digest.ofBytes s.bytes

/-- The source that a file holds when it is asked for as `path`. -/
def ofContent (settings : Settings) (path : String) : FileContent → Except LoadFault Source
  | .unreadable reason => .error (.cantRead path reason)
  | .text s => .ok (if settings.isBinaryPath path then .binary (Text.bytes s) else .text s)
  | .bytes b =>
    if settings.isBinaryPath path then .ok (.binary b)
    else
      match Text.ofBytes? b with
      | some s => .ok (.text s)
      | none => .error (.cantRead path "not UTF-8")

def load (settings : Settings) (files : Table String FileContent) (path : String) :
    Except LoadFault Source :=
  match files.find? path with
  | none => .error (.fileNotFound path)
  | some content => ofContent settings path content

end Source

end HotScript
