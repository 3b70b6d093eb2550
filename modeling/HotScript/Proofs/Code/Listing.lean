import HotScript.Code.Chunk
import Mathlib.Data.List.Basic

/-!
Chunks as lists of commands.

A chunk is a flat array of bytes, and an offset into it means something only where an instruction
starts. A *listing* is the list of commands a chunk was written from (`Chunk.Lists`). Writing a
command appends it, patching a jump changes the last word of one command, and reading the chunk back
gives the commands (`instrs_of_lists`).
-/

namespace HotScript

open List (append_assoc foldl_cons length_append length_cons length_singleton)

namespace Opcode

theorem ofByte?_byte (op : Opcode) : ofByte? op.byte = some op := by
  cases op <;> rfl

theorem stride_pos {op : Opcode} {n stride : Nat} (h : op.shape = .counted n stride) :
    0 < stride := by
  cases op <;> cases h <;> decide

end Opcode

/-- An instruction before it has bytes. -/
structure Command where
  op : Opcode
  words : List Nat

namespace Command

def bytes (c : Command) : List UInt8 := c.op.byte :: c.words.flatMap Chunk.wordBytes

def length (c : Command) : Nat := 1 + 4 * c.words.length

/-- The same command with another last word. -/
def aim (c : Command) (target : Nat) : Command := { c with words := c.words.dropLast ++ [target] }

/-- The instruction that is read back from a command at an offset: words are 32 bits wide. -/
def instr (c : Command) (offset : Nat) : Instr :=
  { offset, op := c.op, operands := c.words.map (· % 0x100000000) }

def Shaped (c : Command) : Prop :=
  match c.op.shape with
  | .fixed n => c.words.length = n
  | .counted n stride =>
    ∃ fixed count items, c.words = fixed ++ count :: items ∧ fixed.length + 1 = n ∧
      items.length = count * stride

theorem length_flatMap_wordBytes (ws : List Nat) :
    (ws.flatMap Chunk.wordBytes).length = 4 * ws.length := by
  induction ws with
  | nil => rfl
  | cons w ws ih =>
    rw [List.flatMap_cons, length_append, ih, length_cons]
    show 4 + 4 * ws.length = _
    omega

@[simp] theorem length_bytes (c : Command) : c.bytes.length = c.length := by
  rw [bytes, length_cons, length_flatMap_wordBytes, length, Nat.add_comm]

theorem length_pos (c : Command) : 0 < c.length := by
  rw [length]
  omega

@[simp] theorem length_aim {c : Command} (h : c.words ≠ []) (target : Nat) :
    (c.aim target).length = c.length := by
  have := List.length_pos_iff.2 h
  simp only [length, aim, length_append, List.length_dropLast, length_singleton]
  omega

@[simp] theorem instr_next (c : Command) (offset : Nat) :
    (c.instr offset).next = offset + c.length := by
  simp only [Instr.next, instr, List.length_map, length]
  omega

end Command

/-- The commands of a chunk, in order. -/
abbrev Listing := List Command

namespace Listing

variable {pre post pre' post' : Listing} {d' : Command}

def bytes (cs : Listing) : List UInt8 := cs.flatMap Command.bytes

def size (cs : Listing) : Nat := cs.bytes.length

variable (c : Command) (xs ys : Listing) (cs : Listing)

@[simp] theorem bytes_append : bytes (xs ++ ys) = bytes xs ++ bytes ys :=
  List.flatMap_append

@[simp] theorem bytes_cons : bytes (c :: cs) = c.bytes ++ bytes cs :=
  List.flatMap_cons

@[simp] theorem size_nil : size [] = 0 := rfl

@[simp] theorem size_append : size (xs ++ ys) = size xs + size ys := by
  rw [size, bytes_append, length_append]
  rfl

@[simp] theorem size_cons : size (c :: cs) = c.length + size cs := by
  rw [size, bytes_cons, length_append, Command.length_bytes]
  rfl

theorem length_le_size : cs.length ≤ cs.size := by
  induction cs with
  | nil => exact Nat.le_refl _
  | cons c cs ih =>
    have := c.length_pos
    rw [size_cons, length_cons]
    omega

/-- The command `c` stands at an offset. -/
def At (cs : Listing) (offset : Nat) (c : Command) : Prop :=
  ∃ pre post, cs = pre ++ c :: post ∧ size pre = offset

/-- An offset where a command starts, or the end. -/
def Boundary (cs : Listing) (offset : Nat) : Prop := ∃ pre post, cs = pre ++ post ∧
    size pre = offset

variable {cs : Listing} {offset other : Nat} {c : Command}

theorem At.append (h : At cs offset c) (ds : Listing) : At (cs ++ ds) offset c := by
  obtain ⟨pre, post, rfl, hs⟩ := h
  exact ⟨pre, post ++ ds, by simp, hs⟩

theorem At.mem (h : At cs offset c) : c ∈ cs := by
  obtain ⟨pre, post, rfl, -⟩ := h
  simp

theorem At.le_size (h : At cs offset c) : offset + c.length ≤ cs.size := by
  obtain ⟨pre, post, rfl, rfl⟩ := h
  simp only [size_append, size_cons]
  omega

theorem at_end (cs : Listing) (c : Command) : At (cs ++ [c]) cs.size c := ⟨cs, [], rfl, rfl⟩

variable {d : Command}

theorem At.of_append_singleton (h : At (cs ++ [d]) offset c) :
    At cs offset c ∨ offset = cs.size ∧ c = d := by
  obtain ⟨pre, post, he, hs⟩ := h
  rcases List.eq_nil_or_concat post with rfl | ⟨post, last, rfl⟩
  · obtain ⟨rfl, hd⟩ := List.append_inj' he rfl
    obtain ⟨rfl⟩ := hd
    exact .inr ⟨hs.symm, rfl⟩
  · rw [List.concat_eq_append, ← List.cons_append, ← append_assoc] at he
    obtain ⟨rfl, -⟩ := List.append_inj' he rfl
    exact .inl ⟨pre, post, rfl, hs⟩

theorem Boundary.append (h : Boundary cs offset) (ds : Listing) : Boundary (cs ++ ds) offset := by
  obtain ⟨pre, post, rfl, hs⟩ := h
  exact ⟨pre, post ++ ds, by simp, hs⟩

theorem boundary_size (cs : Listing) : Boundary cs cs.size := ⟨cs, [], by simp, rfl⟩

theorem Boundary.le_size (h : Boundary cs offset) : offset ≤ cs.size := by
  obtain ⟨pre, post, rfl, rfl⟩ := h
  simp

theorem Boundary.at_of_append (h : Boundary cs offset) (d : Command) :
    ∃ c, At (cs ++ [d]) offset c := by
  obtain ⟨pre, post, rfl, hs⟩ := h
  cases post with
  | nil => exact ⟨d, pre, [], by simp, hs⟩
  | cons c post => exact ⟨c, pre, post ++ [d], by simp, hs⟩

theorem divided (h : pre ++ d :: post = pre' ++ post') :
    (∃ mid, pre' = pre ++ d :: mid ∧ post = mid ++ post') ∨
      ∃ mid, pre = pre' ++ mid ∧ post' = mid ++ d :: post := by
  rcases List.append_eq_append_iff.1 h with ⟨mid, rfl, hm⟩ | h
  · cases mid with
    | nil => exact .inr ⟨[], by simp, hm.symm⟩
    | cons m mid =>
      obtain ⟨rfl, rfl⟩ := List.cons.inj hm
      exact .inl ⟨mid, rfl, rfl⟩
  · exact .inr h

theorem At.next_le (hc : At cs offset c) (hd : At cs other d) (h : offset < other) :
    offset + c.length ≤ other := by
  obtain ⟨pre, post, rfl, rfl⟩ := hc
  obtain ⟨pre', post', he, rfl⟩ := hd
  rcases divided he with ⟨mid, rfl, -⟩ | ⟨mid, rfl, -⟩
  · simp only [size_append, size_cons]
    omega
  · simp only [size_append] at h
    omega

theorem At.unique (hc : At cs offset c) (hd : At cs offset d) : c = d := by
  obtain ⟨pre, post, rfl, rfl⟩ := hc
  obtain ⟨pre', post', he, hs⟩ := hd
  have := c.length_pos
  have := d.length_pos
  rcases divided he with ⟨mid, rfl, -⟩ | ⟨mid, rfl, hm⟩
  · simp only [size_append, size_cons] at hs
    omega
  · cases mid with
    | nil => exact (List.cons.inj hm).1.symm
    | cons m mid =>
      obtain ⟨rfl, -⟩ := List.cons.inj hm
      simp only [size_append, size_cons] at hs
      omega

theorem At.replace (hl : d'.length = d.length) (h : At (pre ++ d :: post) offset c) :
    offset = size pre ∧ c = d ∨ offset ≠ size pre ∧ At (pre ++ d' :: post) offset c := by
  by_cases ho : offset = size pre
  · subst ho
    exact .inl ⟨rfl, h.unique ⟨pre, post, rfl, rfl⟩⟩
  · refine .inr ⟨ho, ?_⟩
    obtain ⟨pre', post', he, rfl⟩ := h
    rcases divided he with ⟨mid, rfl, rfl⟩ | ⟨mid, rfl, hm⟩
    · exact ⟨pre ++ d' :: mid, post', by simp, by simp [hl]⟩
    · cases mid with
      | nil => simp at ho
      | cons m mid =>
        obtain ⟨rfl, rfl⟩ := List.cons.inj hm
        exact ⟨pre', mid ++ d' :: post, by simp, rfl⟩

theorem Boundary.replace (hl : d'.length = d.length) (h : Boundary (pre ++ d :: post) offset) :
    Boundary (pre ++ d' :: post) offset := by
  obtain ⟨pre', post', he, rfl⟩ := h
  rcases divided he with ⟨mid, rfl, rfl⟩ | ⟨mid, rfl, rfl⟩
  · exact ⟨pre ++ d' :: mid, post', by simp, by simp [hl]⟩
  · exact ⟨pre', mid ++ d' :: post, by simp, rfl⟩

end Listing

namespace Chunk

/-- The bytes of the chunk are those of a listing, and each has a line. -/
structure Lists (c : Chunk) (cs : Listing) : Prop where
  code : c.code.toList = cs.bytes
  lines : c.lines.size = c.code.size

variable {c : Chunk} {cs : Listing}

theorem lists_empty : Lists {} [] := ⟨rfl, rfl⟩

theorem Lists.size_eq (h : c.Lists cs) : c.size = cs.size := by
  rw [size, ← Array.length_toList, h.code]
  rfl

def writeBytes (c : Chunk) (bytes : List UInt8) (line : Nat) : Chunk :=
  bytes.foldl (fun c b => c.writeByte b line) c

variable (op : Opcode) (words : List Nat) (bytes : List UInt8) (line : Nat)

theorem writeBytes_code : (c.writeBytes bytes line).code.toList = c.code.toList ++ bytes := by
  induction bytes generalizing c with
  | nil => simp [writeBytes]
  | cons b bytes ih =>
    rw [writeBytes, foldl_cons, ← writeBytes, ih]
    simp [writeByte]

theorem writeBytes_lines (h : c.lines.size = c.code.size) :
    (c.writeBytes bytes line).lines.size = (c.writeBytes bytes line).code.size := by
  induction bytes generalizing c with
  | nil => exact h
  | cons b bytes ih =>
    exact ih (by simp [writeByte, h])

theorem write_eq_writeBytes :
    c.write op words line = c.writeBytes (Command.bytes ⟨op, words⟩) line := by
  show words.foldl _ (c.writeByte op.byte line) = writeBytes (c.writeByte op.byte line) _ line
  generalize c.writeByte op.byte line = d
  induction words generalizing d with
  | nil => rfl
  | cons w words ih =>
    rw [foldl_cons, ih]
    rfl

theorem Lists.write (h : c.Lists cs) : (c.write op words line).Lists (cs ++ [⟨op, words⟩]) where
  code := by
    rw [write_eq_writeBytes, writeBytes_code, h.code, Listing.bytes_append]
    simp [Listing.bytes]
  lines := by
    rw [write_eq_writeBytes]
    exact writeBytes_lines _ line h.lines

variable {i offset : Nat} {pre post old : List UInt8}

theorem getElem?_write (hi : i < c.size) : (c.write op words line).code[i]? = c.code[i]? := by
  have hlt : i < c.code.toList.length := by rwa [Array.length_toList]
  rw [write_eq_writeBytes, ← Array.getElem?_toList, writeBytes_code, List.getElem?_append_left hlt,
    Array.getElem?_toList]

theorem writeJump_eq : c.writeJump op words line =
    ((c.write op words line).size, c.write op (words ++ [pending]) line) := by
  simp [writeJump, write]

theorem Lists.writeJump (h : c.Lists cs) :
    (c.writeJump op words line).1 + 4 = cs.size + Command.length ⟨op, words ++ [pending]⟩ := by
  rw [writeJump_eq, (h.write op words line).size_eq]
  simp only [Listing.size_append, Listing.size_cons, Listing.size_nil, Command.length,
    length_append, length_singleton]
  omega

/-! ### Patching -/

theorem foldl_setIfInBounds (code : Array UInt8) (offset : Nat) :
    (bytes.foldl (fun (acc : Nat × Array UInt8) b => (acc.1 + 1, acc.2.setIfInBounds acc.1 b))
      (offset, code)).2.size = code.size ∧
    ∀ i, i < code.size →
      (bytes.foldl (fun (acc : Nat × Array UInt8) b => (acc.1 + 1, acc.2.setIfInBounds acc.1 b))
        (offset, code)).2[i]? =
      if offset ≤ i ∧ i < offset + bytes.length then bytes[i - offset]? else code[i]? := by
  induction bytes generalizing code offset with
  | nil =>
    refine ⟨rfl, fun i hi => ?_⟩
    rw [if_neg (by simp only [List.length_nil]; omega)]
    rfl
  | cons b bytes ih =>
    obtain ⟨hs, hr⟩ := ih (code.setIfInBounds offset b) (offset + 1)
    refine ⟨by simpa using hs, fun i hi => ?_⟩
    rw [foldl_cons, hr i (by simpa using hi), length_cons]
    by_cases hio : i = offset
    · subst hio
      rw [if_neg (by omega)]
      simp [hi]
    · rw [Array.getElem?_setIfInBounds_ne (Ne.symm hio)]
      by_cases h : offset ≤ i ∧ i < offset + (bytes.length + 1)
      · rw [if_pos (by omega), if_pos h, show i - offset = (i - (offset + 1)) + 1 by omega]
        rfl
      · rw [if_neg (by omega), if_neg h]

variable (w : Nat) {d : Command}

theorem size_patchWord (offset : Nat) : (c.patchWord offset w).size = c.size := by
  rw [patchWord]
  split
  · exact (foldl_setIfInBounds _ _ _).1
  · rfl

theorem getElem?_patchWord (h : offset + 4 ≤ c.size) (hi : i < c.size) :
    (c.patchWord offset w).code[i]? =
      if offset ≤ i ∧ i < offset + 4 then (wordBytes w)[i - offset]? else c.code[i]? := by
  rw [patchWord, if_pos (show offset + 4 ≤ c.code.size from h)]
  exact (foldl_setIfInBounds _ _ _).2 i hi

theorem getElem?_patchWord_of_ne (h : ¬(offset ≤ i ∧ i < offset + 4)) :
    (c.patchWord offset w).code[i]? = c.code[i]? := by
  by_cases hs : offset + 4 ≤ c.size
  · by_cases hi : i < c.size
    · rw [getElem?_patchWord w hs hi, if_neg h]
    · have hp : ¬ i < (c.patchWord offset w).size := by rwa [size_patchWord]
      rw [Array.getElem?_eq_none (by simpa [size] using hp),
        Array.getElem?_eq_none (by simpa [size] using hi)]
  · rw [patchWord, if_neg (show ¬ offset + 4 ≤ c.code.size from hs)]

theorem patchWord_code (hc : c.code.toList = pre ++ old ++ post) (ho : old.length = 4) :
    (c.patchWord pre.length w).code.toList = pre ++ wordBytes w ++ post := by
  have hsize : c.size = pre.length + 4 + post.length := by
    rw [size, ← Array.length_toList, hc]
    simp only [length_append, ho]
  have hw : (wordBytes w).length = 4 := rfl
  apply List.ext_getElem?
  intro i
  rw [Array.getElem?_toList]
  by_cases hi : i < c.size
  · rw [getElem?_patchWord w (by omega) hi]
    by_cases hp : i < pre.length
    · rw [if_neg (by omega), ← Array.getElem?_toList, hc, append_assoc, append_assoc,
        List.getElem?_append_left hp, List.getElem?_append_left hp]
    · by_cases hm : i < pre.length + 4
      · rw [if_pos (by omega), append_assoc, List.getElem?_append_right (by omega),
          List.getElem?_append_left (by omega)]
      · rw [if_neg (by omega), ← Array.getElem?_toList, hc,
          List.getElem?_append_right (by simp; omega), List.getElem?_append_right (by simp; omega)]
        simp [ho, hw]
  · have hp : ¬ i < (c.patchWord pre.length w).size := by rwa [size_patchWord]
    rw [Array.getElem?_eq_none (by simpa [size] using hp), List.getElem?_eq_none]
    simp only [length_append, hw]
    omega

theorem Lists.patchWord {pre post : Listing} (h : c.Lists (pre ++ d :: post)) (hd : d.words ≠ [])
    (w : Nat) : (c.patchWord (pre.size + d.length - 4) w).Lists (pre ++ d.aim w :: post) where
  code := by
    obtain ⟨ws, old, hws⟩ : ∃ ws old, d.words = ws ++ [old] :=
      ⟨_, _, (List.dropLast_append_getLast hd).symm⟩
    have hbytes : c.code.toList =
        (pre.bytes ++ d.op.byte :: ws.flatMap wordBytes) ++ wordBytes old ++
        Listing.bytes post := by
      rw [h.code, Listing.bytes_append, Listing.bytes_cons, Command.bytes, hws]
      simp
    have hpos : pre.size + d.length - 4 = (pre.bytes ++ d.op.byte :: ws.flatMap
        wordBytes).length := by
      rw [length_append, length_cons, Command.length_flatMap_wordBytes, Command.length, hws,
        Listing.size, length_append, length_singleton]
      omega
    rw [hpos, patchWord_code w hbytes rfl, Listing.bytes_append, Listing.bytes_cons, Command.bytes,
      Command.aim, hws]
    simp
  lines := by
    have hs : (c.patchWord (pre.size + d.length - 4) w).code.size = c.code.size :=
      size_patchWord w _
    rw [hs, ← h.lines, Chunk.patchWord]
    split <;> rfl

/-! ### Reading back -/

theorem getElem?_of_code {b : UInt8} (h : c.code.toList = pre ++ b :: post) :
    c.code[pre.length]? = some b := by
  rw [← Array.getElem?_toList, h, List.getElem?_append_right (Nat.le_refl _), Nat.sub_self]
  rfl

theorem word?_of_code {w : Nat} (h : c.code.toList = pre ++ wordBytes w ++ post) :
    c.word? pre.length = some (w % 0x100000000) := by
  have hbyte (i : Nat) (hi : i < 4) : c.code[pre.length + i]? = (wordBytes w)[i]? := by
    rw [← Array.getElem?_toList, h, append_assoc, List.getElem?_append_right (by omega),
      Nat.add_sub_cancel_left, List.getElem?_append_left hi]
  have hw : ((w / 0x1000000 % 256 * 256 + w / 0x10000 % 256) * 256 + w / 0x100 % 256) * 256 +
      w % 256 = w % 0x100000000 := by
    omega
  have hfirst := hbyte 0 (by decide)
  rw [Nat.add_zero] at hfirst
  simp [word?, hfirst, hbyte 1, hbyte 2, hbyte 3, wordBytes, hw]

theorem words?_of_code (ws : List Nat) (pre post : List UInt8)
    (h : c.code.toList = pre ++ ws.flatMap wordBytes ++ post) :
    c.words? pre.length ws.length = some (ws.map (· % 0x100000000)) := by
  induction ws generalizing pre with
  | nil => rfl
  | cons w ws ih =>
    have hhead : c.code.toList = pre ++ wordBytes w ++ (ws.flatMap wordBytes ++ post) := by
      rw [h]
      simp
    have htail : c.code.toList = (pre ++ wordBytes w) ++ ws.flatMap wordBytes ++ post := by
      rw [h]
      simp
    have hrest := ih _ htail
    rw [length_append, show (wordBytes w).length = 4 from rfl] at hrest
    simp [words?, word?_of_code hhead, hrest]

theorem Lists.instr? (h : c.Lists cs) (ha : cs.At offset d) (hd : d.Shaped)
    (hs : ∀ w ∈ d.words, 4 * w < c.size → w < 0x100000000) :
    c.instr? offset = some (d.instr offset) := by
  have hle := ha.le_size
  rw [← h.size_eq] at hle
  obtain ⟨pre, post, rfl, rfl⟩ := ha
  have hcode : c.code.toList =
      pre.bytes ++ d.op.byte :: (d.words.flatMap wordBytes ++ Listing.bytes post) := by
    rw [h.code, Listing.bytes_append, Listing.bytes_cons, Command.bytes]
    simp
  have hop : c.op? pre.size = some d.op := by
    rw [op?, Listing.size, getElem?_of_code hcode]
    exact d.op.ofByte?_byte
  have hwords (ws vs : List Nat) (hw : d.words = ws ++ vs) (hpost : List UInt8)
      (hp : hpost = vs.flatMap wordBytes ++ Listing.bytes post) :
      c.code.toList = (pre.bytes ++ [d.op.byte]) ++ ws.flatMap wordBytes ++ hpost := by
    rw [hcode, hw, hp]
    simp
  have hlen : (pre.bytes ++ [d.op.byte]).length = pre.size + 1 := by simp [Listing.size]
  rw [Command.Shaped] at hd
  rw [instr?]
  cases hsh : d.op.shape with
  | fixed n =>
    rw [hsh] at hd
    have hread := words?_of_code d.words _ _ (hwords d.words [] (by simp) _ rfl)
    rw [hlen, hd] at hread
    simp [hop, hsh, hread, Command.instr]
  | counted n stride =>
    rw [hsh] at hd
    obtain ⟨fixed, count, items, hw, hn, hi⟩ := hd
    have hpos : 0 < stride := Opcode.stride_pos hsh
    have hcount : count % 0x100000000 = count := by
      have hmul : count ≤ count * stride := Nat.le_mul_of_pos_right count hpos
      rw [Command.length, hw, length_append, length_cons, hi] at hle
      exact Nat.mod_eq_of_lt (hs count (by rw [hw]; simp) (by omega))
    have hsplit : d.words = (fixed ++ [count]) ++ items := by rw [hw]; simp
    have hfixed := words?_of_code (fixed ++ [count]) _ _ (hwords _ items hsplit _ rfl)
    have hrest := words?_of_code items
      (pre.bytes ++ [d.op.byte] ++ (fixed ++ [count]).flatMap wordBytes) (Listing.bytes post)
      (by rw [hwords _ items hsplit _ rfl]; simp)
    rw [hlen, length_append, length_singleton, hn] at hfixed
    rw [length_append, hlen, Command.length_flatMap_wordBytes, length_append,
      length_singleton, hn, hi, Nat.mul_comm 4 n] at hrest
    simp [hop, hsh, hfixed, hrest, hcount, Command.instr, hw]

theorem instr?_of_le (h : c.size ≤ offset) : c.instr? offset = none := by
  have hnone : c.code[offset]? = none := Array.getElem?_eq_none h
  simp [instr?, op?, hnone]

end Chunk

/-- The instructions of a listing whose first command is at an offset. -/
def Listing.instrs (offset : Nat) : Listing → List Instr
  | [] => []
  | d :: ds => d.instr offset :: Listing.instrs (offset + d.length) ds

theorem Listing.mem_instrs {i : Instr} {cs : Listing} {offset : Nat} :
    i ∈ Listing.instrs offset cs ↔ ∃ o d, cs.At o d ∧ i = d.instr (offset + o) := by
  induction cs generalizing offset with
  | nil =>
    simp only [Listing.instrs, List.not_mem_nil, false_iff, not_exists, not_and]
    rintro o d ⟨pre, post, h, -⟩
    simp at h
  | cons c cs ih =>
    rw [Listing.instrs, List.mem_cons, ih]
    constructor
    · rintro (rfl | ⟨o, d, ⟨pre, post, rfl, hs⟩, rfl⟩)
      · exact ⟨0, c, ⟨[], cs, rfl, rfl⟩, rfl⟩
      · exact ⟨c.length + o, d,
          ⟨c :: pre, post, rfl, by rw [Listing.size_cons, hs]⟩, by rw [Nat.add_assoc]⟩
    · rintro ⟨o, d, ⟨pre, post, he, rfl⟩, rfl⟩
      cases pre with
      | nil => exact .inl (by rw [(List.cons.inj he).1]; rfl)
      | cons e pre =>
        obtain ⟨rfl, rfl⟩ := List.cons.inj he
        exact .inr ⟨Listing.size pre, d,
          ⟨pre, post, rfl, rfl⟩, by rw [Listing.size_cons, Nat.add_assoc]⟩

namespace Chunk

variable {c : Chunk} {cs : Listing}

section

variable (h : c.Lists cs) (hd : ∀ d ∈ cs, d.Shaped)
  (hs : ∀ d ∈ cs, ∀ w ∈ d.words, 4 * w < c.size → w < 0x100000000)
include h hd hs

theorem Lists.instrsFrom
    (pre : Listing) {post : Listing} (he : cs = pre ++ post) {n : Nat} (hn : post.length ≤ n) :
    c.instrsFrom pre.size n = Listing.instrs pre.size post := by
  induction post generalizing pre n with
  | nil =>
    have hend : pre.size = c.size := by rw [h.size_eq, he, List.append_nil]
    cases n with
    | zero => rfl
    | succ n => rw [Chunk.instrsFrom, instr?_of_le (Nat.le_of_eq hend.symm), Listing.instrs]
  | cons d post ih =>
    obtain ⟨n, rfl⟩ : ∃ m, n = m + 1 := ⟨n - 1, by simp only [length_cons] at hn; omega⟩
    have hat : cs.At pre.size d := ⟨pre, post, he, rfl⟩
    have hrest := ih (pre ++ [d]) (by rw [he]; simp) (by simpa using hn)
    rw [Listing.size_append, Listing.size_cons, Listing.size_nil, Nat.add_zero] at hrest
    rw [Chunk.instrsFrom, h.instr? hat (hd d hat.mem) (hs d hat.mem), Listing.instrs]
    simp only [Command.instr_next, hrest]

/-- **A chunk decodes into the commands it was written from.** -/
theorem instrs_of_lists : c.instrs = Listing.instrs 0 cs :=
  h.instrsFrom hd hs [] rfl (by rw [h.size_eq]; exact cs.length_le_size)

end

end Chunk

end HotScript
