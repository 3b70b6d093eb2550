import HotScript.Proofs.Code.Listing
import Mathlib.Data.List.Infix
import Mathlib.Data.List.Nodup

/-!
Code reads back.

Commands that are written are read back as they are. The other way round nothing is asked of the
bytes: reading ends, and writing what was read gives the bytes again, up to the offset at which
nothing can be read.
-/

namespace HotScript

open Option (bind_eq_some_iff)

theorem Opcode.byte_of_ofByte? {b : UInt8} {op : Opcode} (h : Opcode.ofByte? b = some op) :
    op.byte = b := by
  obtain ⟨hlt, rfl⟩ := List.getElem?_eq_some_iff.1 h
  have hidx : Opcode.all.idxOf Opcode.all[b.toNat] = b.toNat :=
    (show Opcode.all.Nodup by decide).idxOf_getElem _ hlt
  rw [Opcode.byte, hidx, UInt8.ofNat_toNat]

def Instr.command (i : Instr) : Command := ⟨i.op, i.operands⟩

/-- Instructions one behind the other, the first at an offset. -/
def Instr.Follow : Nat → List Instr → Prop
  | _, [] => True
  | offset, i :: rest => i.offset = offset ∧ Instr.Follow i.next rest

namespace Chunk

/-- The code of commands, each with the line it is from. -/
def ofCommands (cs : List (Command × Nat)) : Chunk :=
  cs.foldl (fun c d => c.write d.1.op d.1.words d.2) {}

theorem ofCommands_lists (cs : List (Command × Nat)) : (ofCommands cs).Lists (cs.map (·.1)) := by
  have run {c : Chunk} {pre : Listing} (h : c.Lists pre) :
      (cs.foldl (fun c d => c.write d.1.op d.1.words d.2) c).Lists (pre ++ cs.map (·.1)) := by
    induction cs generalizing c pre with
    | nil => rwa [List.map_nil, List.append_nil]
    | cons d cs ih =>
      rw [List.map_cons, List.append_cons]
      exact ih (h.write d.1.op d.1.words d.2)
  exact run lists_empty

variable {c : Chunk} {offset w n m : Nat} {i : Instr}

/-! ### Bytes that are read -/

theorem prefix_append_drop {xs ys l : List UInt8} (hx : xs <+: l.drop offset)
    (hy : ys <+: l.drop (offset + xs.length)) : xs ++ ys <+: l.drop offset := by
  obtain ⟨tx, hx⟩ := hx
  rw [← List.drop_drop, ← hx, List.drop_left] at hy
  rw [← hx]
  exact (List.prefix_append_right_inj xs).2 hy

theorem read_byte {b : UInt8} (h : c.code[offset]? = some b) :
    [b] <+: c.code.toList.drop offset := by
  rw [← Array.getElem?_toList] at h
  obtain ⟨hlt, rfl⟩ := List.getElem?_eq_some_iff.1 h
  rw [List.drop_eq_getElem_cons hlt]
  exact ⟨_, rfl⟩

theorem read_word (h : c.word? offset = some w) : wordBytes w <+: c.code.toList.drop offset := by
  obtain ⟨a, ha, h⟩ := bind_eq_some_iff.1 h
  obtain ⟨b, hb, h⟩ := bind_eq_some_iff.1 h
  obtain ⟨d, hd, h⟩ := bind_eq_some_iff.1 h
  obtain ⟨e, he, h⟩ := bind_eq_some_iff.1 h
  cases h
  have hbytes : wordBytes (((a.toNat * 256 + b.toNat) * 256 + d.toNat) * 256 + e.toNat) =
      [a] ++ ([b] ++ ([d] ++ [e])) := by
    have := a.toNat_lt
    have := b.toNat_lt
    have := d.toNat_lt
    have := e.toNat_lt
    simp only [wordBytes, List.cons_append, List.nil_append, List.cons.injEq, and_true,
      ← UInt8.toNat_inj, UInt8.toNat_ofNat']
    omega
  rw [hbytes]
  exact prefix_append_drop (read_byte ha) (prefix_append_drop (read_byte hb)
    (prefix_append_drop (read_byte hd) (read_byte he)))

theorem read_words {ws : List Nat} (h : c.words? offset n = some ws) :
    ws.length = n ∧ ws.flatMap wordBytes <+: c.code.toList.drop offset := by
  induction n generalizing offset ws with
  | zero =>
    cases h
    exact ⟨rfl, List.nil_prefix⟩
  | succ n ih =>
    obtain ⟨w, hw, h⟩ := bind_eq_some_iff.1 h
    obtain ⟨rest, hrest, h⟩ := bind_eq_some_iff.1 h
    cases h
    obtain ⟨hlen, hprefix⟩ := ih hrest
    exact ⟨congrArg (· + 1) hlen, prefix_append_drop (read_word hw) hprefix⟩

theorem read_instr (h : c.instr? offset = some i) :
    i.offset = offset ∧ i.command.bytes <+: c.code.toList.drop offset := by
  obtain ⟨op, hop, h⟩ := bind_eq_some_iff.1 h
  obtain ⟨b, hb, hbyte⟩ := bind_eq_some_iff.1 hop
  have hstart : [op.byte] <+: c.code.toList.drop offset := Opcode.byte_of_ofByte? hbyte ▸
      read_byte hb
  split at h
  · obtain ⟨ws, hws, h⟩ := bind_eq_some_iff.1 h
    cases h
    exact ⟨rfl, prefix_append_drop hstart (read_words hws).2⟩
  · obtain ⟨fixed, hfixed, h⟩ := bind_eq_some_iff.1 h
    obtain ⟨count, -, h⟩ := bind_eq_some_iff.1 h
    obtain ⟨rest, hrest, h⟩ := bind_eq_some_iff.1 h
    cases h
    obtain ⟨hlen, hprefix⟩ := read_words hfixed
    refine ⟨rfl, prefix_append_drop hstart ?_⟩
    show (fixed ++ rest).flatMap wordBytes <+: _
    rw [List.flatMap_append]
    refine prefix_append_drop hprefix ?_
    rw [Command.length_flatMap_wordBytes, hlen, Nat.mul_comm]
    exact (read_words hrest).2

/-! ### All instructions -/

theorem next_eq (h : c.instr? offset = some i) : i.next = offset + i.command.length := by
  obtain ⟨rfl, -⟩ := read_instr h
  show i.offset + 1 + i.operands.length * 4 = i.offset + (1 + 4 * i.operands.length)
  omega

theorem instrsFrom_of_le (hn : m ≤ n) (hm : c.size ≤ offset + m) :
    c.instrsFrom offset n = c.instrsFrom offset m := by
  induction m generalizing offset n with
  | zero =>
    cases n with
    | zero => rfl
    | succ n => simp only [instrsFrom, instr?_of_le (show c.size ≤ offset from hm)]
  | succ m ih =>
    obtain ⟨n, rfl⟩ : ∃ k, n = k + 1 := ⟨n - 1, by omega⟩
    rw [instrsFrom, instrsFrom]
    cases hi : c.instr? offset with
    | none => rfl
    | some i =>
      have hpos := i.command.length_pos
      have hnext := next_eq hi
      exact congrArg (i :: ·) (ih (by omega) (by omega))

/-- Reading on from an offset gives instructions one behind the other, and their bytes; if there is
room for as many instructions as bytes are left, it ends where nothing can be read. -/
theorem read_instrsFrom (c : Chunk) (n offset : Nat) : Instr.Follow offset (c.instrsFrom offset n) ∧
      Listing.bytes ((c.instrsFrom offset n).map Instr.command) <+: c.code.toList.drop offset ∧
      (c.size ≤ offset + n →
        c.instr? (offset + Listing.size ((c.instrsFrom offset n).map Instr.command)) = none) := by
  induction n generalizing offset with
  | zero =>
    refine ⟨trivial, List.nil_prefix, fun hn => ?_⟩
    exact instr?_of_le hn
  | succ n ih =>
    rw [instrsFrom]
    cases hi : c.instr? offset with
    | none => exact ⟨trivial, List.nil_prefix, fun _ => hi⟩
    | some i =>
      obtain ⟨hoffset, hprefix⟩ := read_instr hi
      have hnext := next_eq hi
      obtain ⟨hfollow, hrest, hend⟩ := ih i.next
      refine ⟨⟨hoffset, hfollow⟩, prefix_append_drop hprefix ?_, fun hn => ?_⟩
      · rw [Command.length_bytes, ← hnext]
        exact hrest
      · have hpos := i.command.length_pos
        rw [List.map_cons, Listing.size_cons, ← Nat.add_assoc, ← hnext]
        exact hend (by omega)

end Chunk

theorem Listing.instrs_command {cs : Listing} (h : ∀ d ∈ cs, ∀ w ∈ d.words, w < 0x100000000)
    (offset : Nat) : (Listing.instrs offset cs).map Instr.command = cs := by
  induction cs generalizing offset with
  | nil => rfl
  | cons d cs ih =>
    obtain ⟨hd, h⟩ := List.forall_mem_cons.1 h
    rw [Listing.instrs, List.map_cons, ih h]
    have hwords : d.words.map (· % 0x100000000) = d.words :=
      (List.map_congr_left fun w hw => Nat.mod_eq_of_lt (hd w hw)).trans (List.map_id _)
    rw [Instr.command, Command.instr, hwords]

/-- **Code reads back as it was written, all bytes are written as they were read, and so are
addresses.** -/
theorem Chunk.reads_back :
    (∀ cs : List (Command × Nat), (∀ d ∈ cs, d.1.Shaped ∧ ∀ w ∈ d.1.words, w < 0x100000000) →
      (ofCommands cs).instrs.map Instr.command = cs.map (·.1) ∧
        Instr.Follow 0 (ofCommands cs).instrs) ∧
    (∀ (c : Chunk) (line : Nat), let back := ofCommands (c.instrs.map fun i => (i.command, line))
      back.code.toList <+: c.code.toList ∧ c.instr? back.size = none ∧
        ∀ n, c.size ≤ n → c.instrsFrom 0 n = c.instrs) ∧
    ∀ a : Address, a.InRange → Address.decode? a.encode = some a := by
  refine ⟨fun cs hcs => ⟨?_, (read_instrsFrom _ _ 0).1⟩, fun c line => ?_, fun a =>
    Address.decode?_encode⟩
  · have hcs' : ∀ d ∈ cs.map (·.1), d.Shaped ∧ ∀ w ∈ d.words, w < 0x100000000 := by simpa using hcs
    rw [instrs_of_lists (ofCommands_lists cs) (fun d hd => (hcs' d hd).1)
      fun d hd w hw _ => (hcs' d hd).2 w hw]
    exact Listing.instrs_command (fun d hd => (hcs' d hd).2) 0
  · have hlists := ofCommands_lists (c.instrs.map fun i => (i.command, line))
    rw [List.map_map] at hlists
    obtain ⟨-, hprefix, hend⟩ := read_instrsFrom c c.size 0
    refine ⟨hlists.code ▸ hprefix, ?_, fun n hn => ?_⟩
    · have := hend (by omega)
      rwa [hlists.size_eq, ← Nat.zero_add (Listing.size _)]
    · exact instrsFrom_of_le hn (by omega)

/-- A constant is assigned to a place of the stack and given back; both are read as they were
written. -/
theorem assigned_reads_back :
    let cs : List (Command × Nat) :=
      [(⟨.assign, [0, (Address.constant 7).encode]⟩, 1), (⟨.giveBack, [0]⟩, 2)]
    (Chunk.ofCommands cs).instrs.map Instr.command = cs.map (·.1) ∧
      Address.decode? (Address.constant 7).encode = some (.constant 7) := by
  obtain ⟨hwritten, -, haddress⟩ := Chunk.reads_back
  refine ⟨(hwritten _ ?_).1, haddress _ (show 7 < Address.indexBound by decide)⟩
  simp [Command.Shaped, Opcode.shape, Address.encode, Address.indexBound]

end HotScript
