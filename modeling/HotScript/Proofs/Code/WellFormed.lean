import HotScript.Code.Function
import HotScript.Proofs.Code.Listing
import Mathlib.Data.List.Forall2

/-!
What the words of compiled code have to be.

Each operation gives a role to each of its fixed words; the items behind them are always read. A
compiled function is *well formed* when its code decodes from the first byte to the last, ends by
giving back, and every word is right for its role. While code is written nothing is known about its
final size, so the same is said there of whole numbers (`FunctionCode.Sound`); the two agree for
sizes that words can address.
-/

namespace HotScript

/-- What a fixed word of an instruction stands for. -/
inductive Role
  | dest
  | source
  | name
  | type
  | cls
  | native
  | slot
  | operator
  | lambda
  | count
  | target
deriving DecidableEq, Repr

namespace Opcode

def roles : Opcode → List Role
  | assign | await => [.dest, .source]
  | assignTyped | typeTest | cast => [.dest, .source, .type]
  | operator => [.dest, .source, .source, .operator]
  | matchEqual | getKeyed => [.dest, .source, .source]
  | jump => [.target]
  | jumpIf | jumpIfNot | jumpIfShared => [.source, .target]
  | giveBack => [.source]
  | assert => [.source, .source]
  | constructArray | constructDictionary | construct => [.dest, .type, .count]
  | new | callCallable => [.dest, .source, .count]
  | getNamed => [.dest, .source, .name]
  | setNamed => [.source, .name, .source]
  | setKeyed => [.source, .source, .source]
  | getStatic => [.dest, .cls, .slot]
  | setStatic => [.cls, .slot, .source]
  | getGlobal => [.dest, .name]
  | call | callBuiltin => [.dest, .source, .name, .count]
  | callMethodBind => [.dest, .source, .native, .name, .count]
  | callNativeStatic => [.dest, .native, .name, .count]
  | callSelf | callSelfBase | callUtility => [.dest, .name, .count]
  | callStatic => [.dest, .cls, .name, .count]
  | createLambda | createSelfLambda => [.dest, .lambda, .count]
  | iterBegin | iterNext => [.dest, .source, .dest, .target]

theorem shape_eq (op : Opcode) :
    op.shape = .fixed op.roles.length ∨ ∃ stride, op.shape = .counted op.roles.length stride := by
  cases op <;> first | exact .inl rfl | exact .inr ⟨_, rfl⟩

variable {op : Opcode}

theorem roles_of_isJump (h : op.isJump = true) :
    op.shape = .fixed op.roles.length ∧ op.roles = op.roles.dropLast ++ [.target] ∧
      Role.target ∉ op.roles.dropLast := by
  revert h
  cases op <;> decide

theorem isJump_of_target (h : Role.target ∈ op.roles) : op.isJump = true := by
  revert h
  cases op <;> decide

def creates : Opcode → Bool
  | createLambda | createSelfLambda => true
  | _ => false

theorem not_creates {n : Nat} (h : op.shape = .fixed n) : ¬ op.creates = true := by
  revert h
  cases op <;> simp [shape, creates]

abbrev Lists (op : Opcode) (stride : Nat) : Prop :=
  (op.isJump || op.creates) = false ∧ op.shape = .counted op.roles.length stride

end Opcode

def Address.Writable : Address → Prop
  | .constant _ | .self => False
  | .stack _ | .member _ | .nil => True

/-- What the words of a function may name: its stack, its constants, and the lambdas of its
class. -/
structure Storage where
  stackSize : Nat
  pool : Pool
  lambdas : Array FunctionCode

namespace Storage

def Has (s : Storage) : Address → Prop
  | .stack i => i < s.stackSize
  | .constant i => i < s.pool.size
  | .member _ | .self | .nil => True

/-- A decoded word is right for its role in an instruction with `items` items, in code whose
instructions start at `offsets`. -/
def Allows (s : Storage) (offsets : List Nat) (items : Nat) : Role → Nat → Prop
  | .dest, w => ∃ a, Address.decode? w = some a ∧ s.Has a ∧ a.Writable
  | .source, w => ∃ a, Address.decode? w = some a ∧ s.Has a
  | .name, w => ∃ n, s.pool.get? w = some (.name n)
  | .type, w => ∃ t, s.pool.get? w = some (.type t)
  | .cls, w => ∃ c, s.pool.get? w = some (.cls c)
  | .native, w => ∃ n, s.pool.get? w = some (.native n)
  | .lambda, w => ∃ f, s.lambdas[w]? = some f ∧ f.captures = items
  | .target, w => w ∈ offsets ∧ w ≠ Chunk.pending
  | .slot, _ | .operator, _ | .count, _ => True

end Storage

namespace FunctionCode

def storage (f : FunctionCode) (lambdas : Array FunctionCode) : Storage :=
  { stackSize := f.stackSize, pool := f.pool, lambdas }

def offsets (f : FunctionCode) : List Nat := f.chunk.instrs.map (·.offset)

/-- The function is small enough for its words: its code for targets, its slots and constants for
addresses. -/
structure InRange (f : FunctionCode) : Prop where
  code : f.chunk.size < 0xFFFFFFFF
  stack : f.stackSize ≤ Address.indexBound
  constants : f.pool.size ≤ Address.indexBound

instance (f : FunctionCode) : Decidable f.InRange :=
  decidable_of_iff (f.chunk.size < 0xFFFFFFFF ∧ f.stackSize ≤ Address.indexBound ∧
      f.pool.size ≤ Address.indexBound)
    ⟨fun h => ⟨h.1, h.2.1, h.2.2⟩, fun h => ⟨h.code, h.stack, h.constants⟩⟩

/-- A compiled function that can be run without leaving its code or its storage. -/
structure WellFormed (f : FunctionCode) (lambdas : Array FunctionCode) : Prop where
  lines : f.chunk.lines.size = f.chunk.code.size
  /-- The instructions reach to the last byte, and the last one gives back. -/
  ends : ∃ i, f.chunk.instrs.getLast? = some i ∧ i.op = .giveBack ∧ i.next = f.chunk.size
  fixed : ∀ i ∈ f.chunk.instrs,
    List.Forall₂ ((f.storage lambdas).Allows f.offsets i.trailing.length) i.op.roles
      (i.operands.take i.op.roles.length)
  items : ∀ i ∈ f.chunk.instrs, ∀ w ∈ i.trailing, (f.storage lambdas).Allows f.offsets 0 .source w
  entries : ∀ e ∈ f.entries, e ∈ f.offsets

end FunctionCode

/-! ### The same before the words are cut to 32 bits -/

namespace Storage

/-- A whole number is right for its role. Of what has a place among the constants this is said while
places are not given twice. -/
def Admits (s : Storage) (items : Nat) : Role → Nat → Prop
  | .dest, w => ∃ a : Address, w = a.encode ∧ s.Has a ∧ a.Writable
  | .source, w => ∃ a : Address, w = a.encode ∧ s.Has a
  | .name, w => s.pool.size ≤ 0x100000000 → ∃ n, s.pool.get? w = some (.name n)
  | .type, w => s.pool.size ≤ 0x100000000 → ∃ t, s.pool.get? w = some (.type t)
  | .cls, w => s.pool.size ≤ 0x100000000 → ∃ c, s.pool.get? w = some (.cls c)
  | .native, w => s.pool.size ≤ 0x100000000 → ∃ n, s.pool.get? w = some (.native n)
  | .lambda, w => ∃ f, s.lambdas[w]? = some f ∧ f.captures = items
  | .slot, _ | .operator, _ | .count, _ | .target, _ => True

/-- The storage has grown: what was there is where it was. -/
structure Within (s t : Storage) : Prop where
  stack : s.stackSize ≤ t.stackSize
  pool : ∀ i c, s.pool.get? i = some c → t.pool.get? i = some c
  lambdas : ∀ (i : Nat) f, s.lambdas[i]? = some f → t.lambdas[i]? = some f

theorem Within.refl (s : Storage) : s.Within s :=
  ⟨Nat.le_refl _, fun _ _ h => h, fun _ _ h => h⟩

variable {s t u : Storage}

theorem Within.trans (h : s.Within t) (k : t.Within u) : s.Within u :=
  ⟨Nat.le_trans h.stack k.stack, fun i c hi => k.pool i c (h.pool i c hi),
    fun i f hi => k.lambdas i f (h.lambdas i f hi)⟩

theorem Within.pool_size (h : s.Within t) : s.pool.size ≤ t.pool.size := by
  by_contra hlt
  have hi : t.pool.size < s.pool.size := Nat.lt_of_not_le hlt
  have hs : s.pool.get? t.pool.size = some s.pool.constants[t.pool.size] :=
    Array.getElem?_eq_getElem hi
  have ht : t.pool.get? t.pool.size = none := Array.getElem?_eq_none (Nat.le_refl _)
  rw [h.pool _ _ hs] at ht
  cases ht

theorem Has.mono (h : s.Within t) {a : Address} (ha : s.Has a) : t.Has a := by
  cases a with
  | stack i => exact Nat.lt_of_lt_of_le ha h.stack
  | constant i => exact Nat.lt_of_lt_of_le ha h.pool_size
  | member i => trivial
  | self => trivial
  | nil => trivial

theorem Admits.mono (h : s.Within t) {items : Nat} {role : Role} {w : Nat}
    (hw : s.Admits items role w) : t.Admits items role w := by
  cases role with
  | dest =>
    obtain ⟨a, hw, ha, hwr⟩ := hw
    exact ⟨a, hw, ha.mono h, hwr⟩
  | source =>
    obtain ⟨a, hw, ha⟩ := hw
    exact ⟨a, hw, ha.mono h⟩
  | name | type | cls | native =>
    intro ht
    obtain ⟨x, hx⟩ := hw (Nat.le_trans h.pool_size ht)
    exact ⟨x, h.pool _ _ hx⟩
  | lambda =>
    obtain ⟨f, hf, hc⟩ := hw
    exact ⟨f, h.lambdas _ _ hf, hc⟩
  | slot | operator | count | target => trivial

end Storage

/-- The words of a command are right for their roles. -/
structure Command.Sound (s : Storage) (c : Command) : Prop where
  shaped : c.Shaped
  words : ∃ fixed items, c.words = fixed ++ items ∧
    List.Forall₂ (s.Admits items.length) c.op.roles fixed ∧ ∀ w ∈ items, s.Admits 0 .source w
  /-- A lambda is bound to the instance exactly when it uses the instance. -/
  binds : c.op.creates = true → ∃ i f, c.words[1]? = some i ∧ s.lambdas[i]? = some f ∧
    (c.op = .createSelfLambda ↔ f.usesSelf = true)

variable {s t : Storage} {c d : Command}

theorem Command.Sound.mono (h : s.Within t) (hc : c.Sound s) : c.Sound t where
  shaped := hc.shaped
  words := by
    obtain ⟨fixed, items, hw, hf, hi⟩ := hc.words
    exact ⟨fixed, items, hw, hf.imp fun _ _ ha => ha.mono h, fun w hw => (hi w hw).mono h⟩
  binds hop := by
    obtain ⟨i, f, hi, hf, hb⟩ := hc.binds hop
    exact ⟨i, f, hi, h.lambdas i f hf, hb⟩

/-- Where the roles of the words end with one, there is a last word. -/
theorem Storage.admits_concat {n : Nat} {roles : List Role} {last : Role} {ws : List Nat}
    (h : List.Forall₂ (s.Admits n) (roles ++ [last]) ws) :
    ∃ vs v, ws = vs ++ [v] ∧ List.Forall₂ (s.Admits n) roles vs := by
  have htake := List.forall₂_take roles.length h
  have hdrop := List.forall₂_drop roles.length h
  rw [List.take_left] at htake
  rw [List.drop_left] at hdrop
  obtain ⟨v, vs, -, hv, hws⟩ := List.forall₂_cons_left_iff.1 hdrop
  rw [List.forall₂_nil_left_iff.1 hv] at hws
  exact ⟨ws.take roles.length, v, by rw [← hws, List.take_append_drop], htake⟩

section

variable (h : c.Sound s) (hj : c.op.isJump = true)
include h hj

theorem Command.Sound.items_of_isJump
    {fixed items : List Nat} (hw : c.words = fixed ++ items)
    (hlen : c.op.roles.length = fixed.length) :
    items = [] := by
  have hsh := h.shaped
  rw [Command.Shaped, (Opcode.roles_of_isJump hj).1, hw] at hsh
  simp only [List.length_append] at hsh
  exact List.eq_nil_of_length_eq_zero (by omega)

theorem Command.Sound.words_of_isJump :
    ∃ ws t, c.words = ws ++ [t] ∧ List.Forall₂ (s.Admits 0) c.op.roles.dropLast ws := by
  obtain ⟨fixed, items, hw, hf, -⟩ := h.words
  have hnil := h.items_of_isJump hj hw hf.length_eq
  obtain ⟨ws, t, rfl, hws⟩ := Storage.admits_concat ((Opcode.roles_of_isJump hj).2.1 ▸ hf)
  subst hnil
  exact ⟨ws, t, by rw [hw, List.append_nil], hws⟩

theorem Command.Sound.aim (target : Nat) : (c.aim target).Sound s := by
  obtain ⟨ws, t, hw, hws⟩ := h.words_of_isJump hj
  obtain ⟨hshape, hroles, -⟩ := Opcode.roles_of_isJump hj
  have hsh := h.shaped
  rw [Command.Shaped, hshape, hw] at hsh
  rw [Command.aim, hw, List.dropLast_concat]
  refine ⟨?_, ⟨ws ++ [target], [], (List.append_nil _).symm, ?_, by simp⟩,
    fun hop => absurd hop (Opcode.not_creates hshape)⟩
  · rw [Command.Shaped, hshape]
    simpa using hsh
  · rw [hroles]
    exact List.rel_append hws (.cons trivial .nil)

end

namespace Listing

def hole (offset : Nat) (c : Command) : Nat := offset + c.length - 4

/-- Every jump goes where a command starts or to the end, except those whose targets are still to be
written, at the holes. -/
structure Linked (cs : Listing) (holes : List Nat) : Prop where
  targets : ∀ offset c, cs.At offset c → c.op.isJump = true →
    hole offset c ∈ holes ∨ ∃ t, c.words.getLast? = some t ∧ cs.Boundary t
  holes : ∀ p ∈ holes, ∃ offset c, cs.At offset c ∧ c.op.isJump = true ∧ hole offset c = p

variable {cs pre post : Listing} {H H' : List Nat}

theorem At.hole_inj {o o' : Nat} (hc : cs.At o c) (hd : cs.At o' d)
    (hdw : d.words ≠ []) (h : hole o c = hole o' d) : o = o' := by
  have hdl := List.length_pos_iff.2 hdw
  rcases Nat.lt_trichotomy o o' with hlt | heq | hlt
  · have := hc.next_le hd hlt
    simp only [hole, Command.length] at h this
    omega
  · exact heq
  · have := hd.next_le hc hlt
    simp only [hole, Command.length] at h this
    omega

theorem Linked.aim {target : Nat} (h : Linked (pre ++ c :: post) (hole pre.size c :: H))
    (hw : ∀ d ∈ pre ++ c :: post, d.op.isJump = true → d.words ≠ []) (hj : c.op.isJump = true)
    (ht : Boundary (pre ++ c :: post) target) : Linked (pre ++ c.aim target :: post) H := by
  have hc : At (pre ++ c :: post) pre.size c := ⟨pre, post, rfl, rfl⟩
  have hlen : (c.aim target).length = c.length := Command.length_aim (hw c hc.mem hj) target
  constructor
  · intro o d hd hdj
    rcases hd.replace hlen.symm with ⟨rfl, rfl⟩ | ⟨ho, hd⟩
    · exact .inr ⟨target, by simp [Command.aim], ht.replace hlen⟩
    · rcases h.targets o d hd hdj with hp | ⟨t, hlast, hb⟩
      · rcases List.mem_cons.1 hp with hp | hp
        · exact absurd (hd.hole_inj hc (hw c hc.mem hj) hp) ho
        · exact .inl hp
      · exact .inr ⟨t, hlast, hb.replace hlen⟩
  · intro p hp
    obtain ⟨o, d, hd, hdj, hpos⟩ := h.holes p (.tail _ hp)
    rcases hd.replace hlen with ⟨rfl, rfl⟩ | ⟨-, hd⟩
    · refine ⟨pre.size, d.aim target, ⟨pre, post, rfl, rfl⟩, hdj, ?_⟩
      rw [← hpos, hole, hole, hlen]
    · exact ⟨o, d, hd, hdj, hpos⟩

theorem Linked.append (h : cs.Linked H)
    (hH : ∀ p, p ∈ H' ↔ p ∈ H ∨ c.op.isJump = true ∧ p = hole cs.size c) :
    Linked (cs ++ [c]) H' where
  targets := by
    intro o d hd hdj
    rcases hd.of_append_singleton with hold | ⟨rfl, rfl⟩
    · exact (h.targets o d hold hdj).imp (fun hp => (hH _).2 (.inl hp))
        fun ⟨t, ht, hb⟩ => ⟨t, ht, hb.append [c]⟩
    · exact .inl ((hH _).2 (.inr ⟨hdj, rfl⟩))
  holes := by
    intro p hp
    rcases (hH p).1 hp with hp | ⟨hj, rfl⟩
    · obtain ⟨o, d, hd, hdj, hpos⟩ := h.holes p hp
      exact ⟨o, d, hd.append [c], hdj, hpos⟩
    · exact ⟨cs.size, c, at_end cs c, hj, rfl⟩

theorem Linked.congr (h : cs.Linked H) (hm : ∀ p, p ∈ H' ↔ p ∈ H) : cs.Linked H' :=
  ⟨fun o c hc hj => (h.targets o c hc hj).imp_left (hm _).2, fun p hp => h.holes p ((hm p).1 hp)⟩

end Listing

/-- A finished function whose words are right as whole numbers. -/
structure FunctionCode.Sound (f : FunctionCode) (lambdas : Array FunctionCode) : Prop where
  listing : ∃ (cs : Listing) (last : Command), f.chunk.Lists (cs ++ [last]) ∧ last.op = .giveBack ∧
    (∀ c ∈ cs ++ [last], c.Sound (f.storage lambdas)) ∧ cs.Linked [] ∧
    ∀ e ∈ f.entries, cs.Boundary e

theorem FunctionCode.Sound.mono {f : FunctionCode} {lambdas more : Array FunctionCode}
    (h : ∀ (i : Nat) g, lambdas[i]? = some g → more[i]? = some g) (hf : f.Sound lambdas) :
    f.Sound more := by
  obtain ⟨cs, last, hl, hop, hs, hk, he⟩ := hf.listing
  have hw : (f.storage lambdas).Within (f.storage more) := ⟨Nat.le_refl _, fun _ _ hi => hi, h⟩
  exact ⟨cs, last, hl, hop, fun c hc => (hs c hc).mono hw, hk, he⟩

/-! ### From whole numbers to words -/

theorem Address.encode_lt (a : Address) : a.encode < 0x100000000 := by
  cases a <;> simp only [encode, indexBound] <;> omega

theorem Storage.Has.decode (hs : s.stackSize ≤ Address.indexBound)
    (hp : s.pool.size ≤ Address.indexBound) {a : Address} (ha : s.Has a) :
    ∃ b, Address.decode? a.encode = some b ∧ s.Has b ∧ (a.Writable → b.Writable) := by
  cases a with
  | stack i =>
    have hi : i < s.stackSize := ha
    exact ⟨.stack i, Address.decode?_encode (show i < _ by omega), ha, id⟩
  | constant i =>
    have hi : i < s.pool.size := ha
    exact ⟨.constant i, Address.decode?_encode (show i < _ by omega), ha, id⟩
  | member i =>
    -- The index of a member is cut to what fits; nothing is asked of it.
    have hi : i % Address.indexBound < Address.indexBound := Nat.mod_lt _ (by decide)
    have he : (Address.member i).encode = (Address.member (i % Address.indexBound)).encode := by
      rw [Address.encode, Address.encode, Nat.mod_mod]
    exact ⟨.member (i % Address.indexBound), he ▸ Address.decode?_encode hi, trivial, id⟩
  | self => exact ⟨.self, by decide, trivial, id⟩
  | nil => exact ⟨.nil, by decide, trivial, id⟩

/-- A constant is filed under a place in the pool, which holds it or one that counts as the same
while the pool is small enough, and the places before stay as they were. -/
theorem Pool.add_spec {p p' : Pool} {c : Constant} {i : UInt32} (h : p.add c = (i, p')) :
    i.toNat < p'.size ∧
      (p'.size ≤ 0x100000000 → ∃ d, p'.get? i.toNat = some d ∧ (d = c ∨ d.same c = true)) ∧
      ∀ j d, p.get? j = some d → p'.get? j = some d := by
  have hcut (n : Nat) : (UInt32.ofNat n).toNat ≤ n := by
    rw [UInt32.toNat_ofNat']
    exact Nat.mod_le _ _
  rw [Pool.add] at h
  split at h
  · next n hfind =>
    obtain ⟨rfl, rfl⟩ := Prod.mk.inj h
    obtain ⟨hn, hsame, -⟩ := Array.findIdx?_eq_some_iff_getElem.1 hfind
    refine ⟨Nat.lt_of_le_of_lt (hcut n) hn, fun hsize => ?_, fun _ _ h => h⟩
    have hp : n < p.size := hn
    rw [UInt32.toNat_ofNat_of_lt' (show n < 2 ^ 32 by omega)]
    exact ⟨_, Array.getElem?_eq_getElem hn, .inr hsame⟩
  · obtain ⟨rfl, rfl⟩ := Prod.mk.inj h
    have hpush : Pool.size ⟨p.constants.push c⟩ = p.constants.size + 1 := Array.size_push _
    refine ⟨hpush ▸ Nat.lt_succ_of_le (hcut _), fun hsize => ?_, fun j d hj => ?_⟩
    · rw [UInt32.toNat_ofNat_of_lt' (show p.constants.size < 2 ^ 32 by omega)]
      exact ⟨c, Array.getElem?_push_size, .inl rfl⟩
    have hlt : j < p.constants.size := (Array.getElem?_eq_some_iff.1 hj).1
    show (p.constants.push c)[j]? = some d
    rw [Array.getElem?_push_lt hlt]
    exact congrArg some (Array.getElem?_eq_some_iff.1 hj).2

theorem Pool.lt_of_get? {p : Pool} {i : Nat} {c : Constant} (h : p.get? i = some c) : i < p.size :=
  (Array.getElem?_eq_some_iff.1 h).1

theorem Storage.Admits.allows (hs : s.stackSize ≤ Address.indexBound)
    (hp : s.pool.size ≤ Address.indexBound) (hl : s.lambdas.size ≤ 0x100000000) (offsets : List Nat)
    {items : Nat} {role : Role} {w : Nat} (hr : role ≠ .target) (h : s.Admits items role w) :
    s.Allows offsets items role (w % 0x100000000) := by
  have hplace {c : Constant} (hc : s.pool.get? w = some c) : w % 0x100000000 = w := by
    have hlt := Pool.lt_of_get? hc
    rw [Address.indexBound] at hp
    omega
  cases role with
  | dest =>
    obtain ⟨a, rfl, ha, hw⟩ := h
    obtain ⟨b, hb, hhas, hwr⟩ := ha.decode hs hp
    rw [Nat.mod_eq_of_lt a.encode_lt]
    exact ⟨b, hb, hhas, hwr hw⟩
  | source =>
    obtain ⟨a, rfl, ha⟩ := h
    obtain ⟨b, hb, hhas, -⟩ := ha.decode hs hp
    rw [Nat.mod_eq_of_lt a.encode_lt]
    exact ⟨b, hb, hhas⟩
  | name | type | cls | native =>
    rw [Address.indexBound] at hp
    obtain ⟨x, hx⟩ := h (by omega)
    rw [hplace hx]
    exact ⟨x, hx⟩
  | lambda =>
    obtain ⟨f, hf, hc⟩ := h
    have hlt : w < s.lambdas.size := (Array.getElem?_eq_some_iff.1 hf).1
    rw [Nat.mod_eq_of_lt (by omega)]
    exact ⟨f, hf, hc⟩
  | target => exact absurd rfl hr
  | slot | operator | count => trivial

theorem Listing.instrs_append (offset : Nat) (xs ys : Listing) : Listing.instrs offset (xs ++ ys) =
      Listing.instrs offset xs ++ Listing.instrs (offset + xs.size) ys := by
  induction xs generalizing offset with
  | nil => rfl
  | cons c xs ih =>
    rw [List.cons_append, Listing.instrs, ih, Listing.size_cons, Nat.add_assoc]
    rfl

theorem Command.Sound.instr_words (h : c.Sound s) (offset : Nat) :
    ∃ fixed items, c.words = fixed ++ items ∧
      List.Forall₂ (s.Admits items.length) c.op.roles fixed ∧ (∀ w ∈ items, s.Admits 0 .source w) ∧
      (c.instr offset).operands.take c.op.roles.length = fixed.map (· % 0x100000000) ∧
      (c.instr offset).trailing = items.map (· % 0x100000000) := by
  obtain ⟨fixed, items, hw, hf, hi⟩ := h.words
  have hlen : c.op.roles.length = fixed.length := hf.length_eq
  refine ⟨fixed, items, hw, hf, hi, ?_, ?_⟩
  · simp only [Command.instr, hw, List.map_append, hlen]
    rw [List.take_left' (List.length_map _)]
  · have hsh := h.shaped
    rw [Command.Shaped] at hsh
    rcases c.op.shape_eq with hfix | ⟨stride, hcnt⟩
    · rw [hfix, hw] at hsh
      simp only [List.length_append] at hsh
      have hnil : items = [] := List.eq_nil_of_length_eq_zero (by omega)
      simp [Instr.trailing, Command.instr, hfix, hnil]
    · simp only [Instr.trailing, Command.instr, hcnt, hw, List.map_append, hlen]
      rw [List.drop_left' (List.length_map _)]

namespace FunctionCode

variable {f : FunctionCode} {lambdas : Array FunctionCode}

/-- **Code that is sound as whole numbers and small enough is well formed.** -/
theorem Sound.wellFormed (h : f.Sound lambdas) (hr : f.InRange)
    (hl : lambdas.size ≤ 0x100000000) : f.WellFormed lambdas := by
  obtain ⟨cs, last, hlist, hlast, hsound, hlinked, hentries⟩ := h.listing
  have hcode := hr.code
  have hinstrs : f.chunk.instrs = Listing.instrs 0 (cs ++ [last]) :=
    Chunk.instrs_of_lists hlist (fun c hc => (hsound c hc).shaped) (by omega)
  have hoffsets {o : Nat} {c : Command} (hc : (cs ++ [last]).At o c) : o ∈ f.offsets := by
    have hm : c.instr (0 + o) ∈ f.chunk.instrs := by
      rw [hinstrs]
      exact Listing.mem_instrs.2 ⟨o, c, hc, rfl⟩
    rw [offsets, List.mem_map]
    exact ⟨_, hm, Nat.zero_add o⟩
  have hboundary {t : Nat} (ht : cs.Boundary t) : t ∈ f.offsets := by
    obtain ⟨c, hc⟩ := ht.at_of_append last
    exact hoffsets hc
  have hallows {items : Nat} {role : Role} {w : Nat} (hne : role ≠ .target)
      (hw : (f.storage lambdas).Admits items role w) :
      (f.storage lambdas).Allows f.offsets items role (w % 0x100000000) :=
    hw.allows hr.stack hr.constants hl f.offsets hne
  have hpoint {items : Nat} {roles : List Role} {ws : List Nat} (hnone : Role.target ∉ roles)
      (hws : List.Forall₂ ((f.storage lambdas).Admits items) roles ws) :
      List.Forall₂ (fun r w => (f.storage lambdas).Allows f.offsets items r (w % 0x100000000))
        roles ws := by
    have hne : ∀ r ∈ roles, r ≠ Role.target := fun r hr he => hnone (he ▸ hr)
    exact ((List.forall₂_and_left _ _).2 ⟨hne, hws⟩).imp fun r w hrw => hallows hrw.1 hrw.2
  refine ⟨hlist.lines, ⟨last.instr cs.size, ?_, hlast, ?_⟩, fun i hi => ?_, fun i hi w hw => ?_,
    fun e he => hboundary (hentries e he)⟩
  · rw [hinstrs, Listing.instrs_append]
    simp [Listing.instrs]
  · rw [Command.instr_next, hlist.size_eq, Listing.size_append, Listing.size_cons,
      Listing.size_nil, Nat.add_zero]
  · rw [hinstrs] at hi
    obtain ⟨o, c, hc, rfl⟩ := Listing.mem_instrs.1 hi
    obtain ⟨fixed, items, hw, hf, -, htake, htrail⟩ := (hsound c hc.mem).instr_words (0 + o)
    show List.Forall₂ _ c.op.roles ((c.instr (0 + o)).operands.take c.op.roles.length)
    rw [htake, htrail, List.length_map, List.forall₂_map_right_iff]
    by_cases hj : c.op.isJump = true
    · obtain ⟨-, hroles, hnone⟩ := Opcode.roles_of_isJump hj
      obtain ⟨ws, t, rfl, hws⟩ := Storage.admits_concat (hroles ▸ hf)
      have hnil : items = [] := (hsound c hc.mem).items_of_isJump hj hw hf.length_eq
      have htarget : t ∈ f.offsets ∧ t < f.chunk.size := by
        rcases hc.of_append_singleton with hcs | ⟨-, rfl⟩
        · rcases hlinked.targets o c hcs hj with hp | ⟨u, hu, hb⟩
          · cases hp
          · rw [hw, hnil, List.append_nil, List.getLast?_concat] at hu
            obtain ⟨rfl⟩ := hu
            have hle := hb.le_size
            have hpos := last.length_pos
            rw [hlist.size_eq, Listing.size_append, Listing.size_cons]
            exact ⟨hboundary hb, by omega⟩
        · rw [hlast] at hj
          cases hj
      rw [hroles]
      refine List.rel_append ?_ (.cons ?_ .nil)
      · exact hpoint hnone hws
      · rw [Nat.mod_eq_of_lt (by omega)]
        exact ⟨htarget.1, by rw [Chunk.pending]; omega⟩
    · exact hpoint (fun ht => hj (Opcode.isJump_of_target ht)) hf
  · rw [hinstrs] at hi
    obtain ⟨o, c, hc, rfl⟩ := Listing.mem_instrs.1 hi
    obtain ⟨fixed, items, hwords, -, hitems, -, htrail⟩ := (hsound c hc.mem).instr_words (0 + o)
    rw [htrail] at hw
    obtain ⟨v, hv, rfl⟩ := List.mem_map.1 hw
    exact hallows (by decide) (hitems v hv)

end FunctionCode

end HotScript
