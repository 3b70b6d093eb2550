import HotScript.Proofs.Analysis.Keeps

/-!
What operators give.

The kind of a result is the one that `Operator.resultTag?` announces, except that an integer to a
negative integer is computed as a float. On integers the result is the exact one whenever a word
holds it, except for `Operator.Refuses`, and there is none otherwise.
-/

namespace HotScript

open Int64 (le_toInt minValue ofInt toInt_inj toInt_lt)

namespace Operator

variable {op : Operator} {h h' : Heap} {valid : Callable → Bool} {a b v : Value} {t u x y k : Tag}

/-! ### Kinds of results -/

/-- An integer is raised to a negative integer. -/
def Inverts (op : Operator) (a b : Value) : Prop :=
  op = power ∧ ∃ x y, a = .int x ∧ b = .int y ∧ y < 0

/-- Arithmetic gives what the table says of products, the largest of the tables of arithmetic. -/
theorem arithmetic?_tag {onInt : Int64 → Int64 → Option Int64} {onFloat : Float → Float → Float}
    (hv : arithmetic? onInt onFloat a b = some v) :
    resultTag? multiply a.tag b.tag = some v.tag := by
  cases a <;> cases b <;> simp [arithmetic?, Value.float?] at hv <;> try (subst hv; rfl)
  -- Two integers are left: only they may be refused.
  obtain ⟨r, -, rfl⟩ := hv
  rfl

theorem resultTag?_multiply (hop : op = add ∨ op = subtract ∨ op = divide ∨ op = module)
    (ht : op.resultTag? x y = some t) (hu : resultTag? multiply x y = some u) : t = u := by
  rcases hop with rfl | rfl | rfl | rfl <;> cases x <;> cases y <;> cases hu <;> cases ht <;> rfl

theorem tag_of_ite {c : Bool} (ht : (if c then some k else none) = some t) : t = k := by
  cases c <;> cases ht
  rfl

theorem tag_of_isIn (ht : resultTag? isIn x y = some t) : t = .bool := by
  cases y <;> first | exact tag_of_ite ht | cases ht <;> rfl

theorem power?_tag (ht : resultTag? power a.tag b.tag = some t) (hv : power? a b = some v) :
    t = v.tag ↔ ¬ Inverts power a b := by
  cases a <;> cases b <;> cases ht
  case int.int x y =>
    rw [power?] at hv
    split at hv
    · next hy =>
      split at hv
      · obtain ⟨r, -, rfl⟩ := Option.map_eq_some_iff.1 hv
        simp [Value.tag, Inverts, Int64.not_lt.2 hy]
      · cases hv
    · next hy =>
      cases hv
      simp [Value.tag, Inverts, Int64.not_le.1 hy]
  all_goals
    simp [power?, Value.float?] at hv
    subst hv
    simp [Value.tag, Inverts]

theorem compute?_tag (hop : op ≠ power) (ht : op.resultTag? a.tag b.tag = some t)
    (hv : op.compute? h valid a b = some (v, h')) : t = v.tag := by
  have hpure {o : Option Value} (hv : o.map (·, h) = some (v, h')) : o = some v := by
    obtain ⟨w, rfl, hw⟩ := Option.map_eq_some_iff.1 hv
    cases hw
    rfl
  have harith {onInt : Int64 → Int64 → Option Int64} {onFloat : Float → Float → Float}
      (hop : op = add ∨ op = subtract ∨ op = divide ∨ op = module)
      (hv : (arithmetic? onInt onFloat a b).map (·, h) = some (v, h')) : t = v.tag :=
    resultTag?_multiply hop ht (arithmetic?_tag (hpure hv))
  cases op with
  | power => contradiction
  | equal | notEqual | positive =>
    cases hv
    exact tag_of_ite ht
  | less | lessEqual | greater | greaterEqual | bitNegate =>
    obtain ⟨o, -, rfl⟩ := Option.map_eq_some_iff.1 (hpure hv)
    exact tag_of_ite ht
  | add =>
    unfold compute? at hv
    dsimp only at hv
    split at hv
    · cases hv
      cases ht
      rfl
    · cases hv
      cases ht
      rfl
    · exact harith (.inl rfl) hv
  | subtract => exact harith (.inr (.inl rfl)) hv
  | multiply => exact Option.some.inj (ht.symm.trans (arithmetic?_tag (hpure hv)))
  | divide => exact harith (.inr (.inr (.inl rfl))) hv
  | module =>
    unfold compute? at hv
    dsimp only at hv
    split at hv
    · cases hv
      cases b <;> cases ht <;> rfl
    · exact harith (.inr (.inr (.inr rfl))) hv
  | shiftLeft | shiftRight | bitAnd | bitOr | bitXor =>
    have hv := hpure hv
    simp only [onInts?, Option.bind_eq_bind, Option.bind_eq_some_iff, Option.map_eq_some_iff] at hv
    obtain ⟨x, -, y, -, r, -, rfl⟩ := hv
    exact tag_of_ite ht
  | negate =>
    obtain rfl : t = a.tag := tag_of_ite ht
    have hv := hpure hv
    unfold negate? at hv
    split at hv
    · obtain ⟨r, -, rfl⟩ := Option.map_eq_some_iff.1 hv
      rfl
    all_goals cases hv
    all_goals rfl
  | and | or | xor | not =>
    cases hv
    cases ht
    rfl
  | isIn =>
    obtain ⟨r, -, rfl⟩ := Option.map_eq_some_iff.1 (hpure hv)
    exact tag_of_isIn ht

/-- A result has the kind that the table gives exactly when no integer is raised to a negative
one. -/
theorem result?_tag (hv : op.result? h valid a b = some (v, h')) :
    op.resultTag? a.tag b.tag = some v.tag ↔ ¬ op.Inverts a b := by
  rw [result?] at hv
  split at hv
  · next t ht =>
    rw [ht, Option.some.injEq]
    by_cases hop : op = power
    · subst hop
      obtain ⟨w, hw, hvw⟩ := Option.map_eq_some_iff.1 hv
      cases hvw
      exact power?_tag ht hw
    · simp [hop, Inverts, compute?_tag hop ht hv]
  · cases hv

end Operator

/-! ### Types of expressions -/

/-- The value is of the kind that the type of the expression enforces. -/
def ExprFacts.Covers (f : ExprFacts) (v : Value) : Prop :=
  ∀ t, f.type.operandTag? = some t → t = v.tag

namespace Analyze

open ExprFacts

variable {h h' : Heap} {valid : Callable → Bool} {a b v : Value} {left right : ExprFacts}
  {t x y : Tag}

theorem covers_builtin {c : Option Value} (h : t = v.tag) :
    Covers { type := .builtin t, value := c } v := by
  intro u hu
  cases hu
  exact h

theorem covers_unknown : unknown.Covers v := by
  intro t ht
  cases ht

theorem operate_tag {op : Operator} (ht : op.resultTag? a.tag b.tag = some t)
    (hop : ¬ op.Inverts a b) : Answers (fun w => ∀ v ∈ w, v.tag = t) (operate op a b) := by
  refine .bind fun heap => ?_
  split
  · exact .pure (by simp)
  · next w heap' hw =>
    intro d o d' ho
    cases ho
    rintro _ ⟨⟩
    exact Option.some.inj (((Operator.result?_tag hw).2 hop).symm.trans ht)

theorem tag_of_yieldsBool {op : BinaryOp}
    (hop : op.isShortCircuit = true ∨ op.isComparison = true ∨ op = .isIn ∨ op = .notIn)
    (ht : op.operator.resultTag? x y = some t) : .bool = t := by
  cases op with
  | and | or =>
    cases ht
    rfl
  | equal | notEqual | less | lessEqual | greater | greaterEqual =>
    exact (Operator.tag_of_ite ht).symm
  | isIn | notIn => exact (Operator.tag_of_isIn ht).symm
  | _ => simp [BinaryOp.isShortCircuit, BinaryOp.isComparison] at hop

/-- The type that the analysis finds for an operator holds of the value, when the types and
constants that it found for the operands do. -/
theorem binaryFacts_covers {op : BinaryOp} (span : Span)
    (hv : op.operator.result? h valid a b = some (v, h')) (hop : ¬ op.operator.Inverts a b)
    (ha : left.Covers a) (hb : right.Covers b) (hca : ∀ c ∈ left.value, c = a)
    (hcb : ∀ c ∈ right.value, c = b) : Answers (Covers · v) (binaryFacts op left right span) := by
  have htag : op.operator.resultTag? a.tag b.tag = some v.tag := (Operator.result?_tag hv).2 hop
  unfold binaryFacts
  split
  · next hshort =>
    have hbool := tag_of_yieldsBool (.inl hshort) htag
    unfold logicFacts
    split
    · exact .bind fun _ => .bind fun _ => .pure (covers_builtin hbool)
    · exact .pure (covers_builtin hbool)
  extract_lets s t rest
  have hrest (u : Unit) : Answers (Covers · v) (rest u) := by
    dsimp only [rest, s, t]
    split
    · next c d hc hd =>
      obtain rfl := hca c hc
      obtain rfl := hcb d hd
      refine .bind_of (operate_tag htag hop) fun w hw => ?_
      cases w with
      | none => exact .bind fun _ => .pure covers_unknown
      | some w =>
        dsimp only
        split
        · next hnot =>
          have hbool := tag_of_yieldsBool (.inr (.inr (.inr hnot))) htag
          exact .bind fun _ => .pure (covers_builtin hbool)
        · exact .pure (covers_builtin (hw w rfl))
    · split
      · next x y hx hy =>
        obtain rfl := ha x hx
        obtain rfl := hb y hy
        rw [htag]
        exact .pure (covers_builtin rfl)
      · split
        · next hyields => exact .pure (covers_builtin (tag_of_yieldsBool (.inr hyields) htag))
        · exact .bind fun _ => .pure covers_unknown
  exact .ite (.bind hrest) (hrest ())

theorem unaryFacts_covers {op : UnaryOp} (span : Span)
    (hv : op.operator.result? h valid a b = some (v, h')) (ha : left.Covers a)
    (hca : ∀ c ∈ left.value, c = a) : Answers (Covers · v) (unaryFacts op left span) := by
  have hop (x y : Value) : ¬ op.operator.Inverts x y := by
    rintro ⟨hop, -⟩
    cases op <;> cases hop
  have htag : op.operator.resultTag? a.tag .nil = some v.tag := by
    rw [← (Operator.result?_tag hv).2 (hop a b)]
    cases op <;> rfl
  unfold unaryFacts
  split
  · next hnot =>
    subst hnot
    have hbool : Tag.bool = v.tag := Option.some.inj htag
    split
    · exact .bind fun _ => .pure (covers_builtin hbool)
    · exact .pure (covers_builtin hbool)
  · split
    · next c hc =>
      obtain rfl := hca c hc
      refine .bind_of (operate_tag htag (hop c .nil)) fun w hw => ?_
      cases w with
      | none => exact .bind fun _ => .pure covers_unknown
      | some w => exact .pure (covers_builtin (hw w rfl))
    · split
      · next x hx =>
        obtain rfl := ha x hx
        rw [htag]
        exact .pure (covers_builtin rfl)
      · exact .bind fun _ => .pure covers_unknown

end Analyze

/-- **Operators are typed soundly,** except where an integer is raised to a negative integer: the
result has the kind that the table gives, and the type that the analysis finds for an operator
covers it, when what it found for the operands covers theirs. -/
theorem Operator.kind_of_result (op : Operator) (h : Heap) (valid : Callable → Bool) (a b v : Value)
    (h' : Heap) (hv : op.result? h valid a b = some (v, h')) :
    (op.resultTag? a.tag b.tag = some v.tag ↔ ¬ op.Inverts a b) ∧
      ∀ left right : ExprFacts, left.Covers a → right.Covers b →
        (∀ c ∈ left.value, c = a) → (∀ c ∈ right.value, c = b) → ∀ span,
        (∀ written : BinaryOp, written.operator = op → ¬ op.Inverts a b →
          Analyze.Answers (ExprFacts.Covers · v) (Analyze.binaryFacts written left right span)) ∧
        ∀ written : UnaryOp, written.operator = op →
          Analyze.Answers (ExprFacts.Covers · v) (Analyze.unaryFacts written left span) := by
  refine ⟨result?_tag hv, fun left right ha hb hca hcb span => ⟨?_, ?_⟩⟩
  · rintro written rfl hop
    exact Analyze.binaryFacts_covers span hv hop ha hb hca hcb
  · rintro written rfl
    exact Analyze.unaryFacts_covers span hv ha hca

/-- The remainder of -7 by 2 is an integer, as the table says. -/
theorem Operator.kind_of_remainder :
    ∃ v, Operator.result? .module {} (fun _ => true) (.int (-7)) (.int 2) = some (v, {}) ∧
      Operator.resultTag? .module .int .int = some v.tag :=
  ⟨.int (-1), rfl, (kind_of_result .module {} (fun _ => true) (.int (-7)) (.int 2) _ _ rfl).1.2
    (by simp [Inverts])⟩

/-- 2 to the power -1 is a float; the table says an integer. -/
theorem Operator.inverse_not_typed :
    ∃ v, Operator.result? .power {} (fun _ => true) (.int 2) (.int (-1)) = some (v, {}) ∧
      v.tag = .float ∧ Operator.resultTag? .power .int .int = some .int :=
  ⟨_, rfl, rfl, rfl⟩

/-! ### Exactness on integers -/

namespace Checked

variable {a b w : Int64}

/-- Only the least word by -1 has a quotient that no word holds. -/
theorem fits_tdiv_iff (hb : b ≠ 0) : Fits (a.toInt.tdiv b.toInt) ↔ ¬ (a = minValue ∧ b = -1) := by
  have hmin : a = minValue ∧ b = -1 ↔ a.toInt = -0x8000000000000000 ∧ b.toInt = -1 := by
    simp [← toInt_inj]
  have hb0 : b.toInt ≠ 0 := by simpa [← toInt_inj] using hb
  have ha := le_toInt a
  have ha' := toInt_lt a
  have hquot : (a.toInt.tdiv b.toInt).natAbs = a.toInt.natAbs / b.toInt.natAbs :=
    Int.natAbs_tdiv a.toInt b.toInt
  rw [hmin, Fits, Int64.toInt_minValue, Int64.toInt_maxValue]
  rcases (by omega : b.toInt = 1 ∨ b.toInt = -1 ∨ 2 ≤ b.toInt.natAbs) with h | h | h
  · rw [h, Int.tdiv_one]
    omega
  · rw [h, Int.tdiv_neg, Int.tdiv_one]
    omega
  · have := Nat.div_le_div_left h (a := a.toInt.natAbs) (by decide)
    omega

theorem rem?_eq_some_iff (hb : b ≠ 0) :
    rem? a b = some w ↔ w.toInt = a.toInt.tmod b.toInt ∧ ¬ (a = minValue ∧ b = -1) := by
  have hsome : (div? a b).isSome ↔ ¬ (a = minValue ∧ b = -1) := by
    rw [div?, word?, ← fits_tdiv_iff hb]
    split <;> simp_all
  rw [rem?]
  split
  · next h => rw [word?_eq_some_iff, and_iff_left (hsome.1 h)]
  · next h => simp [mt hsome.2 h]

theorem neg_one_pow (n : Nat) : Int.pow (-1) n = if n % 2 = 0 then 1 else -1 := by
  induction n with
  | zero => rfl
  | succ n ih =>
    rw [show Int.pow (-1) (n + 1) = Int.pow (-1) n * -1 from Int.pow_succ .., ih]
    split <;> omega

/-- The power is exact for every exponent: from 64 on, the bases that are not looked at give more
than a word holds. -/
theorem pow?_eq_some_iff {n : Nat} : pow? a n = some w ↔ w.toInt = a.toInt.pow n := by
  have hself {v : Int64} {x : Int} (h : v.toInt = x) : some v = some w ↔ w.toInt = x := by
    rw [Option.some.injEq, ← toInt_inj, h, eq_comm]
  rw [pow?]
  split
  · exact word?_eq_some_iff
  next hn =>
  split
  · next h => exact hself (by rw [h]; exact (Int.zero_pow (by omega)).symm)
  split
  · next h => exact hself (by rw [h]; exact Int.one_pow.symm)
  split
  · next h =>
    refine hself ?_
    rw [h]
    show _ = Int.pow (-1) n
    rw [neg_one_pow]
    split <;> rfl
  · next h0 h1 h2 =>
    have hbase : 2 ≤ a.toInt.natAbs := by
      rw [← toInt_inj] at h0 h1 h2
      have h0 : a.toInt ≠ 0 := h0
      have h1 : a.toInt ≠ 1 := h1
      have h2 : a.toInt ≠ -1 := h2
      omega
    have hlarge : 0x10000000000000000 ≤ (a.toInt.pow n).natAbs :=
      calc 0x10000000000000000 = 2 ^ 64 := by decide
        _ ≤ 2 ^ n := Nat.pow_le_pow_right (by decide) (Nat.le_of_not_lt hn)
        _ ≤ a.toInt.natAbs ^ n := Nat.pow_le_pow_left hbase n
        _ = (a.toInt.pow n).natAbs := (Int.natAbs_pow a.toInt n).symm
    have hw := le_toInt w
    have hw' := toInt_lt w
    simp only [reduceCtorEq, false_iff]
    omega

end Checked

namespace Operator

def isArithmetic : Operator → Bool
  | add | subtract | multiply | divide | module | power | negate => true
  | _ => false

/-- The integer that an operator of arithmetic stands for. There is none for a zero divisor, and
none for a negative exponent, where floats take over. -/
def integer? : Operator → Int → Int → Option Int
  | add, a, b => some (a + b)
  | subtract, a, b => some (a - b)
  | multiply, a, b => some (a * b)
  | divide, a, b => if b = 0 then none else some (a.tdiv b)
  | module, a, b => if b = 0 then none else some (a.tmod b)
  | power, a, b => if 0 ≤ b then some (a.pow b.toNat) else none
  | negate, a, _ => some (-a)
  | _, _, _ => none

/-- Operands that are refused whatever the integer is: the least word has no remainder by -1, having
no quotient, and an exponent has 32 bits. -/
def Refuses (op : Operator) (a b : Int64) : Prop :=
  op = module ∧ (a = minValue ∧ b = -1) ∨ op = power ∧ 0x100000000 ≤ b.toInt

section

variable {op : Operator} {h : Heap} {valid : Callable → Bool} {a b r : Int64}

def onWords? (op : Operator) (a b : Int64) : Option Int64 :=
  match op with
  | add => Checked.add? a b
  | subtract => Checked.sub? a b
  | multiply => Checked.mul? a b
  | divide => Checked.div? a b
  | module => Checked.rem? a b
  | power => if b.toInt < 0x100000000 then Checked.pow? a b.toInt.toNat else none
  | negate => Checked.neg? a
  | _ => none

theorem result?_int {y : Value} (hop : op.isArithmetic = true) (hy : op = negate ∨ y = .int b)
    (hb : op = power → 0 ≤ b.toInt) :
    op.result? h valid (.int a) y = (op.onWords? a b).map fun r => (.int r, h) := by
  by_cases hpow : op = power
  · subst hpow
    obtain rfl := hy.resolve_left nofun
    have hb : 0 ≤ b := Int64.le_iff_toInt_le.2 (hb rfl)
    show (power? (.int a) (.int b)).map (·, h) = _
    rw [power?, if_pos hb, onWords?]
    split
    · exact Option.map_map ..
    · rfl
  rcases hy with rfl | rfl
  · exact Option.map_map ..
  · cases op <;> first | contradiction | exact Option.map_map ..

theorem onWords?_eq_some_iff (hop : op.isArithmetic = true) (hb : op = power → 0 ≤ b.toInt) :
    op.onWords? a b = some r ↔ op.integer? a.toInt b.toInt = some r.toInt ∧ ¬ op.Refuses a b := by
  have hword {x : Int} : Checked.word? x = some r ↔ x = r.toInt := by
    rw [Checked.word?_eq_some_iff, eq_comm]
  have hzero : b.toInt = 0 ↔ b = 0 := by rw [← toInt_inj, Int64.toInt_zero]
  cases op
  case divide =>
    by_cases h0 : b = 0 <;> simp [onWords?, integer?, Checked.div?, Refuses, h0, hzero, hword]
  case module =>
    by_cases h0 : b = 0
    · simp [onWords?, integer?, Checked.rem?, Checked.div?, h0]
    · simp [onWords?, integer?, Refuses, h0, hzero, Checked.rem?_eq_some_iff h0, eq_comm]
  case power =>
    rw [onWords?, integer?, if_pos (hb rfl)]
    split
    · next hlt =>
      rw [Checked.pow?_eq_some_iff, eq_comm]
      simp [Refuses, Int.not_le.2 hlt]
    · next hlt => simp [Refuses, Int.not_lt.1 hlt]
  all_goals
    simp [onWords?, integer?, Refuses, Checked.add?, Checked.sub?, Checked.mul?,
      Checked.neg?, hword]

/-- **Integer arithmetic is exact.** Unless the operands are refused, the result is the exact
integer when a word holds it; otherwise, and for a zero divisor, there is none. -/
theorem integer_result (op : Operator) (h : Heap) (valid : Callable → Bool) (a b : Int64)
    (y : Value) (hop : op.isArithmetic = true) (hy : op = negate ∨ y = .int b)
    (hb : op = power → 0 ≤ b.toInt) :
    (∀ r : Int64, op.result? h valid (.int a) y = some (.int r, h) ↔
        op.integer? a.toInt b.toInt = some r.toInt ∧ ¬ op.Refuses a b) ∧
      (op.result? h valid (.int a) y = none ↔
        op.Refuses a b ∨ ∀ x, op.integer? a.toInt b.toInt = some x →
          x < -0x8000000000000000 ∨ 0x7FFFFFFFFFFFFFFF < x) := by
  rw [result?_int hop hy hb, Option.map_eq_none_iff, Option.eq_none_iff_forall_ne_some]
  have hsome (r : Int64) : op.onWords? a b = some r ↔ _ := onWords?_eq_some_iff hop hb
  refine ⟨fun r => by simp [← hsome], ?_⟩
  constructor
  · intro hnone
    by_cases hr : op.Refuses a b
    · exact .inl hr
    refine .inr fun x hx => Decidable.byContradiction fun hin => ?_
    have hfit : (ofInt x).toInt = x := Int64.toInt_ofInt_of_le (by omega) (by omega)
    exact hnone (ofInt x) ((hsome _).2 ⟨by rw [hfit, hx], hr⟩)
  · rintro hout r hr
    obtain ⟨hx, hr⟩ := (hsome r).1 hr
    have := le_toInt r
    have := toInt_lt r
    rcases hout with h | h
    · exact hr h
    · have := h _ hx
      omega

/-- A power that only just fits. -/
theorem least_power_result :
    power.integer? (-2) 63 = some (-0x8000000000000000) ∧
      power.result? {} (fun _ => true) (.int (-2)) (.int 63) = some (.int minValue, {}) :=
  ⟨by decide, ((integer_result power {} (fun _ => true) (-2) 63 _ rfl (.inr rfl)
    fun _ => by decide).1 minValue).2 ⟨by decide, by simp [Refuses]⟩⟩

/-- A remainder and a power that words hold but that do not come out. -/
theorem refused_result :
    module.integer? minValue.toInt (-1) = some 0 ∧
      module.result? {} (fun _ => true) (.int minValue) (.int (-1)) = none ∧
      power.integer? 1 0x100000000 = some 1 ∧
      power.result? {} (fun _ => true) (.int 1) (.int 0x100000000) = none :=
  ⟨by decide, by decide, congrArg some Int.one_pow, rfl⟩

end

end Operator

end HotScript
