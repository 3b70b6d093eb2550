import HotScript.Value.Fit

/-!
Values that were fitted.

A value that was fitted fits as it is, for as long as containers keep the types they record
(`Fits`). Cells are only added (`Heap.Extends`), and what is new was made for a container type
inside the type that was asked for, with contents that fit (`Grown`).
-/

namespace HotScript

/-- Types are finite: what passes from the types inside a type to the type holds of all. -/
theorem StaticType.induction {P : StaticType → Prop}
    (step : ∀ t : StaticType, (∀ e ∈ t.elements, P e) → P t) (t : StaticType) : P t := by
  refine step t fun e he => StaticType.induction step e
termination_by sizeOf t
decreasing_by
  obtain ⟨shape, p, m, r⟩ := t
  cases shape with
  | builtin tag es =>
    have := List.sizeOf_lt_of_mem (show e ∈ es from he)
    simp
    omega
  | _ => cases he

theorem StaticType.sameAll_self {ts : List StaticType} (h : ∀ t ∈ ts, t.same t = true) :
    sameAll ts ts = true := by
  induction ts with
  | nil => rfl
  | cons t ts ih =>
    rw [sameAll, h t (by simp), ih fun u hu => h u (by simp [hu])]
    rfl

theorem StaticType.same_self (t : StaticType) : t.same t = true := by
  induction t using StaticType.induction with
  | step t ih =>
    obtain ⟨shape, p, m, r⟩ := t
    cases shape <;> simp [same, sameShape, ClassRef.same]
    exact sameAll_self ih

/-- A type is another one, or an element type inside it at any depth. -/
inductive StaticType.Has : StaticType → StaticType → Prop
  | self {t : StaticType} : t.Has t
  | element {t e u : StaticType} : e ∈ t.elements → e.Has u → t.Has u

theorem StaticType.Has.trans {t u v : StaticType} (h : t.Has u) (h' : u.Has v) : t.Has v := by
  induction h with
  | self => exact h'
  | element he _ ih => exact .element he (ih h')

/-! ### Cells that stay -/

namespace Heap

variable {h h1 h2 g : Heap} {a : ArrayRef} {d e : DictRef} {x y : Value} {t : StaticType}

theorem array_newArray (h : Heap) (cell : ArrayCell) (a : ArrayRef) :
    (h.newArray cell).2.array a = if a.id = h.arrays.size then cell else h.array a := by
  rw [array, newArray, Array.getElem?_push]
  split <;> rfl

theorem dict_newDict (h : Heap) (cell : DictCell) (d : DictRef) :
    (h.newDict cell).2.dict d = if d.id = h.dicts.size then cell else h.dict d := by
  rw [dict, newDict, Array.getElem?_push]
  split <;> rfl

theorem dict_setDict (hd : d.id < h.dicts.size) (cell : DictCell) (e : DictRef) :
    (h.setDict d cell).dict e = if e.id = d.id then cell else h.dict e := by
  rw [dict, Heap.setDict, Array.getElem?_setIfInBounds]
  by_cases he : e.id = d.id
  · simp [he, hd]
  · rw [if_neg (Ne.symm he), if_neg he]
    rfl

/-- Every cell of the first heap is one of the second, as it was. -/
structure Extends (h g : Heap) : Prop where
  array (a : ArrayRef) : a.id < h.arrays.size → a.id < g.arrays.size ∧ g.array a = h.array a
  dict (d : DictRef) : d.id < h.dicts.size → d.id < g.dicts.size ∧ g.dict d = h.dict d

theorem Extends.refl (h : Heap) : h.Extends h := ⟨fun _ ha => ⟨ha, rfl⟩, fun _ hd => ⟨hd, rfl⟩⟩

theorem Extends.trans (e : h.Extends h1) (e' : h1.Extends h2) : h.Extends h2 where
  array a ha := by
    obtain ⟨ha, hc⟩ := e.array a ha
    exact ⟨(e'.array a ha).1, (e'.array a ha).2.trans hc⟩
  dict d hd := by
    obtain ⟨hd, hc⟩ := e.dict d hd
    exact ⟨(e'.dict d hd).1, (e'.dict d hd).2.trans hc⟩

theorem extends_newArray (h : Heap) (cell : ArrayCell) : h.Extends (h.newArray cell).2 where
  array a ha := ⟨by simp [newArray]; omega, by rw [array_newArray, if_neg (by omega)]⟩
  dict d hd := ⟨hd, rfl⟩

theorem extends_newDict (h : Heap) (cell : DictCell) : h.Extends (h.newDict cell).2 where
  array a ha := ⟨ha, rfl⟩
  dict d hd := ⟨by simp [newDict]; omega, by rw [dict_newDict, if_neg (by omega)]⟩

theorem Extends.setDict (ex : h.Extends g) (hd : h.dicts.size ≤ d.id) (hlt : d.id < g.dicts.size)
    (cell : DictCell) : h.Extends (g.setDict d cell) where
  array := ex.array
  dict e he := by
    obtain ⟨hg, hc⟩ := ex.dict e he
    exact ⟨by simpa [Heap.setDict] using hg, by rw [dict_setDict hlt, if_neg (by omega), hc]⟩

/-- Containers that record types record the same ones. -/
structure KeepsTypes (h g : Heap) : Prop where
  array (a : ArrayRef) (t : StaticType) :
    (h.array a).elementType = some t → (g.array a).elementType = some t
  dict (d : DictRef) (kt vt : StaticType) :
    (h.dict d).keyType = some kt → (h.dict d).valueType = some vt →
      (g.dict d).keyType = some kt ∧ (g.dict d).valueType = some vt

theorem lt_of_elementType (ht : (h.array a).elementType = some t) : a.id < h.arrays.size := by
  refine Nat.lt_of_not_le fun hle => ?_
  rw [array, Array.getElem?_eq_none hle] at ht
  cases ht

theorem lt_of_keyType (ht : (h.dict d).keyType = some t) : d.id < h.dicts.size := by
  refine Nat.lt_of_not_le fun hle => ?_
  rw [dict, Array.getElem?_eq_none hle] at ht
  cases ht

theorem Extends.keepsTypes (e : h.Extends g) : h.KeepsTypes g where
  array a t ht := by rw [(e.array a (lt_of_elementType ht)).2, ht]
  dict d kt vt hk hv := by rw [(e.dict d (lt_of_keyType hk)).2, hk, hv]; exact ⟨rfl, rfl⟩

theorem KeepsTypes.trans (k : h.KeepsTypes h1) (k' : h1.KeepsTypes h2) : h.KeepsTypes h2 where
  array a t ht := k'.array a t (k.array a t ht)
  dict d kt vt hk hv := k'.dict d kt vt (k.dict d kt vt hk hv).1 (k.dict d kt vt hk hv).2

theorem insertDict_cases (h : Heap) (d : DictRef) (x y : Value) :
    (h.insertDict d x y).2 = h ∨ (h.insertDict d x y).2 =
      h.setDict d { h.dict d with entries := putEntry h.equal x y (h.entries d) } := by
  rw [insertDict]
  split
  · exact .inl rfl
  · exact .inr rfl

theorem mem_putEntry {eq : Value → Value → Bool} {l : List (Value × Value)} {P Q : Value → Prop}
    (hl : ∀ o ∈ l, P o.1 ∧ Q o.2) (hx : P x) (hy : Q y) :
    ∀ o ∈ putEntry eq x y l, P o.1 ∧ Q o.2 := by
  induction l with
  | nil => simp [putEntry, hx, hy]
  | cons o l ih =>
    obtain ⟨ho, hl⟩ := List.forall_mem_cons.1 hl
    rw [putEntry]
    split
    · exact List.forall_mem_cons.2 ⟨⟨ho.1, hy⟩, hl⟩
    · exact List.forall_mem_cons.2 ⟨ho, ih hl⟩

end Heap

/-! ### Fitting -/

variable {k : Kinship} {t u e kt vt kt' vt' : StaticType} {v w : Value} {h h' g g' : Heap}

/-- A value is stored as it is, now and as long as containers keep the types they record. -/
def Fits (k : Kinship) (h : Heap) (t : StaticType) (v : Value) : Prop :=
  ∀ ⦃g⦄, h.KeepsTypes g → (fit k t v).run g = some (v, g)

theorem Fits.mono (hv : Fits k h t v) (hk : h.KeepsTypes h') : Fits k h' t v :=
  fun _ hg => hv (hk.trans hg)

/-- Values of the kind `tag` may be stored where the type is expected. -/
def StaticType.Admits (t : StaticType) (tag : Tag) : Prop :=
  t.valueTag? = some tag ∨ t.isObject = true ∧ tag = .nil

/-- The type is enforced and says something about values. -/
def StaticType.IsChecked (t : StaticType) : Prop :=
  t.isHard = true ∧ t.isMeta = false ∧ t.isVariant = false

theorem convert_widens {tag : Tag} (hw : v.tag.widensTo tag = true)
    (hc : h.convert v tag = some w) :
    w.tag = tag ∧ (tag = .float ∨ tag = .string ∨ tag = .stringName) := by
  cases v <;> cases tag <;> simp [Tag.widensTo, Value.tag] at hw <;> cases hc <;> simp [Value.tag]

section

variable {one key value : Value → StateT Heap Option Value} {a : ArrayRef} {d : DictRef}

theorem fitArray_typed (ha : (h.array a).elementType = some t) (hs : t.same e = true) :
    (fitArray e one a).run h = some (.array a, h) := by
  simp [fitArray, ha, hs]

theorem fitArray_some (hf : (fitArray e one a).run h = some (w, h')) :
    (∃ t, (h.array a).elementType = some t ∧ t.same e = true ∧ w = .array a ∧ h' = h) ∨
    ∃ ws g, (fitEach one (h.items a)).run h = some (ws, g) ∧ w = .array ⟨g.arrays.size⟩ ∧
      h' = (g.newArray { elements := ws.toArray, elementType := some e }).2 := by
  cases ha : (h.array a).elementType with
  | some t =>
    by_cases hs : t.same e = true
    · rw [fitArray_typed ha hs] at hf
      cases hf
      exact .inl ⟨t, rfl, hs, rfl, rfl⟩
    · have hnone : (fitArray e one a).run h = none := by
        unfold fitArray
        simp only [StateT.run_bind, StateT.run_get, Option.pure_def, Option.bind_eq_bind,
          Option.bind_some, ha, hs]
        rfl
      cases hnone.symm.trans hf
  | none =>
    simp [fitArray, ha, Option.bind_eq_some_iff] at hf
    obtain ⟨ws, g, hws, rfl, rfl⟩ := hf
    exact .inr ⟨ws, g, hws, rfl, rfl⟩

theorem fitDict_some (hf : (fitDict kt vt key value d).run h = some (w, h')) :
    (∃ kt' vt', (h.dict d).keyType = some kt' ∧ (h.dict d).valueType = some vt' ∧
      kt'.same kt = true ∧ vt'.same vt = true ∧ w = .dictionary d ∧ h' = h) ∨
    (fitEntries key value ⟨h.dicts.size⟩ (h.entries d)).run
        (h.newDict { keyType := some kt, valueType := some vt }).2 = some ((), h') ∧
      w = .dictionary ⟨h.dicts.size⟩ := by
  simp only [fitDict, StateT.run_bind, StateT.run_get, Option.pure_def, Option.bind_eq_bind,
    Option.bind_some] at hf
  split at hf
  · split at hf
    · next hs =>
      cases hf
      simp only [Bool.and_eq_true, Option.any_eq_true] at hs
      obtain ⟨⟨kt', hk, hks⟩, vt', hv, hvs⟩ := hs
      exact .inl ⟨kt', vt', hk, hv, hks, hvs, rfl, rfl⟩
    · cases hf
  · simp at hf
    obtain ⟨⟨_, hrun⟩, rfl⟩ := hf
    exact .inr ⟨hrun, rfl⟩

end

/-- What fitting `v` where `t` is expected comes to. -/
inductive Fitting (k : Kinship) (t : StaticType) (v : Value) (h : Heap) : Value → Heap → Prop
  /-- The value fits as it is, or it is converted without the heap. -/
  | plain {w : Value} : Fits k h t w → (t.IsChecked → t.Admits w.tag) →
      (w = v ∨ w.tag.isShared = false) → Fitting k t v h w h
  | array {e es a ws g} : t.shape = .builtin .array (e :: es) →
      (fitEach (fit k e) (h.items a)).run h = some (ws, g) →
      (∀ f a, (Heap.array f a).elementType = some e →
        (fit k t (.array a)).run f = some (.array a, f)) →
      Fitting k t v h (.array ⟨g.arrays.size⟩)
        (g.newArray { elements := ws.toArray, elementType := some e }).2
  | dictionary {kt vt d h'} : t.shape = .builtin .dictionary [kt, vt] →
      (fitEntries (fit k kt) (fit k vt) ⟨h.dicts.size⟩ (h.entries d)).run
        (h.newDict { keyType := some kt, valueType := some vt }).2 = some ((), h') →
      (∀ f d, (Heap.dict f d).keyType = some kt → (Heap.dict f d).valueType = some vt →
        (fit k t (.dictionary d)).run f = some (.dictionary d, f)) →
      Fitting k t v h (.dictionary ⟨h.dicts.size⟩) h'

theorem fitting_of_fit (hf : (fit k t v).run h = some (w, h')) : Fitting k t v h w h' := by
  obtain ⟨shape, p, m, r⟩ := t
  unfold fit at hf
  split at hf
  · cases hf
    refine .plain (fun g _ => ?_) ?_ (.inl rfl)
    · unfold fit
      simp_all
    · simp_all [StaticType.IsChecked, StaticType.isHard]
  next hp =>
  split at hf
  case h_1 | h_2 | h_3 =>
    cases hf
    refine .plain (fun g _ => ?_) ?_ (.inl rfl)
    · simp_all [fit]
    · simp_all [StaticType.IsChecked, StaticType.isHard, StaticType.isSet, StaticType.isVariant]
  split at hf
  · split at hf
    · cases hf
      refine .plain (fun g _ => ?_) ?_ (.inl rfl)
      · unfold fit
        simp_all
      · simp_all [StaticType.IsChecked]
    · cases hf
  next hm =>
  split at hf
  case h_1 e es a _ _ _ =>
    have htyped {f : Heap} {b : ArrayRef} {u : StaticType} (hu : (f.array b).elementType = some u)
        (hs : u.same e = true) : (fit k ⟨.builtin .array (e :: es), p, m, r⟩ (.array b)).run f =
          some (.array b, f) := by
      unfold fit
      simp [hp, hm, fitArray_typed hu hs]
    rcases fitArray_some hf with ⟨u, hu, hs, rfl, rfl⟩ | ⟨ws, g, hws, rfl, rfl⟩
    · refine .plain (fun g hg => htyped (hg.array a u hu) hs) (fun _ => .inl ?_) (.inl rfl)
      simp_all [StaticType.valueTag?, Value.tag]
    · exact .array rfl hws fun f b hb => htyped hb e.same_self
  case h_2 kt vt d _ _ _ =>
    have htyped {f : Heap} {b : DictRef} {kt' vt' : StaticType} (hk : (f.dict b).keyType = some kt')
        (hv : (f.dict b).valueType = some vt') (hks : kt'.same kt = true)
        (hvs : vt'.same vt = true) :
        (fit k ⟨.builtin .dictionary [kt, vt], p, m, r⟩ (.dictionary b)).run f =
          some (.dictionary b, f) := by
      unfold fit
      simp [hp, hm, fitDict, hk, hv, hks, hvs]
    rcases fitDict_some hf with ⟨kt', vt', hk, hv, hks, hvs, rfl, rfl⟩ | ⟨hrun, rfl⟩
    · refine .plain (fun g hg => ?_) (fun _ => .inl ?_) (.inl rfl)
      · exact htyped (hg.dict d kt' vt' hk hv).1 (hg.dict d kt' vt' hk hv).2 hks hvs
      · simp_all [StaticType.valueTag?, Value.tag]
    · exact .dictionary rfl hrun fun f b hk hv => htyped hk hv kt.same_self vt.same_self
  case h_3 =>
    split at hf
    · cases hf
      refine .plain (fun g _ => ?_) ?_ (.inl rfl)
      · unfold fit
        simp_all
      · simp_all [StaticType.Admits, StaticType.valueTag?]
    split at hf
    · next tag es _ _ _ _ _ _ hw =>
      obtain ⟨x, hc⟩ : ∃ x, h.convert v tag = some x := by
        cases hc : h.convert v tag with
        | none => simp [hc] at hf
        | some x => exact ⟨x, rfl⟩
      obtain ⟨rfl, rfl⟩ : x = w ∧ h = h' := by simpa [hc] using hf
      obtain ⟨htag, hk⟩ := convert_widens hw hc
      refine .plain (fun g _ => ?_) (fun _ => .inl ?_) (.inr ?_)
      · unfold fit
        rcases hk with rfl | rfl | rfl <;> simp_all
      · simp_all [StaticType.valueTag?]
      · rcases hk with rfl | rfl | rfl <;> simp [htag, Tag.isShared]
    · cases hf
  all_goals try split at hf
  all_goals cases hf
  all_goals
    refine .plain (fun g _ => ?_) (fun _ => ?_) (by simp [Value.tag, Tag.isShared])
    · unfold fit
      simp_all
    · simp_all [StaticType.Admits, StaticType.valueTag?, StaticType.isObject, Value.tag]

/-! ### What is made -/

/-- A container records exactly the types that a type declares for its contents, and they fit
them. -/
inductive Holds (k : Kinship) (h : Heap) (t : StaticType) : Value → Prop
  | array {e es a} : t.shape = .builtin .array (e :: es) → (h.array a).elementType = some e →
      (∀ x ∈ h.items a, Fits k h e x) → Holds k h t (.array a)
  | dictionary {kt vt d} : t.shape = .builtin .dictionary [kt, vt] →
      (h.dict d).keyType = some kt → (h.dict d).valueType = some vt →
      (∀ x ∈ h.entries d, Fits k h kt x.1 ∧ Fits k h vt x.2) → Holds k h t (.dictionary d)

/-- The second heap has the cells of the first, and others made for container types inside a
type. -/
structure Grown (k : Kinship) (t : StaticType) (h g : Heap) : Prop extends h.Extends g where
  newArray (a : ArrayRef) : h.arrays.size ≤ a.id → a.id < g.arrays.size →
    ∃ u, t.Has u ∧ Holds k g u (.array a)
  newDict (d : DictRef) : h.dicts.size ≤ d.id → d.id < g.dicts.size →
    ∃ u, t.Has u ∧ Holds k g u (.dictionary d)

section

variable {h1 h2 : Heap} {a : ArrayRef} {d : DictRef} {x y : Value}

theorem Holds.mono (ho : Holds k h t w) (hk : h.KeepsTypes g)
    (ha : ∀ a, w = .array a → g.array a = h.array a)
    (hd : ∀ d, w = .dictionary d → g.dict d = h.dict d) : Holds k g t w := by
  cases ho with
  | array ht he hx =>
    refine .array ht (by rw [ha _ rfl, he]) fun x hm => (hx x ?_).mono hk
    rwa [Heap.items, ha _ rfl] at hm
  | dictionary ht hkt hvt hx =>
    refine .dictionary ht (by rw [hd _ rfl, hkt]) (by rw [hd _ rfl, hvt]) fun x hm => ?_
    rw [Heap.entries, hd _ rfl] at hm
    exact (hx x hm).imp (·.mono hk) (·.mono hk)

namespace Grown

theorem refl (k : Kinship) (t : StaticType) (h : Heap) : Grown k t h h :=
  ⟨.refl h, fun _ ha hlt => absurd hlt (by omega), fun _ hd hlt => absurd hlt (by omega)⟩

theorem mono (m : Grown k u h g) (ht : t.Has u) : Grown k t h g :=
  ⟨m.toExtends, fun a ha hlt => (m.newArray a ha hlt).imp fun _ hu => ⟨ht.trans hu.1, hu.2⟩,
    fun d hd hlt => (m.newDict d hd hlt).imp fun _ hu => ⟨ht.trans hu.1, hu.2⟩⟩

theorem trans (m : Grown k t h h1) (m' : Grown k t h1 h2) : Grown k t h h2 where
  toExtends := m.toExtends.trans m'.toExtends
  newArray a ha hlt := by
    by_cases hold : a.id < h1.arrays.size
    · obtain ⟨u, hu, ho⟩ := m.newArray a ha hold
      exact ⟨u, hu, ho.mono m'.keepsTypes (by rintro _ ⟨⟩; exact (m'.array a hold).2) nofun⟩
    · exact m'.newArray a (by omega) hlt
  newDict d hd hlt := by
    by_cases hold : d.id < h1.dicts.size
    · obtain ⟨u, hu, ho⟩ := m.newDict d hd hold
      exact ⟨u, hu, ho.mono m'.keepsTypes nofun (by rintro _ ⟨⟩; exact (m'.dict d hold).2)⟩
    · exact m'.newDict d (by omega) hlt

theorem addArray (cell : ArrayCell)
    (ho : Holds k (h.newArray cell).2 t (.array ⟨h.arrays.size⟩)) :
    Grown k t h (h.newArray cell).2 where
  toExtends := h.extends_newArray _
  newArray a ha hlt := by
    obtain ⟨i⟩ := a
    obtain rfl : i = h.arrays.size :=
      Nat.le_antisymm (by simpa [Heap.newArray, Nat.lt_succ_iff] using hlt) ha
    exact ⟨t, .self, ho⟩
  newDict d hd hlt := absurd hlt (by simpa [Heap.newArray] using hd)

theorem addDict (ht : t.shape = .builtin .dictionary [kt, vt]) :
    Grown k t h (h.newDict { keyType := some kt, valueType := some vt }).2 where
  toExtends := h.extends_newDict _
  newArray a ha hlt := absurd hlt (by simpa [Heap.newDict] using ha)
  newDict d hd hlt := by
    have hid : d.id = h.dicts.size := by
      simp [Heap.newDict] at hlt
      omega
    have hcell := (h.dict_newDict { keyType := some kt, valueType := some vt } d).trans (if_pos hid)
    exact ⟨t, .self, .dictionary ht (by rw [hcell]) (by rw [hcell]) (by simp [Heap.entries, hcell])⟩

theorem insert (m : Grown k t h g) (hd : h.dicts.size ≤ d.id)
    (hkt : (g.dict d).keyType = some kt) (hvt : (g.dict d).valueType = some vt)
    (hx : Fits k g kt x) (hy : Fits k g vt y) :
    Grown k t h (g.insertDict d x y).2 ∧ g.KeepsTypes (g.insertDict d x y).2 := by
  have hlt := Heap.lt_of_keyType hkt
  rcases g.insertDict_cases d x y with he | he
  · rw [he]
    exact ⟨m, (Heap.Extends.refl g).keepsTypes⟩
  rw [he]
  generalize hcell : ({ g.dict d with entries := _ } : DictCell) = cell
  have hget := Heap.dict_setDict hlt cell
  have hkeep : g.KeepsTypes (g.setDict d cell) := by
    refine ⟨fun _ _ ht => ht, fun c kt' vt' hk hv => ?_⟩
    rw [hget]
    split
    · next hid =>
      obtain rfl : c = d := by cases c; simp_all
      subst hcell
      exact ⟨hk, hv⟩
    · exact ⟨hk, hv⟩
  refine ⟨⟨m.toExtends.setDict hd hlt cell, fun a ha hlt' => ?_, fun c hc hclt => ?_⟩, hkeep⟩
  · obtain ⟨u, hu, ho⟩ := m.newArray a ha hlt'
    exact ⟨u, hu, ho.mono hkeep (fun _ _ => rfl) nofun⟩
  · obtain ⟨u, hu, ho⟩ := m.newDict c hc (by simpa [Heap.setDict] using hclt)
    refine ⟨u, hu, ?_⟩
    by_cases hid : c.id = d.id
    · obtain rfl : c = d := by cases c; simp_all
      obtain _ | ⟨hs, hk, hv, hes⟩ := ho
      cases hkt.symm.trans hk
      cases hvt.symm.trans hv
      refine .dictionary hs (hkeep.dict c _ _ hk hv).1 (hkeep.dict c _ _ hk hv).2 ?_
      have hput : cell.entries = Heap.putEntry g.equal x y (g.entries c) := by rw [← hcell]
      rw [Heap.entries, hget, if_pos rfl, hput]
      exact Heap.mem_putEntry (fun o ho => (hes o ho).imp (·.mono hkeep) (·.mono hkeep))
        (hx.mono hkeep) (hy.mono hkeep)
    · exact ho.mono hkeep nofun (by rintro _ ⟨⟩; rw [hget, if_neg hid])

end Grown

end

/-- What holds of a value that was fitted: it fits as it is, it is of a kind that the type admits,
and a container is the one that was given or holds what the type declares. -/
structure Settled (k : Kinship) (t : StaticType) (v : Value) (h : Heap) (w : Value) (g : Heap) :
    Prop extends Grown k t h g where
  fits : Fits k g t w
  admits : t.IsChecked → t.Admits w.tag
  made : w = v ∨ w.tag.isShared = false ∨ Holds k g t w

theorem fitEach_settled (s : ∀ ⦃v h w g⦄, (fit k e v).run h = some (w, g) → Settled k e v h w g)
    {vs ws : List Value} (hf : (fitEach (fit k e) vs).run h = some (ws, g)) :
    Grown k e h g ∧ ∀ w ∈ ws, Fits k g e w := by
  induction vs generalizing h ws with
  | nil =>
    cases hf
    exact ⟨.refl k e g, by simp⟩
  | cons v vs ih =>
    simp only [fitEach, StateT.run_bind, Option.bind_eq_bind, Option.bind_eq_some_iff] at hf
    obtain ⟨⟨w, h1⟩, hw, ⟨ws', h2⟩, hws, hf⟩ := hf
    cases hf
    obtain ⟨m, hrest⟩ := ih hws
    exact ⟨(s hw).toGrown.trans m, List.forall_mem_cons.2 ⟨(s hw).fits.mono m.keepsTypes, hrest⟩⟩

theorem fitEntries_settled
    (s : ∀ e ∈ t.elements, ∀ ⦃v h w g⦄, (fit k e v).run h = some (w, g) → Settled k e v h w g)
    {d : DictRef} {es : List (Value × Value)} (ht : t.shape = .builtin .dictionary [kt, vt])
    (m : Grown k t h g) (hd : h.dicts.size ≤ d.id) (hkt : (g.dict d).keyType = some kt)
    (hvt : (g.dict d).valueType = some vt)
    (hf : (fitEntries (fit k kt) (fit k vt) d es).run g = some ((), g')) :
    Grown k t h g' ∧ (g'.dict d).keyType = some kt ∧ (g'.dict d).valueType = some vt := by
  have hmem : kt ∈ t.elements ∧ vt ∈ t.elements := by simp [StaticType.elements, ht]
  induction es generalizing g with
  | nil =>
    cases hf
    exact ⟨m, hkt, hvt⟩
  | cons e es ih =>
    simp only [fitEntries, StateT.run_bind, Option.bind_eq_bind, Option.bind_eq_some_iff] at hf
    obtain ⟨⟨x, g1⟩, hx, ⟨y, g2⟩, hy, ⟨_, g3⟩, hg, hf⟩ := hf
    cases hg
    have sx := s kt hmem.1 hx
    have sy := s vt hmem.2 hy
    obtain ⟨hkt, hvt⟩ := (sx.keepsTypes.trans sy.keepsTypes).dict d kt vt hkt hvt
    have m := (m.trans (sx.toGrown.mono (.element hmem.1 .self))).trans
      (sy.toGrown.mono (.element hmem.2 .self))
    obtain ⟨m, hkeep⟩ := m.insert hd hkt hvt (sx.fits.mono sy.keepsTypes) sy.fits
    exact ih m (hkeep.dict d kt vt hkt hvt).1 (hkeep.dict d kt vt hkt hvt).2 hf

theorem settled_of_fit (hf : (fit k t v).run h = some (w, g)) : Settled k t v h w g := by
  induction t using StaticType.induction generalizing v h w g with
  | step t ih =>
    cases fitting_of_fit hf with
    | plain hfits hadmits hw => exact ⟨.refl k t h, hfits, hadmits, hw.imp_right .inl⟩
    | array ht hws htyped =>
      rename_i e es a ws g
      have he : e ∈ t.elements := by simp [StaticType.elements, ht]
      obtain ⟨m, hfits⟩ := fitEach_settled (fun _ _ _ _ => ih e he) hws
      have hcell := (g.array_newArray { elements := ws.toArray, elementType := some e }
        ⟨g.arrays.size⟩).trans (if_pos rfl)
      have hmade : Holds k (g.newArray { elements := ws.toArray, elementType := some e }).2 t
          (.array ⟨g.arrays.size⟩) := by
        refine .array ht (by rw [hcell]) fun x hx =>
          (hfits x ?_).mono (g.extends_newArray _).keepsTypes
        rwa [Heap.items, hcell] at hx
      refine ⟨(m.mono (.element he .self)).trans (.addArray _ hmade), fun f hkeep =>
        ?_, fun hc => ?_, .inr (.inr hmade)⟩
      · exact htyped f _ (hkeep.array _ _ (by rw [hcell]))
      · exact .inl (by simp [StaticType.valueTag?, ht, hc.2.1, Value.tag])
    | dictionary ht hrun htyped =>
      rename_i kt vt d
      have hcell := (h.dict_newDict { keyType := some kt, valueType := some vt }
          ⟨h.dicts.size⟩).trans
        (if_pos rfl)
      obtain ⟨m, hk, hv⟩ := fitEntries_settled (fun e he _ _ _ _ => ih e he) ht (.addDict ht)
        (Nat.le_refl _) (congrArg DictCell.keyType hcell) (congrArg DictCell.valueType hcell) hrun
      obtain ⟨u, _, hmade⟩ := m.newDict _ (Nat.le_refl _) (Heap.lt_of_keyType hk)
      obtain _ | ⟨_, hk', hv', hes⟩ := hmade
      cases hk.symm.trans hk'
      cases hv.symm.trans hv'
      refine ⟨m, fun f hkeep => ?_, fun hc => ?_, .inr (.inr (.dictionary ht hk hv hes))⟩
      · exact htyped f _ (hkeep.dict _ _ _ hk hv).1 (hkeep.dict _ _ _ hk hv).2
      · exact .inl (by simp [StaticType.valueTag?, ht, hc.2.1, Value.tag])

/-- Fitting does all it does at once: what comes out fits as it is, it is of a kind that the type
admits, a container is the one given or a new one with the declared types and fitting contents, and
so are the containers that were made inside it. -/
theorem fit_of_fit (hf : (fit k t v).run h = some (w, h')) :
    (fit k t w).run h' = some (w, h') ∧ (t.IsChecked → t.Admits w.tag) ∧
      (w = v ∨ w.tag.isShared = false ∨ Holds k h' t w) ∧ Grown k t h h' := by
  have s := settled_of_fit hf
  exact ⟨s.fits (Heap.Extends.refl h').keepsTypes, s.admits, s.made, s.toGrown⟩

/-- An array in an array, of a text that becomes a name. -/
theorem fit_of_fit_nested :
    let name : StaticType := ⟨.builtin .stringName [], .explicit, false, false⟩
    let names : StaticType := ⟨.builtin .array [name], .explicit, false, false⟩
    let t : StaticType := ⟨.builtin .array [names], .explicit, false, false⟩
    let k : Kinship := ⟨fun _ _ => false, fun _ _ => false⟩
    let old : Heap := ⟨#[⟨#[.string "a"], none, true⟩, ⟨#[.array ⟨0⟩], none, true⟩], #[]⟩
    let new : Heap := ⟨old.arrays ++
      #[⟨#[.stringName "a"], some name, false⟩, ⟨#[.array ⟨2⟩], some names, false⟩], #[]⟩
    (fit k t (.array ⟨1⟩)).run old = some (.array ⟨3⟩, new) ∧
      (fit k t (.array ⟨3⟩)).run new = some (.array ⟨3⟩, new) ∧ Grown k t old new := by
  intro name names t k old new
  have hf : (fit k t (.array ⟨1⟩)).run old = some (.array ⟨3⟩, new) := by rfl
  exact ⟨hf, (fit_of_fit hf).1, (fit_of_fit hf).2.2.2⟩

end HotScript
