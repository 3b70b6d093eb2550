import HotScript.Analysis.Fold
import HotScript.Proofs.Value.Fitting
import HotScript.Value.Operator

/-!
Values that were folded.

A constant is folded into a type while a file is compiled, a value is fitted to it while the program
runs. Where every type inside is firm (`StaticType.Firm`) the two go in step (`Tracks`), but for the
marks that make the new containers read-only (`Heap.Sealed`).
-/

namespace HotScript

open Option (bind_eq_bind bind_eq_some_iff map_eq_some_iff)

variable {k : Kinship} {t u e kt vt : StaticType} {v w x y : Value} {h h' g g' f' : Heap} {f : Heap}
  {d : DictRef} {es : List StaticType} {p : Provenance} {r : Bool}

namespace Heap

def thawed (h : Heap) : Heap where
  arrays := h.arrays.map ({ · with readOnly := false })
  dicts := h.dicts.map ({ · with readOnly := false })

section

variable {a : ArrayRef} {x y : Value}

theorem array_thawed (h : Heap) (a : ArrayRef) :
    h.thawed.array a = { h.array a with readOnly := false } := by
  simp only [array, thawed, Array.getElem?_map]
  cases h.arrays[a.id]? <;> rfl

theorem dict_thawed (h : Heap) (d : DictRef) :
    h.thawed.dict d = { h.dict d with readOnly := false } := by
  simp only [dict, thawed, Array.getElem?_map]
  cases h.dicts[d.id]? <;> rfl

section

variable (hf : f.thawed = g.thawed)
include hf

theorem elements_eq (a : ArrayRef) : (f.array a).elements = (g.array a).elements ∧
      (f.array a).elementType = (g.array a).elementType := by
  have := (array_thawed f a).symm.trans ((congrArg (array · a) hf).trans (array_thawed g a))
  injections
  exact ⟨‹_›, ‹_›⟩

theorem entries_eq (d : DictRef) :
    f.entries d = g.entries d ∧ (f.dict d).keyType = (g.dict d).keyType ∧
      (f.dict d).valueType = (g.dict d).valueType := by
  have := (dict_thawed f d).symm.trans ((congrArg (dict · d) hf).trans (dict_thawed g d))
  injections
  exact ⟨‹_›, ‹_›, ‹_›⟩

theorem size_eq : f.arrays.size = g.arrays.size ∧ f.dicts.size = g.dicts.size := by
  have ha := congrArg (·.arrays.size) hf
  have hd := congrArg (·.dicts.size) hf
  simp only [thawed, Array.size_map] at ha hd
  exact ⟨ha, hd⟩

theorem equal_eq : f.equal = g.equal := by
  have hstep (n : Nat) (hn : ∀ m, n = m + 1 → f.equalWithin m = g.equalWithin m) (x y : Value) :
      f.equalWithin n x y = g.equalWithin n x y := by
    fun_cases f.equalWithin n x y <;> simp_all [equalWithin, items, elements_eq hf, entries_eq hf]
  have hw (n : Nat) : f.equalWithin n = g.equalWithin n := by
    induction n with
    | zero => exact funext fun x => funext (hstep 0 (by simp) x)
    | succ n ih => exact funext fun x => funext (hstep _ (by rintro _ ⟨⟩; exact ih) x)
  funext x y
  rw [equal, equal, hw, size, size, (size_eq hf).1, (size_eq hf).2]

theorem KeepsTypes.of_thawed : f.KeepsTypes g :=
  ⟨fun a _ ht => (elements_eq hf a).2 ▸ ht,
    fun d _ _ hk hv => ⟨(entries_eq hf d).2.1 ▸ hk, (entries_eq hf d).2.2 ▸ hv⟩⟩

theorem thawed_newArray (es : Array Value) (t : Option StaticType) (r r' : Bool) :
    (f.newArray ⟨es, t, r⟩).2.thawed = (g.newArray ⟨es, t, r'⟩).2.thawed := by
  simp_all [thawed, newArray]

theorem thawed_newDict (cell : DictCell) :
    (f.newDict cell).2.thawed = (g.newDict cell).2.thawed := by
  simp_all [thawed, newDict]

theorem thawed_setDict {c c' : DictCell}
    (hc : { c with readOnly := false } = { c' with readOnly := false }) :
    (f.setDict d c).thawed = (g.setDict d c').thawed := by
  simp_all [thawed, setDict]

end

theorem thawed_freezeDict (hlt : d.id < h.dicts.size) : (h.freezeDict d).thawed = h.thawed := by
  have hcell : h.dict d = h.dicts[d.id] := by simp [dict, hlt]
  have hself : h.setDict d (h.dict d) = h := by
    rw [hcell, setDict, Array.setIfInBounds_def, dif_pos hlt, Array.set_getElem_self]
  have hthaw : (h.freezeDict d).thawed = (h.setDict d (h.dict d)).thawed := thawed_setDict rfl rfl
  rw [hthaw, hself]

theorem insertDict_eq (hd : (h.dict d).readOnly = false) : (h.insertDict d x y).2 =
      h.setDict d { h.dict d with entries := putEntry h.equal x y (h.entries d) } := by
  simp [insertDict, hd, entries]

/-- A value whose containers record no types, at any depth. -/
inductive Untyped (h : Heap) : Value → Prop
  | scalar {v : Value} : v.tag ≠ .array → v.tag ≠ .dictionary → Untyped h v
  | array {a : ArrayRef} : a.id < h.arrays.size → (h.array a).elementType = none →
      (∀ x ∈ h.items a, Untyped h x) → Untyped h (.array a)
  | dictionary {d : DictRef} :
      d.id < h.dicts.size → (h.dict d).keyType = none → (h.dict d).valueType = none →
      (∀ e ∈ h.entries d, Untyped h e.1) → (∀ e ∈ h.entries d, Untyped h e.2) →
      Untyped h (.dictionary d)

theorem Untyped.mono (hv : h.Untyped v) (ex : h.Extends g) : g.Untyped v := by
  induction hv with
  | scalar ha hd => exact .scalar ha hd
  | array hlt ht _ ih =>
    obtain ⟨hlt, hc⟩ := ex.array _ hlt
    exact .array hlt (hc ▸ ht) (by rwa [items, hc])
  | dictionary hlt hk hv _ _ ih ih' =>
    obtain ⟨hlt, hc⟩ := ex.dict _ hlt
    exact .dictionary hlt (hc ▸ hk) (hc ▸ hv) (by rwa [entries, hc]) (by rwa [entries, hc])

/-- Where the type names what a container holds, the container is read-only and records that. -/
inductive Sealed (h : Heap) : StaticType → Value → Prop
  | array {t e : StaticType} {es} {a : ArrayRef} : t.shape = .builtin .array (e :: es) →
      (h.array a).readOnly = true →
      (h.array a).elementType = some e → (∀ x ∈ h.items a, Sealed h e x) → Sealed h t (.array a)
  | dictionary {t kt vt : StaticType} {d : DictRef} :
      t.shape = .builtin .dictionary [kt, vt] → (h.dict d).readOnly = true →
      (h.dict d).keyType = some kt → (h.dict d).valueType = some vt →
      (∀ e ∈ h.entries d, Sealed h kt e.1) → (∀ e ∈ h.entries d, Sealed h vt e.2) →
      Sealed h t (.dictionary d)
  | other {t : StaticType} {v : Value} : (∀ e es, t.shape ≠ .builtin .array (e :: es)) →
      (∀ kt vt, t.shape ≠ .builtin .dictionary [kt, vt]) → Sealed h t v

/-- Read-only cells stay as they are. -/
structure KeepsFrozen (h g : Heap) : Prop where
  array (a : ArrayRef) : (h.array a).readOnly = true → g.array a = h.array a
  dict (d : DictRef) : (h.dict d).readOnly = true → g.dict d = h.dict d

theorem Extends.keepsFrozen (ex : h.Extends g) : h.KeepsFrozen g where
  array a ha := by
    refine (ex.array a (Nat.lt_of_not_le fun hle => ?_)).2
    rw [Heap.array, Array.getElem?_eq_none hle] at ha
    cases ha
  dict d hd := by
    refine (ex.dict d (Nat.lt_of_not_le fun hle => ?_)).2
    rw [Heap.dict, Array.getElem?_eq_none hle] at hd
    cases hd

theorem KeepsFrozen.refl (h : Heap) : h.KeepsFrozen h := (Extends.refl h).keepsFrozen

theorem KeepsFrozen.trans {k : Heap} (hg : h.KeepsFrozen g) (hk : g.KeepsFrozen k) :
    h.KeepsFrozen k where
  array a ha := (hk.array a (hg.array a ha ▸ ha)).trans (hg.array a ha)
  dict d hd := (hk.dict d (hg.dict d hd ▸ hd)).trans (hg.dict d hd)

theorem keepsFrozen_setDict {cell : DictCell} (hd : (h.dict d).readOnly = true → cell = h.dict d) :
    h.KeepsFrozen (h.setDict d cell) where
  array _ _ := rfl
  dict c hc := by
    by_cases hlt : d.id < h.dicts.size
    · rw [dict_setDict hlt]
      split
      · next hid =>
        obtain rfl : c = d := by cases c; simp_all
        exact hd hc
      · rfl
    · rw [setDict, Array.setIfInBounds_eq_of_size_le (Nat.le_of_not_lt hlt)]

theorem keepsFrozen_insertDict (h : Heap) (d : DictRef) (x y : Value) :
    h.KeepsFrozen (h.insertDict d x y).2 := by
  rw [insertDict]
  split
  · exact .refl h
  · next hd => exact keepsFrozen_setDict fun hfrozen => absurd hfrozen hd

theorem keepsFrozen_freezeDict (h : Heap) (d : DictRef) : h.KeepsFrozen (h.freezeDict d) :=
  keepsFrozen_setDict fun hd => by rw [← hd]

theorem keepsFrozen_dictOf (h : Heap) (es : List (Value × Value)) (kt vt : Option StaticType) :
    h.KeepsFrozen (h.dictOf es kt vt).2 := by
  refine (extends_newDict h { keyType := kt, valueType := vt }).keepsFrozen.trans ?_
  refine List.foldlRecOn es _ (.refl _) fun g hg e _ => hg.trans ?_
  exact keepsFrozen_insertDict g _ _ _

theorem Sealed.mono (hw : h.Sealed t w) (hk : h.KeepsFrozen g) : g.Sealed t w := by
  induction hw with
  | array ht hr he _ ih =>
    have hc := hk.array _ hr
    exact .array ht (hc ▸ hr) (hc ▸ he) (by rwa [items, hc])
  | dictionary ht hr hkt hvt _ _ ih ih' =>
    have hc := hk.dict _ hr
    exact .dictionary ht (hc ▸ hr) (hc ▸ hkt) (hc ▸ hvt) (by rwa [entries, hc])
      (by rwa [entries, hc])
  | other ha hd => exact .other ha hd

end

/-! ### Read-only cells stay while constants are made -/

section

variable {h g : Heap} {v w b : Value}

/-- Making constants leaves read-only cells as they are. -/
def KeepsConstants (adapt : Value → Heap → Option (Value × Heap)) : Prop :=
  ∀ ⦃v h w g⦄, adapt v h = some (w, g) → h.KeepsFrozen g

theorem keepsFrozen_adaptEach {f : Value → Heap → Option (Value × Heap)} (hf : KeepsConstants f)
    {vs ws : List Value} (ha : adaptEach f vs h = some (ws, g)) : h.KeepsFrozen g := by
  induction vs generalizing h ws with
  | nil =>
    cases ha
    exact .refl _
  | cons v vs ih =>
    simp only [adaptEach, bind_eq_bind, bind_eq_some_iff] at ha
    obtain ⟨_, h1, _, h2, ha⟩ := ha
    cases ha
    exact (hf h1).trans (ih h2)

theorem keepsFrozen_adaptEntries {f f' : Value → Heap → Option (Value × Heap)}
    (hf : KeepsConstants f) (hf' : KeepsConstants f') {es : List (Value × Value)}
    (ha : adaptEntries f f' d es h = some g) : h.KeepsFrozen g := by
  induction es generalizing h with
  | nil =>
    cases ha
    exact .refl _
  | cons e es ih =>
    simp only [adaptEntries, bind_eq_bind, bind_eq_some_iff] at ha
    obtain ⟨_, h1, _, h2, ha⟩ := ha
    exact ((hf h1).trans (hf' h2)).trans ((keepsFrozen_insertDict ..).trans (ih ha))

theorem keepsFrozen_filled {f f' : Value → Heap → Option (Value × Heap)} (hf : KeepsConstants f)
    (hf' : KeepsConstants f') {cell : DictCell} {es : List (Value × Value)}
    (ha : adaptEntries f f' d es (h.newDict cell).2 = some g) : h.KeepsFrozen (g.freezeDict d) :=
  ((extends_newDict h cell).keepsFrozen.trans (keepsFrozen_adaptEntries hf hf' ha)).trans
    (keepsFrozen_freezeDict g d)

theorem keepsFrozen_widen {tag : Tag} : KeepsConstants (widen tag) := by
  intro v h w g ha
  rw [widen] at ha
  split at ha
  · cases ha
    exact .refl _
  · split at ha
    · obtain ⟨x, -, hx⟩ := map_eq_some_iff.1 ha
      cases hx
      exact .refl _
    · cases ha

theorem keepsFrozen_adapt (t : StaticType) : KeepsConstants (adapt t) := by
  induction t using StaticType.induction with
  | step t ih =>
    intro v h w g ha
    obtain ⟨shape, p, m, r⟩ := t
    rw [adapt] at ha
    split at ha
    · cases ha
      exact .refl _
    have hsame {x : Option (Value × Heap)} (hx : x = some (w, g)) (hh : ∀ y ∈ x, y.2 = h) :
        h.KeepsFrozen g :=
      hh _ hx ▸ .refl _
    cases shape with
    | builtin tag es =>
      cases tag with
      | array =>
        cases v with
        | array a =>
          cases es with
          | nil => exact hsame ha (by rintro _ ⟨⟩; rfl)
          | cons e es =>
            simp only [adaptShape] at ha
            split at ha
            · exact hsame ha (by rintro _ ⟨⟩; rfl)
            · simp only [bind_eq_bind, bind_eq_some_iff] at ha
              obtain ⟨_, h1, ha⟩ := ha
              cases ha
              exact (keepsFrozen_adaptEach (ih e (.head _)) h1).trans
                (extends_newArray ..).keepsFrozen
        | _ => cases ha
      | dictionary =>
        cases es with
        | nil => exact keepsFrozen_widen ha
        | cons k es =>
          cases v with
          | dictionary d =>
            cases es with
            | nil =>
              obtain ⟨h2, h1, ha⟩ := bind_eq_some_iff.1 ha
              cases ha
              exact keepsFrozen_filled (ih k (.head _)) (by rintro _ _ _ _ ⟨⟩; exact .refl _) h1
            | cons t es =>
              obtain ⟨h2, h1, ha⟩ := bind_eq_some_iff.1 ha
              cases ha
              exact keepsFrozen_filled (ih k (.head _)) (ih t (.tail _ (.head _))) h1
          | _ => cases ha
      | _ => exact keepsFrozen_widen ha
    | enum =>
      refine hsame ha fun y hy => ?_
      obtain ⟨i, -, rfl⟩ := map_eq_some_iff.1 hy
      rfl
    | native | script =>
      refine hsame ha fun y hy => ?_
      simp only [adaptShape] at hy
      split at hy <;> cases hy
      rfl
    | _ => exact hsame ha (by rintro _ ⟨⟩; rfl)

theorem keepsFrozen_foldCast (t : StaticType) : KeepsConstants (foldCast t) := by
  intro v h w g hc
  rw [foldCast] at hc
  split at hc
  case h_2 => exact keepsFrozen_adapt t hc
  case h_4 => cases hc
  all_goals
    obtain ⟨x, -, hx⟩ := map_eq_some_iff.1 hc
    cases hx
    exact .refl _

theorem keepsFrozen_result? {op : Operator} {valid : Callable → Bool} {a : Value}
    (hr : op.result? h valid a b = some (v, g)) : h.KeepsFrozen g := by
  have hpure {x : Option Value} (hx : x.map (·, h) = some (v, g)) : h.KeepsFrozen g := by
    obtain ⟨x, -, hx⟩ := map_eq_some_iff.1 hx
    cases hx
    exact .refl _
  rw [Operator.result?] at hr
  split at hr
  next =>
    unfold Operator.compute? at hr
    dsimp only at hr
    split at hr
    case h_7 =>
      split at hr
      · exact hpure hr
      · cases hr
        exact (extends_newArray ..).keepsFrozen
      · exact hpure hr
    case h_11 =>
      split at hr
      · exact hpure hr
      · exact hpure hr
    all_goals exact hpure hr
  next => cases hr

end

end Heap

/-- The type and those inside it are enforced and not types of classes, and containers name as many
types as they can hold. -/
def StaticType.Firm (t : StaticType) : Prop :=
  ∀ u, t.Has u → u.isHard = true ∧ u.isMeta = false ∧ match u.shape with
    | .builtin .array es => es.length ≤ 1
    | .builtin .dictionary es => es.length = 0 ∨ es.length = 2
    | _ => True

theorem StaticType.Firm.element (ht : t.Firm) (he : e ∈ t.elements) : e.Firm :=
  fun u hu => ht u (.element he hu)

/-- Folding into a type does in step what fitting does, and seals what it makes. -/
def Tracks (k : Kinship) (t : StaticType) : Prop :=
  ∀ ⦃v g w g' f⦄, Heap.adapt t v g = some (w, g') → f.thawed = g.thawed → g.Untyped v →
    g.Extends g' ∧ g'.Sealed t w ∧ ∃ f', (fit k t v).run f = some (w, f') ∧ f'.thawed = g'.thawed

theorem Tracks.each (s : Tracks k e) {vs ws : List Value}
    (ha : Heap.adaptEach (Heap.adapt e) vs g = some (ws, g')) (hf : f.thawed = g.thawed)
    (hvs : ∀ v ∈ vs, g.Untyped v) : g.Extends g' ∧ (∀ w ∈ ws, g'.Sealed e w) ∧
      ∃ f', (fitEach (fit k e) vs).run f = some (ws, f') ∧ f'.thawed = g'.thawed := by
  induction vs generalizing g ws f with
  | nil =>
    cases ha
    exact ⟨.refl g', by simp, f, rfl, hf⟩
  | cons v vs ih =>
    simp only [Heap.adaptEach, bind_eq_bind, bind_eq_some_iff] at ha
    obtain ⟨⟨w, g1⟩, hw, ⟨ws', g2⟩, hws, ha⟩ := ha
    cases ha
    obtain ⟨hv, hvs⟩ := List.forall_mem_cons.1 hvs
    obtain ⟨ex, hsealed, f1, hf1, hf⟩ := s hw hf hv
    obtain ⟨ex', hrest, f2, hf2, hf⟩ := ih hws hf fun v hv => (hvs v hv).mono ex
    refine ⟨ex.trans ex', List.forall_mem_cons.2 ⟨hsealed.mono ex'.keepsFrozen, hrest⟩, f2, ?_, hf⟩
    simp [fitEach, hf1, hf2]

/-- What both sides keep while they fill the dictionary `d`, which is new since `h`. -/
structure Filling (h g f : Heap) (kt vt : StaticType) (d : DictRef) : Prop where
  thawed : f.thawed = g.thawed
  ex : h.Extends g
  le : h.dicts.size ≤ d.id
  lt : d.id < g.dicts.size ∧ d.id < f.dicts.size
  writable : (g.dict d).readOnly = false ∧ (f.dict d).readOnly = false
  types : (g.dict d).keyType = some kt ∧ (g.dict d).valueType = some vt
  parts : ∀ e ∈ g.entries d, g.Sealed kt e.1 ∧ g.Sealed vt e.2

theorem Filling.start (hf : f.thawed = g.thawed) :
    Filling g (g.newDict { keyType := some kt, valueType := some vt }).2
      (f.newDict { keyType := some kt, valueType := some vt }).2 kt vt ⟨g.dicts.size⟩ := by
  have hs := (Heap.size_eq hf).2
  refine ⟨Heap.thawed_newDict hf _, g.extends_newDict _, Nat.le_refl _, ?_, ?_, ?_, ?_⟩
  · simp [Heap.newDict, hs]
  all_goals simp [Heap.entries, Heap.dict_newDict, hs]

theorem Filling.grow (m : Filling h g f kt vt d) (hg : g.Extends g') (hf : f.Extends f')
    (ht : f'.thawed = g'.thawed) : Filling h g' f' kt vt d := by
  obtain ⟨hgl, hgd⟩ := hg.dict d m.lt.1
  obtain ⟨hfl, hfd⟩ := hf.dict d m.lt.2
  refine ⟨ht, m.ex.trans hg, m.le, ⟨hgl, hfl⟩, hgd ▸ hfd ▸ m.writable, hgd ▸ m.types,
    fun e he => ?_⟩
  rw [Heap.entries, hgd] at he
  exact (m.parts e he).imp (·.mono hg.keepsFrozen) (·.mono hg.keepsFrozen)

theorem Filling.insert (m : Filling h g f kt vt d) (hx : g.Sealed kt x) (hy : g.Sealed vt y) :
    Filling h (g.insertDict d x y).2 (f.insertDict d x y).2 kt vt d := by
  rw [Heap.insertDict_eq m.writable.1, Heap.insertDict_eq m.writable.2]
  have hg := Heap.dict_setDict m.lt.1
    { g.dict d with entries := Heap.putEntry g.equal x y (g.entries d) } d
  have hf := Heap.dict_setDict m.lt.2
    { f.dict d with entries := Heap.putEntry f.equal x y (f.entries d) } d
  rw [if_pos rfl] at hg hf
  have hk := Heap.insertDict_eq m.writable.1 ▸ Heap.keepsFrozen_insertDict g d x y
  refine ⟨Heap.thawed_setDict m.thawed ?_, m.ex.setDict m.le m.lt.1 _, m.le, ?_, ?_, ?_, ?_⟩
  · simp [Heap.equal_eq m.thawed, Heap.entries_eq m.thawed d]
  · simpa [Heap.setDict] using m.lt
  · rw [hg, hf]
    exact m.writable
  · rw [hg]
    exact m.types
  · rw [Heap.entries, hg]
    exact Heap.mem_putEntry (fun o ho => (m.parts o ho).imp (·.mono hk) (·.mono hk)) (hx.mono hk)
      (hy.mono hk)

theorem Tracks.entries (hk : Tracks k kt) (hv : Tracks k vt) {es : List (Value × Value)}
    (m : Filling h g f kt vt d) (ha : Heap.adaptEntries (Heap.adapt kt) (Heap.adapt vt)
      d es g = some g')
    (hes : ∀ e ∈ es, h.Untyped e.1 ∧ h.Untyped e.2) :
    ∃ f', (fitEntries (fit k kt) (fit k vt) d es).run f = some ((), f') ∧
    Filling h g' f' kt vt d := by
  induction es generalizing g f with
  | nil =>
    cases ha
    exact ⟨f, rfl, m⟩
  | cons e es ih =>
    simp only [Heap.adaptEntries, bind_eq_bind, bind_eq_some_iff] at ha
    obtain ⟨⟨x, g1⟩, hx, ⟨y, g2⟩, hy, ha⟩ := ha
    obtain ⟨he, hes⟩ := List.forall_mem_cons.1 hes
    obtain ⟨ex, hsx, f1, hf1, hf⟩ := hk hx m.thawed (he.1.mono m.ex)
    have m1 := m.grow ex (settled_of_fit hf1).toExtends hf
    obtain ⟨ex', hsy, f2, hf2, hf⟩ := hv hy hf (he.2.mono m1.ex)
    have m2 := m1.grow ex' (settled_of_fit hf2).toExtends hf
    obtain ⟨f', hf', m'⟩ := ih (m2.insert (hsx.mono ex'.keepsFrozen) hsy) ha hes
    refine ⟨f', ?_, m'⟩
    simp [fitEntries, hf1, hf2, hf']

theorem fit_of_widen {tag : Tag} (hp : p.isEnforced = true) (ha : tag = .array → es = [])
    (hd : tag = .dictionary → es = []) (hw : Heap.widen tag v g = some (w, g')) :
    g' = g ∧ (fit k ⟨.builtin tag es, p, false, r⟩ v).run f = some (w, f) := by
  have hconv (hw : v.tag.widensTo tag = true) : f.convert v tag = g.convert v tag := by
    cases v <;> cases tag <;> simp [Tag.widensTo, Value.tag] at hw <;> rfl
  unfold fit
  rw [Heap.widen] at hw
  split at hw
  · split <;> simp_all
  · split at hw
    · obtain ⟨x, hx, hw⟩ := map_eq_some_iff.1 hw
      simp_all
    · cases hw

theorem Tracks.array (s : Tracks k e) (hp : p.isEnforced = true) :
    Tracks k ⟨.builtin .array (e :: es), p, false, r⟩ := by
  intro v g w g' f ha hf hv
  rw [Heap.adapt, Heap.adaptShape.eq_def] at ha
  cases hv with
  | scalar hv _ => cases v <;> simp_all [Value.tag]
  | dictionary => cases ha
  | array hlt hty hvs =>
    rename_i a
    simp only [hty, Option.any_none, Bool.false_eq_true, if_false, bind_eq_bind,
      bind_eq_some_iff] at ha
    obtain ⟨⟨ws, g1⟩, hws, ha⟩ := ha
    cases ha
    obtain ⟨ex, hparts, f1, hf1, hf'⟩ := s.each hws hf hvs
    have hfa := Heap.elements_eq hf a
    have hnew := g1.extends_newArray
        { elements := ws.toArray, elementType := some e, readOnly := true }
    have hcell := (g1.array_newArray
        { elements := ws.toArray, elementType := some e, readOnly := true }
      ⟨g1.arrays.size⟩).trans (if_pos rfl)
    refine ⟨ex.trans hnew, .array rfl ?_ ?_ ?_, _, ?_, Heap.thawed_newArray hf' ws.toArray (some e)
      false true⟩
    · exact congrArg ArrayCell.readOnly hcell
    · exact congrArg ArrayCell.elementType hcell
    · intro x hx
      have hx : x ∈ ws := (congrArg (x ∈ ·.elements.toList) hcell).mp hx
      exact (hparts x hx).mono hnew.keepsFrozen
    · rw [Heap.items, ← hfa.1] at hf1
      unfold fit
      simp [hp, fitArray, hfa.2, hty, hf1, Heap.newArray, (Heap.size_eq hf').1]

theorem Tracks.dictionary (sk : Tracks k kt) (sv : Tracks k vt) (hp : p.isEnforced = true) :
    Tracks k ⟨.builtin .dictionary [kt, vt], p, false, r⟩ := by
  intro v g w g' f ha hf hv
  rw [Heap.adapt, if_neg (by simp), Heap.adaptShape.eq_def] at ha
  cases hv with
  | scalar _ hv => cases v <;> simp_all [Value.tag]
  | array => cases ha
  | dictionary hlt hkt hvt hks hvs =>
    rename_i d
    simp only [bind_eq_bind, bind_eq_some_iff] at ha
    obtain ⟨g1, hes, ha⟩ := ha
    cases ha
    obtain ⟨hfe, hfk, hfv⟩ := Heap.entries_eq hf d
    obtain ⟨f1, hf1, m⟩ := Tracks.entries sk sv (.start hf) hes fun x hx => ⟨hks x hx, hvs x hx⟩
    refine ⟨m.ex.setDict m.le m.lt.1 _, ?_, f1, ?_,
      (m.thawed.trans (Heap.thawed_freezeDict m.lt.1).symm)⟩
    · have hcell := (Heap.dict_setDict m.lt.1 { g1.dict ⟨g.dicts.size⟩ with readOnly := true }
        ⟨g.dicts.size⟩).trans (if_pos rfl)
      have hkeep := Heap.keepsFrozen_freezeDict g1 ⟨g.dicts.size⟩
      refine .dictionary rfl (congrArg DictCell.readOnly hcell)
        ((congrArg DictCell.keyType hcell).trans m.types.1)
        ((congrArg DictCell.valueType hcell).trans m.types.2) (fun x hx => ?_) (fun x hx => ?_)
      · exact (m.parts x ((congrArg (x ∈ ·.entries) hcell).mp hx)).1.mono hkeep
      · exact (m.parts x ((congrArg (x ∈ ·.entries) hcell).mp hx)).2.mono hkeep
    · unfold fit
      rw [← (Heap.size_eq hf).2, ← hfe] at hf1
      simp [hp, fitDict, hfk, hfv, hkt, hvt]
      exact ⟨⟨(), hf1⟩, congrArg DictRef.mk (Heap.size_eq hf).2⟩

theorem tracks (k : Kinship) (ht : t.Firm) : Tracks k t := by
  induction t using StaticType.induction with
  | step t ih =>
    intro v g w g' f ha hf hv
    have ih e (he : e ∈ t.elements) := ih e he (ht.element he)
    obtain ⟨hh, hm, hs⟩ := ht t .self
    obtain ⟨shape, p, m, r⟩ := t
    obtain rfl : m = false := hm
    have hp : p.isEnforced = true := (Bool.and_eq_true _ _ ▸ hh).1
    by_cases harr : ∃ e es, shape = .builtin .array (e :: es)
    · obtain ⟨e, es, rfl⟩ := harr
      exact (ih e (by simp [StaticType.elements])).array hp ha hf hv
    by_cases hdict : ∃ kt vt, shape = .builtin .dictionary [kt, vt]
    · obtain ⟨kt, vt, rfl⟩ := hdict
      exact (ih kt (by simp [StaticType.elements])).dictionary
        (ih vt (by simp [StaticType.elements])) hp ha hf hv
    suffices hplain : g' = g ∧ (fit k ⟨shape, p, false, r⟩ v).run f = some (w, f) by
      obtain ⟨rfl, hw⟩ := hplain
      exact ⟨.refl _, .other (by simp_all) (by simp_all), f, hw, hf⟩
    cases shape with
    | variant =>
      cases ha
      exact ⟨rfl, by simp [fit, hp]⟩
    | unresolved | resolving => simp [StaticType.isHard, StaticType.isSet] at hh
    | native c | script c | enum n o vs =>
      cases v <;> cases ha
      exact ⟨rfl, by simp [fit, hp]⟩
    | builtin tag es =>
      have hempty : (tag = .array → es = []) ∧ (tag = .dictionary → es = []) := by
        constructor
        · cases es <;> simp_all
        · rintro rfl
          rcases es with _ | ⟨kt, _ | ⟨vt, _ | _⟩⟩ <;> simp_all
      refine fit_of_widen hp hempty.1 hempty.2 ?_
      cases tag with
      | array =>
        obtain rfl := hempty.1 rfl
        cases v <;> cases ha
        rfl
      | dictionary =>
        obtain rfl := hempty.2 rfl
        exact ha
      | _ => exact ha

/-- Folding a constant into a firm type comes to what fitting it would, but for the read-only marks,
and what it gives fits as it is and is sealed. -/
theorem fit_of_adapt (ht : t.Firm) (hv : h.Untyped v) (ha : Heap.adapt t v h = some (w, h')) :
    (∃ g, (fit k t v).run h = some (w, g) ∧ g.thawed = h'.thawed) ∧
      (fit k t w).run h' = some (w, h') ∧ h'.Sealed t w := by
  obtain ⟨-, hsealed, g, hg, hthawed⟩ := tracks k ht ha rfl hv
  exact ⟨⟨g, hg, hthawed⟩, (settled_of_fit hg).fits (.of_thawed hthawed), hsealed⟩

/-- A dictionary of texts becomes one of names. -/
theorem fit_of_adapt_names :
    let name : StaticType := ⟨.builtin .stringName [], .explicit, false, false⟩
    let t : StaticType := ⟨.builtin .dictionary [name, name], .explicit, false, false⟩
    let k : Kinship := ⟨fun _ _ => false, fun _ _ => false⟩
    let old : Heap := ⟨#[], #[⟨[(.string "a", .string "b")], none, none, true⟩]⟩
    let new : Heap := ⟨#[], old.dicts ++
      #[⟨[(.stringName "a", .stringName "b")], some name, some name, true⟩]⟩
    Heap.adapt t (.dictionary ⟨0⟩) old = some (.dictionary ⟨1⟩, new) ∧
      (fit k t (.dictionary ⟨1⟩)).run new = some (.dictionary ⟨1⟩, new) ∧
      new.Sealed t (.dictionary ⟨1⟩) := by
  intro name t k old new
  have ha : Heap.adapt t (.dictionary ⟨0⟩) old = some (.dictionary ⟨1⟩, new) := by rfl
  have hfirm : t.Firm := by
    rintro u (_ | ⟨he, _ | ⟨he', _⟩⟩)
    · exact ⟨rfl, rfl, .inr rfl⟩
    · obtain rfl : u = name := by simpa [t, StaticType.elements] using he
      exact ⟨rfl, rfl, trivial⟩
    · simp_all [t, name, StaticType.elements]
  have hv : old.Untyped (.dictionary ⟨0⟩) := by
    refine .dictionary (by decide) rfl rfl ?_ ?_ <;>
      simp only [Heap.entries, Heap.dict, old] <;> simp <;> exact .scalar (by decide) (by decide)
  exact ⟨ha, (fit_of_adapt hfirm hv ha).2⟩

/-- An array of classes is folded from any values, which do not fit it. -/
theorem adapt_class_array :
    let node : StaticType := ⟨.native "Node", .explicit, true, false⟩
    let t : StaticType := ⟨.builtin .array [node], .explicit, false, false⟩
    let h : Heap := ⟨#[⟨#[.int 1], none, true⟩], #[]⟩
    h.Untyped (.array ⟨0⟩) ∧ (∀ u, t.Has u → u.isHard = true) ∧
      (Heap.adapt t (.array ⟨0⟩) h).isSome = true ∧
      ∀ k : Kinship, (fit k t (.array ⟨0⟩)).run h = none := by
  refine ⟨.array (by decide) rfl ?_, ?_, rfl, fun _ => rfl⟩
  · simp only [Heap.items, Heap.array]
    simp
    exact .scalar (by decide) (by decide)
  · rintro u (_ | ⟨he, _ | ⟨he', _⟩⟩)
    · rfl
    all_goals obtain rfl : _ = _ := List.mem_singleton.1 he
    · rfl
    · cases he'

end HotScript
