/-
  DataNexus.Lib.JsonValue — what a JSON text denotes in ECMAScript.

  An object lists its own properties in the order of `OrdinaryOwnPropertyKeys`: array indices by
  size, then the other keys as they were created. `define` is `CreateDataProperty`: it replaces
  a property where it stands and puts a new one where its key goes. `spread` is `{...v, k: w}`.

  - `ofMembers_ordered`, `ofMembers_self`: members make an ordered object, and an ordered object
    is made of its own members.
  - `Everywhere`: a property of values held by a value and by all inside it;
    `everywhere_define`: kept when a property is defined.
  - `plainZeros`: the value with every zero unsigned, which is how a text keeps it.
-/

import DataNexus.Lib.Double

namespace DataNexus.Lib

abbrev CodeUnits := List UInt16

/-- The code units of an ASCII literal. -/
def units (s : String) : CodeUnits := s.toList.map fun c => UInt16.ofNat c.toNat

inductive JsonValue where
  | null
  | boolean (value : Bool)
  | number (value : Number)
  | string (value : CodeUnits)
  | array (items : List JsonValue)
  | object (entries : List (CodeUnits × JsonValue))

namespace JsonValue

/-- The induction over values: an array has what its items have, an object what its values do. -/
theorem induction {P : JsonValue → Prop} (null : P null) (boolean : ∀ b, P (boolean b))
    (number : ∀ n, P (number n)) (string : ∀ s, P (string s))
    (array : ∀ items, (∀ v ∈ items, P v) → P (array items))
    (object : ∀ entries, (∀ e ∈ entries, P e.2) → P (object entries)) (v : JsonValue) : P v := by
  refine JsonValue.rec (motive_1 := P) (motive_2 := fun items => ∀ v ∈ items, P v)
    (motive_3 := fun entries => ∀ e ∈ entries, P e.2) (motive_4 := fun e => P e.2)
    null boolean number string array object ?_ ?_ ?_ ?_ ?_ v
  · simp
  · intro v items hv hitems w hw
    rcases List.mem_cons.mp hw with rfl | hw
    · exact hv
    · exact hitems w hw
  · simp
  · intro e entries he hentries f hf
    rcases List.mem_cons.mp hf with rfl | hf
    · exact he
    · exact hentries f hf
  · intro _ v hv
    exact hv

/-! ## Objects -/

/-- The index that a key is, where it is one. -/
def arrayIndex (key : CodeUnits) : Option ℕ :=
  let digits := key.map fun u => u.toNat - 48
  let index := Nat.ofDigits 10 digits.reverse
  if key ≠ [] ∧ key.all (fun u => 48 ≤ u.toNat && u.toNat ≤ 57) ∧ (digits.head? = some 0 → digits.length = 1) ∧
      index < 2 ^ 32 - 1
  then some index else none

/-- The first key is listed before the second whichever was created first. -/
def goesBefore (key key' : CodeUnits) : Bool :=
  match arrayIndex key, arrayIndex key' with
  | some i, some j => i < j
  | some _, none => true
  | none, _ => false

/-- `CreateDataProperty`. -/
def define (key : CodeUnits) (value : JsonValue) : List (CodeUnits × JsonValue) → List (CodeUnits × JsonValue)
  | [] => [(key, value)]
  | (key', value') :: entries =>
    if key' = key then (key, value) :: entries
    else if goesBefore key key' then (key, value) :: (key', value') :: entries
    else (key', value') :: define key value entries

/-- The properties of an object that is read with these members, a repeated key by its last. -/
def ofMembers (members : List (CodeUnits × JsonValue)) : List (CodeUnits × JsonValue) :=
  members.foldl (fun entries e => define e.1 e.2 entries) []

/-- Keys differ and stand where they go. -/
def Ordered (entries : List (CodeUnits × JsonValue)) : Prop :=
  entries.Pairwise fun e f => e.1 ≠ f.1 ∧ goesBefore f.1 e.1 = false

theorem mem_define {key : CodeUnits} {value : JsonValue} {entries : List (CodeUnits × JsonValue)}
    {e : CodeUnits × JsonValue} (h : e ∈ define key value entries) : e = (key, value) ∨ e ∈ entries := by
  induction entries with
  | nil => exact .inl (by simpa [define] using h)
  | cons f entries ih =>
    obtain ⟨key', value'⟩ := f
    rw [define] at h
    split_ifs at h
    · rcases List.mem_cons.mp h with rfl | hmem
      · exact .inl rfl
      · exact .inr (List.mem_cons_of_mem _ hmem)
    · rcases List.mem_cons.mp h with rfl | hmem
      · exact .inl rfl
      · exact .inr hmem
    · rcases List.mem_cons.mp h with rfl | hmem
      · exact .inr (by simp)
      · rcases ih hmem with rfl | hmem
        · exact .inl rfl
        · exact .inr (List.mem_cons_of_mem _ hmem)

/-- What goes before a key goes before all that does not. -/
theorem goesBefore_trans {a b c : CodeUnits} (hab : goesBefore a b = true) (hcb : goesBefore c b = false) :
    goesBefore c a = false := by
  unfold goesBefore at *
  cases ha : arrayIndex a <;> cases hb : arrayIndex b <;> cases hc : arrayIndex c <;> simp_all
  omega

theorem ordered_define {key : CodeUnits} {value : JsonValue} {entries : List (CodeUnits × JsonValue)}
    (h : Ordered entries) : Ordered (define key value entries) := by
  induction entries with
  | nil => simp [define, Ordered]
  | cons f entries ih =>
    obtain ⟨key', value'⟩ := f
    obtain ⟨hfirst, hrest⟩ := List.pairwise_cons.mp h
    rw [define]
    split_ifs with hsame hbefore
    · subst hsame
      exact List.pairwise_cons.mpr ⟨hfirst, hrest⟩
    · refine List.pairwise_cons.mpr ⟨?_, h⟩
      intro e he
      rcases List.mem_cons.mp he with rfl | he
      · exact ⟨fun heq => hsame heq.symm, goesBefore_trans hbefore (by simp [goesBefore]; split <;> simp_all)⟩
      · have hafter := (hfirst e he).2
        refine ⟨?_, goesBefore_trans hbefore hafter⟩
        rintro rfl
        rw [hbefore] at hafter
        exact absurd hafter (by simp)
    · refine List.pairwise_cons.mpr ⟨?_, ih hrest⟩
      intro e he
      rcases mem_define he with rfl | he
      · exact ⟨hsame, by simpa using hbefore⟩
      · exact hfirst e he

theorem ofMembers_ordered (members : List (CodeUnits × JsonValue)) : Ordered (ofMembers members) := by
  unfold ofMembers
  induction members using List.reverseRecOn with
  | nil => simp [Ordered]
  | append_singleton members e ih =>
    rw [List.foldl_append]
    exact ordered_define ih

theorem mem_ofMembers {members : List (CodeUnits × JsonValue)} {e : CodeUnits × JsonValue}
    (h : e ∈ ofMembers members) : e ∈ members := by
  unfold ofMembers at h
  induction members using List.reverseRecOn with
  | nil => cases h
  | append_singleton members f ih =>
    rw [List.foldl_append] at h
    rcases mem_define h with rfl | h
    · simp
    · exact List.mem_append_left _ (ih h)

theorem define_last {key : CodeUnits} {value : JsonValue} {entries : List (CodeUnits × JsonValue)}
    (h : ∀ e ∈ entries, e.1 ≠ key ∧ goesBefore key e.1 = false) :
    define key value entries = entries ++ [(key, value)] := by
  induction entries with
  | nil => rfl
  | cons f entries ih =>
    obtain ⟨key', value'⟩ := f
    obtain ⟨hne, hbefore⟩ := h (key', value') (by simp)
    have ih := ih fun e he => h e (List.mem_cons_of_mem _ he)
    rw [define, if_neg hne, if_neg (by simpa using hbefore), ih, List.cons_append]

/-- An ordered object is made of its own members. -/
theorem ofMembers_self {entries : List (CodeUnits × JsonValue)} (h : Ordered entries) :
    ofMembers entries = entries := by
  unfold ofMembers
  induction entries using List.reverseRecOn with
  | nil => rfl
  | append_singleton entries e ih =>
    obtain ⟨hinit, -, hlast⟩ := List.pairwise_append.mp h
    rw [List.foldl_append, ih hinit]
    exact define_last fun f hf => hlast f hf e (by simp)

/-! ## Properties -/

/-- The own property of a key; a key of no prototype otherwise reads as undefined. -/
def property (key : CodeUnits) : JsonValue → Option JsonValue
  | .object entries => entries.lookup key
  | _ => none

def isRecord : JsonValue → Bool
  | .object _ => true
  | _ => false

/-- `{...value, key: added}`. -/
def spread (v : JsonValue) (key : CodeUnits) (added : JsonValue) : JsonValue :=
  match v with
  | .object entries => .object (define key added entries)
  | v => v

theorem lookup_cons_if (key key' : CodeUnits) (value : JsonValue) (entries : List (CodeUnits × JsonValue)) :
    ((key, value) :: entries).lookup key' = if key' = key then some value else entries.lookup key' := by
  by_cases h : key' = key
  · simp [h]
  · have hne : (key' == key) = false := by simpa using h
    simp [List.lookup_cons, hne, h]

theorem lookup_define (key key' : CodeUnits) (value : JsonValue) (entries : List (CodeUnits × JsonValue)) :
    (define key value entries).lookup key' = if key' = key then some value else entries.lookup key' := by
  induction entries with
  | nil => exact lookup_cons_if key key' value []
  | cons f entries ih =>
    obtain ⟨other, value'⟩ := f
    by_cases hsame : other = key
    · subst hsame
      rw [define, if_pos rfl, lookup_cons_if, lookup_cons_if]
      by_cases hkey : key' = other
      · rw [if_pos hkey, if_pos hkey]
      · rw [if_neg hkey, if_neg hkey, if_neg hkey]
    by_cases hbefore : goesBefore key other
    · rw [define, if_neg hsame, if_pos hbefore, lookup_cons_if]
    · rw [define, if_neg hsame, if_neg hbefore, lookup_cons_if, ih, lookup_cons_if]
      by_cases hkey : key' = key
      · rw [if_pos hkey, if_pos hkey, if_neg]
        rw [hkey]
        exact fun h => hsame h.symm
      · rw [if_neg hkey, if_neg hkey]

/-- What `spread` leaves: the property it adds, and every other as it was. -/
theorem property_spread {v : JsonValue} (h : v.isRecord = true) (key key' : CodeUnits) (added : JsonValue) :
    (v.spread key added).property key' = if key' = key then some added else v.property key' := by
  cases v with
  | object entries => exact lookup_define key key' added entries
  | _ => cases h

/-! ## All values inside a value -/

mutual

def Everywhere (p : JsonValue → Prop) : JsonValue → Prop
  | .array items => p (.array items) ∧ EverywhereItems p items
  | .object entries => p (.object entries) ∧ EverywhereEntries p entries
  | v => p v

def EverywhereItems (p : JsonValue → Prop) : List JsonValue → Prop
  | [] => True
  | v :: items => Everywhere p v ∧ EverywhereItems p items

def EverywhereEntries (p : JsonValue → Prop) : List (CodeUnits × JsonValue) → Prop
  | [] => True
  | (_, v) :: entries => Everywhere p v ∧ EverywhereEntries p entries

end

variable {p : JsonValue → Prop}

theorem everywhereItems_iff {items : List JsonValue} : EverywhereItems p items ↔ ∀ v ∈ items, Everywhere p v := by
  induction items with
  | nil => simp [EverywhereItems]
  | cons v items ih => simp [EverywhereItems, ih]

theorem everywhereEntries_iff {entries : List (CodeUnits × JsonValue)} :
    EverywhereEntries p entries ↔ ∀ e ∈ entries, Everywhere p e.2 := by
  induction entries with
  | nil => simp [EverywhereEntries]
  | cons e entries ih => simp [EverywhereEntries, ih]

theorem everywhere_array {items : List JsonValue} :
    Everywhere p (.array items) ↔ p (.array items) ∧ ∀ v ∈ items, Everywhere p v := by
  rw [Everywhere, everywhereItems_iff]

theorem everywhere_object {entries : List (CodeUnits × JsonValue)} :
    Everywhere p (.object entries) ↔ p (.object entries) ∧ ∀ e ∈ entries, Everywhere p e.2 := by
  rw [Everywhere, everywhereEntries_iff]

theorem Everywhere.self {v : JsonValue} (h : Everywhere p v) : p v := by
  cases v with
  | array items => exact (everywhere_array.mp h).1
  | object entries => exact (everywhere_object.mp h).1
  | null | boolean _ | number _ | string _ => exact h

theorem Everywhere.property {v w : JsonValue} {key : CodeUnits} (h : Everywhere p v)
    (hw : v.property key = some w) : Everywhere p w := by
  cases v with
  | object entries =>
    obtain ⟨-, hentries⟩ := everywhere_object.mp h
    obtain ⟨l, r, heq, -⟩ := List.lookup_eq_some_iff.mp hw
    exact hentries (key, w) (by rw [heq]; simp)
  | null | boolean _ | number _ | string _ | array _ => cases hw

mutual

def decideEverywhere (p : JsonValue → Prop) [DecidablePred p] : (v : JsonValue) → Decidable (Everywhere p v)
  | .array items =>
    have := decideItems p items
    inferInstanceAs (Decidable (p (.array items) ∧ EverywhereItems p items))
  | .object entries =>
    have := decideEntries p entries
    inferInstanceAs (Decidable (p (.object entries) ∧ EverywhereEntries p entries))
  | .null => inferInstanceAs (Decidable (p .null))
  | .boolean b => inferInstanceAs (Decidable (p (.boolean b)))
  | .number n => inferInstanceAs (Decidable (p (.number n)))
  | .string s => inferInstanceAs (Decidable (p (.string s)))

def decideItems (p : JsonValue → Prop) [DecidablePred p] :
    (items : List JsonValue) → Decidable (EverywhereItems p items)
  | [] => .isTrue trivial
  | v :: items =>
    have := decideEverywhere p v
    have := decideItems p items
    inferInstanceAs (Decidable (Everywhere p v ∧ EverywhereItems p items))

def decideEntries (p : JsonValue → Prop) [DecidablePred p] :
    (entries : List (CodeUnits × JsonValue)) → Decidable (EverywhereEntries p entries)
  | [] => .isTrue trivial
  | (_, v) :: entries =>
    have := decideEverywhere p v
    have := decideEntries p entries
    inferInstanceAs (Decidable (Everywhere p v ∧ EverywhereEntries p entries))

end

instance [DecidablePred p] (v : JsonValue) : Decidable (Everywhere p v) := decideEverywhere p v

def NotInfinite : JsonValue → Prop
  | .number n => n.IsFinite
  | _ => True

instance : DecidablePred NotInfinite
  | .number n => inferInstanceAs (Decidable n.IsFinite)
  | .null | .boolean _ | .string _ | .array _ | .object _ => .isTrue trivial

/-- No number inside is infinite. -/
def Finite : JsonValue → Prop := Everywhere NotInfinite

instance (v : JsonValue) : Decidable v.Finite := inferInstanceAs (Decidable (Everywhere NotInfinite v))

/-- Every object inside is ordered. -/
def WellOrdered : JsonValue → Prop := Everywhere fun v => ∀ entries, v = .object entries → Ordered entries

theorem Finite.spread {v added : JsonValue} {key : CodeUnits} (h : v.Finite) (hadded : added.Finite) :
    (v.spread key added).Finite := by
  cases v with
  | object entries =>
    obtain ⟨-, hentries⟩ := everywhere_object.mp h
    refine everywhere_object.mpr ⟨trivial, ?_⟩
    intro e he
    rcases mem_define he with rfl | hmem
    · exact hadded
    · exact hentries e hmem
  | null | boolean _ | number _ | string _ | array _ => exact h

theorem WellOrdered.spread {v added : JsonValue} {key : CodeUnits} (h : v.WellOrdered) (hadded : added.WellOrdered) :
    (v.spread key added).WellOrdered := by
  cases v with
  | object entries =>
    obtain ⟨hself, hentries⟩ := everywhere_object.mp h
    refine everywhere_object.mpr ⟨?_, ?_⟩
    · intro entries' heq
      cases heq
      exact ordered_define (hself entries rfl)
    · intro e he
      rcases mem_define he with rfl | hmem
      · exact hadded
      · exact hentries e hmem
  | null | boolean _ | number _ | string _ | array _ => exact h

/-! ## Zeros -/

mutual

/-- The value with every zero unsigned. -/
def plainZeros : JsonValue → JsonValue
  | .number n => .number n.plainZero
  | .array items => .array (plainItems items)
  | .object entries => .object (plainEntries entries)
  | v => v

def plainItems : List JsonValue → List JsonValue
  | [] => []
  | v :: items => plainZeros v :: plainItems items

def plainEntries : List (CodeUnits × JsonValue) → List (CodeUnits × JsonValue)
  | [] => []
  | (key, v) :: entries => (key, plainZeros v) :: plainEntries entries

end

@[simp] theorem plainItems_eq (items : List JsonValue) : plainItems items = items.map plainZeros := by
  induction items with
  | nil => rfl
  | cons v items ih => rw [plainItems, ih, List.map_cons]

@[simp] theorem plainEntries_eq (entries : List (CodeUnits × JsonValue)) :
    plainEntries entries = entries.map fun e => (e.1, e.2.plainZeros) := by
  induction entries with
  | nil => rfl
  | cons e entries ih => rw [plainEntries, ih, List.map_cons]

@[simp] theorem plainZeros_array (items : List JsonValue) :
    (JsonValue.array items).plainZeros = .array (items.map plainZeros) := by
  rw [plainZeros, plainItems_eq]

@[simp] theorem plainZeros_object (entries : List (CodeUnits × JsonValue)) :
    (JsonValue.object entries).plainZeros = .object (entries.map fun e => (e.1, e.2.plainZeros)) := by
  rw [plainZeros, plainEntries_eq]

theorem property_plainZeros (v : JsonValue) (key : CodeUnits) :
    v.plainZeros.property key = (v.property key).map plainZeros := by
  cases v with
  | object entries =>
    rw [plainZeros_object]
    simp only [property]
    induction entries with
    | nil => rfl
    | cons e entries ih =>
      obtain ⟨other, w⟩ := e
      rw [List.map_cons, lookup_cons_if, lookup_cons_if, ih]
      split_ifs <;> rfl
  | array items =>
    rw [plainZeros_array]
    rfl
  | null | boolean _ | number _ | string _ => rfl

theorem Ordered.plain {entries : List (CodeUnits × JsonValue)} (h : Ordered entries) :
    Ordered (entries.map fun e => (e.1, e.2.plainZeros)) :=
  List.pairwise_map.mpr h

/-- No zero inside is signed. -/
def Unsigned : JsonValue → Prop := Everywhere fun v => v ≠ .number .negativeZero

theorem Unsigned.plainZeros {v : JsonValue} (h : v.Unsigned) : v.plainZeros = v := by
  induction v using JsonValue.induction with
  | null | boolean b | string s => rfl
  | number n =>
    cases n with
    | negativeZero => exact absurd rfl h
    | finite value isDouble => rfl
    | infinite negative => rfl
  | array items ih =>
    obtain ⟨-, hitems⟩ := everywhere_array.mp h
    rw [plainZeros_array]
    congr 1
    calc items.map JsonValue.plainZeros = items.map id := List.map_congr_left fun v hv => ih v hv (hitems v hv)
      _ = items := List.map_id items
  | object entries ih =>
    obtain ⟨-, hentries⟩ := everywhere_object.mp h
    rw [plainZeros_object]
    congr 1
    calc entries.map (fun e => (e.1, e.2.plainZeros)) = entries.map id :=
        List.map_congr_left fun e he => Prod.ext rfl (ih e he (hentries e he))
      _ = entries := List.map_id entries

end JsonValue

end DataNexus.Lib
