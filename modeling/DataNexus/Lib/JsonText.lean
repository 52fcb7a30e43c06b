/-
  DataNexus.Lib.JsonText — `JSON.parse` and `JSON.stringify`.

  `stringify` writes a value without spaces, the properties of an object in their order, a
  surrogate of no pair escaped. `parse` is the grammar by recursive descent. Its fuel bounds the
  depth of the calls: a call takes a unit of the text or hands on to one that does
  (`readValue_fuel`: more fuel than two for each unit changes nothing).

  - `parse_stringify`: a finite value with ordered objects is read back, its zeros unsigned.
  - `parse_wellOrdered`: the objects of what is read are ordered.
-/

import DataNexus.Lib.JsonValue
import DataNexus.Lib.NumberText

namespace DataNexus.Lib

open JsonValue

/-! ## Strings -/

def isHigh (u : UInt16) : Bool := 0xD800 ≤ u.toNat && u.toNat ≤ 0xDBFF

def isLow (u : UInt16) : Bool := 0xDC00 ≤ u.toNat && u.toNat ≤ 0xDFFF

def hexUnit (d : ℕ) : UInt16 := UInt16.ofNat (if d < 10 then 48 + d else 87 + d)

def hexValue (u : UInt16) : Option ℕ :=
  if isDigit u then some (u.toNat - 48)
  else if 97 ≤ u.toNat ∧ u.toNat ≤ 102 then some (u.toNat - 87)
  else if 65 ≤ u.toNat ∧ u.toNat ≤ 70 then some (u.toNat - 55)
  else none

theorem hexValue_hexUnit {d : ℕ} (h : d < 16) : hexValue (hexUnit d) = some d := by
  have hall : ∀ d : Fin 16, hexValue (hexUnit d) = some d.1 := by decide
  exact hall ⟨d, h⟩

/-- The units with an escape of their own, and what is written for them. -/
def shortEscapes : List (UInt16 × UInt16) :=
  [(8, unit 'b'), (9, unit 't'), (10, unit 'n'), (12, unit 'f'), (13, unit 'r'), (unit '"', unit '"'),
    (unit '\\', unit '\\')]

/-- One unit that is not half of a pair. -/
def quoteUnit (u : UInt16) : List UInt16 :=
  match shortEscapes.lookup u with
  | some e => [unit '\\', e]
  | none =>
    if u.toNat < 32 ∨ isHigh u ∨ isLow u then
      [unit '\\', unit 'u', hexUnit (u.toNat / 4096), hexUnit (u.toNat / 256 % 16), hexUnit (u.toNat / 16 % 16),
        hexUnit (u.toNat % 16)]
    else [u]

def quoteUnits : CodeUnits → CodeUnits
  | [] => []
  | [u] => quoteUnit u
  | u :: v :: rest =>
    if isHigh u && isLow v then u :: v :: quoteUnits rest else quoteUnit u ++ quoteUnits (v :: rest)

def quote (s : CodeUnits) : CodeUnits := unit '"' :: (quoteUnits s ++ [unit '"'])

/-- What the short escapes are read as, with the one that is never written. -/
def unescape (e : UInt16) : Option UInt16 :=
  if e = unit '/' then some (unit '/') else (shortEscapes.map fun p => (p.2, p.1)).lookup e

def consFirst {α : Type} (a : α) (read : List α × CodeUnits) : List α × CodeUnits := (a :: read.1, read.2)

/-- The string up to its closing quote, and the rest of the text. -/
def readString : CodeUnits → Option (CodeUnits × CodeUnits)
  | [] => none
  | u :: rest =>
    if u = unit '"' then some ([], rest)
    else if u = unit '\\' then
      match rest with
      | [] => none
      | e :: rest =>
        if e = unit 'u' then
          match rest with
          | a :: b :: c :: d :: rest =>
            match hexValue a, hexValue b, hexValue c, hexValue d with
            | some a, some b, some c, some d =>
              (readString rest).map (consFirst (UInt16.ofNat (a * 4096 + b * 256 + c * 16 + d)))
            | _, _, _, _ => none
          | _ => none
        else
          match unescape e with
          | some x => (readString rest).map (consFirst x)
          | none => none
    else if u.toNat < 32 then none
    else (readString rest).map (consFirst u)

theorem readString_plain {u : UInt16} (h : 32 ≤ u.toNat) (hquote : u ≠ unit '"') (hslash : u ≠ unit '\\')
    (rest : CodeUnits) :
    readString (u :: rest) = (readString rest).map (consFirst u) := by
  rw [readString.eq_def]
  simp only [hquote, hslash, if_false, h.not_gt]

theorem readString_hex (u : UInt16) (rest : CodeUnits) :
    readString ([unit '\\', unit 'u', hexUnit (u.toNat / 4096), hexUnit (u.toNat / 256 % 16),
      hexUnit (u.toNat / 16 % 16), hexUnit (u.toNat % 16)] ++ rest) =
    (readString rest).map (consFirst u) := by
  have hbound := u.toNat_lt
  have hvalue : u.toNat / 4096 * 4096 + u.toNat / 256 % 16 * 256 + u.toNat / 16 % 16 * 16 + u.toNat % 16 =
      u.toNat := by omega
  have hslash : unit '\\' ≠ unit '"' := by decide
  rw [List.cons_append, List.cons_append, readString.eq_def]
  simp only [hslash, if_true, if_false, List.cons_append, List.nil_append]
  rw [hexValue_hexUnit (by omega), hexValue_hexUnit (by omega), hexValue_hexUnit (by omega),
    hexValue_hexUnit (by omega)]
  simp only [hvalue, UInt16.ofNat_toNat]

theorem readString_short {u e : UInt16} (h : (u, e) ∈ shortEscapes) (rest : CodeUnits) :
    readString (unit '\\' :: e :: rest) = (readString rest).map (consFirst u) := by
  have hslash : unit '\\' ≠ unit '"' := by decide
  obtain ⟨hne, hread⟩ : e ≠ unit 'u' ∧ unescape e = some u := by
    simp only [shortEscapes, List.mem_cons, Prod.mk.injEq, List.not_mem_nil, or_false] at h
    rcases h with ⟨rfl, rfl⟩ | ⟨rfl, rfl⟩ | ⟨rfl, rfl⟩ | ⟨rfl, rfl⟩ | ⟨rfl, rfl⟩ | ⟨rfl, rfl⟩ | ⟨rfl, rfl⟩ <;>
      exact ⟨by decide, by decide⟩
  rw [readString.eq_def]
  simp only [hslash, if_true, if_false, hne, hread]

/-- A unit is read back as it was quoted. -/
theorem readString_quoteUnit (u : UInt16) (rest : CodeUnits) :
    readString (quoteUnit u ++ rest) = (readString rest).map (consFirst u) := by
  unfold quoteUnit
  cases hlookup : shortEscapes.lookup u with
  | some e =>
    obtain ⟨l, r, heq, -⟩ := List.lookup_eq_some_iff.mp hlookup
    exact readString_short (by rw [heq]; simp) rest
  | none =>
    have hnone := List.lookup_eq_none_iff.mp hlookup
    dsimp only
    split_ifs with hescaped
    · exact readString_hex u rest
    · rw [not_or, not_lt] at hescaped
      refine readString_plain hescaped.1 ?_ ?_ rest
      · rintro rfl
        exact absurd (hnone (unit '"', unit '"') (by decide)) (by decide)
      · rintro rfl
        exact absurd (hnone (unit '\\', unit '\\') (by decide)) (by decide)

theorem surrogate_plain {u : UInt16} (h : isHigh u = true ∨ isLow u = true) :
    32 ≤ u.toNat ∧ u ≠ unit '"' ∧ u ≠ unit '\\' := by
  have hlarge : 0xD800 ≤ u.toNat := by
    rcases h with h | h
    · simp only [isHigh, Bool.and_eq_true, decide_eq_true_eq] at h
      exact h.1
    · simp only [isLow, Bool.and_eq_true, decide_eq_true_eq] at h
      omega
  refine ⟨by omega, ?_, ?_⟩
  · rintro rfl
    exact absurd hlarge (by decide)
  · rintro rfl
    exact absurd hlarge (by decide)

theorem readString_quoteUnits (s rest : CodeUnits) :
    readString (quoteUnits s ++ unit '"' :: rest) = some (s, rest) := by
  have hclose : readString (unit '"' :: rest) = some ([], rest) := by
    rw [readString.eq_def]
    simp
  induction s using quoteUnits.induct with
  | case1 => exact hclose
  | case2 u =>
    rw [quoteUnits, readString_quoteUnit, hclose]
    rfl
  | case3 u v s hpair ih =>
    obtain ⟨hu, hv⟩ := Bool.and_eq_true_iff.mp hpair
    obtain ⟨hu₁, hu₂, hu₃⟩ := surrogate_plain (.inl hu)
    obtain ⟨hv₁, hv₂, hv₃⟩ := surrogate_plain (.inr hv)
    rw [quoteUnits, if_pos hpair, List.cons_append, List.cons_append, readString_plain hu₁ hu₂ hu₃,
      readString_plain hv₁ hv₂ hv₃, ih]
    rfl
  | case4 u v s hpair ih =>
    rw [quoteUnits, if_neg hpair, List.append_assoc, readString_quoteUnit, ih]
    rfl

/-! ## Values -/

/-- The texts of some members up to the closing bracket. -/
def joined (close : UInt16) : List CodeUnits → CodeUnits
  | [] => [close]
  | [t] => t ++ [close]
  | t :: u :: ts => t ++ unit ',' :: joined close (u :: ts)

section Stringify

variable (engine : Shortest)

mutual

def stringify : JsonValue → CodeUnits
  | .null => units "null"
  | .boolean true => units "true"
  | .boolean false => units "false"
  | .number n => numberText engine n
  | .string s => quote s
  | .array items => unit '[' :: joined (unit ']') (itemTexts items)
  | .object entries => unit '{' :: joined (unit '}') (entryTexts entries)

def itemTexts : List JsonValue → List CodeUnits
  | [] => []
  | v :: items => stringify v :: itemTexts items

def entryTexts : List (CodeUnits × JsonValue) → List CodeUnits
  | [] => []
  | (key, v) :: entries => (quote key ++ unit ':' :: stringify v) :: entryTexts entries

end

@[simp] theorem itemTexts_eq (items : List JsonValue) : itemTexts engine items = items.map (stringify engine) := by
  induction items with
  | nil => rfl
  | cons v items ih => rw [itemTexts, ih, List.map_cons]

def entryText (e : CodeUnits × JsonValue) : CodeUnits := quote e.1 ++ unit ':' :: stringify engine e.2

@[simp] theorem entryTexts_eq (entries : List (CodeUnits × JsonValue)) :
    entryTexts engine entries = entries.map (entryText engine) := by
  induction entries with
  | nil => rfl
  | cons e entries ih =>
    rw [entryTexts, ih, List.map_cons]
    rfl

end Stringify

def isSpace (u : UInt16) : Bool := u = unit ' ' || u = 9 || u = 10 || u = 13

def skipSpace (text : CodeUnits) : CodeUnits := text.dropWhile isSpace

/-- The value of a keyword that the text goes on with. -/
def readKeyword (keyword : String) (value : JsonValue) (text : CodeUnits) : Option (JsonValue × CodeUnits) :=
  if (units keyword).isPrefixOf text then some (value, text.drop (units keyword).length) else none

/-- One member of an array or an object is read: more of them come, or the bracket that closes it. -/
def closing {α : Type} (close : UInt16) (more : CodeUnits → Option (List α × CodeUnits)) (a : α)
    (text : CodeUnits) : Option (List α × CodeUnits) :=
  match skipSpace text with
  | [] => none
  | u :: rest =>
    if u = unit ',' then (more rest).map (consFirst a)
    else if u = close then some ([a], rest)
    else none

mutual

def readValue : ℕ → CodeUnits → Option (JsonValue × CodeUnits)
  | 0, _ => none
  | fuel + 1, text =>
    match skipSpace text with
    | [] => none
    | u :: rest =>
      if u = unit '"' then (readString rest).map fun (s, rest) => (.string s, rest)
      else if u = unit '[' then
        if (skipSpace rest).head? = some (unit ']') then some (.array [], (skipSpace rest).tail)
        else (readItems fuel rest).map fun (items, rest) => (.array items, rest)
      else if u = unit '{' then
        if (skipSpace rest).head? = some (unit '}') then some (.object [], (skipSpace rest).tail)
        else (readMembers fuel rest).map fun (members, rest) => (.object (ofMembers members), rest)
      else if u = unit 'n' then readKeyword "null" .null (u :: rest)
      else if u = unit 't' then readKeyword "true" (.boolean true) (u :: rest)
      else if u = unit 'f' then readKeyword "false" (.boolean false) (u :: rest)
      else (readNumber (u :: rest)).map fun (n, rest) => (.number n, rest)

/-- The items of an array from one on, and its closing bracket. -/
def readItems : ℕ → CodeUnits → Option (List JsonValue × CodeUnits)
  | 0, _ => none
  | fuel + 1, text => do
    let (v, text) ← readValue fuel text
    closing (unit ']') (fun rest => readItems fuel rest) v text

def readMembers : ℕ → CodeUnits → Option (List (CodeUnits × JsonValue) × CodeUnits)
  | 0, _ => none
  | fuel + 1, text =>
    if (skipSpace text).head? = some (unit '"') then do
      let (key, text) ← readString (skipSpace text).tail
      if (skipSpace text).head? = some (unit ':') then do
        let (v, text) ← readValue fuel (skipSpace text).tail
        closing (unit '}') (fun rest => readMembers fuel rest) (key, v) text
      else none
    else none

end

def parse (text : CodeUnits) : Option JsonValue := do
  let (v, rest) ← readValue (2 * text.length + 1) text
  if skipSpace rest = [] then some v else none

/-! ## Reading what was written -/

theorem stops_of {u : UInt16} (h : u = unit ',' ∨ u = unit ']' ∨ u = unit '}') (rest : CodeUnits) :
    Stops (u :: rest) := by
  intro w hw
  obtain rfl : u = w := by simpa using hw
  rcases h with rfl | rfl | rfl <;> decide

theorem skipSpace_cons {u : UInt16} (h : isSpace u = false) (rest : CodeUnits) :
    skipSpace (u :: rest) = u :: rest := by
  simp [skipSpace, h]

/-- No text of a value starts with a space or closes what it is in. -/
def Starts (u : UInt16) : Prop := isSpace u = false ∧ u ≠ unit ']' ∧ u ≠ unit '}'

instance (u : UInt16) : Decidable (Starts u) := by
  unfold Starts
  infer_instance

/-- A unit that a number starts with starts nothing else. -/
def StartsNumber (u : UInt16) : Prop :=
  Starts u ∧ u ≠ unit '"' ∧ u ≠ unit '[' ∧ u ≠ unit '{' ∧ u ≠ unit 'n' ∧ u ≠ unit 't' ∧ u ≠ unit 'f'

instance (u : UInt16) : Decidable (StartsNumber u) := by
  unfold StartsNumber
  infer_instance

theorem startsNumber_digit {d : ℕ} (h : d < 10) : StartsNumber (digitUnit d) := by
  have hall : ∀ d : Fin 10, StartsNumber (digitUnit d) := by decide
  exact hall ⟨d, h⟩

theorem numeral_text_head {n : Numeral} (hn : n.WellFormed) : ∃ u t, n.text = u :: t ∧ StartsNumber u := by
  obtain ⟨negative, whole, fraction, exponent⟩ := n
  cases negative with
  | true => exact ⟨unit '-', _, rfl, by decide⟩
  | false =>
    cases whole with
    | nil => exact absurd rfl hn.whole_some
    | cons d ds => exact ⟨digitUnit d, _, rfl, startsNumber_digit (hn.whole_digits d (by simp))⟩

theorem numberText_head (engine : Shortest) {n : Number} (hn : n.IsFinite) :
    ∃ u t, numberText engine n = u :: t ∧ StartsNumber u := by
  cases n with
  | infinite negative => exact absurd hn (by simp [Number.IsFinite])
  | negativeZero => exact ⟨unit '0', [], rfl, by decide⟩
  | finite value isDouble =>
    by_cases hzero : value = 0
    · exact ⟨unit '0', [], by simp [numberText, hzero], by decide⟩
    · have habs : IsDouble |value| := by
        rcases abs_choice value with h | h
        · rwa [h]
        · rw [h]
          exact isDouble.neg
      rw [numberText, if_neg hzero]
      exact numeral_text_head (wellFormed_jsNumeral (engine.digits_pos _ habs (abs_pos.mpr hzero)) _ _)

section RoundTrip

variable (engine : Shortest)

theorem stringify_head {v : JsonValue} (hv : v.Finite) :
    ∃ u t, stringify engine v = u :: t ∧ Starts u := by
  cases v with
  | null => exact ⟨_, _, rfl, by decide⟩
  | boolean b => cases b <;> exact ⟨_, _, rfl, by decide⟩
  | number n =>
    obtain ⟨u, t, htext, hstart⟩ := numberText_head engine (n := n) hv
    exact ⟨u, t, htext, hstart.1⟩
  | string s => exact ⟨unit '"', _, rfl, by decide⟩
  | array items => exact ⟨unit '[', _, rfl, by decide⟩
  | object entries => exact ⟨unit '{', _, rfl, by decide⟩

/-- The value is read back with this much fuel or more, whatever goes on after it. -/
def ReadsBack (engine : Shortest) (v : JsonValue) : Prop :=
  ∀ (rest : CodeUnits) (fuel : ℕ), Stops rest → 2 * (stringify engine v).length ≤ fuel →
    readValue fuel (stringify engine v ++ rest) = some (v.plainZeros, rest)

theorem closing_more {α : Type} {close : UInt16} {more : CodeUnits → Option (List α × CodeUnits)} {a : α}
    {rest : CodeUnits} : closing close more a (unit ',' :: rest) = (more rest).map (consFirst a) := by
  rw [closing, skipSpace_cons (by decide)]
  rfl

theorem closing_close {α : Type} {close : UInt16} (hclose : isSpace close = false ∧ close ≠ unit ',')
    {more : CodeUnits → Option (List α × CodeUnits)} {a : α} {rest : CodeUnits} :
    closing close more a (close :: rest) = some ([a], rest) := by
  rw [closing, skipSpace_cons hclose.1]
  simp only [if_neg hclose.2, if_true]

theorem readItems_succ (fuel : ℕ) (text : CodeUnits) :
    readItems (fuel + 1) text =
      (readValue fuel text).bind fun r => closing (unit ']') (readItems fuel) r.1 r.2 := by
  rw [readItems]
  rfl

theorem readItems_joined {items : List JsonValue} (hne : items ≠ [])
    (hitems : ∀ v ∈ items, ReadsBack engine v) (rest : CodeUnits) (fuel : ℕ)
    (hfuel : 2 * (joined (unit ']') (items.map (stringify engine))).length ≤ fuel) :
    readItems fuel (joined (unit ']') (items.map (stringify engine)) ++ rest) =
      some (items.map plainZeros, rest) := by
  induction items generalizing fuel with
  | nil => exact absurd rfl hne
  | cons v items ih =>
    have hv := hitems v (by simp)
    cases items with
    | nil =>
      simp only [List.map_cons, List.map_nil, joined, List.length_append, List.length_singleton] at hfuel ⊢
      obtain ⟨fuel, rfl⟩ : ∃ f, fuel = f + 1 := ⟨fuel - 1, by omega⟩
      have hread := hv (unit ']' :: rest) fuel (stops_of (by simp) rest) (by omega)
      rw [List.append_assoc, List.singleton_append, readItems_succ, hread, Option.bind_some]
      exact closing_close (by decide)
    | cons w items =>
      simp only [List.map_cons, joined, List.length_append, List.length_cons] at hfuel ⊢
      obtain ⟨fuel, rfl⟩ : ∃ f, fuel = f + 1 := ⟨fuel - 1, by omega⟩
      have hrest := ih (by simp) (fun u hu => hitems u (List.mem_cons_of_mem _ hu)) fuel
        (by simp only [List.map_cons]; omega)
      have hread := hv (unit ',' :: (joined (unit ']') ((w :: items).map (stringify engine)) ++ rest)) fuel
        (stops_of (by simp) _) (by omega)
      simp only [List.map_cons] at hrest hread
      rw [List.append_assoc, List.cons_append, readItems_succ, hread, Option.bind_some, closing_more, hrest]
      rfl

theorem readMembers_joined {entries : List (CodeUnits × JsonValue)} (hne : entries ≠ [])
    (hentries : ∀ e ∈ entries, ReadsBack engine e.2 ∧ e.2.Finite) (rest : CodeUnits) (fuel : ℕ)
    (hfuel : 2 * (joined (unit '}') (entries.map (entryText engine))).length ≤ fuel) :
    readMembers fuel (joined (unit '}') (entries.map (entryText engine)) ++ rest) =
      some (entries.map fun e => (e.1, e.2.plainZeros), rest) := by
  induction entries generalizing fuel with
  | nil => exact absurd rfl hne
  | cons e entries ih =>
    obtain ⟨key, v⟩ := e
    obtain ⟨hv, hfinite⟩ := hentries (key, v) (by simp)
    -- the key and its colon are read, and the value from there
    have hmember : ∀ (tail : CodeUnits) (fuel : ℕ), Stops tail → 2 * (stringify engine v).length ≤ fuel →
        readMembers (fuel + 1) (entryText engine (key, v) ++ tail) =
          closing (unit '}') (readMembers fuel) (key, v.plainZeros) tail := by
      intro tail fuel hstops hlength
      obtain ⟨u, t, htext, hstart⟩ := stringify_head engine hfinite
      have hread := hv tail fuel hstops hlength
      have hskip : skipSpace (stringify engine v ++ tail) = stringify engine v ++ tail := by
        rw [htext, List.cons_append, skipSpace_cons hstart.1]
      have hassoc : entryText engine (key, v) ++ tail =
          unit '"' :: (quoteUnits key ++ unit '"' :: (unit ':' :: (stringify engine v ++ tail))) := by
        simp [entryText, quote]
      rw [hassoc, readMembers, skipSpace_cons (by decide)]
      simp only [List.head?_cons, List.tail_cons, if_true, readString_quoteUnits, Option.bind_eq_bind,
        Option.bind_some, skipSpace_cons (by decide : isSpace (unit ':') = false), hread]
    cases entries with
    | nil =>
      have hlength : (stringify engine v).length ≤ (entryText engine (key, v)).length := by
        simp only [entryText, List.length_append, List.length_cons]
        omega
      simp only [List.map_cons, List.map_nil, joined, List.length_append, List.length_singleton] at hfuel ⊢
      obtain ⟨fuel, rfl⟩ : ∃ f, fuel = f + 1 := ⟨fuel - 1, by omega⟩
      rw [List.append_assoc, List.singleton_append, hmember _ _ (stops_of (by simp) rest) (by omega)]
      exact closing_close (by decide)
    | cons f entries =>
      have hlength : (stringify engine v).length ≤ (entryText engine (key, v)).length := by
        simp only [entryText, List.length_append, List.length_cons]
        omega
      simp only [List.map_cons, joined, List.length_append, List.length_cons] at hfuel ⊢
      obtain ⟨fuel, rfl⟩ : ∃ f, fuel = f + 1 := ⟨fuel - 1, by omega⟩
      have hrest := ih (by simp) (fun e he => hentries e (List.mem_cons_of_mem _ he)) fuel
        (by simp only [List.map_cons]; omega)
      simp only [List.map_cons] at hrest
      rw [List.append_assoc, List.cons_append, hmember _ _ (stops_of (by simp) _) (by omega), closing_more, hrest]
      rfl

theorem readsBack_number {n : Number} (hn : n.IsFinite) : ReadsBack engine (.number n) := by
  intro rest fuel hstops hfuel
  obtain ⟨u, t, htext, ⟨hstart, hne₁, hne₂, hne₃, hne₄, hne₅, hne₆⟩⟩ := numberText_head engine hn
  have hread := readNumber_text engine hn hstops
  rw [stringify, htext] at hfuel ⊢
  rw [htext, List.cons_append] at hread
  simp only [List.length_cons] at hfuel
  obtain ⟨fuel, rfl⟩ : ∃ f, fuel = f + 1 := ⟨fuel - 1, by omega⟩
  rw [List.cons_append, readValue, skipSpace_cons hstart.1]
  simp only [if_neg hne₁, if_neg hne₂, if_neg hne₃, if_neg hne₄, if_neg hne₅, if_neg hne₆, hread, Option.map_some]
  rfl

theorem readKeyword_text (keyword : String) (value : JsonValue) (rest : CodeUnits) :
    readKeyword keyword value (units keyword ++ rest) = some (value, rest) := by
  have hprefix : (units keyword).isPrefixOf (units keyword ++ rest) = true := by
    rw [List.isPrefixOf_iff_prefix]
    exact List.prefix_append _ _
  rw [readKeyword, if_pos hprefix, List.drop_left]

theorem readsBack_keyword (keyword : String) {value : JsonValue} {u : UInt16} {t : CodeUnits}
    (hplain : value.plainZeros = value) (htext : stringify engine value = units keyword)
    (hhead : units keyword = u :: t)
    (hread : ∀ (fuel : ℕ) (t : CodeUnits), readValue (fuel + 1) (u :: t) = readKeyword keyword value (u :: t)) :
    ReadsBack engine value := by
  intro rest fuel _ hfuel
  rw [htext, hhead, List.length_cons] at hfuel
  obtain ⟨fuel, rfl⟩ : ∃ f, fuel = f + 1 := ⟨fuel - 1, by omega⟩
  have hkeyword := readKeyword_text keyword value rest
  rw [hhead, List.cons_append] at hkeyword
  rw [htext, hhead, List.cons_append, hread, hkeyword, hplain]

theorem readsBack_string (s : CodeUnits) : ReadsBack engine (.string s) := by
  intro rest fuel _ hfuel
  have htext : stringify engine (.string s) ++ rest = unit '"' :: (quoteUnits s ++ unit '"' :: rest) := by
    simp [stringify, quote]
  rw [stringify, quote, List.length_cons] at hfuel
  obtain ⟨fuel, rfl⟩ : ∃ f, fuel = f + 1 := ⟨fuel - 1, by omega⟩
  rw [htext, readValue, skipSpace_cons (by decide)]
  simp only [if_true, readString_quoteUnits, Option.map_some]
  rfl

theorem joined_head (close u : UInt16) (t : CodeUnits) (ts : List CodeUnits) :
    ∃ rest, joined close ((u :: t) :: ts) = u :: rest := by
  cases ts with
  | nil => exact ⟨_, rfl⟩
  | cons w ts => exact ⟨_, rfl⟩

theorem readsBack_array {items : List JsonValue} (hfinite : ∀ v ∈ items, v.Finite)
    (hitems : ∀ v ∈ items, ReadsBack engine v) : ReadsBack engine (.array items) := by
  intro rest fuel _ hfuel
  have hbracket : unit '[' ≠ unit '"' := by decide
  rw [stringify, itemTexts_eq, List.length_cons] at hfuel
  rw [stringify, itemTexts_eq, List.cons_append, plainZeros_array]
  obtain ⟨fuel, rfl⟩ : ∃ f, fuel = f + 1 := ⟨fuel - 1, by omega⟩
  rw [readValue, skipSpace_cons (by decide)]
  simp only [if_neg hbracket, if_true]
  cases items with
  | nil =>
    simp only [List.map_nil, joined, List.singleton_append, skipSpace_cons (by decide : isSpace (unit ']') = false),
      List.head?_cons, if_true, List.tail_cons]
  | cons v items =>
    obtain ⟨u, t, htext, hstart⟩ := stringify_head engine (hfinite v (by simp))
    obtain ⟨tail, htail⟩ : ∃ tail, joined (unit ']') ((v :: items).map (stringify engine)) = u :: tail := by
      rw [List.map_cons, htext]
      exact joined_head _ _ _ _
    have hread := readItems_joined engine (List.cons_ne_nil v items) hitems rest fuel (by omega)
    have hopen : (skipSpace (joined (unit ']') ((v :: items).map (stringify engine)) ++ rest)).head? ≠
        some (unit ']') := by
      rw [htail, List.cons_append, skipSpace_cons hstart.1, List.head?_cons]
      exact fun h => hstart.2.1 (Option.some.inj h)
    rw [if_neg hopen, hread, Option.map_some]

theorem readsBack_object {entries : List (CodeUnits × JsonValue)} (hordered : Ordered entries)
    (hentries : ∀ e ∈ entries, ReadsBack engine e.2 ∧ e.2.Finite) : ReadsBack engine (.object entries) := by
  intro rest fuel _ hfuel
  have hbrace : unit '{' ≠ unit '"' := by decide
  have hbrace' : unit '{' ≠ unit '[' := by decide
  rw [stringify, entryTexts_eq, List.length_cons] at hfuel
  rw [stringify, entryTexts_eq, List.cons_append, plainZeros_object]
  obtain ⟨fuel, rfl⟩ : ∃ f, fuel = f + 1 := ⟨fuel - 1, by omega⟩
  rw [readValue, skipSpace_cons (by decide)]
  simp only [if_neg hbrace, if_neg hbrace', if_true]
  cases entries with
  | nil =>
    simp only [List.map_nil, joined, List.singleton_append, skipSpace_cons (by decide : isSpace (unit '}') = false),
      List.head?_cons, if_true, List.tail_cons]
  | cons e entries =>
    obtain ⟨tail, htail⟩ : ∃ tail, joined (unit '}') ((e :: entries).map (entryText engine)) = unit '"' :: tail :=
      joined_head (unit '}') (unit '"') ((quoteUnits e.1 ++ [unit '"']) ++ unit ':' :: stringify engine e.2)
        (entries.map (entryText engine))
    have hread := readMembers_joined engine (List.cons_ne_nil e entries) hentries rest fuel (by omega)
    have hopen : (skipSpace (joined (unit '}') ((e :: entries).map (entryText engine)) ++ rest)).head? ≠
        some (unit '}') := by
      rw [htail, List.cons_append, skipSpace_cons (by decide), List.head?_cons]
      decide
    rw [if_neg hopen, hread, Option.map_some, ofMembers_self hordered.plain]

/-- A finite value with ordered objects is read back, with its zeros unsigned. -/
theorem readsBack {v : JsonValue} (hfinite : v.Finite) (hordered : v.WellOrdered) : ReadsBack engine v := by
  induction v using JsonValue.induction with
  | null =>
    exact readsBack_keyword engine "null" rfl (by rw [stringify]) (by decide : units "null" = unit 'n' :: units "ull")
      fun fuel t => by rw [readValue, skipSpace_cons (by decide)]; rfl
  | boolean b =>
    cases b with
    | true =>
      exact readsBack_keyword engine "true" rfl (by rw [stringify])
        (by decide : units "true" = unit 't' :: units "rue")
        fun fuel t => by rw [readValue, skipSpace_cons (by decide)]; rfl
    | false =>
      exact readsBack_keyword engine "false" rfl (by rw [stringify])
        (by decide : units "false" = unit 'f' :: units "alse")
        fun fuel t => by rw [readValue, skipSpace_cons (by decide)]; rfl
  | number n => exact readsBack_number engine (n := n) hfinite
  | string s => exact readsBack_string engine s
  | array items ih =>
    obtain ⟨-, hitems⟩ := everywhere_array.mp hfinite
    obtain ⟨-, hitems'⟩ := everywhere_array.mp hordered
    exact readsBack_array engine hitems fun v hv => ih v hv (hitems v hv) (hitems' v hv)
  | object entries ih =>
    obtain ⟨-, hentries⟩ := everywhere_object.mp hfinite
    obtain ⟨hself, hentries'⟩ := everywhere_object.mp hordered
    exact readsBack_object engine (hself entries rfl) fun e he =>
      ⟨ih e he (hentries e he) (hentries' e he), hentries e he⟩

theorem parse_stringify {v : JsonValue} (hfinite : v.Finite) (hordered : v.WellOrdered) :
    parse (stringify engine v) = some v.plainZeros := by
  have hread := readsBack engine hfinite hordered [] (2 * (stringify engine v).length + 1) stops_nil
    (by omega)
  rw [List.append_nil] at hread
  rw [parse, hread, Option.bind_eq_bind, Option.bind_some]
  rfl

end RoundTrip

/-! ## What is read -/

theorem skipSpace_length (text : CodeUnits) : (skipSpace text).length ≤ text.length :=
  (List.dropWhile_sublist _).length_le

theorem takeDigits_length (text : CodeUnits) :
    (takeDigits text).1.length + (takeDigits text).2.length = text.length := by
  have hsplit := congrArg List.length (List.takeWhile_append_dropWhile (p := isDigit) (l := text))
  rw [List.length_append] at hsplit
  simp only [takeDigits, List.length_map]
  exact hsplit

theorem takeDigits_rest (text : CodeUnits) : (takeDigits text).2.length ≤ text.length :=
  Nat.le_of_add_left_le (takeDigits_length text).le

theorem readString_length {text s rest : CodeUnits} (h : readString text = some (s, rest)) :
    rest.length < text.length := by
  -- what is left after one unit is left of a shorter text
  have hmore : ∀ {t : CodeUnits} {x : UInt16} {s : CodeUnits},
      (∀ {s}, readString t = some (s, rest) → rest.length < t.length) →
      (readString t).map (consFirst x) = some (s, rest) → rest.length < t.length := by
    intro t x s ih h
    obtain ⟨read, hread, heq⟩ := Option.map_eq_some_iff.mp h
    cases heq
    exact ih hread
  fun_induction readString text generalizing s with
  | case1 => cases h
  | case2 =>
    cases h
    simp
  | case3 => cases h
  | case4 =>
    rename_i ih
    have := hmore ih h
    simp only [List.length_cons]
    omega
  | case5 => cases h
  | case6 => cases h
  | case7 =>
    rename_i ih
    have := hmore ih h
    simp only [List.length_cons]
    omega
  | case8 => cases h
  | case9 => cases h
  | case10 =>
    rename_i ih
    have := hmore ih h
    simp only [List.length_cons]
    omega

theorem readPower_length {text rest : CodeUnits} {e : ℤ} (h : readPower text = some (e, rest)) :
    rest.length ≤ text.length := by
  unfold readPower at h
  dsimp only at h
  split_ifs at h <;> cases h <;> exact (takeDigits_rest _).trans (by simp)

theorem readExponent_length {text rest : CodeUnits} {e : Option ℤ} (h : readExponent text = some (e, rest)) :
    rest.length ≤ text.length := by
  unfold readExponent at h
  split_ifs at h
  · obtain ⟨read, hread, heq⟩ := Option.map_eq_some_iff.mp h
    cases heq
    exact (readPower_length hread).trans (by simp)
  · cases h
    exact le_rfl

theorem readFraction_length {text rest : CodeUnits} {ds : List ℕ} (h : readFraction text = some (ds, rest)) :
    rest.length ≤ text.length := by
  unfold readFraction at h
  dsimp only at h
  split_ifs at h
  · cases h
    exact (takeDigits_rest _).trans (by simp)
  · cases h
    exact le_rfl

theorem readNumber_length {text rest : CodeUnits} {n : Number} (h : readNumber text = some (n, rest)) :
    rest.length < text.length := by
  obtain ⟨read, hread, heq⟩ := Option.map_eq_some_iff.mp h
  cases heq
  rw [readNumeral] at hread
  dsimp only at hread
  generalize hbody : (if decide (text.head? = some (unit '-')) = true then text.tail else text) = body at hread
  have hlength : body.length ≤ text.length := by
    rw [← hbody]
    split_ifs <;> simp
  by_cases hfirst : (takeDigits body).1 = [] ∨ ((takeDigits body).1.head? = some 0 ∧ 1 < (takeDigits body).1.length)
  · rw [if_pos hfirst] at hread
    cases hread
  · rw [if_neg hfirst] at hread
    obtain ⟨fraction, hfraction, hread⟩ := Option.bind_eq_some_iff.mp hread
    obtain ⟨exponent, hexponent, hread⟩ := Option.bind_eq_some_iff.mp hread
    cases hread
    have hexp := readExponent_length hexponent
    have hfrac := readFraction_length hfraction
    have hwhole := takeDigits_length body
    have hsome : 0 < (takeDigits body).1.length := List.length_pos_iff.mpr fun h => hfirst (.inl h)
    dsimp only
    omega

theorem readKeyword_length {keyword : String} {value v : JsonValue} {text rest : CodeUnits}
    (hkeyword : units keyword ≠ []) (h : readKeyword keyword value text = some (v, rest)) :
    v = value ∧ rest.length < text.length := by
  unfold readKeyword at h
  split_ifs at h with hprefix
  cases h
  have hle := (List.isPrefixOf_iff_prefix.mp hprefix).length_le
  have hpos := List.length_pos_iff.mpr hkeyword
  refine ⟨rfl, ?_⟩
  rw [List.length_drop]
  omega

theorem closing_eq_some {α : Type} {close : UInt16} {more : CodeUnits → Option (List α × CodeUnits)} {a : α}
    {as : List α} {text rest : CodeUnits} (h : closing close more a text = some (as, rest)) :
    (∃ t as', skipSpace text = unit ',' :: t ∧ more t = some (as', rest) ∧ as = a :: as') ∨
      ((∀ more' : CodeUnits → Option (List α × CodeUnits), closing close more' a text = some (as, rest)) ∧
        as = [a] ∧ rest.length < text.length) := by
  have hlength := skipSpace_length text
  unfold closing at h ⊢
  cases hskip : skipSpace text with
  | nil => simp [hskip] at h
  | cons u t =>
    rw [hskip] at h hlength
    dsimp only at h ⊢
    split_ifs at h with hcomma hclose
    · obtain ⟨read, hread, heq⟩ := Option.map_eq_some_iff.mp h
      cases heq
      exact .inl ⟨t, read.1, by rw [hcomma], hread, rfl⟩
    · cases h
      rw [List.length_cons] at hlength
      exact .inr ⟨fun _ => by rw [if_neg hcomma, if_pos hclose], rfl, hlength⟩

/-- What reading a value comes to: the items of an array, the members of an object, or a value
    that takes no more fuel. -/
theorem readValue_cases {fuel : ℕ} {text rest : CodeUnits} {v : JsonValue}
    (h : readValue (fuel + 1) text = some (v, rest)) :
    (∃ t items, t.length < text.length ∧ readItems fuel t = some (items, rest) ∧ v = .array items ∧
        ∀ fuel', readItems fuel' t = some (items, rest) → readValue (fuel' + 1) text = some (v, rest)) ∨
      (∃ t members, t.length < text.length ∧ readMembers fuel t = some (members, rest) ∧
        v = .object (ofMembers members) ∧
        ∀ fuel', readMembers fuel' t = some (members, rest) → readValue (fuel' + 1) text = some (v, rest)) ∨
      ((∀ fuel', readValue (fuel' + 1) text = some (v, rest)) ∧ v.WellOrdered ∧ rest.length < text.length) := by
  have hlength := skipSpace_length text
  rw [readValue] at h
  simp only [readValue]
  cases hskip : skipSpace text with
  | nil => simp [hskip] at h
  | cons u t =>
    rw [hskip, List.length_cons] at hlength
    rw [hskip] at h
    dsimp only at h ⊢
    have htail : ((skipSpace t).tail).length < text.length := by
      have := skipSpace_length t
      rw [List.length_tail]
      omega
    by_cases hquote : u = unit '"'
    · simp only [if_pos hquote] at h ⊢
      obtain ⟨read, hread, heq⟩ := Option.map_eq_some_iff.mp h
      cases heq
      have := readString_length hread
      exact .inr (.inr ⟨fun _ => by rw [hread]; rfl, (by intro entries heq; cases heq), by omega⟩)
    simp only [if_neg hquote] at h ⊢
    by_cases hbracket : u = unit '['
    · simp only [if_pos hbracket] at h ⊢
      by_cases hempty : (skipSpace t).head? = some (unit ']')
      · simp only [if_pos hempty] at h ⊢
        cases h
        refine .inr (.inr ⟨fun _ => rfl, everywhere_array.mpr ⟨?_, fun v hv => by cases hv⟩, htail⟩)
        intro entries heq
        cases heq
      · simp only [if_neg hempty] at h ⊢
        obtain ⟨read, hread, heq⟩ := Option.map_eq_some_iff.mp h
        cases heq
        exact .inl ⟨t, read.1, by omega, hread, rfl, fun fuel' hread' => by rw [hread']; rfl⟩
    simp only [if_neg hbracket] at h ⊢
    by_cases hbrace : u = unit '{'
    · simp only [if_pos hbrace] at h ⊢
      by_cases hempty : (skipSpace t).head? = some (unit '}')
      · simp only [if_pos hempty] at h ⊢
        cases h
        refine .inr (.inr ⟨fun _ => rfl, everywhere_object.mpr ⟨?_, by simp⟩, htail⟩)
        intro entries heq
        cases heq
        exact List.Pairwise.nil
      · simp only [if_neg hempty] at h ⊢
        obtain ⟨read, hread, heq⟩ := Option.map_eq_some_iff.mp h
        cases heq
        exact .inr (.inl ⟨t, read.1, by omega, hread, rfl, fun fuel' hread' => by rw [hread']; rfl⟩)
    simp only [if_neg hbrace] at h ⊢
    -- what is left takes no fuel
    refine .inr (.inr ⟨fun _ => h, ?_⟩)
    split_ifs at h
    · obtain ⟨rfl, hrest⟩ := readKeyword_length (by decide) h
      rw [List.length_cons] at hrest
      exact ⟨(by intro entries heq; cases heq), by omega⟩
    · obtain ⟨rfl, hrest⟩ := readKeyword_length (by decide) h
      rw [List.length_cons] at hrest
      exact ⟨(by intro entries heq; cases heq), by omega⟩
    · obtain ⟨rfl, hrest⟩ := readKeyword_length (by decide) h
      rw [List.length_cons] at hrest
      exact ⟨(by intro entries heq; cases heq), by omega⟩
    · obtain ⟨read, hread, heq⟩ := Option.map_eq_some_iff.mp h
      cases heq
      have hrest := readNumber_length hread
      rw [List.length_cons] at hrest
      exact ⟨(by intro entries heq; cases heq), by omega⟩

/-- A member that is read is a key, a colon, a value and what closes it. -/
theorem readMembers_cases {fuel : ℕ} {text rest : CodeUnits} {members : List (CodeUnits × JsonValue)}
    (h : readMembers (fuel + 1) text = some (members, rest)) :
    ∃ key v t after, t.length < text.length ∧ readValue fuel t = some (v, after) ∧
      closing (unit '}') (readMembers fuel) (key, v) after = some (members, rest) ∧
      ∀ fuel', readValue fuel' t = some (v, after) →
        closing (unit '}') (readMembers fuel') (key, v) after = some (members, rest) →
        readMembers (fuel' + 1) text = some (members, rest) := by
  have hlength := skipSpace_length text
  rw [readMembers] at h
  simp only [readMembers]
  split_ifs at h with hquote
  obtain ⟨⟨key, colon⟩, hkey, h⟩ := Option.bind_eq_some_iff.mp h
  dsimp only at h
  split_ifs at h with hcolon
  obtain ⟨⟨v, after⟩, hv, h⟩ := Option.bind_eq_some_iff.mp h
  refine ⟨key, v, (skipSpace colon).tail, after, ?_, hv, h, ?_⟩
  · have hread := readString_length hkey
    have hskip := skipSpace_length colon
    simp only [List.length_tail] at hread ⊢
    omega
  · intro fuel' hv' hclosing
    rw [if_pos hquote, hkey]
    simp only [Option.bind_eq_bind, Option.bind_some, if_pos hcolon, hv']
    exact hclosing

/-- What is read is ordered and leaves less of the text, and two units of fuel for each unit that
    is taken were enough. -/
theorem read_all (fuel : ℕ) :
    (∀ {text rest v}, readValue fuel text = some (v, rest) →
      v.WellOrdered ∧ rest.length < text.length ∧
        ∀ g, 2 * (text.length - rest.length) ≤ g → readValue g text = some (v, rest)) ∧
    (∀ {text rest items}, readItems fuel text = some (items, rest) →
      (∀ v ∈ items, WellOrdered v) ∧ rest.length < text.length ∧
        ∀ g, 2 * (text.length - rest.length) ≤ g → readItems g text = some (items, rest)) ∧
    (∀ {text rest members}, readMembers fuel text = some (members, rest) →
      (∀ e ∈ members, WellOrdered e.2) ∧ rest.length < text.length ∧
        ∀ g, 2 * (text.length - rest.length) ≤ g → readMembers g text = some (members, rest)) := by
  induction fuel with
  | zero =>
    refine ⟨?_, ?_, ?_⟩
    · intro text rest v h
      rw [readValue] at h
      cases h
    · intro text rest items h
      rw [readItems] at h
      cases h
    · intro text rest members h
      rw [readMembers] at h
      cases h
  | succ fuel ih =>
    obtain ⟨ihValue, ihItems, ihMembers⟩ := ih
    refine ⟨?_, ?_, ?_⟩
    · intro text rest v h
      rcases readValue_cases h with ⟨t, items, ht, hitems, rfl, hmore⟩ | ⟨t, members, ht, hmembers, rfl, hmore⟩ |
        ⟨hmore, hordered, hlength⟩
      · obtain ⟨hordered, hlength, hfuel⟩ := ihItems hitems
        refine ⟨everywhere_array.mpr ⟨(by intro entries heq; cases heq), hordered⟩, by omega, ?_⟩
        intro g hg
        obtain ⟨g, rfl⟩ : ∃ f, g = f + 1 := ⟨g - 1, by omega⟩
        exact hmore g (hfuel g (by omega))
      · obtain ⟨hordered, hlength, hfuel⟩ := ihMembers hmembers
        refine ⟨everywhere_object.mpr ⟨?_, fun e he => hordered e (mem_ofMembers he)⟩, by omega, ?_⟩
        · intro entries heq
          cases heq
          exact ofMembers_ordered members
        · intro g hg
          obtain ⟨g, rfl⟩ : ∃ f, g = f + 1 := ⟨g - 1, by omega⟩
          exact hmore g (hfuel g (by omega))
      · refine ⟨hordered, hlength, ?_⟩
        intro g hg
        obtain ⟨g, rfl⟩ : ∃ f, g = f + 1 := ⟨g - 1, by omega⟩
        exact hmore g
    · intro text rest items h
      rw [readItems_succ] at h
      obtain ⟨⟨v, after⟩, hv, hclosing⟩ := Option.bind_eq_some_iff.mp h
      dsimp only at hclosing
      obtain ⟨hordered, hlength, hfuel⟩ := ihValue hv
      have hskip := skipSpace_length after
      rcases closing_eq_some hclosing with ⟨t, items', hcomma, hitems, rfl⟩ | ⟨hclose, rfl, hrest⟩
      · obtain ⟨hordered', hlength', hfuel'⟩ := ihItems hitems
        rw [hcomma, List.length_cons] at hskip
        refine ⟨by simpa using ⟨hordered, hordered'⟩, by omega, ?_⟩
        intro g hg
        obtain ⟨g, rfl⟩ : ∃ f, g = f + 1 := ⟨g - 1, by omega⟩
        rw [readItems_succ, hfuel g (by omega), Option.bind_some, closing, hcomma]
        simp only [if_true, hfuel' g (by omega), Option.map_some]
        rfl
      · refine ⟨by simpa using hordered, by omega, ?_⟩
        intro g hg
        obtain ⟨g, rfl⟩ : ∃ f, g = f + 1 := ⟨g - 1, by omega⟩
        rw [readItems_succ, hfuel g (by omega), Option.bind_some, hclose]
    · intro text rest members h
      obtain ⟨key, v, t, after, ht, hv, hclosing, hmore⟩ := readMembers_cases h
      obtain ⟨hordered, hlength, hfuel⟩ := ihValue hv
      have hskip := skipSpace_length after
      rcases closing_eq_some hclosing with ⟨t', members', hcomma, hmembers, rfl⟩ | ⟨hclose, rfl, hrest⟩
      · obtain ⟨hordered', hlength', hfuel'⟩ := ihMembers hmembers
        rw [hcomma, List.length_cons] at hskip
        refine ⟨by simpa using ⟨hordered, fun a b => hordered' (a, b)⟩, by omega, ?_⟩
        intro g hg
        obtain ⟨g, rfl⟩ : ∃ f, g = f + 1 := ⟨g - 1, by omega⟩
        refine hmore g (hfuel g (by omega)) ?_
        rw [closing, hcomma]
        simp only [if_true, hfuel' g (by omega), Option.map_some]
        rfl
      · refine ⟨by simpa using hordered, by omega, ?_⟩
        intro g hg
        obtain ⟨g, rfl⟩ : ∃ f, g = f + 1 := ⟨g - 1, by omega⟩
        exact hmore g (hfuel g (by omega)) (hclose _)

/-- From two for each unit of the text on, the fuel changes nothing. -/
theorem readValue_fuel {text : CodeUnits} {f g : ℕ} (hf : 2 * text.length ≤ f) (hg : 2 * text.length ≤ g) :
    readValue f text = readValue g text := by
  refine Option.ext fun read => ?_
  constructor
  · intro h
    exact ((read_all f).1 h).2.2 g (by omega)
  · intro h
    exact ((read_all g).1 h).2.2 f (by omega)

theorem parse_wellOrdered {text : CodeUnits} {v : JsonValue} (h : parse text = some v) : v.WellOrdered := by
  obtain ⟨⟨w, rest⟩, hread, h⟩ := Option.bind_eq_some_iff.mp h
  dsimp only at h
  split_ifs at h
  cases h
  exact ((read_all _).1 hread).1

end DataNexus.Lib
