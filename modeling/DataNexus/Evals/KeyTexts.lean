/-
  DataNexus.Evals.KeyTexts — the JSON text by which `_compare_exact` sorts.

  A sort key is the text of a canonical form, which has no objects. Such a text says where it
  ends: a string at its closing quote, a list at its bracket, a number where none of its signs
  comes next. What of this rests on Python's own texts of strings and floats is `Legible`.

  - `readBack`: a value without objects is read from its text, whatever is written after it.
  - `dumps_injective`: so two of them with one text are one.
-/

import DataNexus.Evals.StrictEquality
import DataNexus.Lib.PrefixText

namespace DataNexus.Evals

open Lib Document

/-! ## Strings -/

/-- The signs that a JSON string escapes. -/
def escapedChars : List Char := '"' :: '\\' :: (List.range 32).map Char.ofNat

theorem mem_escapedChars {c : Char} (h : c.toNat < 32) : c ∈ escapedChars := by
  refine List.mem_cons_of_mem _ (List.mem_cons_of_mem _ (List.mem_map.mpr ⟨c.toNat, List.mem_range.mpr h, ?_⟩))
  exact Char.ofNat_toNat c

/-- The signs that are written for an escaped one. -/
def escapeSigns (c : Char) : List Char :=
  if c = '"' then ['\\', '"']
  else if c = '\\' then ['\\', '\\']
  else if c = '\n' then ['\\', 'n']
  else if c = '\r' then ['\\', 'r']
  else if c = '\t' then ['\\', 't']
  else if c.toNat = 12 then ['\\', 'f']
  else if c.toNat = 8 then ['\\', 'b']
  else if c.toNat < 32 then ['\\', 'u', '0', '0', Nat.digitChar (c.toNat / 16), Nat.digitChar (c.toNat % 16)]
  else [c]

theorem escapeChar_toList (c : Char) : (escapeChar c).toList = escapeSigns c := by
  unfold escapeChar escapeSigns
  split_ifs <;> simp

theorem escapeSigns_plain {c : Char} (h : c ∉ escapedChars) : escapeSigns c = [c] := by
  have hsmall : ¬ c.toNat < 32 := fun hlt => h (mem_escapedChars hlt)
  have hquote : c ≠ '"' := by rintro rfl; exact h (by decide)
  have hslash : c ≠ '\\' := by rintro rfl; exact h (by decide)
  have hnewline : c ≠ '\n' := by rintro rfl; exact hsmall (by decide)
  have hreturn : c ≠ '\r' := by rintro rfl; exact hsmall (by decide)
  have htab : c ≠ '\t' := by rintro rfl; exact hsmall (by decide)
  have hfeed : c.toNat ≠ 12 := by omega
  have hback : c.toNat ≠ 8 := by omega
  simp [escapeSigns, hquote, hslash, hnewline, hreturn, htab, hfeed, hback, hsmall]

theorem escapeSigns_slash {c : Char} (h : c ∈ escapedChars) : (escapeSigns c).head? = some '\\' := by
  have hall : (escapedChars.all fun c => (escapeSigns c).head? == some '\\') = true := by decide +kernel
  exact beq_iff_eq.mp (List.all_eq_true.mp hall c h)

/-- No escape starts with another one. -/
theorem escapedChars_apart {c d : Char} (hc : c ∈ escapedChars) (hd : d ∈ escapedChars)
    (h : escapeSigns c <+: escapeSigns d) : c = d := by
  have hall : (escapedChars.all fun c => escapedChars.all fun d => !(escapeSigns c).isPrefixOf (escapeSigns d) || c == d) = true := by
    decide +kernel
  have hpair := List.all_eq_true.mp (List.all_eq_true.mp hall c hc) d hd
  rw [List.isPrefixOf_iff_prefix.mpr h, Bool.not_true, Bool.false_or] at hpair
  exact beq_iff_eq.mp hpair

theorem escapeSigns_prefixFree : PrefixFree escapeSigns := by
  intro c d f g h
  have happart : ∀ c d f g, c ∈ escapedChars → d ∉ escapedChars →
      escapeSigns c ++ f ≠ escapeSigns d ++ g := by
    intro c d f g hc hd heq
    have hhead : (escapeSigns c ++ f).head? = some '\\' := by
      rw [List.head?_append, escapeSigns_slash hc, Option.some_or]
    rw [heq, escapeSigns_plain hd, List.singleton_append, List.head?_cons] at hhead
    obtain rfl := Option.some.inj hhead
    exact hd (by decide)
  have hchars : c = d := by
    by_cases hc : c ∈ escapedChars
    · by_cases hd : d ∈ escapedChars
      · have hprefix : escapeSigns d <+: escapeSigns c ++ f := h ▸ List.prefix_append _ _
        rcases List.prefix_or_prefix_of_prefix (List.prefix_append (escapeSigns c) f) hprefix with hle | hle
        · exact escapedChars_apart hc hd hle
        · exact (escapedChars_apart hd hc hle).symm
      · exact absurd h (happart c d f g hc hd)
    · by_cases hd : d ∈ escapedChars
      · exact absurd h.symm (happart d c g f hd hc)
      · rw [escapeSigns_plain hc, escapeSigns_plain hd, List.singleton_append, List.singleton_append] at h
        exact (List.cons.inj h).1
  subst hchars
  exact ⟨rfl, List.append_cancel_left h⟩

theorem escapeSigns_head (c : Char) : (escapeSigns c).head? ≠ some '"' ∧ escapeSigns c ≠ [] := by
  by_cases hc : c ∈ escapedChars
  · have hhead := escapeSigns_slash hc
    refine ⟨by rw [hhead]; decide, ?_⟩
    intro hnil
    rw [hnil] at hhead
    cases hhead
  · rw [escapeSigns_plain hc]
    refine ⟨?_, List.cons_ne_nil _ _⟩
    rw [List.head?_cons]
    intro heq
    obtain rfl := Option.some.inj heq
    exact hc (by decide)

theorem dumpString_toList (s : String) :
    (dumpString s).toList = '"' :: (s.toList.flatMap escapeSigns ++ ['"']) := by
  simp [dumpString, String.toList_join, List.flatMap_map, escapeChar_toList]

/-- The text of a string ends at its closing quote. -/
theorem dumpString_readable {s t : String} {f g : List Char}
    (h : (dumpString s).toList ++ f = (dumpString t).toList ++ g) : s = t ∧ f = g := by
  rw [dumpString_toList, dumpString_toList, List.cons_append, List.cons_append, List.append_assoc, List.append_assoc] at h
  obtain ⟨hchars, hrest⟩ := escapeSigns_prefixFree.sequence escapeSigns_head (List.cons.inj h).2
  exact ⟨String.toList_inj.mp hchars, hrest⟩

/-! ## Numbers -/

/-- The signs of the text of a number. -/
def numberSigns : List Char := ['0', '1', '2', '3', '4', '5', '6', '7', '8', '9', '+', '-', '.', 'e']

theorem digit_sign {c : Char} (h : c.isDigit = true) : c ∈ numberSigns ∧ c ≠ '.' ∧ c ≠ 'e' := by
  obtain ⟨hlow, hhigh⟩ := Char.isDigit_iff_toNat.mp h
  have hall : ∀ k : Fin 10, Char.ofNat (48 + k) ∈ numberSigns ∧ Char.ofNat (48 + k) ≠ '.' ∧ Char.ofNat (48 + k) ≠ 'e' := by
    decide
  have hlow' : 48 ≤ c.toNat := hlow
  have hhigh' : c.toNat ≤ 57 := hhigh
  have hsign := hall ⟨c.toNat - 48, by omega⟩
  rwa [show 48 + (c.toNat - 48) = c.toNat by omega, Char.ofNat_toNat] at hsign

/-- The text of an int has no point and no exponent. -/
theorem int_signs (n : ℤ) : ∀ c ∈ (toString n).toList, c ∈ numberSigns ∧ c ≠ '.' ∧ c ≠ 'e' := by
  have hdigits : ∀ k : ℕ, ∀ c ∈ k.repr.toList, c ∈ numberSigns ∧ c ≠ '.' ∧ c ≠ 'e' := by
    intro k c hc
    rw [Nat.toList_repr] at hc
    exact digit_sign (Nat.isDigit_of_mem_toDigits (by decide) (by decide) hc)
  rw [Int.toString_eq_repr, Int.repr_eq_if]
  split
  · exact hdigits _
  · intro c hc
    rw [String.toList_append, List.mem_append] at hc
    rcases hc with hc | hc
    · obtain rfl : c = '-' := by simpa using hc
      decide
    · exact hdigits _ c hc

theorem int_text_ne_nil (n : ℤ) : (toString n).toList ≠ [] := by
  rw [Int.toString_eq_repr, Int.repr_eq_if]
  split
  · rw [Nat.toList_repr]
    exact Nat.toDigits_ne_nil
  · simp

/-- The texts of strings and of floats are read back, and that of a float shows that it is one. -/
structure Python.Legible (python : Python) : Prop where
  strings : Function.Injective python.strRepr
  floats : ∀ m n : Number, m.IsFinite → n.IsFinite → python.floatRepr m = python.floatRepr n → m = n
  signs : ∀ n : Number, n.IsFinite → ∀ c ∈ (python.floatRepr n).toList, c ∈ numberSigns
  pointed : ∀ n : Number, n.IsFinite → ∃ c ∈ (python.floatRepr n).toList, c = '.' ∨ c = 'e'
  zero : python.floatRepr .zero = "0.0"
  negativeZero : python.floatRepr .negativeZero = "-0.0"

/-! ## Values without objects -/

/-- There is no object in the value. -/
inductive ObjectFree : Document → Prop where
  | scalar {v : Document} (h : v.isContainer = false) : ObjectFree v
  | arr {items : List Document} (h : ∀ v ∈ items, ObjectFree v) : ObjectFree (.arr items)

theorem ObjectFree.items {items : List Document} (h : ObjectFree (.arr items)) : ∀ v ∈ items, ObjectFree v := by
  cases h with
  | scalar h => cases h
  | arr h => exact h

theorem ObjectFree.wellFormed {v : Document} (h : ObjectFree v) : v.WellFormed := by
  induction h with
  | scalar h => exact .scalar h
  | arr _ ih => exact .arr ih

/-- A text that does not go on with a number. -/
def Ends (text : List Char) : Prop := NotBefore (· ∈ numberSigns) text

section

variable {python : Python}

theorem dumps_number (hpython : python.Legible) {x : Document} (hx : isNumeric x = true) :
    (dumps python x).toList ≠ [] ∧ ∀ c ∈ (dumps python x).toList, c ∈ numberSigns := by
  cases x with
  | int n =>
    rw [dumps]
    exact ⟨int_text_ne_nil n, fun c hc => (int_signs n c hc).1⟩
  | float n hn =>
    rw [dumps]
    obtain ⟨c, hc, -⟩ := hpython.pointed n hn
    exact ⟨List.ne_nil_of_mem hc, hpython.signs n hn⟩
  | _ => cases hx

/-- The text of an int is not that of a float. -/
theorem dumps_number_injective (hpython : python.Legible) {x y : Document} (hx : isNumeric x = true) (hy : isNumeric y = true)
    (h : dumps python x = dumps python y) : x = y := by
  have hmixed : ∀ m n, n.IsFinite → toString (m : ℤ) ≠ python.floatRepr n := by
    intro m n hn heq
    obtain ⟨c, hc, hpoint⟩ := hpython.pointed n hn
    obtain ⟨-, hdot, he⟩ := int_signs m c (heq ▸ hc)
    exact hpoint.elim hdot he
  cases x with
  | int m =>
    cases y with
    | int n =>
      rw [dumps, dumps, Int.toString_eq_repr, Int.toString_eq_repr] at h
      rw [Int.repr_injective h]
    | float n hn =>
      rw [dumps, dumps] at h
      exact absurd h (hmixed m n hn)
    | _ => cases hy
  | float m hm =>
    cases y with
    | int n =>
      rw [dumps, dumps] at h
      exact absurd h.symm (hmixed n m hm)
    | float n hn =>
      rw [dumps, dumps] at h
      obtain rfl := hpython.floats m n hm hn h
      rfl
    | _ => cases hy
  | _ => cases hx

/-- What a text starts with tells of which kind its value is. -/
def lead : Document → Char
  | .null => 'n'
  | .bool true => 't'
  | .bool false => 'f'
  | .int _ | .float _ _ => '0'
  | .str _ => '"'
  | .arr _ => '['
  | .obj _ => '\x7b'

def leadOf (c : Char) : Char := if c ∈ numberSigns then '0' else c

theorem lead_numeric {x : Document} (h : isNumeric x = true) : lead x = '0' := by
  cases x with
  | int | float => rfl
  | _ => cases h

theorem lead_ne_bracket (x : Document) : lead x ≠ ']' := by
  unfold lead
  split <;> decide

/-- Values that start alike are of one kind. -/
theorem kind_of_lead {x y : Document} (h : lead x = lead y) : x = y ∨ (isNumeric x = true ∧ isNumeric y = true) ∨
    (∃ s t, x = .str s ∧ y = .str t) ∨ (∃ xs ys, x = .arr xs ∧ y = .arr ys) ∨ ∃ ms ns, x = .obj ms ∧ y = .obj ns := by
  unfold lead at h
  split at h <;> split at h <;> simp_all [isNumeric]

theorem dumps_lead (hpython : python.Legible) (x : Document) :
    ∃ c rest, (dumps python x).toList = c :: rest ∧ leadOf c = lead x := by
  by_cases hx : isNumeric x = true
  · obtain ⟨hne, hsigns⟩ := dumps_number hpython hx
    obtain ⟨c, rest, htext⟩ := List.exists_cons_of_ne_nil hne
    refine ⟨c, rest, htext, ?_⟩
    rw [leadOf, if_pos (hsigns c (htext ▸ List.mem_cons_self)), lead_numeric hx]
  · have htext : ∃ rest, (dumps python x).toList = lead x :: rest := by
      unfold dumps
      split
      · exact ⟨['u', 'l', 'l'], by decide⟩
      · exact ⟨['r', 'u', 'e'], by decide⟩
      · exact ⟨['a', 'l', 's', 'e'], by decide⟩
      · exact absurd rfl hx
      · exact absurd rfl hx
      · exact ⟨_, dumpString_toList _⟩
      · exact ⟨_, by rw [String.toList_append, String.toList_append]; rfl⟩
      · exact ⟨_, by rw [String.toList_append, String.toList_append]; rfl⟩
    obtain ⟨rest, htext⟩ := htext
    refine ⟨lead x, rest, htext, if_neg ?_⟩
    unfold lead
    split
    · decide
    · decide
    · decide
    · exact absurd rfl hx
    · exact absurd rfl hx
    · decide
    · decide
    · decide

theorem lead_eq (hpython : python.Legible) {x y : Document} {f g : List Char}
    (h : (dumps python x).toList ++ f = (dumps python y).toList ++ g) : lead x = lead y := by
  obtain ⟨c, r, hx, hxc⟩ := dumps_lead hpython x
  obtain ⟨d, s, hy, hyd⟩ := dumps_lead hpython y
  rw [hx, hy, List.cons_append, List.cons_append] at h
  rw [← hxc, ← hyd, (List.cons.inj h).1]

/-! ### Lists -/

variable (python) in
/-- What is written after an item of a list. -/
def afterItem : List Document → List Char
  | [] => [']']
  | x :: xs => ',' :: ' ' :: ((dumps python x).toList ++ afterItem xs)

variable (python) in
/-- What is written after the opening bracket. -/
def afterBracket : List Document → List Char
  | [] => [']']
  | x :: xs => (dumps python x).toList ++ afterItem python xs

theorem dumpItems_eq (items : List Document) : dumpItems python items = items.map (dumps python) := by
  induction items with
  | nil => rfl
  | cons x xs ih => rw [dumpItems, ih, List.map_cons]

theorem dumps_arr (items : List Document) : (dumps python (.arr items)).toList = '[' :: afterBracket python items := by
  rw [dumps, dumpItems_eq, String.toList_append, String.toList_append]
  show '[' :: (_ ++ _) = _
  congr 1
  cases items with
  | nil => simp [afterBracket]
  | cons x xs =>
    rw [afterBracket]
    induction xs generalizing x with
    | nil => simp [afterItem]
    | cons y ys ih =>
      rw [List.map_cons, List.map_cons, String.intercalate_cons_cons, ← List.map_cons, afterItem, ← ih y]
      simp

theorem ends_afterItem (items : List Document) (f : List Char) : Ends (afterItem python items ++ f) := by
  cases items with
  | nil => exact notBefore_cons (by decide) _
  | cons => exact notBefore_cons (by decide) _

/-- The text of a value is read where it ends, and as no other value. -/
def ReadBack (python : Python) (x : Document) : Prop :=
  ∀ y, ObjectFree y → ∀ f g, Ends f → Ends g → (dumps python x).toList ++ f = (dumps python y).toList ++ g → x = y ∧ f = g

theorem afterItem_readable {xs ys : List Document} (hxs : ∀ x ∈ xs, ReadBack python x) (hys : ∀ y ∈ ys, ObjectFree y)
    {f g : List Char} (h : afterItem python xs ++ f = afterItem python ys ++ g) : xs = ys ∧ f = g := by
  induction xs generalizing ys with
  | nil =>
    cases ys with
    | nil => exact ⟨rfl, (List.cons.inj h).2⟩
    | cons y ys => exact absurd (List.cons.inj h).1 (by decide)
  | cons x xs ih =>
    cases ys with
    | nil => exact absurd (List.cons.inj h).1 (by decide)
    | cons y ys =>
      rw [afterItem, afterItem, List.cons_append, List.cons_append, List.cons_append, List.cons_append, List.append_assoc,
        List.append_assoc] at h
      have hfirst := (List.cons.inj (List.cons.inj h).2).2
      obtain ⟨rfl, hrest⟩ := hxs x List.mem_cons_self y (hys y List.mem_cons_self) _ _ (ends_afterItem _ _) (ends_afterItem _ _) hfirst
      obtain ⟨rfl, rfl⟩ := ih (fun x hx => hxs x (List.mem_cons_of_mem _ hx)) (fun y hy => hys y (List.mem_cons_of_mem _ hy)) hrest
      exact ⟨rfl, rfl⟩

theorem bracket_apart (hpython : python.Legible) (x : Document) (f g : List Char) : (dumps python x).toList ++ f ≠ ']' :: g := by
  intro heq
  obtain ⟨c, r, hx, hlead⟩ := dumps_lead hpython x
  rw [hx, List.cons_append] at heq
  obtain rfl := (List.cons.inj heq).1
  exact lead_ne_bracket x (hlead.symm.trans (by decide))

theorem afterBracket_readable (hpython : python.Legible) {xs ys : List Document} (hxs : ∀ x ∈ xs, ReadBack python x)
    (hys : ∀ y ∈ ys, ObjectFree y) {f g : List Char} (h : afterBracket python xs ++ f = afterBracket python ys ++ g) :
    xs = ys ∧ f = g := by
  cases xs with
  | nil =>
    cases ys with
    | nil => exact ⟨rfl, (List.cons.inj h).2⟩
    | cons y ys =>
      rw [afterBracket, afterBracket, List.append_assoc] at h
      exact absurd h.symm (bracket_apart hpython y _ _)
  | cons x xs =>
    cases ys with
    | nil =>
      rw [afterBracket, afterBracket, List.append_assoc] at h
      exact absurd h (bracket_apart hpython x _ _)
    | cons y ys =>
      rw [afterBracket, afterBracket, List.append_assoc, List.append_assoc] at h
      obtain ⟨rfl, hrest⟩ := hxs x List.mem_cons_self y (hys y List.mem_cons_self) _ _ (ends_afterItem _ _) (ends_afterItem _ _) h
      obtain ⟨rfl, rfl⟩ := afterItem_readable (fun x hx => hxs x (List.mem_cons_of_mem _ hx))
        (fun y hy => hys y (List.mem_cons_of_mem _ hy)) hrest
      exact ⟨rfl, rfl⟩

theorem scalar_readBack (hpython : python.Legible) {x : Document} (hx : x.isContainer = false) : ReadBack python x := by
  intro y _ f g hf hg h
  rcases kind_of_lead (lead_eq hpython h) with rfl | ⟨hnumeric, hnumeric'⟩ | ⟨s, t, rfl, rfl⟩ | ⟨xs, ys, rfl, rfl⟩ | ⟨ms, ns, rfl, rfl⟩
  · exact ⟨rfl, List.append_cancel_left h⟩
  · obtain ⟨htext, hrest⟩ := append_class (dumps_number hpython hnumeric).2 (dumps_number hpython hnumeric').2 hf hg h
    exact ⟨dumps_number_injective hpython hnumeric hnumeric' (String.toList_inj.mp htext), hrest⟩
  · rw [dumps, dumps] at h
    obtain ⟨rfl, rfl⟩ := dumpString_readable h
    exact ⟨rfl, rfl⟩
  · cases hx
  · cases hx

theorem readBack (hpython : python.Legible) {x : Document} (hx : ObjectFree x) : ReadBack python x := by
  induction hx with
  | scalar hx => exact scalar_readBack hpython hx
  | @arr xs _ ih =>
    intro y hy f g _ _ h
    have harr : ∃ ys, y = .arr ys := by
      rcases kind_of_lead (lead_eq hpython h) with rfl | ⟨hnumeric, -⟩ | ⟨s, t, hs, -⟩ | ⟨-, ys, -, rfl⟩ | ⟨ms, ns, hms, -⟩
      · exact ⟨xs, rfl⟩
      · cases hnumeric
      · cases hs
      · exact ⟨ys, rfl⟩
      · cases hms
    obtain ⟨ys, rfl⟩ := harr
    rw [dumps_arr, dumps_arr, List.cons_append, List.cons_append] at h
    obtain ⟨rfl, rfl⟩ := afterBracket_readable hpython ih hy.items (List.cons.inj h).2
    exact ⟨rfl, rfl⟩

/-- Values without objects that have one text are one. -/
theorem dumps_injective (hpython : python.Legible) {x y : Document} (hx : ObjectFree x) (hy : ObjectFree y)
    (h : dumps python x = dumps python y) : x = y :=
  (readBack hpython hx y hy [] [] (notBefore_nil _) (notBefore_nil _) (by rw [h])).1

end

end DataNexus.Evals
