/-
  DataNexus.Lib.QuotedText — statement texts with double-quoted names and `?` markers.

  A text is written place by place: fixed text, a name between double quotes (a quote inside
  it doubled) or a marker for a bound value. `lex` reads a text by the double-quote rule
  alone and knows nothing of places.

  - `lex_text`: of places that are apart (no name directly after a name, no quote and no
    marker in the fixed text) the lexer reads exactly the tokens written, each name as it
    was given.
  - `text_joined`, `literals_joined`, `Separated.joined`: lists written with a separator.
-/

import Mathlib

namespace DataNexus.Lib.QuotedText

/-- The double quote. -/
def quoteMark : Char := Char.ofNat 34

inductive Token where
  | name (text : String)
  | marker
  | plain (c : Char)
  deriving DecidableEq

/-- A part of a text; `π` is what a marker stands for. -/
inductive Place (π : Type) where
  | plain (text : String)
  | name (text : String)
  | literal (value : π)
  deriving DecidableEq

/-! ## Writing -/

def doubled : List Char → List Char
  | [] => []
  | c :: cs => if c = quoteMark then quoteMark :: quoteMark :: doubled cs else c :: doubled cs

def quoted (name : String) : String := String.ofList (quoteMark :: (doubled name.toList ++ [quoteMark]))

section

variable {π : Type}

def Place.text : Place π → String
  | .plain text => text
  | .name text => quoted text
  | .literal _ => "?"

def Place.tokens : Place π → List Token
  | .plain text => text.toList.map Token.plain
  | .name text => [.name text]
  | .literal _ => [.marker]

def Place.literal? : Place π → Option π
  | .literal value => some value
  | _ => none

def Place.name? : Place π → Option String
  | .name text => some text
  | _ => none

def text : List (Place π) → String
  | [] => ""
  | place :: places => place.text ++ text places

def tokens (places : List (Place π)) : List Token := places.flatMap Place.tokens

/-- The values the markers stand for, in the order of the markers. -/
def literals (places : List (Place π)) : List π := places.filterMap Place.literal?

def names (places : List (Place π)) : List String := places.filterMap Place.name?

@[simp] theorem text_nil : text ([] : List (Place π)) = "" := rfl

@[simp] theorem text_cons (place : Place π) (places : List (Place π)) :
    text (place :: places) = place.text ++ text places := rfl

@[simp] theorem text_append (ps qs : List (Place π)) : text (ps ++ qs) = text ps ++ text qs := by
  induction ps with
  | nil => simp
  | cons p ps ih => simp [ih, String.append_assoc]

@[simp] theorem tokens_nil : tokens ([] : List (Place π)) = [] := rfl

@[simp] theorem tokens_cons (place : Place π) (places : List (Place π)) :
    tokens (place :: places) = place.tokens ++ tokens places := rfl

@[simp] theorem tokens_append (ps qs : List (Place π)) : tokens (ps ++ qs) = tokens ps ++ tokens qs :=
  List.flatMap_append

@[simp] theorem literals_nil : literals ([] : List (Place π)) = [] := rfl

@[simp] theorem literals_plain (t : String) (ps : List (Place π)) : literals (.plain t :: ps) = literals ps := rfl

@[simp] theorem literals_name (n : String) (ps : List (Place π)) : literals (.name n :: ps) = literals ps := rfl

@[simp] theorem literals_literal (value : π) (ps : List (Place π)) :
    literals (.literal value :: ps) = value :: literals ps := rfl

@[simp] theorem literals_append (ps qs : List (Place π)) : literals (ps ++ qs) = literals ps ++ literals qs :=
  List.filterMap_append

@[simp] theorem names_nil : names ([] : List (Place π)) = [] := rfl

@[simp] theorem names_plain (t : String) (ps : List (Place π)) : names (.plain t :: ps) = names ps := rfl

@[simp] theorem names_name (n : String) (ps : List (Place π)) : names (.name n :: ps) = n :: names ps := rfl

@[simp] theorem names_literal (value : π) (ps : List (Place π)) : names (.literal value :: ps) = names ps := rfl

@[simp] theorem names_append (ps qs : List (Place π)) : names (ps ++ qs) = names ps ++ names qs :=
  List.filterMap_append

theorem name_mem_tokens {places : List (Place π)} {n : String} : Token.name n ∈ tokens places ↔ n ∈ names places := by
  induction places with
  | nil => simp
  | cons place places ih => cases place <;> simp [Place.tokens, ih]

theorem count_marker_tokens (places : List (Place π)) : (tokens places).count .marker = (literals places).length := by
  induction places with
  | nil => rfl
  | cons place places ih =>
    cases place with
    | plain t =>
      have hplain : (t.toList.map Token.plain).count .marker = 0 := List.count_eq_zero.mpr (by simp)
      simp [Place.tokens, ih, hplain]
    | name n => simp [Place.tokens, ih]
    | literal value => simp [Place.tokens, ih, Nat.add_comm]

/-! ## Lists with a separator -/

def joined (separator : String) : List (List (Place π)) → List (Place π)
  | [] => []
  | [ps] => ps
  | ps :: qs :: rest => ps ++ .plain separator :: joined separator (qs :: rest)

theorem text_joined (separator : String) (items : List (List (Place π))) :
    text (joined separator items) = separator.intercalate (items.map text) := by
  induction items with
  | nil => simp [joined]
  | cons ps items ih =>
    cases items with
    | nil => simp [joined]
    | cons qs rest =>
      rw [joined, text_append, text_cons, ih]
      simp [Place.text, String.append_assoc]

theorem literals_joined (separator : String) (items : List (List (Place π))) :
    literals (joined separator items) = items.flatMap literals := by
  induction items with
  | nil => rfl
  | cons ps items ih =>
    cases items with
    | nil => simp [joined]
    | cons qs rest => simp [joined, ih]

theorem names_joined (separator : String) (items : List (List (Place π))) :
    names (joined separator items) = items.flatMap names := by
  induction items with
  | nil => rfl
  | cons ps items ih =>
    cases items with
    | nil => simp [joined]
    | cons qs rest => simp [joined, ih]

/-! ## Places that are apart -/

/-- Neither a quote nor a marker, by their code points. -/
def isBare (text : String) : Bool := text.toList.all fun c => c.toNat != 34 && c.toNat != 63

/-- Fixed text: bare, and there. -/
def isFixed (text : String) : Bool := text ≠ "" && isBare text

theorem isBare_iff {t : String} : isBare t = true ↔ ∀ c ∈ t.toList, c ≠ quoteMark ∧ c ≠ '?' := by
  have hchar : ∀ c d : Char, c.toNat ≠ d.toNat ↔ c ≠ d := fun c d => not_congr Char.toNat_inj
  simp only [isBare, List.all_eq_true, Bool.and_eq_true, bne_iff_ne]
  exact forall₂_congr fun c _ => and_congr (hchar c quoteMark) (hchar c '?')

theorem isFixed_iff {t : String} : isFixed t = true ↔ t ≠ "" ∧ isBare t = true := by
  simp [isFixed]

theorem isBare_append {s t : String} (hs : isBare s = true) (ht : isBare t = true) : isBare (s ++ t) = true := by
  simp only [isBare, String.toList_append, List.all_append, Bool.and_eq_true]
  exact ⟨hs, ht⟩

theorem isFixed_append {s t : String} (hs : isFixed s = true) (ht : isBare t = true) : isFixed (s ++ t) = true := by
  obtain ⟨hne, hbare⟩ := isFixed_iff.mp hs
  refine isFixed_iff.mpr ⟨?_, isBare_append hbare ht⟩
  simp [hne]

theorem isBare_repr (n : Nat) : isBare n.repr = true := by
  refine isBare_iff.mpr fun c hc => ?_
  rw [Nat.toList_repr] at hc
  have hdigit : c.isDigit = true := Nat.isDigit_of_mem_toDigits (by decide) (by decide) hc
  constructor
  · rintro rfl
    exact absurd hdigit (by decide)
  · rintro rfl
    exact absurd hdigit (by decide)

theorem isBare_toString (n : Nat) : isBare (toString n) = true := isBare_repr n

theorem isBare_toString_int (n : Int) : isBare (toString n) = true := by
  rw [Int.toString_eq_repr, Int.repr_eq_if]
  split
  · exact isBare_repr _
  · have hminus : isBare "-" = true := by decide
    exact isBare_append hminus (isBare_repr _)

def Place.Written : Place π → Prop
  | .plain text => isFixed text = true
  | .name _ | .literal _ => True

def Place.isName : Place π → Bool
  | .name _ => true
  | _ => false

structure Separated (places : List (Place π)) : Prop where
  written : ∀ place ∈ places, place.Written
  apart : places.IsChain fun p q => (p.isName && q.isName) = false

theorem Separated.nil : Separated ([] : List (Place π)) := ⟨by simp, .nil⟩

theorem Separated.single {place : Place π} (h : place.Written) : Separated [place] :=
  ⟨by simpa using h, .singleton _⟩

theorem Separated.plain {t : String} (h : isFixed t = true) : Separated [(.plain t : Place π)] := .single h

theorem Separated.name (n : String) : Separated [(.name n : Place π)] := .single trivial

theorem Separated.literal (value : π) : Separated [(.literal value : Place π)] := .single trivial

theorem Separated.append {ps qs : List (Place π)} (hp : Separated ps) (hq : Separated qs)
    (h : ∀ p ∈ ps.getLast?, ∀ q ∈ qs.head?, (p.isName && q.isName) = false) : Separated (ps ++ qs) where
  written := by
    intro place hplace
    rcases List.mem_append.mp hplace with hplace | hplace
    · exact hp.written place hplace
    · exact hq.written place hplace
  apart := List.isChain_append.mpr ⟨hp.apart, hq.apart, h⟩

theorem Separated.fixed {t : String} {ps : List (Place π)} (h : isFixed t = true) (hp : Separated ps) :
    Separated (.plain t :: ps) :=
  (Separated.plain h).append hp (by simp [Place.isName])

theorem Separated.marked {value : π} {ps : List (Place π)} (hp : Separated ps) : Separated (.literal value :: ps) :=
  (Separated.literal value).append hp (by simp [Place.isName])

theorem Separated.between {t : String} {ps qs : List (Place π)} (hp : Separated ps) (h : isFixed t = true)
    (hq : Separated qs) : Separated (ps ++ .plain t :: qs) :=
  hp.append (hq.fixed h) (by simp [Place.isName])

theorem Separated.named {t n : String} {qs : List (Place π)} (h : isFixed t = true) (hq : Separated qs) :
    Separated (.name n :: .plain t :: qs) := (Separated.name n).between h hq

theorem Separated.joined {separator : String} {items : List (List (Place π))} (h : isFixed separator = true)
    (hitems : ∀ ps ∈ items, Separated ps) : Separated (joined separator items) := by
  induction items with
  | nil => exact .nil
  | cons ps items ih =>
    have hps := hitems ps (by simp)
    cases items with
    | nil => exact hps
    | cons qs rest => exact hps.between h (ih fun rs hrs => hitems rs (by simp [hrs]))

end

/-! ## Reading -/

/-- Where the lexer is: outside a name, inside one, or at a quote that may end it. -/
inductive Scan where
  | outside
  | inside (name : List Char)
  | closing (name : List Char)

def tokenOf (c : Char) : Token := if c = '?' then .marker else .plain c

def lexFrom : Scan → List Char → Option (List Token)
  | .outside, [] => some []
  | .inside _, [] => none
  | .closing name, [] => some [.name (String.ofList name)]
  | .outside, c :: cs =>
    if c = quoteMark then lexFrom (.inside []) cs else (lexFrom .outside cs).map (tokenOf c :: ·)
  | .inside name, c :: cs =>
    if c = quoteMark then lexFrom (.closing name) cs else lexFrom (.inside (name ++ [c])) cs
  | .closing name, c :: cs =>
    if c = quoteMark then lexFrom (.inside (name ++ [quoteMark])) cs
    else (lexFrom .outside cs).map fun ts => .name (String.ofList name) :: tokenOf c :: ts

def lex (s : String) : Option (List Token) := lexFrom .outside s.toList

theorem lexFrom_fixed {cs : List Char} (h : ∀ c ∈ cs, c ≠ quoteMark ∧ c ≠ '?') (rest : List Char) :
    lexFrom .outside (cs ++ rest) = (lexFrom .outside rest).map (cs.map Token.plain ++ ·) := by
  induction cs with
  | nil => simp
  | cons c cs ih =>
    obtain ⟨hquote, hmarker⟩ := h c (by simp)
    have hc : tokenOf c = .plain c := if_neg hmarker
    rw [List.cons_append, lexFrom, if_neg hquote, ih fun d hd => h d (by simp [hd]), Option.map_map, hc]
    rfl

/-- Inside a name the doubled characters are read as the characters. -/
theorem lexFrom_doubled (name acc rest : List Char) :
    lexFrom (.inside acc) (doubled name ++ quoteMark :: rest) = lexFrom (.closing (acc ++ name)) rest := by
  induction name generalizing acc with
  | nil => simp [doubled, lexFrom]
  | cons c name ih =>
    by_cases hc : c = quoteMark
    · subst hc
      have hstep : lexFrom (.inside acc) (quoteMark :: quoteMark :: (doubled name ++ quoteMark :: rest)) =
          lexFrom (.inside (acc ++ [quoteMark])) (doubled name ++ quoteMark :: rest) := by
        simp [lexFrom]
      rw [doubled, if_pos rfl, List.cons_append, List.cons_append, hstep, ih]
      simp
    · rw [doubled, if_neg hc, List.cons_append, lexFrom, if_neg hc, ih]
      simp

/-- A name ends at a character that is no quote. -/
theorem lexFrom_closing (name : List Char) {rest : List Char} (h : ∀ c ∈ rest.head?, c ≠ quoteMark) :
    lexFrom (.closing name) rest = (lexFrom .outside rest).map (.name (String.ofList name) :: ·) := by
  cases rest with
  | nil => rfl
  | cons c rest =>
    have hc : c ≠ quoteMark := h c rfl
    rw [lexFrom, lexFrom, if_neg hc, if_neg hc, Option.map_map]
    rfl

variable {π : Type}

/-- One place: what it writes is read as its token, if no quote follows a name. -/
theorem lexFrom_place {place : Place π} (h : place.Written) {rest : List Char}
    (hrest : place.isName = true → ∀ c ∈ rest.head?, c ≠ quoteMark) :
    lexFrom .outside (place.text.toList ++ rest) = (lexFrom .outside rest).map (place.tokens ++ ·) := by
  cases place with
  | plain t => exact lexFrom_fixed (isBare_iff.mp (isFixed_iff.mp h).2) rest
  | name n =>
    calc lexFrom .outside ((quoted n).toList ++ rest)
        = lexFrom (.inside []) (doubled n.toList ++ quoteMark :: rest) := by
          simp [quoted, lexFrom]
      _ = lexFrom (.closing n.toList) rest := lexFrom_doubled n.toList [] rest
      _ = _ := by
          rw [lexFrom_closing _ (hrest rfl), String.ofList_toList]
          rfl
  | literal value =>
    have hmarker : '?' ≠ quoteMark := by decide
    calc lexFrom .outside ("?".toList ++ rest) = lexFrom .outside ('?' :: rest) := by simp
      _ = (lexFrom .outside rest).map (tokenOf '?' :: ·) := by rw [lexFrom, if_neg hmarker]

/-- What follows a name does not start with a quote. -/
theorem head_text {p : Place π} {ps : List (Place π)} (h : Separated (p :: ps)) (hp : p.isName = true) :
    ∀ c ∈ (text ps).toList.head?, c ≠ quoteMark := by
  cases ps with
  | nil => simp
  | cons q qs =>
    have hq : q.isName = false := by
      have hapart := (List.isChain_cons_cons.mp h.apart).1
      simpa [hp] using hapart
    have hwritten := h.written q (by simp)
    intro c hc
    cases q with
    | name n => cases hq
    | literal value =>
      obtain rfl : '?' = c := by simpa [Place.text] using hc
      decide
    | plain t =>
      obtain ⟨hne, hbare⟩ := isFixed_iff.mp hwritten
      refine (isBare_iff.mp hbare c ?_).1
      have hchars : t.toList ≠ [] := by simpa using hne
      obtain ⟨d, ds, hds⟩ := List.exists_cons_of_ne_nil hchars
      have hcd : d = c := by simpa [Place.text, hds] using hc
      rw [hds, ← hcd]
      exact List.mem_cons_self

/-- What is written is read back, name by name and marker by marker. -/
theorem lex_text {places : List (Place π)} (h : Separated places) : lex (text places) = some (tokens places) := by
  unfold lex
  induction places with
  | nil => rfl
  | cons p ps ih =>
    have hps : Separated ps :=
      ⟨fun place hplace => h.written place (by simp [hplace]), h.apart.tail⟩
    rw [text_cons, String.toList_append, lexFrom_place (h.written p (by simp)) (head_text h), ih hps]
    rfl

end DataNexus.Lib.QuotedText
