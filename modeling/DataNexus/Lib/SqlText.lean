/-
  DataNexus.Lib.SqlText — the text of lexemes, and the lexer that reads it.

  `text` writes one blank between two lexemes, except inside brackets, before a comma and
  between COALESCE and its bracket. The lexer is a machine over characters: it collects a
  word, a symbol, a parameter or a back-quoted name, and gives the lexeme out at the first
  character that does not belong to it (`lex_text`).
-/

import DataNexus.Lib.SqlExpression

namespace DataNexus.Lib.SqlExpression

def BinaryOperator.text : BinaryOperator → String
  | or => "OR" | and => "AND" | equal => "=" | notEqual => "<>" | lessThan => "<" | lessEqual => "<="
  | greaterThan => ">" | greaterEqual => ">=" | add => "+" | subtract => "-" | multiply => "*" | divide => "/"

def Keyword.text : Keyword → String
  | .not => "NOT" | .is => "IS" | .null => "NULL" | .true => "TRUE" | .false => "FALSE" | .coalesce => "COALESCE"
  | .case => "CASE" | .when => "WHEN" | .then => "THEN" | .else => "ELSE" | .end => "END"

def Lexeme.characters : Lexeme → List Char
  | .identifier name => Char.ofNat 96 :: (name.toList ++ [Char.ofNat 96])
  | .parameter name => ':' :: name.toList
  | .operator op => op.text.toList
  | .keyword word => word.text.toList
  | .opening => ['(']
  | .closing => [')']
  | .comma => [',']

/-- Whether two neighbours are written without a blank between them. -/
def adjoins : Lexeme → Lexeme → Bool
  | .opening, _ => true
  | _, .closing => true
  | _, .comma => true
  | .keyword .coalesce, .opening => true
  | _, _ => false

def characters : List Lexeme → List Char
  | [] => []
  | [l] => l.characters
  | l :: l' :: ls => l.characters ++ (if adjoins l l' then [] else [' ']) ++ characters (l' :: ls)

def text (ls : List Lexeme) : String := String.ofList (characters ls)

/-! ## The lexer -/

/-- What the lexer has collected of the lexeme it is in. -/
inductive Partial where
  | blank
  | quoted (name : List Char)
  | parameter (name : List Char)
  | word (letters : List Char)
  | symbol (characters : List Char)

def wordCharacter (c : Char) : Bool := c.isAlphanum || c == '_'

def symbolCharacter (c : Char) : Bool := c ∈ ['=', '<', '>', '+', '-', '*', '/']

def symbolOf (characters : List Char) : Option Lexeme :=
  ([.equal, .notEqual, .lessThan, .lessEqual, .greaterThan, .greaterEqual, .add, .subtract, .multiply, .divide].find?
    fun op : BinaryOperator => op.text.toList = characters).map .operator

def wordOf (letters : List Char) : Option Lexeme :=
  if letters = "OR".toList then some (.operator .or)
  else if letters = "AND".toList then some (.operator .and)
  else ([.not, .is, .null, .true, .false, .coalesce, .case, .when, .then, .else, .end].find?
    fun word : Keyword => word.text.toList = letters).map .keyword

/-- A character that starts a lexeme, or is one. -/
def start (c : Char) : Option (List Lexeme × Partial) :=
  if c = ' ' then some ([], .blank)
  else if c = '(' then some ([.opening], .blank)
  else if c = ')' then some ([.closing], .blank)
  else if c = ',' then some ([.comma], .blank)
  else if c = ':' then some ([], .parameter [])
  else if c = Char.ofNat 96 then some ([], .quoted [])
  else if wordCharacter c then some ([], .word [c])
  else if symbolCharacter c then some ([], .symbol [c])
  else none

/-- The lexeme that ends here. -/
def flush : Partial → Option (List Lexeme)
  | .blank => some []
  | .quoted _ => none
  | .parameter name => some [.parameter (String.ofList name)]
  | .word letters => (wordOf letters).map ([·])
  | .symbol characters => (symbolOf characters).map ([·])

/-- Whether the character goes on with the lexeme. -/
def continues : Partial → Char → Bool
  | .blank, _ => false
  | .quoted _, c => c != Char.ofNat 96
  | .parameter _, c => wordCharacter c
  | .word _, c => wordCharacter c
  | .symbol _, c => symbolCharacter c

def extend : Partial → Char → Partial
  | .blank, _ => .blank
  | .quoted name, c => .quoted (name ++ [c])
  | .parameter name, c => .parameter (name ++ [c])
  | .word letters, c => .word (letters ++ [c])
  | .symbol characters, c => .symbol (characters ++ [c])

def lexFrom : Partial → List Char → Option (List Lexeme)
  | p, [] => flush p
  | p, c :: cs =>
    if continues p c then lexFrom (extend p c) cs
    else match p with
      | .quoted name => (lexFrom .blank cs).map (.identifier (String.ofList name) :: ·)
      | p => (flush p).bind fun done => (start c).bind fun (given, next) =>
        (lexFrom next cs).map fun ls => done ++ given ++ ls

def lex (s : String) : Option (List Lexeme) := lexFrom .blank s.toList

/-! ## Reading a text back -/

/-- Names that can be written: no back-quote inside a back-quoted one, and a parameter is a
    word. -/
def Lexeme.Writable : Lexeme → Prop
  | .identifier name => Char.ofNat 96 ∉ name.toList
  | .parameter name => ∀ c ∈ name.toList, wordCharacter c = true
  | _ => True

/-- The lexeme is collected but not yet given out. -/
def Lexeme.pending : Lexeme → Option Partial
  | .parameter name => some (.parameter name.toList)
  | .operator .or => some (.word "OR".toList)
  | .operator .and => some (.word "AND".toList)
  | .operator op => some (.symbol op.text.toList)
  | .keyword word => some (.word word.text.toList)
  | .identifier _ | .opening | .closing | .comma => none

theorem continues_extend (p : Partial) (c d : Char) : continues (extend p c) d = continues p d := by
  cases p <;> rfl

/-- Characters that go on with the lexeme are collected one after the other. -/
theorem lexFrom_collect {p : Partial} {name : List Char} (h : ∀ c ∈ name, continues p c = true) (cs : List Char) :
    lexFrom p (name ++ cs) = lexFrom (name.foldl extend p) cs := by
  induction name generalizing p with
  | nil => rfl
  | cons c name ih =>
    have hc : continues p c = true := h c (by simp)
    have hrest : ∀ d ∈ name, continues (extend p c) d = true := by
      intro d hd
      rw [continues_extend]
      exact h d (by simp [hd])
    calc lexFrom p (c :: (name ++ cs)) = lexFrom (extend p c) (name ++ cs) := by
          cases p <;> exact if_pos hc
      _ = _ := ih hrest

theorem foldl_extend_quoted (acc name : List Char) : name.foldl extend (.quoted acc) = .quoted (acc ++ name) := by
  induction name generalizing acc with
  | nil => simp
  | cons c name ih => simp [extend, ih]

theorem foldl_extend_parameter (acc name : List Char) :
    name.foldl extend (.parameter acc) = .parameter (acc ++ name) := by
  induction name generalizing acc with
  | nil => simp
  | cons c name ih => simp [extend, ih]

theorem lexFrom_quoted {name : List Char} (h : Char.ofNat 96 ∉ name) (cs : List Char) :
    lexFrom .blank (Char.ofNat 96 :: (name ++ Char.ofNat 96 :: cs)) =
      (lexFrom .blank cs).map (.identifier (String.ofList name) :: ·) := by
  have hname : ∀ c ∈ name, continues (.quoted []) c = true := by
    intro c hc
    have : c ≠ Char.ofNat 96 := fun e => h (e ▸ hc)
    simpa [continues] using this
  calc lexFrom .blank (Char.ofNat 96 :: (name ++ Char.ofNat 96 :: cs))
      = (lexFrom (.quoted []) (name ++ Char.ofNat 96 :: cs)).map fun ls => [] ++ [] ++ ls := rfl
    _ = lexFrom (.quoted name) (Char.ofNat 96 :: cs) := by
        rw [lexFrom_collect hname, foldl_extend_quoted]
        simp
    _ = _ := rfl

theorem lexFrom_parameter {name : List Char} (h : ∀ c ∈ name, wordCharacter c = true) (cs : List Char) :
    lexFrom .blank (':' :: (name ++ cs)) = lexFrom (.parameter name) cs := by
  calc lexFrom .blank (':' :: (name ++ cs))
      = (lexFrom (.parameter []) (name ++ cs)).map fun ls => [] ++ [] ++ ls := rfl
    _ = lexFrom (.parameter name) cs := by
        rw [lexFrom_collect (p := .parameter []) h, foldl_extend_parameter]
        simp

/-- The characters of a lexeme take the lexer from a blank to the lexeme: given out, or
    pending. -/
theorem lexFrom_characters {l : Lexeme} (h : l.Writable) (cs : List Char) :
    lexFrom .blank (l.characters ++ cs) =
      match l.pending with
      | some p => lexFrom p cs
      | none => (lexFrom .blank cs).map (l :: ·) := by
  have hmap : ∀ o : Option (List Lexeme), (o.map fun ls => [] ++ [] ++ ls) = o := by simp
  cases l with
  | identifier name =>
    have := lexFrom_quoted h cs
    simpa [Lexeme.characters, Lexeme.pending] using this
  | parameter name => exact lexFrom_parameter h cs
  | operator op => cases op <;> exact hmap _
  | keyword word => cases word <;> exact hmap _
  | opening => rfl
  | closing => rfl
  | comma => rfl

theorem flush_pending {l : Lexeme} {p : Partial} (hp : l.pending = some p) : flush p = some [l] := by
  cases l with
  | parameter name =>
    cases hp
    simp [flush]
  | operator op => cases op <;> cases hp <;> decide
  | keyword word => cases word <;> cases hp <;> decide
  | identifier _ | opening | closing | comma => cases hp

/-- A character that no word, symbol or parameter goes on with gives the pending lexeme
    out. -/
theorem lexFrom_pending {l : Lexeme} {p : Partial} (hp : l.pending = some p) {c : Char}
    (hc : c ∈ [' ', '(', ')', ',']) (cs : List Char) :
    lexFrom p (c :: cs) = (lexFrom .blank (c :: cs)).map (l :: ·) := by
  have hflush := flush_pending hp
  have hword : wordCharacter c = false ∧ symbolCharacter c = false := by
    simp only [List.mem_cons, List.not_mem_nil, or_false] at hc
    obtain rfl | rfl | rfl | rfl := hc <;> decide
  cases p with
  | quoted name =>
    cases l with
    | operator op => cases op <;> cases hp
    | _ => cases hp
  | blank => cases hflush
  | parameter name | word letters | symbol characters =>
    have hblank : flush .blank = some [] := rfl
    simp only [lexFrom, continues, hword, hflush, hblank, Bool.false_eq_true, if_false]
    cases start c with
    | none => rfl
    | some next => simp [Function.comp_def]

/-- A lexeme that adjoins a pending one starts with a character that ends it. -/
theorem characters_of_adjoins {l l' : Lexeme} {p : Partial} (hp : l.pending = some p) (h : adjoins l l' = true) :
    ∃ c ∈ [' ', '(', ')', ','], l'.characters = [c] := by
  cases l' with
  | closing => exact ⟨')', by decide, rfl⟩
  | comma => exact ⟨',', by decide, rfl⟩
  | opening => exact ⟨'(', by decide, rfl⟩
  | _ =>
    cases l with
    | opening => cases hp
    | keyword word => cases word <;> cases h
    | _ => cases h

theorem characters_cons_append (l : Lexeme) (ls : List Lexeme) :
    ∃ cs, characters (l :: ls) = l.characters ++ cs := by
  cases ls with
  | nil => exact ⟨[], (List.append_nil _).symm⟩
  | cons l' ls => exact ⟨_, List.append_assoc _ _ _⟩

theorem lexFrom_characters_cons {l : Lexeme} (h : l.Writable) (l' : Lexeme) (ls : List Lexeme) :
    lexFrom .blank (characters (l :: l' :: ls)) = (lexFrom .blank (characters (l' :: ls))).map (l :: ·) := by
  have hblank : ∀ cs, lexFrom .blank (' ' :: cs) = lexFrom .blank cs := by
    intro cs
    show ((lexFrom .blank cs).map fun ls => [] ++ [] ++ ls) = _
    simp
  show lexFrom .blank (l.characters ++ (if adjoins l l' then [] else [' ']) ++ characters (l' :: ls)) = _
  rw [List.append_assoc, lexFrom_characters h]
  cases hp : l.pending with
  | none =>
    by_cases hadj : adjoins l l' = true
    · simp [hadj]
    · simp [hadj, hblank]
  | some p =>
    by_cases hadj : adjoins l l' = true
    · obtain ⟨c, hc, hchars⟩ := characters_of_adjoins hp hadj
      obtain ⟨cs, hcs⟩ := characters_cons_append l' ls
      rw [hcs, hchars]
      simpa [hadj] using lexFrom_pending hp hc cs
    · have := lexFrom_pending hp (c := ' ') (by decide) (characters (l' :: ls))
      rw [hblank] at this
      simpa [hadj] using this

/-- What is written is read back. -/
theorem lex_text {ls : List Lexeme} (h : ∀ l ∈ ls, l.Writable) : lex (text ls) = some ls := by
  unfold lex text
  rw [String.toList_ofList]
  induction ls with
  | nil => rfl
  | cons l ls ih =>
    have hl : l.Writable := h l (by simp)
    cases ls with
    | nil =>
      have hend := lexFrom_characters hl []
      rw [List.append_nil] at hend
      show lexFrom .blank l.characters = _
      rw [hend]
      cases hp : l.pending with
      | none => rfl
      | some p =>
        show lexFrom p [] = _
        rw [lexFrom, flush_pending hp]
    | cons l' ls =>
      rw [lexFrom_characters_cons hl, ih fun k hk => h k (by simp [hk])]
      rfl

/-! ## Texts put together -/

theorem characters_append (ls : List Lexeme) (l l' : Lexeme) (ls' : List Lexeme) :
    characters (ls ++ l :: l' :: ls') =
      characters (ls ++ [l]) ++ (if adjoins l l' then [] else [' ']) ++ characters (l' :: ls') := by
  induction ls with
  | nil => rfl
  | cons k ls ih =>
    cases ls with
    | nil =>
      show k.characters ++ _ ++ characters (l :: l' :: ls') = k.characters ++ _ ++ l.characters ++ _ ++ _
      simp [characters]
    | cons k' ls =>
      show k.characters ++ _ ++ characters (k' :: ls ++ l :: l' :: ls') =
        k.characters ++ _ ++ characters (k' :: ls ++ [l]) ++ _ ++ _
      rw [ih]
      simp [List.append_assoc]

/-- A text that a blank parts from the word before it and the word after it. -/
structure Phrase (ls : List Lexeme) : Prop where
  first : ∃ l rest, ls = l :: rest ∧ l ≠ .closing ∧ l ≠ .comma
  last : ∃ rest l, ls = rest ++ [l] ∧ l ≠ .opening ∧ l ≠ .keyword .coalesce

theorem Phrase.single {l : Lexeme} (h : l ∉ [.closing, .comma, .opening, .keyword .coalesce]) : Phrase [l] where
  first := ⟨l, [], rfl, by aesop, by aesop⟩
  last := ⟨[], l, rfl, by aesop, by aesop⟩

theorem Phrase.append {ls ls' : List Lexeme} (h : Phrase ls) (h' : Phrase ls') : Phrase (ls ++ ls') where
  first := by
    obtain ⟨l, rest, rfl, hl⟩ := h.first
    exact ⟨l, rest ++ ls', rfl, hl⟩
  last := by
    obtain ⟨rest, l, rfl, hl⟩ := h'.last
    exact ⟨ls ++ rest, l, by simp, hl⟩

theorem Phrase.characters_append {ls ls' : List Lexeme} (h : Phrase ls) (h' : Phrase ls') :
    characters (ls ++ ls') = characters ls ++ ' ' :: characters ls' := by
  obtain ⟨rest, l, rfl, hopening, hcoalesce⟩ := h.last
  obtain ⟨l', rest', rfl, hclosing, hcomma⟩ := h'.first
  have hadj : adjoins l l' = false := by
    unfold adjoins
    split <;> simp_all
  rw [List.append_assoc, List.singleton_append, SqlExpression.characters_append, hadj]
  simp

theorem Phrase.characters_closing {ls : List Lexeme} (h : Phrase ls) (rest : List Lexeme) :
    characters (ls ++ .closing :: rest) = characters ls ++ characters (.closing :: rest) := by
  obtain ⟨front, l, rfl, -⟩ := h.last
  have hadj : adjoins l .closing = true := by cases l <;> rfl
  rw [List.append_assoc, List.singleton_append, SqlExpression.characters_append, hadj]
  simp

theorem Phrase.characters_comma {ls ls' : List Lexeme} (h : Phrase ls)
    (h' : ∃ l rest, ls' = l :: rest ∧ l ≠ .closing ∧ l ≠ .comma) :
    characters (ls ++ .comma :: ls') = characters ls ++ ',' :: ' ' :: characters ls' := by
  obtain ⟨front, l, rfl, -⟩ := h.last
  obtain ⟨l', rest, rfl, hclosing, hcomma⟩ := h'
  have hadj : adjoins l .comma = true := by cases l <;> rfl
  have hadj' : adjoins .comma l' = false := by
    cases l' <;> first | rfl | contradiction
  rw [List.append_assoc, List.singleton_append, SqlExpression.characters_append, hadj]
  show _ ++ [] ++ ([','] ++ (if adjoins .comma l' then [] else [' ']) ++ characters (l' :: rest)) = _
  rw [hadj']
  simp

/-- Brackets touch what they enclose. -/
theorem Phrase.characters_bracket {ls : List Lexeme} (h : Phrase ls) :
    characters (.opening :: (ls ++ [.closing])) = '(' :: (characters ls ++ [')']) := by
  obtain ⟨l, rest, hls, -⟩ := h.first
  have hopening : characters (.opening :: (ls ++ [.closing])) = '(' :: characters (ls ++ [.closing]) := by
    rw [hls]
    rfl
  rw [hopening, h.characters_closing]
  rfl

/-- Only an opening bracket starts with one. -/
theorem text_starts (l : Lexeme) (rest : List Lexeme) :
    (text (l :: rest)).toList.head? = some '(' ↔ l = .opening := by
  obtain ⟨cs, hcs⟩ := characters_cons_append l rest
  rw [text, String.toList_ofList, hcs]
  cases l with
  | operator op => cases op <;> simp [Lexeme.characters, BinaryOperator.text]
  | keyword word => cases word <;> simp [Lexeme.characters, Keyword.text]
  | _ => simp [Lexeme.characters]

theorem characters_append_last (rest : List Lexeme) (l : Lexeme) :
    ∃ cs, characters (rest ++ [l]) = cs ++ l.characters := by
  cases rest using List.reverseRecOn with
  | nil => exact ⟨[], rfl⟩
  | append_singleton front k =>
    rw [List.append_assoc, List.singleton_append, characters_append]
    exact ⟨_, rfl⟩

/-- Only a closing bracket ends with one. -/
theorem text_ends (rest : List Lexeme) {l : Lexeme} (h : l.Writable) :
    (text (rest ++ [l])).toList.getLast? = some ')' ↔ l = .closing := by
  obtain ⟨cs, hcs⟩ := characters_append_last rest l
  rw [text, String.toList_ofList, hcs]
  cases l with
  | operator op => cases op <;> simp [Lexeme.characters, BinaryOperator.text]
  | keyword word => cases word <;> simp [Lexeme.characters, Keyword.text]
  | parameter name =>
    have hlast : (':' :: name.toList).getLast? ≠ some ')' := by
      intro hlast
      obtain hc | hc := List.mem_cons.mp (List.mem_of_getLast? hlast)
      · simp at hc
      · exact absurd (h ')' hc) (by decide)
    rw [List.getLast?_append_of_ne_nil _ (by simp [Lexeme.characters])]
    simpa [Lexeme.characters] using hlast
  | identifier name =>
    have hlast : ((Char.ofNat 96 :: name.toList) ++ [Char.ofNat 96]).getLast? ≠ some ')' := by
      rw [List.getLast?_concat]
      decide
    rw [List.getLast?_append_of_ne_nil _ (by simp [Lexeme.characters])]
    simpa [Lexeme.characters] using hlast
  | _ => simp [Lexeme.characters]

mutual

theorem Expr.phrase (x : Expr) : Phrase x.lexemes := by
  cases x with
  | column name => exact Phrase.single (by simp)
  | parameter name => exact Phrase.single (by simp)
  | boolean value => cases value <;> exact Phrase.single (by simp)
  | null => exact Phrase.single (by simp)
  | not x => exact (Phrase.single (l := .keyword .not) (by simp)).append x.phrase
  | isNull x =>
    exact x.phrase.append ((Phrase.single (l := .keyword .is) (by simp)).append
      (Phrase.single (l := .keyword .null) (by simp)))
  | binary op x y => exact x.phrase.append ((Phrase.single (l := .operator op) (by simp)).append y.phrase)
  | coalesce args =>
    obtain ⟨-, rest, hlast⟩ := args.ends
    refine ⟨⟨_, _, rfl, by simp, by simp⟩, ⟨.keyword .coalesce :: .opening :: rest, .closing, ?_, by simp, by simp⟩⟩
    simp [Expr.lexemes, hlast]
  | case arms => exact (Phrase.single (l := .keyword .case) (by simp)).append arms.phrase
  | bracket x =>
    exact ⟨⟨_, _, rfl, by simp, by simp⟩, ⟨.opening :: x.lexemes, .closing, rfl, by simp, by simp⟩⟩
termination_by structural x

theorem Args.ends (args : Args) :
    (∃ l rest, args.lexemes = l :: rest ∧ l ≠ .closing ∧ l ≠ .comma) ∧ ∃ rest, args.lexemes = rest ++ [.closing] := by
  cases args with
  | last x =>
    obtain ⟨l, rest, hx, hl⟩ := x.phrase.first
    exact ⟨⟨l, rest ++ [.closing], by simp [Args.lexemes, hx], hl⟩, ⟨x.lexemes, rfl⟩⟩
  | more x others =>
    obtain ⟨l, rest, hx, hl⟩ := x.phrase.first
    obtain ⟨-, rest', hlast⟩ := others.ends
    exact ⟨⟨l, rest ++ .comma :: others.lexemes, by simp [Args.lexemes, hx], hl⟩,
      ⟨x.lexemes ++ .comma :: rest', by simp [Args.lexemes, hlast]⟩⟩
termination_by structural args

theorem Arms.phrase (arms : Arms) : Phrase arms.lexemes := by
  cases arms with
  | otherwise x =>
    exact (Phrase.single (l := .keyword .else) (by simp)).append
      (x.phrase.append (Phrase.single (l := .keyword .end) (by simp)))
  | when c v others =>
    exact (Phrase.single (l := .keyword .when) (by simp)).append
      (c.phrase.append ((Phrase.single (l := .keyword .then) (by simp)).append (v.phrase.append others.phrase)))
termination_by structural arms

end

mutual

/-- Every name in the tree can be written. -/
def Expr.Writable : Expr → Prop
  | .column name => Lexeme.Writable (.identifier name)
  | .parameter name => Lexeme.Writable (.parameter name)
  | .boolean _ | .null => True
  | .not x | .isNull x | .bracket x => x.Writable
  | .binary _ x y => x.Writable ∧ y.Writable
  | .coalesce args => args.Writable
  | .case arms => arms.Writable

def Args.Writable : Args → Prop
  | .last x => x.Writable
  | .more x rest => x.Writable ∧ rest.Writable

def Arms.Writable : Arms → Prop
  | .otherwise x => x.Writable
  | .when c v rest => c.Writable ∧ v.Writable ∧ rest.Writable

end

theorem forall_append {P : Lexeme → Prop} {ls ls' : List Lexeme} (h : ∀ l ∈ ls, P l) (h' : ∀ l ∈ ls', P l) :
    ∀ l ∈ ls ++ ls', P l := by
  intro l hl
  obtain hl | hl := List.mem_append.mp hl
  · exact h l hl
  · exact h' l hl

mutual

theorem Expr.writable_lexemes (x : Expr) (h : x.Writable) : ∀ l ∈ x.lexemes, l.Writable := by
  cases x with
  | column name => exact List.forall_mem_singleton.mpr h
  | parameter name => exact List.forall_mem_singleton.mpr h
  | boolean value => simp [Expr.lexemes, Lexeme.Writable]
  | null => simp [Expr.lexemes, Lexeme.Writable]
  | not x => exact List.forall_mem_cons.mpr ⟨trivial, x.writable_lexemes h⟩
  | isNull x => exact forall_append (x.writable_lexemes h) (by simp [Lexeme.Writable])
  | binary op x y =>
    exact forall_append (x.writable_lexemes h.1) (List.forall_mem_cons.mpr ⟨trivial, y.writable_lexemes h.2⟩)
  | coalesce args =>
    exact List.forall_mem_cons.mpr ⟨trivial, List.forall_mem_cons.mpr ⟨trivial, args.writable_lexemes h⟩⟩
  | case arms => exact List.forall_mem_cons.mpr ⟨trivial, arms.writable_lexemes h⟩
  | bracket x =>
    exact List.forall_mem_cons.mpr ⟨trivial, forall_append (x.writable_lexemes h) (by simp [Lexeme.Writable])⟩
termination_by structural x

theorem Args.writable_lexemes (args : Args) (h : args.Writable) : ∀ l ∈ args.lexemes, l.Writable := by
  cases args with
  | last x => exact forall_append (x.writable_lexemes h) (by simp [Lexeme.Writable])
  | more x others =>
    exact forall_append (x.writable_lexemes h.1) (List.forall_mem_cons.mpr ⟨trivial, others.writable_lexemes h.2⟩)
termination_by structural args

theorem Arms.writable_lexemes (arms : Arms) (h : arms.Writable) : ∀ l ∈ arms.lexemes, l.Writable := by
  cases arms with
  | otherwise x =>
    exact List.forall_mem_cons.mpr ⟨trivial, forall_append (x.writable_lexemes h) (by simp [Lexeme.Writable])⟩
  | when c v others =>
    exact List.forall_mem_cons.mpr ⟨trivial, forall_append (c.writable_lexemes h.1)
      (List.forall_mem_cons.mpr ⟨trivial, forall_append (v.writable_lexemes h.2.1) (others.writable_lexemes h.2.2)⟩)⟩
termination_by structural arms

end

/-! ## The text of a tree -/

def Expr.text (x : Expr) : String := SqlExpression.text x.lexemes

def Args.text (args : Args) : String := SqlExpression.text args.lexemes

def Arms.text (arms : Arms) : String := SqlExpression.text arms.lexemes

theorem Phrase.text_append {ls ls' : List Lexeme} (h : Phrase ls) (h' : Phrase ls') :
    SqlExpression.text (ls ++ ls') = SqlExpression.text ls ++ " " ++ SqlExpression.text ls' := by
  apply String.toList_inj.mp
  simp [SqlExpression.text, h.characters_append h']

theorem text_not (x : Expr) : (Expr.not x).text = "NOT " ++ x.text :=
  (Phrase.single (l := .keyword .not) (by simp)).text_append x.phrase

theorem text_isNull (x : Expr) : (Expr.isNull x).text = x.text ++ " IS NULL" := by
  have hnull : Phrase [.keyword .is, .keyword .null] := (Phrase.single (l := .keyword .is) (by simp)).append
    (Phrase.single (l := .keyword .null) (by simp))
  rw [Expr.text, Expr.lexemes, x.phrase.text_append hnull, String.append_assoc]
  rfl

theorem text_binary (op : BinaryOperator) (x y : Expr) :
    (Expr.binary op x y).text = x.text ++ " " ++ op.text ++ " " ++ y.text := by
  have hop : Phrase [.operator op] := Phrase.single (by simp)
  have htext : SqlExpression.text [.operator op] = op.text := by
    simp [SqlExpression.text, characters, Lexeme.characters]
  show SqlExpression.text (x.lexemes ++ ([.operator op] ++ y.lexemes)) = _
  rw [x.phrase.text_append (hop.append y.phrase), hop.text_append y.phrase, htext]
  simp [Expr.text, String.append_assoc]

theorem text_bracket (x : Expr) : (Expr.bracket x).text = "(" ++ x.text ++ ")" := by
  apply String.toList_inj.mp
  simp [Expr.text, SqlExpression.text, Expr.lexemes, x.phrase.characters_bracket]

theorem text_coalesce (args : Args) : (Expr.coalesce args).text = "COALESCE(" ++ args.text := by
  obtain ⟨⟨l, rest, hargs, -⟩, -⟩ := args.ends
  apply String.toList_inj.mp
  simp only [Expr.text, Args.text, SqlExpression.text, Expr.lexemes, hargs, String.toList_append, String.toList_ofList]
  rfl

theorem text_last (x : Expr) : (Args.last x).text = x.text ++ ")" := by
  apply String.toList_inj.mp
  simp [Expr.text, Args.text, SqlExpression.text, Args.lexemes, x.phrase.characters_closing, characters,
    Lexeme.characters]

theorem text_more (x : Expr) (rest : Args) : (Args.more x rest).text = x.text ++ ", " ++ rest.text := by
  apply String.toList_inj.mp
  simp [Expr.text, Args.text, SqlExpression.text, Args.lexemes, x.phrase.characters_comma rest.ends.1]

theorem text_case (arms : Arms) : (Expr.case arms).text = "CASE " ++ arms.text :=
  (Phrase.single (l := .keyword .case) (by simp)).text_append arms.phrase

theorem text_when (c v : Expr) (rest : Arms) :
    (Arms.when c v rest).text = "WHEN " ++ c.text ++ " THEN " ++ v.text ++ " " ++ rest.text := by
  have hthen : Phrase [.keyword .then] := Phrase.single (by simp)
  have hwhen : Phrase [.keyword .when] := Phrase.single (by simp)
  have hword : SqlExpression.text [.keyword .then] = "THEN" ∧ SqlExpression.text [.keyword .when] = "WHEN" := by decide
  show SqlExpression.text ([.keyword .when] ++ (c.lexemes ++ ([.keyword .then] ++ (v.lexemes ++ rest.lexemes)))) = _
  rw [hwhen.text_append (c.phrase.append (hthen.append (v.phrase.append rest.phrase))),
    c.phrase.text_append (hthen.append (v.phrase.append rest.phrase)),
    hthen.text_append (v.phrase.append rest.phrase), v.phrase.text_append rest.phrase, hword.1, hword.2]
  apply String.toList_inj.mp
  simp [Expr.text, Arms.text]

theorem text_otherwise (x : Expr) : (Arms.otherwise x).text = "ELSE " ++ x.text ++ " END" := by
  have hend : Phrase [.keyword .end] := Phrase.single (by simp)
  have helse : Phrase [.keyword .else] := Phrase.single (by simp)
  have hword : SqlExpression.text [.keyword .end] = "END" ∧ SqlExpression.text [.keyword .else] = "ELSE" := by decide
  show SqlExpression.text ([.keyword .else] ++ (x.lexemes ++ [.keyword .end])) = _
  rw [helse.text_append (x.phrase.append hend), x.phrase.text_append hend, hword.1, hword.2]
  apply String.toList_inj.mp
  simp [Expr.text]

/-- The text of a tree with writable names and operands at their levels is read as that
    tree. -/
theorem lex_parse_text {x : Expr} (hw : x.Writable) (hl : x.Leveled) : (lex x.text).bind parseAll = some x := by
  rw [Expr.text, lex_text (x.writable_lexemes hw), Option.bind_some, parseAll_lexemes hl]

theorem chain_writable {op : BinaryOperator} {x y : Expr} (hx : x.Writable) (hy : y.Writable) :
    (chain op x y).Writable := by
  fun_induction chain op x y with
  | case1 y z ih => exact ⟨ih hy.1, hy.2⟩
  | case2 | case3 => exact ⟨hx, hy⟩

end DataNexus.Lib.SqlExpression
