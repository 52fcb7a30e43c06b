/-
  DataNexus.Databricks.ExpressionText — what the rendered text reads as.

  The proof follows the renderer: for an expression whose nestings are all `faithful` the
  text is that of a tree of the grammar (`Reads`), with the level, the first and the last
  bracket the source expression says, and with the source's value. Chains of AND and of OR
  are read from the left, whichever way they were nested; they have the same value.
-/

import DataNexus.Databricks.Expressions

namespace DataNexus.Databricks

open Lib Lib.SqlExpression DataNexus.Runtime

variable {V : Type}

/-- Every way the renderer returns. -/
theorem expression_cases {kind : ExpressionKind} {dataType : ScalarType} {column : Option String} {v : ScalarValue}
    {args : List TypedExpression} {parent : Nat} {parameters parameters' : List StatementParameter} {s : String}
    (h : expression (.mk kind dataType column v args) parent parameters = .ok (s, parameters')) :
    (∃ name, kind = .column ∧ column = some name ∧ matchesIdentifier name = true ∧ s = quote name ∧
      parameters' = parameters) ∨
    (∃ type typed, kind = .literal ∧ typedLiteral dataType v = .ok (type, typed) ∧
      s = ":" ++ parameterName parameters.length ∧
      parameters' = parameters ++ [⟨parameterName parameters.length, type, typed⟩]) ∨
    (∃ argument r, kind = .not ∧ args = [argument] ∧ expression argument 0 parameters = .ok (r, parameters') ∧
      s = notText argument.kind r) ∨
    (∃ argument r, kind = .isNull ∧ args = [argument] ∧ expression argument 0 parameters = .ok (r, parameters') ∧
      s = isNullText argument.kind r) ∨
    (∃ rs, kind = .coalesce ∧ args ≠ [] ∧ expressions args parameters = .ok (rs, parameters') ∧
      s = "COALESCE(" ++ ", ".intercalate rs ++ ")") ∨
    (∃ op left right l r parameters₁, binarySql kind = some op ∧ args = [left, right] ∧
      expression left (precedence op) parameters = .ok (l, parameters₁) ∧
      expression right (rightPrecedence op) parameters₁ = .ok (r, parameters') ∧ s = binaryText op parent l r) := by
  unfold expression at h
  split at h
  · split at h
    · rename_i name
      simp only [identifier, bind_eq_ok, refuseIf_eq_ok, pure_eq_ok, Prod.mk.injEq, Bool.not_eq_false'] at h
      obtain ⟨_, ⟨_, hname, rfl⟩, rfl, rfl⟩ := h
      exact .inl ⟨name, rfl, rfl, hname, rfl, rfl⟩
    · cases h
  · simp only [parameter, bind_eq_ok, pure_eq_ok, Prod.mk.injEq] at h
    obtain ⟨_, ⟨⟨type, typed⟩, htyped, rfl⟩, rfl, rfl⟩ := h
    exact .inr (.inl ⟨type, typed, rfl, htyped, rfl, rfl⟩)
  · simp only [bind_eq_ok, pure_eq_ok, Prod.mk.injEq] at h
    obtain ⟨⟨r, _⟩, hr, rfl, rfl⟩ := h
    exact .inr (.inr (.inl ⟨_, r, rfl, rfl, hr, rfl⟩))
  · simp only [bind_eq_ok, pure_eq_ok, Prod.mk.injEq] at h
    obtain ⟨⟨r, _⟩, hr, rfl, rfl⟩ := h
    exact .inr (.inr (.inr (.inl ⟨_, r, rfl, rfl, hr, rfl⟩)))
  · simp only [bind_eq_ok, pure_eq_ok, Prod.mk.injEq] at h
    obtain ⟨⟨rs, _⟩, hrs, rfl, rfl⟩ := h
    exact .inr (.inr (.inr (.inr (.inl ⟨rs, rfl, List.cons_ne_nil _ _, hrs, rfl⟩))))
  · split at h
    · rename_i op hop
      simp only [bind_eq_ok, pure_eq_ok, Prod.mk.injEq] at h
      obtain ⟨⟨l, parameters₁⟩, hl, ⟨r, _⟩, hr, rfl, rfl⟩ := h
      exact .inr (.inr (.inr (.inr (.inr ⟨op, _, _, l, r, parameters₁, hop, rfl, hl, hr, rfl⟩))))
    · cases h
  · cases h

/-! ## Parameters -/

/-- Parameters are named by their place. -/
def Numbered (parameters : List StatementParameter) : Prop :=
  ∀ i made, parameters[i]? = some made → made.name = parameterName i

theorem Numbered.concat {parameters : List StatementParameter} (h : Numbered parameters) (type : SqlType)
    (typed : ParameterValue) : Numbered (parameters ++ [⟨parameterName parameters.length, type, typed⟩]) := by
  intro i made hi
  obtain hlt | heq | hgt := Nat.lt_trichotomy i parameters.length
  · rw [List.getElem?_append_left hlt] at hi
    exact h i made hi
  · subst heq
    rw [List.getElem?_concat_length] at hi
    cases hi
    rfl
  · rw [List.getElem?_eq_none (by simp; omega)] at hi
    cases hi

theorem parameterName_injective {i j : Nat} (h : parameterName i = parameterName j) : i = j := by
  have hdigits : Nat.toDigits 10 i = Nat.toDigits 10 j := by
    have := congrArg String.toList h
    simpa [parameterName, Nat.toString_eq_ofList_toDigits] using this
  rw [← Nat.ofDigitChars_ten_toDigits (n := i), hdigits, Nat.ofDigitChars_ten_toDigits]

/-- A parameter in its place is what its name is bound to. -/
theorem binding_of_numbered {parameters : List StatementParameter} (h : Numbered parameters) {i : Nat}
    {made : StatementParameter} (hi : parameters[i]? = some made)
    (constant : SqlType → ParameterValue → Value V) :
    binding constant parameters (parameterName i) = constant made.type made.value := by
  have hfind : parameters.find? (·.name = parameterName i) = some made := by
    rw [List.find?_eq_some_iff_getElem]
    obtain ⟨hlt, heq⟩ := List.getElem?_eq_some_iff.mp hi
    refine ⟨by simpa using h i made hi, i, hlt, heq, ?_⟩
    intro j hj
    have hname := h j _ (List.getElem?_eq_getElem (by omega : j < parameters.length))
    have hne : parameterName j ≠ parameterName i := fun e => by
      have := parameterName_injective e
      omega
    simpa [hname] using hne
  rw [binding, hfind]

theorem expressions_parameters {args : List TypedExpression}
    (ih : ∀ arg ∈ args, ∀ {parent parameters s parameters'}, expression arg parent parameters = .ok (s, parameters') →
      parameters <+: parameters' ∧ (Numbered parameters → Numbered parameters'))
    {parameters parameters' : List StatementParameter} {rs : List String}
    (h : expressions args parameters = .ok (rs, parameters')) :
    parameters <+: parameters' ∧ (Numbered parameters → Numbered parameters') := by
  induction args generalizing parameters rs with
  | nil =>
    cases h
    exact ⟨List.prefix_refl _, id⟩
  | cons arg args ihs =>
    simp only [expressions, bind_eq_ok, pure_eq_ok, Prod.mk.injEq] at h
    obtain ⟨⟨r, parameters₁⟩, hr, ⟨rs', parameters₂⟩, hrs, -, rfl⟩ := h
    have h₁ := ih arg (by simp) hr
    have h₂ := ihs (fun a ha => ih a (by simp [ha])) hrs
    exact ⟨h₁.1.trans h₂.1, fun hn => h₂.2 (h₁.2 hn)⟩

/-- Rendering adds parameters at the end, each named by its place. -/
theorem expression_parameters (e : TypedExpression) : ∀ {parent parameters s parameters'},
    expression e parent parameters = .ok (s, parameters') →
      parameters <+: parameters' ∧ (Numbered parameters → Numbered parameters') := by
  induction e using typedExpression_induction with
  | h kind dataType column v args ih =>
    intro parent parameters s parameters' h
    obtain ⟨name, -, -, -, -, rfl⟩ | ⟨type, typed, -, -, -, rfl⟩ | ⟨argument, r, -, rfl, hr, -⟩ |
      ⟨argument, r, -, rfl, hr, -⟩ | ⟨rs, -, -, hrs, -⟩ | ⟨op, left, right, l, r, parameters₁, -, rfl, hl, hr, -⟩ :=
        expression_cases h
    · exact ⟨List.prefix_refl _, id⟩
    · exact ⟨List.prefix_append _ _, fun hn => hn.concat type typed⟩
    · exact ih argument (by simp) hr
    · exact ih argument (by simp) hr
    · exact expressions_parameters ih hrs
    · have h₁ := ih left (by simp) hl
      have h₂ := ih right (by simp) hr
      exact ⟨h₁.1.trans h₂.1, fun hn => h₂.2 (h₁.2 hn)⟩

/-! ## CASE trees -/

/-- The tree `booleanCase` writes. -/
def caseTree (x whenTrue whenFalse whenNull : Expr) : Expr :=
  .case (.when x whenTrue (.when (.binary .equal (.boolean false) (.bracket x)) whenFalse (.otherwise whenNull)))

theorem caseTree_text (x whenTrue whenFalse whenNull : Expr) :
    (caseTree x whenTrue whenFalse whenNull).text = "CASE WHEN " ++ x.text ++ " THEN " ++ whenTrue.text ++
      " WHEN FALSE = (" ++ x.text ++ ") THEN " ++ whenFalse.text ++ " ELSE " ++ whenNull.text ++ " END" := by
  have hfalse : (Expr.boolean false).text = "FALSE" := rfl
  have hequal : BinaryOperator.equal.text = "=" := rfl
  apply String.toList_inj.mp
  simp [caseTree, text_case, text_when, text_otherwise, text_binary, text_bracket, hfalse, hequal]

/-- `booleanCase` is given the text of `x`, in brackets of its own or in none that it would
    cut. -/
def Enclosed (rendered : String) (x : Expr) : Prop :=
  rendered = (Expr.bracket x).text ∨ rendered = x.text ∧ (startsBracket rendered && endsBracket rendered) = false

theorem booleanCase_eq (rendered inner whenTrue whenFalse whenNull : String)
    (h : (if startsBracket rendered && endsBracket rendered then String.ofList rendered.toList.tail.dropLast
      else rendered) = inner) :
    booleanCase rendered whenTrue whenFalse whenNull = "CASE WHEN " ++ inner ++ " THEN " ++ whenTrue ++
      " WHEN FALSE = (" ++ inner ++ ") THEN " ++ whenFalse ++ " ELSE " ++ whenNull ++ " END" := by
  subst h
  unfold booleanCase
  rfl

theorem booleanCase_text {rendered : String} {x : Expr} (h : Enclosed rendered x) (t f n : Expr) :
    booleanCase rendered t.text f.text n.text = (caseTree x t f n).text := by
  rw [caseTree_text]
  apply booleanCase_eq
  obtain h | ⟨h, hcut⟩ := h
  · have hchars : rendered.toList = '(' :: x.text.toList ++ [')'] := by
      rw [h, text_bracket]
      simp
    have hstarts : startsBracket rendered = true := by
      simp [startsBracket, hchars]
    have hends : endsBracket rendered = true := by
      rw [endsBracket, hchars, List.getLast?_concat]
      rfl
    rw [hstarts, hends, hchars]
    simp
  · rw [hcut, h]
    rfl

/-- Of a truth value, a CASE picks one of three. -/
theorem caseTree_eval (I : Interpretation V) (row parameters : String → Value V) {x : Expr}
    (h : (x.eval I row parameters).Truth) (t f n : Expr) :
    (caseTree x t f n).eval I row parameters =
      match x.eval I row parameters with
      | .boolean true => t.eval I row parameters
      | .boolean false => f.eval I row parameters
      | _ => n.eval I row parameters := by
  unfold caseTree
  simp only [Expr.eval, Arms.eval, Interpretation.binary]
  cases hx : x.eval I row parameters with
  | null => simp [I.null_right]
  | boolean b => cases b <;> simp [I.equal_boolean]
  | other v =>
    rw [hx] at h
    exact absurd h id

theorem caseTree_leveled {x t f n : Expr} (hx : x.Leveled) (ht : t.Leveled) (hf : f.Leveled) (hn : n.Leveled) :
    (caseTree x t f n).Leveled :=
  ⟨⟨hx, ht, ⟨trivial, hx, by decide, Nat.le_add_left 5 2⟩, hf, hn⟩, _, _, _, rfl⟩

/-! ## One node -/

section Node

variable {kind : ExpressionKind} {dataType : ScalarType} {column : Option String} {v : ScalarValue}
  {left right : TypedExpression} {op : BinaryOperator} {parent : Nat}

theorem value_binary (h : binarySql kind = some op) (I : Interpretation V)
    (constant : SqlType → ParameterValue → Value V) (row : String → Value V) :
    value I constant row (.mk kind dataType column v [left, right]) =
      I.binary op (value I constant row left) (value I constant row right) := by
  cases kind <;> cases h <;> rfl

theorem opens_plain {args : List TypedExpression} (h : binarySql kind = none) (hkind : kind ≠ .isNull) :
    opens (.mk kind dataType column v args) parent = false := by
  unfold opens
  split
  · exact absurd rfl hkind
  · rw [h]
  · rfl

theorem closes_plain {args : List TypedExpression} (h : binarySql kind = none) (hnot : kind ≠ .not)
    (hcoalesce : kind ≠ .coalesce) : closes (.mk kind dataType column v args) parent = false := by
  unfold closes
  split
  · exact absurd rfl hnot
  · exact absurd rfl hcoalesce
  · rw [h]
  · rfl

theorem opens_binary (h : binarySql kind = some op) :
    opens (.mk kind dataType column v [left, right]) parent =
      (decide (precedence op < parent) || opens left (precedence op)) := by
  cases kind <;> cases h <;> rfl

theorem closes_binary (h : binarySql kind = some op) :
    closes (.mk kind dataType column v [left, right]) parent =
      (decide (precedence op < parent) ||
        (closes right (rightPrecedence op) && !(op == .and && opens right (rightPrecedence op)))) := by
  cases kind <;> cases h <;> rfl

theorem faithful_binary (h : binarySql kind = some op) :
    faithful (.mk kind dataType column v [left, right]) = (operandsFit op left right && faithful left && faithful right) := by
  cases kind <;> cases h <;> rfl

/-- All but arithmetic gives a truth value. -/
theorem truth_binary (h : binarySql kind = some op) (hop : arithmetic op = false) (I : Interpretation V)
    (constant : SqlType → ParameterValue → Value V) (row : String → Value V) :
    (value I constant row (.mk kind dataType column v [left, right])).Truth := by
  rw [value_binary h]
  cases op with
  | or => exact Value.truth_or _ _
  | and => exact Value.truth_and _ _
  | add | subtract | multiply | divide => cases hop
  | _ => exact I.comparison _ _ _ rfl

end Node

/-- The level a text is at. -/
def renderedLevel (e : TypedExpression) (parent : Nat) : Nat :=
  match binarySql e.kind with
  | some op => if precedence op < parent then atomLevel else op.level
  | none => if plainNot e then notLevel else if plainIsNull e then comparisonLevel else atomLevel

/-- The text `s` of `e` under a parent is that of the tree `x`. -/
structure Reads (e : TypedExpression) (parent : Nat) (s : String) (x : Expr) : Prop where
  text : s = x.text
  leveled : x.Leveled
  writable : x.Writable
  level : x.level = renderedLevel e parent
  opens : x.lexemes.head? = some .opening ↔ Databricks.opens e parent = true
  closes : x.lexemes.getLast? = some .closing ↔ Databricks.closes e parent = true
  bracketed : ∀ op, binarySql e.kind = some op → precedence op < parent → ∃ y, x = .bracket y

theorem Reads.starts {e : TypedExpression} {parent : Nat} {s : String} {x : Expr} (h : Reads e parent s x) :
    startsBracket s = Databricks.opens e parent := by
  obtain ⟨l, rest, hx, -⟩ := x.phrase.first
  rw [Bool.eq_iff_iff, ← h.opens, startsBracket, decide_eq_true_iff, h.text, Expr.text, hx, text_starts]
  simp

theorem Reads.ends {e : TypedExpression} {parent : Nat} {s : String} {x : Expr} (h : Reads e parent s x) :
    endsBracket s = Databricks.closes e parent := by
  obtain ⟨rest, l, hx, -⟩ := x.phrase.last
  have hl : l.Writable := x.writable_lexemes h.writable l (by simp [hx])
  rw [Bool.eq_iff_iff, ← h.closes, endsBracket, decide_eq_true_iff, h.text, Expr.text, hx, text_ends rest hl]
  simp

/-- With these parameters the tree has the value of the expression on every row. -/
def Means (e : TypedExpression) (parameters : List StatementParameter) (x : Expr) : Prop :=
  ∀ (V : Type) (I : Interpretation V) (constant : SqlType → ParameterValue → Value V) (row : String → Value V),
    x.eval I row (binding constant parameters) = value I constant row e

/-- A rendered operator that is not arithmetic gives a truth value. -/
theorem truth_of_rendered {e : TypedExpression} {parent : Nat} {parameters parameters' : List StatementParameter}
    {s : String} (h : expression e parent parameters = .ok (s, parameters')) {op : BinaryOperator}
    (hop : binarySql e.kind = some op) (harith : arithmetic op = false) (I : Interpretation V)
    (constant : SqlType → ParameterValue → Value V) (row : String → Value V) : (value I constant row e).Truth := by
  cases e with
  | mk kind dataType column v args =>
    change binarySql kind = some op at hop
    obtain ⟨name, rfl, -⟩ | ⟨type, typed, rfl, -⟩ | ⟨argument, r, rfl, -⟩ | ⟨argument, r, rfl, -⟩ | ⟨rs, rfl, -⟩ |
      ⟨op', left, right, l, r, parameters₁, hop', rfl, -⟩ := expression_cases h
    · cases hop
    · cases hop
    · cases hop
    · cases hop
    · cases hop
    · rw [hop] at hop'
      cases hop'
      exact truth_binary hop harith I constant row

theorem wordCharacter_ne_backquote {c : Char} (h : wordCharacter c = true) : c ≠ Char.ofNat 96 := by
  intro e
  subst e
  exact absurd h (by decide)

theorem reads_column {dataType : ScalarType} {v : ScalarValue} {args : List TypedExpression} {parent : Nat}
    {name : String} (h : matchesIdentifier name = true) :
    Reads (.mk .column dataType (some name) v args) parent (quote name) (.column name) where
  text := by
    simp [Expr.text, SqlExpression.text, Expr.lexemes, characters, Lexeme.characters, quote]
  leveled := trivial
  writable := by
    have hword : ∀ c ∈ name.toList, wordCharacter c = true := by
      unfold matchesIdentifier at h
      split at h
      · cases h
      · rename_i c cs hname
        rw [hname]
        simp only [Bool.and_eq_true, List.all_eq_true] at h
        intro d hd
        obtain rfl | hd := List.mem_cons.mp hd
        · have := h.1
          simp only [nameStart, Bool.or_eq_true] at this
          simp only [wordCharacter, Char.isAlphanum, Bool.or_eq_true]
          exact this.imp .inl id
        · exact h.2 d hd
    intro hmem
    exact wordCharacter_ne_backquote (hword _ hmem) rfl
  level := rfl
  opens := by
    rw [opens_plain rfl (by decide)]
    simp [Expr.lexemes]
  closes := by
    rw [closes_plain rfl (by decide) (by decide)]
    simp [Expr.lexemes]
  bracketed := by simp [TypedExpression.kind, binarySql]

theorem reads_literal {dataType : ScalarType} {column : Option String} {v : ScalarValue}
    {args : List TypedExpression} {parent : Nat} (index : Nat) :
    Reads (.mk .literal dataType column v args) parent (":" ++ parameterName index)
      (.parameter (parameterName index)) where
  text := by
    apply String.toList_inj.mp
    simp [Expr.text, SqlExpression.text, Expr.lexemes, characters, Lexeme.characters]
  leveled := trivial
  writable := by
    show ∀ c ∈ (parameterName index).toList, wordCharacter c = true
    intro c hc
    simp only [parameterName, String.toList_append, List.mem_append, Nat.toString_eq_ofList_toDigits,
      String.toList_ofList] at hc
    obtain hc | hc := hc
    · obtain rfl : c = 'p' := by simpa using hc
      decide
    · have := Nat.isDigit_of_mem_toDigits (by decide) (by decide) hc
      simp [wordCharacter, Char.isAlphanum, this]
  level := rfl
  opens := by
    rw [opens_plain rfl (by decide)]
    simp [Expr.lexemes]
  closes := by
    rw [closes_plain rfl (by decide) (by decide)]
    simp [Expr.lexemes]
  bracketed := by simp [TypedExpression.kind, binarySql]

/-! ## NOT and IS NULL -/

section Unary

variable {dataType : ScalarType} {column : Option String} {v : ScalarValue} {argument : TypedExpression}
  {parent : Nat} {r : String} {y : Expr}

theorem renderedLevel_not :
    renderedLevel (.mk .not dataType column v [argument]) parent =
      if (binarySql argument.kind).isNone then notLevel else atomLevel := rfl

theorem renderedLevel_isNull :
    renderedLevel (.mk .isNull dataType column v [argument]) parent =
      if (binarySql argument.kind).isNone then comparisonLevel else atomLevel := rfl

theorem closes_not : Databricks.closes (.mk .not dataType column v [argument]) parent =
    ((binarySql argument.kind).isNone && Databricks.closes argument 0) := rfl

theorem opens_isNull : Databricks.opens (.mk .isNull dataType column v [argument]) parent =
    ((binarySql argument.kind).isNone && argument.kind != .column && argument.kind != .literal) := rfl

/-- An argument that fits goes into a CASE as it is. -/
theorem enclosed_of_argumentFits (h : Reads argument 0 r y) {op : BinaryOperator}
    (hop : binarySql argument.kind = some op) (hfits : argumentFits argument = true) :
    Enclosed r y ∧ arithmetic op = false := by
  unfold argumentFits at hfits
  rw [hop] at hfits
  simp only [Bool.and_eq_true, Bool.not_eq_true'] at hfits
  refine ⟨.inr ⟨h.text, ?_⟩, hfits.1⟩
  rw [h.starts, h.ends]
  exact hfits.2

theorem reads_case {kind : ExpressionKind} (hkind : kind = .not ∨ kind = .isNull) {op : BinaryOperator}
    (hop : binarySql argument.kind = some op) {x t f n : Expr} (hx : x.Leveled ∧ x.Writable)
    (ht : t.Leveled ∧ t.Writable) (hf : f.Leveled ∧ f.Writable) (hn : n.Leveled ∧ n.Writable) :
    Reads (.mk kind dataType column v [argument]) parent (caseTree x t f n).text (caseTree x t f n) where
  text := rfl
  leveled := caseTree_leveled hx.1 ht.1 hf.1 hn.1
  writable := ⟨hx.2, ht.2, ⟨trivial, hx.2⟩, hf.2, hn.2⟩
  level := by
    obtain rfl | rfl := hkind
    · simp [renderedLevel_not, hop]
      rfl
    · simp [renderedLevel_isNull, hop]
      rfl
  opens := by
    obtain rfl | rfl := hkind
    · rw [opens_plain rfl (by decide)]
      simp [caseTree, Expr.lexemes]
    · simp [caseTree, Expr.lexemes, opens_isNull, hop]
  closes := by
    have hlast : (caseTree x t f n).lexemes.getLast? = some (.keyword .end) := by
      simp [caseTree, Expr.lexemes, Arms.lexemes, List.getLast?_cons, List.getLast?_append]
    rw [hlast]
    obtain rfl | rfl := hkind
    · simp [closes_not, hop]
    · rw [closes_plain rfl (by decide) (by decide)]
      simp
  bracketed := by
    obtain rfl | rfl := hkind <;> simp [TypedExpression.kind, binarySql]

/-- An argument not written as a CASE binds at least as tight as NOT. -/
theorem notLevel_le_renderedLevel (h : binarySql argument.kind = none) : notLevel ≤ renderedLevel argument 0 := by
  simp only [renderedLevel, h]
  split
  · exact Nat.le_refl _
  · split <;> decide

theorem head_append_right {ls ls' : List Lexeme} {P : Prop} (h : Phrase ls) (hp : ls.head? = some .opening ↔ P) :
    (ls ++ ls').head? = some .opening ↔ P := by
  obtain ⟨l, rest, rfl, -⟩ := h.first
  exact hp

theorem getLast_append_left {ls ls' : List Lexeme} {P : Prop} (h : Phrase ls') (hp : ls'.getLast? = some .closing ↔ P) :
    (ls ++ ls').getLast? = some .closing ↔ P := by
  obtain ⟨rest, l, rfl, -⟩ := h.last
  rw [← List.append_assoc, List.getLast?_concat]
  simpa using hp

theorem reads_not (h : Reads argument 0 r y) (hfits : argumentFits argument = true)
    {parameters₀ parameters₁ parameters : List StatementParameter}
    (hr : expression argument 0 parameters₀ = .ok (r, parameters₁)) (hmeans : Means argument parameters y) :
    ∃ x, Reads (.mk .not dataType column v [argument]) parent (notText argument.kind r) x ∧
      Means (.mk .not dataType column v [argument]) parameters x := by
  cases hop : binarySql argument.kind with
  | some op =>
    obtain ⟨henclosed, harith⟩ := enclosed_of_argumentFits h hop hfits
    refine ⟨caseTree y (.boolean false) (.boolean true) .null, ?_, ?_⟩
    · have htext : notText argument.kind r = (caseTree y (.boolean false) (.boolean true) .null).text := by
        rw [← booleanCase_text henclosed, notText, hop]
        rfl
      rw [htext]
      exact reads_case (.inl rfl) hop ⟨h.leveled, h.writable⟩ ⟨trivial, trivial⟩ ⟨trivial, trivial⟩ ⟨trivial, trivial⟩
    · intro V I constant row
      have htruth := truth_of_rendered hr hop harith I constant row
      have hy := hmeans V I constant row
      rw [caseTree_eval I row _ (hy ▸ htruth), hy]
      show _ = (value I constant row argument).not
      rcases hvalue : value I constant row argument with _ | ⟨_ | _⟩ | _ <;> rfl
  | none =>
    refine ⟨.not y, ?_, ?_⟩
    · have htext : notText argument.kind r = (Expr.not y).text := by
        rw [text_not, notText, hop, h.text]
        rfl
      rw [htext]
      refine ⟨rfl, ⟨h.leveled, ?_⟩, h.writable, ?_, ?_, ?_, ?_⟩
      · rw [h.level]
        exact notLevel_le_renderedLevel hop
      · simp [renderedLevel_not, hop]
        rfl
      · rw [opens_plain rfl (by decide)]
        simp [Expr.lexemes]
      · rw [closes_not, hop]
        show (([Lexeme.keyword .not] : List Lexeme) ++ y.lexemes).getLast? = some .closing ↔ _
        exact getLast_append_left y.phrase h.closes
      · simp [TypedExpression.kind, binarySql]
    · intro V I constant row
      show (y.eval I row _).not = (value I constant row argument).not
      rw [hmeans V I constant row]

/-- The argument of an IS NULL that is not written as a CASE, bracketed unless it is a name. -/
theorem reads_plainIsNull {x : Expr} (hop : binarySql argument.kind = none) (hleveled : x.Leveled)
    (hwritable : x.Writable) (hlevel : comparisonLevel ≤ x.level)
    (hopens : x.lexemes.head? = some .opening ↔ (argument.kind ≠ .column ∧ argument.kind ≠ .literal)) :
    Reads (.mk .isNull dataType column v [argument]) parent (Expr.isNull x).text (.isNull x) where
  text := rfl
  leveled := ⟨hleveled, hlevel⟩
  writable := hwritable
  level := by
    simp [renderedLevel_isNull, hop]
    rfl
  opens := by
    refine head_append_right x.phrase ?_
    rw [hopens, opens_isNull, hop]
    simp
  closes := by
    rw [closes_plain rfl (by decide) (by decide)]
    simp [Expr.lexemes]
  bracketed := by simp [TypedExpression.kind, binarySql]

theorem reads_isNull (h : Reads argument 0 r y) (hfits : argumentFits argument = true)
    {parameters₀ parameters₁ parameters : List StatementParameter}
    (hr : expression argument 0 parameters₀ = .ok (r, parameters₁)) (hmeans : Means argument parameters y) :
    ∃ x, Reads (.mk .isNull dataType column v [argument]) parent (isNullText argument.kind r) x ∧
      Means (.mk .isNull dataType column v [argument]) parameters x := by
  cases hop : binarySql argument.kind with
  | some op =>
    obtain ⟨henclosed, harith⟩ := enclosed_of_argumentFits h hop hfits
    refine ⟨caseTree y (.boolean false) (.boolean false) (.boolean true), ?_, ?_⟩
    · have htext : isNullText argument.kind r =
          (caseTree y (.boolean false) (.boolean false) (.boolean true)).text := by
        rw [← booleanCase_text henclosed, isNullText, hop]
        rfl
      rw [htext]
      exact reads_case (.inr rfl) hop ⟨h.leveled, h.writable⟩ ⟨trivial, trivial⟩ ⟨trivial, trivial⟩ ⟨trivial, trivial⟩
    · intro V I constant row
      have htruth := truth_of_rendered hr hop harith I constant row
      have hy := hmeans V I constant row
      rw [caseTree_eval I row _ (hy ▸ htruth), hy]
      show _ = Value.boolean (value I constant row argument).isNull
      rcases hvalue : value I constant row argument with _ | ⟨_ | _⟩ | v
      · rfl
      · rfl
      · rfl
      · rw [hvalue] at htruth
        exact absurd htruth id
  | none =>
    by_cases hname : argument.kind = .column ∨ argument.kind = .literal
    · refine ⟨.isNull y, ?_, ?_⟩
      · have htext : isNullText argument.kind r = (Expr.isNull y).text := by
          rw [text_isNull, isNullText, hop, if_pos hname, h.text]
          rfl
        have hlevel : renderedLevel argument 0 = atomLevel := by
          cases argument
          obtain hname | hname := hname <;> cases hname <;> rfl
        rw [htext]
        refine reads_plainIsNull hop h.leveled h.writable (by rw [h.level, hlevel]; decide) ?_
        have hplain : Databricks.opens argument 0 = false := by
          cases argument
          obtain hname | hname := hname <;> cases hname <;> exact opens_plain rfl (by decide)
        rw [h.opens, hplain]
        simpa using fun hcolumn => hname.resolve_left hcolumn
      · intro V I constant row
        show Value.boolean (y.eval I row _).isNull = Value.boolean (value I constant row argument).isNull
        rw [hmeans V I constant row]
    · refine ⟨.isNull (.bracket y), ?_, ?_⟩
      · have htext : isNullText argument.kind r = (Expr.isNull (.bracket y)).text := by
          rw [text_isNull, text_bracket, isNullText, hop, if_neg hname, h.text]
          apply String.toList_inj.mp
          simp
        rw [htext]
        refine reads_plainIsNull hop h.leveled h.writable (Nat.le_add_left 4 3) ?_
        simp only [Expr.lexemes, List.head?_cons, true_iff]
        exact not_or.mp hname
      · intro V I constant row
        show Value.boolean (y.eval I row _).isNull = Value.boolean (value I constant row argument).isNull
        rw [hmeans V I constant row]

end Unary

/-! ## COALESCE -/

/-- The arguments' texts are those of trees with the arguments' values. -/
theorem reads_coalesce {args : List TypedExpression} {parameters₀ parameters₁ parameters : List StatementParameter}
    {rs : List String} (hne : args ≠ []) (hrs : expressions args parameters₀ = .ok (rs, parameters₁))
    (hpre : parameters₁ <+: parameters)
    (ih : ∀ arg ∈ args, ∀ {parameters₀ s parameters₁}, expression arg 0 parameters₀ = .ok (s, parameters₁) →
      parameters₁ <+: parameters → ∃ x, Reads arg 0 s x ∧ Means arg parameters x) :
    ∃ trees : Args, trees.text = ", ".intercalate rs ++ ")" ∧ trees.Leveled ∧ trees.Writable ∧
      ∀ (V : Type) (I : Interpretation V) (constant : SqlType → ParameterValue → Value V) (row : String → Value V),
        trees.eval I row (binding constant parameters) = firstValue I constant row args := by
  induction args generalizing parameters₀ rs with
  | nil => exact absurd rfl hne
  | cons arg args ihs =>
    simp only [expressions, bind_eq_ok, pure_eq_ok, Prod.mk.injEq] at hrs
    obtain ⟨⟨r, parameters₂⟩, hr, ⟨rs', parameters₃⟩, hrs', rfl, rfl⟩ := hrs
    have hpre₂ : parameters₂ <+: parameters := by
      refine List.IsPrefix.trans ?_ hpre
      exact (expressions_parameters (fun a _ => expression_parameters a) hrs').1
    obtain ⟨x, hx, hmeans⟩ := ih arg (by simp) hr hpre₂
    cases args with
    | nil =>
      cases hrs'
      refine ⟨.last x, ?_, hx.leveled, hx.writable, ?_⟩
      · rw [text_last, String.intercalate_singleton, hx.text]
      · intro V I constant row
        show x.eval I row _ = _
        rw [hmeans V I constant row, firstValue]
        cases value I constant row arg <;> rfl
    | cons arg' args =>
      obtain ⟨trees, htext, hleveled, hwritable, heval⟩ := ihs (by simp) hrs' fun a ha => ih a (by simp [ha])
      have hrs'ne : rs' ≠ [] := by
        simp only [expressions, bind_eq_ok, pure_eq_ok, Prod.mk.injEq] at hrs'
        obtain ⟨_, -, _, -, rfl, -⟩ := hrs'
        simp
      refine ⟨.more x trees, ?_, ⟨hx.leveled, hleveled⟩, ⟨hx.writable, hwritable⟩, ?_⟩
      · rw [text_more, htext, String.intercalate_cons_of_ne_nil hrs'ne, hx.text]
        simp [String.append_assoc]
      · intro V I constant row
        show (if (x.eval I row _).isNull then trees.eval I row _ else x.eval I row _) = _
        rw [hmeans V I constant row, heval V I constant row]
        rfl

theorem faithful_of_mem {args : List TypedExpression} (h : allFaithful args = true) : ∀ arg ∈ args, faithful arg = true := by
  induction args with
  | nil => simp
  | cons first rest ih =>
    obtain ⟨hfirst, hrest⟩ : faithful first = true ∧ allFaithful rest = true := Bool.and_eq_true_iff.mp h
    exact List.forall_mem_cons.mpr ⟨hfirst, ih hrest⟩

theorem reads_args {dataType : ScalarType} {column : Option String} {v : ScalarValue} {args : List TypedExpression}
    {parent : Nat} {trees : Args} (hleveled : trees.Leveled) (hwritable : trees.Writable) :
    Reads (.mk .coalesce dataType column v args) parent (Expr.coalesce trees).text (.coalesce trees) where
  text := rfl
  leveled := hleveled
  writable := hwritable
  level := rfl
  opens := by
    rw [opens_plain rfl (by decide)]
    simp [Expr.lexemes]
  closes := by
    obtain ⟨-, rest, hlast⟩ := trees.ends
    have hcloses : Databricks.closes (.mk .coalesce dataType column v args) parent = true := by
      unfold Databricks.closes
      rfl
    rw [hcloses, Expr.lexemes, hlast, ← List.cons_append, ← List.cons_append, List.getLast?_concat]
    simp
  bracketed := by simp [TypedExpression.kind, binarySql]

/-! ## Binary operators -/

theorem level_le_of_precedence {op op' : BinaryOperator} (h : precedence op ≤ precedence op') : op.level ≤ op'.level := by
  revert h
  cases op <;> cases op' <;> decide

theorem level_lt_of_precedence {op op' : BinaryOperator} (h : precedence op < precedence op') : op.level < op'.level := by
  revert h
  cases op <;> cases op' <;> decide

theorem level_lt_atomLevel (op : BinaryOperator) : op.level < atomLevel := by
  cases op <;> decide

section Operands

variable {op : BinaryOperator} {left right : TypedExpression}

/-- AND and OR: what they may be chained with. -/
def connective (op : BinaryOperator) : Bool := op = .and ∨ op = .or

theorem le_renderedLevel {e : TypedExpression} {parent : Nat} (hparent : precedence op ≤ parent)
    (hnot : op.level ≤ notLevel ∨ plainNot e = false) (hnull : op.level ≤ comparisonLevel ∨ plainIsNull e = false) :
    op.level ≤ renderedLevel e parent := by
  unfold renderedLevel
  split
  · rename_i op' hop'
    by_cases hlt : precedence op' < parent
    · rw [if_pos hlt]
      exact (level_lt_atomLevel op).le
    · rw [if_neg hlt]
      exact level_le_of_precedence (by omega)
  · by_cases hn : plainNot e = true
    · rw [if_pos hn]
      simpa [hn] using hnot
    · rw [if_neg hn]
      by_cases hi : plainIsNull e = true
      · rw [if_pos hi]
        simpa [hi] using hnull
      · rw [if_neg hi]
        exact (level_lt_atomLevel op).le

theorem lt_renderedLevel {e : TypedExpression} {parent : Nat}
    (hparent : ∀ op', binarySql e.kind = some op' → parent ≤ precedence op' → precedence op < precedence op')
    (hnot : plainNot e = false) (hnull : plainIsNull e = false) : op.level + 1 ≤ renderedLevel e parent := by
  unfold renderedLevel
  split
  · rename_i op' hop'
    by_cases hlt : precedence op' < parent
    · rw [if_pos hlt]
      exact level_lt_atomLevel op
    · rw [if_neg hlt]
      exact level_lt_of_precedence (hparent op' hop' (by omega))
  · rw [if_neg (by simp [hnot]), if_neg (by simp [hnull])]
    exact level_lt_atomLevel op

/-- The left operand is at the operator's level or above. -/
theorem left_fits (h : operandsFit op left right = true) : op.level ≤ renderedLevel left (precedence op) := by
  cases op with
  | or | and => exact le_renderedLevel (Nat.le_refl _) (.inl (by decide)) (.inl (by decide))
  | add | subtract | multiply | divide =>
    simp [operandsFit, comparison, precedence] at h
    exact le_renderedLevel (Nat.le_refl _) (.inr h.1.1.1) (.inr h.1.1.2)
  | _ =>
    simp [operandsFit, comparison, precedence] at h
    exact le_renderedLevel (Nat.le_refl _) (.inr h.1.1.1) (.inl (by decide))

theorem right_fits_connective (hop : connective op = true) : op.level ≤ renderedLevel right (rightPrecedence op) := by
  cases op with
  | or | and => exact le_renderedLevel (Nat.le_refl _) (.inl (by decide)) (.inl (by decide))
  | _ => cases hop

/-- The right operand of a comparison or of arithmetic binds tighter. -/
theorem right_fits (h : operandsFit op left right = true) (hop : connective op = false) :
    op.level + 1 ≤ renderedLevel right (rightPrecedence op) := by
  cases op with
  | or | and => cases hop
  | add | subtract | multiply | divide =>
    simp [operandsFit, comparison, precedence] at h
    refine lt_renderedLevel (fun op' _ hle => ?_) h.1.2 h.2
    exact hle
  | _ =>
    simp [operandsFit, comparison, precedence] at h
    refine lt_renderedLevel (fun op' hop' hle => ?_) h.1.2 h.2
    have hne : precedence op' ≠ 3 := by
      have := h.1.1.2
      rw [hop'] at this
      simpa [comparison] using this
    exact lt_of_le_of_ne hle hne.symm

end Operands

section Binary

variable {kind : ExpressionKind} {dataType : ScalarType} {column : Option String} {v : ScalarValue}
  {left right : TypedExpression} {op : BinaryOperator} {l r : String} {x y : Expr}
  {parameters₀ parameters₁ parameters : List StatementParameter}

/-- A text that starts with a bracket and is not arithmetic is a truth value. -/
theorem truth_of_opens {e : TypedExpression} {parent : Nat} {s : String}
    (h : expression e parent parameters₀ = .ok (s, parameters₁)) (hopens : opens e parent = true)
    (harith : (binarySql e.kind).any arithmetic = false) (I : Interpretation V)
    (constant : SqlType → ParameterValue → Value V) (row : String → Value V) : (value I constant row e).Truth := by
  cases hop : binarySql e.kind with
  | some op =>
    rw [hop] at harith
    exact truth_of_rendered h hop harith I constant row
  | none =>
    cases e with
    | mk kind dataType column v args =>
      change binarySql kind = none at hop
      by_cases hkind : kind = .isNull
      · subst hkind
        unfold value
        split <;> trivial
      · rw [opens_plain hop hkind] at hopens
        cases hopens

/-- A truth value as a CASE over itself. -/
theorem means_caseTree {e : TypedExpression} (hmeans : Means e parameters x)
    (htruth : ∀ (V : Type) (I : Interpretation V) (constant : SqlType → ParameterValue → Value V)
      (row : String → Value V), (value I constant row e).Truth) :
    Means e parameters (caseTree x (.boolean true) (.boolean false) .null) := by
  intro V I constant row
  have hx := hmeans V I constant row
  have ht := htruth V I constant row
  rw [caseTree_eval I row _ (hx ▸ ht), hx]
  rcases hvalue : value I constant row e with _ | ⟨_ | _⟩ | v
  · rfl
  · rfl
  · rfl
  · rw [hvalue] at ht
    exact absurd ht id

/-- The right operand as it is written: under AND a text that starts with a bracket becomes
    a CASE. -/
theorem reads_right (hy : Reads right (rightPrecedence op) r y) (hfits : operandsFit op left right = true)
    (hr : expression right (rightPrecedence op) parameters₀ = .ok (r, parameters₁))
    (hmeans : Means right parameters y) :
    ∃ z : Expr, (if op = .and ∧ startsBracket r = true then booleanCase r "TRUE" "FALSE" "NULL" else r) = z.text ∧
      z.Leveled ∧ z.Writable ∧ y.level ≤ z.level ∧ Means right parameters z ∧
      (z.lexemes.getLast? = some .closing ↔
        (closes right (rightPrecedence op) && !(op == .and && opens right (rightPrecedence op))) = true) := by
  by_cases hcase : op = .and ∧ startsBracket r = true
  · obtain ⟨rfl, hstarts⟩ := hcase
    rw [if_pos ⟨rfl, hstarts⟩]
    have hopens : opens right (rightPrecedence .and) = true := hy.starts ▸ hstarts
    have hfits : (binarySql right.kind).any arithmetic = false ∧
        (closes right (rightPrecedence .and) = false ∨ right.kind = .or) := by
      have hprecedence : rightPrecedence .and = precedence .and := rfl
      rw [hprecedence] at hopens ⊢
      simpa [operandsFit, hopens] using hfits
    have hwhole : ∃ z, Enclosed r z ∧ z.Leveled ∧ z.Writable ∧ Means right parameters z := by
      by_cases hor : right.kind = .or
      · have hkind : binarySql right.kind = some .or := by rw [hor]; rfl
        obtain ⟨z, rfl⟩ := hy.bracketed .or hkind (by decide)
        exact ⟨z, .inl hy.text, hy.leveled, hy.writable, hmeans⟩
      · refine ⟨y, .inr ⟨hy.text, ?_⟩, hy.leveled, hy.writable, hmeans⟩
        rw [hy.ends, hfits.2.resolve_right hor, Bool.and_false]
    obtain ⟨z, henclosed, hleveled, hwritable, hz⟩ := hwhole
    have htext : booleanCase r "TRUE" "FALSE" "NULL" = (caseTree z (.boolean true) (.boolean false) .null).text := by
      rw [← booleanCase_text henclosed]
      rfl
    refine ⟨caseTree z (.boolean true) (.boolean false) .null, htext,
      caseTree_leveled hleveled trivial trivial trivial, ⟨hwritable, trivial, ⟨trivial, hwritable⟩, trivial, trivial⟩,
      ?_, means_caseTree hz fun V I constant row => truth_of_opens hr hopens hfits.1 I constant row, ?_⟩
    · show y.level ≤ atomLevel
      cases y <;> first | exact (level_lt_atomLevel _).le | simp [Expr.level, atomLevel, notLevel, comparisonLevel]
    · simp [hopens, caseTree, Expr.lexemes, Arms.lexemes, List.getLast?_cons, List.getLast?_append]
  · rw [if_neg hcase]
    refine ⟨y, hy.text, hy.leveled, hy.writable, Nat.le_refl _, hmeans, ?_⟩
    rw [hy.closes]
    have hkept : (op == .and && opens right (rightPrecedence op)) = false := by
      rw [← hy.starts]
      simpa using hcase
    rw [hkept]
    simp

/-- The tree of an operator over its operands, in brackets under a parent that binds
    tighter. -/
theorem reads_parent (hop : binarySql kind = some op) {parent : Nat} {body : String} {t : Expr} (htext : body = t.text)
    (hleveled : t.Leveled) (hwritable : t.Writable) (hlevel : t.level = op.level)
    (hopens : t.lexemes.head? = some .opening ↔ opens left (precedence op) = true)
    (hcloses : t.lexemes.getLast? = some .closing ↔
      (closes right (rightPrecedence op) && !(op == .and && opens right (rightPrecedence op))) = true) :
    ∃ x, Reads (.mk kind dataType column v [left, right]) parent
        (if precedence op < parent then "(" ++ body ++ ")" else body) x ∧ (x = .bracket t ∨ x = t) := by
  by_cases hlt : precedence op < parent
  · refine ⟨.bracket t, ⟨?_, hleveled, hwritable, ?_, ?_, ?_, fun _ _ _ => ⟨t, rfl⟩⟩, .inl rfl⟩
    · rw [if_pos hlt, text_bracket, htext]
    · simp [renderedLevel, TypedExpression.kind, hop, hlt]
      rfl
    · simp [Expr.lexemes, opens_binary hop, hlt]
    · simp [Expr.lexemes, List.getLast?_cons, closes_binary hop, hlt]
  · refine ⟨t, ⟨?_, hleveled, hwritable, ?_, ?_, ?_, ?_⟩, .inr rfl⟩
    · rw [if_neg hlt, htext]
    · simp [renderedLevel, TypedExpression.kind, hop, hlt, hlevel]
    · simpa [opens_binary hop, hlt] using hopens
    · simpa [closes_binary hop, hlt] using hcloses
    · intro op' hop' hlt'
      rw [TypedExpression.kind, hop] at hop'
      cases hop'
      exact absurd hlt' hlt

theorem reads_binary (hop : binarySql kind = some op) {parent : Nat} (hx : Reads left (precedence op) l x)
    (hy : Reads right (rightPrecedence op) r y) (hfits : operandsFit op left right = true)
    (hr : expression right (rightPrecedence op) parameters₀ = .ok (r, parameters₁))
    (hmeansx : Means left parameters x) (hmeansy : Means right parameters y) :
    ∃ t, Reads (.mk kind dataType column v [left, right]) parent (binaryText op parent l r) t ∧
      Means (.mk kind dataType column v [left, right]) parameters t := by
  obtain ⟨z, hztext, hzleveled, hzwritable, hzlevel, hmeansz, hzcloses⟩ := reads_right hy hfits hr hmeansy
  have hleft : op.level ≤ x.level := hx.level ▸ left_fits hfits
  -- AND and OR are read as chains, the others as they stand
  have htree : ∃ t : Expr, t.lexemes = x.lexemes ++ .operator op :: z.lexemes ∧ t.Leveled ∧ t.Writable ∧
      t.level = op.level ∧ Means (.mk kind dataType column v [left, right]) parameters t := by
    by_cases hconn : connective op = true
    · have hright : op.level ≤ z.level := (hy.level ▸ right_fits_connective hconn).trans hzlevel
      have hconn' : op = .and ∨ op = .or := by simpa [connective] using hconn
      refine ⟨chain op x z, chain_lexemes op x z, chain_leveled ?_ hx.leveled hzleveled hleft hright,
        chain_writable hx.writable hzwritable, chain_level op x z, ?_⟩
      · intro op' hlevel
        revert hlevel
        obtain rfl | rfl := hconn' <;> cases op' <;> decide
      · intro V I constant row
        rw [chain_eval hconn', hmeansx V I constant row, hmeansz V I constant row, value_binary hop]
    · have hright : op.level + 1 ≤ z.level := (hy.level ▸ right_fits hfits (by simpa using hconn)).trans hzlevel
      refine ⟨.binary op x z, rfl, ⟨hx.leveled, hzleveled, hleft, hright⟩, ⟨hx.writable, hzwritable⟩, rfl, ?_⟩
      intro V I constant row
      show I.binary op (x.eval I row _) (z.eval I row _) = _
      rw [hmeansx V I constant row, hmeansz V I constant row, value_binary hop]
  obtain ⟨t, hlexemes, hleveled, hwritable, hlevel, hmeans⟩ := htree
  have htext : l ++ " " ++ op.text ++ " " ++
      (if op = .and ∧ startsBracket r = true then booleanCase r "TRUE" "FALSE" "NULL" else r) = t.text := by
    rw [hztext, hx.text, ← text_binary, Expr.text, Expr.text, hlexemes]
    rfl
  have hopens : t.lexemes.head? = some .opening ↔ opens left (precedence op) = true := by
    rw [hlexemes]
    exact head_append_right x.phrase hx.opens
  have hcloses : t.lexemes.getLast? = some .closing ↔
      (closes right (rightPrecedence op) && !(op == .and && opens right (rightPrecedence op))) = true := by
    have hconcat : t.lexemes = (x.lexemes ++ [.operator op]) ++ z.lexemes := by simp [hlexemes]
    rw [hconcat]
    exact getLast_append_left z.phrase hzcloses
  have hparent : ∃ x, Reads (.mk kind dataType column v [left, right]) parent _ x ∧ (x = .bracket t ∨ x = t) :=
    reads_parent hop htext hleveled hwritable hlevel hopens hcloses
  obtain ⟨t', hreads, htree⟩ := hparent
  refine ⟨t', hreads, ?_⟩
  intro V I constant row
  rw [← hmeans V I constant row]
  obtain rfl | rfl := htree <;> rfl

end Binary

/-! ## The whole expression -/

theorem expression_reads {final : List StatementParameter} (hnumbered : Numbered final) (e : TypedExpression) :
    ∀ {parent : Nat} {parameters parameters' : List StatementParameter} {s : String}, faithful e = true →
      expression e parent parameters = .ok (s, parameters') → parameters' <+: final →
      ∃ x, Reads e parent s x ∧ Means e final x := by
  induction e using typedExpression_induction with
  | h kind dataType column v args ih =>
    intro parent parameters parameters' s hfaithful h hpre
    obtain ⟨name, rfl, rfl, hname, rfl, rfl⟩ | ⟨type, typed, rfl, htyped, rfl, rfl⟩ |
      ⟨argument, r, rfl, rfl, hr, rfl⟩ | ⟨argument, r, rfl, rfl, hr, rfl⟩ | ⟨rs, rfl, hne, hrs, rfl⟩ |
      ⟨op, left, right, l, r, parameters₁, hop, rfl, hl, hr, rfl⟩ := expression_cases h
    · exact ⟨.column name, reads_column hname, fun V I constant row => rfl⟩
    · refine ⟨_, reads_literal parameters.length, fun V I constant row => ?_⟩
      have hplace : final[parameters.length]? = some ⟨parameterName parameters.length, type, typed⟩ := by
        obtain ⟨rest, rfl⟩ := hpre
        simp
      show binding constant final (parameterName parameters.length) = _
      rw [binding_of_numbered hnumbered hplace]
      simp [value, htyped]
    · obtain ⟨hfits, harg⟩ : argumentFits argument = true ∧ faithful argument = true := Bool.and_eq_true_iff.mp hfaithful
      obtain ⟨y, hy, hmeans⟩ := ih argument (by simp) harg hr hpre
      exact reads_not hy hfits hr hmeans
    · obtain ⟨hfits, harg⟩ : argumentFits argument = true ∧ faithful argument = true := Bool.and_eq_true_iff.mp hfaithful
      obtain ⟨y, hy, hmeans⟩ := ih argument (by simp) harg hr hpre
      exact reads_isNull hy hfits hr hmeans
    · have hall := faithful_of_mem (show allFaithful args = true from hfaithful)
      obtain ⟨trees, htext, hleveled, hwritable, heval⟩ :=
        reads_coalesce hne hrs hpre fun arg harg _ _ _ hr hpre => ih arg harg (hall arg harg) hr hpre
      refine ⟨.coalesce trees, ?_, ?_⟩
      · rw [String.append_assoc, ← htext, ← text_coalesce]
        exact reads_args hleveled hwritable
      · intro V I constant row
        show trees.eval I row _ = _
        rw [heval V I constant row]
        cases args with
        | nil => exact absurd rfl hne
        | cons first rest => rfl
    · rw [faithful_binary hop, Bool.and_eq_true, Bool.and_eq_true] at hfaithful
      obtain ⟨⟨hfits, hleft⟩, hright⟩ := hfaithful
      have hpre₁ : parameters₁ <+: final := (expression_parameters right hr).1.trans hpre
      obtain ⟨x, hx, hmeansx⟩ := ih left (by simp) hleft hl hpre₁
      obtain ⟨y, hy, hmeansy⟩ := ih right (by simp) hright hr hpre
      exact reads_binary hop hx hy hfits hr hmeansx hmeansy

/-- In any parent position and among the parameters of any statement, the text of an
    expression whose nestings are all faithful reads as an expression with the source's
    value on every row. -/
theorem faithful_rendering (e : TypedExpression) (parent : Nat) (before after later : List StatementParameter)
    (s : String) (hfaithful : faithful e = true) (h : expression e parent before = .ok (s, after))
    (hnumbered : Numbered (after ++ later)) : Faithfully e s (after ++ later) := by
  obtain ⟨x, hx, hmeans⟩ := expression_reads hnumbered e hfaithful h (List.prefix_append after later)
  refine ⟨x, ?_, hmeans⟩
  rw [hx.text]
  exact lex_parse_text hx.writable hx.leveled

def columnOf (dataType : ScalarType) (name : String) : TypedExpression := .mk .column dataType (some name) .null []

def truthOf (kind : ExpressionKind) (args : List TypedExpression) : TypedExpression := .mk kind .boolean none .null args

/-- `active AND NOT (paid OR amount < 10)`, under an OR. -/
def overdue : TypedExpression :=
  truthOf .and [columnOf .boolean "active", truthOf .not [truthOf .or [columnOf .boolean "paid",
    truthOf .lessThan [columnOf .integer "amount", .mk .literal .integer none (.int 10) []]]]]

def overdueText : String :=
  "(`active` AND CASE WHEN `paid` OR `amount` < :p0 THEN FALSE WHEN FALSE = (`paid` OR `amount` < :p0) THEN TRUE ELSE NULL END)"

def overdueParameter : StatementParameter := ⟨"p0", .plain .long, .scalar (.int 10)⟩

theorem faithful_rendering_overdue :
    expression overdue 3 [] = .ok (overdueText, [overdueParameter]) ∧
      Faithfully overdue overdueText [overdueParameter] := by
  have hrendered : expression overdue 3 [] = .ok (overdueText, [overdueParameter]) := by
    decide +kernel
  refine ⟨hrendered, faithful_rendering overdue 3 [] [overdueParameter] [] overdueText (by decide) hrendered ?_⟩
  intro i made hi
  cases i with
  | zero =>
    cases hi
    rfl
  | succ i => cases hi

/-- `flag = (low < high)`. -/
def flagged : TypedExpression :=
  truthOf .equal [columnOf .boolean "flag", truthOf .lessThan [columnOf .integer "low", columnOf .integer "high"]]

/-- Numbers and truth values under their usual comparisons. -/
def numbers : Interpretation Nat where
  apply
    | .equal, .boolean a, .boolean b => .boolean (a == b)
    | .lessThan, .other m, .other n => .boolean (m < n)
    | _, _, _ => .null
  null_left := by intro op y; cases op <;> rfl
  null_right := by intro op x; cases op <;> cases x <;> rfl
  comparison := by
    intro op x y h
    cases op <;> cases x <;> cases y <;> trivial
  equal_boolean := by intro a b; rfl

/-- The text of `flag = (low < high)` is read as `(flag = low) < high`. -/
theorem rendering_not_always_faithful :
    ¬ ∀ (e : TypedExpression) (parent : Nat) (s : String) (parameters : List StatementParameter),
      expression e parent [] = .ok (s, parameters) → Faithfully e s parameters := by
  intro h
  have htext : expression flagged 0 [] = .ok ((Expr.binary .lessThan
      (.binary .equal (.column "flag") (.column "low")) (.column "high")).text, []) := by
    rfl
  obtain ⟨x, hx, hmeans⟩ := h flagged 0 _ _ htext
  rw [lex_parse_text (by simp [Expr.Writable, Lexeme.Writable])
    (by simp [Expr.Leveled, Expr.level, BinaryOperator.level, atomLevel])] at hx
  cases hx
  have := hmeans Nat numbers (fun _ _ => .null)
    (fun name => if name = "flag" then .boolean true else if name = "low" then .other 1 else .other 2)
  exact absurd this (by decide)

end DataNexus.Databricks
