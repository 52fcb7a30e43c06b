/-
  DataNexus.Lib.SqlExpression — scalar SQL expressions as text, and what they mean.

  The grammar has the levels OR, AND, NOT, comparison and IS NULL, additive, multiplicative;
  binary operators associate to the left, and CASE ... END is atomic. `parse` is a
  precedence-climbing parser with fuel. A tree that keeps its brackets (`bracket`) and whose
  operands are at the levels the grammar wants (`Leveled`) is what the parser reads back from
  its own lexemes (`parse_lexemes`).

  Values are three-valued: `eval` takes the arithmetic and comparison operators from an
  `Interpretation`, strict in NULL.
-/

import Mathlib

namespace DataNexus.Lib.SqlExpression

inductive BinaryOperator where
  | or | and | equal | notEqual | lessThan | lessEqual | greaterThan | greaterEqual
  | add | subtract | multiply | divide
  deriving DecidableEq

inductive Keyword where
  | not | is | null | true | false | coalesce | case | when | then | else | end
  deriving DecidableEq

inductive Lexeme where
  | identifier (name : String)
  | parameter (name : String)
  | operator (op : BinaryOperator)
  | keyword (word : Keyword)
  | opening
  | closing
  | comma
  deriving DecidableEq

mutual

inductive Expr where
  | column (name : String)
  | parameter (name : String)
  | boolean (value : Bool)
  | null
  | not (x : Expr)
  | isNull (x : Expr)
  | binary (op : BinaryOperator) (x y : Expr)
  | coalesce (args : Args)
  | case (arms : Arms)
  | bracket (x : Expr)

inductive Args where
  | last (x : Expr)
  | more (x : Expr) (rest : Args)

/-- `WHEN c THEN v ...` down to `ELSE x`. -/
inductive Arms where
  | otherwise (x : Expr)
  | when (c v : Expr) (rest : Arms)

end

def BinaryOperator.level : BinaryOperator → Nat
  | or => 1
  | and => 2
  | equal | notEqual | lessThan | lessEqual | greaterThan | greaterEqual => 4
  | add | subtract => 5
  | multiply | divide => 6

def notLevel : Nat := 3
def comparisonLevel : Nat := 4
def atomLevel : Nat := 7

def Expr.level : Expr → Nat
  | .not _ => notLevel
  | .isNull _ => comparisonLevel
  | .binary op _ _ => op.level
  | _ => atomLevel

/-! ## Lexemes of a tree -/

mutual

def Expr.lexemes : Expr → List Lexeme
  | .column name => [.identifier name]
  | .parameter name => [.parameter name]
  | .boolean value => [.keyword (if value then .true else .false)]
  | .null => [.keyword .null]
  | .not x => .keyword .not :: x.lexemes
  | .isNull x => x.lexemes ++ [.keyword .is, .keyword .null]
  | .binary op x y => x.lexemes ++ .operator op :: y.lexemes
  | .coalesce args => .keyword .coalesce :: .opening :: args.lexemes
  | .case arms => .keyword .case :: arms.lexemes
  | .bracket x => .opening :: (x.lexemes ++ [.closing])

def Args.lexemes : Args → List Lexeme
  | .last x => x.lexemes ++ [.closing]
  | .more x rest => x.lexemes ++ .comma :: rest.lexemes

def Arms.lexemes : Arms → List Lexeme
  | .otherwise x => .keyword .else :: (x.lexemes ++ [.keyword .end])
  | .when c v rest => .keyword .when :: (c.lexemes ++ .keyword .then :: (v.lexemes ++ rest.lexemes))

end

mutual

/-- Every operand is at a level the grammar takes it at. -/
def Expr.Leveled : Expr → Prop
  | .column _ | .parameter _ | .boolean _ | .null => True
  | .not x => x.Leveled ∧ notLevel ≤ x.level
  | .isNull x => x.Leveled ∧ comparisonLevel ≤ x.level
  | .binary op x y => x.Leveled ∧ y.Leveled ∧ op.level ≤ x.level ∧ op.level + 1 ≤ y.level
  | .coalesce args => args.Leveled
  | .case arms => arms.Leveled ∧ ∃ c v rest, arms = .when c v rest
  | .bracket x => x.Leveled

def Args.Leveled : Args → Prop
  | .last x => x.Leveled
  | .more x rest => x.Leveled ∧ rest.Leveled

def Arms.Leveled : Arms → Prop
  | .otherwise x => x.Leveled
  | .when c v rest => c.Leveled ∧ v.Leveled ∧ rest.Leveled

end

/-! ## The parser -/

abbrev Parsed (α : Type) := Option (α × List Lexeme)

mutual

/-- An expression whose outermost operator is at level `minimum` or above. -/
def parse : Nat → Nat → List Lexeme → Parsed Expr
  | 0, _, _ => none
  | fuel + 1, minimum, .keyword .not :: rest =>
    if minimum ≤ notLevel then
      (parse fuel notLevel rest).bind fun (x, rest) => climb fuel minimum (.not x) rest
    else none
  | fuel + 1, minimum, lexemes =>
    (primary fuel lexemes).bind fun (x, rest) => climb fuel minimum x rest

/-- The operators that follow `x`, at level `minimum` or above and not tighter than `x`. -/
def climb : Nat → Nat → Expr → List Lexeme → Parsed Expr
  | 0, _, _, _ => none
  | fuel + 1, minimum, x, .operator op :: rest =>
    if minimum ≤ op.level ∧ op.level ≤ x.level then
      (parse fuel (op.level + 1) rest).bind fun (y, rest) => climb fuel minimum (.binary op x y) rest
    else some (x, .operator op :: rest)
  | fuel + 1, minimum, x, .keyword .is :: .keyword .null :: rest =>
    if minimum ≤ comparisonLevel ∧ comparisonLevel ≤ x.level then climb fuel minimum (.isNull x) rest
    else some (x, .keyword .is :: .keyword .null :: rest)
  | _ + 1, _, x, rest => some (x, rest)

def primary : Nat → List Lexeme → Parsed Expr
  | 0, _ => none
  | _ + 1, .identifier name :: rest => some (.column name, rest)
  | _ + 1, .parameter name :: rest => some (.parameter name, rest)
  | _ + 1, .keyword .true :: rest => some (.boolean true, rest)
  | _ + 1, .keyword .false :: rest => some (.boolean false, rest)
  | _ + 1, .keyword .null :: rest => some (.null, rest)
  | fuel + 1, .opening :: rest =>
    (parse fuel 0 rest).bind fun
      | (x, .closing :: rest) => some (.bracket x, rest)
      | _ => none
  | fuel + 1, .keyword .coalesce :: .opening :: rest =>
    (parseArgs fuel rest).bind fun (args, rest) => some (.coalesce args, rest)
  | fuel + 1, .keyword .case :: .keyword .when :: rest =>
    (parseArms fuel (.keyword .when :: rest)).bind fun (arms, rest) => some (.case arms, rest)
  | _ + 1, _ => none

def parseArgs : Nat → List Lexeme → Parsed Args
  | 0, _ => none
  | fuel + 1, lexemes =>
    (parse fuel 0 lexemes).bind fun
      | (x, .closing :: rest) => some (.last x, rest)
      | (x, .comma :: rest) => (parseArgs fuel rest).bind fun (args, rest) => some (.more x args, rest)
      | _ => none

def parseArms : Nat → List Lexeme → Parsed Arms
  | 0, _ => none
  | fuel + 1, .keyword .else :: rest =>
    (parse fuel 0 rest).bind fun
      | (x, .keyword .end :: rest) => some (.otherwise x, rest)
      | _ => none
  | fuel + 1, .keyword .when :: rest =>
    (parse fuel 0 rest).bind fun
      | (c, .keyword .then :: rest) =>
        (parse fuel 0 rest).bind fun (v, rest) =>
          (parseArms fuel rest).bind fun (arms, rest) => some (.when c v arms, rest)
      | _ => none
  | _ + 1, _ => none

end

/-- The whole text is one expression. Two units of fuel for each lexeme are enough. -/
def parseAll (lexemes : List Lexeme) : Option Expr :=
  match parse (2 * lexemes.length + 1) 0 lexemes with
  | some (x, []) => some x
  | _ => none

/-! ## Fuel -/

theorem bind_mono {α β : Type} {x y : Option α} {f g : α → Option β} {r : β} (h : x.bind f = some r)
    (hx : ∀ a, x = some a → y = some a) (hf : ∀ a b, f a = some b → g a = some b) : y.bind g = some r := by
  obtain ⟨a, ha, hr⟩ := Option.bind_eq_some_iff.mp h
  rw [hx a ha]
  exact hf a r hr

/-- One more unit of fuel changes no result. -/
theorem parse_succ (fuel : Nat) :
    (∀ minimum ls r, parse fuel minimum ls = some r → parse (fuel + 1) minimum ls = some r) ∧
    (∀ minimum x ls r, climb fuel minimum x ls = some r → climb (fuel + 1) minimum x ls = some r) ∧
    (∀ ls r, primary fuel ls = some r → primary (fuel + 1) ls = some r) ∧
    (∀ ls r, parseArgs fuel ls = some r → parseArgs (fuel + 1) ls = some r) ∧
    (∀ ls r, parseArms fuel ls = some r → parseArms (fuel + 1) ls = some r) := by
  induction fuel with
  | zero =>
    refine ⟨?_, ?_, ?_, ?_, ?_⟩ <;> intros <;> simp_all [parse, climb, primary, parseArgs, parseArms]
  | succ fuel ih =>
    obtain ⟨hparse, hclimb, hprimary, hargs, harms⟩ := ih
    refine ⟨?_, ?_, ?_, ?_, ?_⟩
    · intro minimum ls r h
      by_cases hnot : ∃ rest, ls = .keyword .not :: rest
      · obtain ⟨rest, rfl⟩ := hnot
        simp only [parse] at h ⊢
        split at h
        · rename_i hle
          rw [if_pos hle]
          exact bind_mono h (hparse _ _) fun a b => hclimb _ _ _ b
        · simp at h
      · have hls : ∀ rest, ls ≠ .keyword .not :: rest := fun rest e => hnot ⟨rest, e⟩
        rw [parse] at h ⊢
        · exact bind_mono h (hprimary _) fun a b => hclimb _ _ _ b
        · simpa using hls
        · simpa using hls
    · intro minimum x ls r h
      unfold climb at h
      split at h <;> injections <;> subst_vars
      · rw [climb]
        split at h
        · rename_i hle
          rw [if_pos hle]
          exact bind_mono h (hparse _ _) fun a b => hclimb _ _ _ b
        · rename_i hle
          rwa [if_neg hle]
      · rw [climb]
        split at h
        · rename_i hle
          rw [if_pos hle]
          exact hclimb _ _ _ _ h
        · rename_i hle
          rwa [if_neg hle]
      · rename_i h1 h2
        rw [climb]
        · exact h1
        · exact h2
    · intro ls r h
      unfold primary at h ⊢
      split at h <;> injections <;> subst_vars
      · rfl
      · rfl
      · rfl
      · rfl
      · rfl
      · refine bind_mono h (hparse _ _) fun a b => ?_
        split <;> exact id
      · exact bind_mono h (hargs _) fun a b => id
      · exact bind_mono h (harms _) fun a b => id
    · intro ls r h
      unfold parseArgs at h ⊢
      refine bind_mono h (hparse _ _) fun a b => ?_
      split
      · exact id
      · exact fun h => bind_mono h (hargs _) fun a b => id
      · exact id
    · intro ls r h
      unfold parseArms at h ⊢
      split at h <;> injections <;> subst_vars
      · refine bind_mono h (hparse _ _) fun a b => ?_
        split <;> exact id
      · refine bind_mono h (hparse _ _) fun a b => ?_
        split
        · exact fun h => bind_mono h (hparse _ _) fun a b h => bind_mono h (harms _) fun a b => id
        · exact id

theorem climb_mono {fuel fuel' minimum : Nat} {x : Expr} {ls : List Lexeme} {r : Expr × List Lexeme}
    (h : climb fuel minimum x ls = some r) (hle : fuel ≤ fuel') : climb fuel' minimum x ls = some r := by
  induction hle with
  | refl => exact h
  | step _ ih => exact (parse_succ _).2.1 _ _ _ _ ih

theorem parse_mono {fuel fuel' minimum : Nat} {ls : List Lexeme} {r : Expr × List Lexeme}
    (h : parse fuel minimum ls = some r) (hle : fuel ≤ fuel') : parse fuel' minimum ls = some r := by
  induction hle with
  | refl => exact h
  | step _ ih => exact (parse_succ _).1 _ _ _ ih

/-! ## Reading a tree back -/

/-- The text after an operand at level `level` does not start with an operator that would
    bind tighter. -/
def Stops (level : Nat) : List Lexeme → Prop
  | .operator op :: _ => op.level ≤ level
  | .keyword .is :: _ => comparisonLevel ≤ level
  | _ => True

/-- Nothing to climb: the operators that follow are looser than `minimum`. -/
theorem climb_stop {fuel minimum level : Nat} {x : Expr} {rest : List Lexeme} (h : Stops level rest)
    (hlt : level < minimum) : climb (fuel + 1) minimum x rest = some (x, rest) := by
  unfold climb
  split <;> injections <;> subst_vars
  · rename_i op rest
    rw [if_neg]
    intro hle
    have : op.level ≤ level := h
    omega
  · rw [if_neg]
    intro hle
    have : comparisonLevel ≤ level := h
    omega
  · rfl

/-- A text that is not an operator's continuation ends the climb at any level. -/
theorem climb_end {fuel minimum : Nat} {x : Expr} {l : Lexeme} {rest : List Lexeme} (hop : ∀ op, l ≠ .operator op)
    (his : l ≠ .keyword .is) : climb (fuel + 1) minimum x (l :: rest) = some (x, l :: rest) := by
  rw [climb]
  · intro op rest' e
    exact hop op (List.cons.inj e).1
  · intro rest' e
    exact his (List.cons.inj e).1

theorem climb_pos {fuel minimum : Nat} {x : Expr} {ls : List Lexeme} {out : Expr × List Lexeme}
    (h : climb fuel minimum x ls = some out) : 0 < fuel := by
  cases fuel with
  | zero => simp [climb] at h
  | succ fuel => omega

theorem parse_primary {fuel minimum : Nat} {ls rest : List Lexeme} {x : Expr} {out : Expr × List Lexeme}
    (hnot : ∀ ls', ls ≠ .keyword .not :: ls') (hx : primary fuel ls = some (x, rest))
    (hclimb : climb fuel minimum x rest = some out) : parse (fuel + 1) minimum ls = some out := by
  rw [parse]
  · simp [hx, hclimb]
  · exact hnot

theorem Stops.mono {level level' : Nat} {rest : List Lexeme} (h : Stops level rest) (hle : level ≤ level') :
    Stops level' rest := by
  unfold Stops at h ⊢
  split at h
  · exact h.trans hle
  · exact h.trans hle
  · trivial

/-- No binary operator is at the level of NOT. -/
theorem Stops.below_not {rest : List Lexeme} (h : Stops notLevel rest) : Stops 2 rest := by
  unfold Stops at h ⊢
  split at h
  · rename_i op _
    revert h
    cases op <;> simp [BinaryOperator.level, notLevel]
  · simp [comparisonLevel, notLevel] at h
  · trivial

theorem parseArgs_mono {fuel fuel' : Nat} {ls : List Lexeme} {r : Args × List Lexeme}
    (h : parseArgs fuel ls = some r) (hle : fuel ≤ fuel') : parseArgs fuel' ls = some r := by
  induction hle with
  | refl => exact h
  | step _ ih => exact (parse_succ _).2.2.2.1 _ _ ih

theorem parseArms_mono {fuel fuel' : Nat} {ls : List Lexeme} {r : Arms × List Lexeme}
    (h : parseArms fuel ls = some r) (hle : fuel ≤ fuel') : parseArms fuel' ls = some r := by
  induction hle with
  | refl => exact h
  | step _ ih => exact (parse_succ _).2.2.2.2 _ _ ih

mutual

/-- The parser reads a leveled tree and goes on climbing behind it. -/
theorem parse_append (x : Expr) (hx : x.Leveled) {fuel minimum : Nat} {rest : List Lexeme} {out : Expr × List Lexeme}
    (hmin : minimum ≤ x.level) (hstop : Stops x.level rest) (hclimb : climb fuel minimum x rest = some out) :
    parse (fuel + 2 * x.lexemes.length) minimum (x.lexemes ++ rest) = some out := by
  cases x with
  | column name =>
    show parse (fuel + 1 + 1) minimum (.identifier name :: rest) = some out
    exact parse_primary (by simp) rfl (climb_mono hclimb (by omega))
  | parameter name =>
    show parse (fuel + 1 + 1) minimum (.parameter name :: rest) = some out
    exact parse_primary (by simp) rfl (climb_mono hclimb (by omega))
  | boolean value =>
    cases value with
    | true =>
      show parse (fuel + 1 + 1) minimum (.keyword .true :: rest) = some out
      exact parse_primary (by simp) rfl (climb_mono hclimb (by omega))
    | false =>
      show parse (fuel + 1 + 1) minimum (.keyword .false :: rest) = some out
      exact parse_primary (by simp) rfl (climb_mono hclimb (by omega))
  | null =>
    show parse (fuel + 1 + 1) minimum (.keyword .null :: rest) = some out
    exact parse_primary (by simp) rfl (climb_mono hclimb (by omega))
  | not x =>
    obtain ⟨hl, hle⟩ := hx
    have hinner : parse (1 + 2 * x.lexemes.length) notLevel (x.lexemes ++ rest) = some (x, rest) :=
      parse_append x hl hle (hstop.mono hle) (climb_stop hstop.below_not (by decide))
    rw [show fuel + 2 * (Expr.not x).lexemes.length = fuel + 1 + 2 * x.lexemes.length + 1 by
      simp [Expr.lexemes]; omega]
    have hmin : minimum ≤ notLevel := hmin
    simp only [Expr.lexemes, List.cons_append, parse, hmin, if_true]
    rw [parse_mono hinner (by omega)]
    exact climb_mono hclimb (by omega)
  | isNull x =>
    obtain ⟨hl, hle⟩ := hx
    have hmin : minimum ≤ comparisonLevel := hmin
    have hnext : climb (fuel + 4) minimum x (.keyword .is :: .keyword .null :: rest) = some out := by
      simp only [climb, hmin, hle, and_self, if_true]
      exact climb_mono hclimb (by omega)
    have := parse_append x hl (hmin.trans hle) (show Stops x.level (.keyword .is :: .keyword .null :: rest) from hle) hnext
    rw [show fuel + 2 * (Expr.isNull x).lexemes.length = fuel + 4 + 2 * x.lexemes.length by
      simp [Expr.lexemes]; omega]
    simpa [Expr.lexemes] using this
  | binary op x y =>
    obtain ⟨hlx, hly, hlex, hley⟩ := hx
    have hmin : minimum ≤ op.level := hmin
    have hstop : Stops op.level rest := hstop
    have hright : parse (1 + 2 * y.lexemes.length) (op.level + 1) (y.lexemes ++ rest) = some (y, rest) :=
      parse_append y hly hley (hstop.mono (by omega)) (climb_stop hstop (by omega))
    have hnext : climb (fuel + 2 + 2 * y.lexemes.length) minimum x (.operator op :: (y.lexemes ++ rest)) = some out := by
      rw [show fuel + 2 + 2 * y.lexemes.length = fuel + 1 + 2 * y.lexemes.length + 1 by omega]
      simp only [climb, hmin, hlex, and_self, if_true]
      rw [parse_mono hright (by omega)]
      exact climb_mono hclimb (by omega)
    have := parse_append x hlx (hmin.trans hlex)
      (show Stops x.level (.operator op :: (y.lexemes ++ rest)) from hlex) hnext
    rw [show fuel + 2 * (Expr.binary op x y).lexemes.length =
      fuel + 2 + 2 * y.lexemes.length + 2 * x.lexemes.length by simp [Expr.lexemes]; omega]
    simpa [Expr.lexemes] using this
  | coalesce args =>
    have hargs := parseArgs_append args hx rest
    rw [show fuel + 2 * (Expr.coalesce args).lexemes.length = fuel + 2 + 2 * args.lexemes.length + 1 + 1 by
      simp [Expr.lexemes]; omega]
    refine parse_primary (by simp [Expr.lexemes]) ?_ (climb_mono hclimb (by omega))
    simp only [Expr.lexemes, List.cons_append, primary]
    rw [parseArgs_mono hargs (by omega)]
    rfl
  | case arms =>
    obtain ⟨hl, hwhen⟩ := hx
    have harms := parseArms_append arms hl rest
    obtain ⟨c, v, more, rfl⟩ := hwhen
    have hpos := climb_pos hclimb
    rw [show fuel + 2 * (Expr.case (.when c v more)).lexemes.length =
      fuel + 2 * (Arms.when c v more).lexemes.length + 1 + 1 by simp [Expr.lexemes]; omega]
    refine parse_primary (by simp [Expr.lexemes]) ?_ (climb_mono hclimb (by omega))
    show (parseArms (fuel + 2 * (Arms.when c v more).lexemes.length)
      ((Arms.when c v more).lexemes ++ rest)).bind _ = _
    rw [parseArms_mono harms (by omega)]
    rfl
  | bracket x =>
    have hinner : parse (1 + 2 * x.lexemes.length) 0 (x.lexemes ++ .closing :: rest) = some (x, .closing :: rest) :=
      parse_append x hx (by omega) trivial (climb_end (by simp) (by simp))
    rw [show fuel + 2 * (Expr.bracket x).lexemes.length = fuel + 2 + 2 * x.lexemes.length + 1 + 1 by
      simp [Expr.lexemes]; omega]
    refine parse_primary (by simp [Expr.lexemes]) ?_ (climb_mono hclimb (by omega))
    simp only [Expr.lexemes, List.cons_append, List.append_assoc, List.nil_append, primary]
    rw [parse_mono hinner (by omega)]
    rfl
termination_by structural x

theorem parseArgs_append (args : Args) (h : args.Leveled) (rest : List Lexeme) :
    parseArgs (1 + 2 * args.lexemes.length) (args.lexemes ++ rest) = some (args, rest) := by
  cases args with
  | last x =>
    have hx : parse (1 + 2 * x.lexemes.length) 0 (x.lexemes ++ .closing :: rest) = some (x, .closing :: rest) :=
      parse_append x h (by omega) trivial (climb_end (by simp) (by simp))
    rw [show 1 + 2 * (Args.last x).lexemes.length = 2 * x.lexemes.length + 2 + 1 by simp [Args.lexemes]; omega]
    simp only [Args.lexemes, List.append_assoc, List.cons_append, List.nil_append, parseArgs]
    rw [parse_mono hx (by omega)]
    rfl
  | more x others =>
    have hx : parse (1 + 2 * x.lexemes.length) 0 (x.lexemes ++ .comma :: (others.lexemes ++ rest)) =
        some (x, .comma :: (others.lexemes ++ rest)) :=
      parse_append x h.1 (by omega) trivial (climb_end (by simp) (by simp))
    have hothers := parseArgs_append others h.2 rest
    rw [show 1 + 2 * (Args.more x others).lexemes.length =
      2 * x.lexemes.length + 2 * others.lexemes.length + 2 + 1 by simp [Args.lexemes]; omega]
    simp only [Args.lexemes, List.append_assoc, List.cons_append]
    rw [parseArgs, parse_mono hx (by omega)]
    show (parseArgs _ (others.lexemes ++ rest)).bind _ = _
    rw [parseArgs_mono hothers (by omega)]
    rfl
termination_by structural args

theorem parseArms_append (arms : Arms) (h : arms.Leveled) (rest : List Lexeme) :
    parseArms (1 + 2 * arms.lexemes.length) (arms.lexemes ++ rest) = some (arms, rest) := by
  cases arms with
  | otherwise x =>
    have hx : parse (1 + 2 * x.lexemes.length) 0 (x.lexemes ++ .keyword .end :: rest) =
        some (x, .keyword .end :: rest) :=
      parse_append x h (by omega) trivial (climb_end (by simp) (by simp))
    rw [show 1 + 2 * (Arms.otherwise x).lexemes.length = 2 * x.lexemes.length + 4 + 1 by simp [Arms.lexemes]; omega]
    simp only [Arms.lexemes, List.append_assoc, List.cons_append, List.nil_append, parseArms]
    rw [parse_mono hx (by omega)]
    rfl
  | when c v others =>
    obtain ⟨hlc, hlv, hlo⟩ := h
    have hc : parse (1 + 2 * c.lexemes.length) 0
        (c.lexemes ++ .keyword .then :: (v.lexemes ++ (others.lexemes ++ rest))) =
          some (c, .keyword .then :: (v.lexemes ++ (others.lexemes ++ rest))) :=
      parse_append c hlc (by omega) trivial (climb_end (by simp) (by simp))
    have hv : parse (1 + 2 * v.lexemes.length) 0 (v.lexemes ++ (others.lexemes ++ rest)) =
        some (v, others.lexemes ++ rest) := by
      refine parse_append v hlv (by omega) ?_ ?_
      · cases others <;> exact trivial
      · cases others <;> exact climb_end (by simp) (by simp)
    have hothers := parseArms_append others hlo rest
    rw [show 1 + 2 * (Arms.when c v others).lexemes.length =
      2 * c.lexemes.length + 2 * v.lexemes.length + 2 * others.lexemes.length + 4 + 1 by simp [Arms.lexemes]; omega]
    simp only [Arms.lexemes, List.append_assoc, List.cons_append, parseArms]
    rw [parse_mono hc (by omega)]
    show (parse _ 0 (v.lexemes ++ (others.lexemes ++ rest))).bind _ = _
    rw [parse_mono hv (by omega)]
    show (parseArms _ (others.lexemes ++ rest)).bind _ = _
    rw [parseArms_mono hothers (by omega)]
    rfl
termination_by structural arms

end

/-- A leveled tree is read back from its lexemes. -/
theorem parseAll_lexemes {x : Expr} (h : x.Leveled) : parseAll x.lexemes = some x := by
  have hparse : parse (1 + 2 * x.lexemes.length) 0 (x.lexemes ++ []) = some (x, []) :=
    parse_append x h (Nat.zero_le _) trivial rfl
  rw [List.append_nil, Nat.add_comm] at hparse
  simp [parseAll, hparse]

/-! ## Values -/

inductive Value (V : Type) where
  | null
  | boolean (b : Bool)
  | other (v : V)
  deriving DecidableEq

variable {V : Type}

namespace Value

def isNull : Value V → Bool
  | null => true
  | _ => false

/-- NOT; what is no truth value is unknown. -/
def not : Value V → Value V
  | boolean b => boolean !b
  | _ => null

def and : Value V → Value V → Value V
  | boolean false, _ => boolean false
  | _, boolean false => boolean false
  | boolean true, boolean true => boolean true
  | _, _ => null

def or : Value V → Value V → Value V
  | boolean true, _ => boolean true
  | _, boolean true => boolean true
  | boolean false, boolean false => boolean false
  | _, _ => null

/-- True, false or unknown. -/
def Truth : Value V → Prop
  | other _ => False
  | _ => True

theorem and_assoc (x y z : Value V) : (x.and y).and z = x.and (y.and z) := by
  rcases x with _ | ⟨_ | _⟩ | _ <;> rcases y with _ | ⟨_ | _⟩ | _ <;> rcases z with _ | ⟨_ | _⟩ | _ <;> rfl

theorem or_assoc (x y z : Value V) : (x.or y).or z = x.or (y.or z) := by
  rcases x with _ | ⟨_ | _⟩ | _ <;> rcases y with _ | ⟨_ | _⟩ | _ <;> rcases z with _ | ⟨_ | _⟩ | _ <;> rfl

theorem truth_and (x y : Value V) : (x.and y).Truth := by
  rcases x with _ | ⟨_ | _⟩ | _ <;> rcases y with _ | ⟨_ | _⟩ | _ <;> trivial

theorem truth_or (x y : Value V) : (x.or y).Truth := by
  rcases x with _ | ⟨_ | _⟩ | _ <;> rcases y with _ | ⟨_ | _⟩ | _ <;> trivial

end Value

/-- The arithmetic and comparison operators: strict, comparisons are truth values, and
    equality of truth values is what it says. -/
structure Interpretation (V : Type) where
  apply : BinaryOperator → Value V → Value V → Value V
  null_left : ∀ op y, apply op .null y = .null
  null_right : ∀ op x, apply op x .null = .null
  comparison : ∀ op x y, op.level = comparisonLevel → (apply op x y).Truth
  equal_boolean : ∀ a b, apply .equal (.boolean a) (.boolean b) = .boolean (a == b)

def Interpretation.binary (I : Interpretation V) : BinaryOperator → Value V → Value V → Value V
  | .and, x, y => x.and y
  | .or, x, y => x.or y
  | op, x, y => I.apply op x y

mutual

def Expr.eval (I : Interpretation V) (row parameters : String → Value V) : Expr → Value V
  | .column name => row name
  | .parameter name => parameters name
  | .boolean b => .boolean b
  | .null => .null
  | .not x => (x.eval I row parameters).not
  | .isNull x => .boolean (x.eval I row parameters).isNull
  | .binary op x y => I.binary op (x.eval I row parameters) (y.eval I row parameters)
  | .coalesce args => args.eval I row parameters
  | .case arms => arms.eval I row parameters
  | .bracket x => x.eval I row parameters

/-- The first value that is not NULL. -/
def Args.eval (I : Interpretation V) (row parameters : String → Value V) : Args → Value V
  | .last x => x.eval I row parameters
  | .more x rest =>
    let value := x.eval I row parameters
    if value.isNull then rest.eval I row parameters else value

/-- The value of the first arm whose condition is true. -/
def Arms.eval (I : Interpretation V) (row parameters : String → Value V) : Arms → Value V
  | .otherwise x => x.eval I row parameters
  | .when c v rest =>
    match c.eval I row parameters with
    | .boolean true => v.eval I row parameters
    | _ => rest.eval I row parameters

end

/-! ## Chains -/

/-- `x op y` as the parser reads it: a chain of the same operator on the right associates
    to the left. -/
def chain (op : BinaryOperator) (x : Expr) : Expr → Expr
  | .binary op' y z => if op' = op then .binary op (chain op x y) z else .binary op x (.binary op' y z)
  | y => .binary op x y

theorem chain_lexemes (op : BinaryOperator) (x y : Expr) :
    (chain op x y).lexemes = x.lexemes ++ .operator op :: y.lexemes := by
  fun_induction chain op x y with
  | case1 y z ih => simp [Expr.lexemes, ih]
  | case2 | case3 => rfl

theorem chain_level (op : BinaryOperator) (x y : Expr) : (chain op x y).level = op.level := by
  fun_induction chain op x y <;> rfl

theorem chain_leveled {op : BinaryOperator} {x y : Expr} (hop : ∀ op', op'.level = op.level → op' = op)
    (hx : x.Leveled) (hy : y.Leveled) (hlx : op.level ≤ x.level) (hly : op.level ≤ y.level) :
    (chain op x y).Leveled := by
  fun_induction chain op x y with
  | case1 y z ih =>
    obtain ⟨hl, hr, hll, hlr⟩ := hy
    exact ⟨ih hl hll, hr, (chain_level op x y).ge, hlr⟩
  | case2 op' y z hne =>
    refine ⟨hx, hy, hlx, ?_⟩
    have hle : op.level ≤ op'.level := hly
    have hne' : op'.level ≠ op.level := fun e => hne (hop op' e)
    show op.level + 1 ≤ op'.level
    omega
  | case3 y hy' =>
    have hne : y.level ≠ op.level := by
      intro e
      cases y with
      | binary op' y z => exact hy' op' y z rfl
      | isNull y =>
        have hequal : BinaryOperator.equal = op := hop _ e
        have hdiffers : BinaryOperator.notEqual = op := hop _ e
        exact absurd (hequal.trans hdiffers.symm) (by decide)
      | _ => cases op <;> simp [Expr.level, BinaryOperator.level, notLevel, atomLevel] at e
    exact ⟨hx, hy, hlx, by omega⟩

theorem chain_eval {op : BinaryOperator} (hop : op = .and ∨ op = .or) (I : Interpretation V)
    (row parameters : String → Value V) (x y : Expr) :
    (chain op x y).eval I row parameters = I.binary op (x.eval I row parameters) (y.eval I row parameters) := by
  fun_induction chain op x y with
  | case1 y z ih =>
    simp only [Expr.eval, ih]
    obtain rfl | rfl := hop
    · exact Value.and_assoc _ _ _
    · exact Value.or_assoc _ _ _
  | case2 | case3 => rfl

end DataNexus.Lib.SqlExpression
