/-
  DataNexus.Plugins.Fragments — the source fragments a governed resolver takes
  (`types.py`, `base.py` and `validate_fragment_shape` in `nexus_plugins`), and what they
  say.

  Both predicate checks walk the expression with one loop (`visit`), within the same
  budgets. What Arrow makes of a predicate's literals and comparisons, which it may refuse, is
  a parameter (`ArrowKernel`); `&`, `|`, `~` and `is_null` are Kleene's.

  - `visit_checks`: a walk that ends has checked every node.
  - `ArrowKernel.denote`, `perform`, `performAll`: a predicate's value at a row, if Arrow has
    one; an operation on a table; a fragment's operations in order.
-/

import DataNexus.Lib.Outcome
import DataNexus.Runtime.ScalarValues

namespace DataNexus.Plugins

open DataNexus.Lib DataNexus.Runtime

/-- How a resolver fails: with a code of its own, for exceeded resources, or with an error of
    the language or of Arrow. -/
inductive ResolverError where
  | resolverFailure (code message : String)
  | resourceLimitFailure (code message : String)
  | assertionError
  | fieldMissing
  /-- What Arrow raises at a value or an expression. -/
  | arrow (message : String)
  deriving DecidableEq

/-! ## Predicates -/

/-- `PREDICATE_KINDS`. -/
def predicateKind : ExpressionKind → Bool
  | .add | .subtract | .multiply | .divide | .coalesce => false
  | _ => true

def predicateLimit : ResolverError := .resolverFailure "PREDICATE_LIMIT" "Predicate exceeds depth/node budget"

/-- The walk over an expression's nodes, its top first; `left` counts down from the 128 nodes
    it may visit. A node may end it with a result. -/
def visit {ρ : Type} (node : TypedExpression → Option ρ) (done limit : ρ) : Nat → List (TypedExpression × Nat) → ρ
  | _, [] => done
  | 0, _ :: _ => limit
  | left + 1, (expression, depth) :: pending =>
    if depth > 16 then limit
    else
      match node expression with
      | some result => result
      | none => visit node done limit left ((expression.args.map (·, depth + 1)).reverse ++ pending)

/-- `predicate_supported`. -/
def predicateSupported (expression : TypedExpression) : Except ResolverError Bool :=
  visit (fun node => if predicateKind node.kind then none else some (.ok false)) (.ok true) (.error predicateLimit) 128
    [(expression, 0)]

def predicateType (message : String) : ResolverError := .resolverFailure "PREDICATE_TYPE" message

/-- `for_current`. -/
def typeMatches : ScalarType → ArrowType → Bool
  | .string, .string => true
  | .integer, .integer _ _ => true
  | .float, .floating _ => true
  | .decimal, .decimal _ _ _ _ => true
  | .boolean, .boolean => true
  | .date, .date _ => true
  | .timestamp, .timestamp _ _ => true
  | _, _ => false

def unary (kind : ExpressionKind) : Bool := kind = .not || kind = .isNull

def predicateArity (kind : ExpressionKind) : Nat := if unary kind then 1 else 2

/-- What `validate_predicate` objects to at an operator. -/
def operatorObjection (node : TypedExpression) : Option ResolverError :=
  if node.args.length ≠ predicateArity node.kind ∨ node.dataType ≠ .boolean then
    some (predicateType "Invalid predicate arity/result type")
  else if node.kind = .and ∨ node.kind = .or ∨ node.kind = .not then
    if node.args.any (·.dataType ≠ .boolean) then some (predicateType "Boolean operands required") else none
  else if ¬ unary node.kind ∧ node.args[0]?.map (·.dataType) ≠ node.args[1]?.map (·.dataType) then
    some (predicateType "Comparison operands must have matching types")
  else none

/-- What `validate_predicate` objects to at a node. -/
def predicateObjection (lib : ScalarParsers) (schema : Schema) (node : TypedExpression) : Option ResolverError :=
  if node.kind = .column then
    if (node.column.bind schema.type?).any (typeMatches node.dataType) then none
    else some (predicateType "Column does not match its declared type")
  else if node.kind = .literal then
    match scalarValue lib node.dataType node.value with
    | .ok _ => none
    | .error message => some (predicateType message)
  else operatorObjection node

/-- `validate_predicate`. -/
def validatePredicate (lib : ScalarParsers) (expression : TypedExpression) (schema : Schema) : Except ResolverError Unit :=
  visit (fun node => (predicateObjection lib schema node).map .error) (.ok ()) (.error predicateLimit) 128 [(expression, 0)]

/-! ## Fragments -/

def invalidFragment (message : String) : ResolverError := .resolverFailure "PUSHDOWN_INVALID" message

def unsupportedFragment (message : String) : ResolverError := .resolverFailure "PUSHDOWN_UNSUPPORTED" message

/-- The fields `validate_operation` allows, less the kind. -/
def pushdownFields : OperatorKind → Option (List OperatorField)
  | .source => some []
  | .select => some [.columns]
  | .filter => some [.predicate]
  | .sort => some [.sort]
  | .limit => some [.limit]
  | _ => none

/-- `validate_operation`; an operation of the v1 form has a version besides. -/
def validateOperation (operation : OperatorSpec) : Except ResolverError Unit := do
  let unsupported := unsupportedFragment "Unsupported source operation or parameter"
  match pushdownFields operation.kind with
  | none => .error unsupported
  | some allowed => refuseIf (operation.isV1 || operation.nonDefaults.any fun field => !allowed.contains field) unsupported
  refuseIf (operation.kind == .select && operation.columns.isEmpty) (invalidFragment "Projection cannot be empty")
  refuseIf (operation.kind == .filter && operation.predicate.isNone) (invalidFragment "Filter requires a predicate")
  refuseIf (operation.kind == .sort && operation.sort.isEmpty) (invalidFragment "Sort requires keys")
  refuseIf (operation.kind == .limit && operation.limit.isNone) (invalidFragment "Limit requires a count")

/-- The loop of `validate_fragment_shape` over the operations after the first. -/
def validateOperations : List OperatorSpec → Except ResolverError Unit
  | [] => .ok ()
  | operation :: operations => do
    validateOperation operation
    refuseIf (operation.kind == .source) (invalidFragment "SOURCE may appear only once")
    validateOperations operations

/-- `validate_fragment_shape`, of a fragment without bound parameters. -/
def validateFragmentShape (fragment : SourceFragment) : Except ResolverError Unit :=
  match fragment.operations with
  | [] => .error (invalidFragment "Fragment must start with SOURCE")
  | first :: operations => do
    refuseIf (first.kind != .source) (invalidFragment "Fragment must start with SOURCE")
    refuseIf (32 < fragment.operations.length) (invalidFragment "Fragment exceeds 32 operations")
    validateOperation first
    validateOperations operations

/-- `all(predicate is None or predicate_supported(predicate))`. -/
def predicatesSupported : List OperatorSpec → Except ResolverError Bool
  | [] => .ok true
  | operation :: operations =>
    match operation.predicate with
    | none => predicatesSupported operations
    | some expression => do
      if ← predicateSupported expression then predicatesSupported operations else return false

/-- `GovernedResolver.supports_fragment`. -/
def supportsFragment (fragment : SourceFragment) : Except ResolverError Bool :=
  match validateFragmentShape fragment with
  | .error (.resolverFailure code message) =>
    if code = "PUSHDOWN_UNSUPPORTED" then .ok false else .error (.resolverFailure code message)
  | .error e => .error e
  | .ok _ => predicatesSupported fragment.operations

/-! ## What a walk has checked -/

/-- An expression and everything below it. -/
inductive Within : TypedExpression → TypedExpression → Prop
  | self (e : TypedExpression) : Within e e
  | arg {node arg e : TypedExpression} : arg ∈ e.args → Within node arg → Within node e

theorem visit_checks {ρ : Type} {node : TypedExpression → Option ρ} {done limit : ρ} (hlimit : limit ≠ done)
    (hnode : ∀ e, node e ≠ some done) {left : Nat} {pending : List (TypedExpression × Nat)}
    (h : visit node done limit left pending = done) : ∀ p ∈ pending, ∀ e, Within e p.1 → node e = none := by
  induction left generalizing pending with
  | zero =>
    cases pending with
    | nil => simp
    | cons p pending => exact absurd h hlimit
  | succ left ih =>
    cases pending with
    | nil => simp
    | cons p pending =>
      obtain ⟨expression, depth⟩ := p
      rw [visit] at h
      split at h
      · exact absurd h hlimit
      · split at h
        · rename_i result hresult
          exact absurd (h ▸ hresult) (hnode expression)
        · rename_i hnone
          have hrest := ih h
          intro p hp e hwithin
          rcases List.mem_cons.mp hp with rfl | hp
          · cases hwithin with
            | self => exact hnone
            | arg harg hwithin =>
              refine hrest (_, depth + 1) (List.mem_append_left _ ?_) e hwithin
              rw [List.mem_reverse]
              exact List.mem_map.mpr ⟨_, harg, rfl⟩
          · exact hrest p (List.mem_append_right _ hp) e hwithin

theorem predicateSupported_kinds {expression : TypedExpression} (h : predicateSupported expression = .ok true) :
    ∀ e, Within e expression → predicateKind e.kind = true := by
  have hchecks := visit_checks (by simp) (fun e => by split <;> simp) h (expression, 0) (by simp)
  intro e hwithin
  by_contra hkind
  have hnone := hchecks e hwithin
  rw [if_neg hkind] at hnone
  cases hnone

theorem validatePredicate_checks {lib : ScalarParsers} {expression : TypedExpression} {schema : Schema}
    (h : validatePredicate lib expression schema = .ok ()) :
    ∀ e, Within e expression → predicateObjection lib schema e = none := by
  have hchecks := visit_checks (by simp) (fun e => by
    rw [Ne, Option.map_eq_some_iff]
    rintro ⟨objection, -, heq⟩
    cases heq) h (expression, 0) (by simp)
  intro e hwithin
  exact Option.map_eq_none_iff.mp (hchecks e hwithin)

theorem column_of_objection {lib : ScalarParsers} {schema : Schema} {node : TypedExpression} (hkind : node.kind = .column)
    (h : predicateObjection lib schema node = none) : ∃ name, node.column = some name ∧ (schema.type? name).isSome = true := by
  rw [predicateObjection, if_pos hkind] at h
  by_cases htype : (node.column.bind schema.type?).any (typeMatches node.dataType) = true
  · obtain ⟨type, hsome, -⟩ := (Option.any_eq_true _ _).mp htype
    obtain ⟨name, hname, hlookup⟩ := Option.bind_eq_some_iff.mp hsome
    exact ⟨name, hname, by rw [hlookup]; rfl⟩
  · rw [if_neg htype] at h
    cases h

theorem literal_of_objection {lib : ScalarParsers} {schema : Schema} {node : TypedExpression} (hkind : node.kind = .literal)
    (h : predicateObjection lib schema node = none) : scalarValue lib node.dataType node.value = .ok () := by
  rw [predicateObjection, if_neg (by rw [hkind]; decide), if_pos hkind] at h
  cases hscalar : scalarValue lib node.dataType node.value with
  | ok => rfl
  | error message =>
    rw [hscalar] at h
    cases h

theorem arity_of_objection {lib : ScalarParsers} {schema : Schema} {node : TypedExpression}
    (hkind : node.kind ≠ .column ∧ node.kind ≠ .literal) (h : predicateObjection lib schema node = none) :
    node.args.length = predicateArity node.kind := by
  rw [predicateObjection, if_neg hkind.1, if_neg hkind.2] at h
  by_contra hne
  rw [operatorObjection, if_pos (.inl hne)] at h
  cases h

theorem predicatesSupported_mem {operations : List OperatorSpec} (h : predicatesSupported operations = .ok true)
    {operation : OperatorSpec} (hmem : operation ∈ operations) {expression : TypedExpression}
    (hpredicate : operation.predicate = some expression) : predicateSupported expression = .ok true := by
  induction operations with
  | nil => cases hmem
  | cons first operations ih =>
    rw [predicatesSupported] at h
    split at h
    · rename_i hnone
      rcases List.mem_cons.mp hmem with rfl | hmem
      · rw [hnone] at hpredicate
        cases hpredicate
      · exact ih h hmem
    · rename_i other hsome
      obtain ⟨supported, hsupported, hrest⟩ := bind_eq_ok.mp h
      cases supported with
      | false => cases hrest
      | true =>
        rcases List.mem_cons.mp hmem with rfl | hmem
        · rw [hsome] at hpredicate
          rw [← Option.some.inj hpredicate]
          exact hsupported
        · exact ih hrest hmem

theorem supportsFragment_ok {fragment : SourceFragment} (h : supportsFragment fragment = .ok true) :
    validateFragmentShape fragment = .ok () ∧ predicatesSupported fragment.operations = .ok true := by
  unfold supportsFragment at h
  split at h
  · split at h <;> cases h
  · cases h
  · rename_i hshape
    exact ⟨hshape, h⟩

theorem validateOperations_mem {operations : List OperatorSpec} (h : validateOperations operations = .ok ())
    {operation : OperatorSpec} (hmem : operation ∈ operations) : validateOperation operation = .ok () := by
  induction operations with
  | nil => cases hmem
  | cons first operations ih =>
    simp only [validateOperations, bind_eq_ok] at h
    obtain ⟨_, hfirst, _, -, hrest⟩ := h
    rcases List.mem_cons.mp hmem with rfl | hmem
    · exact hfirst
    · exact ih hrest hmem

/-- The operations after the first are valid ones. -/
theorem validateFragmentShape_mem {fragment : SourceFragment} (h : validateFragmentShape fragment = .ok ())
    {operation : OperatorSpec} (hmem : operation ∈ fragment.operations.tail) : validateOperation operation = .ok () := by
  unfold validateFragmentShape at h
  split at h
  · cases h
  · rename_i first operations hoperations
    simp only [bind_eq_ok] at h
    obtain ⟨_, -, _, -, _, -, hrest⟩ := h
    rw [hoperations] at hmem
    exact validateOperations_mem hrest hmem

theorem validateOperation_filter {operation : OperatorSpec} (h : validateOperation operation = .ok ())
    (hkind : operation.kind = .filter) : ∃ expression, operation.predicate = some expression := by
  simp only [validateOperation, hkind, pushdownFields, bind_eq_ok, refuseIf_eq_ok] at h
  obtain ⟨_, -, _, -, _, hfilter, -⟩ := h
  exact Option.isSome_iff_exists.mp (by simpa using hfilter)

theorem validateOperation_limit {operation : OperatorSpec} (h : validateOperation operation = .ok ())
    (hkind : operation.kind = .limit) : ∃ n, operation.limit = some n := by
  simp only [validateOperation, hkind, pushdownFields, bind_eq_ok, refuseIf_eq_ok] at h
  obtain ⟨_, -, _, -, _, -, _, -, hlimit⟩ := h
  exact Option.isSome_iff_exists.mp (by simpa using hlimit)

/-! ## What a fragment says -/

/-- What Arrow makes of values: a literal's value and the comparisons (null where they say
    nothing), either of which it may refuse with a message; and the truth of a boolean. -/
structure ArrowKernel (V : Type) where
  literal : ScalarType → ScalarValue → Except String V
  truth : V → Option Bool
  ofTruth : Option Bool → V
  isNull : V → Bool
  compare : ExpressionKind → V → V → Except String (Option Bool)
  truth_ofTruth : ∀ t, truth (ofTruth t) = t

/-- Kleene's `and`. -/
def kleeneAnd : Option Bool → Option Bool → Option Bool
  | some false, _ | _, some false => some false
  | some true, some true => some true
  | _, _ => none

/-- Kleene's `or`. -/
def kleeneOr : Option Bool → Option Bool → Option Bool
  | some true, _ | _, some true => some true
  | some false, some false => some false
  | _, _ => none

@[simp] theorem kleeneAnd_eq_true {a b : Option Bool} : kleeneAnd a b = some true ↔ a = some true ∧ b = some true := by
  rcases a with _ | _ | _ <;> rcases b with _ | _ | _ <;> simp [kleeneAnd]

section

variable {V : Type} (A : ArrowKernel V)

def ArrowKernel.apply (kind : ExpressionKind) : List V → Except String V
  | [a] =>
    match kind with
    | .not => .ok (A.ofTruth ((A.truth a).map not))
    | .isNull => .ok (A.ofTruth (some (A.isNull a)))
    | _ => .ok (A.ofTruth none)
  | [a, b] =>
    match kind with
    | .and => .ok (A.ofTruth (kleeneAnd (A.truth a) (A.truth b)))
    | .or => .ok (A.ofTruth (kleeneOr (A.truth a) (A.truth b)))
    | _ => A.ofTruth <$> A.compare kind a b
  | _ => .ok (A.ofTruth none)

mutual

/-- The value of an expression at a row, or what Arrow refuses there. -/
def ArrowKernel.denote (row : String → V) : TypedExpression → Except String V
  | .mk kind dataType column value args =>
    match kind with
    | .column => .ok (row (column.getD ""))
    | .literal => A.literal dataType value
    | kind => do
      let values ← ArrowKernel.denotes row args
      A.apply kind values

def ArrowKernel.denotes (row : String → V) : List TypedExpression → Except String (List V)
  | [] => .ok []
  | arg :: args => do
    let value ← ArrowKernel.denote row arg
    let values ← ArrowKernel.denotes row args
    return value :: values

end

/-- There is a value, and it is true. -/
def ArrowKernel.holds (value : Except String V) : Bool :=
  match value with
  | .ok v => A.truth v = some true
  | .error _ => false

/-- A row is kept where the predicate is true: neither false nor null. -/
def ArrowKernel.keeps (expression : TypedExpression) (row : String → V) : Bool := A.holds (A.denote row expression)

/-- Columns, and rows of which only these columns count. -/
structure Table (V : Type) where
  columns : List String
  rows : List (String → V)

def Table.cells (table : Table V) : List (List V) := table.rows.map table.columns.map

/-- FILTER, SELECT and LIMIT. -/
def perform (operation : OperatorSpec) (table : Table V) : Table V :=
  match operation.kind, operation.predicate, operation.limit with
  | .filter, some expression, _ => { table with rows := table.rows.filter (A.keeps expression) }
  | .select, _, _ => { table with columns := operation.columns }
  | .limit, _, some n => { table with rows := table.rows.take n }
  | _, _, _ => table

def performAll (operations : List OperatorSpec) (table : Table V) : Table V :=
  operations.foldl (fun table operation => perform A operation table) table

end

end DataNexus.Plugins
