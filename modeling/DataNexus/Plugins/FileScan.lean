/-
  DataNexus.Plugins.FileScan — scans of CSV and Parquet assets (`files.py`).

  `_scan` merges a fragment's operations into one predicate, one projection and one limit,
  has Arrow's scanner apply the first two and applies the limit batch by batch. How the
  scanner divides the file's rows into batches, what it says of a filter it is to bind, and
  what a batch retains, are parameters (`Scanner`); a batch cut short may retain as much as
  it wants. Left out: opening the file, and stopping a scan.

  Arrow raises errors of its own, which nothing catches: at a literal while the filter is
  made, at the filter when the scanner is made, and at a row, or past the rows the file
  still has, when its batch is asked for.

  - `planFrom_planned`: on the orders that are supported the merge means what the operations
    mean in order, unless a literal is refused.
-/

import DataNexus.Lib.Dict
import DataNexus.Plugins.Fragments

namespace DataNexus.Plugins

open DataNexus.Lib DataNexus.Runtime

/-! ## Arrow filters -/

/-- `ds.Expression`. -/
inductive DsExpression (V : Type) where
  | field (name : String)
  | scalar (value : V)
  | invert (a : DsExpression V)
  | isNull (a : DsExpression V)
  | compare (kind : ExpressionKind) (a b : DsExpression V)
  | kleeneAnd (a b : DsExpression V)
  | kleeneOr (a b : DsExpression V)

section

variable {V : Type} (A : ArrowKernel V)

def filterUnsupported : ResolverError := unsupportedFragment "File predicate is unsupported"

def filterArity : ResolverError := invalidFragment "Invalid predicate arity"

/-- What `_filter` makes of an operator and its arguments. -/
def filterOperation (kind : ExpressionKind) : List (DsExpression V) → Except ResolverError (DsExpression V)
  | [a] =>
    match kind with
    | .not => .ok (.invert a)
    | .isNull => .ok (.isNull a)
    | _ => .error filterArity
  | [a, b] =>
    match kind with
    | .equal | .notEqual | .lessThan | .lessEqual | .greaterThan | .greaterEqual => .ok (.compare kind a b)
    | .and => .ok (.kleeneAnd a b)
    | .or => .ok (.kleeneOr a b)
    | _ => .error filterUnsupported
  | _ => .error filterArity

/-- A literal of `_filter`; the Arrow type of a decimal is its value's, which is read first. -/
def filterLiteral (lib : ScalarParsers) (dataType : ScalarType) (value : ScalarValue) : Except ResolverError (DsExpression V) := do
  if dataType = .decimal then (scalarValue lib dataType value).mapError (.resolverFailure "SOURCE_TYPE_MISMATCH" ·)
  let native ← (A.literal dataType value).mapError .arrow
  return .scalar native

mutual

/-- `_filter`. -/
def filterOf (lib : ScalarParsers) (names : List String) : TypedExpression → Except ResolverError (DsExpression V)
  | .mk kind dataType column value args =>
    match kind with
    | .column =>
      match column with
      | some name =>
        if name ∈ names then .ok (.field name)
        else .error (.resolverFailure "FILE_COLUMN_DENIED" "Filter references unknown columns")
      | none => .error (.resolverFailure "FILE_COLUMN_DENIED" "Filter references unknown columns")
    | .literal => filterLiteral A lib dataType value
    | kind => do
      let arguments ← filtersOf lib names args
      filterOperation kind arguments

def filtersOf (lib : ScalarParsers) (names : List String) : List TypedExpression → Except ResolverError (List (DsExpression V))
  | [] => .ok []
  | arg :: args => do
    let first ← filterOf lib names arg
    let rest ← filtersOf lib names args
    return first :: rest

end

end

mutual

/-- The columns `_scan` collects from a predicate. -/
def expressionColumns : TypedExpression → List String
  | .mk _ _ column _ args => column.toList ++ expressionsColumns args

def expressionsColumns : List TypedExpression → List String
  | [] => []
  | arg :: args => expressionColumns arg ++ expressionsColumns args

end

namespace DsExpression

variable {V : Type} (A : ArrowKernel V)

/-- The fields that must be in the schema an expression is bound to. -/
def fields : DsExpression V → List String
  | field name => [name]
  | scalar _ => []
  | invert a | isNull a => a.fields
  | compare _ a b | kleeneAnd a b | kleeneOr a b => a.fields ++ b.fields

/-- Arrow evaluates both sides of every operator. -/
def eval (row : String → V) : DsExpression V → Except String V
  | field name => .ok (row name)
  | scalar value => .ok value
  | invert a => do
    let x ← a.eval row
    return A.ofTruth ((A.truth x).map Bool.not)
  | isNull a => do
    let x ← a.eval row
    return A.ofTruth (some (A.isNull x))
  | compare kind a b => do
    let x ← a.eval row
    let y ← b.eval row
    A.ofTruth <$> A.compare kind x y
  | kleeneAnd a b => do
    let x ← a.eval row
    let y ← b.eval row
    return A.ofTruth (Plugins.kleeneAnd (A.truth x) (A.truth y))
  | kleeneOr a b => do
    let x ← a.eval row
    let y ← b.eval row
    return A.ofTruth (Plugins.kleeneOr (A.truth x) (A.truth y))

end DsExpression

/-! ## The plan of a scan -/

/-- The stages of `supports_fragment`: filters, then selections, then limits. -/
def stagesAccept : Nat → List OperatorSpec → Bool
  | _, [] => true
  | stage, operation :: operations =>
    if operation.kind = .filter ∧ stage = 0 then stagesAccept stage operations
    else if operation.kind = .select ∧ stage ≤ 1 then stagesAccept 1 operations
    else if operation.kind = .limit then stagesAccept 2 operations
    else false

/-- `GovernedFileResolver.supports_fragment`. -/
def fileSupportsFragment (fragment : SourceFragment) : Except ResolverError Bool := do
  if ← supportsFragment fragment then return stagesAccept 0 fragment.operations.tail else return false

structure ScanPlan (V : Type) where
  projection : List String
  filterColumns : List String := []
  predicate : Option (DsExpression V) := none
  limit : Option Nat := none
  stage : Nat := 0

/-- `rendered if predicate is None else predicate & rendered`. -/
def conjoined {V : Type} : Option (DsExpression V) → DsExpression V → DsExpression V
  | none, rendered => rendered
  | some predicate, rendered => .kleeneAnd predicate rendered

/-- `n if limit is None else min(limit, n)`. -/
def lowered : Option Nat → Nat → Nat
  | none, n => n
  | some limit, n => min limit n

section

variable {V : Type} (A : ArrowKernel V)

/-- One turn of `_scan`'s loop over the operations. -/
def planStep (lib : ScalarParsers) (schema : Schema) (plan : ScanPlan V) (operation : OperatorSpec) :
    Except ResolverError (ScanPlan V) :=
  if operation.kind = .filter ∧ plan.stage = 0 then
    match operation.predicate with
    | none => .error .assertionError
    | some expression => do
      validatePredicate lib expression schema
      let rendered ← filterOf A lib schema.columnNames expression
      return { plan with
        filterColumns := plan.filterColumns ++ expressionColumns expression
        predicate := some (conjoined plan.predicate rendered) }
  else if operation.kind = .select ∧ plan.stage ≤ 1 then do
    refuseIf (!operation.columns.all fun c => plan.projection.contains c)
      (.resolverFailure "FILE_COLUMN_DENIED" "Projection references unknown columns")
    return { plan with projection := operation.columns, stage := 1 }
  else if operation.kind = .limit then
    match operation.limit with
    | none => .error .assertionError
    | some n => .ok { plan with limit := some (lowered plan.limit n), stage := 2 }
  else .error (unsupportedFragment "Unsupported file operator ordering")

def planFrom (lib : ScalarParsers) (schema : Schema) : ScanPlan V → List OperatorSpec → Except ResolverError (ScanPlan V)
  | plan, [] => .ok plan
  | plan, operation :: operations => do
    let plan ← planStep A lib schema plan operation
    planFrom lib schema plan operations

end

/-! ## The scan -/

inductive FileFormat where
  | parquet | csv
  deriving DecidableEq

def FileFormat.drift : FileFormat → String
  | parquet => "Parquet schema drift detected"
  | csv => "CSV schema drift detected"

structure FileContent (V : Type) where
  format : FileFormat
  schema : Schema
  rows : List (String → V)
  /-- What the reader raises after these rows, if it does. -/
  damage : Option String := none

/-- How the scanner divides the rows it reads into batches; whether it binds a filter to the
    schema of the columns that are read; and what a batch of which some rows are kept retains. -/
structure Scanner (V : Type) where
  divide : List (String → V) → List (List (String → V))
  bind : Schema → DsExpression V → Except String Unit
  retained : List (List V) → Nat → Nat
  flatten_divide : ∀ rows, (divide rows).flatten = rows

structure Limits where
  maxRows : Nat
  maxBytes : Nat
  deriving DecidableEq

structure Scanned (V : Type) where
  columns : List String
  rows : List (List V)
  deriving DecidableEq

section

variable {V : Type} (A : ArrowKernel V) (scanner : Scanner V) (limits : Limits)

/-- The filter's value at a row; without a filter every row is kept. -/
def filterValue (predicate : Option (DsExpression V)) (row : String → V) : Except String V :=
  match predicate with
  | none => .ok (A.ofTruth (some true))
  | some e => e.eval A row

/-- The rows of a batch that the filter keeps. -/
def filterBatch (predicate : Option (DsExpression V)) : List (String → V) → Except String (List (String → V))
  | [] => .ok []
  | row :: rows => do
    let value ← filterValue A predicate row
    let rest ← filterBatch predicate rows
    return if A.truth value = some true then row :: rest else rest

/-- What is yielded for a batch, when it is asked for. -/
def readBatch (predicate : Option (DsExpression V)) (projection : List String) (batch : List (String → V)) :
    Except String (List (List V)) := do
  let kept ← filterBatch A predicate batch
  return kept.map projection.map

def fileLimit : ResolverError := .resourceLimitFailure "FILE_LIMIT" "Scanned output exceeds budget"

/-- The loop over the batches. -/
def collect (limit : Option Nat) : List (Except String (List (List V))) → Nat → Nat → List (List (List V)) →
    Except ResolverError (List (List (List V)))
  | [], _, _, collected => .ok collected
  | .error message :: _, _, _, _ => .error (.arrow message)
  | .ok batch :: batches, rows, size, collected =>
    let sliced := match limit with
      | none => batch
      | some n => batch.take (n - rows)
    let total := rows + sliced.length
    let bytes := size + scanner.retained batch sliced.length
    if total > limits.maxRows ∨ bytes > limits.maxBytes then .error fileLimit
    else if limit = some total then .ok (collected ++ [sliced])
    else collect limit batches total bytes (collected ++ [sliced])

/-- The schema of the columns the reader of a file gives the scanner. -/
def scanSchema (schema : Schema) (plan : ScanPlan V) : FileFormat → Schema
  | .parquet => schema.filter fun field => plan.projection.contains field.name || plan.filterColumns.contains field.name
  | .csv => schema

/-- What the scanner yields, batch by batch. -/
def scannerBatches (plan : ScanPlan V) (file : FileContent V) : List (Except String (List (List V))) :=
  (scanner.divide file.rows).map (readBatch A plan.predicate plan.projection) ++ (file.damage.map .error).toList

/-- The scanner's batches, with the plan's limit. -/
def readBatches (plan : ScanPlan V) (file : FileContent V) : Except ResolverError (Scanned V) :=
  if plan.limit = some 0 then .ok ⟨plan.projection, []⟩
  else do
    let batches ← collect scanner limits plan.limit (scannerBatches A scanner plan file) 0 0 []
    return ⟨plan.projection, batches.flatten⟩

/-- `ds.Scanner.from_batches`: its fields are there, and the filter can be bound. -/
def bindScanner (schema : Schema) (plan : ScanPlan V) : Except ResolverError Unit := do
  let bound := plan.predicate.elim [] DsExpression.fields ++ plan.projection
  refuseIf (!bound.all fun c => schema.columnNames.contains c) .fieldMissing
  match plan.predicate with
  | none => return ()
  | some predicate => (scanner.bind schema predicate).mapError .arrow

/-- `_scan`, of an open file. -/
def scan (lib : ScalarParsers) (schema : Schema) (fragment : SourceFragment) (file : FileContent V) :
    Except ResolverError (Scanned V) := do
  let plan ← planFrom A lib schema { projection := schema.columnNames } fragment.operations.tail
  refuseIf (file.schema != schema) (.resolverFailure "SOURCE_SCHEMA_MISMATCH" file.format.drift)
  bindScanner scanner (scanSchema schema plan file.format) plan
  readBatches A scanner limits plan file

end

/-! ## Filters mean their predicates -/

theorem columnNames_of_type? {schema : Schema} {name : String} (h : (schema.type? name).isSome = true) :
    name ∈ schema.columnNames := by
  have hmem := Dict.lookup_isSome.mp h
  simpa [Schema.columnTypes, Schema.columnNames] using hmem

section

variable {V : Type} (A : ArrowKernel V)

/-- A literal of the expression that Arrow does not convert. -/
inductive LiteralRefused (message : String) : TypedExpression → Prop
  | literal {dataType : ScalarType} {column : Option String} {value : ScalarValue} {args : List TypedExpression}
      (h : A.literal dataType value = .error message) : LiteralRefused message (.mk .literal dataType column value args)
  | arg {kind : ExpressionKind} {dataType : ScalarType} {column : Option String} {value : ScalarValue}
      {args : List TypedExpression} {arg : TypedExpression} (hkind : kind ≠ .column ∧ kind ≠ .literal) (harg : arg ∈ args)
      (h : LiteralRefused message arg) : LiteralRefused message (.mk kind dataType column value args)

/-- A filter is the predicate it was made of, on columns the predicate names; Arrow has
    converted its literals. -/
structure Filters (names : List String) (expression : TypedExpression) (f : DsExpression V) : Prop where
  eval : ∀ row, f.eval A row = A.denote row expression
  converted : ∀ message, ¬ LiteralRefused A message expression
  collected : ∀ c ∈ f.fields, c ∈ expressionColumns expression
  known : ∀ c ∈ f.fields, c ∈ names

end

section

variable {V : Type} {A : ArrowKernel V} {names : List String} {lib : ScalarParsers} {schema : Schema} {message : String}

/-- Below an operator a refused literal is one of an argument's. -/
theorem LiteralRefused.of_operator {kind : ExpressionKind} {dataType : ScalarType} {column : Option String}
    {value : ScalarValue} {args : List TypedExpression} (hkind : kind ≠ .literal)
    (h : LiteralRefused A message (.mk kind dataType column value args)) : ∃ arg ∈ args, LiteralRefused A message arg := by
  cases h with
  | literal h => exact absurd rfl hkind
  | arg _ harg h => exact ⟨_, harg, h⟩

theorem filters_unary {kind : ExpressionKind} (dataType : ScalarType) (column : Option String) (value : ScalarValue)
    {arg : TypedExpression} {a : DsExpression V} (hkind : unary kind = true) (h : Filters A names arg a) :
    ∃ f, filterOperation kind [a] = .ok f ∧ Filters A names (.mk kind dataType column value [arg]) f := by
  have hcolumns : ∀ c ∈ a.fields, c ∈ expressionColumns (.mk kind dataType column value [arg]) := fun c hc => by
    simp [expressionColumns, expressionsColumns, h.collected c hc]
  have hunary : kind = .not ∨ kind = .isNull := by simpa [unary] using hkind
  have hconverted : kind ≠ .literal → ∀ message, ¬ LiteralRefused A message (.mk kind dataType column value [arg]) := by
    intro hliteral message hrefused
    obtain ⟨arg', harg, hbelow⟩ := hrefused.of_operator hliteral
    rw [List.mem_singleton.mp harg] at hbelow
    exact h.converted message hbelow
  rcases hunary with rfl | rfl
  · refine ⟨.invert a, rfl, fun row => ?_, hconverted (by decide), hcolumns, h.known⟩
    simp only [DsExpression.eval, ArrowKernel.denote, ArrowKernel.denotes, h.eval]
    cases A.denote row arg <;> rfl
  · refine ⟨.isNull a, rfl, fun row => ?_, hconverted (by decide), hcolumns, h.known⟩
    simp only [DsExpression.eval, ArrowKernel.denote, ArrowKernel.denotes, h.eval]
    cases A.denote row arg <;> rfl

theorem filters_binary {kind : ExpressionKind} (dataType : ScalarType) (column : Option String) (value : ScalarValue)
    {left right : TypedExpression} {a b : DsExpression V} (hkind : predicateKind kind = true)
    (hbinary : kind ≠ .column ∧ kind ≠ .literal ∧ ¬ unary kind = true) (ha : Filters A names left a)
    (hb : Filters A names right b) :
    ∃ f, filterOperation kind [a, b] = .ok f ∧ Filters A names (.mk kind dataType column value [left, right]) f := by
  have hcolumns : ∀ c ∈ a.fields ++ b.fields, c ∈ expressionColumns (.mk kind dataType column value [left, right]) := by
    intro c hc
    simp only [expressionColumns, expressionsColumns, List.mem_append, List.append_nil]
    rcases List.mem_append.mp hc with hc | hc
    · exact .inr (.inl (ha.collected c hc))
    · exact .inr (.inr (hb.collected c hc))
  have hknown : ∀ c ∈ a.fields ++ b.fields, c ∈ names := by
    intro c hc
    rcases List.mem_append.mp hc with hc | hc
    · exact ha.known c hc
    · exact hb.known c hc
  have hconverted : ∀ message, ¬ LiteralRefused A message (.mk kind dataType column value [left, right]) := by
    intro message hrefused
    obtain ⟨arg, harg, hbelow⟩ := hrefused.of_operator hbinary.2.1
    rcases List.mem_cons.mp harg with rfl | harg
    · exact ha.converted message hbelow
    · rw [List.mem_singleton.mp harg] at hbelow
      exact hb.converted message hbelow
  have hvalue : ∀ row, A.denote row (.mk kind dataType column value [left, right]) =
      (a.eval A row).bind fun x => (b.eval A row).bind fun y => A.apply kind [x, y] := by
    intro row
    obtain ⟨hcolumn, hliteral, -⟩ := hbinary
    rw [ha.eval, hb.eval]
    have hdenotes : A.denote row (.mk kind dataType column value [left, right]) =
        (A.denotes row [left, right]).bind fun values => A.apply kind values := by
      cases kind <;> first | exact absurd rfl hcolumn | exact absurd rfl hliteral | rfl
    rw [hdenotes]
    simp only [ArrowKernel.denotes]
    cases A.denote row left <;> cases A.denote row right <;> rfl
  have heval : ∀ f : DsExpression V, f.fields = a.fields ++ b.fields → filterOperation kind [a, b] = .ok f →
      (∀ row, f.eval A row = A.denote row (.mk kind dataType column value [left, right])) →
      ∃ f, filterOperation kind [a, b] = .ok f ∧ Filters A names (.mk kind dataType column value [left, right]) f :=
    fun f hfields hok hrow => ⟨f, hok, hrow, hconverted, hfields ▸ hcolumns, hfields ▸ hknown⟩
  cases kind with
  | column => exact absurd rfl hbinary.1
  | literal => exact absurd rfl hbinary.2.1
  | not | isNull => exact absurd rfl hbinary.2.2
  | add | subtract | multiply | divide | coalesce => cases hkind
  | and => exact heval (.kleeneAnd a b) rfl rfl fun row => (hvalue row).symm
  | or => exact heval (.kleeneOr a b) rfl rfl fun row => (hvalue row).symm
  | equal | notEqual | lessThan | lessEqual | greaterThan | greaterEqual =>
    exact heval (.compare _ a b) rfl rfl fun row => (hvalue row).symm

theorem filterLiteral_eq {dataType : ScalarType} {value : ScalarValue} (h : scalarValue lib dataType value = .ok ()) :
    filterLiteral A lib dataType value = ((A.literal dataType value).mapError .arrow).map .scalar := by
  unfold filterLiteral
  rw [h]
  cases A.literal dataType value <;> split <;> rfl

/-- A predicate that both checks let pass has a filter, unless Arrow refuses a literal of it. -/
theorem filterOf_spec {expression : TypedExpression} (hkinds : ∀ e, Within e expression → predicateKind e.kind = true)
    (hvalid : ∀ e, Within e expression → predicateObjection lib schema e = none) :
    (∃ f, filterOf A lib schema.columnNames expression = .ok f ∧ Filters A schema.columnNames expression f) ∨
      ∃ message, filterOf A lib schema.columnNames expression = .error (.arrow message) ∧ LiteralRefused A message expression := by
  induction expression using typedExpression_induction with
  | h kind dataType column value args ih =>
    have hkind := hkinds _ (.self _)
    have hnode := hvalid _ (.self _)
    have hargs : ∀ arg ∈ args,
        (∃ f, filterOf A lib schema.columnNames arg = .ok f ∧ Filters A schema.columnNames arg f) ∨
          ∃ message, filterOf A lib schema.columnNames arg = .error (.arrow message) ∧ LiteralRefused A message arg :=
      fun arg harg => ih arg harg (fun e he => hkinds e (.arg harg he)) (fun e he => hvalid e (.arg harg he))
    by_cases hcolumn : kind = .column
    · subst hcolumn
      obtain ⟨name, hname, htype⟩ := column_of_objection rfl hnode
      obtain rfl : column = some name := hname
      have hknown := columnNames_of_type? htype
      have hconverted : ∀ message, ¬ LiteralRefused A message (.mk .column dataType (some name) value args) := by
        rintro message (_ | ⟨hkind, _, _⟩)
        exact hkind.1 rfl
      refine .inl ⟨.field name, by simp [filterOf, hknown], fun row => rfl, hconverted, ?_, ?_⟩
      · simp [DsExpression.fields, expressionColumns]
      · simp [DsExpression.fields, hknown]
    by_cases hliteral : kind = .literal
    · subst hliteral
      have hfilter : filterOf A lib schema.columnNames (.mk .literal dataType column value args) =
          ((A.literal dataType value).mapError .arrow).map .scalar := by
        rw [filterOf]
        exact filterLiteral_eq (literal_of_objection rfl hnode)
      rw [hfilter]
      cases hnative : A.literal dataType value with
      | error message => exact .inr ⟨message, rfl, .literal hnative⟩
      | ok native =>
        refine .inl ⟨.scalar native, rfl, fun row => ?_, ?_, by simp [DsExpression.fields], by simp [DsExpression.fields]⟩
        · simp only [DsExpression.eval, ArrowKernel.denote, hnative]
        · rintro message (hrefused | ⟨hkind, _, _⟩)
          · rw [hnative] at hrefused
            cases hrefused
          · exact hkind.2 rfl
    have hoperator : (TypedExpression.mk kind dataType column value args).kind ≠ .column ∧
        (TypedExpression.mk kind dataType column value args).kind ≠ .literal := ⟨hcolumn, hliteral⟩
    have hlength : args.length = predicateArity kind := arity_of_objection hoperator hnode
    have hoperation : filterOf A lib schema.columnNames (.mk kind dataType column value args) =
        (filtersOf A lib schema.columnNames args).bind fun arguments => filterOperation kind arguments := by
      cases kind <;> first | exact absurd rfl hcolumn | exact absurd rfl hliteral | rfl
    by_cases hunary : unary kind = true
    · rw [predicateArity, if_pos hunary] at hlength
      obtain ⟨arg, rfl⟩ := List.length_eq_one_iff.mp hlength
      rw [hoperation, filtersOf, filtersOf]
      rcases hargs arg (by simp) with ⟨a, hok, ha⟩ | ⟨message, herror, hrefused⟩
      · obtain ⟨f, hf, hfilters⟩ := filters_unary dataType column value hunary ha
        refine .inl ⟨f, ?_, hfilters⟩
        rw [hok]
        exact hf
      · refine .inr ⟨message, ?_, .arg ⟨hcolumn, hliteral⟩ (by simp) hrefused⟩
        rw [herror]
        rfl
    · rw [predicateArity, if_neg hunary] at hlength
      obtain ⟨left, right, rfl⟩ := List.length_eq_two.mp hlength
      rw [hoperation, filtersOf, filtersOf, filtersOf]
      rcases hargs left (by simp) with ⟨a, hleft, ha⟩ | ⟨message, herror, hrefused⟩
      · rcases hargs right (by simp) with ⟨b, hright, hb⟩ | ⟨message, herror, hrefused⟩
        · obtain ⟨f, hf, hfilters⟩ := filters_binary dataType column value hkind ⟨hcolumn, hliteral, hunary⟩ ha hb
          refine .inl ⟨f, ?_, hfilters⟩
          rw [hleft, hright]
          exact hf
        · refine .inr ⟨message, ?_, .arg ⟨hcolumn, hliteral⟩ (by simp) hrefused⟩
          rw [hleft, herror]
          rfl
      · refine .inr ⟨message, ?_, .arg ⟨hcolumn, hliteral⟩ (by simp) hrefused⟩
        rw [herror]
        rfl

end

/-! ## The plan means the operations -/

def limited {α : Type} : Option Nat → List α → List α
  | none, xs => xs
  | some n, xs => xs.take n

/-- The limits of a fragment, in order. -/
def limitsOf (operations : List OperatorSpec) : List Nat :=
  operations.filterMap fun operation => if operation.kind = .limit then operation.limit else none

/-- The operations that are no limits. -/
def unlimited (operations : List OperatorSpec) : List OperatorSpec := operations.filter (·.kind ≠ .limit)

/-- Selections name columns that are there, each once. -/
def Available : List String → List OperatorSpec → Prop
  | _, [] => True
  | columns, operation :: operations =>
    if operation.kind = .select then
      operation.columns.Nodup ∧ (∀ c ∈ operation.columns, c ∈ columns) ∧ Available operation.columns operations
    else Available columns operations

section

variable {V : Type} (A : ArrowKernel V)

/-- The predicate of one of the filters. -/
def IsFilter (operations : List OperatorSpec) (expression : TypedExpression) : Prop :=
  ∃ operation ∈ operations, operation.kind = .filter ∧ operation.predicate = some expression

/-- The filter has the value true. -/
def keptBy (predicate : Option (DsExpression V)) (row : String → V) : Bool := A.holds (filterValue A predicate row)

/-- Where a plan stands after some operations: `whole` is their table without the limits,
    `table` the one with them. -/
structure Planned (schema : Schema) (rows : List (String → V)) (plan : ScanPlan V) (whole table : Table V) : Prop where
  wholeColumns : whole.columns = plan.projection
  columns : table.columns = plan.projection
  wholeRows : whole.rows = rows.filter (keptBy A plan.predicate)
  rows : table.rows = limited plan.limit whole.rows
  unlimited : plan.stage < 2 → plan.limit = none
  known : ∀ c ∈ plan.projection, c ∈ schema.columnNames
  collected : ∀ c ∈ plan.predicate.elim [] DsExpression.fields, c ∈ plan.filterColumns ∧ c ∈ schema.columnNames

/-- The plan `final` is `plan` with the operations merged into it. -/
structure Merges (schema : Schema) (operations : List OperatorSpec) (plan final : ScanPlan V) : Prop where
  means : ∀ rows whole table, Planned A schema rows plan whole table →
    Planned A schema rows final (performAll A (unlimited operations) whole) (performAll A operations table)
  limit : final.limit = (plan.limit.toList ++ limitsOf operations).min?
  converted : ∀ expression, IsFilter operations expression → ∀ message, ¬ LiteralRefused A message expression
  refused : ∀ row message, filterValue A final.predicate row = .error message →
    filterValue A plan.predicate row = .error message ∨
      ∃ expression, IsFilter operations expression ∧ A.denote row expression = .error message

end

section

variable {V : Type} {A : ArrowKernel V} {lib : ScalarParsers} {schema : Schema}

theorem isFilter_cons {operation : OperatorSpec} {operations : List OperatorSpec} {expression : TypedExpression} :
    IsFilter (operation :: operations) expression ↔
      (operation.kind = .filter ∧ operation.predicate = some expression) ∨ IsFilter operations expression := by
  simp [IsFilter]

theorem filterValue_and {predicate : Option (DsExpression V)} {rendered : DsExpression V} {row : String → V} {message : String}
    (h : filterValue A (some (conjoined predicate rendered)) row = .error message) :
    filterValue A predicate row = .error message ∨ rendered.eval A row = .error message := by
  cases predicate with
  | none => exact .inr h
  | some predicate =>
    simp only [filterValue, conjoined, DsExpression.eval] at h ⊢
    cases hleft : predicate.eval A row with
    | error first =>
      rw [hleft] at h
      exact .inl h
    | ok x =>
      rw [hleft] at h
      cases hright : rendered.eval A row with
      | error second =>
        rw [hright] at h
        exact .inr h
      | ok y =>
        rw [hright] at h
        cases h

theorem keptBy_and {predicate : Option (DsExpression V)} {rendered : DsExpression V} {expression : TypedExpression}
    (h : Filters A schema.columnNames expression rendered) (row : String → V) :
    keptBy A (some (conjoined predicate rendered)) row = (keptBy A predicate row && A.keeps expression row) := by
  rw [ArrowKernel.keeps, ← h.eval]
  cases predicate with
  | none => simp [keptBy, conjoined, filterValue, ArrowKernel.holds, A.truth_ofTruth]
  | some predicate =>
    simp only [keptBy, conjoined, filterValue, DsExpression.eval]
    cases predicate.eval A row with
    | error first => rfl
    | ok x =>
      cases rendered.eval A row with
      | error second => simp [ArrowKernel.holds, bind, Except.bind]
      | ok y =>
        rw [Bool.eq_iff_iff]
        simp [ArrowKernel.holds, bind, Except.bind, pure, Except.pure, A.truth_ofTruth]

/-- The plan after a filter. -/
def ScanPlan.filtered (plan : ScanPlan V) (expression : TypedExpression) (rendered : DsExpression V) : ScanPlan V :=
  { plan with
    filterColumns := plan.filterColumns ++ expressionColumns expression
    predicate := some (conjoined plan.predicate rendered) }

theorem planStep_filter {plan : ScanPlan V} {operation : OperatorSpec} {expression : TypedExpression}
    (hkind : operation.kind = .filter) (hstage : plan.stage = 0) (hpredicate : operation.predicate = some expression)
    (hsupported : predicateSupported expression = .ok true) (hvalid : validatePredicate lib expression schema = .ok ()) :
    (∃ rendered, planStep A lib schema plan operation = .ok (plan.filtered expression rendered) ∧
        Filters A schema.columnNames expression rendered) ∨
      ∃ message, planStep A lib schema plan operation = .error (.arrow message) ∧ LiteralRefused A message expression := by
  have hstep : planStep A lib schema plan operation =
      (filterOf A lib schema.columnNames expression).map (plan.filtered expression) := by
    rw [planStep, if_pos ⟨hkind, hstage⟩, hpredicate]
    simp only [hvalid]
    cases filterOf A lib schema.columnNames expression <;> rfl
  rw [hstep]
  rcases filterOf_spec (A := A) (predicateSupported_kinds hsupported) (validatePredicate_checks hvalid) with
    ⟨rendered, hrendered, hfilters⟩ | ⟨message, herror, hrefused⟩
  · refine .inl ⟨rendered, ?_, hfilters⟩
    rw [hrendered]
    rfl
  · refine .inr ⟨message, ?_, hrefused⟩
    rw [herror]
    rfl

theorem Planned.filter {rows : List (String → V)} {plan : ScanPlan V} {whole table : Table V} {operation : OperatorSpec}
    {expression : TypedExpression} {rendered : DsExpression V} (h : Planned A schema rows plan whole table)
    (hkind : operation.kind = .filter) (hstage : plan.stage = 0) (hpredicate : operation.predicate = some expression)
    (hfilters : Filters A schema.columnNames expression rendered) :
    Planned A schema rows (plan.filtered expression rendered) (perform A operation whole) (perform A operation table) := by
  have hnone := h.unlimited (by omega)
  have hperform : ∀ t : Table V, perform A operation t = { t with rows := t.rows.filter (A.keeps expression) } := fun t => by
    simp only [perform, hkind, hpredicate]
  have hwhole : (perform A operation whole).rows = whole.rows.filter (A.keeps expression) := by rw [hperform]
  refine ⟨by rw [hperform]; exact h.wholeColumns, by rw [hperform]; exact h.columns, ?_, ?_, h.unlimited, h.known, ?_⟩
  · rw [hwhole, h.wholeRows, List.filter_filter]
    refine List.filter_congr fun row _ => ?_
    exact (Bool.and_comm _ _).trans (keptBy_and hfilters row).symm
  · rw [hperform, hperform]
    simp only [ScanPlan.filtered, h.rows, hnone, limited]
  · intro c hc
    have hnew : ∀ c ∈ rendered.fields, c ∈ plan.filterColumns ++ expressionColumns expression ∧ c ∈ schema.columnNames :=
      fun c hc => ⟨List.mem_append_right _ (hfilters.collected c hc), hfilters.known c hc⟩
    have hc : c ∈ (conjoined plan.predicate rendered).fields := hc
    cases hbefore : plan.predicate with
    | none =>
      rw [hbefore] at hc
      exact hnew c hc
    | some predicate =>
      rw [hbefore] at hc
      rcases List.mem_append.mp hc with hc | hc
      · obtain ⟨hcollected, hknown⟩ := h.collected c (by rw [hbefore]; exact hc)
        exact ⟨List.mem_append_left _ hcollected, hknown⟩
      · exact hnew c hc

theorem planStep_select {plan : ScanPlan V} {operation : OperatorSpec} (hkind : operation.kind = .select)
    (hstage : plan.stage ≤ 1) (havailable : ∀ c ∈ operation.columns, c ∈ plan.projection) :
    planStep A lib schema plan operation = .ok { plan with projection := operation.columns, stage := 1 } := by
  rw [planStep, if_neg (by rw [hkind]; simp), if_pos ⟨hkind, hstage⟩]
  have hall : (operation.columns.all fun c => plan.projection.contains c) = true :=
    List.all_eq_true.mpr fun c hc => List.contains_iff_mem.mpr (havailable c hc)
  rw [hall]
  rfl

theorem Planned.select {rows : List (String → V)} {plan : ScanPlan V} {whole table : Table V} {operation : OperatorSpec}
    (h : Planned A schema rows plan whole table) (hkind : operation.kind = .select) (hstage : plan.stage ≤ 1)
    (havailable : ∀ c ∈ operation.columns, c ∈ plan.projection) :
    Planned A schema rows { plan with projection := operation.columns, stage := 1 } (perform A operation whole)
      (perform A operation table) := by
  have hperform : ∀ t : Table V, perform A operation t = { t with columns := operation.columns } := fun t => by
    simp only [perform, hkind]
  exact ⟨by rw [hperform], by rw [hperform], by rw [hperform]; exact h.wholeRows, by rw [hperform, hperform]; exact h.rows,
    fun _ => h.unlimited (by omega), fun c hc => h.known c (havailable c hc), h.collected⟩

theorem planStep_limit {plan : ScanPlan V} {operation : OperatorSpec} {n : Nat} (hkind : operation.kind = .limit)
    (hlimit : operation.limit = some n) :
    planStep A lib schema plan operation = .ok { plan with limit := some (lowered plan.limit n), stage := 2 } := by
  rw [planStep, if_neg (by rw [hkind]; simp), if_neg (by rw [hkind]; simp), if_pos hkind, hlimit]

theorem Planned.limit {rows : List (String → V)} {plan : ScanPlan V} {whole table : Table V} {operation : OperatorSpec} {n : Nat}
    (h : Planned A schema rows plan whole table) (hkind : operation.kind = .limit) (hlimit : operation.limit = some n) :
    Planned A schema rows { plan with limit := some (lowered plan.limit n), stage := 2 } whole (perform A operation table) := by
  have hperform : perform A operation table = { table with rows := table.rows.take n } := by
    simp only [perform, hkind, hlimit]
  refine ⟨h.wholeColumns, by rw [hperform]; exact h.columns, h.wholeRows, ?_, fun hstage => absurd hstage (by simp), h.known,
    h.collected⟩
  rw [hperform, h.rows]
  cases plan.limit with
  | none => rfl
  | some m => simp only [limited, lowered, List.take_take, Nat.min_comm]

theorem min?_toList_cons (limit : Option Nat) (n : Nat) (rest : List Nat) :
    (limit.toList ++ n :: rest).min? = ((some (lowered limit n)).toList ++ rest).min? := by
  cases limit with
  | none => rfl
  | some m =>
    simp only [Option.toList_some, List.cons_append, List.nil_append, List.min?_cons, lowered]
    cases rest.min? with
    | none => rfl
    | some least => simp [Nat.min_assoc]

theorem Merges.nil (plan : ScanPlan V) : Merges A schema [] plan plan := by
  refine ⟨fun rows whole table h => h, ?_, ?_, fun row message h => .inl h⟩
  · rw [limitsOf, List.filterMap_nil, List.append_nil]
    cases plan.limit <;> rfl
  · rintro expression ⟨operation, hmem, -⟩
    cases hmem

section

variable {plan final : ScanPlan V} {operation : OperatorSpec} {operations : List OperatorSpec}

theorem Merges.filter {expression : TypedExpression} {rendered : DsExpression V} (hkind : operation.kind = .filter)
    (hstage : plan.stage = 0) (hpredicate : operation.predicate = some expression)
    (hfilters : Filters A schema.columnNames expression rendered)
    (h : Merges A schema operations (plan.filtered expression rendered) final) :
    Merges A schema (operation :: operations) plan final := by
  refine ⟨fun rows whole table hplanned => ?_, ?_, ?_, ?_⟩
  · rw [unlimited, List.filter_cons_of_pos (by simp [hkind])]
    exact h.means _ _ _ (hplanned.filter hkind hstage hpredicate hfilters)
  · rw [h.limit, limitsOf, limitsOf, List.filterMap_cons_none (by simp [hkind])]
    rfl
  · intro other hother
    rcases isFilter_cons.mp hother with ⟨-, hsame⟩ | hother
    · obtain rfl := Option.some.inj (hpredicate.symm.trans hsame)
      exact hfilters.converted
    · exact h.converted other hother
  · intro row message hrefused
    rcases h.refused row message hrefused with hhere | ⟨other, hother, hrefused⟩
    · rcases filterValue_and hhere with hbefore | hhere
      · exact .inl hbefore
      · exact .inr ⟨expression, isFilter_cons.mpr (.inl ⟨hkind, hpredicate⟩), (hfilters.eval row).symm.trans hhere⟩
    · exact .inr ⟨other, isFilter_cons.mpr (.inr hother), hrefused⟩

/-- An operation that is no filter adds none. -/
theorem isFilter_cons_of_ne {expression : TypedExpression} (hkind : operation.kind ≠ .filter) :
    IsFilter (operation :: operations) expression ↔ IsFilter operations expression := by
  rw [isFilter_cons]
  exact or_iff_right fun h => hkind h.1

theorem Merges.select (hkind : operation.kind = .select) (hstage : plan.stage ≤ 1)
    (havailable : ∀ c ∈ operation.columns, c ∈ plan.projection)
    (h : Merges A schema operations { plan with projection := operation.columns, stage := 1 } final) :
    Merges A schema (operation :: operations) plan final := by
  have hfilter (expression : TypedExpression) :
      IsFilter (operation :: operations) expression ↔ IsFilter operations expression :=
    isFilter_cons_of_ne (by rw [hkind]; decide)
  refine ⟨fun rows whole table hplanned => ?_, ?_, ?_, ?_⟩
  · rw [unlimited, List.filter_cons_of_pos (by simp [hkind])]
    exact h.means _ _ _ (hplanned.select hkind hstage havailable)
  · rw [h.limit, limitsOf, limitsOf, List.filterMap_cons_none (by simp [hkind])]
  · simpa only [hfilter] using h.converted
  · simpa only [hfilter] using h.refused

theorem Merges.limit_cons {n : Nat} (hkind : operation.kind = .limit) (hlimit : operation.limit = some n)
    (h : Merges A schema operations { plan with limit := some (lowered plan.limit n), stage := 2 } final) :
    Merges A schema (operation :: operations) plan final := by
  have hfilter (expression : TypedExpression) :
      IsFilter (operation :: operations) expression ↔ IsFilter operations expression :=
    isFilter_cons_of_ne (by rw [hkind]; decide)
  refine ⟨fun rows whole table hplanned => ?_, ?_, ?_, ?_⟩
  · rw [unlimited, List.filter_cons_of_neg (by simp [hkind])]
    exact h.means _ _ _ (hplanned.limit hkind hlimit)
  · have hlimits : limitsOf (operation :: operations) = n :: limitsOf operations :=
      List.filterMap_cons_some (by simp [hkind, hlimit])
    rw [h.limit, hlimits, min?_toList_cons]
  · simpa only [hfilter] using h.converted
  · simpa only [hfilter] using h.refused

end

/-- What is asked of the operations after the first. -/
structure Accepted (lib : ScalarParsers) (schema : Schema) (operations : List OperatorSpec) : Prop where
  filters : ∀ operation ∈ operations, operation.kind = .filter → ∃ expression, operation.predicate = some expression ∧
    predicateSupported expression = .ok true ∧ validatePredicate lib expression schema = .ok ()
  limits : ∀ operation ∈ operations, operation.kind = .limit → ∃ n, operation.limit = some n

theorem Accepted.tail {operation : OperatorSpec} {operations : List OperatorSpec}
    (h : Accepted lib schema (operation :: operations)) : Accepted lib schema operations :=
  ⟨fun o ho => h.filters o (by simp [ho]), fun o ho => h.limits o (by simp [ho])⟩

/-- On the orders that are supported, a plan means the operations; or a literal is refused. -/
theorem planFrom_planned (plan : ScanPlan V) {operations : List OperatorSpec}
    (haccepted : Accepted lib schema operations) (hstages : stagesAccept plan.stage operations = true)
    (havailable : Available plan.projection operations) :
    (∃ final, planFrom A lib schema plan operations = .ok final ∧ Merges A schema operations plan final) ∨
      ∃ message, planFrom A lib schema plan operations = .error (.arrow message) ∧
        ∃ expression, IsFilter operations expression ∧ LiteralRefused A message expression := by
  induction operations generalizing plan with
  | nil => exact .inl ⟨plan, rfl, .nil plan⟩
  | cons operation operations ih =>
    rw [Available] at havailable
    rw [stagesAccept] at hstages
    -- What the rest of the operations make of the plan after this one.
    have hrest : ∀ plan', planStep A lib schema plan operation = .ok plan' →
        (∀ final, Merges A schema operations plan' final → Merges A schema (operation :: operations) plan final) →
        ((∃ final, planFrom A lib schema plan' operations = .ok final ∧ Merges A schema operations plan' final) ∨
          ∃ message, planFrom A lib schema plan' operations = .error (.arrow message) ∧
            ∃ expression, IsFilter operations expression ∧ LiteralRefused A message expression) →
        (∃ final, planFrom A lib schema plan (operation :: operations) = .ok final ∧
            Merges A schema (operation :: operations) plan final) ∨
          ∃ message, planFrom A lib schema plan (operation :: operations) = .error (.arrow message) ∧
            ∃ expression, IsFilter (operation :: operations) expression ∧ LiteralRefused A message expression := by
      intro plan' hstep hmerges hthen
      have hplan : planFrom A lib schema plan (operation :: operations) = planFrom A lib schema plan' operations := by
        rw [planFrom, hstep]
        rfl
      rw [hplan]
      rcases hthen with ⟨final, hfinal, hmerged⟩ | ⟨message, herror, expression, hfilter, hrefused⟩
      · exact .inl ⟨final, hfinal, hmerges final hmerged⟩
      · exact .inr ⟨message, herror, expression, isFilter_cons.mpr (.inr hfilter), hrefused⟩
    by_cases hfilter : operation.kind = .filter ∧ plan.stage = 0
    · obtain ⟨hkind, hstage⟩ := hfilter
      obtain ⟨expression, hpredicate, hsupported, hvalid⟩ := haccepted.filters operation (by simp) hkind
      rw [if_pos ⟨hkind, hstage⟩] at hstages
      rw [if_neg (by rw [hkind]; simp)] at havailable
      rcases planStep_filter (A := A) hkind hstage hpredicate hsupported hvalid with
        ⟨rendered, hstep, hfilters⟩ | ⟨message, herror, hrefused⟩
      · exact hrest _ hstep (fun final hmerged => hmerged.filter hkind hstage hpredicate hfilters)
          (ih _ haccepted.tail hstages havailable)
      · refine .inr ⟨message, ?_, expression, isFilter_cons.mpr (.inl ⟨hkind, hpredicate⟩), hrefused⟩
        rw [planFrom, herror]
        rfl
    · rw [if_neg hfilter] at hstages
      by_cases hselect : operation.kind = .select ∧ plan.stage ≤ 1
      · obtain ⟨hkind, hstage⟩ := hselect
        rw [if_pos hkind] at havailable
        rw [if_pos ⟨hkind, hstage⟩] at hstages
        exact hrest _ (planStep_select hkind hstage havailable.2.1)
          (fun final hmerged => hmerged.select hkind hstage havailable.2.1) (ih _ haccepted.tail hstages havailable.2.2)
      · rw [if_neg hselect] at hstages
        by_cases hkind : operation.kind = .limit
        · obtain ⟨n, hlimit⟩ := haccepted.limits operation (by simp) hkind
          rw [if_pos hkind] at hstages
          rw [if_neg (by rw [hkind]; simp)] at havailable
          exact hrest _ (planStep_limit hkind hlimit) (fun final hmerged => hmerged.limit_cons hkind hlimit)
            (ih _ haccepted.tail hstages havailable)
        · rw [if_neg hkind] at hstages
          cases hstages

end

end DataNexus.Plugins
