/-
  DataNexus.Runtime.Statements — what each operator's statement is.

  A `Query` says what stands where: names, bound values, and fixed text around them, with
  the output columns of its SELECT list. `statement` is the query of a spec. The text and
  the parameters of `buildQuery` are the query's (`buildQuery_builds`): so the lexer reads
  each name at its place and as many markers as there are parameters, in their order.

  - `Projects`: what the loops over projections have collected.
  - `Builds`: a text and parameters are a query's, whose names are known ones.
-/

import DataNexus.Runtime.OperatorQueries

namespace DataNexus.Runtime

open Lib Lib.QuotedText

/-- An item of a SELECT list: what is written, and the columns it gives. -/
structure SelectItem where
  places : List (Place Parameter)
  columns : List String

namespace SelectItem

/-- `*`. -/
def star (columns : List String) : SelectItem := ⟨[.plain "*"], columns⟩

def column (name : String) : SelectItem := ⟨[.name name], [name]⟩

/-- `body AS name`; `suffix` ends the body. -/
def aliased (body : List (Place Parameter)) (suffix name : String) : SelectItem :=
  ⟨body ++ [.plain (suffix ++ " AS "), .name name], [name]⟩

end SelectItem

/-- A term of an ORDER BY. -/
inductive OrderTerm where
  | key (item : SortSpec)
  | identity (columns : List String)
  | digest (seed : Parameter) (columns : List String)

def identityPlaces (columns : List String) : List (Place Parameter) :=
  .plain "to_json(struct_pack(" ::
    (joined ", " (columns.map fun c => [.name c, .plain " := ", .name c]) ++ [.plain "))"])

def OrderTerm.places : OrderTerm → List (Place Parameter)
  | key item =>
    [.name item.column, .plain (" " ++ item.direction.upper ++ (if item.nullsFirst then " NULLS FIRST" else " NULLS LAST"))]
  | identity columns => identityPlaces columns
  | digest seed columns =>
    .plain "md5(CAST(" :: .literal seed :: .plain " AS VARCHAR) || ':' || " :: (identityPlaces columns ++ [.plain ")"])

def orderPlaces (order : List OrderTerm) : List (Place Parameter) := joined ", " (order.map (·.places))

def namePlaces (columns : List String) : List (Place Parameter) := joined ", " (columns.map fun c => [.name c])

/-- `(PARTITION BY ... ORDER BY ... ROWS BETWEEN ...)`. -/
structure WindowClause where
  partition : List String
  order : List OrderTerm
  preceding : Option Nat := none

def WindowClause.places (clause : WindowClause) : List (Place Parameter) :=
  .plain "(" ::
    ((if clause.partition.isEmpty then [] else .plain "PARTITION BY " :: (namePlaces clause.partition ++ [.plain " "])) ++
      .plain "ORDER BY " :: (orderPlaces clause.order ++
        .plain (clause.preceding.elim "" (fun n => " ROWS BETWEEN " ++ toString n ++ " PRECEDING AND CURRENT ROW") ++ ")") :: []))

/-- What a window function is called on. -/
def argumentPlaces (argument : Option String) : List (Place Parameter) := argument.toList.map .name

def itemsPlaces (items : List SelectItem) : List (Place Parameter) := joined ", " (items.map (·.places))

inductive Query where
  | select (opening : List (Place Parameter)) (items : List SelectItem) (closing : List (Place Parameter))
  | unionAll (branches : List (List SelectItem))
  | pick (columns : List String) (clause : WindowClause) (count : Parameter)
  | window (columns : List String) (function : WindowFunction) (argument : Option String) (clause : WindowClause) (output : String)
  | sample (columns : List String) (seed limit : Parameter)

namespace Query

def branchPlaces (items : List SelectItem) : List (Place Parameter) :=
  .plain "SELECT " :: (itemsPlaces items ++ [.plain " FROM input_0"])

def places : Query → List (Place Parameter)
  | select opening items closing => opening ++ (itemsPlaces items ++ closing)
  | unionAll branches => joined " UNION ALL " (branches.map branchPlaces)
  | pick _ clause count =>
    .plain "SELECT * FROM input_0 QUALIFY row_number() OVER " ::
      (clause.places ++ .plain " <= " :: .literal count :: .plain " ORDER BY " :: orderPlaces clause.order)
  | window _ function argument clause output =>
    .plain ("SELECT *, " ++ function.value ++ "(") :: (argumentPlaces argument ++ .plain ") OVER " ::
      (clause.places ++ .plain " AS " :: .name output :: .plain " FROM input_0 ORDER BY " ::
        (orderPlaces clause.order ++ [.plain ", ", .name output])))
  | sample columns seed limit =>
    .plain "SELECT * FROM input_0 ORDER BY " ::
      (orderPlaces [.digest seed columns, .identity columns] ++ [.plain " LIMIT ", .literal limit])

/-- The output columns, in the written order. -/
def columns : Query → List String
  | select _ items _ => items.flatMap (·.columns)
  | unionAll branches => (branches.headD []).flatMap (·.columns)
  | pick columns _ _ => columns
  | window columns _ _ _ output => columns ++ [output]
  | sample columns _ _ => columns

end Query

/-! ## The statement of a spec -/

section

variable (lib : Libraries) (exact : Bool) (schema : Schema)

def sqlPlaces (expression : TypedExpression) : List (Place Parameter) := (sqlOf lib schema.columnTypes exact expression).places

def expressionItem (item : NamedExpression) : SelectItem := .aliased (sqlPlaces lib exact schema item.expression) "" item.name

def aggregateItem (aggregate : AggregateSpec) : SelectItem :=
  .aliased (.plain (aggregate.function.upper ++ "(") ::
    aggregate.expression.elim [.plain "*"] (sqlPlaces lib exact schema)) ")" aggregate.name

def pivotItem (pivotColumn pivotValue value : String) : SelectItem :=
  .aliased [.plain "SUM(CASE WHEN ", .name pivotColumn, .plain " = ", .literal (.scalar (.str value)), .plain " THEN ",
    .name pivotValue] " END)" value

/-- `keyword a, b`, if there are names. -/
def keywordPlaces (keyword : String) (names : List String) : List (Place Parameter) :=
  if names.isEmpty then [] else .plain keyword :: namePlaces names

/-- The aggregation of a relation, after whatever comes before its SELECT. -/
def aggregateStatement (before : List (Place Parameter)) (spec : OperatorSpec) (source : String) : Query :=
  .select (before ++ [.plain "SELECT "]) (spec.groupBy.map .column ++ spec.aggregates.map (aggregateItem lib exact schema))
    (.plain " FROM " :: .name source :: keywordPlaces " GROUP BY " spec.groupBy)

def pivotStatement (spec : OperatorSpec) : Query :=
  .select [.plain "SELECT "]
    (spec.pivotIndex.map .column ++
      spec.pivotValues.map (pivotItem (spec.pivotColumn.getD "") (spec.pivotValue.getD "")))
    (.plain " FROM input_0" :: (keywordPlaces " GROUP BY " spec.pivotIndex ++ keywordPlaces " ORDER BY " spec.pivotIndex))

def joinClausePlaces (key : JoinKey) : List (Place Parameter) :=
  [.plain "left_input.", .name key.left, .plain " = right_input.", .name key.right]

def joinStatement (spec : OperatorSpec) (right : Schema) : Query :=
  .select [.plain "SELECT "]
    [⟨[.plain "left_input.*"], schema.columnNames⟩, ⟨[.plain "right_input.*"], right.columnNames⟩]
    (.plain (" FROM input_0 AS left_input " ++ spec.joinType.elim "" (·.upper) ++ " JOIN input_1 AS right_input ON ") ::
      joined " AND " (spec.joinKeys.map joinClausePlaces))

def setText : OperatorKind → String
  | .unionAll => "UNION ALL"
  | .unionDistinct => "UNION"
  | .intersect => "INTERSECT"
  | _ => "EXCEPT"

/-- The order of a spec: its keys, and the whole row. -/
def orderTerms (sort : List SortSpec) (columns : List String) (tieBreak : Bool) : List OrderTerm :=
  sort.map .key ++ if tieBreak then [.identity columns] else []

def pickStatement (spec : OperatorSpec) : Query :=
  .pick schema.columnNames ⟨spec.payload.partitionBy, orderTerms spec.sort schema.columnNames true, none⟩
    (.scalar (.int (pickCount spec)))

def windowStatement (spec : OperatorSpec) (window : WindowSpec) : Query :=
  .window schema.columnNames window.function window.column
    ⟨spec.payload.partitionBy, orderTerms spec.sort schema.columnNames (!window.function.ranksTies),
      window.column.map fun _ => window.preceding⟩ window.output

def bucketPlaces (date : DateSpec) (type : Option ArrowType) : List (Place Parameter) :=
  let bucket : List (Place Parameter) :=
    [.plain "date_trunc(", .literal (.scalar (.str date.grain.value)), .plain ", ", .name date.column]
  if type.any ArrowType.isDate then .plain "CAST(" :: (bucket ++ [.plain ") AS DATE)"]) else bucket ++ [.plain ")"]

def bucketItem (date : DateSpec) : SelectItem := .aliased (bucketPlaces date (schema.type? date.column)) "" date.output

def dateStatement (spec : OperatorSpec) (date : DateSpec) : Query :=
  if spec.kind = .date then
    .select [.plain "SELECT "] [.star schema.columnNames, bucketItem schema date] [.plain " FROM input_0"]
  else
    aggregateStatement lib exact schema
      (.plain "WITH bucketed AS (SELECT *, " :: ((bucketItem schema date).places ++ [.plain " FROM input_0) "]))
      (resampled spec date) "bucketed"

def explodeItem (explode : ExplodeSpec) : SelectItem :=
  .aliased [.plain "unnest(", .name explode.column] ")" explode.output

def unpivotItems (unpivot : UnpivotSpec) (column : String) : List SelectItem :=
  (schema.columnNames.filter (!unpivot.columns.contains ·)).map .column ++
    [.aliased [.plain "CAST(", .literal (.scalar (.str column))] " AS VARCHAR)" unpivot.nameColumn,
      .aliased [.name column] "" unpivot.valueColumn]

def imputeItem (target : String) (replacement : Parameter) (column : String) : SelectItem :=
  if column = target then
    .aliased [.plain "COALESCE(", .name target, .plain ", cast_to_type(", .literal replacement, .plain ", ", .name target]
      "))" target
  else .column column

/-- What replaces the nulls of an IMPUTE. -/
def replacementOf (impute : ImputeSpec) : Parameter :=
  .native (((nativeScalar lib impute.value.dataType impute.value.value).toOption.bind fun native =>
    (schema.type? impute.column).bind (lib.arrowScalar native)).getD .null)

/-- The statement of a spec over its inputs. -/
def statement (spec : OperatorSpec) (inputs : List Schema) : Query :=
  let schema := inputs.headD []
  let columns := schema.columnNames
  let exact := spec.isV1
  match spec.kind with
  | .unionAll | .unionDistinct | .intersect | .except =>
    .select [.plain "SELECT "] [.star columns] [.plain (" FROM input_0 " ++ setText spec.kind ++ " SELECT * FROM input_1")]
  | .distinct =>
    .select [.plain "SELECT DISTINCT "] (if spec.columns.isEmpty then [.star columns] else spec.columns.map .column)
      [.plain " FROM input_0"]
  | .deduplicate | .pick => pickStatement schema spec
  | .window => spec.payload.window.elim (.unionAll []) (windowStatement schema spec)
  | .sample => .sample columns (limitParameter spec.payload.sampleSeed) (limitParameter spec.limit)
  | .date | .resample => spec.payload.date.elim (.unionAll []) (dateStatement lib exact schema spec)
  | .aggregate | .summarize => aggregateStatement lib exact schema [] spec "input_0"
  | .explode =>
    .select [.plain "SELECT "] (.star columns :: spec.payload.explode.toList.map explodeItem) [.plain " FROM input_0"]
  | .unpivot => .unionAll (spec.payload.unpivot.elim [] fun unpivot => unpivot.columns.map (unpivotItems schema unpivot))
  | .impute =>
    .select [.plain "SELECT "]
      (spec.payload.impute.elim [] fun impute => columns.map (imputeItem impute.column (replacementOf lib schema impute)))
      [.plain " FROM input_0"]
  | .select | .project =>
    .select [.plain "SELECT "] (spec.columns.map .column ++ spec.expressions.map (expressionItem lib exact schema))
      [.plain " FROM input_0"]
  | .filter =>
    .select [.plain "SELECT "] [.star columns]
      (.plain " FROM input_0 WHERE " :: spec.predicate.elim [] (sqlPlaces lib exact schema))
  | .pivot => pivotStatement spec
  | .derive =>
    .select [.plain "SELECT "] (.star columns :: spec.expressions.map (expressionItem lib exact schema)) [.plain " FROM input_0"]
  | .sort =>
    .select [.plain "SELECT "] [.star columns] (.plain " FROM input_0 ORDER BY " :: orderPlaces (spec.sort.map .key))
  | .limit => .select [.plain "SELECT "] [.star columns] [.plain " FROM input_0 LIMIT ", .literal (limitParameter spec.limit)]
  | .join => joinStatement schema spec ((inputs.drop 1).headD [])
  | .source | .act | .ask | .search => .unionAll []

end

/-! ## Texts of parts -/

/-- A text and parameters are a query's, of names that are allowed. -/
structure Builds (allowed : String → Prop) (built : BuiltQuery) (q : Query) : Prop where
  sql : built.1 = text q.places
  parameters : built.2 = literals q.places
  separated : Separated q.places
  named : ∀ n ∈ names q.places, allowed n

section

variable {allowed : String → Prop} {columns : List String}

theorem text_namePlaces (ns : List String) : text (namePlaces ns) = commaSeparated (ns.map quoted) := by
  simp [namePlaces, commaSeparated, text_joined, Function.comp_def, Place.text]

theorem literals_namePlaces (ns : List String) : literals (namePlaces ns) = [] := by
  simp [namePlaces, literals_joined]

theorem names_namePlaces (ns : List String) : names (namePlaces ns) = ns := by
  simp [namePlaces, names_joined, List.flatMap_map]

theorem separated_namePlaces (ns : List String) : Separated (namePlaces ns) := by
  refine .joined (by decide) fun ps hps => ?_
  obtain ⟨n, -, rfl⟩ := List.mem_map.mp hps
  exact .name n

theorem quoteAll_ok {ns quotedNames : List String} (h : quoteAll columns ns = .ok quotedNames) :
    quotedNames = ns.map quoted ∧ ∀ n ∈ ns, n ∈ columns := by
  refine mapM_ok_map (fun n s hs => ?_) h
  obtain ⟨rfl, hmem⟩ := quoteIdentifier_ok hs
  exact ⟨rfl, hmem columns rfl⟩

/-- A quoted name is never empty. -/
theorem quoted_ne_empty (n : String) : quoted n ≠ "" := by
  intro h
  have := congrArg String.toList h
  simp [quoted] at this

theorem intercalate_eq_empty {separator : String} {xs : List String} (h : ∀ x ∈ xs, x ≠ "") :
    separator.intercalate xs = "" ↔ xs = [] := by
  cases xs with
  | nil => simp
  | cons x xs =>
    have hx := h x (by simp)
    cases xs with
    | nil => simpa using hx
    | cons y xs =>
      rw [String.intercalate_cons_cons]
      simp [hx]

theorem commaSeparated_quoted_eq_empty (ns : List String) : commaSeparated (ns.map quoted) = "" ↔ ns = [] := by
  rw [commaSeparated, intercalate_eq_empty, List.map_eq_nil_iff]
  intro x hx
  obtain ⟨n, -, rfl⟩ := List.mem_map.mp hx
  exact quoted_ne_empty n

/-! ### Orders -/

theorem sortTerm_ok {item : SortSpec} {s : String} (h : sortTerm columns item = .ok s) :
    s = text (OrderTerm.key item).places ∧ item.column ∈ columns := by
  simp only [sortTerm, bind_eq_ok, pure_eq_ok] at h
  obtain ⟨_, hcolumn, rfl⟩ := h
  obtain ⟨rfl, hmem⟩ := quoteIdentifier_ok hcolumn
  refine ⟨?_, hmem columns rfl⟩
  simp [OrderTerm.places, Place.text, String.append_assoc]

theorem sortTerms_ok {sort : List SortSpec} {terms : List String} (h : sort.mapM (sortTerm columns) = .ok terms) :
    terms = sort.map (fun item => text (OrderTerm.key item).places) ∧ ∀ item ∈ sort, item.column ∈ columns :=
  mapM_ok_map (fun _ _ hterm => sortTerm_ok hterm) h

theorem isFixed_direction (direction : SortDirection) (nullsFirst : Bool) :
    isFixed (" " ++ direction.upper ++ (if nullsFirst then " NULLS FIRST" else " NULLS LAST")) = true := by
  cases direction <;> cases nullsFirst <;> decide

theorem separated_identityPlaces (ns : List String) : Separated (identityPlaces ns) := by
  have hfields : Separated (joined ", " (ns.map fun c => [(.name c : Place Parameter), .plain " := ", .name c])) := by
    refine .joined (by decide) fun ps hps => ?_
    obtain ⟨n, -, rfl⟩ := List.mem_map.mp hps
    exact .named (by decide) (.name n)
  exact (hfields.between (by decide) .nil).fixed (by decide)

theorem names_identityPlaces (ns : List String) : ∀ n ∈ names (identityPlaces ns), n ∈ ns := by
  simp [identityPlaces, names_joined, List.flatMap_map]

theorem literals_identityPlaces (ns : List String) : literals (identityPlaces ns) = [] := by
  simp [identityPlaces, literals_joined, List.flatMap_map]

theorem separated_term (term : OrderTerm) : Separated term.places := by
  cases term with
  | key item => exact .named (isFixed_direction item.direction item.nullsFirst) .nil
  | identity columns => exact separated_identityPlaces columns
  | digest seed columns =>
    exact (((separated_identityPlaces columns).between (by decide) .nil).fixed (by decide)).marked.fixed (by decide)

theorem separated_orderPlaces (order : List OrderTerm) : Separated (orderPlaces order) := by
  refine .joined (by decide) fun ps hps => ?_
  obtain ⟨term, -, rfl⟩ := List.mem_map.mp hps
  exact separated_term term

theorem rowJson_ok {ns : List String} {s : String} (h : rowJson ns = .ok s) : s = text (identityPlaces ns) := by
  simp only [rowJson, bind_eq_ok, pure_eq_ok] at h
  obtain ⟨_, -, fields, hfields, rfl⟩ := h
  have htexts : fields = (ns.map fun n => quoted n ++ " := " ++ quoted n) ∧ ∀ n ∈ ns, True := by
    refine mapM_ok_map (fun n s hs => ?_) hfields
    simp only [bind_eq_ok, pure_eq_ok] at hs
    obtain ⟨_, hquoted, rfl⟩ := hs
    obtain ⟨rfl, -⟩ := quoteIdentifier_ok hquoted
    exact ⟨rfl, trivial⟩
  obtain ⟨rfl, -⟩ := htexts
  simp [identityPlaces, commaSeparated, text_joined, Function.comp_def, Place.text, String.append_assoc]

theorem orderBy_ok {sort : List SortSpec} {ns : List String} {identity s : String} {tieBreak : Bool}
    (hidentity : identity = text (identityPlaces ns)) (h : orderBy sort columns identity tieBreak = .ok s) :
    s = text (orderPlaces (orderTerms sort ns tieBreak)) ∧ ∀ item ∈ sort, item.column ∈ columns := by
  simp only [orderBy, bind_eq_ok, pure_eq_ok] at h
  obtain ⟨terms, hterms, rfl⟩ := h
  obtain ⟨rfl, hcolumns⟩ := sortTerms_ok hterms
  refine ⟨?_, hcolumns⟩
  rw [orderPlaces, text_joined, hidentity]
  cases tieBreak <;> simp [orderTerms, commaSeparated, Function.comp_def, OrderTerm.places]

theorem literals_orderTerms (sort : List SortSpec) (ns : List String) (tieBreak : Bool) :
    literals (orderPlaces (orderTerms sort ns tieBreak)) = [] := by
  cases tieBreak <;>
    simp [orderPlaces, orderTerms, literals_joined, OrderTerm.places, literals_identityPlaces]

theorem names_orderTerms {sort : List SortSpec} (hsort : ∀ item ∈ sort, item.column ∈ columns) (tieBreak : Bool) :
    ∀ n ∈ names (orderPlaces (orderTerms sort columns tieBreak)), n ∈ columns := by
  intro n hn
  rw [orderPlaces, names_joined] at hn
  obtain ⟨ps, hps, hn⟩ := List.mem_flatMap.mp hn
  obtain ⟨term, hterm, rfl⟩ := List.mem_map.mp hps
  rcases List.mem_append.mp hterm with hterm | hterm
  · obtain ⟨item, hitem, rfl⟩ := List.mem_map.mp hterm
    obtain rfl : n = item.column := by simpa [OrderTerm.places] using hn
    exact hsort item hitem
  · cases tieBreak with
    | false => cases hterm
    | true =>
      obtain rfl := List.mem_singleton.mp hterm
      exact names_identityPlaces columns n hn

end

/-! ## Projections -/

section

variable {allowed : String → Prop} {columns : List String}

theorem nodup_snoc {ns : List String} {n : String} (h : ns.Nodup) (hnew : n ∉ ns) : (ns ++ [n]).Nodup := by
  simpa using List.Nodup.concat hnew h

/-- The loops over projections have written the items, of columns that are apart. -/
structure Projects (allowed : String → Prop) (acc : Projected) (items : List SelectItem) : Prop where
  projections : acc.projections = items.map fun item => text item.places
  parameters : acc.parameters = items.flatMap fun item => literals item.places
  separated : ∀ item ∈ items, Separated item.places
  named : ∀ item ∈ items, ∀ n ∈ names item.places, allowed n
  columns : acc.names = (items.flatMap (·.columns)).map normalizeIdentifier
  apart : acc.names.Nodup

namespace Projects

theorem nil : Projects allowed {} [] :=
  ⟨rfl, rfl, by simp, by simp, rfl, .nil⟩

theorem add {acc : Projected} {items : List SelectItem} (h : Projects allowed acc items) {name : String}
    (hnew : normalizeIdentifier name ∉ acc.names) {item : SelectItem} (hcolumns : item.columns = [name])
    (hseparated : Separated item.places) (hnamed : ∀ n ∈ names item.places, allowed n) :
    Projects allowed ⟨acc.names ++ [normalizeIdentifier name], acc.projections ++ [text item.places],
      acc.parameters ++ literals item.places⟩ (items ++ [item]) where
  projections := by simp [h.projections]
  parameters := by simp [h.parameters]
  separated := by
    intro x hx
    rcases List.mem_append.mp hx with hx | hx
    · exact h.separated x hx
    · exact List.mem_singleton.mp hx ▸ hseparated
  named := by
    intro x hx
    rcases List.mem_append.mp hx with hx | hx
    · exact h.named x hx
    · exact List.mem_singleton.mp hx ▸ hnamed
  columns := by simp [h.columns, hcolumns]
  apart := nodup_snoc h.apart hnew

/-- A loop whose body writes one item of each element. -/
theorem fold {β : Type} {f : Projected → β → Except BuildFailure Projected} {item : β → SelectItem} {xs : List β}
    (hstep : ∀ x ∈ xs, ∀ acc items acc', Projects allowed acc items → f acc x = .ok acc' →
      Projects allowed acc' (items ++ [item x])) {acc acc' : Projected} {items : List SelectItem}
    (h : Projects allowed acc items) (hfold : xs.foldlM f acc = .ok acc') :
    Projects allowed acc' (items ++ xs.map item) := by
  induction xs generalizing acc items with
  | nil =>
    obtain rfl := pure_eq_ok.mp hfold
    simpa using h
  | cons x xs ih =>
    rw [List.foldlM_cons, bind_eq_ok] at hfold
    obtain ⟨acc₁, hfirst, hrest⟩ := hfold
    have h₁ := hstep x (by simp) acc items acc₁ h hfirst
    have h₂ := ih (fun y hy => hstep y (by simp [hy])) h₁ hrest
    simpa using h₂

theorem sql {acc : Projected} {items : List SelectItem} (h : Projects allowed acc items) :
    commaSeparated acc.projections = text (itemsPlaces items) := by
  rw [commaSeparated, itemsPlaces, text_joined, h.projections, List.map_map]
  rfl

theorem literals_items {acc : Projected} {items : List SelectItem} (h : Projects allowed acc items) :
    acc.parameters = literals (itemsPlaces items) := by
  rw [itemsPlaces, literals_joined, h.parameters, List.flatMap_map]

end Projects

theorem separated_itemsPlaces {items : List SelectItem} (h : ∀ item ∈ items, Separated item.places) :
    Separated (itemsPlaces items) := by
  refine .joined (by decide) fun ps hps => ?_
  obtain ⟨item, hitem, rfl⟩ := List.mem_map.mp hps
  exact h item hitem

theorem named_itemsPlaces {items : List SelectItem} (h : ∀ item ∈ items, ∀ n ∈ names item.places, allowed n) :
    ∀ n ∈ names (itemsPlaces items), allowed n := by
  intro n hn
  rw [itemsPlaces, names_joined, List.flatMap_map] at hn
  obtain ⟨item, hitem, hn⟩ := List.mem_flatMap.mp hn
  exact h item hitem n hn

theorem separated_column (name : String) : Separated (SelectItem.column name).places := .name name

theorem separated_star (columns : List String) : Separated (SelectItem.star columns).places := .plain (by decide)

theorem separated_aliased {body : List (Place Parameter)} (h : Separated body) {suffix : String}
    (hsuffix : isFixed (suffix ++ " AS ") = true) (name : String) :
    Separated (SelectItem.aliased body suffix name).places := h.between hsuffix (.name name)

theorem named_aliased {body : List (Place Parameter)} {suffix name : String} (h : ∀ n ∈ names body, allowed n)
    (hname : allowed name) : ∀ n ∈ names (SelectItem.aliased body suffix name).places, allowed n := by
  intro n hn
  have hn : n ∈ names body ∨ n = name := by simpa [SelectItem.aliased] using hn
  rcases hn with hn | rfl
  · exact h n hn
  · exact hname

theorem text_aliased (body : List (Place Parameter)) (suffix name : String) :
    text (SelectItem.aliased body suffix name).places = text body ++ suffix ++ " AS " ++ quoted name := by
  simp [SelectItem.aliased, Place.text, String.append_assoc]

theorem literals_aliased (body : List (Place Parameter)) (suffix name : String) :
    literals (SelectItem.aliased body suffix name).places = literals body := by
  simp [SelectItem.aliased]

theorem addOutputName_ok {ns ns' : List String} {name : String} (h : addOutputName ns name = .ok ns') :
    normalizeIdentifier name ∉ ns ∧ ns' = ns ++ [normalizeIdentifier name] := by
  simp only [addOutputName, bind_eq_ok, refuseIf_eq_ok, pure_eq_ok] at h
  obtain ⟨_, hnew, rfl⟩ := h
  exact ⟨by simpa using hnew, rfl⟩

theorem projectColumn_projects (hallowed : ∀ c ∈ columns, allowed c) {acc acc' : Projected} {items : List SelectItem}
    {name : String} (h : Projects allowed acc items) (hstep : projectColumn columns acc name = .ok acc') :
    Projects allowed acc' (items ++ [.column name]) := by
  simp only [projectColumn, bind_eq_ok, pure_eq_ok] at hstep
  obtain ⟨ns, hns, _, hquoted, rfl⟩ := hstep
  obtain ⟨hnew, rfl⟩ := addOutputName_ok hns
  obtain ⟨rfl, hmem⟩ := quoteIdentifier_ok hquoted
  have hadd := h.add hnew (show (SelectItem.column name).columns = [name] from rfl) (separated_column name) (by
    intro n hn
    obtain rfl := List.mem_singleton.mp hn
    exact hallowed n (hmem columns rfl))
  simpa [SelectItem.column, Place.text] using hadd

/-- The keys of a grouping are written before their names are looked at. -/
theorem group_projects (hallowed : ∀ c ∈ columns, allowed c) {keys grouped ns : List String}
    (hgrouped : quoteAll columns keys = .ok grouped) (hns : keys.foldlM addOutputName [] = .ok ns) :
    Projects allowed ⟨ns, grouped, []⟩ (keys.map .column) := by
  obtain ⟨rfl, hmem⟩ := quoteAll_ok hgrouped
  have hnames : ∀ (start done : List String), start.Nodup → keys.foldlM addOutputName start = .ok done →
      done = start ++ keys.map normalizeIdentifier ∧ done.Nodup := by
    clear hns hgrouped hmem
    induction keys with
    | nil =>
      intro start done hstart hdone
      obtain rfl := pure_eq_ok.mp hdone
      exact ⟨by simp, hstart⟩
    | cons key keys ih =>
      intro start done hstart hdone
      rw [List.foldlM_cons, bind_eq_ok] at hdone
      obtain ⟨next, hnext, hdone⟩ := hdone
      obtain ⟨hnew, rfl⟩ := addOutputName_ok hnext
      obtain ⟨rfl, hdone⟩ := ih _ _ (nodup_snoc hstart hnew) hdone
      exact ⟨by simp, hdone⟩
  obtain ⟨hnsEq, hnodup⟩ := hnames [] ns .nil hns
  refine ⟨?_, ?_, ?_, ?_, ?_, hnodup⟩
  · simp [SelectItem.column, Function.comp_def, Place.text]
  · simp [SelectItem.column, List.flatMap_map]
  · intro item hitem
    obtain ⟨key, -, rfl⟩ := List.mem_map.mp hitem
    exact separated_column key
  · intro item hitem n hn
    obtain ⟨key, hkey, rfl⟩ := List.mem_map.mp hitem
    obtain rfl := List.mem_singleton.mp hn
    exact hallowed n (hmem n hkey)
  · simp [hnsEq, SelectItem.column, List.flatMap_map]

section

variable {lib : Libraries} {exact : Bool} {schema : Schema}

theorem render_writes {e : TypedExpression} {r : RenderedExpression} (h : render lib exact columns schema e = .ok r) :
    r.sql = text (sqlPlaces lib exact schema e) ∧ r.parameters = literals (sqlPlaces lib exact schema e) ∧
      Separated (sqlPlaces lib exact schema e) ∧ ∀ n ∈ names (sqlPlaces lib exact schema e), n ∈ columns := by
  have hwrites := renderExpression_writes h
  exact ⟨hwrites.sql, hwrites.parameters, hwrites.separated, hwrites.named⟩

theorem projectExpression_projects (hallowed : ∀ c ∈ columns, allowed c) {acc acc' : Projected} {items : List SelectItem}
    {item : NamedExpression} (hname : allowed item.name) (h : Projects allowed acc items)
    (hstep : projectExpression lib exact columns schema acc item = .ok acc') :
    Projects allowed acc' (items ++ [expressionItem lib exact schema item]) := by
  simp only [projectExpression, bind_eq_ok, pure_eq_ok] at hstep
  obtain ⟨ns, hns, r, hr, _, hquoted, rfl⟩ := hstep
  obtain ⟨hnew, rfl⟩ := addOutputName_ok hns
  obtain ⟨rfl, -⟩ := quoteIdentifier_ok hquoted
  obtain ⟨hsql, hparameters, hseparated, hnamed⟩ := render_writes hr
  have hadd := h.add hnew (show (expressionItem lib exact schema item).columns = [item.name] from rfl)
    (separated_aliased hseparated (by decide) item.name)
    (named_aliased (fun n hn => hallowed n (hnamed n hn)) hname)
  have htext : text (expressionItem lib exact schema item).places = r.sql ++ " AS " ++ quoted item.name := by
    rw [expressionItem, text_aliased, ← hsql, String.append_empty]
  have hliterals : literals (expressionItem lib exact schema item).places = r.parameters := by
    rw [expressionItem, literals_aliased, hparameters]
  rwa [htext, hliterals] at hadd

theorem deriveExpression_projects (hallowed : ∀ c ∈ columns, allowed c) {acc acc' : Projected} {items : List SelectItem}
    {item : NamedExpression} (hname : allowed item.name) (h : Projects allowed acc items)
    (hstep : deriveExpression lib exact columns schema acc item = .ok acc') :
    Projects allowed acc' (items ++ [expressionItem lib exact schema item]) := by
  simp only [deriveExpression, bind_eq_ok, refuseIf_eq_ok, pure_eq_ok] at hstep
  obtain ⟨_, hnew, r, hr, _, hquoted, rfl⟩ := hstep
  refine projectExpression_projects hallowed hname h ?_
  have hnew : acc.names.contains (normalizeIdentifier item.name) = false := hnew
  simp only [projectExpression, addOutputName, hnew, hr, hquoted]
  rfl

theorem aggregateArgument_writes {aggregate : AggregateSpec} {r : RenderedExpression}
    (h : aggregateArgument lib exact columns schema aggregate = .ok r) :
    let body := aggregate.expression.elim [.plain "*"] (sqlPlaces lib exact schema)
    r.sql = text body ∧ r.parameters = literals body ∧ Separated body ∧ ∀ n ∈ names body, n ∈ columns := by
  intro body
  unfold aggregateArgument at h
  split at h
  · rename_i e he
    have hbody : body = sqlPlaces lib exact schema e := by simp [body, he]
    rw [hbody]
    exact render_writes h
  · rename_i he
    have hbody : body = [.plain "*"] := by simp [body, he]
    rw [hbody]
    split at h
    · obtain rfl := Except.ok.inj h
      exact ⟨by simp [Place.text], rfl, .plain (by decide), by simp⟩
    · cases h

theorem projectAggregate_projects (hallowed : ∀ c ∈ columns, allowed c) {acc acc' : Projected} {items : List SelectItem}
    {aggregate : AggregateSpec} (hname : allowed aggregate.name) (h : Projects allowed acc items)
    (hstep : projectAggregate lib exact columns schema acc aggregate = .ok acc') :
    Projects allowed acc' (items ++ [aggregateItem lib exact schema aggregate]) := by
  simp only [projectAggregate, bind_eq_ok, pure_eq_ok] at hstep
  obtain ⟨ns, hns, r, hr, _, hquoted, rfl⟩ := hstep
  obtain ⟨hnew, rfl⟩ := addOutputName_ok hns
  obtain ⟨rfl, -⟩ := quoteIdentifier_ok hquoted
  obtain ⟨hsql, hparameters, hseparated, hnamed⟩ := aggregateArgument_writes hr
  have hfunction : isFixed (aggregate.function.upper ++ "(") = true := by cases aggregate.function <;> decide
  have hadd := h.add hnew (show (aggregateItem lib exact schema aggregate).columns = [aggregate.name] from rfl)
    (separated_aliased (hseparated.fixed hfunction) (by decide) aggregate.name)
    (named_aliased (fun n hn => hallowed n (hnamed n (by simpa using hn))) hname)
  have htext : text (aggregateItem lib exact schema aggregate).places =
      aggregate.function.upper ++ "(" ++ r.sql ++ ") AS " ++ quoted aggregate.name := by
    rw [aggregateItem, text_aliased, text_cons, ← hsql]
    apply String.toList_injective
    simp [Place.text]
  have hliterals : literals (aggregateItem lib exact schema aggregate).places = r.parameters := by
    rw [aggregateItem, literals_aliased, literals_plain, hparameters]
  rwa [htext, hliterals] at hadd

theorem projectPivotValue_projects {pivotColumn pivotValue : String} (hcolumn : allowed pivotColumn)
    (hvalue : allowed pivotValue) {acc acc' : Projected} {items : List SelectItem} {value : String}
    (hname : allowed value) (h : Projects allowed acc items)
    (hstep : projectPivotValue (quoted pivotColumn) (quoted pivotValue) acc value = .ok acc') :
    Projects allowed acc' (items ++ [pivotItem pivotColumn pivotValue value]) := by
  simp only [projectPivotValue, bind_eq_ok, pure_eq_ok] at hstep
  obtain ⟨ns, hns, _, hquoted, rfl⟩ := hstep
  obtain ⟨hnew, rfl⟩ := addOutputName_ok hns
  obtain ⟨rfl, -⟩ := quoteIdentifier_ok hquoted
  have hbody : Separated [(.plain "SUM(CASE WHEN " : Place Parameter), .name pivotColumn, .plain " = ",
      .literal (.scalar (.str value)), .plain " THEN ", .name pivotValue] :=
    (Separated.named (by decide) ((Separated.name pivotValue).fixed (by decide)).marked).fixed (by decide)
  have hadd := h.add hnew (show (pivotItem pivotColumn pivotValue value).columns = [value] from rfl)
    (separated_aliased hbody (by decide) value)
    (named_aliased (by
      intro n hn
      have hn : n = pivotColumn ∨ n = pivotValue := by simpa using hn
      rcases hn with rfl | rfl
      · exact hcolumn
      · exact hvalue) hname)
  have htext : text (pivotItem pivotColumn pivotValue value).places =
      "SUM(CASE WHEN " ++ quoted pivotColumn ++ " = ? THEN " ++ quoted pivotValue ++ " END) AS " ++ quoted value := by
    rw [pivotItem, text_aliased]
    apply String.toList_injective
    simp [Place.text]
  rwa [htext] at hadd

end

end

/-! ## The common operators -/

section

variable {allowed : String → Prop} {columns : List String}

/-- What can be put before a text that is apart. -/
def Opens (opening : List (Place Parameter)) : Prop := ∀ ps, Separated ps → Separated (opening ++ ps)

def Closes (closing : List (Place Parameter)) : Prop := ∀ ps, Separated ps → Separated (ps ++ closing)

theorem opens_fixed {t : String} (h : isFixed t = true) : Opens [.plain t] := fun _ hps => hps.fixed h

theorem closes_fixed {t : String} (h : isFixed t = true) {rest : List (Place Parameter)} (hrest : Separated rest) :
    Closes (.plain t :: rest) := fun _ hps => hps.between h hrest

theorem builds_select {opening closing : List (Place Parameter)} {items : List SelectItem} {built : BuiltQuery}
    (hitems : ∀ item ∈ items, Separated item.places ∧ ∀ n ∈ names item.places, allowed n) (hopening : Opens opening)
    (hclosing : Closes closing) (hnames : ∀ n ∈ names opening ++ names closing, allowed n)
    (hsql : built.1 = text opening ++ (text (itemsPlaces items) ++ text closing))
    (hparameters : built.2 = literals opening ++ (literals (itemsPlaces items) ++ literals closing)) :
    Builds allowed built (.select opening items closing) where
  sql := by rw [hsql, Query.places, text_append, text_append]
  parameters := by rw [hparameters, Query.places, literals_append, literals_append]
  separated := hopening _ (hclosing _ (separated_itemsPlaces fun item hitem => (hitems item hitem).1))
  named := by
    intro n hn
    rw [Query.places, names_append, names_append] at hn
    rcases List.mem_append.mp hn with hn | hn
    · exact hnames n (List.mem_append_left _ hn)
    · rcases List.mem_append.mp hn with hn | hn
      · exact named_itemsPlaces (fun item hitem => (hitems item hitem).2) n hn
      · exact hnames n (List.mem_append_right _ hn)

/-- A select of the input's columns. -/
theorem builds_star {closing : List (Place Parameter)} (hclosing : Closes closing) (hnames : ∀ n ∈ names closing, allowed n)
    {built : BuiltQuery} (hsql : built.1 = "SELECT " ++ ("*" ++ text closing)) (hparameters : built.2 = literals closing) :
    Builds allowed built (.select [.plain "SELECT "] [.star columns] closing) := by
  refine builds_select ?_ (opens_fixed (by decide)) hclosing (by simpa using hnames) ?_ ?_
  · intro item hitem
    obtain rfl := List.mem_singleton.mp hitem
    exact ⟨separated_star columns, by simp [SelectItem.star]⟩
  · simpa [itemsPlaces, QuotedText.joined, SelectItem.star, Place.text] using hsql
  · simpa [itemsPlaces, QuotedText.joined, SelectItem.star] using hparameters

theorem text_keywordPlaces (keyword : String) (ns : List String) :
    text (keywordPlaces keyword ns) =
      if commaSeparated (ns.map quoted) = "" then "" else keyword ++ commaSeparated (ns.map quoted) := by
  by_cases hns : ns = []
  · subst hns
    rfl
  · rw [if_neg (mt (commaSeparated_quoted_eq_empty ns).mp hns), keywordPlaces, if_neg (by simpa using hns), text_cons,
      text_namePlaces]
    rfl

theorem literals_keywordPlaces (keyword : String) (ns : List String) : literals (keywordPlaces keyword ns) = [] := by
  unfold keywordPlaces
  split
  · rfl
  · rw [literals_plain, literals_namePlaces]

theorem names_keywordPlaces (keyword : String) (ns : List String) : names (keywordPlaces keyword ns) = ns := by
  unfold keywordPlaces
  split
  · rename_i h
    simp [List.isEmpty_iff.mp h]
  · rw [names_plain, names_namePlaces]

theorem closes_keywordPlaces (keyword : String) (h : isFixed keyword = true) (ns : List String) :
    Closes (keywordPlaces keyword ns) := by
  intro ps hps
  unfold keywordPlaces
  split
  · simpa using hps
  · exact hps.between h (separated_namePlaces ns)

section

variable {lib : Libraries} {exact : Bool} {schema : Schema}

theorem selectQuery_builds {spec : OperatorSpec} (hallowed : ∀ c ∈ columns, allowed c)
    (hnames : ∀ item ∈ spec.expressions, allowed item.name) {built : BuiltQuery}
    (h : selectQuery lib exact columns schema spec = .ok built) :
    let items := spec.columns.map SelectItem.column ++ spec.expressions.map (expressionItem lib exact schema)
    Builds allowed built (.select [.plain "SELECT "] items [.plain " FROM input_0"]) ∧
      ((items.flatMap (·.columns)).map normalizeIdentifier).Nodup := by
  intro items
  simp only [selectQuery, bind_eq_ok, pure_eq_ok] at h
  obtain ⟨selected, hselected, projected, hprojected, _, -, rfl⟩ := h
  have h₁ : Projects allowed selected (spec.columns.map SelectItem.column) :=
    Projects.nil.fold (fun _ _ _ _ _ hacc hstep => projectColumn_projects hallowed hacc hstep) hselected
  have h₂ : Projects allowed projected items :=
    h₁.fold (fun item hitem _ _ _ hacc hstep => projectExpression_projects hallowed (hnames item hitem) hacc hstep) hprojected
  refine ⟨builds_select (fun item hitem => ⟨h₂.separated item hitem, h₂.named item hitem⟩) (opens_fixed (by decide))
    (closes_fixed (by decide) .nil) (by simp) ?_ ?_, h₂.columns ▸ h₂.apart⟩
  · rw [← h₂.sql]
    simp [Place.text, String.append_assoc]
  · rw [← h₂.literals_items]
    simp

theorem deriveQuery_builds {spec : OperatorSpec} (hallowed : ∀ c ∈ columns, allowed c)
    (hnames : ∀ item ∈ spec.expressions, allowed item.name) (hcolumns : (columns.map normalizeIdentifier).Nodup)
    {built : BuiltQuery} (h : deriveQuery lib exact columns schema spec = .ok built) :
    let items := SelectItem.star columns :: spec.expressions.map (expressionItem lib exact schema)
    Builds allowed built (.select [.plain "SELECT "] items [.plain " FROM input_0"]) ∧
      ((items.flatMap (·.columns)).map normalizeIdentifier).Nodup := by
  intro items
  simp only [deriveQuery, bind_eq_ok, pure_eq_ok] at h
  obtain ⟨derived, hderived, _, -, rfl⟩ := h
  have h₁ : Projects allowed ⟨columns.map normalizeIdentifier, ["*"], []⟩ [.star columns] := by
    refine ⟨?_, rfl, ?_, ?_, ?_, hcolumns⟩
    · simp [SelectItem.star, Place.text]
    · intro item hitem
      obtain rfl := List.mem_singleton.mp hitem
      exact separated_star columns
    · intro item hitem
      obtain rfl := List.mem_singleton.mp hitem
      simp [SelectItem.star]
    · simp [SelectItem.star]
  have h₂ : Projects allowed derived items :=
    h₁.fold (fun item hitem _ _ _ hacc hstep => deriveExpression_projects hallowed (hnames item hitem) hacc hstep) hderived
  refine ⟨builds_select (fun item hitem => ⟨h₂.separated item hitem, h₂.named item hitem⟩) (opens_fixed (by decide))
    (closes_fixed (by decide) .nil) (by simp) ?_ ?_, h₂.columns ▸ h₂.apart⟩
  · rw [← h₂.sql]
    simp [Place.text, String.append_assoc]
  · rw [← h₂.literals_items]
    simp

/-- The aggregation of a relation, after whatever opens the statement. -/
theorem aggregateQuery_builds {spec : OperatorSpec} {source : String} {opening : List (Place Parameter)}
    (hopening : Opens (opening ++ [.plain "SELECT "])) (hopeningNames : ∀ n ∈ names opening, allowed n)
    (hallowed : ∀ c ∈ columns, allowed c) (hsource : allowed source) (hnames : ∀ a ∈ spec.aggregates, allowed a.name)
    {built : BuiltQuery} (h : aggregateQuery lib exact columns schema spec source = .ok built) :
    Builds allowed (text opening ++ built.1, literals opening ++ built.2)
        (aggregateStatement lib exact schema opening spec source) ∧
      ((aggregateStatement lib exact schema opening spec source).columns.map normalizeIdentifier).Nodup := by
  simp only [aggregateQuery, bind_eq_ok, pure_eq_ok] at h
  obtain ⟨grouped, hgrouped, ns, hns, projected, hprojected, _, -, group, hgroup, _, hquoted, rfl⟩ := h
  obtain ⟨rfl, -⟩ := quoteIdentifier_ok hquoted
  have h₁ : Projects allowed ⟨ns, grouped, []⟩ (spec.groupBy.map SelectItem.column) := group_projects hallowed hgrouped hns
  have h₂ := h₁.fold
    (fun item hitem _ _ _ hacc hstep => projectAggregate_projects hallowed (hnames item hitem) hacc hstep) hprojected
  obtain ⟨hkeys, hmem⟩ := quoteAll_ok hgrouped
  have hclause : group = text (keywordPlaces " GROUP BY " spec.groupBy) := by
    rw [text_keywordPlaces]
    unfold groupClause at hgroup
    by_cases hempty : spec.groupBy = []
    · rw [if_pos (by simp [hempty, commaSeparated])]
      simpa [hempty] using hgroup.symm
    · rw [if_neg (mt (commaSeparated_quoted_eq_empty _).mp hempty)]
      rw [if_neg (by simpa using hempty)] at hgroup
      simp only [bind_eq_ok, pure_eq_ok] at hgroup
      obtain ⟨keys, hagain, rfl⟩ := hgroup
      obtain ⟨rfl, -⟩ := quoteAll_ok hagain
      rfl
  refine ⟨builds_select (fun item hitem => ⟨h₂.separated item hitem, h₂.named item hitem⟩) hopening ?_ ?_ ?_ ?_,
    h₂.columns ▸ h₂.apart⟩
  · intro ps hps
    have hfrom : Separated (ps ++ [.plain " FROM ", .name source]) := hps.between (by decide) (.name source)
    simpa using closes_keywordPlaces " GROUP BY " (by decide) spec.groupBy _ hfrom
  · intro n hn
    have hn : n ∈ names opening ∨ n = source ∨ n ∈ spec.groupBy := by
      simpa [names_keywordPlaces] using hn
    rcases hn with hn | rfl | hn
    · exact hopeningNames n hn
    · exact hsource
    · exact hallowed n (hmem n hn)
  · rw [← h₂.sql, hclause]
    simp [Place.text, String.append_assoc]
  · rw [← h₂.literals_items]
    simp [literals_keywordPlaces]

theorem pivotQuery_builds {spec : OperatorSpec} (hallowed : ∀ c ∈ columns, allowed c)
    (hnames : ∀ value ∈ spec.pivotValues, allowed value) {built : BuiltQuery}
    (h : pivotQuery columns spec = .ok built) :
    Builds allowed built (pivotStatement spec) ∧ ((pivotStatement spec).columns.map normalizeIdentifier).Nodup := by
  unfold pivotQuery at h
  split at h
  · rename_i column value hcolumn hvalue
    simp only [bind_eq_ok, pure_eq_ok] at h
    obtain ⟨_, -, _, hquotedColumn, _, hquotedValue, indexed, hindexed, ns, hns, projected, hprojected, keys, hkeys, rfl⟩ := h
    obtain ⟨rfl, hcolumnMem⟩ := quoteIdentifier_ok hquotedColumn
    obtain ⟨rfl, hvalueMem⟩ := quoteIdentifier_ok hquotedValue
    have h₁ : Projects allowed ⟨ns, indexed, []⟩ (spec.pivotIndex.map SelectItem.column) :=
      group_projects hallowed hindexed hns
    have h₂ := h₁.fold (fun item hitem _ _ _ hacc hstep =>
      projectPivotValue_projects (hallowed _ (hcolumnMem _ rfl)) (hallowed _ (hvalueMem _ rfl)) (hnames item hitem) hacc hstep)
      hprojected
    obtain ⟨rfl, hmem⟩ := quoteAll_ok hkeys
    have hstatement : pivotStatement spec = .select [.plain "SELECT "]
        (spec.pivotIndex.map .column ++ spec.pivotValues.map (pivotItem column value))
        (.plain " FROM input_0" :: (keywordPlaces " GROUP BY " spec.pivotIndex ++ keywordPlaces " ORDER BY " spec.pivotIndex)) := by
      rw [pivotStatement, hcolumn, hvalue]
      rfl
    rw [hstatement]
    refine ⟨builds_select (fun item hitem => ⟨h₂.separated item hitem, h₂.named item hitem⟩) (opens_fixed (by decide))
      ?_ ?_ ?_ ?_, h₂.columns ▸ h₂.apart⟩
    · intro ps hps
      have hfrom : Separated (ps ++ [.plain " FROM input_0"]) := hps.between (by decide) .nil
      have hgroup := closes_keywordPlaces " GROUP BY " (by decide) spec.pivotIndex _ hfrom
      simpa using closes_keywordPlaces " ORDER BY " (by decide) spec.pivotIndex _ hgroup
    · intro n hn
      have hn : n ∈ spec.pivotIndex := by simpa [names_keywordPlaces] using hn
      exact hallowed n (hmem n hn)
    · rw [← h₂.sql]
      simp [text_keywordPlaces, Place.text, String.append_assoc]
    · rw [← h₂.literals_items]
      simp [literals_keywordPlaces]
  · cases h

theorem filterQuery_builds {spec : OperatorSpec} (hallowed : ∀ c ∈ columns, allowed c) {built : BuiltQuery}
    (h : filterQuery lib exact columns schema spec = .ok built) :
    Builds allowed built (.select [.plain "SELECT "] [.star columns]
      (.plain " FROM input_0 WHERE " :: spec.predicate.elim [] (sqlPlaces lib exact schema))) := by
  unfold filterQuery at h
  split at h
  · cases h
  · rename_i predicate hpredicate
    simp only [bind_eq_ok, pure_eq_ok] at h
    obtain ⟨r, hr, rfl⟩ := h
    obtain ⟨hsql, hparameters, hseparated, hnamed⟩ := render_writes hr
    rw [hpredicate]
    refine builds_star (closes_fixed (by decide) hseparated) (fun n hn => hallowed n (hnamed n (by simpa using hn))) ?_ ?_
    · rw [hsql]
      apply String.toList_injective
      simp [Place.text]
    · rw [hparameters]
      simp

end

theorem sortQuery_builds {spec : OperatorSpec} (hallowed : ∀ c ∈ columns, allowed c) {built : BuiltQuery}
    (h : sortQuery columns spec = .ok built) :
    Builds allowed built (.select [.plain "SELECT "] [.star columns]
      (.plain " FROM input_0 ORDER BY " :: orderPlaces (spec.sort.map .key))) := by
  simp only [sortQuery, bind_eq_ok, pure_eq_ok] at h
  obtain ⟨_, -, terms, hterms, rfl⟩ := h
  obtain ⟨rfl, hcolumns⟩ := sortTerms_ok hterms
  refine builds_star (closes_fixed (by decide) (separated_orderPlaces _)) ?_ ?_ ?_
  · intro n hn
    have hkeys := names_orderTerms hcolumns false n (by simpa [orderTerms] using hn)
    exact hallowed n hkeys
  · apply String.toList_injective
    simp [Place.text, orderPlaces, text_joined, commaSeparated, Function.comp_def]
  · simp [orderPlaces, literals_joined, OrderTerm.places, List.flatMap_map]

theorem limitQuery_builds {spec : OperatorSpec} {built : BuiltQuery} (h : limitQuery spec = .ok built) :
    Builds allowed built (.select [.plain "SELECT "] [.star columns]
      [.plain " FROM input_0 LIMIT ", .literal (limitParameter spec.limit)]) := by
  simp only [limitQuery, bind_eq_ok, pure_eq_ok] at h
  obtain ⟨_, -, rfl⟩ := h
  refine builds_star (closes_fixed (by decide) (.literal _)) (by simp) ?_ (by simp)
  apply String.toList_injective
  simp [Place.text]

end

end DataNexus.Runtime
