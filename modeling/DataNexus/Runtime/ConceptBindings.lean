/-
  DataNexus.Runtime.ConceptBindings — binding the concepts of an operator spec to columns
  (`_apply_bindings` in `query_runtime/planner.py`).

  `references` lists what a spec names of its input, `introduced` what it names itself.
  `rename` renames the references; two specs with the same `blank`, all references erased,
  differ in references only. Binding either fails on a COLUMN expression whose declared type
  is not its column's, or renames (`Binds`, carried through every field by its three rules).
-/

import DataNexus.Runtime.Planner

namespace DataNexus.Runtime

open Lib

/-! ## References -/

namespace TypedExpression

mutual

/-- The COLUMN expressions at any depth: the name and the declared type. -/
def columnRefs : TypedExpression → List (String × ScalarType)
  | mk kind dataType column _ args =>
    (if kind = .column then column.toList.map fun name => (name, dataType) else []) ++ columnRefsAll args

def columnRefsAll : List TypedExpression → List (String × ScalarType)
  | [] => []
  | arg :: args => arg.columnRefs ++ columnRefsAll args

end

mutual

def rename (f : String → String) : TypedExpression → TypedExpression
  | mk kind dataType column value args =>
    mk kind dataType (if kind = .column then column.map f else column) value (renameAll f args)

def renameAll (f : String → String) : List TypedExpression → List TypedExpression
  | [] => []
  | arg :: args => arg.rename f :: renameAll f args

end

end TypedExpression

namespace V1Payload

def rename (f : String → String) (payload : V1Payload) : V1Payload :=
  { payload with
    partitionBy := payload.partitionBy.map f
    window := payload.window.map fun w => { w with column := w.column.map f }
    date := payload.date.map fun d => { d with column := f d.column }
    explode := payload.explode.map fun e => { e with column := f e.column }
    impute := payload.impute.map fun i => { i with column := f i.column, value := i.value.rename f }
    unpivot := payload.unpivot.map fun u => { u with columns := u.columns.map f } }

def references (payload : V1Payload) : List String :=
  payload.partitionBy ++ payload.window.toList.flatMap (·.column.toList) ++ payload.date.toList.map (·.column) ++
    payload.explode.toList.map (·.column) ++ payload.unpivot.toList.flatMap (·.columns) ++
    payload.impute.toList.flatMap fun i => i.column :: i.value.columnRefs.map (·.1)

def introduced (payload : V1Payload) : List String :=
  payload.window.toList.map (·.output) ++ payload.date.toList.map (·.output) ++ payload.explode.toList.map (·.output) ++
    payload.unpivot.toList.flatMap fun u => [u.nameColumn, u.valueColumn]

end V1Payload

namespace OperatorSpec

def rename (f : String → String) (op : OperatorSpec) : OperatorSpec :=
  { op with
    columns := op.columns.map f
    predicate := op.predicate.map (·.rename f)
    groupBy := op.groupBy.map f
    aggregates := op.aggregates.map fun a => { a with expression := a.expression.map (·.rename f) }
    expressions := op.expressions.map fun e => { e with expression := e.expression.rename f }
    sort := op.sort.map fun s => { s with column := f s.column }
    joinKeys := op.joinKeys.map fun k => { left := f k.left, right := f k.right }
    pivotIndex := op.pivotIndex.map f
    pivotColumn := op.pivotColumn.map f
    pivotValue := op.pivotValue.map f
    v1 := op.v1.map (·.rename f)
    legacyOperator := fun h => op.legacyOperator (by simpa using h) }

/-- Every reference to an input column. -/
def references (op : OperatorSpec) : List String :=
  op.columns ++ op.predicate.toList.flatMap (·.columnRefs.map (·.1)) ++ op.groupBy ++
    op.aggregates.flatMap (fun a => a.expression.toList.flatMap (·.columnRefs.map (·.1))) ++
    op.expressions.flatMap (·.expression.columnRefs.map (·.1)) ++ op.sort.map (·.column) ++
    op.joinKeys.flatMap (fun k => [k.left, k.right]) ++ op.pivotIndex ++ op.pivotColumn.toList ++ op.pivotValue.toList ++
    op.v1.toList.flatMap (·.references)

/-- The names of the operator's own: its outputs, and the values of a pivot. -/
def introduced (op : OperatorSpec) : List String :=
  op.expressions.map (·.name) ++ op.aggregates.map (·.name) ++ op.pivotValues ++ op.v1.toList.flatMap (·.introduced)

/-- The spec with every reference erased. -/
def blank (op : OperatorSpec) : OperatorSpec := op.rename fun _ => ""

/-- The COLUMN expressions of the spec. -/
def columnRefs (op : OperatorSpec) : List (String × ScalarType) :=
  op.predicate.toList.flatMap (·.columnRefs) ++ op.aggregates.flatMap (fun a => a.expression.toList.flatMap (·.columnRefs)) ++
    op.expressions.flatMap (·.expression.columnRefs) ++
    op.v1.toList.flatMap fun payload => payload.impute.toList.flatMap (·.value.columnRefs)

end OperatorSpec

/-! ## Renaming -/

section

variable (f g : String → String)

mutual

theorem TypedExpression.rename_rename : ∀ e : TypedExpression, (e.rename f).rename g = e.rename (g ∘ f)
  | .mk kind dataType column value args => by
    simp only [rename, renameAll_renameAll args]
    split
    · rw [Option.map_map]
    · rfl

theorem TypedExpression.renameAll_renameAll :
    ∀ es : List TypedExpression, renameAll g (renameAll f es) = renameAll (g ∘ f) es
  | [] => rfl
  | e :: es => by rw [renameAll, renameAll, renameAll, rename_rename e, renameAll_renameAll es]

end

mutual

theorem TypedExpression.columnRefs_rename : ∀ e : TypedExpression,
    (e.rename f).columnRefs = e.columnRefs.map fun r => (f r.1, r.2)
  | .mk kind dataType column value args => by
    simp only [rename, columnRefs, columnRefsAll_renameAll args, List.map_append]
    split
    · cases column <;> rfl
    · rfl

theorem TypedExpression.columnRefsAll_renameAll : ∀ es : List TypedExpression,
    columnRefsAll (renameAll f es) = (columnRefsAll es).map fun r => (f r.1, r.2)
  | [] => rfl
  | e :: es => by
    rw [renameAll, columnRefsAll, columnRefsAll, columnRefs_rename e, columnRefsAll_renameAll es, List.map_append]

end

theorem TypedExpression.names_rename (e : TypedExpression) :
    (e.rename f).columnRefs.map (·.1) = (e.columnRefs.map (·.1)).map f := by
  rw [columnRefs_rename, List.map_map, List.map_map]
  rfl

theorem V1Payload.rename_rename (payload : V1Payload) : (payload.rename f).rename g = payload.rename (g ∘ f) := by
  simp only [rename, List.map_map, Option.map_map, Function.comp_def, TypedExpression.rename_rename]

theorem V1Payload.references_rename (payload : V1Payload) : (payload.rename f).references = payload.references.map f := by
  obtain ⟨partitionBy, window, date, unpivot, explode, impute, sampleSeed⟩ := payload
  simp only [references, rename, List.map_append]
  cases window <;> cases date <;> cases unpivot <;> cases explode <;> cases impute <;>
    simp [TypedExpression.names_rename, Option.toList_map]

theorem V1Payload.introduced_rename (payload : V1Payload) : (payload.rename f).introduced = payload.introduced := by
  obtain ⟨partitionBy, window, date, unpivot, explode, impute, sampleSeed⟩ := payload
  cases window <;> cases date <;> cases unpivot <;> cases explode <;> rfl

namespace OperatorSpec

theorem rename_rename (op : OperatorSpec) : (op.rename f).rename g = op.rename (g ∘ f) := by
  simp only [rename, List.map_map, Option.map_map, Function.comp_def, TypedExpression.rename_rename, V1Payload.rename_rename]

theorem blank_rename (op : OperatorSpec) : (op.rename f).blank = op.blank := rename_rename f _ op

theorem introduced_rename (op : OperatorSpec) : (op.rename f).introduced = op.introduced := by
  simp only [introduced, rename, List.map_map, Option.toList_map, List.flatMap_map, V1Payload.introduced_rename]
  rfl

theorem references_rename (op : OperatorSpec) : (op.rename f).references = op.references.map f := by
  simp only [references, rename, List.map_append, Option.toList_map, List.flatMap_map, List.map_flatMap, List.map_map,
    TypedExpression.names_rename, V1Payload.references_rename]
  rfl

end OperatorSpec

end

/-! ## Binding -/

def PlannerError.isTypeMismatch : PlannerError → Bool
  | .bindingFailure failure => failure.code == "BINDING_TYPE_MISMATCH"
  | _ => false

/-- A COLUMN expression that names a concept whose column has another type. -/
def Mismatch (columns : List BoundColumn) (ref : String × ScalarType) : Prop :=
  ∃ binding, bindingOf columns ref.1 = some binding ∧ binding.dataType ≠ ref.2

/-- A computation over the COLUMN expressions `refs`: one of them is a mismatch, or the value is `y`. -/
def Binds {α : Type} (columns : List BoundColumn) (refs : List (String × ScalarType)) (x : Except PlannerError α) (y : α) :
    Prop :=
  (x = .ok y ∧ ∀ r ∈ refs, ¬ Mismatch columns r) ∨
  (∃ e, x = .error e ∧ e.isTypeMismatch = true) ∧ ∃ r ∈ refs, Mismatch columns r

section

variable {α β : Type} {columns : List BoundColumn}

theorem binds_pure (y : α) : Binds columns [] (pure y) y := .inl ⟨rfl, fun r hr => by cases hr⟩

theorem Binds.bind {refs refs' : List (String × ScalarType)} {x : Except PlannerError α} {a : α}
    {f : α → Except PlannerError β} {b : β} (h : Binds columns refs x a) (h' : Binds columns refs' (f a) b) :
    Binds columns (refs ++ refs') (x >>= f) b := by
  rcases h with ⟨rfl, hrefs⟩ | ⟨⟨e, rfl, he⟩, r, hr, hmismatch⟩
  · rcases h' with ⟨hok, hrefs'⟩ | ⟨⟨e, herror, he⟩, r, hr, hmismatch⟩
    · refine .inl ⟨hok, fun r hr => ?_⟩
      rcases List.mem_append.mp hr with hr | hr
      · exact hrefs r hr
      · exact hrefs' r hr
    · exact .inr ⟨⟨e, herror, he⟩, r, List.mem_append_right _ hr, hmismatch⟩
  · exact .inr ⟨⟨e, rfl, he⟩, r, List.mem_append_left _ hr, hmismatch⟩

/-- What follows a bound value without asking for more. -/
theorem Binds.map {refs : List (String × ScalarType)} {x : Except PlannerError α} {a : α} {f : α → Except PlannerError β}
    {b : β} (h : Binds columns refs x a) (hf : f a = .ok b) : Binds columns refs (x >>= f) b := by
  have hpure : Binds columns [] (f a) b := by
    rw [hf]
    exact binds_pure b
  have hbind := h.bind hpure
  rwa [List.append_nil] at hbind

theorem binds_mapM {f : α → Except PlannerError β} {g : α → β} {refs : α → List (String × ScalarType)} {xs : List α}
    (h : ∀ x ∈ xs, Binds columns (refs x) (f x) (g x)) : Binds columns (xs.flatMap refs) (xs.mapM f) (xs.map g) := by
  induction xs with
  | nil => exact binds_pure []
  | cons x xs ih =>
    rw [List.mapM_cons, List.flatMap_cons, List.map_cons]
    exact (h x (by simp)).bind ((ih fun y hy => h y (by simp [hy])).map rfl)

end

theorem validateShape_ok {kind : ExpressionKind} {dataType : ScalarType} {column : Option String} {value : ScalarValue}
    {args : List TypedExpression} (h : (TypedExpression.mk kind dataType column value args).validateShape = .ok ()) :
    TypedExpression.validateShapes args = .ok () ∧ (kind = .column → args = [] ∧ ∃ name, column = some name) := by
  simp only [TypedExpression.validateShape, bind_eq_ok, refuseIf_eq_ok] at h
  obtain ⟨_, hargs, _, hcolumn, -⟩ := h
  refine ⟨hargs, fun hkind => ?_⟩
  subst hkind
  simp only [beq_self_eq_true, Bool.true_and, Bool.or_eq_false_iff, Bool.not_eq_false'] at hcolumn
  refine ⟨List.isEmpty_iff.mp hcolumn.2, ?_⟩
  cases column with
  | none => simp [TypedExpression.named] at hcolumn
  | some name => exact ⟨name, rfl⟩

section

variable {columns : List BoundColumn}

mutual

theorem bindExpression_binds : ∀ {e : TypedExpression}, e.validateShape = .ok () →
    Binds columns e.columnRefs (bindExpression columns e) (e.rename (boundName columns))
  | .mk kind dataType column value args, h => by
    obtain ⟨hargs, hcolumn⟩ := validateShape_ok h
    have hbelow := bindExpressions_binds hargs
    by_cases hkind : kind = .column
    · obtain ⟨rfl, name, rfl⟩ := hcolumn hkind
      subst hkind
      simp only [bindExpression, TypedExpression.columnRefs, TypedExpression.rename, if_true, Option.bind_some,
        TypedExpression.columnRefsAll, TypedExpression.renameAll, Option.toList_some, List.map_cons, List.map_nil,
        List.append_nil, Option.map_some, boundName]
      cases hbinding : bindingOf columns name with
      | none =>
        refine .inl ⟨rfl, fun r hr => ?_⟩
        rw [List.mem_singleton.mp hr]
        rintro ⟨binding, hsome, -⟩
        rw [hbinding] at hsome
        cases hsome
      | some binding =>
        dsimp only
        split
        · rename_i hne
          exact .inr ⟨⟨_, rfl, rfl⟩, _, List.mem_singleton_self _, binding, hbinding, hne⟩
        · rename_i heq
          refine .inl ⟨rfl, fun r hr => ?_⟩
          rw [List.mem_singleton.mp hr]
          rintro ⟨other, hother, hne⟩
          rw [hbinding] at hother
          rw [← Option.some.inj hother] at hne
          exact heq hne
    · simp only [bindExpression, TypedExpression.columnRefs, TypedExpression.rename, if_neg hkind, List.nil_append]
      exact hbelow.map rfl

theorem bindExpressions_binds : ∀ {es : List TypedExpression}, TypedExpression.validateShapes es = .ok () →
    Binds columns (TypedExpression.columnRefsAll es) (bindExpressions columns es)
      (TypedExpression.renameAll (boundName columns) es)
  | [], _ => binds_pure []
  | e :: es, h => by
    simp only [TypedExpression.validateShapes, bind_eq_ok] at h
    obtain ⟨_, he, hes⟩ := h
    exact (bindExpression_binds he).bind ((bindExpressions_binds hes).map rfl)

end

theorem bindOptional_binds {e : Option TypedExpression} (h : ∀ x ∈ e, x.validateShape = .ok ()) :
    Binds columns (e.toList.flatMap (·.columnRefs)) (bindOptional columns e) (e.map (·.rename (boundName columns))) := by
  cases e with
  | none => exact binds_pure none
  | some e =>
    rw [Option.toList_some, List.flatMap_singleton]
    have hbinds : Binds columns e.columnRefs (bindExpression columns e) (e.rename (boundName columns)) :=
      bindExpression_binds (h e rfl)
    rcases hbinds with ⟨hok, hrefs⟩ | ⟨⟨error, herror, hcode⟩, hmismatch⟩
    · exact .inl ⟨by rw [bindOptional, hok]; rfl, hrefs⟩
    · exact .inr ⟨⟨error, by rw [bindOptional, herror]; rfl, hcode⟩, hmismatch⟩

theorem bindPayload_binds {payload : V1Payload} (h : ∀ i ∈ payload.impute, i.value.validateShape = .ok ()) :
    Binds columns (payload.impute.toList.flatMap (·.value.columnRefs)) (bindPayload columns payload)
      (payload.rename (boundName columns)) := by
  obtain ⟨partitionBy, window, date, unpivot, explode, impute, sampleSeed⟩ := payload
  cases impute with
  | none => exact binds_pure _
  | some i =>
    rw [Option.toList_some, List.flatMap_singleton]
    have hbinds : Binds columns i.value.columnRefs (bindExpression columns i.value) (i.value.rename (boundName columns)) :=
      bindExpression_binds (h i rfl)
    rcases hbinds with ⟨hok, hrefs⟩ | ⟨⟨error, herror, hcode⟩, hmismatch⟩
    · exact .inl ⟨by simp only [bindPayload, hok]; rfl, hrefs⟩
    · exact .inr ⟨⟨error, by simp only [bindPayload, herror]; rfl, hcode⟩, hmismatch⟩

end

/-- Binding a spec renames its references, unless a COLUMN expression is a mismatch. -/
theorem applyBindings_binds {operation : OperatorSpec} {columns : List BoundColumn}
    (h : ∀ e ∈ operation.allExpressions, e.validateShape = .ok ()) :
    Binds columns operation.columnRefs (applyBindings operation columns) (operation.rename (boundName columns)) := by
  simp only [OperatorSpec.allExpressions, List.mem_append, List.mem_map, List.mem_filterMap, Option.mem_toList] at h
  have hpredicate : Binds columns (operation.predicate.toList.flatMap (·.columnRefs)) (bindOptional columns operation.predicate)
      (operation.predicate.map (·.rename (boundName columns))) :=
    bindOptional_binds fun x hx => h x (.inl (.inr hx))
  have haggregates : Binds columns (operation.aggregates.flatMap fun a => a.expression.toList.flatMap (·.columnRefs))
      (operation.aggregates.mapM fun a => do return { a with expression := ← bindOptional columns a.expression })
      (operation.aggregates.map fun a => { a with expression := a.expression.map (·.rename (boundName columns)) }) := by
    refine binds_mapM fun a ha => ?_
    exact (bindOptional_binds fun x hx => h x (.inl (.inl (.inr ⟨a, ha, hx⟩)))).map rfl
  have hexpressions : Binds columns (operation.expressions.flatMap (·.expression.columnRefs))
      (operation.expressions.mapM fun e => do return { e with expression := ← bindExpression columns e.expression })
      (operation.expressions.map fun e => { e with expression := e.expression.rename (boundName columns) }) := by
    refine binds_mapM fun e he => ?_
    exact (bindExpression_binds (h _ (.inl (.inl (.inl ⟨e, he, rfl⟩))))).map rfl
  have hpayload : Binds columns (operation.v1.toList.flatMap fun payload => payload.impute.toList.flatMap (·.value.columnRefs))
      (operation.v1.mapM (bindPayload columns)) (operation.v1.map (·.rename (boundName columns))) := by
    cases hv1 : operation.v1 with
    | none => exact binds_pure none
    | some payload =>
      rw [Option.toList_some, List.flatMap_singleton]
      refine (bindPayload_binds fun i hi => h _ (.inr ⟨i, ?_, rfl⟩)).map rfl
      simpa [OperatorSpec.payload, hv1] using hi
  rw [OperatorSpec.columnRefs, List.append_assoc, List.append_assoc]
  refine hpredicate.bind (haggregates.bind (hexpressions.bind ?_))
  rcases hpayload with ⟨hok, hrefs⟩ | ⟨⟨error, herror, hcode⟩, hmismatch⟩
  · refine .inl ⟨?_, hrefs⟩
    split
    · rename_i error herror
      rw [hok] at herror
      cases herror
    · rename_i v1 hv1
      obtain rfl : operation.v1.map (·.rename (boundName columns)) = v1 := Except.ok.inj (hok.symm.trans hv1)
      rfl
  · refine .inr ⟨⟨error, ?_, hcode⟩, hmismatch⟩
    split
    · rename_i other hother
      rw [Except.error.inj (hother.symm.trans herror)]
    · rename_i v1 hv1
      rw [herror] at hv1
      cases hv1

/-- Binding replaces every reference to an input column by the column its concept is bound to,
    and nothing else; it fails exactly on a COLUMN expression that names a concept and declares
    another type than its column's. -/
theorem concept_binding (operation : OperatorSpec) (columns : List BoundColumn)
    (h : ∀ e ∈ operation.allExpressions, e.validateShape = .ok ()) :
    (∀ bound, applyBindings operation columns = .ok bound →
      bound.references = operation.references.map (boundName columns) ∧ bound.introduced = operation.introduced ∧
        bound.blank = operation.blank) ∧
    (∀ error, applyBindings operation columns = .error error → error.isTypeMismatch = true) ∧
    ((∃ error, applyBindings operation columns = .error error) ↔
      ∃ ref ∈ operation.columnRefs, ∃ binding, bindingOf columns ref.1 = some binding ∧ binding.dataType ≠ ref.2) := by
  have hbinds : Binds columns operation.columnRefs (applyBindings operation columns) (operation.rename (boundName columns)) :=
    applyBindings_binds h
  rcases hbinds with ⟨hok, hrefs⟩ | ⟨⟨error, herror, hcode⟩, hmismatch⟩
  · refine ⟨?_, ?_, ?_⟩
    · intro bound hbound
      obtain rfl := Except.ok.inj (hok.symm.trans hbound)
      exact ⟨operation.references_rename _, operation.introduced_rename _, operation.blank_rename _⟩
    · intro error herror
      rw [hok] at herror
      cases herror
    · constructor
      · intro herror
        obtain ⟨error, herror⟩ := herror
        rw [hok] at herror
        cases herror
      · intro hmismatch
        obtain ⟨ref, href, hmismatch⟩ := hmismatch
        exact absurd hmismatch (hrefs ref href)
  · refine ⟨?_, ?_, fun _ => hmismatch, fun _ => ⟨error, herror⟩⟩
    · intro bound hbound
      rw [herror] at hbound
      cases hbound
    · intro other hother
      rw [← Except.error.inj (herror.symm.trans hother)]
      exact hcode

/-- An amount added to itself under a name that the amount's column has too. -/
def doubledAmount : OperatorSpec :=
  { kind := .derive
    expressions := [⟨"amount_cents", .mk .add .integer none .null
      [.mk .column .integer (some "orders.amount") .null [], .mk .column .integer (some "orders.amount") .null []]⟩] }

theorem doubledAmount_bound : ∃ bound, applyBindings doubledAmount [⟨"orders.amount", "orders", "amount_cents", .integer⟩] = .ok bound ∧
    bound.references = ["amount_cents", "amount_cents"] ∧ bound.introduced = ["amount_cents"] := by
  have hshape : ∀ e ∈ doubledAmount.allExpressions, e.validateShape = .ok () := by
    intro e he
    obtain rfl := List.mem_singleton.mp he
    rfl
  have hbinding := concept_binding doubledAmount [⟨"orders.amount", "orders", "amount_cents", .integer⟩] hshape
  cases hbound : applyBindings doubledAmount [⟨"orders.amount", "orders", "amount_cents", .integer⟩] with
  | ok bound =>
    obtain ⟨hreferences, hintroduced, -⟩ := hbinding.1 bound hbound
    exact ⟨bound, rfl, hreferences, hintroduced⟩
  | error error => cases hbound

end DataNexus.Runtime
