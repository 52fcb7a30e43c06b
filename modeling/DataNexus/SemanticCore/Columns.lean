/-
  DataNexus.SemanticCore.Columns — which column of an input an output is.

  Seven kinds of nodes pass columns on, each in its own place: `passedFrom` says which column
  of which input an output is, if it is one. For such an output,

  - `Checked.passed`: the graph declares what it declares for that column, nullable also
    where a join pads it;
  - `evaluateNode_passed`: its cells are cells of that column, or padding.

  `rowsOf_node` is what a node's rows are made of, in a graph where ids are not repeated.
-/

import DataNexus.SemanticCore.Evaluation
import DataNexus.SemanticCore.Safety

namespace DataNexus.SemanticCore

open Lib

/-- The position of an input and the column of it that an output is. -/
def passedFrom : NodeParams → String → Option (Nat × String)
  | .select .., _ => none
  | .filter _, name | .sort _, name | .project _, name => some (0, name)
  | .aggregate params, name => if (params.measures.map (·.name)).contains name then none else some (0, name)
  | .pivot params, name => if params.expectedColumns.contains name then none else some (0, name)
  | .derive expressions, name => if (expressions.map (·.name)).contains name then none else some (0, name)
  | .join params, name => (params.fields.find? (·.name == name)).map fun projection => (projection.source.input, projection.field)

/-- Whether a join pads the input at the position. -/
def padsInput : NodeParams → Nat → Bool
  | .join params, 0 => params.kind.pads .left
  | .join params, _ => params.kind.pads .right
  | _, _ => false

/-! ## Entries that a loop makes -/

theorem keys_of_mapM {α β : Type} {xs : List α} {f : α → Except PythonError (String × β)} {ys : List (String × β)}
    (h : xs.mapM f = .ok ys) {key : α → String} (hf : ∀ x y, f x = .ok y → y.1 = key x) : ys.map (·.1) = xs.map key := by
  have hall := mapM_eq_ok.mp h
  clear h
  induction hall with
  | nil => rfl
  | cons hxy _ ih => rw [List.map_cons, List.map_cons, hf _ _ hxy, ih]

theorem lookup_of_mapM {α β : Type} {xs : List α} {f : α → Except PythonError (String × β)} {ys : List (String × β)}
    (h : xs.mapM f = .ok ys) {k : String} {b : β} (hk : ys.lookup k = some b) : ∃ x ∈ xs, f x = .ok (k, b) := by
  obtain ⟨x, hx, hmade⟩ := mem_of_forall₂ (mapM_eq_ok.mp h) (mem_of_lookup hk)
  exact ⟨x, hx, hmade⟩

theorem exists_lookup {β : Type} {entries : List (String × β)} {k : String} (h : k ∈ entries.map (·.1)) : ∃ b, entries.lookup k = some b :=
  Option.isSome_iff_exists.mp (Dict.lookup_isSome.mpr h)

theorem Outputs.mem_of_get {outputs : Outputs} {name : String} {output : OutputField} (h : outputs.get name = .ok output) :
    output ∈ outputs ∧ output.name = name := by
  unfold Outputs.get at h
  split at h
  · rename_i found hfound
    obtain rfl := Except.ok.inj h
    exact ⟨List.mem_of_find?_eq_some hfound, by simpa using List.find?_some hfound⟩
  · cases h

/-- The contract that a passed column has. -/
theorem lookup_passedOn {parent : Outputs} {fields : List String} {contracts : List (String × Contract)}
    (h : passedOn parent fields = .ok contracts) {name : String} (hname : name ∈ fields) :
    ∃ source ∈ parent, source.name = name ∧ contracts.lookup name = some source.contract := by
  have hkeys : contracts.map (·.1) = fields.map id := by
    refine keys_of_mapM h fun field entry hentry => ?_
    simp only [bind_eq_ok, pure_eq_ok] at hentry
    obtain ⟨_, -, rfl⟩ := hentry
    rfl
  rw [List.map_id] at hkeys
  obtain ⟨contract, hcontract⟩ := exists_lookup (hkeys ▸ hname)
  obtain ⟨field, -, hfield⟩ := lookup_of_mapM h hcontract
  simp only [bind_eq_ok, pure_eq_ok, Prod.mk.injEq] at hfield
  obtain ⟨source, hsource, rfl, rfl⟩ := hfield
  obtain ⟨hmem, rfl⟩ := Outputs.mem_of_get hsource
  exact ⟨source, hmem, rfl, hcontract⟩

theorem lookup_contracts {parent : Outputs} {name : String} (hname : name ∈ parent.names) :
    ∃ source ∈ parent, source.name = name ∧
      (List.map (fun output => (output.name, output.contract)) parent).lookup name = some source.contract := by
  rw [lookup_map]
  obtain ⟨output, houtput, rfl⟩ := List.mem_map.mp hname
  have hsome : (List.find? (·.name == output.name) parent).isSome = true := List.find?_isSome.mpr ⟨output, houtput, by simp⟩
  obtain ⟨source, hsource⟩ := Option.isSome_iff_exists.mp hsome
  refine ⟨source, List.mem_of_find?_eq_some hsource, by simpa using List.find?_some hsource, ?_⟩
  rw [hsource, Option.map_some]

/-! ## What the graph declares -/

section

variable {calendar : Calendar} {done : List SQGNode} {node : SQGNode} {parents : List SQGNode}

theorem checkContract_eq_ok {contracts : List (String × Contract)} {output : OutputField} {contract : Contract}
    (h : checkContract node contracts output = .ok ()) (hlookup : contracts.lookup output.name = some contract) :
    output.contract = contract := by
  obtain ⟨type, nullable⟩ := contract
  simp only [checkContract, hlookup, bind_eq_ok, refuseIf_eq_ok, bne_eq_false_iff_eq] at h
  obtain ⟨_, htype, hnullable⟩ := h
  rw [OutputField.contract, htype, hnullable]

/-- An output that is a column of an input. -/
structure PassedOutput (node : SQGNode) (parents : List SQGNode) (output : OutputField) (i : Nat) (column : String)
    (parent : SQGNode) (source : OutputField) : Prop where
  input : parents[i]? = some parent
  mem : source ∈ parent.outputs
  name : source.name = column
  type : output.dataType = source.dataType
  nullable : output.nullable = (source.nullable || padsInput node.params i)

theorem PassedOutput.of_contract {output source : OutputField} {parent : SQGNode} (hparent : parents[0]? = some parent)
    (hsource : source ∈ parent.outputs) (hpads : padsInput node.params 0 = false) (h : output.contract = source.contract) :
    PassedOutput node parents output 0 source.name parent source where
  input := hparent
  mem := hsource
  name := rfl
  type := congrArg Prod.fst h
  nullable := by
    rw [hpads, Bool.or_false]
    exact congrArg Prod.snd h

theorem contains_false {names : List String} {name : String} (h : ¬ (names.contains name = true)) : name ∉ names :=
  fun hmem => h (List.contains_iff_mem.mpr hmem)

/-- The contract of a column that the only input passes on is its source's. -/
def PassedContract (parents : List SQGNode) (contracts : List (String × Contract)) (name : String) : Prop :=
  ∃ parent source, parents = [parent] ∧ source ∈ parent.outputs ∧ source.name = name ∧ contracts.lookup name = some source.contract

section

variable {contracts : List (String × Contract)} (hcontracts : expectedOutputContracts node (parents.map (·.outputs)) = .ok contracts)
  {name : String}

include hcontracts

theorem Checked.passedContract_passesOn (h : Checked calendar done node parents) (hparams : PassesOn node.params)
    (hname : name ∈ node.outputNames) : PassedContract parents contracts name := by
  obtain ⟨parent, rfl, hnames⟩ := h.passesOn hparams
  cases hp : node.params with
  | filter predicate =>
    simp only [expectedOutputContracts, hp, List.map_cons, nth_cons_zero, bind_eq_ok, pure_eq_ok, Except.ok.injEq] at hcontracts
    obtain ⟨_, rfl, rfl⟩ := hcontracts
    obtain ⟨source, hsource, hsname, hlookup⟩ := lookup_contracts (hnames _ hname)
    exact ⟨parent, source, rfl, hsource, hsname, hlookup⟩
  | sort keys =>
    simp only [expectedOutputContracts, hp, List.map_cons, nth_cons_zero, bind_eq_ok, pure_eq_ok, Except.ok.injEq] at hcontracts
    obtain ⟨_, rfl, rfl⟩ := hcontracts
    obtain ⟨source, hsource, hsname, hlookup⟩ := lookup_contracts (hnames _ hname)
    exact ⟨parent, source, rfl, hsource, hsname, hlookup⟩
  | project fields =>
    have hfields : node.outputNames = fields := by
      have hnames := h.operator
      simp only [validateOperator, hp, List.map_cons, nth_cons_zero, bind_eq_ok, pure_eq_ok, Except.ok.injEq] at hnames
      obtain ⟨_, -, _, -, hnames⟩ := hnames
      exact hnames.symm
    simp only [expectedOutputContracts, hp, List.map_cons, nth_cons_zero, bind_eq_ok, Except.ok.injEq] at hcontracts
    obtain ⟨_, rfl, hpassed⟩ := hcontracts
    obtain ⟨source, hsource, hsname, hlookup⟩ := lookup_passedOn hpassed (hfields ▸ hname)
    exact ⟨parent, source, rfl, hsource, hsname, hlookup⟩
  | _ =>
    rw [hp] at hparams
    cases hparams

theorem Checked.passedContract_aggregate (h : Checked calendar done node parents) {params : AggregateParams}
    (hp : node.params = .aggregate params) (hname : name ∈ node.outputNames) (hnot : name ∉ params.measures.map (·.name)) :
    PassedContract parents contracts name := by
  obtain ⟨parent, rfl, -, -, hnames, -⟩ := h.aggregate hp
  rw [hnames, List.mem_append] at hname
  simp only [expectedOutputContracts, hp, List.map_cons, nth_cons_zero, bind_eq_ok, Except.ok.injEq] at hcontracts
  obtain ⟨_, rfl, hpassed⟩ := hcontracts
  obtain ⟨source, hsource, hsname, hlookup⟩ := lookup_passedOn hpassed (hname.resolve_right hnot)
  exact ⟨parent, source, rfl, hsource, hsname, hlookup⟩

theorem Checked.passedContract_pivot (h : Checked calendar done node parents) {params : PivotParams} (hp : node.params = .pivot params)
    (hname : name ∈ node.outputNames) (hnot : name ∉ params.expectedColumns) : PassedContract parents contracts name := by
  obtain ⟨parent, rfl, -, -, -, hnames, -⟩ := h.pivot hp
  rw [hnames, List.mem_append] at hname
  simp only [expectedOutputContracts, hp, List.map_cons, nth_cons_zero, bind_eq_ok, pure_eq_ok, Except.ok.injEq] at hcontracts
  obtain ⟨_, rfl, _, -, type, -, index, hpassed, rfl⟩ := hcontracts
  obtain ⟨source, hsource, hsname, hlookup⟩ := lookup_passedOn hpassed (hname.resolve_right hnot)
  refine ⟨parent, source, rfl, hsource, hsname, ?_⟩
  rw [List.lookup_append, hlookup, Option.some_or]

theorem Checked.passedContract_derive (h : Checked calendar done node parents) {expressions : List DeriveExpression}
    (hp : node.params = .derive expressions) (hname : name ∈ node.outputNames) (hnot : name ∉ expressions.map (·.name)) :
    PassedContract parents contracts name := by
  obtain ⟨parent, rfl, -, hnames, -⟩ := h.derive hp
  rw [hnames, List.mem_append] at hname
  have hkept : name ∈ Outputs.names parent.outputs := hname.resolve_right hnot
  simp only [expectedOutputContracts, hp, List.map_cons, nth_cons_zero, bind_eq_ok, pure_eq_ok, Except.ok.injEq] at hcontracts
  obtain ⟨_, rfl, derived, -, rfl⟩ := hcontracts
  obtain ⟨source, hsource, hsname, hlookup⟩ := lookup_contracts hkept
  refine ⟨parent, source, rfl, hsource, hsname, ?_⟩
  rw [List.lookup_append, hlookup, Option.some_or]

end

/-- An output whose contract is its source's is that column. -/
theorem PassedContract.passed {contracts : List (String × Contract)} {output : OutputField}
    (h : PassedContract parents contracts output.name) (hcheck : checkContract node contracts output = .ok ())
    (hpads : padsInput node.params 0 = false) : ∃ parent source, PassedOutput node parents output 0 output.name parent source := by
  obtain ⟨parent, source, rfl, hsource, hsname, hlookup⟩ := h
  rw [← hsname]
  exact ⟨parent, source, .of_contract rfl hsource hpads (checkContract_eq_ok hcheck hlookup)⟩

/-- A JOIN gives a column of the side that the projection of its name reads. -/
theorem Checked.passed_join (h : Checked calendar done node parents) {params : JoinParams} (hp : node.params = .join params)
    {output : OutputField} (houtput : output ∈ node.outputs) {i : Nat} {column : String}
    (hfrom : passedFrom node.params output.name = some (i, column)) :
    ∃ parent source, PassedOutput node parents output i column parent source := by
  obtain ⟨contracts, hcontracts, hchecks⟩ := h.contracts
  have hcheck := hchecks output houtput
  have hname : output.name ∈ node.outputNames := List.mem_map_of_mem houtput
  obtain ⟨left, right, rfl, -, -, -, hnames, hnodup⟩ := h.join hp
  rw [hp, passedFrom, Option.map_eq_some_iff] at hfrom
  obtain ⟨projection, hprojection, heq⟩ := hfrom
  obtain ⟨rfl, rfl⟩ := Prod.mk.inj heq
  have hfields : contracts.map (·.1) = params.fields.map (·.name) := by
    simp only [expectedOutputContracts, hp] at hcontracts
    refine keys_of_mapM hcontracts fun projection entry hentry => ?_
    simp only [bind_eq_ok, pure_eq_ok] at hentry
    obtain ⟨_, -, _, -, rfl⟩ := hentry
    rfl
  obtain ⟨contract, hlookup⟩ := exists_lookup (hfields ▸ hnames ▸ hname)
  simp only [expectedOutputContracts, hp] at hcontracts
  obtain ⟨other, hother, hmade⟩ := lookup_of_mapM hcontracts hlookup
  simp only [bind_eq_ok, pure_eq_ok, Prod.mk.injEq] at hmade
  obtain ⟨outputs, houtputs, source, hsource, hothername, rfl⟩ := hmade
  -- names are not repeated, so the projection found is the one of the contract
  have hsame : other = projection := by
    have hmem := List.mem_of_find?_eq_some hprojection
    have hpname : projection.name = output.name := by simpa using List.find?_some hprojection
    exact List.inj_on_of_nodup_map (hnames ▸ hnodup) hother hmem (hothername.trans hpname.symm)
  subst hsame
  obtain ⟨hmem, hsname⟩ := Outputs.mem_of_get hsource
  have hcontract := checkContract_eq_ok hcheck hlookup
  have htype : output.dataType = source.dataType := congrArg Prod.fst hcontract
  have hnullable : output.nullable = (source.nullable || params.kind.pads other.source) := congrArg Prod.snd hcontract
  cases hside : other.source with
  | left =>
    rw [hside] at houtputs hnullable
    obtain rfl := Except.ok.inj houtputs
    exact ⟨left, source, rfl, hmem, hsname, htype, by rw [hnullable, hp]; rfl⟩
  | right =>
    rw [hside] at houtputs hnullable
    obtain rfl := Except.ok.inj houtputs
    exact ⟨right, source, rfl, hmem, hsname, htype, by rw [hnullable, hp]; rfl⟩

/-- The graph declares an output that is a column of an input as that column. -/
theorem Checked.passed (h : Checked calendar done node parents) {output : OutputField} (houtput : output ∈ node.outputs) {i : Nat}
    {column : String} (hfrom : passedFrom node.params output.name = some (i, column)) :
    ∃ parent source, PassedOutput node parents output i column parent source := by
  obtain ⟨contracts, hcontracts, hchecks⟩ := h.contracts
  have hcheck := hchecks output houtput
  have hname : output.name ∈ node.outputNames := List.mem_map_of_mem houtput
  cases hp : node.params with
  | select entity fields =>
    rw [hp] at hfrom
    cases hfrom
  | filter predicate =>
    rw [hp] at hfrom
    obtain ⟨rfl, rfl⟩ := Prod.mk.inj (Option.some.inj hfrom)
    exact (h.passedContract_passesOn hcontracts (hp ▸ .filter predicate) hname).passed hcheck (by rw [hp]; rfl)
  | sort keys =>
    rw [hp] at hfrom
    obtain ⟨rfl, rfl⟩ := Prod.mk.inj (Option.some.inj hfrom)
    exact (h.passedContract_passesOn hcontracts (hp ▸ .sort keys) hname).passed hcheck (by rw [hp]; rfl)
  | project fields =>
    rw [hp] at hfrom
    obtain ⟨rfl, rfl⟩ := Prod.mk.inj (Option.some.inj hfrom)
    exact (h.passedContract_passesOn hcontracts (hp ▸ .project fields) hname).passed hcheck (by rw [hp]; rfl)
  | aggregate params =>
    rw [hp, passedFrom] at hfrom
    split at hfrom
    · cases hfrom
    rename_i hnot
    obtain ⟨rfl, rfl⟩ := Prod.mk.inj (Option.some.inj hfrom)
    exact (h.passedContract_aggregate hcontracts hp hname (contains_false hnot)).passed hcheck (by rw [hp]; rfl)
  | pivot params =>
    rw [hp, passedFrom] at hfrom
    split at hfrom
    · cases hfrom
    rename_i hnot
    obtain ⟨rfl, rfl⟩ := Prod.mk.inj (Option.some.inj hfrom)
    exact (h.passedContract_pivot hcontracts hp hname (contains_false hnot)).passed hcheck (by rw [hp]; rfl)
  | derive expressions =>
    rw [hp, passedFrom] at hfrom
    split at hfrom
    · cases hfrom
    rename_i hnot
    obtain ⟨rfl, rfl⟩ := Prod.mk.inj (Option.some.inj hfrom)
    exact (h.passedContract_derive hcontracts hp hname (contains_false hnot)).passed hcheck (by rw [hp]; rfl)
  | join params => exact h.passed_join hp houtput hfrom

/-- A column that a PIVOT makes may be null, and is of the type of its aggregate. -/
theorem Checked.pivoted (h : Checked calendar done node parents) {params : PivotParams} (hparams : node.params = .pivot params)
    {output : OutputField} (houtput : output ∈ node.outputs) (hcomputed : params.expectedColumns.contains output.name = true) :
    ∃ parent source, parents = [parent] ∧ source ∈ parent.outputs ∧ source.name = params.value ∧
      aggregationOutputType params.aggregation source.dataType = .ok output.dataType ∧ output.nullable = true := by
  obtain ⟨parent, rfl, -, -, -, hnames, hnodup⟩ := h.pivot hparams
  obtain ⟨contracts, hcontracts, hchecks⟩ := h.contracts
  simp only [expectedOutputContracts, hparams, List.map_cons, nth_cons_zero, bind_eq_ok, pure_eq_ok, Except.ok.injEq] at hcontracts
  obtain ⟨_, rfl, source, hsource, type, htype, index, hindex, rfl⟩ := hcontracts
  obtain ⟨hmem, hname⟩ := Outputs.mem_of_get hsource
  -- index columns have other names
  have hnot : index.lookup output.name = none := by
    have hkeys : index.map (·.1) = params.index.map id := by
      refine keys_of_mapM hindex fun field entry hentry => ?_
      simp only [bind_eq_ok, pure_eq_ok] at hentry
      obtain ⟨_, -, rfl⟩ := hentry
      rfl
    rw [← Option.not_isSome_iff_eq_none, Dict.lookup_isSome, hkeys, List.map_id]
    rw [hnames] at hnodup
    exact fun hmem => List.disjoint_of_nodup_append hnodup hmem (List.contains_iff_mem.mp hcomputed)
  have hlookup : (index ++ params.expectedColumns.map fun field => (field, (type, true))).lookup output.name = some (type, true) := by
    rw [List.lookup_append, hnot, Option.none_or]
    have hmem : output.name ∈ (params.expectedColumns.map fun field => (field, (type, true))).map (·.1) := by
      rw [List.map_map]
      simpa using hcomputed
    obtain ⟨contract, hcontract⟩ := exists_lookup hmem
    obtain ⟨field, -, heq⟩ := List.mem_map.mp (mem_of_lookup hcontract)
    rw [hcontract, (Prod.mk.inj heq).2]
  have hcontract := checkContract_eq_ok (hchecks output houtput) hlookup
  have htypes : output.dataType = type := congrArg Prod.fst hcontract
  exact ⟨parent, source, rfl, hmem, hname, htypes ▸ htype, congrArg Prod.snd hcontract⟩

/-- A derived column is declared as its expression is inferred. -/
theorem Checked.derived (h : Checked calendar done node parents) {expressions : List DeriveExpression}
    (hparams : node.params = .derive expressions) {output : OutputField} (houtput : output ∈ node.outputs) {expression : DeriveExpression}
    (hexpression : expression ∈ expressions) (hname : expression.name = output.name) :
    ∃ parent, parents = [parent] ∧ deriveOutputType node.id expression parent.outputs = .ok output.dataType ∧
      deriveOutputNullable expression parent.outputs = .ok output.nullable := by
  obtain ⟨parent, rfl, -, -, hdistinct, hnew⟩ := h.derive hparams
  obtain ⟨contracts, hcontracts, hchecks⟩ := h.contracts
  simp only [expectedOutputContracts, hparams, List.map_cons, nth_cons_zero, bind_eq_ok, pure_eq_ok, Except.ok.injEq] at hcontracts
  obtain ⟨_, rfl, derived, hderived, rfl⟩ := hcontracts
  have hkeys : derived.map (·.1) = expressions.map (·.name) := by
    refine keys_of_mapM hderived fun expression entry hentry => ?_
    simp only [bind_eq_ok, pure_eq_ok] at hentry
    obtain ⟨_, -, _, -, rfl⟩ := hentry
    rfl
  have hcomputed : output.name ∈ expressions.map (·.name) := hname ▸ List.mem_map_of_mem hexpression
  obtain ⟨contract, hlookup⟩ := exists_lookup (hkeys ▸ hcomputed)
  obtain ⟨other, hother, hmade⟩ := lookup_of_mapM hderived hlookup
  simp only [bind_eq_ok, pure_eq_ok, Prod.mk.injEq] at hmade
  obtain ⟨type, htype, nullable, hnullable, hothername, rfl⟩ := hmade
  obtain rfl : other = expression := List.inj_on_of_nodup_map hdistinct hother hexpression (hothername.trans hname.symm)
  have hnot : (List.map (fun output => (output.name, output.contract)) parent.outputs).lookup output.name = none := by
    rw [← Option.not_isSome_iff_eq_none, Dict.lookup_isSome, List.map_map]
    exact fun hold => hnew output.name hold hcomputed
  have hcontract := checkContract_eq_ok (hchecks output houtput) (by rw [List.lookup_append, hnot, Option.none_or, hlookup])
  have htypes : output.dataType = type := congrArg Prod.fst hcontract
  have hnullables : output.nullable = nullable := congrArg Prod.snd hcontract
  exact ⟨parent, rfl, htypes ▸ htype, hnullables ▸ hnullable⟩

end

/-! ## What the rows hold -/

theorem mem_groups {keys : List String} {rows group : List Row} (h : group ∈ groups keys rows) :
    (∀ row ∈ group, row ∈ rows) ∧ (keys ≠ [] → group ≠ []) := by
  unfold groups at h
  split at h
  · rename_i hempty
    obtain rfl := List.mem_singleton.mp h
    exact ⟨fun row hrow => hrow, fun hkeys => (hkeys (List.isEmpty_iff.mp hempty)).elim⟩
  · obtain ⟨key, hkey, rfl⟩ := List.mem_map.mp h
    refine ⟨fun row hrow => (List.mem_filter.mp hrow).1, fun _ => ?_⟩
    obtain ⟨row, hrow, rfl⟩ := List.mem_map.mp (List.mem_dedup.mp hkey)
    exact List.ne_nil_of_mem (List.mem_filter.mpr ⟨hrow, by simp⟩)

/-- The cell of a key is one of the rows'. -/
theorem keyCell_mem {keys : List String} {rows group : List Row} (h : group ∈ groups keys rows) {field : String} (hfield : field ∈ keys) :
    ∃ row ∈ rows, keyCell group field = row field := by
  obtain ⟨hsub, hne⟩ := mem_groups h
  obtain ⟨row, rest, rfl⟩ := List.exists_cons_of_ne_nil (hne (List.ne_nil_of_mem hfield))
  exact ⟨row, hsub row List.mem_cons_self, rfl⟩

theorem find?_name_none {α : Type} {xs : List α} {key : α → String} {name : String} (h : name ∉ xs.map key) :
    xs.find? (key · == name) = none := by
  refine List.find?_eq_none.mpr fun x hx heq => h ?_
  obtain rfl : key x = name := by simpa using heq
  exact List.mem_map_of_mem hx

/-- The rows of a join: of two that match, or of one whose side the join keeps. -/
theorem mem_joinRows {params : JoinParams} {ls rs : List Row} {row : Row} (h : row ∈ joinRows params ls rs) :
    (∃ l ∈ ls, ∃ r ∈ rs, matched params l r = true ∧ row = joinRow params (some l) (some r)) ∨
      (∃ l ∈ ls, params.kind.keepsUnmatched .left = true ∧ row = joinRow params (some l) none) ∨
        ∃ r ∈ rs, params.kind.keepsUnmatched .right = true ∧ row = joinRow params none (some r) := by
  simp only [joinRows, List.mem_append, List.mem_flatMap, List.mem_map, List.mem_filter] at h
  rcases h with (⟨l, hl, r, ⟨hr, hmatch⟩, rfl⟩ | ⟨l, hl, rfl⟩) | ⟨r, hr, rfl⟩
  · exact .inl ⟨l, hl, r, hr, hmatch, rfl⟩
  · split at hl
    · rename_i hkeeps
      exact .inr (.inl ⟨l, (List.mem_filter.mp hl).1, hkeeps, rfl⟩)
    · cases hl
  · split at hr
    · rename_i hkeeps
      exact .inr (.inr ⟨r, (List.mem_filter.mp hr).1, hkeeps, rfl⟩)
    · cases hr

/-- A join that keeps the rows of one side pads the other. -/
theorem pads_of_keepsUnmatched {kind : JoinKind} :
    (kind.keepsUnmatched .left = true → kind.pads .right = true) ∧ (kind.keepsUnmatched .right = true → kind.pads .left = true) := by
  cases kind <;> decide

section

variable {calendar : Calendar} {done : List SQGNode} {node : SQGNode} {parents : List SQGNode}
  {engine : Engine} {ontology : Ontology} {data : Data}

/-- An output that is a column of an input holds a cell of that column, or padding. -/
theorem evaluateNode_passed (h : Checked calendar done node parents) {name : String} (hname : name ∈ node.outputNames) {i : Nat}
    {column : String} (hfrom : passedFrom node.params name = some (i, column)) {inputs : List (List Row)} {row : Row}
    (hrow : row ∈ evaluateNode engine ontology data node inputs) :
    (∃ rows, inputs[i]? = some rows ∧ ∃ r ∈ rows, row name = r column) ∨ row name = .pad ∧ padsInput node.params i = true := by
  cases hp : node.params with
  | select entity fields =>
    rw [hp] at hfrom
    cases hfrom
  | filter predicate =>
    rw [hp] at hfrom
    obtain ⟨rfl, rfl⟩ := Prod.mk.inj (Option.some.inj hfrom)
    obtain ⟨rows, rfl, hmem⟩ : ∃ rows, inputs = [rows] ∧ row ∈ rows := by
      rcases inputs with _ | ⟨rows, _ | _⟩ <;> simp only [evaluateNode, hp, List.not_mem_nil, List.mem_filter] at hrow
      exact ⟨rows, rfl, hrow.1⟩
    exact .inl ⟨rows, rfl, row, hmem, rfl⟩
  | sort keys =>
    rw [hp] at hfrom
    obtain ⟨rfl, rfl⟩ := Prod.mk.inj (Option.some.inj hfrom)
    obtain ⟨rows, rfl, hmem⟩ : ∃ rows, inputs = [rows] ∧ row ∈ rows := by
      rcases inputs with _ | ⟨rows, _ | _⟩ <;> simp only [evaluateNode, hp, List.not_mem_nil, sorted, List.mem_mergeSort] at hrow
      exact ⟨rows, rfl, hrow⟩
    exact .inl ⟨rows, rfl, row, hmem, rfl⟩
  | project fields =>
    rw [hp] at hfrom
    obtain ⟨rfl, rfl⟩ := Prod.mk.inj (Option.some.inj hfrom)
    obtain ⟨rows, rfl, hmem⟩ : ∃ rows, inputs = [rows] ∧ row ∈ rows := by
      rcases inputs with _ | ⟨rows, _ | _⟩ <;> simp only [evaluateNode, hp, List.not_mem_nil] at hrow
      exact ⟨rows, rfl, hrow⟩
    exact .inl ⟨rows, rfl, row, hmem, rfl⟩
  | aggregate params =>
    obtain ⟨parent, -, -, -, hnames, -⟩ := h.aggregate hp
    rw [hp, passedFrom] at hfrom
    split at hfrom
    · cases hfrom
    rename_i hnot
    obtain ⟨rfl, rfl⟩ := Prod.mk.inj (Option.some.inj hfrom)
    rw [hnames, List.mem_append] at hname
    have hkey := hname.resolve_right (contains_false hnot)
    obtain ⟨rows, rfl, group, hgroup, rfl⟩ : ∃ rows, inputs = [rows] ∧ ∃ group ∈ groups params.groupBy rows,
        aggregateRow ontology params group = row := by
      rcases inputs with _ | ⟨rows, _ | _⟩ <;> simp only [evaluateNode, hp, List.not_mem_nil, List.mem_map] at hrow
      exact ⟨rows, rfl, hrow⟩
    obtain ⟨r, hr, hcell⟩ := keyCell_mem hgroup hkey
    refine .inl ⟨rows, rfl, r, hr, ?_⟩
    rw [← hcell, aggregateRow, find?_name_none (contains_false hnot)]
  | pivot params =>
    obtain ⟨parent, -, -, -, -, hnames, -⟩ := h.pivot hp
    rw [hp, passedFrom] at hfrom
    split at hfrom
    · cases hfrom
    rename_i hnot
    obtain ⟨rfl, rfl⟩ := Prod.mk.inj (Option.some.inj hfrom)
    rw [hnames, List.mem_append] at hname
    have hkey := hname.resolve_right (contains_false hnot)
    obtain ⟨rows, rfl, group, hgroup, rfl⟩ : ∃ rows, inputs = [rows] ∧ ∃ group ∈ groups params.index rows,
        pivotRow engine params group = row := by
      rcases inputs with _ | ⟨rows, _ | _⟩ <;> simp only [evaluateNode, hp, List.not_mem_nil, List.mem_map] at hrow
      exact ⟨rows, rfl, hrow⟩
    obtain ⟨r, hr, hcell⟩ := keyCell_mem hgroup hkey
    refine .inl ⟨rows, rfl, r, hr, ?_⟩
    rw [← hcell, pivotRow, if_neg hnot]
  | derive expressions =>
    rw [hp, passedFrom] at hfrom
    split at hfrom
    · cases hfrom
    rename_i hnot
    obtain ⟨rfl, rfl⟩ := Prod.mk.inj (Option.some.inj hfrom)
    obtain ⟨rows, rfl, r, hr, rfl⟩ : ∃ rows, inputs = [rows] ∧ ∃ r ∈ rows, deriveRow engine expressions r = row := by
      rcases inputs with _ | ⟨rows, _ | _⟩ <;> simp only [evaluateNode, hp, List.not_mem_nil, List.mem_map] at hrow
      exact ⟨rows, rfl, hrow⟩
    refine .inl ⟨rows, rfl, r, hr, ?_⟩
    rw [deriveRow, find?_name_none (contains_false hnot)]
  | join params =>
    rw [hp, passedFrom, Option.map_eq_some_iff] at hfrom
    obtain ⟨projection, hprojection, heq⟩ := hfrom
    obtain ⟨rfl, rfl⟩ := Prod.mk.inj heq
    obtain ⟨ls, rs, rfl, hjoined⟩ : ∃ ls rs, inputs = [ls, rs] ∧ row ∈ joinRows params ls rs := by
      rcases inputs with _ | ⟨ls, _ | ⟨rs, _ | _⟩⟩ <;> simp only [evaluateNode, hp, List.not_mem_nil] at hrow
      exact ⟨ls, rs, rfl, hrow⟩
    rcases mem_joinRows hjoined with ⟨l, hl, r, hr, -, rfl⟩ | ⟨l, hl, hkeeps, rfl⟩ | ⟨r, hr, hkeeps, rfl⟩ <;>
      cases hside : projection.source
    · exact .inl ⟨ls, rfl, l, hl, by simp [joinRow, hprojection, hside]⟩
    · exact .inl ⟨rs, rfl, r, hr, by simp [joinRow, hprojection, hside]⟩
    · exact .inl ⟨ls, rfl, l, hl, by simp [joinRow, hprojection, hside]⟩
    · exact .inr ⟨by simp [joinRow, hprojection, hside], pads_of_keepsUnmatched.1 hkeeps⟩
    · exact .inr ⟨by simp [joinRow, hprojection, hside], pads_of_keepsUnmatched.2 hkeeps⟩
    · exact .inl ⟨rs, rfl, r, hr, by simp [joinRow, hprojection, hside]⟩

end

/-! ## The rows of a graph's nodes -/

section

variable (engine : Engine) (ontology : Ontology) (data : Data)

theorem evaluate_append (nodes : List SQGNode) (node : SQGNode) : evaluate engine ontology data (nodes ++ [node]) =
    (node.id, evaluateNode engine ontology data node (node.inputs.map (rowsOf engine ontology data nodes))) ::
      evaluate engine ontology data nodes := by
  rw [evaluate, List.foldl_append]
  rfl

/-- The rows of a node stay what they were, whatever follows. -/
theorem rowsOf_append {before : List SQGNode} {id : String} (hid : id ∈ before.map (·.id)) (after : List SQGNode)
    (hnodup : ((before ++ after).map (·.id)).Nodup) :
    rowsOf engine ontology data (before ++ after) id = rowsOf engine ontology data before id := by
  induction after using List.reverseRecOn with
  | nil => rw [List.append_nil]
  | append_singleton after node ih =>
    rw [← List.append_assoc, List.map_append] at hnodup
    have hne : id ≠ node.id := by
      rintro rfl
      refine (List.disjoint_of_nodup_append hnodup) ?_ List.mem_cons_self
      rw [List.map_append]
      exact List.mem_append_left _ hid
    rw [← ih hnodup.of_append_left, ← List.append_assoc, rowsOf, evaluate_append, lookup_cons_ne hne]
    rfl

/-- The rows of a node, from those of its inputs. -/
theorem rowsOf_node {nodes before after : List SQGNode} {node : SQGNode} (hnodes : nodes = before ++ node :: after)
    (hnodup : (nodes.map (·.id)).Nodup) (hinputs : ∀ id ∈ node.inputs, id ∈ before.map (·.id)) :
    rowsOf engine ontology data nodes node.id =
      evaluateNode engine ontology data node (node.inputs.map (rowsOf engine ontology data nodes)) := by
  have hkept : ∀ id ∈ node.inputs, rowsOf engine ontology data nodes id = rowsOf engine ontology data before id := by
    intro id hid
    rw [hnodes] at hnodup ⊢
    exact rowsOf_append engine ontology data (hinputs id hid) _ hnodup
  rw [List.map_congr_left hkept]
  rw [hnodes, List.append_cons] at hnodup ⊢
  rw [rowsOf_append engine ontology data (by simp) _ hnodup, rowsOf, evaluate_append]
  simp

end

end DataNexus.SemanticCore
