/-
  DataNexus.Plugins.ScannedTables — what a scan of a supported fragment returns.

  - `collect_spec`: the loop over the batches keeps what the limit leaves, within the limits,
    unless it comes to a batch that cannot be read.
  - `readBatches_spec`: so a merged plan reads the table of its operations.
  - `scan_denotes`: a scan returns the fragment's table, or fails with FILE_LIMIT, just
    where the table or its batches are too large; or it raises what Arrow refused.
    `preciseAmount_refused` is a literal the predicate check lets through.
-/

import DataNexus.Plugins.FileScan

namespace DataNexus.Plugins

open DataNexus.Lib DataNexus.Runtime

/-! ## The loop over the batches -/

section

variable {V : Type}

/-- The batches a scan keeps of those it is given, with how many rows of each. -/
def keptBatches : Option Nat → List (List (List V)) → List (List (List V) × Nat)
  | _, [] => []
  | none, batch :: batches => (batch, batch.length) :: keptBatches none batches
  | some n, batch :: batches =>
    (batch, min n batch.length) :: if n ≤ batch.length then [] else keptBatches (some (n - batch.length)) batches

def keptRows (kept : List (List (List V) × Nat)) : List (List V) := kept.flatMap fun p => p.1.take p.2

def retainedBytes (scanner : Scanner V) (kept : List (List (List V) × Nat)) : Nat :=
  (kept.map fun p => scanner.retained p.1 p.2).sum

theorem keptRows_keptBatches (limit : Option Nat) (batches : List (List (List V))) :
    keptRows (keptBatches limit batches) = limited limit batches.flatten := by
  induction batches generalizing limit with
  | nil => cases limit <;> simp [keptBatches, keptRows, limited]
  | cons batch batches ih =>
    cases limit with
    | none =>
      have hrest := ih none
      simp only [keptRows, limited] at hrest
      simp only [keptBatches, keptRows, limited, List.flatMap_cons, List.flatten_cons, List.take_length, hrest]
    | some n =>
      simp only [keptBatches, keptRows, limited, List.flatMap_cons, List.flatten_cons, List.take_append]
      have hfirst : batch.take (min n batch.length) = batch.take n := by
        rw [List.take_eq_take_iff]
        omega
      rw [hfirst]
      congr 1
      split
      · rename_i hle
        rw [Nat.sub_eq_zero_of_le hle]
        rfl
      · exact ih (some (n - batch.length))

theorem length_keptRows_cons {batch : List (List V)} {n : Nat} (hn : n ≤ batch.length) (kept : List (List (List V) × Nat)) :
    (keptRows ((batch, n) :: kept)).length = n + (keptRows kept).length := by
  simp [keptRows, hn]

variable (scanner : Scanner V) (limits : Limits)

theorem retainedBytes_cons (batch : List (List V)) (n : Nat) (kept : List (List (List V) × Nat)) :
    retainedBytes scanner ((batch, n) :: kept) = scanner.retained batch n + retainedBytes scanner kept := by
  simp [retainedBytes]

section

variable {α : Type} (read : α → Except String (List (List V))) (yielded : α → List (List V)) (damage : Option String)

/-- What the loop does with what is left of the limit: it keeps what it should of the batches,
    or comes to one that cannot be read. -/
def Collects (limit : Option Nat) (inputs : List α) (rows size : Nat) (collected : List (List (List V))) : Prop :=
  let kept := keptBatches (limit.map (· - rows)) (inputs.map yielded)
  collect scanner limits limit (inputs.map read ++ (damage.map .error).toList) rows size collected =
      (if rows + (keptRows kept).length > limits.maxRows ∨ size + retainedBytes scanner kept > limits.maxBytes then
        .error fileLimit
      else .ok (collected ++ kept.map fun p => p.1.take p.2)) ∨
    ∃ message, ((∃ a ∈ inputs, read a = .error message) ∨ damage = some message) ∧
      collect scanner limits limit (inputs.map read ++ (damage.map .error).toList) rows size collected =
        .error (.arrow message)

variable {read yielded damage} {input : α} {inputs : List α} {rows size : Nat} {collected : List (List (List V))}

theorem refusal_cons {message : String} (h : (∃ a ∈ inputs, read a = .error message) ∨ damage = some message) :
    (∃ a ∈ input :: inputs, read a = .error message) ∨ damage = some message :=
  h.imp_left fun ⟨a, ha, herror⟩ => ⟨a, List.mem_cons_of_mem _ ha, herror⟩

theorem collects_nil (limit : Option Nat) (hrows : rows ≤ limits.maxRows) (hsize : size ≤ limits.maxBytes) :
    Collects scanner limits read yielded damage limit [] rows size collected := by
  unfold Collects
  intro kept
  cases damage with
  | some message => exact .inr ⟨message, .inr rfl, rfl⟩
  | none =>
    refine .inl ?_
    have hnone : kept = [] := by
      cases limit <;> rfl
    rw [hnone, if_neg (by simp [keptRows, retainedBytes, hrows, hsize])]
    simp [collect]

theorem collects_refused (limit : Option Nat) {message : String} (herror : read input = .error message) :
    Collects scanner limits read yielded damage limit (input :: inputs) rows size collected := by
  refine .inr ⟨message, .inl ⟨input, List.mem_cons_self, herror⟩, ?_⟩
  rw [List.map_cons, herror]
  rfl

/-- Without a limit a batch is kept whole. -/
theorem collects_whole (hok : read input = .ok (yielded input))
    (hrest : ∀ rows size collected, rows ≤ limits.maxRows → size ≤ limits.maxBytes →
      Collects scanner limits read yielded damage none inputs rows size collected) :
    Collects scanner limits read yielded damage none (input :: inputs) rows size collected := by
  unfold Collects
  intro kept
  rw [List.map_cons, List.cons_append, hok]
  set batch := yielded input with hbatch
  have hkept : kept = (batch, batch.length) :: keptBatches none (inputs.map yielded) := rfl
  rw [hkept, length_keptRows_cons (le_refl _), retainedBytes_cons, List.map_cons, List.take_length, collect]
  simp only [reduceCtorEq, if_false]
  by_cases hexceeds : rows + batch.length > limits.maxRows ∨ size + scanner.retained batch batch.length > limits.maxBytes
  · exact .inl (by rw [if_pos hexceeds, if_pos (by omega)])
  · rw [if_neg hexceeds]
    rcases hrest (rows + batch.length) (size + scanner.retained batch batch.length) (collected ++ [batch]) (by omega) (by omega) with
      hrest | ⟨message, hwhere, hrest⟩
    · refine .inl (hrest.trans ?_)
      simp only [Option.map_none, Nat.add_assoc, List.append_assoc, List.singleton_append]
    · exact .inr ⟨message, refusal_cons hwhere, hrest⟩

/-- With a limit a batch is cut to what is left of it, and the last one ends the loop. -/
theorem collects_cut {n : Nat} (hok : read input = .ok (yielded input)) (hlt : rows < n)
    (hrest : ∀ rows size collected, rows < n → rows ≤ limits.maxRows → size ≤ limits.maxBytes →
      Collects scanner limits read yielded damage (some n) inputs rows size collected) :
    Collects scanner limits read yielded damage (some n) (input :: inputs) rows size collected := by
  unfold Collects
  intro kept
  rw [List.map_cons, List.cons_append, hok]
  set batch := yielded input with hbatch
  set k := min (n - rows) batch.length with hk
  have hlength : (batch.take (n - rows)).length = k := List.length_take
  have hfits : k ≤ batch.length := Nat.min_le_right _ _
  have hslice : batch.take k = batch.take (n - rows) := by
    rw [List.take_eq_take_iff]
    omega
  have hkept : kept = (batch, k) :: if n - rows ≤ batch.length then [] else
      keptBatches (some (n - rows - batch.length)) (inputs.map yielded) := rfl
  rw [hkept, length_keptRows_cons hfits, retainedBytes_cons, List.map_cons, hslice, collect]
  simp only [hlength, Option.some.injEq]
  by_cases hexceeds : rows + k > limits.maxRows ∨ size + scanner.retained batch k > limits.maxBytes
  · exact .inl (by rw [if_pos hexceeds, if_pos (by omega)])
  rw [if_neg hexceeds]
  by_cases hend : n - rows ≤ batch.length
  · -- The limit is reached in this batch.
    refine .inl ?_
    rw [if_pos hend, if_pos (by omega), if_neg]
    · simp
    · simp [keptRows, retainedBytes]
      omega
  · rw [if_neg hend, if_neg (by omega)]
    have hleft : n - (rows + k) = n - rows - batch.length := by omega
    rcases hrest (rows + k) (size + scanner.retained batch k) (collected ++ [batch.take (n - rows)]) (by omega) (by omega)
      (by omega) with hrest | ⟨message, hwhere, hrest⟩
    · refine .inl (hrest.trans ?_)
      simp only [Option.map_some, hleft, Nat.add_assoc, List.append_assoc, List.singleton_append]
    · exact .inr ⟨message, refusal_cons hwhere, hrest⟩

theorem collect_spec (hread : ∀ a, read a = .ok (yielded a) ∨ ∃ message, read a = .error message) (limit : Option Nat)
    (inputs : List α) (damage : Option String) (rows size : Nat) (collected : List (List (List V)))
    (hlimit : ∀ n, limit = some n → rows < n) (hrows : rows ≤ limits.maxRows) (hsize : size ≤ limits.maxBytes) :
    Collects scanner limits read yielded damage limit inputs rows size collected := by
  induction inputs generalizing rows size collected with
  | nil => exact collects_nil scanner limits limit hrows hsize
  | cons input inputs ih =>
    rcases hread input with hok | ⟨message, herror⟩
    swap
    · exact collects_refused scanner limits limit herror
    cases limit with
    | none => exact collects_whole scanner limits hok fun rows size collected => ih rows size collected (by simp)
    | some n =>
      refine collects_cut scanner limits hok (hlimit n rfl) fun rows size collected hlt => ih rows size collected fun m hm => ?_
      exact Option.some.inj hm ▸ hlt

end

/-! ## A batch -/

section

variable (A : ArrowKernel V) (predicate : Option (DsExpression V))

theorem filterBatch_spec (batch : List (String → V)) :
    filterBatch A predicate batch = .ok (batch.filter (keptBy A predicate)) ∨
      ∃ message, filterBatch A predicate batch = .error message ∧ ∃ row ∈ batch, filterValue A predicate row = .error message := by
  induction batch with
  | nil => exact .inl rfl
  | cons row batch ih =>
    rw [filterBatch]
    cases hvalue : filterValue A predicate row with
    | error message => exact .inr ⟨message, rfl, row, List.mem_cons_self, hvalue⟩
    | ok value =>
      rcases ih with hrest | ⟨message, hrest, bad, hmem, hbad⟩
      · refine .inl ?_
        rw [hrest, List.filter_cons]
        simp only [keptBy, hvalue, ArrowKernel.holds, bind, Except.bind, pure, Except.pure, decide_eq_true_eq]
      · refine .inr ⟨message, ?_, bad, List.mem_cons_of_mem _ hmem, hbad⟩
        rw [hrest]
        rfl

theorem readBatch_spec (projection : List String) (batch : List (String → V)) :
    readBatch A predicate projection batch = .ok ((batch.filter (keptBy A predicate)).map projection.map) ∨
      ∃ message, readBatch A predicate projection batch = .error message ∧
        ∃ row ∈ batch, filterValue A predicate row = .error message := by
  rw [readBatch]
  rcases filterBatch_spec A predicate batch with hok | ⟨message, herror, hrow⟩
  · rw [hok]
    exact .inl rfl
  · rw [herror]
    exact .inr ⟨message, rfl, hrow⟩

end

/-! ## A scan returns the fragment's table -/

variable (A : ArrowKernel V) (lib : ScalarParsers) (schema : Schema)

theorem accepted_of_supported {fragment : SourceFragment} (hsupported : fileSupportsFragment fragment = .ok true)
    (hfilters : ∀ operation ∈ fragment.operations.tail, ∀ expression, operation.predicate = some expression →
      validatePredicate lib expression schema = .ok ()) :
    Accepted lib schema fragment.operations.tail ∧ stagesAccept 0 fragment.operations.tail = true := by
  obtain ⟨supported, hbase, hstages⟩ := bind_eq_ok.mp hsupported
  cases supported with
  | false => cases hstages
  | true =>
    obtain ⟨hshape, hpredicates⟩ := supportsFragment_ok hbase
    refine ⟨⟨fun operation hmem hkind => ?_, fun operation hmem hkind => ?_⟩, pure_eq_ok.mp hstages⟩
    · obtain ⟨expression, hexpression⟩ := validateOperation_filter (validateFragmentShape_mem hshape hmem) hkind
      exact ⟨expression, hexpression, predicatesSupported_mem hpredicates (List.mem_of_mem_tail hmem) hexpression,
        hfilters operation hmem expression hexpression⟩
    · exact validateOperation_limit (validateFragmentShape_mem hshape hmem) hkind

/-- What Arrow refuses before a row is read: a literal of a filter, or the merged filter. -/
inductive RefusedAtOnce (fragment : SourceFragment) (file : FileContent V) (message : String) : Prop
  | literal {expression : TypedExpression} (hfilter : IsFilter fragment.operations.tail expression)
      (h : LiteralRefused A message expression)
  | filter {plan : ScanPlan V} {predicate : DsExpression V}
      (hplan : planFrom A lib schema { projection := schema.columnNames } fragment.operations.tail = .ok plan)
      (hpredicate : plan.predicate = some predicate)
      (h : scanner.bind (scanSchema schema plan file.format) predicate = .error message)

/-- What it refuses while it reads: a filter at a row, or what is left of the file. -/
inductive RefusedReading (fragment : SourceFragment) (file : FileContent V) (message : String) : Prop
  | row {row : String → V} {expression : TypedExpression} (hrow : row ∈ file.rows)
      (hfilter : IsFilter fragment.operations.tail expression) (h : A.denote row expression = .error message)
  | rest (h : file.damage = some message)

theorem planned_start (rows : List (String → V)) :
    Planned A schema rows { projection := schema.columnNames } ⟨schema.columnNames, rows⟩ ⟨schema.columnNames, rows⟩ where
  wholeColumns := rfl
  columns := rfl
  wholeRows := by
    have hall : ∀ row ∈ rows, keptBy A none row = true := fun row _ => by
      simp [keptBy, filterValue, ArrowKernel.holds, A.truth_ofTruth]
    exact (List.filter_eq_self.mpr hall).symm
  rows := rfl
  unlimited := fun _ => rfl
  known := fun c hc => hc
  collected := by simp

/-- The fields of a plan are all read. -/
theorem bound_read {rows : List (String → V)} {plan : ScanPlan V} {whole table : Table V}
    (h : Planned A schema rows plan whole table) (format : FileFormat) :
    ((plan.predicate.elim [] DsExpression.fields ++ plan.projection).all fun c =>
      (scanSchema schema plan format).columnNames.contains c) = true := by
  refine List.all_eq_true.mpr fun c hc => List.contains_iff_mem.mpr ?_
  have hwhere : c ∈ schema.columnNames ∧ (plan.projection.contains c || plan.filterColumns.contains c) = true := by
    rcases List.mem_append.mp hc with hc | hc
    · obtain ⟨hcollected, hknown⟩ := h.collected c hc
      exact ⟨hknown, by simp [hcollected]⟩
    · exact ⟨h.known c hc, by simp [hc]⟩
  cases format with
  | csv => exact hwhere.1
  | parquet =>
    obtain ⟨field, hfield, rfl⟩ := List.mem_map.mp hwhere.1
    exact List.mem_map.mpr ⟨field, List.mem_filter.mpr ⟨hfield, hwhere.2⟩, rfl⟩

theorem scan_refused {fragment : SourceFragment} (file : FileContent V) {message : String}
    (h : planFrom A lib schema { projection := schema.columnNames } fragment.operations.tail = .error (.arrow message)) :
    scan A scanner limits lib schema fragment file = .error (.arrow message) := by
  simp only [scan, h, bind, Except.bind]

/-- A scan whose plan is made is what its scanner says of the filter, and then what it reads. -/
theorem scan_of_plan {fragment : SourceFragment} {file : FileContent V} {plan : ScanPlan V} {whole table : Table V}
    (hschema : file.schema = schema)
    (hplan : planFrom A lib schema { projection := schema.columnNames } fragment.operations.tail = .ok plan)
    (hplanned : Planned A schema file.rows plan whole table) :
    scan A scanner limits lib schema fragment file =
      (plan.predicate.elim (.ok ()) fun predicate =>
        (scanner.bind (scanSchema schema plan file.format) predicate).mapError .arrow).bind fun _ =>
          readBatches A scanner limits plan file := by
  have hdrift : (file.schema != schema) = false := by simp [hschema]
  simp only [scan, hplan, hdrift, refuseIf, bindScanner, bind, Except.bind]
  rw [bound_read A schema hplanned]
  cases plan.predicate <;> rfl

/-- The batches a plan's scanner yields, in terms of the operations. -/
theorem yielded_eq {operations : List OperatorSpec} {plan : ScanPlan V}
    (hmerges : Merges A schema operations { projection := schema.columnNames } plan) (rows : List (String → V)) :
    (performAll A (unlimited operations) ⟨schema.columnNames, rows⟩).cells =
      (rows.filter (keptBy A plan.predicate)).map plan.projection.map := by
  have hplanned := hmerges.means rows _ _ (planned_start A schema rows)
  rw [Table.cells, hplanned.wholeColumns, hplanned.wholeRows]

/-- The rows kept of the batches are the table's. -/
theorem keptRows_yielded {operations : List OperatorSpec} {plan : ScanPlan V}
    (hmerges : Merges A schema operations { projection := schema.columnNames } plan) (rows : List (String → V)) :
    keptRows (keptBatches plan.limit ((scanner.divide rows).map fun batch =>
        (performAll A (unlimited operations) ⟨schema.columnNames, batch⟩).cells)) =
      (performAll A operations ⟨schema.columnNames, rows⟩).cells := by
  have hplanned := hmerges.means rows _ _ (planned_start A schema rows)
  have hflatten : ((scanner.divide rows).map fun batch =>
      (performAll A (unlimited operations) ⟨schema.columnNames, batch⟩).cells).flatten =
        (rows.filter (keptBy A plan.predicate)).map plan.projection.map := by
    simp only [yielded_eq A schema hmerges]
    conv => rhs; rw [← scanner.flatten_divide rows]
    rw [List.filter_flatten, List.map_flatten, List.map_map]
    rfl
  rw [keptRows_keptBatches, hflatten, Table.cells, hplanned.columns, hplanned.rows, hplanned.wholeRows]
  cases plan.limit with
  | none => rfl
  | some n => exact List.map_take.symm

/-- What a plan's scan reads is the table of the operations, within the limits; or Arrow
    refuses a filter at a row, or the file's rest. -/
theorem readBatches_spec {fragment : SourceFragment} (file : FileContent V) {plan : ScanPlan V}
    (hmerges : Merges A schema fragment.operations.tail { projection := schema.columnNames } plan) :
    let table := performAll A fragment.operations.tail ⟨schema.columnNames, file.rows⟩
    let limit := (limitsOf fragment.operations.tail).min?
    let yielded := (scanner.divide file.rows).map fun batch =>
      (performAll A (unlimited fragment.operations.tail) ⟨schema.columnNames, batch⟩).cells
    let batches := if limit = some 0 then [] else keptBatches limit yielded
    (keptRows batches = table.cells ∧ readBatches A scanner limits plan file =
        if table.cells.length > limits.maxRows ∨ retainedBytes scanner batches > limits.maxBytes then .error fileLimit
        else .ok ⟨table.columns, table.cells⟩) ∨
      ∃ message, readBatches A scanner limits plan file = .error (.arrow message) ∧ RefusedReading A fragment file message := by
  intro table limit yielded batches
  have hlimit : plan.limit = limit := hmerges.limit
  have hcolumns : table.columns = plan.projection :=
    (hmerges.means file.rows _ _ (planned_start A schema file.rows)).columns
  have hcells : keptRows (keptBatches limit yielded) = table.cells := by
    rw [← hlimit]
    exact keptRows_yielded scanner A schema hmerges file.rows
  rw [readBatches, hlimit]
  by_cases hzero : limit = some 0
  · have hnil : batches = [] := if_pos hzero
    have hempty : table.cells = [] := by
      rw [← hcells, hzero, keptRows_keptBatches]
      rfl
    refine .inl ⟨by rw [hnil, hempty]; rfl, ?_⟩
    rw [if_pos hzero, hnil, hempty, if_neg (by simp [retainedBytes]), hcolumns]
  have hall : batches = keptBatches limit yielded := if_neg hzero
  have hmap : limit.map (· - 0) = limit := by
    cases limit <;> rfl
  have hyielded : yielded = (scanner.divide file.rows).map fun batch =>
      (batch.filter (keptBy A plan.predicate)).map plan.projection.map :=
    List.map_congr_left fun batch _ => yielded_eq A schema hmerges batch
  have hspec := readBatch_spec A plan.predicate plan.projection
  rcases collect_spec scanner limits (fun batch => (hspec batch).imp_right fun ⟨message, h, _⟩ => ⟨message, h⟩) limit
    (scanner.divide file.rows) file.damage 0 0 [] (fun n hn => Nat.pos_of_ne_zero fun h => hzero (by rw [hn, h]))
    (Nat.zero_le _) (Nat.zero_le _) with hcollect | ⟨message, hwhere, hcollect⟩
  · rw [hmap, ← hyielded, ← hall, Nat.zero_add, Nat.zero_add, List.nil_append, hall, hcells, ← hall] at hcollect
    refine .inl ⟨by rw [hall, hcells], ?_⟩
    rw [if_neg hzero, scannerBatches, hcollect]
    split
    · rfl
    · have hrows : (batches.map fun p => p.1.take p.2).flatten = table.cells := by
        rw [← hcells, ← hall, keptRows, List.flatMap_def]
      rw [← hrows, hcolumns]
      rfl
  · refine .inr ⟨message, ?_, ?_⟩
    · rw [if_neg hzero, scannerBatches, hcollect]
      rfl
    · rcases hwhere with ⟨batch, hbatch, herror⟩ | hdamage
      · rcases hspec batch with hok | ⟨message', herror', row, hrow, hvalue⟩
        · rw [hok] at herror
          cases herror
        · obtain rfl := Except.error.inj (herror'.symm.trans herror)
          have hfile : row ∈ file.rows := by
            rw [← scanner.flatten_divide file.rows]
            exact List.mem_flatten.mpr ⟨batch, hbatch, hrow⟩
          rcases hmerges.refused row _ hvalue with hnone | ⟨expression, hfilter, hrefused⟩
          · cases hnone
          · exact .row hfile hfilter hrefused
      · exact .rest hdamage

/-- A scan of a supported fragment returns the table of its operations, or fails with
    FILE_LIMIT, just where the table has too many rows or its batches retain too much; or it
    raises what Arrow refused, as it does wherever Arrow refuses a literal or the filter. -/
theorem scan_denotes (fragment : SourceFragment) (file : FileContent V)
    (hsupported : fileSupportsFragment fragment = .ok true)
    (hfilters : ∀ operation ∈ fragment.operations.tail, ∀ expression, operation.predicate = some expression →
      validatePredicate lib expression schema = .ok ())
    (havailable : Available schema.columnNames fragment.operations.tail) (hschema : file.schema = schema) :
    let table := performAll A fragment.operations.tail ⟨schema.columnNames, file.rows⟩
    let limit := (limitsOf fragment.operations.tail).min?
    let yielded := (scanner.divide file.rows).map fun batch =>
      (performAll A (unlimited fragment.operations.tail) ⟨schema.columnNames, batch⟩).cells
    let batches := if limit = some 0 then [] else keptBatches limit yielded
    (keptRows batches = table.cells ∧ scan A scanner limits lib schema fragment file =
          (if table.cells.length > limits.maxRows ∨ retainedBytes scanner batches > limits.maxBytes then .error fileLimit
          else .ok ⟨table.columns, table.cells⟩) ∨
        ∃ message, scan A scanner limits lib schema fragment file = .error (.arrow message) ∧
          (RefusedAtOnce scanner A lib schema fragment file message ∨ RefusedReading A fragment file message)) ∧
      ((∃ message, RefusedAtOnce scanner A lib schema fragment file message) →
        ∃ message, scan A scanner limits lib schema fragment file = .error (.arrow message)) := by
  intro table limit yielded batches
  obtain ⟨haccepted, hstages⟩ := accepted_of_supported lib schema hsupported hfilters
  rcases planFrom_planned (A := A) { projection := schema.columnNames } haccepted hstages havailable with
    ⟨plan, hplan, hmerges⟩ | ⟨message, herror, expression, hfilter, hrefused⟩
  swap
  · have hscan := scan_refused scanner limits A lib schema file herror
    exact ⟨.inr ⟨message, hscan, .inl (.literal hfilter hrefused)⟩, fun _ => ⟨message, hscan⟩⟩
  have hplanned := hmerges.means file.rows _ _ (planned_start A schema file.rows)
  have hscan := scan_of_plan scanner limits A lib schema hschema hplan hplanned
  refine ⟨?_, ?_⟩
  · -- The filter is bound, and the rest is reading.
    by_cases hbinds : ∃ predicate message, plan.predicate = some predicate ∧
        scanner.bind (scanSchema schema plan file.format) predicate = .error message
    · obtain ⟨predicate, message, hpredicate, hbind⟩ := hbinds
      refine .inr ⟨message, ?_, .inl (.filter hplan hpredicate hbind)⟩
      rw [hscan, hpredicate, Option.elim_some, hbind]
      rfl
    · have hread : scan A scanner limits lib schema fragment file = readBatches A scanner limits plan file := by
        rw [hscan]
        cases hpredicate : plan.predicate with
        | none => rfl
        | some predicate =>
          rw [Option.elim_some]
          cases hbind : scanner.bind (scanSchema schema plan file.format) predicate with
          | error message => exact absurd ⟨predicate, message, hpredicate, hbind⟩ hbinds
          | ok => rfl
      rw [hread]
      rcases readBatches_spec scanner limits A schema file hmerges with ⟨hkept, hexact⟩ | ⟨message, herror, hwhere⟩
      · exact .inl ⟨hkept, hexact⟩
      · exact .inr ⟨message, herror, .inr hwhere⟩
  · rintro ⟨message, hrefused⟩
    cases hrefused with
    | literal hfilter h => exact absurd h (hmerges.converted _ hfilter message)
    | filter hplan' hpredicate h =>
      obtain rfl := Except.ok.inj (hplan.symm.trans hplan')
      refine ⟨message, ?_⟩
      rw [hscan, hpredicate, Option.elim_some, h]
      rfl

end

/-! ## A scan of a file of amounts -/

inductive Cell where
  | null
  | int (n : Int)
  | bool (b : Bool)
  deriving DecidableEq

def unrepresentable : String := "Integer value is outside of the range exactly representable by a IEEE 754 double precision value"

/-- Arrow's comparisons of integers; an integer becomes a float only if it is one exactly. -/
def integerKernel : ArrowKernel Cell where
  literal
    | .float, .int n =>
      if n.natAbs ≤ 2 ^ 53 then .ok (.int n)
      else .error unrepresentable
    | _, .int n => .ok (.int n)
    | _, _ => .ok .null
  truth
    | .bool b => some b
    | _ => none
  ofTruth
    | some b => .bool b
    | none => .null
  isNull c := c = .null
  compare
    | .equal, .int a, .int b => .ok (some (a = b))
    | .notEqual, .int a, .int b => .ok (some (a ≠ b))
    | .lessThan, .int a, .int b => .ok (some (a < b))
    | .lessEqual, .int a, .int b => .ok (some (a ≤ b))
    | .greaterThan, .int a, .int b => .ok (some (a > b))
    | .greaterEqual, .int a, .int b => .ok (some (a ≥ b))
    | _, _, _ => .ok none
  truth_ofTruth t := by
    cases t <;> rfl

/-- A scanner that yields its rows at once, eight bytes each. -/
def oneBatch : Scanner Cell where
  divide rows := [rows]
  bind _ _ := .ok ()
  retained _ n := 8 * n
  flatten_divide rows := by simp

def amountSchema : Schema := [⟨"amount", .integer .w64 false, true⟩, ⟨"region", .string, true⟩]

theorem source_isV0 : (none : Option V1Payload).isNone = true → OperatorKind.source.isV0 = true := fun _ => rfl

theorem filter_isV0 : (none : Option V1Payload).isNone = true → OperatorKind.filter.isV0 = true := fun _ => rfl

theorem select_isV0 : (none : Option V1Payload).isNone = true → OperatorKind.select.isV0 = true := fun _ => rfl

theorem limit_isV0 : (none : Option V1Payload).isNone = true → OperatorKind.limit.isV0 = true := fun _ => rfl

def overTen : TypedExpression :=
  .mk .greaterThan .boolean none .null [.mk .column .integer (some "amount") .null [], .mk .literal .integer none (.int 10) []]

/-- The first amount over ten. -/
def largeAmount : SourceFragment where
  source := ⟨"files", "file", "sales"⟩
  operations := [{ kind := .source, legacyOperator := source_isV0 },
    { kind := .filter, legacyOperator := filter_isV0, predicate := some overTen },
    { kind := .select, legacyOperator := select_isV0, columns := ["amount"] },
    { kind := .limit, legacyOperator := limit_isV0, limit := some 1 }]

def amountFile : FileContent Cell where
  format := .parquet
  schema := amountSchema
  rows := [fun _ => .int 5, fun _ => .null, fun _ => .int 20, fun _ => .int 30]

theorem amount_checked : ∀ operation ∈ largeAmount.operations.tail, ∀ expression, operation.predicate = some expression →
    validatePredicate noParsers expression amountSchema = .ok () := by
  intro operation hmem expression hpredicate
  simp only [largeAmount, List.tail_cons, List.mem_cons, List.not_mem_nil, or_false] at hmem
  rcases hmem with rfl | rfl | rfl
  · rw [← Option.some.inj hpredicate]
    rfl
  · cases hpredicate
  · cases hpredicate

theorem amount_filter {expression : TypedExpression} (h : IsFilter largeAmount.operations.tail expression) :
    expression = overTen := by
  obtain ⟨operation, hmem, -, hpredicate⟩ := h
  simp only [largeAmount, List.tail_cons, List.mem_cons, List.not_mem_nil, or_false] at hmem
  rcases hmem with rfl | rfl | rfl
  · exact (Option.some.inj hpredicate).symm
  · cases hpredicate
  · cases hpredicate

theorem amount_scanned :
    scan integerKernel oneBatch ⟨10, 100⟩ noParsers amountSchema largeAmount amountFile = .ok ⟨["amount"], [[.int 20]]⟩ := by
  have havailable : Available amountSchema.columnNames largeAmount.operations.tail := by
    simp [Available, largeAmount, amountSchema, Schema.columnNames]
  obtain ⟨⟨-, hscan⟩ | ⟨message, -, hrefused⟩, -⟩ :=
    scan_denotes oneBatch ⟨10, 100⟩ integerKernel noParsers amountSchema largeAmount amountFile rfl amount_checked havailable rfl
  · exact hscan
  · -- Arrow refuses nothing of this scan.
    exfalso
    rcases hrefused with (⟨hfilter, h⟩ | ⟨-, -, h⟩) | (⟨hrow, hfilter, h⟩ | h)
    · rw [amount_filter hfilter] at h
      obtain ⟨arg, harg, h⟩ := h.of_operator (by decide)
      rcases List.mem_cons.mp harg with rfl | harg
      · obtain ⟨-, hnone, -⟩ | ⟨hkind, -, -⟩ := h
        exact hkind.1 rfl
      · rw [List.mem_singleton.mp harg] at h
        rcases h with h | ⟨hkind, -, -⟩
        · cases h
        · exact hkind.2 rfl
    · cases h
    · rw [amount_filter hfilter] at h
      simp only [amountFile, List.mem_cons, List.not_mem_nil, or_false] at hrow
      rcases hrow with rfl | rfl | rfl | rfl <;> cases h
    · cases h

/-- The amounts of a float column over a number no float is. -/
def preciseAmount : SourceFragment where
  source := ⟨"files", "file", "sales"⟩
  operations := [{ kind := .source, legacyOperator := source_isV0 },
    { kind := .filter, legacyOperator := filter_isV0, predicate := some (.mk .greaterThan .boolean none .null
        [.mk .column .float (some "amount") .null [], .mk .literal .float none (.int (2 ^ 53 + 1)) []]) }]

def floatSchema : Schema := [⟨"amount", .floating 64, true⟩]

/-- The predicate check takes every finite literal, Arrow only what it can represent: the
    scan ends with Arrow's error. -/
theorem preciseAmount_refused :
    fileSupportsFragment preciseAmount = .ok true ∧
      (∀ operation ∈ preciseAmount.operations.tail, ∀ expression, operation.predicate = some expression →
        validatePredicate noParsers expression floatSchema = .ok ()) ∧
      Available floatSchema.columnNames preciseAmount.operations.tail ∧
      scan integerKernel oneBatch ⟨10, 100⟩ noParsers floatSchema preciseAmount ⟨.csv, floatSchema, [], none⟩ =
        .error (.arrow unrepresentable) := by
  refine ⟨by decide, ?_, ?_, by decide +kernel⟩
  · intro operation hmem expression hpredicate
    obtain rfl := List.mem_singleton.mp hmem
    rw [← Option.some.inj hpredicate]
    decide +kernel
  · simp [Available, preciseAmount, floatSchema, Schema.columnNames]

end DataNexus.Plugins
