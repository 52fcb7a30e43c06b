/-
  DataNexus.Runtime.ExtensionStatements — the statements of the v1 operators.
-/

import DataNexus.Runtime.Statements

namespace DataNexus.Runtime

open Lib Lib.QuotedText

/-! ## The operators of v1 -/

section

variable {allowed : String → Prop} {columns : List String} {lib : Libraries} {schema : Schema}

theorem toLower_eq_sigma (c : Char) : c.toLower = Char.ofNat 0x3A3 ↔ c = Char.ofNat 0x3A3 := by
  constructor
  · intro h
    unfold Char.toLower at h
    split at h
    · rename_i hupper
      have hval : c.val + 32 = 931 := congrArg Char.val h
      have hhigh : c.val.toNat ≤ 90 := UInt32.le_iff_toNat_le.mp hupper.2
      have hnat : (c.val.toNat + 32) % 2 ^ 32 = 931 := congrArg UInt32.toNat hval
      omega
    · exact h
  · rintro rfl
    decide

theorem isFinalSigma_fold (tables : CaseTables) (before after : List Char) :
    tables.isFinalSigma (before.map Char.toLower) (after.map Char.toLower) = tables.isFinalSigma before after := by
  have hignorable : (tables.ignorable ∘ Char.toLower) = tables.ignorable := funext fun c => (tables.ascii c).2.2
  have hcased : ∀ o : Option Char, (o.map Char.toLower).any tables.cased = o.any tables.cased := by
    rintro (_ | c)
    · rfl
    · exact (tables.ascii c).2.1
  simp only [CaseTables.isFinalSigma, List.dropWhile_map, List.head?_map, hignorable, hcased]

theorem lowerFrom_fold (tables : CaseTables) (before cs : List Char) :
    tables.lowerFrom (before.map Char.toLower) (cs.map Char.toLower) = tables.lowerFrom before cs := by
  induction cs generalizing before with
  | nil => rfl
  | cons c cs ih =>
    have hrest := ih (c :: before)
    rw [List.map_cons] at hrest
    rw [List.map_cons, CaseTables.lowerFrom, CaseTables.lowerFrom, hrest, isFinalSigma_fold, (tables.ascii c).1]
    by_cases hc : c = Char.ofNat 0x3A3
    · rw [if_pos hc, if_pos ((toLower_eq_sigma c).mpr hc)]
    · rw [if_neg hc, if_neg (mt (toLower_eq_sigma c).mp hc)]

/-- `str.lower` does not tell names apart that differ in the case of A to Z only. -/
theorem lower_normalizeIdentifier (tables : CaseTables) (name : String) :
    tables.lower (normalizeIdentifier name) = tables.lower name := by
  simpa [CaseTables.lower, normalizeIdentifier] using lowerFrom_fold tables [] name.toList

theorem newName_ok {name s : String} (h : newName lib name columns = .ok s) :
    s = quoted name ∧ normalizeIdentifier name ∉ columns.map normalizeIdentifier := by
  simp only [newName, bind_eq_ok, refuseIf_eq_ok] at h
  obtain ⟨_, hnew, hquoted⟩ := h
  refine ⟨(quoteIdentifier_ok hquoted).1, fun hmem => ?_⟩
  obtain ⟨column, hcolumn, heq⟩ := List.mem_map.mp hmem
  have hlower : lib.caseTables.lower column = lib.caseTables.lower name := by
    rw [← lower_normalizeIdentifier lib.caseTables column, heq, lower_normalizeIdentifier]
  have hcontains : (columns.map lib.caseTables.lower).contains (lib.caseTables.lower name) = true := by
    rw [List.contains_iff_mem, ← hlower]
    exact List.mem_map_of_mem hcolumn
  rw [hnew] at hcontains
  cases hcontains

/-- Columns that are apart stay so with a name that is new. -/
theorem apart_concat {ns : List String} {name : String} (h : (ns.map normalizeIdentifier).Nodup)
    (hnew : normalizeIdentifier name ∉ ns.map normalizeIdentifier) :
    ((ns ++ [name]).map normalizeIdentifier).Nodup := by
  rw [List.map_append]
  exact nodup_snoc h hnew

theorem setQuery_builds {kind : OperatorKind} {inputs : List Schema} {built : BuiltQuery}
    (h : setQuery kind inputs = .ok built) : Builds allowed built
      (.select [.plain "SELECT "] [.star columns] [.plain (" FROM input_0 " ++ setText kind ++ " SELECT * FROM input_1")]) := by
  unfold setQuery at h
  split at h
  · simp only [bind_eq_ok, pure_eq_ok] at h
    obtain ⟨_, -, rfl⟩ := h
    have hkind : isBare (setText kind) = true := by
      unfold setText
      split <;> decide
    have hfixed : isFixed (" FROM input_0 " ++ setText kind ++ " SELECT * FROM input_1") = true :=
      isFixed_append (isFixed_append (by decide) hkind) (by decide)
    refine builds_star (closes_fixed hfixed .nil) (by simp) ?_ (by simp)
    -- whatever the operation, it stands between the two sides
    change "SELECT * FROM input_0 " ++ setText kind ++ " SELECT * FROM input_1" = _
    generalize setText kind = operation
    apply String.toList_injective
    simp [Place.text]
  · cases h

theorem distinctQuery_builds {spec : OperatorSpec} (hallowed : ∀ c ∈ columns, allowed c) {built : BuiltQuery}
    (h : distinctQuery columns spec = .ok built) :
    Builds allowed built (.select [.plain "SELECT DISTINCT "]
      (if spec.columns.isEmpty then [.star columns] else spec.columns.map .column) [.plain " FROM input_0"]) ∧
      ∀ c ∈ spec.columns, c ∈ columns := by
  simp only [distinctQuery, bind_eq_ok, pure_eq_ok] at h
  obtain ⟨quotedNames, hnames, rfl⟩ := h
  obtain ⟨rfl, hmem⟩ := quoteAll_ok hnames
  refine ⟨?_, hmem⟩
  by_cases hempty : spec.columns = []
  · refine builds_select ?_ (opens_fixed (by decide)) (closes_fixed (by decide) .nil) (by simp) ?_ ?_
    · intro item hitem
      obtain rfl : item = .star columns := by simpa [hempty] using hitem
      exact ⟨separated_star columns, by simp [SelectItem.star]⟩
    · apply String.toList_injective
      simp [hempty, commaSeparated, itemsPlaces, QuotedText.joined, SelectItem.star, Place.text]
    · simp [hempty, itemsPlaces, QuotedText.joined, SelectItem.star]
  · have hne : commaSeparated (spec.columns.map quoted) ≠ "" := mt (commaSeparated_quoted_eq_empty _).mp hempty
    have hitems : (if spec.columns.isEmpty then [SelectItem.star columns] else spec.columns.map .column) =
        spec.columns.map .column := if_neg (by simpa using hempty)
    rw [hitems]
    have htext : text (itemsPlaces (spec.columns.map SelectItem.column)) = commaSeparated (spec.columns.map quoted) := by
      simp [itemsPlaces, text_joined, commaSeparated, Function.comp_def, SelectItem.column, Place.text]
    refine builds_select ?_ (opens_fixed (by decide)) (closes_fixed (by decide) .nil) (by simp) ?_ ?_
    · intro item hitem
      obtain ⟨c, hc, rfl⟩ := List.mem_map.mp hitem
      refine ⟨separated_column c, fun n hn => ?_⟩
      obtain rfl := List.mem_singleton.mp hn
      exact hallowed n (hmem n hc)
    · simp [hne, htext, Place.text, String.append_assoc]
    · simp [itemsPlaces, literals_joined, SelectItem.column, List.flatMap_map]

theorem joinClauses_ok {right : List String} {keys : List JoinKey} {clauses : List String}
    (h : keys.mapM (joinClause columns right) = .ok clauses) :
    clauses = keys.map (fun key => text (joinClausePlaces key)) ∧ ∀ key ∈ keys, key.left ∈ columns ∧ key.right ∈ right := by
  refine mapM_ok_map (fun key s hs => ?_) h
  simp only [joinClause, bind_eq_ok, pure_eq_ok] at hs
  obtain ⟨_, hleft, _, hright, rfl⟩ := hs
  obtain ⟨rfl, hleftMem⟩ := quoteIdentifier_ok hleft
  obtain ⟨rfl, hrightMem⟩ := quoteIdentifier_ok hright
  refine ⟨?_, hleftMem columns rfl, hrightMem right rfl⟩
  simp [joinClausePlaces, Place.text, String.append_assoc]

/-- Without collisions no column of one side is one of the other's. -/
theorem apart_of_joinCollisions {left right : List String} (h : joinCollisions left right = []) :
    ∀ c ∈ left, normalizeIdentifier c ∉ right.map normalizeIdentifier := by
  intro c hc hmem
  have hshared : c ∈ left.filter fun column => (right.map normalizeIdentifier).contains (normalizeIdentifier column) := by
    rw [List.mem_filter]
    exact ⟨hc, by simpa using hmem⟩
  have hcollision : c ∈ joinCollisions left right := by
    refine List.mem_flatMap.mpr ⟨c, ?_, List.mem_cons_self⟩
    exact (List.mergeSort_perm _ _).mem_iff.mpr hshared
  rw [h] at hcollision
  cases hcollision

theorem joinQuery_builds {spec : OperatorSpec} {left right : Schema} {rest : List Schema}
    (hleft : ∀ c ∈ left.columnNames, allowed c) (hright : ∀ c ∈ right.columnNames, allowed c) {built : BuiltQuery}
    (h : joinQuery spec (left :: right :: rest) = .ok built) :
    Builds allowed built (joinStatement left spec right) ∧
      ∀ c ∈ left.columnNames, normalizeIdentifier c ∉ right.columnNames.map normalizeIdentifier := by
  unfold joinQuery at h
  cases hjoin : spec.joinType with
  | none => simp [hjoin] at h
  | some joinType =>
    simp only [hjoin, bind_eq_ok, refuseIf_eq_ok, pure_eq_ok] at h
    obtain ⟨_, -, _, hcollisions, clauses, hclauses, rfl⟩ := h
    obtain ⟨rfl, hkeys⟩ := joinClauses_ok hclauses
    have hnone : joinCollisions left.columnNames right.columnNames = [] := by simpa using hcollisions
    refine ⟨?_, apart_of_joinCollisions hnone⟩
    have htype : isBare joinType.upper = true := by cases joinType <;> decide
    have hfixed : isFixed (" FROM input_0 AS left_input " ++ joinType.upper ++ " JOIN input_1 AS right_input ON ") = true :=
      isFixed_append (isFixed_append (by decide) htype) (by decide)
    have hclausesApart : Separated (joined " AND " (spec.joinKeys.map joinClausePlaces)) := by
      refine .joined (by decide) fun ps hps => ?_
      obtain ⟨key, -, rfl⟩ := List.mem_map.mp hps
      exact (Separated.named (by decide) (.name key.right)).fixed (by decide)
    rw [joinStatement, hjoin]
    refine builds_select ?_ (opens_fixed (by decide)) (closes_fixed hfixed hclausesApart) ?_ ?_ ?_
    · intro item hitem
      rcases List.mem_cons.mp hitem with rfl | hitem
      · exact ⟨.plain (by decide), by simp⟩
      · obtain rfl := List.mem_singleton.mp hitem
        exact ⟨.plain (by decide), by simp⟩
    · intro n hn
      have hn : ∃ key ∈ spec.joinKeys, n = key.left ∨ n = key.right := by
        simpa [names_joined, List.flatMap_map, joinClausePlaces] using hn
      obtain ⟨key, hkey, rfl | rfl⟩ := hn
      · exact hleft _ (hkeys key hkey).1
      · exact hright _ (hkeys key hkey).2
    · apply String.toList_injective
      simp [itemsPlaces, QuotedText.joined, Place.text, text_joined, Function.comp_def]
    · simp [itemsPlaces, QuotedText.joined, literals_joined, List.flatMap_map, joinClausePlaces]

/-! ### Windows -/

theorem partitionPrefix_ok {spec : OperatorSpec} {s : String} (h : partitionPrefix columns spec = .ok s) :
    s = text (if spec.payload.partitionBy.isEmpty then []
      else (.plain "PARTITION BY " : Place Parameter) :: (namePlaces spec.payload.partitionBy ++ [.plain " "])) ∧
      ∀ c ∈ spec.payload.partitionBy, c ∈ columns := by
  simp only [partitionPrefix, bind_eq_ok, pure_eq_ok] at h
  obtain ⟨_, hnames, rfl⟩ := h
  obtain ⟨rfl, hmem⟩ := quoteAll_ok hnames
  refine ⟨?_, hmem⟩
  by_cases hempty : spec.payload.partitionBy = []
  · simp [hempty, commaSeparated]
  · rw [if_neg (mt (commaSeparated_quoted_eq_empty _).mp hempty), if_neg (by simpa using hempty)]
    simp [text_namePlaces, Place.text, String.append_assoc]

theorem isFixed_frame (preceding : Option Nat) :
    isFixed (preceding.elim "" (fun n => " ROWS BETWEEN " ++ toString n ++ " PRECEDING AND CURRENT ROW") ++ ")") = true := by
  cases preceding with
  | none => decide
  | some n =>
    have hopen : isFixed " ROWS BETWEEN " = true := by decide
    have hrest : isBare " PRECEDING AND CURRENT ROW" = true := by decide
    have hclose : isBare ")" = true := by decide
    exact isFixed_append (isFixed_append (isFixed_append hopen (isBare_toString n)) hrest) hclose

theorem separated_windowClause (clause : WindowClause) : Separated clause.places := by
  have hclose : Separated [(.plain (clause.preceding.elim "" (fun n => " ROWS BETWEEN " ++ toString n ++
      " PRECEDING AND CURRENT ROW") ++ ")") : Place Parameter)] := .plain (isFixed_frame clause.preceding)
  have horder : Separated (.plain "ORDER BY " :: (orderPlaces clause.order ++ [.plain (clause.preceding.elim ""
      (fun n => " ROWS BETWEEN " ++ toString n ++ " PRECEDING AND CURRENT ROW") ++ ")")])) :=
    ((separated_orderPlaces _).between (isFixed_frame clause.preceding) .nil).fixed (by decide)
  refine Separated.fixed (by decide) ?_
  split
  · exact horder
  · have hnames : Separated (namePlaces clause.partition ++ [.plain " "]) :=
      (separated_namePlaces _).between (by decide) .nil
    exact (hnames.fixed (by decide)).append horder (by simp [Place.isName])

theorem names_windowClause {clause : WindowClause} (hpartition : ∀ c ∈ clause.partition, allowed c)
    (horder : ∀ n ∈ names (orderPlaces clause.order), allowed n) : ∀ n ∈ names clause.places, allowed n := by
  intro n hn
  unfold WindowClause.places at hn
  rw [names_plain, names_append] at hn
  rcases List.mem_append.mp hn with hn | hn
  · split at hn
    · cases hn
    · exact hpartition n (by simpa [names_namePlaces] using hn)
  · exact horder n (by simpa using hn)

theorem literals_windowClause {clause : WindowClause} (horder : literals (orderPlaces clause.order) = []) :
    literals clause.places = [] := by
  unfold WindowClause.places
  split <;> simp [horder, literals_namePlaces]

theorem text_windowClause (clause : WindowClause) : text clause.places =
    "(" ++ text (if clause.partition.isEmpty then []
      else (.plain "PARTITION BY " : Place Parameter) :: (namePlaces clause.partition ++ [.plain " "])) ++ "ORDER BY " ++
      text (orderPlaces clause.order) ++
      (clause.preceding.elim "" (fun n => " ROWS BETWEEN " ++ toString n ++ " PRECEDING AND CURRENT ROW") ++ ")") := by
  simp only [WindowClause.places, text_cons, text_append, text_nil, Place.text]
  simp [String.append_assoc]

theorem pickQuery_builds {spec : OperatorSpec} (hallowed : ∀ c ∈ schema.columnNames, allowed c) {built : BuiltQuery}
    (h : pickQuery schema.columnNames schema spec = .ok built) : Builds allowed built (pickStatement schema spec) := by
  simp only [pickQuery, bind_eq_ok, pure_eq_ok] at h
  obtain ⟨leading, hleading, identity, hidentity, order, horder, rfl⟩ := h
  obtain ⟨rfl, hpartition⟩ := partitionPrefix_ok hleading
  obtain ⟨rfl, hsort⟩ := orderBy_ok (rowJson_ok hidentity) horder
  have horderNames := names_orderTerms hsort true
  constructor
  · simp only [pickStatement, Query.places, text_cons, text_append, text_windowClause]
    apply String.toList_injective
    simp [Place.text]
  · simp [pickStatement, Query.places, literals_windowClause, literals_orderTerms]
  · refine Separated.fixed (by decide) ((separated_windowClause _).between (by decide) (Separated.marked ?_))
    exact (separated_orderPlaces _).fixed (by decide)
  · intro n hn
    rw [pickStatement, Query.places, names_plain, names_append] at hn
    rcases List.mem_append.mp hn with hn | hn
    · exact names_windowClause (fun c hc => hallowed c (hpartition c hc)) (fun m hm => hallowed m (horderNames m hm)) n hn
    · exact hallowed n (horderNames n (by simpa using hn))

theorem windowArgument_ok {argument : Option String} {s : String} (h : windowArgument columns argument = .ok s) :
    s = text (argumentPlaces argument) ∧ ∀ c ∈ argument.toList, c ∈ columns := by
  unfold windowArgument at h
  cases argument with
  | none =>
    obtain rfl := Except.ok.inj h
    exact ⟨rfl, by simp⟩
  | some c =>
    obtain ⟨rfl, hmem⟩ := quoteIdentifier_ok h
    refine ⟨by simp [argumentPlaces, Place.text], fun c' hc' => ?_⟩
    obtain rfl : c' = c := by simpa using hc'
    exact hmem columns rfl

theorem separated_argumentPlaces (argument : Option String) : Separated (argumentPlaces argument) := by
  cases argument with
  | none => exact .nil
  | some c => exact .name c

theorem literals_argumentPlaces (argument : Option String) : literals (argumentPlaces argument) = [] := by
  cases argument <;> rfl

theorem names_argumentPlaces (argument : Option String) : names (argumentPlaces argument) = argument.toList := by
  cases argument <;> rfl

theorem windowQuery_builds {spec : OperatorSpec} {window : WindowSpec} (hwindow : spec.payload.window = some window)
    (hallowed : ∀ c ∈ schema.columnNames, allowed c) (houtput : allowed window.output) {built : BuiltQuery}
    (h : windowQuery lib schema.columnNames schema spec = .ok built) :
    Builds allowed built (windowStatement schema spec window) ∧
      normalizeIdentifier window.output ∉ schema.columnNames.map normalizeIdentifier := by
  simp only [windowQuery, hwindow, bind_eq_ok, pure_eq_ok] at h
  obtain ⟨leading, hleading, identity, hidentity, _, -, output, hnew, order, horder, argument, hargument, rfl⟩ := h
  obtain ⟨rfl, hpartition⟩ := partitionPrefix_ok hleading
  obtain ⟨rfl, hsort⟩ := orderBy_ok (rowJson_ok hidentity) horder
  obtain ⟨rfl, hapart⟩ := newName_ok hnew
  have horderNames := names_orderTerms hsort (!window.function.ranksTies)
  have hname : isBare window.function.value = true := by cases window.function <;> decide
  have hfunction : isFixed ("SELECT *, " ++ window.function.value ++ "(") = true :=
    isFixed_append (isFixed_append (by decide) hname) (by decide)
  obtain ⟨rfl, hcolumnMem⟩ := windowArgument_ok hargument
  have hframe : (if window.column.isSome then " ROWS BETWEEN " ++ toString window.preceding ++ " PRECEDING AND CURRENT ROW"
      else "") = (window.column.map fun _ => window.preceding).elim ""
        (fun n => " ROWS BETWEEN " ++ toString n ++ " PRECEDING AND CURRENT ROW") := by
    cases window.column <;> rfl
  refine ⟨⟨?_, ?_, ?_, ?_⟩, hapart⟩
  · rw [hframe]
    simp only [windowStatement, Query.places, text_cons, text_append, text_windowClause]
    apply String.toList_injective
    simp [Place.text]
  · simp [windowStatement, Query.places, literals_windowClause, literals_orderTerms, literals_argumentPlaces]
  · have hfinal : Separated (orderPlaces (orderTerms spec.sort schema.columnNames (!window.function.ranksTies)) ++
        [.plain ", ", .name window.output]) := (separated_orderPlaces _).between (by decide) (.name _)
    have hnamed : Separated (.name window.output :: .plain " FROM input_0 ORDER BY " ::
        (orderPlaces (orderTerms spec.sort schema.columnNames (!window.function.ranksTies)) ++
          [.plain ", ", .name window.output])) := .named (by decide) hfinal
    exact ((separated_argumentPlaces _).between (by decide) ((separated_windowClause _).between (by decide) hnamed)).fixed hfunction
  · intro n hn
    have hn : n ∈ window.column.toList ∨ n ∈ names (WindowClause.places ⟨spec.payload.partitionBy,
        orderTerms spec.sort schema.columnNames (!window.function.ranksTies), window.column.map fun _ => window.preceding⟩) ∨
        n = window.output ∨
        n ∈ names (orderPlaces (orderTerms spec.sort schema.columnNames (!window.function.ranksTies))) := by
      simp only [windowStatement, Query.places, names_plain, names_append, names_name, names_nil, names_argumentPlaces,
        List.mem_append, List.mem_cons, List.not_mem_nil, or_false] at hn
      tauto
    rcases hn with hn | hn | rfl | hn
    · exact hallowed n (hcolumnMem n hn)
    · exact names_windowClause (fun c hc => hallowed c (hpartition c hc)) (fun m hm => hallowed m (horderNames m hm)) n hn
    · exact houtput
    · exact hallowed n (horderNames n hn)

theorem sampleQuery_builds {spec : OperatorSpec} (hallowed : ∀ c ∈ schema.columnNames, allowed c) {built : BuiltQuery}
    (h : sampleQuery schema spec = .ok built) :
    Builds allowed built
      (.sample schema.columnNames (limitParameter spec.payload.sampleSeed) (limitParameter spec.limit)) := by
  simp only [sampleQuery, bind_eq_ok, pure_eq_ok] at h
  obtain ⟨identity, hidentity, rfl⟩ := h
  obtain rfl := rowJson_ok hidentity
  constructor
  · simp only [Query.places, orderPlaces, List.map_cons, List.map_nil, QuotedText.joined, OrderTerm.places, text_cons, text_append,
      text_nil]
    apply String.toList_injective
    simp [Place.text]
  · simp [Query.places, orderPlaces, QuotedText.joined, OrderTerm.places, literals_identityPlaces]
  · exact ((separated_orderPlaces _).between (by decide) (.literal _)).fixed (by decide)
  · intro n hn
    have hn : n ∈ names (identityPlaces schema.columnNames) := by
      simpa [Query.places, orderPlaces, QuotedText.joined, OrderTerm.places] using hn
    exact hallowed n (names_identityPlaces _ n hn)

/-! ### Dates -/

theorem text_bucketPlaces (date : DateSpec) (type : ArrowType) :
    text (bucketPlaces date (some type)) =
      if type.isDate then "CAST(" ++ ("date_trunc(?, " ++ quoted date.column ++ ")") ++ " AS DATE)"
      else "date_trunc(?, " ++ quoted date.column ++ ")" := by
  unfold bucketPlaces
  by_cases hdate : type.isDate = true
  · rw [if_pos (by simpa using hdate), if_pos hdate]
    apply String.toList_injective
    simp [Place.text]
  · rw [if_neg (by simpa using hdate), if_neg hdate]
    apply String.toList_injective
    simp [Place.text]

theorem literals_bucketPlaces (date : DateSpec) (type : Option ArrowType) :
    literals (bucketPlaces date type) = [.scalar (.str date.grain.value)] := by
  unfold bucketPlaces
  split <;> simp

theorem names_bucketPlaces (date : DateSpec) (type : Option ArrowType) : names (bucketPlaces date type) = [date.column] := by
  unfold bucketPlaces
  split <;> simp

theorem separated_bucketPlaces (date : DateSpec) (type : Option ArrowType) : Separated (bucketPlaces date type) := by
  have hbucket : Separated [(.plain "date_trunc(" : Place Parameter), .literal (.scalar (.str date.grain.value)),
      .plain ", ", .name date.column] := ((Separated.name date.column).fixed (by decide)).marked.fixed (by decide)
  unfold bucketPlaces
  split
  · exact (hbucket.between (by decide) .nil).fixed (by decide)
  · exact hbucket.between (by decide) .nil

theorem separated_bucketItem (schema : Schema) (date : DateSpec) : Separated (bucketItem schema date).places :=
  separated_aliased (separated_bucketPlaces date _) (by decide) date.output

theorem requireType_ok {column : String} {type : ArrowType} (h : requireType schema column = .ok type) :
    schema.type? column = some type := by
  unfold requireType at h
  split at h
  · rename_i found hfound
    rw [hfound, Except.ok.inj h]
  · cases h

/-- The columns, the bucket's type and what is checked, of a DATE or a RESAMPLE. -/
theorem dateQuery_ok {spec : OperatorSpec} {date : DateSpec} (hdate : spec.payload.date = some date) {built : BuiltQuery}
    (h : dateQuery lib columns schema spec = .ok built) :
    date.column ∈ columns ∧ normalizeIdentifier date.output ∉ columns.map normalizeIdentifier ∧
      let inner := "SELECT *, " ++ text (bucketItem schema date).places ++ " FROM input_0"
      let grain := Parameter.scalar (.str date.grain.value)
      if spec.kind = .date then built = (inner, [grain])
      else ∃ aggregated, aggregateQuery lib spec.isV1 (columns ++ [date.output]) schema (resampled spec date) "bucketed" =
        .ok aggregated ∧ built = ("WITH bucketed AS (" ++ inner ++ ") " ++ aggregated.1, grain :: aggregated.2) := by
  simp only [dateQuery, hdate, bind_eq_ok] at h
  obtain ⟨_, hcolumn, _, hnew, type, htype, _, -, h⟩ := h
  obtain ⟨rfl, hmem⟩ := quoteIdentifier_ok hcolumn
  obtain ⟨rfl, hapart⟩ := newName_ok hnew
  refine ⟨hmem columns rfl, hapart, ?_⟩
  have hfound : schema.type? date.column = some type := requireType_ok htype
  have hitem : text (bucketItem schema date).places =
      (if type.isDate then "CAST(" ++ ("date_trunc(?, " ++ quoted date.column ++ ")") ++ " AS DATE)"
        else "date_trunc(?, " ++ quoted date.column ++ ")") ++ " AS " ++ quoted date.output := by
    rw [bucketItem, text_aliased, hfound, text_bucketPlaces, String.append_empty]
  dsimp only
  by_cases hkind : spec.kind = .date
  · rw [if_pos hkind] at h ⊢
    obtain rfl := pure_eq_ok.mp h
    rw [hitem]
    simp [String.append_assoc]
  · rw [if_neg hkind] at h ⊢
    simp only [bind_eq_ok, pure_eq_ok] at h
    obtain ⟨aggregated, haggregated, rfl⟩ := h
    refine ⟨aggregated, haggregated, ?_⟩
    rw [hitem]
    simp [String.append_assoc]

theorem dateQuery_builds {spec : OperatorSpec} {date : DateSpec} (hdate : spec.payload.date = some date)
    (hallowed : ∀ c ∈ columns, allowed c) (houtput : allowed date.output) (hcolumns : columns = schema.columnNames)
    (hsource : spec.kind ≠ .date → allowed "bucketed") (hnames : ∀ a ∈ spec.aggregates, allowed a.name)
    (hapart : (columns.map normalizeIdentifier).Nodup) {built : BuiltQuery}
    (h : dateQuery lib columns schema spec = .ok built) :
    Builds allowed built (dateStatement lib spec.isV1 schema spec date) ∧
      ((dateStatement lib spec.isV1 schema spec date).columns.map normalizeIdentifier).Nodup := by
  obtain ⟨hmem, hnew, hbuilt⟩ := dateQuery_ok hdate h
  have hitemNames : ∀ n ∈ names (bucketItem schema date).places, allowed n :=
    named_aliased (fun n hn => by
      obtain rfl : n = date.column := by simpa [names_bucketPlaces] using hn
      exact hallowed _ hmem) houtput
  have hitemLiterals : literals (bucketItem schema date).places = [.scalar (.str date.grain.value)] := by
    rw [bucketItem, literals_aliased, literals_bucketPlaces]
  dsimp only at hbuilt
  by_cases hkind : spec.kind = .date
  · rw [if_pos hkind] at hbuilt
    subst hbuilt
    rw [dateStatement, if_pos hkind]
    refine ⟨builds_select ?_ (opens_fixed (by decide)) (closes_fixed (by decide) .nil) (by simp) ?_ ?_, ?_⟩
    · intro item hitem
      rcases List.mem_cons.mp hitem with rfl | hitem
      · exact ⟨separated_star _, by simp [SelectItem.star]⟩
      · obtain rfl := List.mem_singleton.mp hitem
        exact ⟨separated_bucketItem schema date, hitemNames⟩
    · apply String.toList_injective
      simp [itemsPlaces, QuotedText.joined, SelectItem.star, Place.text]
    · simp [itemsPlaces, QuotedText.joined, SelectItem.star, hitemLiterals]
    · simpa [Query.columns, SelectItem.star, bucketItem, SelectItem.aliased, ← hcolumns] using apart_concat hapart hnew
  · rw [if_neg hkind] at hbuilt
    obtain ⟨aggregated, haggregated, rfl⟩ := hbuilt
    rw [dateStatement, if_neg hkind]
    have hwith : Separated (.plain "WITH bucketed AS (SELECT *, " ::
        ((bucketItem schema date).places ++ [.plain " FROM input_0) "])) :=
      ((separated_bucketItem schema date).between (by decide) .nil).fixed (by decide)
    have hopens : Opens ((.plain "WITH bucketed AS (SELECT *, " ::
        ((bucketItem schema date).places ++ [.plain " FROM input_0) "])) ++ [.plain "SELECT "]) := by
      intro ps hps
      rw [List.append_assoc, List.singleton_append]
      exact hwith.between (by decide) hps
    have haggregates : ∀ a ∈ (resampled spec date).aggregates, allowed a.name := hnames
    obtain ⟨hbuilds, hnodup⟩ := aggregateQuery_builds hopens (fun n hn => hitemNames n (by simpa using hn))
      (fun c hc => (List.mem_append.mp hc).elim (hallowed c) fun hc => List.mem_singleton.mp hc ▸ houtput)
      (hsource hkind) haggregates haggregated
    refine ⟨?_, hnodup⟩
    have hbuilt : ("WITH bucketed AS (" ++ ("SELECT *, " ++ text (bucketItem schema date).places ++ " FROM input_0") ++ ") " ++
        aggregated.1, Parameter.scalar (.str date.grain.value) :: aggregated.2) =
        (text (.plain "WITH bucketed AS (SELECT *, " :: ((bucketItem schema date).places ++ [.plain " FROM input_0) "])) ++
          aggregated.1, literals (.plain "WITH bucketed AS (SELECT *, " ::
            ((bucketItem schema date).places ++ [.plain " FROM input_0) "])) ++ aggregated.2) := by
      refine Prod.ext ?_ ?_
      · apply String.toList_injective
        simp [Place.text]
      · simp [hitemLiterals]
    rw [hbuilt]
    exact hbuilds

/-! ### Lists and columns -/

theorem explodeQuery_builds {spec : OperatorSpec} {explode : ExplodeSpec} (hexplode : spec.payload.explode = some explode)
    (hallowed : ∀ c ∈ columns, allowed c) (houtput : allowed explode.output) {built : BuiltQuery}
    (h : explodeQuery lib columns schema spec = .ok built) :
    Builds allowed built (.select [.plain "SELECT "] [.star columns, explodeItem explode] [.plain " FROM input_0"]) ∧
      normalizeIdentifier explode.output ∉ columns.map normalizeIdentifier := by
  simp only [explodeQuery, hexplode, bind_eq_ok] at h
  obtain ⟨_, hcolumn, _, hnew, type, -, h⟩ := h
  obtain ⟨rfl, hmem⟩ := quoteIdentifier_ok hcolumn
  obtain ⟨rfl, hapart⟩ := newName_ok hnew
  refine ⟨?_, hapart⟩
  have hbuilt : built = ("SELECT *, unnest(" ++ quoted explode.column ++ ") AS " ++ quoted explode.output ++ " FROM input_0", []) := by
    split at h
    · exact (pure_eq_ok.mp h).symm
    · exact (pure_eq_ok.mp h).symm
    · cases h
  subst hbuilt
  refine builds_select ?_ (opens_fixed (by decide)) (closes_fixed (by decide) .nil) (by simp) ?_ ?_
  · intro item hitem
    rcases List.mem_cons.mp hitem with rfl | hitem
    · exact ⟨separated_star _, by simp [SelectItem.star]⟩
    · obtain rfl := List.mem_singleton.mp hitem
      refine ⟨separated_aliased ((Separated.name _).fixed (by decide)) (by decide) _, named_aliased (fun n hn => ?_) houtput⟩
      obtain rfl : n = explode.column := by simpa using hn
      exact hallowed _ (hmem columns rfl)
  · apply String.toList_injective
    simp [itemsPlaces, QuotedText.joined, SelectItem.star, explodeItem, SelectItem.aliased, Place.text]
  · simp [itemsPlaces, QuotedText.joined, SelectItem.star, explodeItem, SelectItem.aliased]

/-- A separator after each of a list's texts. -/
theorem intercalate_pair (separator : String) (xs : List String) (a b : String) :
    separator.intercalate (xs ++ [a, b]) = String.join (xs.map (· ++ separator)) ++ a ++ separator ++ b := by
  induction xs with
  | nil => simp [String.append_assoc]
  | cons x xs ih =>
    rw [List.cons_append, String.intercalate_cons_of_ne_nil (by simp), ih]
    simp [String.append_assoc]

theorem text_unpivotItems (schema : Schema) (unpivot : UnpivotSpec) (column : String) :
    text (itemsPlaces (unpivotItems schema unpivot column)) =
      String.join (((schema.columnNames.filter (!unpivot.columns.contains ·)).map quoted).map (· ++ ", ")) ++
        ("CAST(? AS VARCHAR) AS " ++ quoted unpivot.nameColumn) ++ ", " ++ (quoted column ++ " AS " ++ quoted unpivot.valueColumn) := by
  rw [← intercalate_pair, itemsPlaces, text_joined]
  refine congrArg (String.intercalate ", ") ?_
  simp only [unpivotItems, List.map_append, List.map_map, List.map_cons, List.map_nil, text_aliased]
  refine congrArg₂ (· ++ ·) ?_ ?_
  · refine List.map_congr_left fun c _ => ?_
    simp [SelectItem.column, Place.text]
  · have hname : text [(.plain "CAST(" : Place Parameter), .literal (.scalar (.str column))] ++ " AS VARCHAR)" ++ " AS " ++
        quoted unpivot.nameColumn = "CAST(? AS VARCHAR) AS " ++ quoted unpivot.nameColumn := by
      apply String.toList_injective
      simp [Place.text]
    rw [hname]
    simp [Place.text]

theorem literals_unpivotItems (schema : Schema) (unpivot : UnpivotSpec) (column : String) :
    literals (itemsPlaces (unpivotItems schema unpivot column)) = [.scalar (.str column)] := by
  rw [itemsPlaces, literals_joined]
  simp [unpivotItems, List.flatMap_map, SelectItem.column, literals_aliased]

theorem unpivotItems_places {unpivot : UnpivotSpec} {column : String} (hallowed : ∀ c ∈ schema.columnNames, allowed c)
    (hname : allowed unpivot.nameColumn) (hvalue : allowed unpivot.valueColumn) (hcolumn : allowed column) :
    ∀ item ∈ unpivotItems schema unpivot column, Separated item.places ∧ ∀ n ∈ names item.places, allowed n := by
  intro item hitem
  rcases List.mem_append.mp hitem with hitem | hitem
  · obtain ⟨c, hc, rfl⟩ := List.mem_map.mp hitem
    refine ⟨separated_column c, fun n hn => ?_⟩
    obtain rfl := List.mem_singleton.mp hn
    exact hallowed n (List.mem_filter.mp hc).1
  · rcases List.mem_cons.mp hitem with rfl | hitem
    · exact ⟨separated_aliased ((Separated.literal _).fixed (by decide)) (by decide) _, named_aliased (by simp) hname⟩
    · obtain rfl := List.mem_singleton.mp hitem
      refine ⟨separated_aliased (.name column) (by decide) _, named_aliased (fun n hn => ?_) hvalue⟩
      obtain rfl : n = column := by simpa using hn
      exact hcolumn

theorem unpivotQuery_ok {spec : OperatorSpec} {unpivot : UnpivotSpec} (hunpivot : spec.payload.unpivot = some unpivot)
    {built : BuiltQuery} (h : unpivotQuery lib schema.columnNames schema spec = .ok built) :
    (∀ c ∈ unpivot.columns, c ∈ schema.columnNames) ∧
      normalizeIdentifier unpivot.nameColumn ∉ schema.columnNames.map normalizeIdentifier ∧
      normalizeIdentifier unpivot.valueColumn ∉ (schema.columnNames ++ [unpivot.nameColumn]).map normalizeIdentifier ∧
      built = (" UNION ALL ".intercalate (unpivot.columns.map fun c => text (Query.branchPlaces (unpivotItems schema unpivot c))),
        unpivot.columns.map fun c => .scalar (.str c)) := by
  simp only [unpivotQuery, hunpivot, bind_eq_ok, refuseIf_eq_ok, pure_eq_ok] at h
  obtain ⟨_, -, _, hname, _, hvalue, _, hcolumns, _, -, _, -, retained, hretained, queries, hqueries, rfl⟩ := h
  obtain ⟨rfl, hnameApart⟩ := newName_ok hname
  obtain ⟨rfl, hvalueApart⟩ := newName_ok hvalue
  obtain ⟨-, hmem⟩ := quoteAll_ok hcolumns
  refine ⟨hmem, hnameApart, hvalueApart, ?_⟩
  obtain ⟨rfl, -⟩ : retained = (schema.columnNames.filter (!unpivot.columns.contains ·)).map quoted ∧ ∀ c ∈ _, True :=
    mapM_ok_map (fun _ _ hquoted => ⟨(quoteIdentifier_ok hquoted).1, trivial⟩) hretained
  obtain ⟨rfl, -⟩ : queries = (unpivot.columns.map fun c => text (Query.branchPlaces (unpivotItems schema unpivot c))) ∧
      ∀ c ∈ unpivot.columns, True := by
    refine mapM_ok_map (fun c s hs => ⟨?_, trivial⟩) hqueries
    simp only [unpivotBranch, bind_eq_ok, pure_eq_ok] at hs
    obtain ⟨_, hquoted, rfl⟩ := hs
    obtain ⟨rfl, -⟩ := quoteIdentifier_ok hquoted
    simp only [Query.branchPlaces, text_cons, text_append, text_nil, text_unpivotItems]
    apply String.toList_injective
    simp [Place.text]
  rfl

theorem unpivotQuery_builds {spec : OperatorSpec} {unpivot : UnpivotSpec} (hunpivot : spec.payload.unpivot = some unpivot)
    (hallowed : ∀ c ∈ schema.columnNames, allowed c) (hname : allowed unpivot.nameColumn)
    (hvalue : allowed unpivot.valueColumn) {built : BuiltQuery}
    (h : unpivotQuery lib schema.columnNames schema spec = .ok built) :
    Builds allowed built (.unionAll (unpivot.columns.map (unpivotItems schema unpivot))) := by
  obtain ⟨hmem, -, -, rfl⟩ := unpivotQuery_ok hunpivot h
  have hbranch : ∀ c ∈ unpivot.columns, Separated (Query.branchPlaces (unpivotItems schema unpivot c)) ∧
      ∀ n ∈ names (Query.branchPlaces (unpivotItems schema unpivot c)), allowed n := by
    intro c hc
    have hplaces := unpivotItems_places hallowed hname hvalue (hallowed c (hmem c hc))
    refine ⟨((separated_itemsPlaces fun item hitem => (hplaces item hitem).1).between (by decide) .nil).fixed (by decide), ?_⟩
    intro n hn
    exact named_itemsPlaces (fun item hitem => (hplaces item hitem).2) n (by simpa [Query.branchPlaces] using hn)
  constructor
  · simp only [Query.places, text_joined, List.map_map]
    rfl
  · simp only [Query.places, literals_joined, List.map_map, List.flatMap_map, Function.comp_def, Query.branchPlaces,
      literals_plain, literals_append, literals_unpivotItems]
    exact List.map_eq_flatMap
  · refine Separated.joined (by decide) fun ps hps => ?_
    obtain ⟨items, hitems, rfl⟩ := List.mem_map.mp hps
    obtain ⟨c, hc, rfl⟩ := List.mem_map.mp hitems
    exact (hbranch c hc).1
  · intro n hn
    rw [Query.places, names_joined] at hn
    obtain ⟨ps, hps, hn⟩ := List.mem_flatMap.mp hn
    obtain ⟨items, hitems, rfl⟩ := List.mem_map.mp hps
    obtain ⟨c, hc, rfl⟩ := List.mem_map.mp hitems
    exact (hbranch c hc).2 n hn

theorem imputeItem_places {target column : String} (replacement : Parameter) (htarget : allowed target)
    (hcolumn : allowed column) :
    Separated (imputeItem target replacement column).places ∧
      ∀ n ∈ names (imputeItem target replacement column).places, allowed n := by
  unfold imputeItem
  split
  · have hbody : Separated [(.plain "COALESCE(" : Place Parameter), .name target, .plain ", cast_to_type(",
        .literal replacement, .plain ", ", .name target] :=
      (Separated.named (by decide) ((Separated.name target).fixed (by decide)).marked).fixed (by decide)
    refine ⟨separated_aliased hbody (by decide) target, named_aliased (fun n hn => ?_) htarget⟩
    obtain rfl : n = target := by simpa using hn
    exact htarget
  · refine ⟨separated_column column, fun n hn => ?_⟩
    obtain rfl := List.mem_singleton.mp hn
    exact hcolumn

theorem literals_imputeItems {target : String} {replacement : Parameter} {ns : List String} (hns : ns.Nodup)
    (htarget : target ∈ ns) :
    literals (itemsPlaces (ns.map (imputeItem target replacement))) = [replacement] := by
  have hitem : ∀ c, literals (imputeItem target replacement c).places = if c = target then [replacement] else [] := by
    intro c
    unfold imputeItem
    split
    · rw [literals_aliased]
      rfl
    · rfl
  rw [itemsPlaces, literals_joined, List.map_map, List.flatMap_map]
  simp only [Function.comp_def, hitem]
  induction ns with
  | nil => cases htarget
  | cons c ns ih =>
    rw [List.nodup_cons] at hns
    rw [List.flatMap_cons]
    by_cases hc : c = target
    · have hrest : (ns.flatMap fun c => if c = target then [replacement] else []) = [] := by
        rw [List.flatMap_eq_nil_iff]
        intro d hd
        rw [if_neg]
        rintro rfl
        exact hns.1 (hc ▸ hd)
      rw [if_pos hc, hrest]
      rfl
    · have hmem : target ∈ ns := (List.mem_cons.mp htarget).resolve_left fun he => hc he.symm
      rw [if_neg hc, ih hns.2 hmem]
      rfl

theorem imputeQuery_builds {spec : OperatorSpec} {impute : ImputeSpec} (himpute : spec.payload.impute = some impute)
    (hallowed : ∀ c ∈ schema.columnNames, allowed c) (hnodup : schema.columnNames.Nodup) {built : BuiltQuery}
    (h : imputeQuery lib schema.columnNames schema spec = .ok built) :
    Builds allowed built (.select [.plain "SELECT "]
      (schema.columnNames.map (imputeItem impute.column (replacementOf lib schema impute))) [.plain " FROM input_0"]) := by
  simp only [imputeQuery, himpute, bind_eq_ok] at h
  obtain ⟨_, hcolumn, target, htarget, _, -, _, -, native, hnative, _, -, h⟩ := h
  obtain ⟨rfl, hmem⟩ := quoteIdentifier_ok hcolumn
  have htargetMem := hmem schema.columnNames rfl
  cases hscalar : lib.arrowScalar native target with
  | none => simp [hscalar] at h
  | some replacement =>
    simp only [hscalar, bind_eq_ok, pure_eq_ok] at h
    obtain ⟨expressions, hexpressions, rfl⟩ := h
    have hreplacement : replacementOf lib schema impute = .native replacement := by
      have hvalue : nativeScalar lib impute.value.dataType impute.value.value = .ok native := by
        cases hn : nativeScalar lib impute.value.dataType impute.value.value with
        | error message => simp [hn, Except.mapError] at hnative
        | ok native' => simpa [hn, Except.mapError] using hnative
      have htype : schema.type? impute.column = some target := requireType_ok htarget
      rw [replacementOf, hvalue, htype]
      show Parameter.native ((lib.arrowScalar native target).getD .null) = _
      rw [hscalar]
      rfl
    rw [hreplacement]
    obtain ⟨rfl, -⟩ : expressions = (schema.columnNames.map fun c =>
        text (imputeItem impute.column (.native replacement) c).places) ∧ ∀ c ∈ schema.columnNames, True := by
      refine mapM_ok_map (fun c s hs => ⟨?_, trivial⟩) hexpressions
      unfold imputeExpression at hs
      unfold imputeItem
      by_cases hc : c = impute.column
      · rw [if_pos hc] at hs ⊢
        obtain rfl := Except.ok.inj hs
        rw [text_aliased]
        apply String.toList_injective
        simp [Place.text]
      · rw [if_neg hc] at hs ⊢
        rw [(quoteIdentifier_ok hs).1]
        simp [SelectItem.column, Place.text]
    refine builds_select ?_ (opens_fixed (by decide)) (closes_fixed (by decide) .nil) (by simp) ?_ ?_
    · intro item hitem
      obtain ⟨c, hc, rfl⟩ := List.mem_map.mp hitem
      exact imputeItem_places _ (hallowed _ htargetMem) (hallowed c hc)
    · simp [itemsPlaces, text_joined, commaSeparated, Function.comp_def, Place.text, String.append_assoc]
    · rw [literals_imputeItems hnodup htargetMem]
      simp

end

end DataNexus.Runtime
