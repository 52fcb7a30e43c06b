/-
  DataNexus.SemanticCore.ReadFields — a graph reads the fields that it selects, and no others.

  Two sets of rows that agree on some columns (`AgreeRows`) are as many, in the same order,
  with the same cells in these columns. Every operator reads columns that its input declares
  (`Checked`), so rows that agree on what the inputs declare lead to rows that agree on what
  the node declares: the same filters hold, the same groups form, the same keys match.

  - `evaluateNode_agree`: one node.
  - `reads_selected`: for data that are the same in all selected fields, every node of an
    accepted graph has the same rows, whatever the other fields hold.
-/

import DataNexus.SemanticCore.NullSafety

namespace DataNexus.SemanticCore

open Lib

/-! ## Lists aligned position by position -/

section

variable {α β : Type} {R : α → β → Prop} {xs : List α} {ys : List β}

theorem forall₂_zipIdx (h : List.Forall₂ R xs ys) (n : Nat) :
    List.Forall₂ (fun x y => R x.1 y.1 ∧ x.2 = y.2) (xs.zipIdx n) (ys.zipIdx n) := by
  induction h generalizing n with
  | nil => exact .nil
  | cons hxy _ ih => exact .cons ⟨hxy, rfl⟩ (ih (n + 1))

theorem exists_pairs (h : List.Forall₂ R xs ys) :
    ∃ ps : List (α × β), ps.map (·.1) = xs ∧ ps.map (·.2) = ys ∧ ∀ p ∈ ps, R p.1 p.2 := by
  induction h with
  | nil => exact ⟨[], rfl, rfl, nofun⟩
  | @cons x y _ _ hxy _ ih =>
    obtain ⟨ps, rfl, rfl, hps⟩ := ih
    refine ⟨(x, y) :: ps, rfl, rfl, fun p hp => ?_⟩
    rcases List.mem_cons.mp hp with rfl | hp
    · exact hxy
    · exact hps p hp

theorem forall₂_of_pairs {ps : List (α × β)} (h : ∀ p ∈ ps, R p.1 p.2) : List.Forall₂ R (ps.map (·.1)) (ps.map (·.2)) := by
  rw [List.forall₂_map_left_iff, List.forall₂_map_right_iff, List.forall₂_same]
  exact h

/-- Sorted by orders that agree, the lists stay aligned. -/
theorem forall₂_mergeSort (h : List.Forall₂ R xs ys) {le : α → α → Bool} {le' : β → β → Bool}
    (hle : ∀ a b a' b', R a a' → R b b' → le a b = le' a' b') : List.Forall₂ R (xs.mergeSort le) (ys.mergeSort le') := by
  obtain ⟨ps, rfl, rfl, hps⟩ := exists_pairs h
  rw [← List.map_mergeSort (r := fun p q => le p.1 q.1) (fun _ _ _ _ => rfl),
    ← List.map_mergeSort (r := fun p q => le p.1 q.1) (fun p hp q hq => hle _ _ _ _ (hps p hp) (hps q hq))]
  exact forall₂_of_pairs fun p hp => hps p (List.mem_mergeSort.mp hp)

theorem map_eq_of_forall₂ {γ : Type} {f : α → γ} {g : β → γ} (h : List.Forall₂ R xs ys) (hfg : ∀ x y, R x y → f x = g y) :
    xs.map f = ys.map g := by
  induction h with
  | nil => rfl
  | cons hxy _ ih => rw [List.map_cons, List.map_cons, hfg _ _ hxy, ih]

theorem forall₂_filter (h : List.Forall₂ R xs ys) {p : α → Bool} {q : β → Bool} (hpq : ∀ x y, R x y → p x = q y) :
    List.Forall₂ R (xs.filter p) (ys.filter q) :=
  List.rel_filter (fun _ _ hxy => iff_of_eq (congrArg (· = true) (hpq _ _ hxy))) h

theorem any_eq_of_forall₂ (h : List.Forall₂ R xs ys) {p : α → Bool} {q : β → Bool} (hpq : ∀ x y, R x y → p x = q y) :
    xs.any p = ys.any q := by
  induction h with
  | nil => rfl
  | cons hxy _ ih => rw [List.any_cons, List.any_cons, hpq _ _ hxy, ih]

end

/-! ## Rows that agree -/

/-- The same cells in the columns. -/
def Agree (names : List String) (r r' : Row) : Prop := ∀ name ∈ names, r name = r' name

def AgreeRows (names : List String) : List Row → List Row → Prop := List.Forall₂ (Agree names)

section

variable {names : List String} {rows rows' group group' : List Row} {r r' : Row}

theorem Agree.mono {fewer : List String} (h : Agree names r r') (hsub : ∀ name ∈ fewer, name ∈ names) : Agree fewer r r' :=
  fun name hname => h name (hsub name hname)

theorem Agree.keysOf (h : Agree names r r') {keys : List String} (hkeys : ∀ key ∈ keys, key ∈ names) : keysOf keys r = keysOf keys r' :=
  List.map_congr_left fun key hkey => by rw [h key (hkeys key hkey)]

theorem AgreeRows.column (h : AgreeRows names rows rows') {name : String} (hname : name ∈ names) :
    (rows.map fun row => (row name).value) = rows'.map fun row => (row name).value :=
  map_eq_of_forall₂ h fun r r' hr => by rw [hr name hname]

/-- Groups of rows that agree form alike. -/
theorem groups_agree (h : AgreeRows names rows rows') {keys : List String} (hkeys : ∀ key ∈ keys, key ∈ names) :
    List.Forall₂ (AgreeRows names) (groups keys rows) (groups keys rows') := by
  unfold groups
  split
  · exact .cons h .nil
  · have hsame : rows.map (keysOf keys) = rows'.map (keysOf keys) := map_eq_of_forall₂ h fun r r' hr => hr.keysOf hkeys
    rw [hsame, List.forall₂_map_left_iff, List.forall₂_map_right_iff, List.forall₂_same]
    exact fun key _ => forall₂_filter h fun r r' hr => by rw [hr.keysOf hkeys]

theorem keyCell_agree (h : AgreeRows names group group') {name : String} (hname : name ∈ names) :
    keyCell group name = keyCell group' name := by
  cases h with
  | nil => rfl
  | cons hr _ => exact hr name hname

theorem sorted_agree (h : AgreeRows names rows rows') {keys : List SortKey} (hkeys : ∀ key ∈ keys, key.field ∈ names) :
    AgreeRows names (sorted keys rows) (sorted keys rows') := by
  refine forall₂_mergeSort h fun a b a' b' ha hb => ?_
  have hsame : (keys.map fun key => beforeOn key a b) = keys.map fun key => beforeOn key a' b' := by
    refine List.map_congr_left fun key hkey => ?_
    rw [beforeOn, beforeOn, ha _ (hkeys key hkey), hb _ (hkeys key hkey)]
  rw [hsame]

theorem pivoted_agree {engine : Engine} {params : PivotParams} (h : AgreeRows names group group') (hcolumn : params.column ∈ names)
    (hvalue : params.value ∈ names) (name : String) : pivoted engine params group name = pivoted engine params group' name :=
  AgreeRows.column (forall₂_filter h fun r r' hr => by rw [hr _ hcolumn]) hvalue

theorem operand_agree (h : Agree names r r') {operand : ScalarOperand} (hfield : ∀ field, operand.field? = some field → field ∈ names) :
    operand.evaluate r = operand.evaluate r' := by
  cases operand with
  | field name => rw [ScalarOperand.evaluate, ScalarOperand.evaluate, h name (hfield name rfl)]
  | literal value => rfl

theorem deriveRow_agree (h : Agree names r r') {expressions : List DeriveExpression}
    (hoperands : ∀ expression ∈ expressions, ∀ operand ∈ expression.operands, ∀ field, operand.field? = some field → field ∈ names) :
    Agree (names ++ expressions.map (·.name)) (deriveRow engine expressions r) (deriveRow engine expressions r') := by
  intro name hname
  unfold deriveRow
  cases hfind : expressions.find? (·.name == name) with
  | none =>
    refine h name ((List.mem_append.mp hname).resolve_right fun hderived => ?_)
    obtain ⟨expression, hexpression, rfl⟩ := List.mem_map.mp hderived
    exact List.find?_eq_none.mp hfind expression hexpression (by simp)
  | some expression =>
    have hfields := hoperands expression (List.mem_of_find?_eq_some hfind)
    have hleft := operand_agree h (hfields expression.left (by simp [DeriveExpression.operands]))
    have hright := operand_agree h (hfields expression.right (by simp [DeriveExpression.operands]))
    simp only [DeriveExpression.evaluate, hleft, hright]

end

/-! ## Joins -/

section

variable {names names' : List String} {ls ls' rs rs' : List Row} {params : JoinParams}

theorem matched_agree {l l' r r' : Row} (hl : Agree names l l') (hr : Agree names' r r') (hleft : params.leftKey ∈ names)
    (hright : params.rightKey ∈ names') : matched params l r = matched params l' r' := by
  rw [matched, matched, hl _ hleft, hr _ hright]

/-- The columns of a join, each in the columns of its side. -/
def SideColumns (params : JoinParams) (names names' : List String) : Prop :=
  ∀ projection ∈ params.fields, (projection.source = .left → projection.field ∈ names) ∧ (projection.source = .right → projection.field ∈ names')

theorem joinRow_agree (hfields : SideColumns params names names') {l l' r r' : Option Row} (hl : Option.Rel (Agree names) l l')
    (hr : Option.Rel (Agree names') r r') : joinRow params l r = joinRow params l' r' := by
  funext name
  unfold joinRow
  cases hfind : params.fields.find? (·.name == name) with
  | none => rfl
  | some projection =>
    obtain ⟨hleft, hright⟩ := hfields projection (List.mem_of_find?_eq_some hfind)
    cases hside : projection.source with
    | left =>
      simp only [hside]
      cases hl with
      | none => rfl
      | some hl => rw [Option.map_some, Option.map_some, hl _ (hleft hside)]
    | right =>
      simp only [hside]
      cases hr with
      | none => rfl
      | some hr => rw [Option.map_some, Option.map_some, hr _ (hright hside)]

/-- Of sides that agree on the keys and the columns of a join, the join is the same. -/
theorem joinRows_agree (hl : AgreeRows names ls ls') (hr : AgreeRows names' rs rs') (hleft : params.leftKey ∈ names)
    (hright : params.rightKey ∈ names') (hfields : SideColumns params names names') :
    joinRows params ls rs = joinRows params ls' rs' := by
  have hboth : (ls.flatMap fun l => (rs.filter (matched params l)).map fun r => joinRow params (some l) (some r)) =
      ls'.flatMap fun l => (rs'.filter (matched params l)).map fun r => joinRow params (some l) (some r) := by
    rw [List.flatMap_def, List.flatMap_def]
    refine congrArg List.flatten (map_eq_of_forall₂ hl fun l l' hll => ?_)
    have hmatching := forall₂_filter hr fun r r' hrr => matched_agree hll hrr hleft hright
    exact map_eq_of_forall₂ hmatching fun r r' hrr => joinRow_agree hfields (.some hll) (.some hrr)
  have honlyLeft : ((ls.filter fun l => !rs.any (matched params l)).map fun l => joinRow params (some l) none) =
      (ls'.filter fun l => !rs'.any (matched params l)).map fun l => joinRow params (some l) none := by
    have hunmatched := forall₂_filter hl (p := fun l => !rs.any (matched params l)) (q := fun l => !rs'.any (matched params l))
      fun l l' hll => by rw [any_eq_of_forall₂ hr fun r r' hrr => matched_agree hll hrr hleft hright]
    exact map_eq_of_forall₂ hunmatched fun l l' hll => joinRow_agree hfields (.some hll) .none
  have honlyRight : ((rs.filter fun r => !ls.any (matched params · r)).map fun r => joinRow params none (some r)) =
      (rs'.filter fun r => !ls'.any (matched params · r)).map fun r => joinRow params none (some r) := by
    have hunmatched := forall₂_filter hr (p := fun r => !ls.any (matched params · r)) (q := fun r => !ls'.any (matched params · r))
      fun r r' hrr => by rw [any_eq_of_forall₂ hl fun l l' hll => matched_agree hll hrr hleft hright]
    exact map_eq_of_forall₂ hunmatched fun r r' hrr => joinRow_agree hfields .none (.some hrr)
  unfold joinRows
  simp only [hboth]
  congr 1
  · congr 1
    split
    · exact honlyLeft
    · rfl
  · split
    · exact honlyRight
    · rfl

end

/-! ## Nodes -/

section

variable {calendar : Calendar} {done : List SQGNode} {node : SQGNode} {parents : List SQGNode} {engine : Engine} {ontology : Ontology}
  {data data' : Data}

/-- The same rows, in the same order, in every field that a SELECT reads. -/
def SameSelected (nodes : List SQGNode) (data data' : Data) : Prop :=
  ∀ node ∈ nodes, ∀ entity fields, node.params = .select entity fields →
    List.Forall₂ (fun record record' => ∀ field ∈ fields, record field = record' field) (data entity) (data' entity)

theorem readRows_agree {entity : String} {fields : List String}
    (h : List.Forall₂ (fun record record' => ∀ field ∈ fields, record field = record' field) (data entity) (data' entity)) :
    AgreeRows fields ((data entity).zipIdx.map fun entry => readRow entity entry.1 entry.2)
      ((data' entity).zipIdx.map fun entry => readRow entity entry.1 entry.2) := by
  rw [AgreeRows, List.forall₂_map_left_iff, List.forall₂_map_right_iff]
  refine (forall₂_zipIdx h 0).imp fun x y hxy field hfield => ?_
  rw [readRow, readRow, hxy.1 field hfield, hxy.2]

/-- The columns that the node names are those of its input that it reads. -/
theorem Checked.columnsRead (h : Checked calendar done node parents) {parent : SQGNode} (hparent : parents = [parent]) :
    (∀ predicate, node.params = .filter predicate → predicate.field ∈ parent.outputNames) ∧
      (∀ keys, node.params = .sort keys → ∀ key ∈ keys, key.field ∈ parent.outputNames) := by
  subst hparent
  have hoperator := h.operator
  refine ⟨fun predicate hp => ?_, fun keys hp key hkey => ?_⟩
  · simp only [validateOperator, hp, List.map_cons, nth_cons_zero, bind_eq_ok, Except.ok.injEq, requireFields_eq_ok] at hoperator
    obtain ⟨_, rfl, _, hfield, -⟩ := hoperator
    exact hfield _ (by simp)
  · simp only [validateOperator, hp, List.map_cons, nth_cons_zero, bind_eq_ok, Except.ok.injEq, requireFields_eq_ok] at hoperator
    obtain ⟨_, rfl, _, hfields, -⟩ := hoperator
    exact hfields _ (List.mem_map_of_mem hkey)

/-- A node whose inputs agree on what they declare agrees on what it declares. -/
theorem evaluateNode_agree (h : Checked calendar done node parents)
    (hdata : ∀ entity fields, node.params = .select entity fields →
      List.Forall₂ (fun record record' => ∀ field ∈ fields, record field = record' field) (data entity) (data' entity))
    {rows rows' : SQGNode → List Row} (hinputs : ∀ parent ∈ parents, AgreeRows parent.outputNames (rows parent) (rows' parent)) :
    AgreeRows node.outputNames (evaluateNode engine ontology data node (parents.map rows))
      (evaluateNode engine ontology data' node (parents.map rows')) := by
  cases hp : node.params with
  | select entity fields =>
    simp only [evaluateNode, hp, (h.select hp).1]
    exact readRows_agree (hdata entity fields hp)
  | filter predicate =>
    obtain ⟨parent, rfl, hnames⟩ := h.passesOn (hp ▸ .filter predicate)
    have hparent := hinputs parent List.mem_cons_self
    have hfield := (h.columnsRead rfl).1 predicate hp
    simp only [evaluateNode, hp, List.map_cons, List.map_nil]
    have hkept := forall₂_filter hparent (p := fun row => predicate.truth engine (row predicate.field).value == some true)
      (q := fun row => predicate.truth engine (row predicate.field).value == some true) fun r r' hr => by rw [hr _ hfield]
    exact hkept.imp fun r r' hr => hr.mono hnames
  | sort keys =>
    obtain ⟨parent, rfl, hnames⟩ := h.passesOn (hp ▸ .sort keys)
    simp only [evaluateNode, hp, List.map_cons, List.map_nil]
    have hsorted := sorted_agree (hinputs parent List.mem_cons_self) ((h.columnsRead rfl).2 keys hp)
    exact hsorted.imp fun r r' hr => hr.mono hnames
  | project fields =>
    obtain ⟨parent, rfl, hnames⟩ := h.passesOn (hp ▸ .project fields)
    simp only [evaluateNode, hp, List.map_cons, List.map_nil]
    exact (hinputs parent List.mem_cons_self).imp fun r r' hr => hr.mono hnames
  | aggregate params =>
    obtain ⟨parent, rfl, hkeys, hsources, hnames, -⟩ := h.aggregate hp
    simp only [evaluateNode, hp, List.map_cons, List.map_nil]
    rw [AgreeRows, List.forall₂_map_left_iff, List.forall₂_map_right_iff]
    refine (groups_agree (hinputs parent List.mem_cons_self) hkeys).imp fun group group' hgroup name hname => ?_
    unfold aggregateRow
    cases hfind : params.measures.find? (·.name == name) with
    | none =>
      rw [hnames, List.mem_append] at hname
      refine keyCell_agree hgroup (hkeys name (hname.resolve_right fun hmeasure => ?_))
      obtain ⟨measure, hmem, rfl⟩ := List.mem_map.mp hmeasure
      exact List.find?_eq_none.mp hfind measure hmem (by simp)
    | some measure => simp only [hgroup.column (hsources measure (List.mem_of_find?_eq_some hfind))]
  | pivot params =>
    obtain ⟨parent, rfl, hkeys, hcolumn, hvalue, hnames, -⟩ := h.pivot hp
    simp only [evaluateNode, hp, List.map_cons, List.map_nil]
    rw [AgreeRows, List.forall₂_map_left_iff, List.forall₂_map_right_iff]
    refine (groups_agree (hinputs parent List.mem_cons_self) hkeys).imp fun group group' hgroup name hname => ?_
    unfold pivotRow
    split
    · rw [pivoted_agree hgroup hcolumn hvalue]
    · rename_i hnot
      rw [hnames, List.mem_append] at hname
      exact keyCell_agree hgroup (hkeys name (hname.resolve_right (contains_false hnot)))
  | derive expressions =>
    obtain ⟨parent, rfl, hoperands, hnames, -⟩ := h.derive hp
    simp only [evaluateNode, hp, List.map_cons, List.map_nil]
    rw [AgreeRows, List.forall₂_map_left_iff, List.forall₂_map_right_iff, hnames]
    exact (hinputs parent List.mem_cons_self).imp fun r r' hr => deriveRow_agree hr hoperands
  | join params =>
    obtain ⟨left, right, rfl, hleft, hright, hprojections, -⟩ := h.join hp
    have hfields : SideColumns params left.outputNames right.outputNames := by
      intro projection hprojection
      obtain ⟨parent, hparent, hfield⟩ := hprojections projection hprojection
      refine ⟨fun hside => ?_, fun hside => ?_⟩
      · rw [hside] at hparent
        obtain rfl := Except.ok.inj hparent
        exact hfield
      · rw [hside] at hparent
        obtain rfl := Except.ok.inj hparent
        exact hfield
    simp only [evaluateNode, hp, List.map_cons, List.map_nil]
    rw [joinRows_agree (hinputs left (by simp)) (hinputs right (by simp)) hleft hright hfields, AgreeRows, List.forall₂_same]
    exact fun row _ name _ => rfl

end

/-! ## The graph -/

/-- For data that are the same in every selected field, every node of an accepted graph has the
    same rows in its outputs, in the same order. -/
theorem reads_selected {calendar : Calendar} {sqg : SemanticQueryGraph} {data data' : Data} (hsqg : sqg.Accepted calendar)
    (hdata : SameSelected sqg.nodes data data') (engine : Engine) (ontology : Ontology) :
    ∀ node ∈ sqg.nodes, AgreeRows node.outputNames (rowsOf engine ontology data sqg.nodes node.id)
      (rowsOf engine ontology data' sqg.nodes node.id) := by
  suffices ∀ before after, sqg.nodes = before ++ after → ∀ node ∈ before,
      AgreeRows node.outputNames (rowsOf engine ontology data sqg.nodes node.id) (rowsOf engine ontology data' sqg.nodes node.id) from
    this sqg.nodes [] (by simp)
  intro before
  induction before using List.reverseRecOn with
  | nil => exact fun _ _ node hnode => (List.not_mem_nil hnode).elim
  | append_singleton before last ih =>
    intro after hnodes node hnode
    have hsplit : sqg.nodes = before ++ last :: after := by rw [hnodes, List.append_assoc, List.singleton_append]
    have hbefore := ih (last :: after) hsplit
    rcases List.mem_append.mp hnode with hnode | hnode
    · exact hbefore node hnode
    obtain rfl := List.mem_singleton.mp hnode
    have hmem : node ∈ sqg.nodes := by simp [hsplit]
    obtain ⟨-, parents, hchecked⟩ := hsqg.checked hsplit
    rw [rowsOf_node engine ontology data hsplit hsqg.nodup hchecked.input_mem,
      rowsOf_node engine ontology data' hsplit hsqg.nodup hchecked.input_mem, inputs_eq_ids hchecked, List.map_map, List.map_map]
    refine evaluateNode_agree hchecked (hdata node hmem) fun parent hparent => ?_
    obtain ⟨_, -, hdone, -⟩ := mem_of_forall₂ hchecked.inputs hparent
    exact hbefore parent hdone

/-! ## A manager who does not count -/

/-- The two of `hires`, each managed by someone else. -/
def reorganised : Data := fun entity => (hires entity).map fun record field => if field = "manager" then .number 9 else record field

theorem ratios_read : AgreeRows ["id", "salary", "ratio"] (rowsOf plainEngine staff hires ratios.nodes "ratios")
    (rowsOf plainEngine staff reorganised ratios.nodes "ratios") := by
  have hdata : SameSelected ratios.nodes hires reorganised := by
    intro node hnode entity fields hparams
    simp only [ratios, List.mem_cons, List.not_mem_nil, or_false] at hnode
    rcases hnode with rfl | rfl
    · obtain ⟨rfl, rfl⟩ := NodeParams.select.inj hparams
      rw [reorganised, List.forall₂_map_right_iff, List.forall₂_same]
      intro record _ field hfield
      have hother : field ≠ "manager" := by
        rintro rfl
        simp at hfield
      exact (if_neg hother).symm
    · cases hparams
  have hagree := reads_selected ratios_accepted hdata plainEngine staff
  exact hagree ratios.nodes[1] (List.getElem_mem _)

end DataNexus.SemanticCore
