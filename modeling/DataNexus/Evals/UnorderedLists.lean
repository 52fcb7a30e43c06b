/-
  DataNexus.Evals.UnorderedLists — whether the order of a candidate's unordered lists matters.

  Five lists of a candidate are compared without their order: the entities, fields, metrics and
  relations of its semantic object, and the entities of its lineage. `Rearranged` puts them in
  another order and keeps all else.

  - `containerTypeErrors_within`: their shape has errors in the one order as in the other.
  - `dimensionChecks_alike`: the same checks hold, if values of a list that have one sort key are
    strictly equal (`KeysDetermine`).
  - `dimensionChecks_raise`: where the plan check raises, neither evaluation returns.
  - `evaluateCase_alike`: then both have one verdict.
-/

import DataNexus.Evals.PlanSoundness
import DataNexus.Evals.StrictEquality
import DataNexus.Lib.SideBySide

namespace DataNexus.Evals

open Lib Document

/-! ## Candidates in another order -/

/-- Two objects with the same keys and related values, or one value. -/
inductive Within (R : String → Document → Document → Prop) : Document → Document → Prop where
  | same (v : Document) : Within R v v
  | obj {ms ns : Fields} (h : List.Forall₂ (fun m n => m.1 = n.1 ∧ R m.1 m.2 n.2) ms ns) : Within R (.obj ms) (.obj ns)

/-- The lists of an object of the candidate that are compared without their order. -/
def unorderedKeys (path : String) : List String :=
  if path = "semantic" then semanticLists else if path = "lineage" then ["entities"] else []

/-- One value, or an unordered list in two orders. -/
def Reordered (path key : String) (v w : Document) : Prop :=
  v = w ∨ key ∈ unorderedKeys path ∧ ∃ xs ys, v = .arr xs ∧ w = .arr ys ∧ xs.Perm ys

/-- The candidate with its unordered lists in another order. -/
def Rearranged : Document → Document → Prop := Within fun path => Within (Reordered path)

/-- The value of a key of an object of the candidate. -/
def Document.at? (candidate : Document) (path key : String) : Option Document :=
  (candidate.field? path).bind (·.field? key)

namespace Within

variable {R : String → Document → Document → Prop}

theorem lookup {ms ns : Fields} (h : List.Forall₂ (fun m n => m.1 = n.1 ∧ R m.1 m.2 n.2) ms ns) (key : String) :
    (ms.lookup key = none ∧ ns.lookup key = none) ∨
      ∃ v w, ms.lookup key = some v ∧ ns.lookup key = some w ∧ R key v w := by
  induction h with
  | nil => exact .inl ⟨rfl, rfl⟩
  | @cons m n ms ns hfirst _ ih =>
    obtain ⟨key', v⟩ := m
    obtain ⟨key'', w⟩ := n
    obtain ⟨rfl, hvw⟩ := hfirst
    by_cases hkey : key = key'
    · subst hkey
      exact .inr ⟨v, w, List.lookup_cons_self, List.lookup_cons_self, hvw⟩
    · rw [lookup_cons_ne hkey, lookup_cons_ne hkey]
      exact ih

theorem field? {v w : Document} (hrefl : ∀ key v, R key v v) (h : Within R v w) (key : String) :
    (v.field? key = none ∧ w.field? key = none) ∨ ∃ a b, v.field? key = some a ∧ w.field? key = some b ∧ R key a b := by
  cases h with
  | same =>
    cases hfield : v.field? key with
    | none => exact .inl ⟨rfl, rfl⟩
    | some a => exact .inr ⟨a, a, rfl, rfl, hrefl key a⟩
  | obj hall => exact lookup hall key

theorem isObject {v w : Document} (h : Within R v w) : v.isObject = w.isObject := by
  cases h with
  | same => rfl
  | obj => rfl

theorem truthy {v w : Document} (h : Within R v w) : v.truthy = w.truthy := by
  cases h with
  | same => rfl
  | obj hall =>
    cases hall with
    | nil => rfl
    | cons => rfl

end Within

theorem reordered_refl (path key : String) (v : Document) : Reordered path key v v := .inl rfl

namespace Rearranged

variable {c c' : Document}

/-- An object of the candidate and of the other one. -/
theorem field? (h : Rearranged c c') (path : String) : (c.field? path = none ∧ c'.field? path = none) ∨
    ∃ v w, c.field? path = some v ∧ c'.field? path = some w ∧ Within (Reordered path) v w :=
  Within.field? (fun _ => .same) h path

theorem at? (h : Rearranged c c') (path key : String) : (c.at? path key = none ∧ c'.at? path key = none) ∨
    ∃ v w, c.at? path key = some v ∧ c'.at? path key = some w ∧ Reordered path key v w := by
  unfold Document.at?
  rcases h.field? path with ⟨hnone, hnone'⟩ | ⟨v, w, hv, hw, hwithin⟩
  · exact .inl ⟨by rw [hnone, Option.bind_none], by rw [hnone', Option.bind_none]⟩
  · rw [hv, hw, Option.bind_some, Option.bind_some]
    exact hwithin.field? (reordered_refl path) key

/-- What is no unordered list is as it was. -/
theorem at?_eq (h : Rearranged c c') {path key : String} (hordered : key ∉ unorderedKeys path) :
    c.at? path key = c'.at? path key := by
  rcases h.at? path key with ⟨hnone, hnone'⟩ | ⟨v, w, hv, hw, heq | ⟨hkey, -⟩⟩
  · rw [hnone, hnone']
  · rw [hv, hw, heq]
  · exact absurd hkey hordered

theorem field?_eq (h : Rearranged c c') {path : String} (hordered : unorderedKeys path = []) :
    c.field? path = c'.field? path := by
  rcases h.field? path with ⟨hnone, hnone'⟩ | ⟨v, w, hv, hw, hwithin⟩
  · rw [hnone, hnone']
  · rw [hv, hw]
    cases hwithin with
    | same => rfl
    | @obj ms ns hall =>
      have heq : ms = ns := by
        refine List.forall₂_eq_eq_eq ▸ hall.imp fun m n hmn => ?_
        obtain ⟨hkey, hvalue | ⟨hkey', -⟩⟩ := hmn
        · exact Prod.ext hkey hvalue
        · rw [hordered] at hkey'
          cases hkey'
      rw [heq]

end Rearranged

/-! ## The shape -/

/-- The paths where an empty list asks for items of a kind. -/
def askedPaths : List String := objectLists ++ "plan.edges" :: scalarLists

/-- No path that goes on from this one is asked for. -/
def Unasked (path : String) : Prop := ∀ rest, path ++ rest ∉ askedPaths

theorem Unasked.append {path : String} (h : Unasked path) (rest : String) : Unasked (path ++ rest) := by
  intro rest'
  rw [String.append_assoc]
  exact h (rest ++ rest')

theorem no_bracket : ∀ path ∈ askedPaths, '[' ∉ path.toList := by decide

theorem unasked_indexed (path : String) (index : Nat) : Unasked (indexed path index) := by
  intro rest hasked
  refine no_bracket _ hasked ?_
  have hbracket : '[' ∈ ("[" : String).toList := by decide
  simp only [indexed, String.toList_append, List.mem_append]
  exact .inl (.inl (.inl (.inr hbracket)))

theorem Unasked.not_mem {path : String} (h : Unasked path) : path ∉ askedPaths := by
  have hself := h ""
  rwa [String.append_empty] at hself

theorem forall_zipIdx {items : List Document} {P : Document → Prop} :
    (∀ item ∈ items.zipIdx, P item.1) ↔ ∀ v ∈ items, P v := by
  constructor
  · intro h v hv
    obtain ⟨i, hi⟩ := exists_mem_zipIdx hv
    exact h (v, i) hi
  · intro h item hitem
    exact h item.1 (List.fst_mem_of_mem_zipIdx hitem)

theorem itemErrors_eq_nil {path must : String} {refused : Document → Bool} {items : List Document} :
    itemErrors path must refused items = [] ↔ ∀ v ∈ items, refused v = false := by
  unfold itemErrors
  rw [List.flatMap_eq_nil_iff, ← forall_zipIdx]
  refine forall₂_congr fun item _ => ?_
  cases refused item.1 <;> simp

theorem memberErrors_eq_nil {expected members : Fields} {path : String} : memberErrors expected members path = [] ↔
    ∀ m ∈ expected, ∀ v, members.lookup m.1 = some v → containerTypeErrors m.2 v (path ++ "." ++ m.1) = [] := by
  induction expected with
  | nil => simp [memberErrors]
  | cons m rest ih =>
    obtain ⟨key, e⟩ := m
    rw [memberErrors, List.append_eq_nil_iff, ih, List.forall_mem_cons]
    refine and_congr_left fun _ => ?_
    cases members.lookup key with
    | none => simp
    | some v => simp

-- The equations of `containerTypeErrors` are made here, once for the lemmas about it.
attribute [local simp] containerTypeErrors in
/-- Away from the paths that are asked for, the path does not decide whether there are errors. -/
theorem containerTypeErrors_path (expected : Document) : ∀ {actual : Document} {path path' : String}, Unasked path →
    Unasked path' → (containerTypeErrors expected actual path = [] ↔ containerTypeErrors expected actual path' = []) := by
  induction expected using Document.induct with
  | scalar e he =>
    intro actual path path' _ _
    cases e <;> cases actual <;> simp_all [containerTypeErrors, isContainer]
  | arr es ih =>
    intro actual path path' h h'
    cases actual with
    | arr items =>
      cases es with
      | nil =>
        have hnone := h.not_mem
        have hnone' := h'.not_mem
        simp only [askedPaths, List.mem_append, List.mem_cons, not_or] at hnone hnone'
        simp [containerTypeErrors, hnone, hnone']
      | cons first rest =>
        simp only [containerTypeErrors]
        by_cases hfirst : first.isContainer = true
        · rw [if_pos hfirst, if_pos hfirst, List.flatMap_eq_nil_iff, List.flatMap_eq_nil_iff]
          exact forall₂_congr fun item _ => ih first List.mem_cons_self (unasked_indexed _ _) (unasked_indexed _ _)
        · rw [if_neg hfirst, if_neg hfirst, itemErrors_eq_nil, itemErrors_eq_nil]
    | _ => cases es <;> simp [containerTypeErrors]
  | obj es ih =>
    intro actual path path' h h'
    cases actual with
    | obj members =>
      rw [containerTypeErrors, containerTypeErrors, memberErrors_eq_nil, memberErrors_eq_nil]
      refine forall₂_congr fun m hm => forall₂_congr fun v _ => ih m hm ?_ ?_
      · exact (h.append ".").append m.1
      · exact (h'.append ".").append m.1
    | _ => simp [containerTypeErrors]

/-- The order of a list does not decide whether its shape has errors. -/
theorem containerTypeErrors_perm {xs ys : List Document} (hperm : xs.Perm ys) (expected : Document) (path : String) :
    containerTypeErrors expected (.arr xs) path = [] ↔ containerTypeErrors expected (.arr ys) path = [] := by
  have hitems : ∀ must refused, itemErrors path must refused xs = [] ↔ itemErrors path must refused ys = [] := by
    intro must refused
    rw [itemErrors_eq_nil, itemErrors_eq_nil]
    exact forall_congr' fun v => by rw [hperm.mem_iff]
  cases expected with
  | arr es =>
    cases es with
    | nil =>
      simp only [containerTypeErrors]
      split_ifs
      · exact hitems _ _
      · exact hitems _ _
      · exact hitems _ _
      · rfl
    | cons first rest =>
      simp only [containerTypeErrors]
      split_ifs
      · have hindex : ∀ items : List Document, (items.zipIdx.flatMap fun item =>
            containerTypeErrors first item.1 (indexed path item.2)) = [] ↔
            ∀ v ∈ items, containerTypeErrors first v (indexed path 0) = [] := by
          intro items
          rw [List.flatMap_eq_nil_iff, ← forall_zipIdx]
          exact forall₂_congr fun item _ => containerTypeErrors_path first (unasked_indexed _ _) (unasked_indexed _ _)
        rw [hindex, hindex]
        exact forall_congr' fun v => by rw [hperm.mem_iff]
      · exact hitems _ _
  | _ => simp [containerTypeErrors, isContainer]

/-- Neither does the order of the unordered lists of an object. -/
theorem containerTypeErrors_within {path : String} {v w : Document} (h : Within (Reordered path) v w)
    (expected : Document) : containerTypeErrors expected v path = [] ↔ containerTypeErrors expected w path = [] := by
  cases h with
  | same => rfl
  | @obj ms ns hall =>
    cases expected with
    | obj es =>
      rw [containerTypeErrors, containerTypeErrors, memberErrors_eq_nil, memberErrors_eq_nil]
      refine forall₂_congr fun m _ => ?_
      rcases Within.lookup hall m.1 with ⟨hnone, hnone'⟩ | ⟨v, w, hv, hw, hvw⟩
      · simp [hnone, hnone']
      · rw [hv, hw]
        simp only [Option.some.injEq, forall_eq']
        rcases hvw with rfl | ⟨-, xs, ys, rfl, rfl, hperm⟩
        · rfl
        · exact containerTypeErrors_perm hperm _ _
    | arr es => cases es <;> simp [containerTypeErrors]
    | _ => simp [containerTypeErrors, isContainer]

/-! ## Checks alike -/

/-- The same checks hold, and either both add a difference or neither does. -/
structure SameVerdict (a b : Checks) : Prop where
  results : a.results = b.results
  differences : a.differences = [] ↔ b.differences = []

namespace SameVerdict

theorem refl (a : Checks) : SameVerdict a a := ⟨rfl, Iff.rfl⟩

theorem append {a a' b b' : Checks} (ha : SameVerdict a a') (hb : SameVerdict b b') :
    SameVerdict (a.append b) (a'.append b') := by
  refine ⟨?_, ?_⟩
  · simp only [Checks.append, ha.results, hb.results]
  · simp only [Checks.append, List.append_eq_nil_iff, ha.differences, hb.differences]

theorem all {as bs : List Checks} (h : List.Forall₂ SameVerdict as bs) : SameVerdict (.all as) (.all bs) := by
  induction h with
  | nil => exact refl _
  | cons hfirst _ ih => exact hfirst.append ih

theorem compareExact {python : Python} {dimension path : String} {unordered : Bool} {expected v w : Document}
    (h : accepts python unordered expected v = accepts python unordered expected w) :
    SameVerdict (.one (compareExact python dimension path unordered expected v))
      (.one (DataNexus.Evals.compareExact python dimension path unordered expected w)) := by
  unfold DataNexus.Evals.compareExact
  rw [h]
  cases accepts python unordered expected w with
  | true => exact ⟨rfl, Iff.rfl⟩
  | false => exact ⟨rfl, by simp [Checks.one]⟩

end SameVerdict

section

variable {python : Python} {ms ns : Fields}

theorem shapeCheck_alike (h : Rearranged (.obj ms) (.obj ns)) (expected : Document) (path dimension : String) :
    SideBySide SameVerdict (shapeCheck expected ms path dimension) (shapeCheck expected ns path dimension) := by
  unfold shapeCheck
  rcases h.field? path with ⟨hnone, hnone'⟩ | ⟨v, w, hv, hw, hwithin⟩
  · rw [show ms.lookup path = none from hnone, show ns.lookup path = none from hnone']
    exact .ok (.refl _)
  · rw [show ms.lookup path = some v from hv, show ns.lookup path = some w from hw]
    refine SideBySide.bind_self (x := shapeExpected expected path) fun expectedValue => .ok ?_
    have herrors := containerTypeErrors_within hwithin expectedValue
    refine ⟨?_, ?_⟩
    · simp only [List.isEmpty_iff, herrors]
    · simp only [List.map_eq_nil_iff, herrors]

theorem shapeChecks_alike (h : Rearranged (.obj ms) (.obj ns)) (expected : Document) (dimension : String) :
    SideBySide SameVerdict (shapeChecks expected ms dimension) (shapeChecks expected ns dimension) := by
  refine (SideBySide.mapM fun entry _ => shapeCheck_alike h expected entry.1 entry.2).bind fun as bs hall => ?_
  exact .ok (.all hall)

theorem field_objectOr (v : Document) (key : String) : (objectOr v).field? key = v.field? key := by
  cases v <;> rfl

theorem at?_eq_field (path key : String) : (Document.obj ms).at? path key = (objectOr (candidateField ms path empty)).field? key := by
  rw [field_objectOr]
  unfold Document.at? candidateField
  show (ms.lookup path).bind _ = _
  cases ms.lookup path with
  | none => rfl
  | some v => rfl

theorem candidateField_eq (h : Rearranged (.obj ms) (.obj ns)) {path : String} (hordered : unorderedKeys path = [])
    (default : Document) : candidateField ms path default = candidateField ns path default := by
  have hfield : ms.lookup path = ns.lookup path := h.field?_eq hordered
  rw [candidateField, candidateField, hfield]

/-- In each unordered list of the candidate, values with one sort key are strictly equal. -/
def KeysDetermine (python : Python) (candidate : Document) : Prop :=
  ∀ path key xs, key ∈ unorderedKeys path → candidate.at? path key = some (.arr xs) → KeyDetermines python xs

theorem Document.WellFormed.field {v w : Document} {key : String} (h : v.WellFormed) (hfield : v.field? key = some w) :
    w.WellFormed := by
  cases v with
  | obj members => exact h.members.2 (key, w) (mem_of_lookup hfield)
  | _ => cases hfield

theorem Document.WellFormed.at {v w : Document} {path key : String} (h : v.WellFormed) (hat : v.at? path key = some w) :
    w.WellFormed := by
  obtain ⟨u, hu, hw⟩ := Option.bind_eq_some_iff.mp hat
  exact (h.field hu).field hw

theorem accepts_at (h : Rearranged (.obj ms) (.obj ns)) (hwell : (Document.obj ms).WellFormed)
    (hkeys : KeysDetermine python (.obj ms)) (path key : String) (expected : Document) :
    accepts python true expected (((Document.obj ms).at? path key).getD noItems) =
      accepts python true expected (((Document.obj ns).at? path key).getD noItems) := by
  rcases h.at? path key with ⟨hnone, hnone'⟩ | ⟨v, w, hv, hw, rfl | ⟨hkey, xs, ys, rfl, rfl, hperm⟩⟩
  · rw [hnone, hnone']
  · rw [hv, hw]
  · rw [hv, hw]
    exact accepts_same python hperm (hwell.at hv).items (hkeys path key xs hkey hv) expected

theorem fieldCheck_eq (h : Rearranged (.obj ms) (.obj ns)) {path : String} (hordered : unorderedKeys path = [])
    (dimension : String) (expected : Document) :
    fieldCheck python dimension expected ms path = fieldCheck python dimension expected ns path := by
  unfold fieldCheck
  rw [candidateField_eq h hordered]

theorem listCheck_alike {path key : String} {v w : Document}
    (haccepts : ∀ expected, accepts python true expected ((v.field? key).getD noItems) =
      accepts python true expected ((w.field? key).getD noItems)) (dimension : String) (expected : Document) :
    SideBySide SameVerdict (listCheck python dimension path true expected v key)
      (listCheck python dimension path true expected w key) :=
  .bind_self fun expectedValue => .ok (.compareExact (haccepts expectedValue))

theorem semanticChecks_alike (h : Rearranged (.obj ms) (.obj ns)) (hwell : (Document.obj ms).WellFormed)
    (hkeys : KeysDetermine python (.obj ms)) (expected : Document) :
    SideBySide SameVerdict (semanticChecks python expected ms) (semanticChecks python expected ns) := by
  refine .bind_self fun semantic => (SideBySide.mapM fun key _ => ?_).bind fun as bs hlists =>
    (SideBySide.mapM fun key hkey => ?_).bind fun as' bs' hothers => .ok (SameVerdict.all (List.rel_append hlists hothers))
  · refine listCheck_alike (fun expectedValue => ?_) "semantic" semantic
    rw [← at?_eq_field, ← at?_eq_field]
    exact accepts_at h hwell hkeys "semantic" key expectedValue
  · have hordered : ∀ path ∈ ["member_normalization", "time_range"], unorderedKeys path = [] := by decide
    rw [fieldCheck_eq h (hordered key hkey)]
    exact .of_self .refl _

/-- Whatever the candidates are, the golden case alone decides whether their semantic checks raise. -/
theorem semanticChecks_both (expected : Document) :
    SideBySide (fun _ _ => True) (semanticChecks python expected ms) (semanticChecks python expected ns) := by
  refine .bind_self fun semantic => (SideBySide.mapM (R := fun _ _ => True) fun key _ => ?_).bind fun as bs _ =>
    (SideBySide.mapM (R := fun _ _ => True) fun key _ => ?_).bind fun as' bs' _ => .ok trivial
  · exact .bind_self fun expectedValue => .ok trivial
  · exact .bind_self fun expectedValue => .ok trivial

theorem planChecks_eq (h : Rearranged (.obj ms) (.obj ns)) (expected : Document) :
    planChecks python expected ms = planChecks python expected ns := by
  unfold planChecks
  rw [candidateField_eq h rfl]

theorem resultChecks_eq (h : Rearranged (.obj ms) (.obj ns)) (expected : Document) :
    resultChecks python expected ms = resultChecks python expected ns := by
  unfold resultChecks
  rw [candidateField_eq h rfl]

theorem governanceChecks_eq (h : Rearranged (.obj ms) (.obj ns)) (expected : Document) :
    governanceChecks python expected ms = governanceChecks python expected ns := by
  have hdiagnostics : ms.lookup "diagnostics" = ns.lookup "diagnostics" := 
    h.field?_eq (show unorderedKeys "diagnostics" = [] from rfl)
  have hboth : ["behavior", "governance"].mapM (fieldCheck python "governance" expected ms) =
      ["behavior", "governance"].mapM (fieldCheck python "governance" expected ns) := by
    simp only [List.mapM_cons, List.mapM_nil, fieldCheck_eq h (show unorderedKeys "behavior" = [] from rfl),
      fieldCheck_eq h (show unorderedKeys "governance" = [] from rfl)]
  unfold governanceChecks
  rw [hdiagnostics, hboth]

theorem actualLineage_within (h : Rearranged (.obj ms) (.obj ns)) :
    Within (Reordered "lineage") (actualLineage ms) (actualLineage ns) := by
  unfold actualLineage candidateField
  rcases h.field? "lineage" with ⟨hnone, hnone'⟩ | ⟨v, w, hv, hw, hwithin⟩
  · rw [show ms.lookup "lineage" = none from hnone, show ns.lookup "lineage" = none from hnone']
    exact .same _
  · rw [show ms.lookup "lineage" = some v from hv, show ns.lookup "lineage" = some w from hw]
    simp only [Option.getD_some, hwithin.isObject]
    split
    · exact hwithin
    · exact .same _

theorem field?_actualLineage (key : String) : (actualLineage ms).field? key = (Document.obj ms).at? "lineage" key := by
  unfold actualLineage candidateField Document.at?
  show _ = (ms.lookup "lineage").bind _
  cases ms.lookup "lineage" with
  | none => rfl
  | some v => cases v <;> rfl

theorem lineageChecks_alike (h : Rearranged (.obj ms) (.obj ns)) (hwell : (Document.obj ms).WellFormed)
    (hkeys : KeysDetermine python (.obj ms)) (expected observability : Document) :
    SideBySide SameVerdict (lineageChecks python expected observability (actualLineage ms))
      (lineageChecks python expected observability (actualLineage ns)) := by
  refine .bind_self fun semantic => (listCheck_alike (fun expectedValue => ?_) "observability" semantic).bind
    fun entities entities' hentities => .ok (SameVerdict.all (.cons hentities ?_))
  · rw [field?_actualLineage, field?_actualLineage]
    exact accepts_at h hwell hkeys "lineage" "entities" expectedValue
  · refine List.forall₂_map_left_iff.mpr (List.forall₂_map_right_iff.mpr (List.forall₂_same.mpr fun entry hentry => ?_))
    have hordered : ∀ entry ∈ observabilityFields, entry.2 ∉ unorderedKeys "lineage" := by decide
    simp only [valueCheck, field?_actualLineage, h.at?_eq (hordered entry hentry)]
    exact .refl _

theorem observabilityChecks_alike (h : Rearranged (.obj ms) (.obj ns)) (hwell : (Document.obj ms).WellFormed)
    (hkeys : KeysDetermine python (.obj ms)) (expected : Document) :
    SideBySide SameVerdict (observabilityChecks python expected ms) (observabilityChecks python expected ns) := by
  unfold observabilityChecks
  refine .bind_self fun observability => .bind_self fun required => ?_
  have hlineage := actualLineage_within h
  have hpresence : SameVerdict (lineagePresence required.truthy (actualLineage ms))
      (lineagePresence required.truthy (actualLineage ns)) := by
    unfold lineagePresence
    rw [hlineage.truthy]
    split
    · exact .refl _
    · exact ⟨rfl, by simp⟩
  show SideBySide SameVerdict (if _ then _ else _) (if _ then _ else _)
  rw [hlineage.truthy]
  split
  · exact (lineageChecks_alike h hwell hkeys expected observability).bind fun a b hab => .ok (hpresence.append hab)
  · exact .ok hpresence

/-! ## The report -/

/-- Whether the case passes, and the scores of its dimensions. -/
def CaseReport.verdict (report : CaseReport) : Bool × List (String × ℚ) := (report.passed, report.dimensionScores)

theorem flatMap_differences_eq_nil {as bs : List Checks} (h : List.Forall₂ SameVerdict as bs) :
    as.flatMap (·.differences) = [] ↔ bs.flatMap (·.differences) = [] := by
  induction h with
  | nil => rfl
  | cons hfirst _ ih => rw [List.flatMap_cons, List.flatMap_cons, List.append_eq_nil_iff, List.append_eq_nil_iff, hfirst.differences, ih]

theorem zipWith_results {as bs as' bs' : List Checks} (h : List.Forall₂ SameVerdict as bs)
    (h' : List.Forall₂ SameVerdict as' bs') :
    List.zipWith (fun s c => dimensionScore (s.results ++ c.results)) as as' =
      List.zipWith (fun s c => dimensionScore (s.results ++ c.results)) bs bs' := by
  induction h generalizing as' bs' with
  | nil => rfl
  | cons hfirst _ ih =>
    cases h' with
    | nil => rfl
    | cons hfirst' hrest' => rw [List.zipWith_cons_cons, List.zipWith_cons_cons, hfirst.results, hfirst'.results, ih hrest']

/-- Checks alike give one verdict. -/
theorem evaluateCase_alike (h : Rearranged (.obj ms) (.obj ns))
    (hchecks : ∀ expected, SideBySide (List.Forall₂ SameVerdict) (dimensions.mapM (dimensionChecks python expected ms))
      (dimensions.mapM (dimensionChecks python expected ns))) (golden : Document) (weights : Option (List (String × ℚ))) :
    (evaluateCase python golden (.obj ms) weights).map (·.verdict) =
      (evaluateCase python golden (.obj ns) weights).map (·.verdict) := by
  refine SideBySide.map_eq (.bind_self fun caseId => .bind_self fun expected => ?_)
  have hshapes : SideBySide (List.Forall₂ SameVerdict) (dimensions.mapM (shapeChecks expected ms))
      (dimensions.mapM (shapeChecks expected ns)) := SideBySide.mapM fun dimension _ => shapeChecks_alike h expected dimension
  refine hshapes.bind fun as bs hall => (hchecks expected).bind fun as' bs' hall' => .ok (Prod.ext ?_ ?_)
  · have hpassed := flatMap_differences_eq_nil (List.rel_append hall hall')
    exact Bool.eq_iff_iff.mpr (List.isEmpty_iff.trans (hpassed.trans List.isEmpty_iff.symm))
  · simp only [CaseReport.verdict, zipWith_results hall hall']

theorem dimensionChecks_alike (h : Rearranged (.obj ms) (.obj ns)) (hwell : (Document.obj ms).WellFormed)
    (hkeys : KeysDetermine python (.obj ms)) (expected : Document) (dimension : String) :
    SideBySide SameVerdict (dimensionChecks python expected ms dimension) (dimensionChecks python expected ns dimension) := by
  unfold dimensionChecks
  split
  · exact semanticChecks_alike h hwell hkeys expected
  · rw [planChecks_eq h]
    exact .of_self .refl _
  · rw [resultChecks_eq h]
    exact .of_self .refl _
  · rw [governanceChecks_eq h]
    exact .of_self .refl _
  · exact observabilityChecks_alike h hwell hkeys expected

theorem planChecks_raises (hunnamed : DependsUnnamed (candidateField ms "plan" empty).plain) (expected : Document) :
    ∃ e, planChecks python expected ms = .error e := by
  have hplan := validatePlan_raises python.setOrder python.plainStr _ hunnamed
  cases hchecks : planChecks python expected ms with
  | error e => exact ⟨e, rfl⟩
  | ok checks =>
    simp only [planChecks, bind_eq_ok, hplan, Except.mapError] at hchecks
    obtain ⟨_, _, _, _, _, herror, _⟩ := hchecks
    cases herror

/-- Where the plan check raises, no order of the lists is looked at. -/
theorem dimensionChecks_raise (h : Rearranged (.obj ms) (.obj ns))
    (hunnamed : DependsUnnamed (candidateField ms "plan" empty).plain) (expected : Document) :
    SideBySide (List.Forall₂ SameVerdict) (dimensions.mapM (dimensionChecks python expected ms))
      (dimensions.mapM (dimensionChecks python expected ns)) := by
  obtain ⟨e, hraises⟩ := @planChecks_raises python ms hunnamed expected
  have hplan : SideBySide (fun _ _ => False) (planChecks python expected ms) (planChecks python expected ns) := by
    rw [← planChecks_eq h, hraises]
    exact .error e
  show SideBySide _ ((["semantic"] ++ "plan" :: ["execution_result", "governance", "observability"]).mapM _) _
  refine SideBySide.mapM_throws (fun dimension hdimension => ?_) hplan
  rw [List.mem_singleton.mp hdimension]
  exact semanticChecks_both expected

end

end DataNexus.Evals
