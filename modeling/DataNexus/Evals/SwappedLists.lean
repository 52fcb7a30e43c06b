/-
  DataNexus.Evals.SwappedLists — when the order of a candidate's unordered lists is told apart.

  Two values of an unordered list have one sort key and are not strictly equal. A golden case
  that expects the list with the one first (`probe`) finds it in the candidate, and does not
  find it once the two are swapped, so that one check fewer holds and the score of the
  dimension is another one (`told_apart`).

  - `unordered_lists`: so the order does not matter exactly for the candidates whose lists have no
    two values that are alike, an object in the one where the other has a list. For
    `_compare_exact` to compare lists as collections their zeros must have one sign, too:
    0.0 and -0.0 are strictly equal, and -1 sorts between them.
  - `swapped_refused`: `{}` and `[]`, in two entities that are swapped.
-/

import DataNexus.Evals.AlikeValues
import DataNexus.Evals.UnorderedLists

namespace DataNexus.Evals

open Lib Document

/-! ## A list put in a candidate -/

def update (members : Fields) (key : String) (f : Document → Document) : Fields :=
  members.map fun m => if m.1 = key then (m.1, f m.2) else m

theorem lookup_update (members : Fields) (key : String) (f : Document → Document) :
    (update members key f).lookup key = (members.lookup key).map f := by
  induction members with
  | nil => rfl
  | cons m members ih =>
    obtain ⟨key', v⟩ := m
    unfold update at ih ⊢
    rw [List.map_cons]
    by_cases hkey : key' = key
    · subst hkey
      rw [if_pos rfl, List.lookup_cons_self, List.lookup_cons_self, Option.map_some]
    · rw [if_neg hkey, lookup_cons_ne (Ne.symm hkey), lookup_cons_ne (Ne.symm hkey), ih]

theorem lookup_update_ne (members : Fields) {key key' : String} (hne : key' ≠ key) (f : Document → Document) :
    (update members key f).lookup key' = members.lookup key' := by
  induction members with
  | nil => rfl
  | cons m members ih =>
    obtain ⟨key'', v⟩ := m
    unfold update at ih ⊢
    rw [List.map_cons]
    by_cases hkey : key'' = key
    · have hne' : key' ≠ key'' := hkey ▸ hne
      rw [if_pos hkey, lookup_cons_ne hne', lookup_cons_ne hne', ih]
    · rw [if_neg hkey, List.lookup_cons, List.lookup_cons, ih]

/-- The value of a key of an object replaced. -/
def updateIn (key : String) (f : Document → Document) : Document → Document
  | .obj members => .obj (update members key f)
  | v => v

theorem field?_updateIn (v : Document) (key : String) (f : Document → Document) :
    (updateIn key f v).field? key = (v.field? key).map f := by
  cases v with
  | obj members => exact lookup_update members key f
  | _ => rfl

theorem field?_updateIn_ne (v : Document) {key key' : String} (hne : key' ≠ key) (f : Document → Document) :
    (updateIn key f v).field? key' = v.field? key' := by
  cases v with
  | obj members => exact lookup_update_ne members hne f
  | _ => rfl

theorem within_updateIn {R : String → Document → Document → Prop} {v : Document} {key : String} {f : Document → Document}
    (hwell : v.WellFormed) (hrefl : ∀ key v, R key v v) (hvalue : ∀ w, v.field? key = some w → R key w (f w)) :
    Within R v (updateIn key f v) := by
  cases v with
  | obj members =>
    refine .obj (List.forall₂_map_right_iff.mpr (List.forall₂_same.mpr fun m hm => ?_))
    split
    · rename_i hkey
      exact ⟨rfl, hkey ▸ hvalue m.2 (hkey ▸ lookup_of_mem_nodup hwell.members.1 hm)⟩
    · exact ⟨rfl, hrefl m.1 m.2⟩
  | _ => exact .same _

/-- The candidate with a list in the place of one of its lists. -/
def withList (path key : String) (items : List Document) : Document → Document :=
  updateIn path (updateIn key fun _ => .arr items)

section

variable {c v : Document} {path key : String}

theorem at?_withList (hat : c.at? path key = some v) (items : List Document) :
    (withList path key items c).at? path key = some (.arr items) := by
  obtain ⟨u, hu, hv⟩ := Option.bind_eq_some_iff.mp hat
  rw [Document.at?, withList, field?_updateIn, hu, Option.map_some, Option.bind_some, field?_updateIn, hv, Option.map_some]

theorem at?_withList_ne {key' : String} (hne : key' ≠ key) (items : List Document) :
    (withList path key items c).at? path key' = c.at? path key' := by
  rw [Document.at?, withList, field?_updateIn, Document.at?]
  cases c.field? path with
  | none => rfl
  | some u => exact field?_updateIn_ne u hne _

theorem rearranged_withList {xs ys : List Document} (hwell : c.WellFormed) (hkey : key ∈ unorderedKeys path)
    (hat : c.at? path key = some (.arr xs)) (hperm : xs.Perm ys) : Rearranged c (withList path key ys c) := by
  refine within_updateIn hwell (fun _ => .same) fun u hu => ?_
  refine within_updateIn (hwell.field hu) (reordered_refl path) fun w hw => ?_
  have hlist : w = .arr xs := by
    rw [Document.at?, hu, Option.bind_some, hw] at hat
    exact Option.some.inj hat
  exact .inr ⟨hkey, xs, ys, hlist, rfl, hperm⟩

end

/-! ## The golden case that tells -/

/-- What is expected: one list of the semantic object, and that there is lineage. -/
def probeExpected (key : String) (items : List Document) : Document :=
  .obj [("semantic", .obj [(key, .arr items)]), ("observability", .obj [("lineage_required", .bool true)])]

def probe (key : String) (items : List Document) : Document :=
  .obj [("id", .str "probe"), ("expected", probeExpected key items)]

theorem mapM_of_ok {ι ε α : Type} {f : ι → Except ε α} {g : ι → α} {l : List ι} (h : ∀ i ∈ l, f i = .ok (g i)) :
    l.mapM f = .ok (l.map g) := by
  rw [mapM_eq_ok, List.forall₂_map_right_iff, List.forall₂_same]
  exact h

/-- The checks that were returned. -/
def returned : Except Failure Checks → Checks
  | .ok checks => checks
  | .error _ => .none

theorem mapM_returned {ι : Type} {f : ι → Except Failure Checks} {l : List ι} (h : ∀ i ∈ l, ∃ checks, f i = .ok checks) :
    l.mapM f = .ok (l.map fun i => returned (f i)) := by
  refine mapM_of_ok fun i hi => ?_
  obtain ⟨checks, hchecks⟩ := h i hi
  rw [hchecks, returned]

section

variable (python : Python) {key : String} {items : List Document} {ms : Fields}

theorem shapeExpected_probe (path : String) : ∃ value, shapeExpected (probeExpected key items) path = .ok value := by
  unfold shapeExpected
  split
  · exact ⟨_, rfl⟩
  · exact ⟨_, rfl⟩

theorem shapeCheck_probe (path dimension : String) :
    ∃ checks, shapeCheck (probeExpected key items) ms path dimension = .ok checks ∧ checks.results.length ≤ 1 := by
  obtain ⟨value, hvalue⟩ := @shapeExpected_probe key items path
  unfold shapeCheck
  cases ms.lookup path with
  | none => exact ⟨_, rfl, Nat.zero_le _⟩
  | some v =>
    rw [hvalue]
    refine ⟨_, rfl, ?_⟩
    show (if _ then _ else _ : List Bool).length ≤ 1
    split
    · exact Nat.zero_le _
    · exact Nat.le_refl _

theorem results_all_length {checks : List Checks} (h : ∀ c ∈ checks, c.results.length ≤ 1) :
    (Checks.all checks).results.length ≤ checks.length := by
  induction checks with
  | nil => exact Nat.le_refl _
  | cons c checks ih =>
    have hfirst := h c List.mem_cons_self
    have hrest := ih fun d hd => h d (List.mem_cons_of_mem _ hd)
    show (c.results ++ (Checks.all checks).results).length ≤ checks.length + 1
    rw [List.length_append]
    omega

theorem shapeChecks_probe (dimension : String) (hdimension : dimension ∈ dimensions) :
    ∃ checks, shapeChecks (probeExpected key items) ms dimension = .ok checks ∧ checks.results.length ≤ 3 := by
  have hthree : ∀ dimension ∈ dimensions, (dimensionPaths.filter (·.2 = dimension)).length ≤ 3 := by decide
  have hreturns := mapM_returned fun (entry : String × String) (_ : entry ∈ dimensionPaths.filter (·.2 = dimension)) =>
    (@shapeCheck_probe key items ms entry.1 entry.2).imp fun _ => And.left
  unfold shapeChecks
  rw [hreturns]
  refine ⟨_, rfl, (results_all_length ?_).trans ?_⟩
  · intro c hc
    obtain ⟨entry, -, rfl⟩ := List.mem_map.mp hc
    obtain ⟨checks, hchecks, hlength⟩ := @shapeCheck_probe key items ms entry.1 entry.2
    rw [hchecks]
    exact hlength
  · rw [List.length_map]
    exact hthree dimension hdimension

theorem results_all_map {ι : Type} (l : List ι) (f : ι → Bool × List Difference) :
    (Checks.all (l.map fun i => Checks.one (f i))).results = l.map fun i => (f i).1 := by
  induction l with
  | nil => rfl
  | cons i l ih =>
    show [(f i).1] ++ (Checks.all (l.map fun i => Checks.one (f i))).results = _
    rw [ih, List.map_cons, List.singleton_append]

theorem compareExact_fst (dimension path : String) (unordered : Bool) (expected actual : Document) :
    (compareExact python dimension path unordered expected actual).1 = accepts python unordered expected actual := by
  unfold compareExact
  cases accepts python unordered expected actual <;> rfl

/-- What the golden case expects of a list of the semantic object. -/
def probeItems (key : String) (items : List Document) (key' : String) : Document :=
  ([(key, Document.arr items)].lookup key').getD noItems

theorem results_all_append (as bs : List Checks) :
    (Checks.all (as ++ bs)).results = (Checks.all as).results ++ (Checks.all bs).results := by
  induction as with
  | nil => rfl
  | cons a as ih =>
    show a.results ++ (Checks.all (as ++ bs)).results = (a.results ++ (Checks.all as).results) ++ _
    rw [ih, List.append_assoc]

/-- The comparisons of the semantic dimension: of the unordered lists, and of two other parts. -/
def probeListChecks (key : String) (items : List Document) (ms : Fields) : List Checks :=
  semanticLists.map fun k => .one (compareExact python "semantic" ("semantic" ++ "." ++ k) true (probeItems key items k)
    (((objectOr (candidateField ms "semantic" empty)).field? k).getD noItems))

def probeFieldChecks (key : String) (items : List Document) (ms : Fields) : List Checks :=
  ["member_normalization", "time_range"].map fun k => .one (compareExact python "semantic" k false
    (((probeExpected key items).field? k).getD empty) (candidateField ms k empty))

theorem semanticChecks_probe : semanticChecks python (probeExpected key items) ms =
    .ok (.all (probeListChecks python key items ms ++ probeFieldChecks python key items ms)) := by
  have hlists : semanticLists.mapM (listCheck python "semantic" "semantic" true (.obj [(key, .arr items)])
      (objectOr (candidateField ms "semantic" empty))) = .ok (probeListChecks python key items ms) :=
    mapM_of_ok fun k _ => rfl
  have hothers : ["member_normalization", "time_range"].mapM (fieldCheck python "semantic" (probeExpected key items) ms) =
      .ok (probeFieldChecks python key items ms) := mapM_of_ok fun k _ => rfl
  have hsemantic : getKey (probeExpected key items) "semantic" = .ok (.obj [(key, .arr items)]) := rfl
  simp only [semanticChecks, bind, Except.bind, hsemantic, hlists, hothers]
  rfl

theorem semanticResults_probe :
    (Checks.all (probeListChecks python key items ms ++ probeFieldChecks python key items ms)).results =
      (semanticLists.map fun k => accepts python true (probeItems key items k) (((Document.obj ms).at? "semantic" k).getD noItems)) ++
        ["member_normalization", "time_range"].map fun k =>
          accepts python false (((probeExpected key items).field? k).getD empty) (candidateField ms k empty) := by
  rw [results_all_append, probeListChecks, probeFieldChecks, results_all_map, results_all_map]
  simp only [compareExact_fst, at?_eq_field]

/-- The plan check returns, unless a node without an id depends on another. -/
theorem validatePlan_returns (order : SetOrder) (str : Json → String) (plan : Json) (h : ¬ DependsUnnamed plan) :
    ∃ errors, validatePlan order str plan = .ok errors := by
  cases plan with
  | obj members =>
    cases hoperators : listField members "operators" with
    | none => exact ⟨_, by simp only [validatePlan, hoperators]; rfl⟩
    | some operators =>
      cases hedges : listField members "edges" with
      | none => exact ⟨_, by simp only [validatePlan, hoperators, hedges]; rfl⟩
      | some edges =>
        cases hnodes : listField members "nodes" with
        | none => exact ⟨_, by simp only [validatePlan, hoperators, hedges, hnodes]; rfl⟩
        | some nodes =>
          have hnamed : ¬ UnnamedDepends nodes :=
            fun hunnamed => h ⟨members, operators, edges, nodes, rfl, hoperators, hedges, hnodes, hunnamed⟩
          obtain ⟨errors, herrors, -⟩ := validateGraph_ok str order operators edges hnamed
          by_cases hempty : (!operators.isEmpty && nodes.isEmpty) = true
          · exact ⟨_, by simp only [validatePlan, hoperators, hedges, hnodes, if_pos hempty]; rfl⟩
          · exact ⟨errors, by simp only [validatePlan, hoperators, hedges, hnodes, if_neg hempty]; exact herrors⟩
  | _ => exact ⟨_, rfl⟩

theorem planChecks_probe (hnamed : ¬ DependsUnnamed (candidateField ms "plan" empty).plain) :
    ∃ checks, planChecks python (probeExpected key items) ms = .ok checks := by
  obtain ⟨errors, herrors⟩ := validatePlan_returns python.setOrder python.plainStr _ hnamed
  simp only [planChecks, herrors]
  exact ⟨_, rfl⟩

theorem resultChecks_probe : ∃ checks, resultChecks python (probeExpected key items) ms = .ok checks := ⟨_, rfl⟩

theorem governanceChecks_probe : ∃ checks, governanceChecks python (probeExpected key items) ms = .ok checks := ⟨_, rfl⟩

theorem observabilityChecks_probe (htruthy : (actualLineage ms).truthy = true) :
    ∃ checks, observabilityChecks python (probeExpected key items) ms = .ok checks ∧
      checks.results = [true, accepts python true (probeItems key items "entities") (((Document.obj ms).at? "lineage" "entities").getD noItems)] := by
  have hpresence : lineagePresence true (actualLineage ms) = ⟨[true], []⟩ := by
    rw [lineagePresence, htruthy]
    rfl
  have hchecks : observabilityChecks python (probeExpected key items) ms = .ok (.append (lineagePresence true (actualLineage ms))
      (.all (.one (compareExact python "observability" ("lineage" ++ "." ++ "entities") true (probeItems key items "entities")
        (((actualLineage ms).field? "entities").getD noItems)) :: observabilityFields.map fun _ => .none))) := by
    show (if _ then _ else _) = _
    rw [htruthy]
    rfl
  refine ⟨_, hchecks, ?_⟩
  rw [hpresence, field?_actualLineage]
  show [true] ++ ((compareExact ..).1 :: []) = _
  rw [compareExact_fst]
  rfl

theorem dimensionChecks_probe (hnamed : ¬ DependsUnnamed (candidateField ms "plan" empty).plain) (dimension : String) :
    ∃ checks, dimensionChecks python (probeExpected key items) ms dimension = .ok checks := by
  unfold dimensionChecks
  split
  · exact ⟨_, semanticChecks_probe python⟩
  · exact planChecks_probe python hnamed
  · exact resultChecks_probe python
  · exact governanceChecks_probe python
  · cases htruthy : (actualLineage ms).truthy with
    | true =>
      obtain ⟨checks, hchecks, -⟩ := observabilityChecks_probe python htruthy
      exact ⟨checks, hchecks⟩
    | false =>
      refine ⟨lineagePresence true (actualLineage ms), ?_⟩
      show (if _ then _ else _) = _
      rw [htruthy]
      rfl

/-- The results of a dimension, those of the shape first. -/
def probeResults (key : String) (items : List Document) (ms : Fields) (dimension : String) : List Bool :=
  (returned (shapeChecks (probeExpected key items) ms dimension)).results ++
    (returned (dimensionChecks python (probeExpected key items) ms dimension)).results

theorem evaluateCase_probe (hnamed : ¬ DependsUnnamed (candidateField ms "plan" empty).plain) :
    ∃ passed, (evaluateCase python (probe key items) (.obj ms) none).map (·.verdict) =
      .ok (passed, dimensions.map fun d => (d, roundTwo (dimensionScore (probeResults python key items ms d)))) := by
  have hshapes := mapM_returned fun d hd => (@shapeChecks_probe key items ms d hd).imp fun _ => And.left
  have hchecks := mapM_returned fun d (_ : d ∈ dimensions) => @dimensionChecks_probe python key items ms hnamed d
  have hid : getKey (probe key items) "id" = .ok (.str "probe") := rfl
  have hexpected : getKey (probe key items) "expected" = .ok (probeExpected key items) := rfl
  simp only [evaluateCase, bind, Except.bind, hid, hexpected, hshapes, hchecks]
  exact ⟨_, rfl⟩

end

/-! ## Scores -/

/-- One check more or less shows in the score. -/
theorem score_ne : ∀ n < 10, ∀ p < n, roundTwo (nearestDouble (nearestDouble (100 * nearestDouble (p + 1 : ℕ)) / n)) ≠
    roundTwo (nearestDouble (nearestDouble (100 * nearestDouble p) / n)) := by
  decide +kernel

theorem dimensionScore_ne {as bs : List Bool} (hlength : as.length = bs.length) (hshort : as.length < 10)
    (hcount : as.count true = bs.count true + 1) : roundTwo (dimensionScore as) ≠ roundTwo (dimensionScore bs) := by
  have hle : as.count true ≤ as.length := List.count_le_length
  have hne : ∀ cs : List Bool, cs.length = as.length → cs.isEmpty = false := by
    intro cs hcs
    cases cs with
    | nil =>
      rw [List.length_nil] at hcs
      omega
    | cons => rfl
  unfold dimensionScore
  rw [hne as rfl, hne bs hlength.symm, hcount, ← hlength]
  exact score_ne as.length hshort (bs.count true) (by omega)

theorem count_map_flip {l : List String} {k : String} {f g : String → Bool} (hnodup : l.Nodup) (hk : k ∈ l)
    (hf : f k = true) (hg : g k = false) (hother : ∀ i, i ≠ k → f i = g i) :
    (l.map f).count true = (l.map g).count true + 1 := by
  induction l with
  | nil => cases hk
  | cons i l ih =>
    obtain ⟨hi, hnodup⟩ := List.nodup_cons.mp hnodup
    by_cases hik : i = k
    · subst hik
      have hrest : l.map f = l.map g := List.map_congr_left fun j hj => hother j fun he => hi (he ▸ hj)
      rw [List.map_cons, List.map_cons, hf, hg, hrest, List.count_cons_self]
      simp
    · have hk : k ∈ l := (List.mem_cons.mp hk).resolve_left (Ne.symm hik)
      rw [List.map_cons, List.map_cons, hother i hik, List.count_cons, List.count_cons, ih hnodup hk]
      omega

/-! ## The order told apart -/

section

variable {python : Python} {ms ns os : Fields}

theorem returned_results {x y : Except Failure Checks} (h : SideBySide SameVerdict x y) :
    (returned x).results = (returned y).results := by
  cases h with
  | ok hab => exact hab.results
  | error e => rfl

theorem unorderedKeys_cases {path key : String} (hkey : key ∈ unorderedKeys path) :
    (path = "semantic" ∧ key ∈ semanticLists) ∨ (path = "lineage" ∧ key = "entities") := by
  unfold unorderedKeys at hkey
  split_ifs at hkey with hsemantic hlineage
  · exact .inl ⟨hsemantic, hkey⟩
  · exact .inr ⟨hlineage, List.mem_singleton.mp hkey⟩
  · cases hkey

theorem truthy_actualLineage {v : Document} {key : String} (hat : (Document.obj ms).at? "lineage" key = some v) :
    (actualLineage ms).truthy = true := by
  rw [← field?_actualLineage] at hat
  cases hlineage : actualLineage ms with
  | obj members =>
    cases members with
    | nil =>
      rw [hlineage] at hat
      cases hat
    | cons => rfl
  | _ =>
    rw [hlineage] at hat
    cases hat

/-- Two orders of one list, of which the golden case expects the first: a dimension where one check
    more holds of the first. -/
theorem probeResults_apart {path key : String} {items items' : List Document} (hms : Rearranged (.obj ms) (.obj ns))
    (hms' : Rearranged (.obj ms) (.obj os)) (hkey : key ∈ unorderedKeys path)
    (hat : (Document.obj ns).at? path key = some (.arr items)) (hat' : (Document.obj os).at? path key = some (.arr items'))
    (hother : ∀ key', key' ≠ key → (Document.obj ns).at? path key' = (Document.obj os).at? path key')
    (haccepts : accepts python true (.arr items) (.arr items) = true)
    (hrefused : accepts python true (.arr items) (.arr items') = false) :
    ∃ dimension ∈ dimensions, (probeResults python key items ns dimension).length = (probeResults python key items os dimension).length ∧
      (probeResults python key items ns dimension).length < 10 ∧
      (probeResults python key items ns dimension).count true = (probeResults python key items os dimension).count true + 1 := by
  have hshape : ∀ dimension, (returned (shapeChecks (probeExpected key items) ns dimension)).results =
      (returned (shapeChecks (probeExpected key items) os dimension)).results := by
    intro dimension
    rw [← returned_results (shapeChecks_alike hms (probeExpected key items) dimension),
      returned_results (shapeChecks_alike hms' (probeExpected key items) dimension)]
  have hshort : ∀ dimension ∈ dimensions, (returned (shapeChecks (probeExpected key items) os dimension)).results.length ≤ 3 := by
    intro dimension hdimension
    obtain ⟨checks, hchecks, hlength⟩ := @shapeChecks_probe key items os dimension hdimension
    rw [hchecks]
    exact hlength
  have hitems : probeItems key items key = .arr items := by
    rw [probeItems, List.lookup_cons_self, Option.getD_some]
  rcases unorderedKeys_cases hkey with ⟨rfl, hlist⟩ | ⟨rfl, rfl⟩
  · refine ⟨"semantic", by decide, ?_⟩
    have hfields : ∀ k ∈ ["member_normalization", "time_range"], candidateField ns k empty = candidateField os k empty := by
      have hordered : ∀ k ∈ ["member_normalization", "time_range"], unorderedKeys k = [] := by decide
      intro k hk
      rw [← candidateField_eq hms (hordered k hk), candidateField_eq hms' (hordered k hk)]
    have hresults : ∀ fields : Fields, (returned (dimensionChecks python (probeExpected key items) fields "semantic")).results =
        (semanticLists.map fun k => accepts python true (probeItems key items k) (((Document.obj fields).at? "semantic" k).getD noItems)) ++
          ["member_normalization", "time_range"].map fun k =>
            accepts python false (((probeExpected key items).field? k).getD empty) (candidateField fields k empty) := by
      intro fields
      show (returned (semanticChecks python (probeExpected key items) fields)).results = _
      rw [semanticChecks_probe, returned, semanticResults_probe]
    have hothers : (["member_normalization", "time_range"].map fun k =>
          accepts python false (((probeExpected key items).field? k).getD empty) (candidateField ns k empty)) =
        ["member_normalization", "time_range"].map fun k =>
          accepts python false (((probeExpected key items).field? k).getD empty) (candidateField os k empty) :=
      List.map_congr_left fun k hk => by rw [hfields k hk]
    have hcount : (semanticLists.map fun k =>
          accepts python true (probeItems key items k) (((Document.obj ns).at? "semantic" k).getD noItems)).count true =
        (semanticLists.map fun k =>
          accepts python true (probeItems key items k) (((Document.obj os).at? "semantic" k).getD noItems)).count true + 1 := by
      refine count_map_flip (by decide) hlist ?_ ?_ fun k hk => ?_
      · rw [hitems, hat]
        exact haccepts
      · rw [hitems, hat']
        exact hrefused
      · rw [hother k hk]
    have hthree := hshort "semantic" (by decide)
    have hfour : semanticLists.length = 4 := rfl
    unfold probeResults
    rw [hresults, hresults, hshape, hothers]
    simp only [List.length_append, List.count_append, List.length_map, List.length_cons, List.length_nil]
    exact ⟨trivial, by omega, by omega⟩
  · refine ⟨"observability", by decide, ?_⟩
    have hresults : ∀ (fields : Fields) (values : List Document), (Document.obj fields).at? "lineage" "entities" = some (.arr values) →
        (returned (dimensionChecks python (probeExpected "entities" items) fields "observability")).results =
          [true, accepts python true (.arr items) (.arr values)] := by
      intro fields values hvalues
      obtain ⟨checks, hchecks, hresults⟩ := @observabilityChecks_probe python "entities" items fields (truthy_actualLineage hvalues)
      show (returned (observabilityChecks python (probeExpected "entities" items) fields)).results = _
      rw [hchecks, returned, hresults, hitems, hvalues, Option.getD_some]
    have hthree := hshort "observability" (by decide)
    unfold probeResults
    rw [hresults ns items hat, hresults os items' hat', hshape, haccepts, hrefused]
    simp only [List.length_append, List.count_append, List.length_cons, List.length_nil, List.count_cons, List.count_nil]
    simp
    omega

theorem scores_of_verdict {passed passed' : Bool} {f g : String → ℚ} {l : List String}
    (h : (.ok (passed, l.map fun d => (d, f d)) : Except Failure (Bool × List (String × ℚ))) =
      .ok (passed', l.map fun d => (d, g d))) : ∀ d ∈ l, f d = g d := by
  intro d hd
  have hscores : l.map (fun d => (d, f d)) = l.map fun d => (d, g d) := (Prod.mk.inj (Except.ok.inj h)).2
  exact (Prod.mk.inj (List.map_inj_left.mp hscores d hd)).2

theorem exists_perm_pair {xs : List Document} {x y : Document} (hx : x ∈ xs) (hy : y ∈ xs) (hne : x ≠ y) :
    ∃ rest, xs.Perm (x :: y :: rest) := by
  obtain ⟨before, after, rfl⟩ := List.append_of_mem hx
  have hy' : y ∈ before ++ after := by
    rcases List.mem_append.mp hy with hbefore | hafter
    · exact List.mem_append_left _ hbefore
    · exact List.mem_append_right _ ((List.mem_cons.mp hafter).resolve_left (Ne.symm hne))
  obtain ⟨before', after', hsplit⟩ := List.append_of_mem hy'
  refine ⟨before' ++ after', List.perm_middle.trans (.cons x ?_)⟩
  rw [hsplit]
  exact List.perm_middle

/-- Where two values of a list have one sort key and are not strictly equal, some golden case tells
    some order of the list apart. -/
theorem told_apart (hwell : (Document.obj ms).WellFormed)
    (hnamed : ¬ DependsUnnamed (candidateField ms "plan" empty).plain) {path key : String} {xs : List Document}
    (hkey : key ∈ unorderedKeys path) (hat : (Document.obj ms).at? path key = some (.arr xs)) {x y : Document} (hx : x ∈ xs)
    (hy : y ∈ xs) (hsort : sortKey python x = sortKey python y) (hne : ¬ StrictlyEqual x y) :
    ∃ golden candidate', Rearranged (.obj ms) candidate' ∧
      (evaluateCase python golden (.obj ms) none).map (·.verdict) ≠ (evaluateCase python golden candidate' none).map (·.verdict) := by
  have hvalues := (hwell.at hat).items
  obtain ⟨rest, hperm⟩ := exists_perm_pair hx hy fun he => hne (he ▸ strictEqual_refl (hvalues x hx))
  have hperm' : xs.Perm (y :: x :: rest) := hperm.trans (.swap y x rest)
  have hfirst : Rearranged (.obj ms) (withList path key (x :: y :: rest) (.obj ms)) := rearranged_withList hwell hkey hat hperm
  have hsecond : Rearranged (.obj ms) (withList path key (y :: x :: rest) (.obj ms)) :=
    rearranged_withList hwell hkey hat hperm'
  have haccepts : accepts python true (.arr (x :: y :: rest)) (.arr (x :: y :: rest)) = true :=
    accepts_self python fun v hv => hvalues v (hperm.symm.subset hv)
  have hrefused : accepts python true (.arr (x :: y :: rest)) (.arr (y :: x :: rest)) = false :=
    Bool.eq_false_iff.mpr fun h => hne (accepts_swapped python hsort h)
  have hother : ∀ key', key' ≠ key → (withList path key (x :: y :: rest) (.obj ms)).at? path key' =
      (withList path key (y :: x :: rest) (.obj ms)).at? path key' :=
    fun key' hne => (at?_withList_ne hne _).trans (at?_withList_ne hne _).symm
  obtain ⟨dimension, hdimension, hlength, hshort, hcount⟩ := probeResults_apart hfirst hsecond hkey (at?_withList hat _)
    (at?_withList hat _) hother haccepts hrefused
  have hplan : ∀ fields, Rearranged (.obj ms) (.obj fields) → ¬ DependsUnnamed (candidateField fields "plan" empty).plain := by
    intro fields hfields
    rw [← candidateField_eq hfields rfl]
    exact hnamed
  obtain ⟨passed, hreport⟩ := @evaluateCase_probe python key (x :: y :: rest) _ (hplan _ hfirst)
  obtain ⟨passed', hreport'⟩ := @evaluateCase_probe python key (x :: y :: rest) _ (hplan _ hsecond)
  have hapart : (evaluateCase python (probe key (x :: y :: rest)) (withList path key (x :: y :: rest) (.obj ms)) none).map (·.verdict) ≠
      (evaluateCase python (probe key (x :: y :: rest)) (withList path key (y :: x :: rest) (.obj ms)) none).map (·.verdict) := by
    intro hsame
    have hscore := scores_of_verdict (hreport.symm.trans (hsame.trans hreport')) dimension hdimension
    exact dimensionScore_ne hlength hshort hcount hscore
  -- The candidate itself cannot agree with both.
  by_cases hagrees : (evaluateCase python (probe key (x :: y :: rest)) (.obj ms) none).map (·.verdict) =
      (evaluateCase python (probe key (x :: y :: rest)) (withList path key (x :: y :: rest) (.obj ms)) none).map (·.verdict)
  · exact ⟨_, _, hsecond, fun h => hapart (hagrees.symm.trans h)⟩
  · exact ⟨_, _, hfirst, hagrees⟩

end

/-! ## Both orders -/

/-- In no unordered list of the candidate does an object stand beside a list. -/
def ListsApart (python : Python) (candidate : Document) : Prop :=
  ∀ path key xs, key ∈ unorderedKeys path → candidate.at? path key = some (.arr xs) → ObjectsApart python {v | v ∈ xs}

theorem keysDetermine_iff {python : Python} (hpython : python.Legible) {candidate : Document} (hwell : candidate.WellFormed) :
    KeysDetermine python candidate ↔ ListsApart python candidate :=
  forall₃_congr fun _ _ _ => forall₂_congr fun _ hat => keyDetermines_iff hpython (hwell.at hat).items

/-- The order of the unordered lists of a candidate changes neither the verdict nor a score, whatever
    the golden case, exactly where the plan check raises, or no two values of one of these lists
    are alike with an object in the place of a list. Lists of some values, whatever they both go on
    with, are compared as collections exactly where that holds of the values, and no two of them
    are strictly equal with opposite signs of a zero. -/
theorem unordered_lists (python : Python) (hpython : python.Legible) :
    (∀ candidate : Document, candidate.WellFormed →
      ((∀ golden candidate' weights, Rearranged candidate candidate' →
          (evaluateCase python golden candidate weights).map (·.verdict) =
            (evaluateCase python golden candidate' weights).map (·.verdict)) ↔
        DependsUnnamed ((candidate.field? "plan").getD empty).plain ∨ ListsApart python candidate)) ∧
    ∀ V : Set Document, (∀ v ∈ V, v.WellFormed) →
      ((∀ expected actual rest : List Document,
          (∀ v ∈ expected, v ∈ V) → (∀ v ∈ actual, v ∈ V) → (∀ v ∈ rest, v.WellFormed) →
          (accepts python true (.arr (expected ++ rest)) (.arr (actual ++ rest)) = true ↔
            PermUpTo StrictlyEqual (expected ++ rest) (actual ++ rest))) ↔
        ObjectsApart python V ∧ ZerosAlike V) := by
  refine ⟨fun candidate hwell => ?_, fun V hV => accepts_collections hpython hV⟩
  rw [← keysDetermine_iff hpython hwell]
  refine ⟨fun hsame => ?_, fun hright golden candidate' weights hrearranged => ?_⟩
  · by_contra hnot
    obtain ⟨hnamed, hkeys⟩ := not_or.mp hnot
    simp only [KeysDetermine, KeyDetermines, not_forall] at hkeys
    obtain ⟨path, key, xs, hkey, hat, x, hx, y, hy, hsort, hne⟩ := hkeys
    cases candidate with
    | obj ms =>
      obtain ⟨golden, candidate', hrearranged, happart⟩ := told_apart hwell hnamed hkey hat hx hy hsort hne
      exact happart (hsame golden candidate' none hrearranged)
    | _ => cases hat
  · cases hrearranged with
    | same => rfl
    | @obj ms ns hall =>
      refine evaluateCase_alike (.obj hall) (fun expected => ?_) golden weights
      rcases hright with hunnamed | hkeys
      · exact dimensionChecks_raise (.obj hall) hunnamed expected
      · exact SideBySide.mapM fun dimension _ => dimensionChecks_alike (.obj hall) hwell hkeys expected dimension

/-! ## Two candidates -/

/-- Python on plain names and whole floats, with exact decimals and the default weights. -/
def plainPython : Python where
  floatRepr n :=
    match n with
    | .finite value _ => toString value.num ++ "." ++ toString ((value.den : ℤ) - 1)
    | .negativeZero => "-0.0"
    | .infinite _ => "inf"
  strRepr s := "'" ++ s ++ "'"
  str v := v.typeName
  repr v := v.typeName
  plainStr := textOf
  setOrder := filledOrder
  withinTolerance expected actual tolerance :=
    match expected.plain, actual.plain, tolerance.plain with
    | .num e, .num a, .num t => decide (|e - a| ≤ t)
    | _, _, _ => false
  weigh scores _ := roundTwo ((List.zipWith (fun score weight => score.2 * weight) scores [30, 25, 25, 10, 10]).sum / 100)

theorem split_point {s t u v : String} (hs : '.' ∉ s.toList) (ht : '.' ∉ t.toList) (h : s ++ "." ++ u = t ++ "." ++ v) :
    s = t ∧ u = v := by
  have hlists : s.toList ++ '.' :: u.toList = t.toList ++ '.' :: v.toList := by
    simpa using congrArg String.toList h
  have hword : ∀ {w : String}, '.' ∉ w.toList → ∀ c ∈ w.toList, c ≠ '.' := fun hw c hc heq => hw (heq ▸ hc)
  have hpoint : ∀ w : List Char, NotBefore (· ≠ '.') ('.' :: w) := notBefore_cons (not_not.mpr rfl)
  obtain ⟨hfirst, hrest⟩ := append_class (hword hs) (hword ht) (hpoint _) (hpoint _) hlists
  exact ⟨String.toList_inj.mp hfirst, String.toList_inj.mp (List.cons.inj hrest).2⟩

theorem pointless_int (n : ℤ) : '.' ∉ (toString n).toList := fun hc => (int_signs n _ hc).2.1 rfl

theorem int_text_ne (n : ℤ) : "-0" ≠ toString n := by
  intro h
  have hread : (toString n).toInt? = some n := Int.toInt?_repr n
  have hminus : "-0" = "-" ++ (0 : ℕ).repr := by decide
  rw [← h, hminus, String.toInt?_minus_append, Nat.toNat?_repr, Option.map_some, Option.some.injEq] at hread
  rw [← hread] at h
  exact absurd h (by decide)

theorem plainPython_floats (m n : Number) (hm : m.IsFinite) (hn : n.IsFinite)
    (h : plainPython.floatRepr m = plainPython.floatRepr n) : m = n := by
  have hnegative : "-0.0" = "-0" ++ "." ++ "0" := by decide
  cases m with
  | infinite => exact hm.elim
  | negativeZero =>
    cases n with
    | infinite => exact hn.elim
    | negativeZero => rfl
    | finite value isDouble =>
      exact absurd (split_point (by decide) (pointless_int _) (hnegative.symm.trans h)).1 (int_text_ne _)
  | finite value isDouble =>
    cases n with
    | infinite => exact hn.elim
    | negativeZero => exact absurd (split_point (by decide) (pointless_int _) (hnegative.symm.trans h.symm)).1 (int_text_ne _)
    | finite value' isDouble' =>
      obtain ⟨hnum, hden⟩ := split_point (pointless_int _) (pointless_int _) h
      have hnum' : value.num = value'.num := Int.repr_injective hnum
      have hden' : (value.den : ℤ) - 1 = value'.den - 1 := Int.repr_injective hden
      obtain rfl : value = value' := Rat.ext hnum' (by omega)
      rfl

theorem plainPython_legible : plainPython.Legible where
  strings s t h := by
    have hquoted : "'" ++ s ++ "'" = "'" ++ t ++ "'" := h
    simpa using hquoted
  floats := plainPython_floats
  signs n hn c hc := by
    cases n with
    | infinite => exact hn.elim
    | negativeZero =>
      have htext : "-0.0".toList = ['-', '0', '.', '0'] := by decide
      have hall : ∀ c ∈ ['-', '0', '.', '0'], c ∈ numberSigns := by simp [numberSigns]
      exact hall c (htext ▸ hc)
    | finite value isDouble =>
      have htext : c ∈ (toString value.num ++ "." ++ toString ((value.den : ℤ) - 1)).toList := hc
      rw [String.toList_append, String.toList_append, List.mem_append, List.mem_append] at htext
      rcases htext with (hc | hc) | hc
      · exact (int_signs _ c hc).1
      · obtain rfl : c = '.' := by simpa using hc
        decide
      · exact (int_signs _ c hc).1
  pointed n hn := by
    cases n with
    | infinite => exact hn.elim
    | negativeZero => exact ⟨'.', by decide, .inl rfl⟩
    | finite value isDouble =>
      refine ⟨'.', ?_, .inl rfl⟩
      show '.' ∈ (toString value.num ++ "." ++ toString ((value.den : ℤ) - 1)).toList
      simp
  zero := by decide
  negativeZero := rfl

def findsEntities (entities : List Document) : Document := .obj [("semantic", .obj [("entities", .arr entities)])]

/-- Two entities with their keys. -/
def twoEntities : List Document :=
  [.obj [("name", .str "order"), ("keys", .arr [.str "id"])], .obj [("name", .str "customer"), ("keys", .arr [])]]

theorem twoEntities_wellFormed : ∀ v ∈ twoEntities, v.WellFormed := by
  intro v hv
  simp only [twoEntities, List.mem_cons, List.not_mem_nil, or_false] at hv
  rcases hv with rfl | rfl
  · refine .obj (by decide) fun m hm => ?_
    simp only [List.mem_cons, List.not_mem_nil, or_false] at hm
    rcases hm with rfl | rfl
    · exact .scalar rfl
    · exact .arr fun v hv => List.mem_singleton.mp hv ▸ .scalar rfl
  · refine .obj (by decide) fun m hm => ?_
    simp only [List.mem_cons, List.not_mem_nil, or_false] at hm
    rcases hm with rfl | rfl
    · exact .scalar rfl
    · exact .arr (by simp)

theorem findsEntities_wellFormed {entities : List Document} (h : ∀ v ∈ entities, v.WellFormed) :
    (findsEntities entities).WellFormed := by
  refine .obj (by simp) fun m hm => ?_
  obtain rfl := List.mem_singleton.mp hm
  refine .obj (by simp) fun n hn => ?_
  obtain rfl := List.mem_singleton.mp hn
  exact .arr h

theorem findsEntities_at {entities xs : List Document} {path key : String} (hkey : key ∈ unorderedKeys path)
    (hat : (findsEntities entities).at? path key = some (.arr xs)) : xs = entities := by
  rcases unorderedKeys_cases hkey with ⟨rfl, hlist⟩ | ⟨rfl, rfl⟩
  · have hentities : ([("entities", Document.arr entities)] : Fields).lookup key = some (.arr xs) := hat
    have hmem := mem_of_lookup hentities
    obtain ⟨-, hxs⟩ := Prod.mk.inj (List.mem_singleton.mp hmem)
    exact Document.arr.inj hxs
  · cases hat

theorem twoEntities_keys : (twoEntities.map (sortKey plainPython)).Nodup := by
  decide +kernel

theorem twoEntities_distinct : ∀ x ∈ twoEntities, ∀ y ∈ twoEntities, strictEqual x y = true →
    sortKey plainPython x = sortKey plainPython y := by
  decide +kernel

/-- Lists of the two entities are compared as collections, also in a candidate. -/
theorem twoEntities_unordered :
    (∀ golden candidate' weights, Rearranged (findsEntities twoEntities) candidate' →
      (evaluateCase plainPython golden (findsEntities twoEntities) weights).map (·.verdict) =
        (evaluateCase plainPython golden candidate' weights).map (·.verdict)) ∧
    ∀ expected actual rest : List Document, (∀ v ∈ expected, v ∈ {v | v ∈ twoEntities}) →
      (∀ v ∈ actual, v ∈ {v | v ∈ twoEntities}) → (∀ v ∈ rest, v.WellFormed) →
      (accepts plainPython true (.arr (expected ++ rest)) (.arr (actual ++ rest)) = true ↔
        PermUpTo StrictlyEqual (expected ++ rest) (actual ++ rest)) := by
  have hboth := apart_of_distinct plainPython_legible twoEntities_wellFormed twoEntities_keys twoEntities_distinct
  exact ⟨((unordered_lists plainPython plainPython_legible).1 (findsEntities twoEntities)
      (findsEntities_wellFormed twoEntities_wellFormed)).mpr (.inr fun path key xs hkey hat => findsEntities_at hkey hat ▸ hboth.1),
    ((unordered_lists plainPython plainPython_legible).2 {v | v ∈ twoEntities} twoEntities_wellFormed).mpr hboth⟩

/-- An entity without attributes, and two with one. -/
def attributes (second third : Document) : List Document := [.obj [], .obj [("a", second)], .obj [("a", third)]]

/-- An empty object and an empty list have one sort key. The candidate that finds what is expected
    passes, and fails once the two entities are swapped. -/
theorem swapped_refused :
    Rearranged (findsEntities (attributes empty noItems)) (findsEntities (attributes noItems empty)) ∧
      (evaluateCase plainPython (.obj [("id", .str "case"), ("expected", findsEntities (attributes empty noItems))])
        (findsEntities (attributes empty noItems)) none).map (·.passed) = .ok true ∧
      (evaluateCase plainPython (.obj [("id", .str "case"), ("expected", findsEntities (attributes empty noItems))])
        (findsEntities (attributes noItems empty)) none).map (·.passed) = .ok false ∧
      PermUpTo StrictlyEqual (attributes empty noItems) (attributes noItems empty) ∧
      accepts plainPython true (.arr (attributes empty noItems)) (.arr (attributes noItems empty)) = false := by
  have hperm : (attributes empty noItems).Perm (attributes noItems empty) := .cons _ (.swap ..)
  refine ⟨.obj (.cons ⟨rfl, .obj (.cons ⟨rfl, .inr ⟨by decide, _, _, rfl, rfl, hperm⟩⟩ .nil)⟩ .nil), by decide +kernel,
    by decide +kernel, ⟨attributes empty noItems, hperm, List.forall₂_same.mpr ?_⟩, by decide +kernel⟩
  simp only [attributes, List.forall_mem_cons]
  exact ⟨rfl, rfl, rfl, by simp⟩

/-- Zero with either sign is one number, and a number can sort between the two. -/
example : strictEqual (.float .negativeZero trivial) (.float .zero trivial) = true ∧
    accepts plainPython true (.arr [.float .negativeZero trivial, .int (-1)]) (.arr [.int (-1), .float .zero trivial]) = false := by
  decide +kernel

end DataNexus.Evals
