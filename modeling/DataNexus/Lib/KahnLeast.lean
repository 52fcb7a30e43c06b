/-
  DataNexus.Lib.KahnLeast — which order Kahn's algorithm finds, and when it finds none.

  `run` keeps its ready list sorted, so at every step it emits the least key whose dependencies
  are out (`run_least`). An order with that property comes first among all orders in which
  dependencies come first (`lex_of_least`): where another one departs from it, the key it takes
  could have been taken here and was not the least. What is not emitted waits for something that
  is not emitted either, so there is a cycle (`cycle_of_stuck`); no order goes round one
  (`not_cycle_of_closed`).
-/

import DataNexus.Lib.Kahn

namespace DataNexus.Lib.Kahn

variable {κ : Type} [LinearOrder κ]

/-! ## The ready list is sorted -/

theorem sorted_pairwise (ks : List κ) : (sorted ks).Pairwise (· ≤ ·) := List.pairwise_insertionSort _ ks

variable {nodes : List (κ × List κ)}

theorem relax_sorted {s : State κ} (h : s.ready.Pairwise (· ≤ ·)) (child : κ) :
    (relax s child).ready.Pairwise (· ≤ ·) := by
  simp only [relax]
  split
  · exact sorted_pairwise _
  · exact h

theorem foldl_relax_sorted {s : State κ} (h : s.ready.Pairwise (· ≤ ·)) (due : List κ) :
    (due.foldl relax s).ready.Pairwise (· ≤ ·) := by
  induction due generalizing s with
  | nil => exact h
  | cons child due ih => exact ih (relax_sorted h child)

theorem emit_sorted {s : State κ} {k : κ} {rest : List κ} (h : s.ready.Pairwise (· ≤ ·)) (hr : s.ready = k :: rest) :
    (emit nodes s k rest).ready.Pairwise (· ≤ ·) := by
  rw [hr] at h
  exact foldl_relax_sorted (List.Pairwise.of_cons h) _

/-! ## The least key that can be emitted -/

/-- The key is the least whose dependencies are out, when these are. -/
def LeastAfter (nodes : List (κ × List κ)) (out : List κ) (k : κ) : Prop :=
  ∀ n ∈ nodes, n.1 ∉ out → n.2 ⊆ out → k ≤ n.1

/-- Every key of the order was the least in its turn. -/
def Least (nodes : List (κ × List κ)) (order : List κ) : Prop :=
  ∀ pre k post, order = pre ++ k :: post → LeastAfter nodes pre k

theorem least_append {order : List κ} {k : κ} (h : Least nodes order) (hk : LeastAfter nodes order k) :
    Least nodes (order ++ [k]) := by
  intro pre k' post e
  rcases List.eq_nil_or_concat post with rfl | ⟨post, last, rfl⟩
  · obtain ⟨rfl, hlast⟩ := List.append_inj' e rfl
    obtain rfl : k = k' := by simpa using hlast
    exact hk
  · rw [List.concat_eq_append, ← List.cons_append, ← List.append_assoc] at e
    obtain ⟨rfl, -⟩ := List.append_inj' e rfl
    exact h pre k' post rfl

theorem emit_least {s : State κ} {k : κ} {rest : List κ} (hmid : Mid nodes s [])
    (hsorted : s.ready.Pairwise (· ≤ ·)) (hr : s.ready = k :: rest) (h : Least nodes s.order) :
    Least nodes (emit nodes s k rest).order := by
  rw [emit, foldl_relax_order]
  refine least_append h ?_
  intro n hn hout hdeps
  -- what could be emitted is ready
  have hdeg := hmid.deg n hn
  rw [unmet_eq_zero.mpr hdeps, List.count_nil] at hdeg
  have hready : n.1 ∈ s.ready := (hmid.ready n.1 (List.mem_map.mpr ⟨n, hn, rfl⟩)).mpr ⟨by simpa using hdeg, hout⟩
  rw [hr] at hready hsorted
  rcases List.mem_cons.mp hready with heq | hmem
  · exact heq.ge
  · exact (List.pairwise_cons.mp hsorted).1 n.1 hmem

theorem loop_least (hw : WellFormed nodes) {s : State κ} (hmid : Mid nodes s [])
    (hsorted : s.ready.Pairwise (· ≤ ·)) (h : Least nodes s.order) (fuel : Nat) :
    Least nodes (loop nodes fuel s).order := by
  induction fuel generalizing s with
  | zero => exact h
  | succ fuel ih =>
    unfold loop
    split
    · exact h
    · rename_i k rest hr
      exact ih (emit_mid hw hmid hr) (emit_sorted hsorted hr) (emit_least hmid hsorted hr h)

theorem run_least (hw : WellFormed nodes) : Least nodes (run nodes) := by
  refine loop_least hw (init_mid hw) (sorted_pairwise _) ?_ _
  intro pre k post e
  simp [init] at e

/-! ## The first of all orders -/

/-- Every key comes after its dependencies. -/
def Closed (nodes : List (κ × List κ)) (order : List κ) : Prop :=
  ∀ pre k post, order = pre ++ k :: post → ∀ n ∈ nodes, n.1 = k → n.2 ⊆ pre

theorem run_isClosed (hw : WellFormed nodes) : Closed nodes (run nodes) := by
  rintro pre k post e n hn rfl
  exact run_closed hw e hn

theorem lex_from (out : List κ) {order other : List κ} (hleast : Least nodes (out ++ order))
    (hclosed : Closed nodes (out ++ other)) (hnodup : (out ++ other).Nodup)
    (hkeys : ∀ k ∈ out ++ other, k ∈ keys nodes) (hlength : order.length = other.length) :
    order = other ∨ List.Lex (· < ·) order other := by
  induction order generalizing out other with
  | nil =>
    left
    exact (List.eq_nil_of_length_eq_zero hlength.symm).symm
  | cons k order ih =>
    cases other with
    | nil => cases hlength
    | cons k' other =>
      -- `k'` could be taken here as well
      have hle : k ≤ k' := by
        obtain ⟨n, hn, rfl⟩ := List.mem_map.mp (hkeys k' (by simp))
        refine hleast out k order rfl n hn ?_ (hclosed out n.1 other rfl n hn rfl)
        intro hmem
        exact (List.nodup_append.mp hnodup).2.2 n.1 hmem n.1 (by simp) rfl
      rcases hle.lt_or_eq with hlt | rfl
      · exact .inr (.rel hlt)
      · have hassoc : ∀ l : List κ, out ++ k :: l = (out ++ [k]) ++ l := fun l => by simp
        rw [hassoc] at hleast hclosed hnodup hkeys
        rcases ih _ hleast hclosed hnodup hkeys (by simpa using hlength) with rfl | hlex
        · exact .inl rfl
        · exact .inr (.cons hlex)

/-- An order that takes the least key in every turn comes before every other order of its keys. -/
theorem lex_of_least {order other : List κ} (hleast : Least nodes order) (hclosed : Closed nodes other)
    (hnodup : (keys nodes).Nodup) (horder : order.Perm (keys nodes)) (hother : other.Perm (keys nodes)) :
    order = other ∨ List.Lex (· < ·) order other :=
  lex_from [] hleast hclosed (hother.nodup_iff.mpr hnodup) (fun _ hk => hother.subset hk)
    (horder.length_eq.trans hother.length_eq.symm)

/-! ## Cycles -/

/-- The first key lists the second. -/
def Lists (nodes : List (κ × List κ)) (k d : κ) : Prop := ∃ n ∈ nodes, n.1 = k ∧ d ∈ n.2

theorem not_cycle_of_closed {order : List κ} (hclosed : Closed nodes order) (horder : keys nodes ⊆ order)
    (k : κ) : ¬ Relation.TransGen (Lists nodes) k k := by
  -- what a key lists has a smaller index
  have hstep : ∀ {k d : κ}, Lists nodes k d → order.idxOf d < order.idxOf k := by
    rintro k d ⟨n, hn, rfl, hd⟩
    obtain ⟨pre, post, hsplit, hout⟩ := List.eq_append_cons_of_mem (horder (List.mem_map.mpr ⟨n, hn, rfl⟩))
    have hmem : d ∈ pre := hclosed pre n.1 post hsplit n hn rfl hd
    rw [hsplit, List.idxOf_append_of_mem hmem, List.idxOf_append_of_notMem hout, List.idxOf_cons_self]
    have := List.idxOf_lt_length_of_mem hmem
    omega
  have htrans : ∀ {k d : κ}, Relation.TransGen (Lists nodes) k d → order.idxOf d < order.idxOf k := by
    intro k d h
    induction h with
    | single h => exact hstep h
    | tail _ h ih => exact (hstep h).trans ih
  intro h
  exact absurd (htrans h) (lt_irrefl _)

omit [LinearOrder κ] in
/-- Where each of some keys lists one of them, there is a cycle. -/
theorem exists_cycle (stuck : List κ) (hne : stuck ≠ []) (h : ∀ k ∈ stuck, ∃ d ∈ stuck, Lists nodes k d) :
    ∃ k, Relation.TransGen (Lists nodes) k k := by
  by_contra hnone
  have hirrefl : ∀ k, ¬ Relation.TransGen (Lists nodes) k k := fun k hk => hnone ⟨k, hk⟩
  let below : {k // k ∈ stuck} → {k // k ∈ stuck} → Prop := fun d k => Relation.TransGen (Lists nodes) k.1 d.1
  have : Finite {k // k ∈ stuck} := (List.finite_toSet stuck).to_subtype
  have : IsTrans _ below := ⟨fun _ _ _ hab hbc => hbc.trans hab⟩
  have : Std.Irrefl below := ⟨fun k => hirrefl k.1⟩
  have hwf : WellFounded below := Finite.wellFounded_of_trans_of_irrefl below
  obtain ⟨first, hfirst⟩ := List.exists_mem_of_ne_nil stuck hne
  obtain ⟨least, -, hleast⟩ := hwf.has_min Set.univ ⟨⟨first, hfirst⟩, trivial⟩
  obtain ⟨d, hd, hlists⟩ := h least.1 least.2
  exact hleast ⟨d, hd⟩ trivial (.single hlists)

/-- What `run` leaves out waits for something it leaves out. -/
theorem stuck_lists (hw : WellFormed nodes) {k : κ} (hk : k ∈ keys nodes) (hout : k ∉ run nodes) :
    ∃ d ∈ keys nodes, d ∉ run nodes ∧ Lists nodes k d := by
  obtain ⟨n, hn, rfl⟩ := List.mem_map.mp hk
  have hmid := run_mid hw
  have hdrained : (loop nodes nodes.length (init nodes)).ready = [] := loop_drained hw (init_mid hw) (by simp [init])
  have hunmet : unmet (run nodes) n.2 ≠ 0 := by
    intro hzero
    have hdeg := hmid.deg n hn
    have hzero' : unmet (loop nodes nodes.length (init nodes)).order n.2 = 0 := hzero
    rw [hzero', List.count_nil] at hdeg
    have hready := (hmid.ready n.1 hk).mpr ⟨by simpa using hdeg, hout⟩
    rw [hdrained] at hready
    cases hready
  obtain ⟨d, hd, hdout⟩ : ∃ d ∈ n.2, d ∉ run nodes := by
    by_contra hnone
    push Not at hnone
    exact hunmet (unmet_eq_zero.mpr hnone)
  exact ⟨d, hw.known n hn d hd, hdout, n, hn, rfl, hd⟩

/-- `run` leaves a key out exactly where the graph has a cycle. -/
theorem run_incomplete_iff (hw : WellFormed nodes) :
    (run nodes).length ≠ nodes.length ↔ ∃ k, Relation.TransGen (Lists nodes) k k := by
  constructor
  · intro hlength
    refine exists_cycle ((keys nodes).filter (· ∉ run nodes)) ?_ ?_
    · intro hnil
      have hall : keys nodes ⊆ run nodes := by
        intro k hk
        by_contra hout
        have : k ∈ (keys nodes).filter (· ∉ run nodes) := List.mem_filter.mpr ⟨hk, by simpa using hout⟩
        rw [hnil] at this
        cases this
      have hle := (List.subperm_of_subset hw.nodup hall).length_le
      have hge := (List.subperm_of_subset (run_nodup hw) (run_subset hw)).length_le
      exact hlength (by simpa [keys] using le_antisymm hge hle)
    · intro k hk
      obtain ⟨hmem, hout⟩ := List.mem_filter.mp hk
      obtain ⟨d, hd, hdout, hlists⟩ := stuck_lists hw hmem (by simpa using hout)
      exact ⟨d, List.mem_filter.mpr ⟨hd, by simpa using hdout⟩, hlists⟩
  · rintro ⟨k, hcycle⟩ hlength
    exact not_cycle_of_closed (run_isClosed hw) (run_perm hw hlength).symm.subset k hcycle

end DataNexus.Lib.Kahn
