/-
  DataNexus.Lib.Relational — rows, grouping and joins over bags.

  A row gives every column a value; a bag of rows is a multiset. `grouped` is GROUP BY:
  one row for each key, or one row in all where there are no keys. A test of one column
  commutes with each operator that passes the column on: keeping the rows of the result
  that satisfy it is the operator on the rows that satisfy it (`filter_grouped`,
  `filter_innerJoin_left`, and so on). For the right side of a left join this needs a test
  that null fails, and the join becomes an inner one.
-/

import Mathlib

namespace DataNexus.Lib.Relational

variable {κ V : Type}

abbrev Row (κ V : Type) := κ → V

/-- The rows whose value at `c` passes. -/
def passing (test : V → Bool) (c : κ) (rows : Multiset (Row κ V)) : Multiset (Row κ V) :=
  rows.filter fun r => test (r c)

theorem passing_filter {test : V → Bool} {c : κ} {p : Row κ V → Bool} {rows : Multiset (Row κ V)} :
    passing test c (rows.filter fun r => p r) = (passing test c rows).filter fun r => p r := by
  rw [passing, passing, Multiset.filter_filter, Multiset.filter_filter]
  exact Multiset.filter_congr fun _ _ => and_comm

theorem passing_map {test : V → Bool} {c d : κ} {f : Row κ V → Row κ V} (h : ∀ r, f r d = r c)
    {rows : Multiset (Row κ V)} : passing test d (rows.map f) = (passing test c rows).map f := by
  rw [passing, passing, Multiset.filter_map]
  simp [h]

theorem passing_bind {test : V → Bool} {c : κ} {ls : Multiset (Row κ V)} {f : Row κ V → Multiset (Row κ V)}
    (hf : ∀ l, ∀ r ∈ f l, r c = l c) :
    passing test c (ls.bind f) = (passing test c ls).bind f := by
  rw [passing, Multiset.filter_bind, passing, Multiset.bind_filter]
  refine Multiset.bind_congr fun l _ => ?_
  split
  · next h => exact Multiset.filter_eq_self.mpr fun r hr => by rwa [hf l r hr]
  · next h => exact Multiset.filter_eq_nil.mpr fun r hr => by rwa [hf l r hr]

/-! ## Grouping -/

def keysOf (keys : List κ) (r : Row κ V) : List V := keys.map r

theorem keysOf_apply {keys : List κ} {r r' : Row κ V} (h : keysOf keys r = keysOf keys r') {c : κ} (hc : c ∈ keys) :
    r c = r' c :=
  List.map_inj_left.mp h c hc

theorem lookup_zip_keysOf [DecidableEq κ] {keys : List κ} {c : κ} (hc : c ∈ keys) (r : Row κ V) :
    (keys.zip (keysOf keys r)).lookup c = some (r c) := by
  induction keys with
  | nil => cases hc
  | cons k keys ih =>
    show List.lookup c ((k, r k) :: keys.zip (keysOf keys r)) = some (r c)
    by_cases h : c = k
    · subst h
      simp
    · rw [List.lookup_cons, beq_false_of_ne h]
      exact ih (List.mem_of_ne_of_mem h hc)

section Grouping

variable [DecidableEq V]

/-- The keys that pass are the keys of the rows that do. -/
theorem dedup_passing {keys : List κ} {test : V → Bool} {c : κ} {rows : Multiset (Row κ V)} (row : List V → Row κ V)
    (hrow : ∀ r, row (keysOf keys r) c = r c) :
    (rows.map (keysOf keys)).dedup.filter (fun k => test (row k c)) =
      ((passing test c rows).map (keysOf keys)).dedup := by
  refine (Multiset.Nodup.ext ((Multiset.nodup_dedup _).filter _) (Multiset.nodup_dedup _)).mpr fun k => ?_
  simp only [Multiset.mem_filter, Multiset.mem_dedup, Multiset.mem_map, passing]
  constructor
  · intro h
    obtain ⟨⟨r, hr, rfl⟩, ht⟩ := h
    exact ⟨r, ⟨hr, by rwa [hrow] at ht⟩, rfl⟩
  · intro h
    obtain ⟨r, ⟨hr, ht⟩, rfl⟩ := h
    exact ⟨⟨r, hr, rfl⟩, by rwa [hrow]⟩

variable [DecidableEq κ]

/-- The row of the group with key `k`. -/
def groupRow (keys : List κ) (cell : Multiset (Row κ V) → κ → V) (rows : Multiset (Row κ V)) (k : List V) : Row κ V :=
  fun c => ((keys.zip k).lookup c).getD (cell (rows.filter fun r => keysOf keys r = k) c)

/-- GROUP BY; a row takes the columns outside the keys from `cell` of its group. -/
def grouped (keys : List κ) (cell : Multiset (Row κ V) → κ → V) (rows : Multiset (Row κ V)) : Multiset (Row κ V) :=
  if keys = [] then {cell rows} else (rows.map (keysOf keys)).dedup.map (groupRow keys cell rows)

theorem groupRow_key {keys : List κ} {cell : Multiset (Row κ V) → κ → V} {rows : Multiset (Row κ V)} {c : κ}
    (hc : c ∈ keys) (r : Row κ V) : groupRow keys cell rows (keysOf keys r) c = r c := by
  rw [groupRow, lookup_zip_keysOf hc]
  rfl

/-- The groups whose key passes are the groups of the rows that pass. -/
theorem passing_grouped {keys : List κ} {cell : Multiset (Row κ V) → κ → V} {test : V → Bool} {c : κ} (hc : c ∈ keys)
    {rows : Multiset (Row κ V)} :
    passing test c (grouped keys cell rows) = grouped keys cell (passing test c rows) := by
  have hne : keys ≠ [] := List.ne_nil_of_mem hc
  rw [grouped, grouped, if_neg hne, if_neg hne, passing, Multiset.filter_map]
  refine Multiset.map_congr (dedup_passing _ (groupRow_key hc)) fun k hk => ?_
  -- A group that passes has no row that does not.
  obtain ⟨r, hr, rfl⟩ := Multiset.mem_map.mp (Multiset.mem_dedup.mp hk)
  have hsame : rows.filter (fun q => keysOf keys q = keysOf keys r) =
      (passing test c rows).filter (fun q => keysOf keys q = keysOf keys r) := by
    rw [passing, Multiset.filter_filter]
    refine Multiset.filter_congr fun q _ => ?_
    constructor
    · intro h
      exact ⟨h, by rw [keysOf_apply h hc]; exact (Multiset.mem_filter.mp hr).2⟩
    · intro h
      exact h.1
  funext d
  rw [groupRow, groupRow, hsame]

end Grouping

/-! ## Joins -/

variable [DecidableEq κ] (columns : List κ) (joins : Row κ V → Row κ V → Bool)

/-- A left row with `columns` beside a right row. -/
def merge (l r : Row κ V) : Row κ V := fun c => if c ∈ columns then l c else r c

def matching (rs : Multiset (Row κ V)) (l : Row κ V) : Multiset (Row κ V) := rs.filter fun r => joins l r

def innerJoin (ls rs : Multiset (Row κ V)) : Multiset (Row κ V) :=
  ls.bind fun l => (matching joins rs l).map (merge columns l)

/-- A left row that matches nothing stays, beside nulls. -/
def leftJoin (null : V) (ls rs : Multiset (Row κ V)) : Multiset (Row κ V) :=
  ls.bind fun l =>
    if (matching joins rs l).card = 0 then {merge columns l fun _ => null} else (matching joins rs l).map (merge columns l)

variable {columns joins} {test : V → Bool} {c : κ} {ls rs : Multiset (Row κ V)}

theorem merge_left (hc : c ∈ columns) (l r : Row κ V) : merge columns l r c = l c := if_pos hc

theorem merge_right (hc : c ∉ columns) (l r : Row κ V) : merge columns l r c = r c := if_neg hc

theorem passing_innerJoin_left (hc : c ∈ columns) :
    passing test c (innerJoin columns joins ls rs) = innerJoin columns joins (passing test c ls) rs := by
  refine passing_bind fun l r hr => ?_
  obtain ⟨q, -, rfl⟩ := Multiset.mem_map.mp hr
  exact merge_left hc l q

theorem passing_leftJoin_left {null : V} (hc : c ∈ columns) :
    passing test c (leftJoin columns joins null ls rs) = leftJoin columns joins null (passing test c ls) rs := by
  refine passing_bind fun l r hr => ?_
  split at hr
  · rw [Multiset.mem_singleton.mp hr]
    exact merge_left hc l _
  · obtain ⟨q, -, rfl⟩ := Multiset.mem_map.mp hr
    exact merge_left hc l q

theorem passing_matching (hc : c ∉ columns) (l : Row κ V) :
    passing test c ((matching joins rs l).map (merge columns l)) =
      (matching joins (passing test c rs) l).map (merge columns l) := by
  rw [passing_map (merge_right hc l), matching, passing_filter]
  rfl

theorem passing_innerJoin_right (hc : c ∉ columns) :
    passing test c (innerJoin columns joins ls rs) = innerJoin columns joins ls (passing test c rs) := by
  rw [passing, innerJoin, Multiset.filter_bind]
  exact Multiset.bind_congr fun l _ => passing_matching hc l

/-- Only matched rows pass a test that null fails. -/
theorem passing_leftJoin_right {null : V} (hnull : test null = false) (hc : c ∉ columns) :
    passing test c (leftJoin columns joins null ls rs) = innerJoin columns joins ls (passing test c rs) := by
  rw [passing, leftJoin, Multiset.filter_bind]
  refine Multiset.bind_congr fun l _ => ?_
  split
  · next h =>
    have hnone : matching joins (passing test c rs) l = 0 := by
      rw [matching, ← passing_filter, show rs.filter (fun r => joins l r = true) = 0 from Multiset.card_eq_zero.mp h]
      rfl
    rw [hnone, Multiset.map_zero, Multiset.filter_singleton, if_neg (by simp [merge_right hc, hnull])]
    rfl
  · exact passing_matching hc l

end DataNexus.Lib.Relational
