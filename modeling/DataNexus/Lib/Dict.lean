/-
  DataNexus.Lib.Dict — dictionaries in insertion order.

  A `Dict` is a list of entries with distinct keys. `set` replaces a value in place and
  appends a new key, `erase` drops a key: the order of the entries is the order in which
  the keys were first set, so a loop over a dictionary is a loop over `entries`. What a
  dictionary holds is read through `get?` and `support`; `set` and `erase` are described
  once, on these two.
-/

import Mathlib

namespace DataNexus.Lib

structure Dict (κ β : Type) where
  entries : List (κ × β)
  nodup : (entries.map Prod.fst).Nodup

namespace Dict

variable {κ β : Type}

def empty : Dict κ β := ⟨[], List.nodup_nil⟩

def keys (d : Dict κ β) : List κ := d.entries.map Prod.fst

theorem nodup_keys (d : Dict κ β) : d.keys.Nodup := d.nodup

variable [DecidableEq κ]

def get? (d : Dict κ β) (k : κ) : Option β := d.entries.lookup k

def contains (d : Dict κ β) (k : κ) : Bool := (d.get? k).isSome

/-- The values of one key replaced, in place. -/
def replaced (k : κ) (b : β) (entries : List (κ × β)) : List (κ × β) :=
  entries.map fun e => if e.1 = k then (k, b) else e

theorem map_fst_replaced (k : κ) (b : β) (entries : List (κ × β)) :
    (replaced k b entries).map Prod.fst = entries.map Prod.fst := by
  rw [replaced, List.map_map]
  refine List.map_congr_left fun e _ => ?_
  by_cases h : e.1 = k
  · simp [h]
  · simp [h]

def set (d : Dict κ β) (k : κ) (b : β) : Dict κ β :=
  if h : k ∈ d.keys then ⟨replaced k b d.entries, by rw [map_fst_replaced]; exact d.nodup⟩
  else ⟨d.entries ++ [(k, b)], by
    rw [List.map_append]
    refine List.nodup_append'.mpr ⟨d.nodup, List.nodup_singleton _, ?_⟩
    intro x hx hk
    rw [List.map_singleton, List.mem_singleton] at hk
    rw [hk] at hx
    exact h hx⟩

def erase (d : Dict κ β) (k : κ) : Dict κ β :=
  ⟨d.entries.filter (·.1 ≠ k), (List.filter_sublist.map Prod.fst).nodup d.nodup⟩

/-! ## What is read back -/

@[simp] theorem get?_empty (k : κ) : (empty : Dict κ β).get? k = none := rfl

theorem lookup_replaced (k k' : κ) (b : β) (entries : List (κ × β)) :
    (replaced k b entries).lookup k' =
      if k' = k then (entries.lookup k').map fun _ => b else entries.lookup k' := by
  induction entries with
  | nil => simp [replaced]
  | cons e entries ih =>
    obtain ⟨key, x⟩ := e
    rw [replaced] at ih ⊢
    rw [List.map_cons]
    by_cases hkey : key = k
    · subst hkey
      by_cases h : k' = key
      · subst h
        simp
      · rw [if_pos rfl, List.lookup_cons, beq_false_of_ne h, List.lookup_cons, beq_false_of_ne h]
        exact ih
    · rw [if_neg hkey]
      by_cases h : k' = key
      · subst h
        simp [hkey]
      · rw [List.lookup_cons, beq_false_of_ne h, List.lookup_cons, beq_false_of_ne h]
        exact ih

theorem lookup_isSome {entries : List (κ × β)} {k : κ} :
    (entries.lookup k).isSome = true ↔ k ∈ entries.map Prod.fst := by
  induction entries with
  | nil => simp
  | cons e entries ih =>
    obtain ⟨key, x⟩ := e
    by_cases h : k = key
    · subst h
      simp
    · rw [List.lookup_cons, beq_false_of_ne h]
      simp [ih, h]

theorem lookup_filter_ne (k k' : κ) (entries : List (κ × β)) :
    (entries.filter (·.1 ≠ k)).lookup k' = if k' = k then none else entries.lookup k' := by
  induction entries with
  | nil => simp
  | cons e entries ih =>
    obtain ⟨key, x⟩ := e
    by_cases hkey : key = k
    · subst hkey
      rw [List.filter_cons_of_neg (by simp), ih]
      by_cases h : k' = key
      · rw [if_pos h, if_pos h]
      · rw [if_neg h, if_neg h, List.lookup_cons, beq_false_of_ne h]
    · rw [List.filter_cons_of_pos (by simpa using hkey)]
      by_cases h : k' = key
      · subst h
        simp [hkey]
      · rw [List.lookup_cons, beq_false_of_ne h, List.lookup_cons, beq_false_of_ne h, ih]

theorem mem_keys {d : Dict κ β} {k : κ} : k ∈ d.keys ↔ (d.get? k).isSome = true := lookup_isSome.symm

theorem get?_set (d : Dict κ β) (k k' : κ) (b : β) :
    (d.set k b).get? k' = if k' = k then some b else d.get? k' := by
  unfold set
  split
  case isTrue h =>
    show (replaced k b d.entries).lookup k' = _
    rw [lookup_replaced]
    by_cases hk : k' = k
    · subst hk
      obtain ⟨x, hx⟩ := Option.isSome_iff_exists.mp (mem_keys.mp h)
      rw [if_pos rfl, if_pos rfl, show d.entries.lookup k' = some x from hx]
      rfl
    · rw [if_neg hk, if_neg hk]
      rfl
  case isFalse h =>
    show (d.entries ++ [(k, b)]).lookup k' = _
    rw [List.lookup_append]
    by_cases hk : k' = k
    · subst hk
      have hnone : d.get? k' = none := Option.not_isSome_iff_eq_none.mp fun hsome => h (mem_keys.mpr hsome)
      rw [show d.entries.lookup k' = none from hnone, if_pos rfl]
      simp
    · rw [if_neg hk, List.lookup_cons, beq_false_of_ne hk, List.lookup_nil, Option.or_none]
      rfl

@[simp] theorem get?_set_self (d : Dict κ β) (k : κ) (b : β) : (d.set k b).get? k = some b := by
  rw [get?_set, if_pos rfl]

theorem get?_set_ne (d : Dict κ β) {k k' : κ} (b : β) (h : k' ≠ k) : (d.set k b).get? k' = d.get? k' := by
  rw [get?_set, if_neg h]

theorem get?_erase (d : Dict κ β) (k k' : κ) :
    (d.erase k).get? k' = if k' = k then none else d.get? k' := lookup_filter_ne k k' d.entries

@[simp] theorem get?_erase_self (d : Dict κ β) (k : κ) : (d.erase k).get? k = none := by
  rw [get?_erase, if_pos rfl]

theorem get?_erase_ne (d : Dict κ β) {k k' : κ} (h : k' ≠ k) : (d.erase k).get? k' = d.get? k' := by
  rw [get?_erase, if_neg h]

/-! ## The keys as a finite set -/

def support (d : Dict κ β) : Finset κ := d.keys.toFinset

theorem mem_support {d : Dict κ β} {k : κ} : k ∈ d.support ↔ (d.get? k).isSome = true := by
  rw [support, List.mem_toFinset, mem_keys]

theorem not_mem_support {d : Dict κ β} {k : κ} : k ∉ d.support ↔ d.get? k = none := by
  rw [mem_support]
  simp

theorem mem_support_of_get? {d : Dict κ β} {k : κ} {b : β} (h : d.get? k = some b) : k ∈ d.support := by
  rw [mem_support, h]
  rfl

@[simp] theorem support_empty : (empty : Dict κ β).support = ∅ := rfl

@[simp] theorem support_set (d : Dict κ β) (k : κ) (b : β) : (d.set k b).support = insert k d.support := by
  ext x
  rw [Finset.mem_insert, mem_support, mem_support, get?_set]
  by_cases h : x = k
  · simp [h]
  · simp [h]

@[simp] theorem support_erase (d : Dict κ β) (k : κ) : (d.erase k).support = d.support.erase k := by
  ext x
  rw [Finset.mem_erase, mem_support, mem_support, get?_erase]
  by_cases h : x = k
  · simp [h]
  · simp [h]

theorem mem_keys_iff_mem_support {d : Dict κ β} {k : κ} : k ∈ d.keys ↔ k ∈ d.support := by
  rw [mem_keys, mem_support]

theorem get?_of_mem_entries {d : Dict κ β} {k : κ} {b : β} (h : (k, b) ∈ d.entries) : d.get? k = some b := by
  obtain ⟨entries, hnodup⟩ := d
  show entries.lookup k = some b
  replace h : (k, b) ∈ entries := h
  induction entries with
  | nil => cases h
  | cons e entries ih =>
    obtain ⟨key, x⟩ := e
    rw [List.map_cons, List.nodup_cons] at hnodup
    rcases List.mem_cons.mp h with heq | hmem
    · cases heq
      simp
    · have hne : k ≠ key := by
        intro e
        exact hnodup.1 (List.mem_map.mpr ⟨(k, b), hmem, e⟩)
      rw [List.lookup_cons, beq_false_of_ne hne]
      exact ih hnodup.2 hmem

end Dict

end DataNexus.Lib
