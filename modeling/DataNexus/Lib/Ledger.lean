/-
  DataNexus.Lib.Ledger — what a set of holders is charged for.

  A holder accounts for bytes of its own or for shared items; a shared item is charged
  once, however many live holders hold it. `charge` is the total, `holders` the live
  holders of an item. The lemmas say what the total and the holders become when a holder
  arrives, when it turns its bytes into shared items, and when it leaves: then exactly the
  items it alone held are no longer charged.
-/

import Mathlib

namespace DataNexus.Lib.Ledger

inductive Holding (ι : Type) where
  | bytes (n : Nat)
  | shared (items : Finset ι)

variable {κ ι : Type} [DecidableEq κ] [DecidableEq ι]

/-- The bytes of a holding that no other holder can share. -/
def Holding.own : Holding ι → Nat
  | .bytes n => n
  | .shared _ => 0

def Holding.items : Holding ι → Finset ι
  | .bytes _ => ∅
  | .shared items => items

/-- What the holding is worth on its own. -/
def Holding.weight (size : ι → Nat) : Holding ι → Nat
  | .bytes n => n
  | .shared items => ∑ i ∈ items, size i

def Holding.isShared : Holding ι → Bool
  | .bytes _ => false
  | .shared _ => true

/-- The live holders of an item. -/
def holders (live : Finset κ) (hold : κ → Holding ι) (i : ι) : Finset κ :=
  live.filter fun k => i ∈ (hold k).items

/-- The items some live holder holds. -/
def held (live : Finset κ) (hold : κ → Holding ι) : Finset ι := live.biUnion fun k => (hold k).items

def charge (size : ι → Nat) (live : Finset κ) (hold : κ → Holding ι) : Nat :=
  ∑ k ∈ live, (hold k).own + ∑ i ∈ held live hold, size i

variable {size : ι → Nat} {live : Finset κ} {hold : κ → Holding ι} {k : κ} {i : ι}

omit [DecidableEq κ] in
theorem mem_holders {x : κ} : x ∈ holders live hold i ↔ x ∈ live ∧ i ∈ (hold x).items := Finset.mem_filter

omit [DecidableEq κ] in
theorem mem_held : i ∈ held live hold ↔ (holders live hold i).card ≠ 0 := by
  rw [held, Finset.mem_biUnion, Finset.card_ne_zero]
  constructor
  · intro h
    obtain ⟨x, hx, hi⟩ := h
    exact ⟨x, mem_holders.mpr ⟨hx, hi⟩⟩
  · intro h
    obtain ⟨x, hx⟩ := h
    exact ⟨x, (mem_holders.mp hx).1, (mem_holders.mp hx).2⟩

/-! ## A holder arrives -/

theorem holders_insert_bytes (hk : k ∉ live) (n : Nat) :
    holders (insert k live) (Function.update hold k (.bytes n)) i = holders live hold i := by
  ext x
  rw [mem_holders, mem_holders, Finset.mem_insert]
  by_cases hx : x = k
  · subst hx
    simp [Holding.items, hk]
  · simp [hx]

theorem charge_insert_bytes (hk : k ∉ live) (n : Nat) :
    charge size (insert k live) (Function.update hold k (.bytes n)) = charge size live hold + n := by
  have hheld : held (insert k live) (Function.update hold k (.bytes n)) = held live hold := by
    ext i
    rw [mem_held, mem_held, holders_insert_bytes hk]
  have hown : ∑ x ∈ live, (Function.update hold k (.bytes n) x).own = ∑ x ∈ live, (hold x).own := by
    refine Finset.sum_congr rfl fun x hx => ?_
    have hne : x ≠ k := by
      intro e
      exact hk (e ▸ hx)
    rw [Function.update_of_ne hne]
  rw [charge, charge, hheld, Finset.sum_insert hk, hown, Function.update_self]
  show n + _ + _ = _
  omega

/-! ## A holder turns its bytes into shared items -/

theorem holders_share {n : Nat} (hk : k ∈ live) (hbytes : hold k = .bytes n) (items : Finset ι) :
    (holders live (Function.update hold k (.shared items)) i).card =
      (holders live hold i).card + if i ∈ items then 1 else 0 := by
  have hnot : k ∉ holders live hold i := by
    rw [mem_holders, hbytes]
    simp [Holding.items]
  by_cases hi : i ∈ items
  · have : holders live (Function.update hold k (.shared items)) i = insert k (holders live hold i) := by
      ext x
      rw [Finset.mem_insert, mem_holders, mem_holders]
      by_cases hx : x = k
      · subst hx
        simp [Holding.items, hk, hi]
      · simp [hx]
    rw [this, Finset.card_insert_of_notMem hnot, if_pos hi]
  · have : holders live (Function.update hold k (.shared items)) i = holders live hold i := by
      ext x
      rw [mem_holders, mem_holders]
      by_cases hx : x = k
      · subst hx
        simp [Holding.items, hi, hbytes]
      · simp [hx]
    rw [this, if_neg hi, Nat.add_zero]

theorem charge_share {n : Nat} (hk : k ∈ live) (hbytes : hold k = .bytes n) (items : Finset ι) :
    charge size live (Function.update hold k (.shared items)) + n =
      charge size live hold + ∑ i ∈ items with (holders live hold i).card = 0, size i := by
  have hheld : held live (Function.update hold k (.shared items)) =
      held live hold ∪ items.filter fun i => (holders live hold i).card = 0 := by
    ext i
    rw [Finset.mem_union, Finset.mem_filter, mem_held, mem_held, holders_share hk hbytes]
    by_cases hi : i ∈ items
    · simp [hi, em']
    · simp [hi]
  have hdisjoint : Disjoint (held live hold) (items.filter fun i => (holders live hold i).card = 0) := by
    refine Finset.disjoint_left.mpr fun i hi hnone => ?_
    exact mem_held.mp hi (Finset.mem_filter.mp hnone).2
  have hown : ∑ x ∈ live, (Function.update hold k (.shared items) x).own + n = ∑ x ∈ live, (hold x).own := by
    rw [← Finset.add_sum_erase live _ hk, ← Finset.add_sum_erase live (fun x => (hold x).own) hk,
      Function.update_self, hbytes]
    have hrest : ∑ x ∈ live.erase k, (Function.update hold k (.shared items) x).own =
        ∑ x ∈ live.erase k, (hold x).own := by
      refine Finset.sum_congr rfl fun x hx => ?_
      rw [Function.update_of_ne (Finset.ne_of_mem_erase hx)]
    rw [hrest]
    show 0 + _ + n = n + _
    omega
  rw [charge, charge, hheld, Finset.sum_union hdisjoint]
  omega

/-! ## A holder leaves -/

theorem holders_erase : holders (live.erase k) hold i = (holders live hold i).erase k := by
  ext x
  simp only [mem_holders, Finset.mem_erase]
  tauto

theorem card_holders_erase (hk : k ∈ live) :
    (holders (live.erase k) hold i).card = (holders live hold i).card - if i ∈ (hold k).items then 1 else 0 := by
  rw [holders_erase]
  by_cases hi : i ∈ (hold k).items
  · rw [Finset.card_erase_of_mem (mem_holders.mpr ⟨hk, hi⟩), if_pos hi]
  · rw [Finset.erase_eq_of_notMem (fun h => hi (mem_holders.mp h).2), if_neg hi, Nat.sub_zero]

theorem charge_erase (hk : k ∈ live) :
    charge size (live.erase k) hold + (hold k).own +
        ∑ i ∈ (hold k).items with (holders live hold i).card = 1, size i =
      charge size live hold := by
  have hheld : held live hold = held (live.erase k) hold ∪
      (hold k).items.filter fun i => (holders live hold i).card = 1 := by
    ext i
    rw [Finset.mem_union, Finset.mem_filter, mem_held, mem_held, card_holders_erase hk]
    by_cases hi : i ∈ (hold k).items
    · simp only [hi, if_true, true_and]
      omega
    · simp [hi]
  have hdisjoint : Disjoint (held (live.erase k) hold)
      ((hold k).items.filter fun i => (holders live hold i).card = 1) := by
    refine Finset.disjoint_left.mpr fun i hi hone => ?_
    obtain ⟨hmem, hcard⟩ := Finset.mem_filter.mp hone
    rw [mem_held, card_holders_erase hk, hcard, if_pos hmem] at hi
    exact hi rfl
  rw [charge, charge, hheld, Finset.sum_union hdisjoint, ← Finset.add_sum_erase live _ hk]
  omega

theorem charge_erase_le : charge size (live.erase k) hold ≤ charge size live hold := by
  by_cases hk : k ∈ live
  · rw [← charge_erase hk]
    omega
  · rw [Finset.erase_eq_of_notMem hk]

end DataNexus.Lib.Ledger
