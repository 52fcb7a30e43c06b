/-
  DataNexus.Runtime.MemoryAccounting — the budget counts exactly what its reservations hold.

  A key's holding is read off the log: the bytes of its last accepted reserve, or the
  buffers of the reconcile accepted since. `Accounts` ties the dictionaries to these
  holdings, and `current` to their charge (`Lib.Ledger`). It holds of a new budget
  (`accounts_new`) and every regular call keeps it, whatever the call raises
  (`call_accounts`); `exact_accounting` reads the budget's properties off it.
-/

import DataNexus.Lib.Ledger
import DataNexus.Runtime.MemoryBudget

namespace DataNexus.Runtime.MemoryBudget

open DataNexus.Lib DataNexus.Lib.Ledger

/-! ## Runs and what they hold -/

structure Run where
  budget : MemoryBudget
  log : List (Op × Option BudgetFailure) := []

/-- A key's holding after one more call. -/
def noted (entry : Op × Option BudgetFailure) (key : Key) (holding : Holding BufferIdentity) : Holding BufferIdentity :=
  match entry with
  | (.reserve runId nodeId size, none) => if key = (runId, nodeId) then .bytes size else holding
  | (.reconcile runId nodeId table, none) =>
    if key = (runId, nodeId) then .shared (retainedBufferSizes table).support else holding
  | _ => holding

namespace Run

def new (maximum : Nat) : Run := ⟨{ maximum }, []⟩

def next (clamp : Int → Int) (r : Run) (op : Op) : Run :=
  let called := r.budget.call clamp op
  ⟨called.1, r.log ++ [(op, called.2)]⟩

def execute (clamp : Int → Int) (r : Run) (ops : List Op) : Run := ops.foldl (next clamp) r

def holding (r : Run) (key : Key) : Holding BufferIdentity :=
  r.log.foldl (fun holding entry => noted entry key holding) (.bytes 0)

def live (r : Run) : Finset Key := r.budget.reservations.support

/-- A key is reserved only while it has no reservation, and reconciled at most once per
    reservation. -/
def Admits (r : Run) : Op → Prop
  | .reserve runId nodeId _ => (runId, nodeId) ∉ r.live
  | .reconcile runId nodeId _ => (runId, nodeId) ∈ r.live → (r.holding (runId, nodeId)).isShared = false
  | _ => True

def Regular (clamp : Int → Int) : Run → List Op → Prop
  | _, [] => True
  | r, op :: ops => r.Admits op ∧ Regular clamp (r.next clamp op) ops

instance (r : Run) (op : Op) : Decidable (r.Admits op) :=
  match op with
  | .reserve runId nodeId _ => inferInstanceAs (Decidable ((runId, nodeId) ∉ r.live))
  | .reconcile runId nodeId _ =>
    inferInstanceAs (Decidable ((runId, nodeId) ∈ r.live → (r.holding (runId, nodeId)).isShared = false))
  | .release .. | .defer .. | .retain .. | .releaseRetained .. | .releaseRun _ => inferInstanceAs (Decidable True)

instance instDecidableRegular (clamp : Int → Int) : ∀ (ops : List Op) (r : Run), Decidable (Regular clamp r ops)
  | [], _ => inferInstanceAs (Decidable True)
  | op :: ops, r =>
    let _ : Decidable (Regular clamp (r.next clamp op) ops) := instDecidableRegular clamp ops (r.next clamp op)
    inferInstanceAs (Decidable (r.Admits op ∧ Regular clamp (r.next clamp op) ops))

theorem holding_next (clamp : Int → Int) (r : Run) (op : Op) (key : Key) :
    (r.next clamp op).holding key = noted (op, (r.budget.call clamp op).2) key (r.holding key) := by
  simp [holding, next, List.foldl_append]

end Run

/-- A clamp at zero, or none. -/
def AtZero (clamp : Int → Int) : Prop := ∀ n, 0 ≤ n → clamp n = n

/-! ## The loops over buffers -/

/-- The reference count of a buffer. -/
def count (s : MemoryBudget) (identity : BufferIdentity) : Nat := (s.bufferReferences.get? identity).getD 0

/-- The same budget up to its total and its buffers. -/
structure SameReservations (s s' : MemoryBudget) : Prop where
  maximum : s'.maximum = s.maximum
  reservations : s'.reservations = s.reservations
  reservationBuffers : s'.reservationBuffers = s.reservationBuffers
  deferred : s'.deferred = s.deferred
  retainers : s'.retainers = s.retainers
  releasePending : s'.releasePending = s.releasePending

theorem SameReservations.refl (s : MemoryBudget) : SameReservations s s := ⟨rfl, rfl, rfl, rfl, rfl, rfl⟩

theorem SameReservations.trans {s s' s'' : MemoryBudget} (h : SameReservations s s') (h' : SameReservations s' s'') :
    SameReservations s s'' :=
  ⟨h'.maximum.trans h.maximum, h'.reservations.trans h.reservations,
    h'.reservationBuffers.trans h.reservationBuffers, h'.deferred.trans h.deferred, h'.retainers.trans h.retainers,
    h'.releasePending.trans h.releasePending⟩

/-- The sizes of those identities that satisfy `p`. -/
def sizesOf (p : BufferIdentity → Prop) [DecidablePred p] (identities : List BufferIdentity) : Nat :=
  ((identities.filter p).map Prod.snd).sum

theorem sizesOf_cons (p : BufferIdentity → Prop) [DecidablePred p] (i : BufferIdentity)
    (identities : List BufferIdentity) :
    sizesOf p (i :: identities) = (if p i then i.2 else 0) + sizesOf p identities := by
  unfold sizesOf
  by_cases h : p i
  · simp [h]
  · simp [h]

theorem sizesOf_congr {p q : BufferIdentity → Prop} [DecidablePred p] [DecidablePred q]
    {identities : List BufferIdentity} (h : ∀ i ∈ identities, p i ↔ q i) : sizesOf p identities = sizesOf q identities := by
  have hfilter : identities.filter p = identities.filter q := by
    refine List.filter_congr fun i hi => ?_
    simp [h i hi]
  rw [sizesOf, sizesOf, hfilter]

theorem sizesOf_eq_sum (p : BufferIdentity → Prop) [DecidablePred p] {identities : List BufferIdentity}
    (h : identities.Nodup) : sizesOf p identities = ∑ i ∈ identities.toFinset with p i, i.2 := by
  unfold sizesOf
  rw [← List.sum_toFinset Prod.snd (h.filter _), List.toFinset_filter]
  simp

structure Added (s s' : MemoryBudget) (identities : List BufferIdentity) : Prop where
  references : ∀ i, s'.bufferReferences.get? i =
    if i ∈ identities then some (count s i + 1) else s.bufferReferences.get? i
  sizes : ∀ i, s'.bufferSizes.get? i = if i ∈ identities ∧ count s i = 0 then some i.2 else s.bufferSizes.get? i
  total : s'.current = s.current + sizesOf (fun i => count s i = 0) identities
  same : SameReservations s s'

theorem addReference_added (s : MemoryBudget) (i : BufferIdentity) : Added s (s.addReference (i, i.2)) [i] := by
  unfold addReference
  by_cases h : count s i = 0
  · have hzero : (s.bufferReferences.get? i).getD 0 = 0 := h
    rw [if_pos hzero]
    refine ⟨fun j => ?_, fun j => ?_, ?_, ⟨rfl, rfl, rfl, rfl, rfl, rfl⟩⟩
    · show (s.bufferReferences.set i _).get? j = _
      rw [Dict.get?_set]
      by_cases hj : j = i
      · subst hj
        simp [count]
      · simp [hj]
    · show (s.bufferSizes.set i _).get? j = _
      rw [Dict.get?_set]
      by_cases hj : j = i
      · subst hj
        simp [h]
      · simp [hj]
    · rw [sizesOf_cons, if_pos h]
      simp [sizesOf]
  · have hpos : (s.bufferReferences.get? i).getD 0 ≠ 0 := h
    rw [if_neg hpos]
    refine ⟨fun j => ?_, fun j => ?_, ?_, ⟨rfl, rfl, rfl, rfl, rfl, rfl⟩⟩
    · show (s.bufferReferences.set i _).get? j = _
      rw [Dict.get?_set]
      by_cases hj : j = i
      · subst hj
        simp [count]
      · simp [hj]
    · have : ¬ (j ∈ [i] ∧ count s j = 0) := by
        intro hj
        rw [List.mem_singleton.mp hj.1] at hj
        exact h hj.2
      rw [if_neg this]
    · rw [sizesOf_cons, if_neg h]
      simp [sizesOf]

theorem Added.count_eq {s s' : MemoryBudget} {identities : List BufferIdentity} (h : Added s s' identities)
    {i : BufferIdentity} (hi : i ∉ identities) : count s' i = count s i := by
  rw [count, h.references, if_neg hi, count]

theorem Added.cons {s s' s'' : MemoryBudget} {i : BufferIdentity} {identities : List BufferIdentity}
    (h : Added s s' [i]) (h' : Added s' s'' identities) (hi : i ∉ identities) : Added s s'' (i :: identities) := by
  have hcount : ∀ j ∈ identities, count s' j = count s j := by
    intro j hj
    refine h.count_eq ?_
    intro e
    exact hi (List.mem_singleton.mp e ▸ hj)
  refine ⟨fun j => ?_, fun j => ?_, ?_, h.same.trans h'.same⟩
  · rw [h'.references]
    by_cases hj : j ∈ identities
    · rw [if_pos hj, if_pos (List.mem_cons_of_mem _ hj), hcount j hj]
    · rw [if_neg hj, h.references]
      simp [hj]
  · rw [h'.sizes]
    by_cases hj : j ∈ identities
    · have hne : j ≠ i := by
        intro e
        exact hi (e ▸ hj)
      rw [hcount j hj, h.sizes]
      simp [hj, hne]
    · rw [if_neg (fun hc => hj hc.1), h.sizes]
      simp [hj]
  · have hsizes : sizesOf (fun j => count s' j = 0) identities = sizesOf (fun j => count s j = 0) identities :=
      sizesOf_congr fun j hj => by rw [hcount j hj]
    have hnil : sizesOf (fun j => count s j = 0) [] = 0 := rfl
    rw [h'.total, h.total, hsizes, sizesOf_cons, sizesOf_cons, hnil]
    push_cast
    omega

theorem addReferences_added {buffers : List (BufferIdentity × Nat)} (hnodup : (buffers.map Prod.fst).Nodup)
    (hsized : ∀ b ∈ buffers, b.2 = b.1.2) (s : MemoryBudget) :
    Added s (buffers.foldl addReference s) (buffers.map Prod.fst) := by
  induction buffers generalizing s with
  | nil => exact ⟨fun i => by simp, fun i => by simp, by simp [sizesOf], .refl s⟩
  | cons b buffers ih =>
    obtain ⟨i, n⟩ := b
    rw [List.map_cons, List.nodup_cons] at hnodup
    have hn : n = i.2 := hsized (i, n) List.mem_cons_self
    subst hn
    exact (addReference_added s i).cons (ih hnodup.2 (fun b hb => hsized b (List.mem_cons_of_mem _ hb)) _) hnodup.1

structure Dropped (s s' : MemoryBudget) (identities : List BufferIdentity) : Prop where
  references : ∀ i, s'.bufferReferences.get? i =
    if i ∈ identities then (if count s i = 1 then none else some (count s i - 1)) else s.bufferReferences.get? i
  sizes : ∀ i, s'.bufferSizes.get? i = if i ∈ identities ∧ count s i = 1 then none else s.bufferSizes.get? i
  total : s'.current = s.current - sizesOf (fun i => count s i = 1) identities
  same : SameReservations s s'

theorem Dropped.cons {s s' s'' : MemoryBudget} {i : BufferIdentity} {identities : List BufferIdentity}
    (h : Dropped s s' [i]) (h' : Dropped s' s'' identities) (hi : i ∉ identities) : Dropped s s'' (i :: identities) := by
  have hcount : ∀ j ∈ identities, count s' j = count s j := by
    intro j hj
    have hne : j ∉ [i] := by
      intro e
      exact hi (List.mem_singleton.mp e ▸ hj)
    rw [count, h.references, if_neg hne, count]
  refine ⟨fun j => ?_, fun j => ?_, ?_, h.same.trans h'.same⟩
  · rw [h'.references]
    by_cases hj : j ∈ identities
    · rw [if_pos hj, if_pos (List.mem_cons_of_mem _ hj), hcount j hj]
    · rw [if_neg hj, h.references]
      simp [hj]
  · rw [h'.sizes]
    by_cases hj : j ∈ identities
    · have hne : j ≠ i := by
        intro e
        exact hi (e ▸ hj)
      rw [hcount j hj, h.sizes]
      simp [hj, hne]
    · rw [if_neg (fun hc => hj hc.1), h.sizes]
      simp [hj]
  · have hsizes : sizesOf (fun j => count s' j = 1) identities = sizesOf (fun j => count s j = 1) identities :=
      sizesOf_congr fun j hj => by rw [hcount j hj]
    have hnil : sizesOf (fun j => count s j = 1) [] = 0 := rfl
    rw [h'.total, h.total, hsizes, sizesOf_cons, sizesOf_cons, hnil]
    push_cast
    omega

/-- The loop never raises where every identity is counted and sized. -/
theorem dropReferences_dropped {identities : List BufferIdentity} (hnodup : identities.Nodup) (s : MemoryBudget)
    (h : ∀ i ∈ identities, count s i ≠ 0 ∧ s.bufferSizes.get? i = some i.2) :
    ∃ s', dropReferences identities s = (s', none) ∧ Dropped s s' identities := by
  induction identities generalizing s with
  | nil => exact ⟨s, rfl, fun i => by simp, fun i => by simp, by simp [sizesOf], .refl s⟩
  | cons i identities ih =>
    rw [List.nodup_cons] at hnodup
    obtain ⟨hcount, hsize⟩ := h i List.mem_cons_self
    obtain ⟨references, hreferences⟩ : ∃ n, s.bufferReferences.get? i = some n := by
      cases hr : s.bufferReferences.get? i with
      | none => simp [count, hr] at hcount
      | some n => exact ⟨n, rfl⟩
    have hcounted : count s i = references := by rw [count, hreferences, Option.getD_some]
    have hrest : ∀ {s' : MemoryBudget}, Dropped s s' [i] →
        ∀ j ∈ identities, count s' j ≠ 0 ∧ s'.bufferSizes.get? j = some j.2 := by
      intro s' hs' j hj
      have hne : j ≠ i := by
        intro e
        exact hnodup.1 (e ▸ hj)
      rw [count, hs'.references, hs'.sizes]
      simpa [hne, count] using h j (List.mem_cons_of_mem _ hj)
    by_cases hone : references = 1
    · subst hone
      have hdropped : Dropped s { s with current := s.current - i.2
                                         bufferSizes := s.bufferSizes.erase i
                                         bufferReferences := s.bufferReferences.erase i } [i] := by
        refine ⟨fun j => ?_, fun j => ?_, ?_, ⟨rfl, rfl, rfl, rfl, rfl, rfl⟩⟩
        · show (s.bufferReferences.erase i).get? j = _
          rw [Dict.get?_erase]
          by_cases hj : j = i
          · simp [hj, hcounted]
          · simp [hj]
        · show (s.bufferSizes.erase i).get? j = _
          rw [Dict.get?_erase]
          by_cases hj : j = i
          · simp [hj, hcounted]
          · simp [hj]
        · rw [sizesOf_cons, if_pos hcounted]
          simp [sizesOf]
      obtain ⟨s'', hrun, hs''⟩ := ih hnodup.2 _ (hrest hdropped)
      refine ⟨s'', ?_, hdropped.cons hs'' hnodup.1⟩
      simp only [dropReferences, hreferences, hsize]
      exact hrun
    · have hdropped : Dropped s { s with bufferReferences := s.bufferReferences.set i (references - 1) } [i] := by
        refine ⟨fun j => ?_, fun j => ?_, ?_, ⟨rfl, rfl, rfl, rfl, rfl, rfl⟩⟩
        · show (s.bufferReferences.set i _).get? j = _
          rw [Dict.get?_set]
          by_cases hj : j = i
          · simp [hj, hcounted, hone]
          · simp [hj]
        · have : ¬ (j ∈ [i] ∧ count s j = 1) := by
            intro hj
            rw [List.mem_singleton.mp hj.1, hcounted] at hj
            exact hone hj.2
          rw [if_neg this]
        · rw [sizesOf_cons, hcounted, if_neg hone]
          simp [sizesOf]
      obtain ⟨s'', hrun, hs''⟩ := ih hnodup.2 _ (hrest hdropped)
      refine ⟨s'', ?_, hdropped.cons hs'' hnodup.1⟩
      have hmore : ¬ references - 1 = 0 := by omega
      simp only [dropReferences, hreferences, hmore, if_false]
      exact hrun

/-! ## The invariant -/

structure Accounts (s : MemoryBudget) (hold : Key → Holding BufferIdentity) : Prop where
  weight : ∀ key n, s.reservations.get? key = some n → n = (hold key).weight Prod.snd
  unreconciled : ∀ key ∈ s.reservations.support, (hold key).isShared = false → s.reservationBuffers.get? key = none
  reconciled : ∀ key ∈ s.reservations.support, (hold key).isShared = true →
    ∃ identities, s.reservationBuffers.get? key = some identities ∧ identities.Nodup ∧
      identities.toFinset = (hold key).items
  unreserved : ∀ key ∉ s.reservations.support, s.reservationBuffers.get? key = none
  references : ∀ i, s.bufferReferences.get? i =
    if (holders s.reservations.support hold i).card = 0 then none
    else some (holders s.reservations.support hold i).card
  sizes : ∀ i, s.bufferSizes.get? i = if (holders s.reservations.support hold i).card = 0 then none else some i.2
  total : s.current = charge Prod.snd s.reservations.support hold
  bounded : s.current ≤ s.maximum
  retained : ∀ key n, s.retainers.get? key = some n → 0 < n ∧ key ∈ s.reservations.support

namespace Accounts

variable {s : MemoryBudget} {hold : Key → Holding BufferIdentity}

theorem count_eq (h : Accounts s hold) (i : BufferIdentity) :
    count s i = (holders s.reservations.support hold i).card := by
  rw [count, h.references]
  split
  case isTrue hzero => rw [hzero, Option.getD_none]
  case isFalse => rfl

/-- The marks of `defer` and `release` are not accounted for. -/
theorem marked (h : Accounts s hold) (deferred releasePending : Finset Key) :
    Accounts { s with deferred, releasePending } hold :=
  ⟨h.weight, h.unreconciled, h.reconciled, h.unreserved, h.references, h.sizes, h.total, h.bounded, h.retained⟩

theorem retaining (h : Accounts s hold) {retainers : Dict Key Nat}
    (hretained : ∀ key n, retainers.get? key = some n → 0 < n ∧ key ∈ s.reservations.support) :
    Accounts { s with retainers } hold :=
  ⟨h.weight, h.unreconciled, h.reconciled, h.unreserved, h.references, h.sizes, h.total, h.bounded, hretained⟩

theorem retainers_none (h : Accounts s hold) {key : Key} (hfree : ¬ (s.retainers.get? key).getD 0 > 0) :
    s.retainers.get? key = none := by
  cases hr : s.retainers.get? key with
  | none => rfl
  | some n =>
    rw [hr, Option.getD_some] at hfree
    exact absurd (h.retained key n hr).1 hfree

end Accounts

theorem accounts_new (maximum : Nat) (hold : Key → Holding BufferIdentity) : Accounts { maximum } hold where
  weight := nofun
  unreconciled := nofun
  reconciled := nofun
  unreserved := fun _ _ => rfl
  references := fun i => rfl
  sizes := fun i => rfl
  total := rfl
  bounded := by simp
  retained := nofun

/-! ## Calls -/

section Calls

variable {s : MemoryBudget} {hold : Key → Holding BufferIdentity} {key : Key}

theorem reserve_accounts (h : Accounts s hold) {size : Nat} (hkey : key ∉ s.reservations.support)
    (hfits : ¬ s.current + size > s.maximum) :
    Accounts (s.reserve key size).1 (Function.update hold key (.bytes size)) := by
  have hsupport : (s.reservations.set key size).support = insert key s.reservations.support := Dict.support_set _ _ _
  have hother : ∀ k ∈ insert key s.reservations.support, k ≠ key → k ∈ s.reservations.support := by
    intro k hk hne
    exact (Finset.mem_insert.mp hk).resolve_left hne
  rw [reserve, if_neg hfits]
  refine ⟨fun k n hk => ?_, fun k hk hplain => ?_, fun k hk hshared => ?_, fun k hk => ?_, fun i => ?_, fun i => ?_, ?_, ?_,
    fun k n hk => ?_⟩
  · replace hk : (s.reservations.set key size).get? k = some n := hk
    rw [Dict.get?_set] at hk
    by_cases hne : k = key
    · rw [if_pos hne] at hk
      cases hk
      rw [hne, Function.update_self]
      rfl
    · rw [if_neg hne] at hk
      rw [Function.update_of_ne hne]
      exact h.weight k n hk
  · by_cases hne : k = key
    · rw [hne]
      exact h.unreserved key hkey
    · rw [Function.update_of_ne hne] at hplain
      exact h.unreconciled k (hother k (hsupport ▸ hk) hne) hplain
  · by_cases hne : k = key
    · rw [hne, Function.update_self] at hshared
      cases hshared
    · rw [Function.update_of_ne hne] at hshared ⊢
      exact h.reconciled k (hother k (hsupport ▸ hk) hne) hshared
  · refine h.unreserved k ?_
    intro hmem
    exact hk (hsupport ▸ Finset.mem_insert_of_mem hmem)
  · show s.bufferReferences.get? i = _
    rw [hsupport, holders_insert_bytes hkey]
    exact h.references i
  · show s.bufferSizes.get? i = _
    rw [hsupport, holders_insert_bytes hkey]
    exact h.sizes i
  · show s.current + size = _
    rw [hsupport, charge_insert_bytes hkey, h.total]
    push_cast
    rfl
  · show s.current + size ≤ s.maximum
    omega
  · obtain ⟨hpos, hmem⟩ := h.retained k n hk
    exact ⟨hpos, hsupport ▸ Finset.mem_insert_of_mem hmem⟩

theorem sum_sizes {buffers : Dict BufferIdentity Nat} (hsized : Sized buffers) :
    (buffers.entries.map Prod.snd).sum = ∑ i ∈ buffers.support, i.2 := by
  have hsnd : buffers.entries.map Prod.snd = buffers.keys.map Prod.snd := by
    rw [Dict.keys, List.map_map]
    refine List.map_congr_left fun b hb => ?_
    exact hsized b.1 b.2 (Dict.get?_of_mem_entries hb)
  rw [hsnd, Dict.support, List.sum_toFinset Prod.snd buffers.nodup_keys]

/-- A reservation turned into the buffers of a table that fits it. -/
theorem share_accounts (h : Accounts s hold) {buffers : Dict BufferIdentity Nat} (hsized : Sized buffers)
    {reserved : Nat} (hreserved : s.reservations.get? key = some reserved) (hbytes : hold key = .bytes reserved)
    (hfits : (buffers.entries.map Prod.snd).sum ≤ reserved) {s₁ s' : MemoryBudget}
    (hs₁ : s₁ = { s with current := s.current - reserved
                         reservations := s.reservations.set key (buffers.entries.map Prod.snd).sum
                         reservationBuffers := s.reservationBuffers.set key buffers.keys })
    (hs' : Added s₁ s' buffers.keys) : Accounts s' (Function.update hold key (.shared buffers.support)) := by
  have hkey : key ∈ s.reservations.support := Dict.mem_support_of_get? hreserved
  have hreservations : s'.reservations = s.reservations.set key (buffers.entries.map Prod.snd).sum := by
    rw [hs'.same.reservations, hs₁]
  have hbuffers : s'.reservationBuffers = s.reservationBuffers.set key buffers.keys := by
    rw [hs'.same.reservationBuffers, hs₁]
  have hlive : s'.reservations.support = s.reservations.support := by
    rw [hreservations, Dict.support_set, Finset.insert_eq_self.mpr hkey]
  have hcount : ∀ i, count s₁ i = (holders s.reservations.support hold i).card := by
    intro i
    rw [← h.count_eq, hs₁]
    rfl
  have hcard : ∀ i, (holders s'.reservations.support (Function.update hold key (.shared buffers.support)) i).card =
      (holders s.reservations.support hold i).card + if i ∈ buffers.keys then 1 else 0 := by
    intro i
    rw [hlive, holders_share hkey hbytes]
    simp only [Dict.mem_keys_iff_mem_support]
  have htotal : s'.current = charge Prod.snd s'.reservations.support (Function.update hold key (.shared buffers.support)) := by
    have hcharge : charge Prod.snd s.reservations.support (Function.update hold key (.shared buffers.support)) + reserved =
        charge Prod.snd s.reservations.support hold + sizesOf (fun i => count s₁ i = 0) buffers.keys := by
      rw [charge_share hkey hbytes, sizesOf_eq_sum _ buffers.nodup_keys]
      simp only [hcount]
      rfl
    have hcurrent : s₁.current = s.current - reserved := by rw [hs₁]
    rw [hlive, hs'.total, hcurrent, h.total]
    omega
  refine ⟨fun k n hk => ?_, fun k hk hplain => ?_, fun k hk hshared => ?_, fun k hk => ?_, fun i => ?_, fun i => ?_, htotal,
    ?_, fun k n hk => ?_⟩
  · rw [hreservations, Dict.get?_set] at hk
    by_cases hne : k = key
    · rw [if_pos hne] at hk
      cases hk
      rw [hne, Function.update_self, sum_sizes hsized]
      rfl
    · rw [if_neg hne] at hk
      rw [Function.update_of_ne hne]
      exact h.weight k n hk
  · have hne : k ≠ key := by
      intro e
      rw [e, Function.update_self] at hplain
      cases hplain
    rw [Function.update_of_ne hne] at hplain
    rw [hbuffers, Dict.get?_set_ne _ _ hne]
    exact h.unreconciled k (hlive ▸ hk) hplain
  · by_cases hne : k = key
    · refine ⟨buffers.keys, ?_, buffers.nodup_keys, ?_⟩
      · rw [hbuffers, hne, Dict.get?_set_self]
      · rw [hne, Function.update_self]
        rfl
    · rw [Function.update_of_ne hne] at hshared ⊢
      rw [hbuffers, Dict.get?_set_ne _ _ hne]
      exact h.reconciled k (hlive ▸ hk) hshared
  · rw [hlive] at hk
    have hne : k ≠ key := by
      intro e
      exact hk (e ▸ hkey)
    rw [hbuffers, Dict.get?_set_ne _ _ hne]
    exact h.unreserved k hk
  · rw [hs'.references, hcard, hcount]
    by_cases hi : i ∈ buffers.keys
    · simp [hi]
    · rw [if_neg hi, if_neg hi, Nat.add_zero, ← h.references, hs₁]
  · rw [hs'.sizes, hcard, hcount]
    have hsizes : s₁.bufferSizes.get? i = if (holders s.reservations.support hold i).card = 0 then none else some i.2 := by
      rw [← h.sizes, hs₁]
    rw [hsizes]
    by_cases hi : i ∈ buffers.keys
    · by_cases hzero : (holders s.reservations.support hold i).card = 0
      · simp [hi, hzero]
      · simp [hi, hzero]
    · simp [hi]
  · have hgrown : sizesOf (fun i => count s₁ i = 0) buffers.keys ≤ reserved := by
      refine le_trans ?_ hfits
      rw [sum_sizes hsized, sizesOf_eq_sum _ buffers.nodup_keys]
      exact Finset.sum_le_sum_of_subset (Finset.filter_subset _ _)
    have hmaximum : s'.maximum = s.maximum := by rw [hs'.same.maximum, hs₁]
    have hcurrent : s₁.current = s.current - reserved := by rw [hs₁]
    have := h.bounded
    rw [hs'.total, hmaximum, hcurrent]
    omega
  · have hretainers : s'.retainers = s.retainers := by rw [hs'.same.retainers, hs₁]
    rw [hlive]
    exact h.retained k n (hretainers ▸ hk)

/-- A key that has left with what it alone held. -/
theorem leave_accounts (h : Accounts s hold) (hfree : s.retainers.get? key = none) {s' : MemoryBudget}
    (hmaximum : s'.maximum = s.maximum) (hreservations : s'.reservations = s.reservations.erase key)
    (hbuffers : s'.reservationBuffers = s.reservationBuffers.erase key) (hretainers : s'.retainers = s.retainers)
    (hreferences : ∀ i, s'.bufferReferences.get? i =
      if (holders (s.reservations.support.erase key) hold i).card = 0 then none
      else some (holders (s.reservations.support.erase key) hold i).card)
    (hsizes : ∀ i, s'.bufferSizes.get? i =
      if (holders (s.reservations.support.erase key) hold i).card = 0 then none else some i.2)
    (htotal : s'.current = charge Prod.snd (s.reservations.support.erase key) hold) : Accounts s' hold := by
  have hlive : s'.reservations.support = s.reservations.support.erase key := by
    rw [hreservations, Dict.support_erase]
  have hmem : ∀ k ∈ s'.reservations.support, k ≠ key ∧ k ∈ s.reservations.support := by
    intro k hk
    rw [hlive] at hk
    exact Finset.mem_erase.mp hk
  refine ⟨fun k n hk => ?_, fun k hk hplain => ?_, fun k hk hshared => ?_, fun k hk => ?_, fun i => ?_, fun i => ?_, ?_, ?_,
    fun k n hk => ?_⟩
  · rw [hreservations, Dict.get?_erase] at hk
    split at hk
    · cases hk
    · exact h.weight k n hk
  · rw [hbuffers, Dict.get?_erase_ne _ (hmem k hk).1]
    exact h.unreconciled k (hmem k hk).2 hplain
  · rw [hbuffers, Dict.get?_erase_ne _ (hmem k hk).1]
    exact h.reconciled k (hmem k hk).2 hshared
  · rw [hbuffers, Dict.get?_erase]
    by_cases hne : k = key
    · rw [if_pos hne]
    · rw [if_neg hne]
      refine h.unreserved k ?_
      intro hk'
      exact hk (hlive ▸ Finset.mem_erase.mpr ⟨hne, hk'⟩)
  · rw [hlive]
    exact hreferences i
  · rw [hlive]
    exact hsizes i
  · rw [hlive]
    exact htotal
  · have hle : charge Prod.snd (s.reservations.support.erase key) hold ≤ charge Prod.snd s.reservations.support hold :=
      charge_erase_le
    have hbounded := h.bounded
    rw [h.total] at hbounded
    rw [htotal, hmaximum]
    omega
  · rw [hretainers] at hk
    obtain ⟨hpos, hk'⟩ := h.retained k n hk
    refine ⟨hpos, hlive ▸ Finset.mem_erase.mpr ⟨?_, hk'⟩⟩
    intro e
    rw [e, hfree] at hk
    cases hk

/-- The identities of a key, and the bytes it is charged for where it has none. -/
theorem identities_of (h : Accounts s hold) (hkey : key ∈ s.reservations.support) :
    ((s.reservationBuffers.get? key).getD []).Nodup ∧
    ((s.reservationBuffers.get? key).getD []).toFinset = (hold key).items ∧
    ((hold key).items = ∅ → (s.reservations.get? key).getD 0 = (hold key).own) ∧
    ((hold key).items ≠ ∅ → (hold key).own = 0) := by
  obtain ⟨n, hn⟩ := Option.isSome_iff_exists.mp (Dict.mem_support.mp hkey)
  have hweight := h.weight key n hn
  cases hhold : hold key with
  | bytes m =>
    rw [hhold] at hweight
    rw [h.unreconciled key hkey (by rw [hhold]; rfl), hn]
    exact ⟨List.nodup_nil, rfl, fun _ => hweight, fun hne => absurd rfl hne⟩
  | shared items =>
    rw [hhold] at hweight
    obtain ⟨identities, hget, hnodup, hitems⟩ := h.reconciled key hkey (by rw [hhold]; rfl)
    rw [hhold] at hitems
    rw [hget, hn]
    refine ⟨hnodup, hitems, fun hempty => ?_, fun _ => rfl⟩
    have hempty : items = ∅ := hempty
    rw [hempty] at hweight
    exact hweight

/-- A key without buffers: nothing but its own bytes is charged to it. -/
theorem releaseKey_own (h : Accounts s hold) (hfree : s.retainers.get? key = none)
    (hempty : (s.reservationBuffers.get? key).getD [] = []) :
    ∃ s', (∀ clamp, AtZero clamp → s.releaseKey clamp key = (s', none)) ∧
      Accounts s' hold ∧ s'.retainers = s.retainers := by
  have hfacts : ∀ i, (holders (s.reservations.support.erase key) hold i).card =
      (holders s.reservations.support hold i).card := by
    intro i
    by_cases hkey : key ∈ s.reservations.support
    · have hitems := (identities_of h hkey).2.1
      rw [hempty] at hitems
      rw [card_holders_erase hkey, ← hitems]
      simp
    · rw [Finset.erase_eq_of_notMem hkey]
  have htotal : s.current - ((s.reservations.get? key).getD 0 : Nat) =
      charge Prod.snd (s.reservations.support.erase key) hold := by
    rw [h.total]
    by_cases hkey : key ∈ s.reservations.support
    · obtain ⟨-, hitems, hown, -⟩ := identities_of h hkey
      rw [hempty] at hitems
      have hcharge : charge Prod.snd (s.reservations.support.erase key) hold + (hold key).own + _ =
        charge Prod.snd s.reservations.support hold := charge_erase hkey
      rw [← hitems] at hcharge
      rw [hown hitems.symm, ← hcharge]
      simp
    · rw [Dict.not_mem_support.mp hkey, Finset.erase_eq_of_notMem hkey]
      simp
  refine ⟨{ s with current := s.current - ((s.reservations.get? key).getD 0 : Nat)
                   reservations := s.reservations.erase key
                   reservationBuffers := s.reservationBuffers.erase key
                   deferred := s.deferred.erase key
                   releasePending := s.releasePending.erase key }, fun clamp hclamp => ?_, ?_, rfl⟩
  · simp only [releaseKey, hempty, List.isEmpty_nil, if_true]
    rw [hclamp _ (by rw [htotal]; omega)]
  · refine leave_accounts h hfree rfl rfl rfl rfl (fun i => ?_) (fun i => ?_) htotal
    · rw [hfacts i]
      exact h.references i
    · rw [hfacts i]
      exact h.sizes i

/-- A key with buffers: each loses one reference, and the last one gives its bytes back. -/
theorem releaseKey_shared (h : Accounts s hold) (hfree : s.retainers.get? key = none)
    (hempty : ¬ (s.reservationBuffers.get? key).getD [] = []) :
    ∃ s', (∀ clamp, AtZero clamp → s.releaseKey clamp key = (s', none)) ∧
      Accounts s' hold ∧ s'.retainers = s.retainers := by
  have hkey : key ∈ s.reservations.support := by
    by_contra hkey
    rw [h.unreserved key hkey] at hempty
    exact hempty rfl
  obtain ⟨hnodup, hitems, -, hown⟩ := identities_of h hkey
  generalize hidentities : (s.reservationBuffers.get? key).getD [] = identities at *
  have hmem : ∀ i, i ∈ (hold key).items ↔ i ∈ identities := by
    intro i
    rw [← hitems, List.mem_toFinset]
  have hcounted : ∀ i ∈ identities, count s i ≠ 0 ∧ s.bufferSizes.get? i = some i.2 := by
    intro i hi
    have hne : (holders s.reservations.support hold i).card ≠ 0 :=
      Finset.card_ne_zero.mpr ⟨key, mem_holders.mpr ⟨hkey, (hmem i).mpr hi⟩⟩
    rw [h.count_eq, h.sizes, if_neg hne]
    exact ⟨hne, rfl⟩
  obtain ⟨s', hrun, hs'⟩ := dropReferences_dropped hnodup
    { s with reservations := s.reservations.erase key
             reservationBuffers := s.reservationBuffers.erase key } hcounted
  have hcard : ∀ i, (holders (s.reservations.support.erase key) hold i).card =
      (holders s.reservations.support hold i).card - if i ∈ identities then 1 else 0 := by
    intro i
    rw [card_holders_erase hkey]
    simp only [hmem]
  have htotal : s'.current = charge Prod.snd (s.reservations.support.erase key) hold := by
    have hcharge : charge Prod.snd (s.reservations.support.erase key) hold + (hold key).own +
        sizesOf (fun i => count s i = 1) identities = charge Prod.snd s.reservations.support hold := by
      rw [← charge_erase hkey, sizesOf_eq_sum _ hnodup, hitems]
      simp only [h.count_eq]
    have hcurrent : s'.current = s.current - sizesOf (fun i => count s i = 1) identities := hs'.total
    have hnone : (hold key).own = 0 := by
      refine hown ?_
      rw [← hitems]
      simpa using hempty
    rw [hcurrent, h.total]
    omega
  refine ⟨{ s' with deferred := s'.deferred.erase key
                    releasePending := s'.releasePending.erase key }, fun clamp hclamp => ?_, ?_, hs'.same.retainers⟩
  · have hisEmpty : identities.isEmpty = false := by simpa using hempty
    simp only [releaseKey, hidentities, hisEmpty, Bool.false_eq_true, if_false, hrun]
    rw [hclamp _ (by rw [htotal]; omega)]
  · refine leave_accounts h hfree hs'.same.maximum hs'.same.reservations hs'.same.reservationBuffers
      hs'.same.retainers (fun i => ?_) (fun i => ?_) htotal
    · show s'.bufferReferences.get? i = _
      rw [hs'.references, hcard]
      show (if i ∈ identities then (if count s i = 1 then none else some (count s i - 1)) else s.bufferReferences.get? i) = _
      by_cases hi : i ∈ identities
      · have hne := (hcounted i hi).1
        rw [h.count_eq] at hne ⊢
        rw [if_pos hi, if_pos hi]
        by_cases hone : (holders s.reservations.support hold i).card = 1
        · simp [hone]
        · have : ¬ (holders s.reservations.support hold i).card - 1 = 0 := by omega
          rw [if_neg hone, if_neg this]
      · rw [if_neg hi, if_neg hi, Nat.sub_zero]
        exact h.references i
    · show s'.bufferSizes.get? i = _
      rw [hs'.sizes, hcard]
      show (if i ∈ identities ∧ count s i = 1 then none else s.bufferSizes.get? i) = _
      rw [h.sizes, h.count_eq]
      by_cases hi : i ∈ identities
      · have hne := (hcounted i hi).1
        rw [h.count_eq] at hne
        by_cases hone : (holders s.reservations.support hold i).card = 1
        · simp [hi, hone]
        · have : ¬ (holders s.reservations.support hold i).card - 1 = 0 := by omega
          simp [hi, hone, hne, this]
      · simp [hi]

/-- What `_release_key` does to a key without retainers: it never raises, and the clamp
    changes nothing. -/
theorem releaseKey_accounts (h : Accounts s hold) (hfree : s.retainers.get? key = none) :
    ∃ s', (∀ clamp, AtZero clamp → s.releaseKey clamp key = (s', none)) ∧
      Accounts s' hold ∧ s'.retainers = s.retainers := by
  by_cases hempty : (s.reservationBuffers.get? key).getD [] = []
  · exact releaseKey_own h hfree hempty
  · exact releaseKey_shared h hfree hempty

theorem releaseKeys_accounts {keys : List Key} (h : Accounts s hold) (hfree : ∀ key ∈ keys, s.retainers.get? key = none) :
    ∃ s', (∀ clamp, AtZero clamp → releaseKeys clamp keys s = (s', none)) ∧
      Accounts s' hold := by
  induction keys generalizing s with
  | nil => exact ⟨s, fun _ _ => rfl, h⟩
  | cons key keys ih =>
    obtain ⟨s', hrun, haccounts, hretainers⟩ := releaseKey_accounts h (hfree key List.mem_cons_self)
    obtain ⟨s'', hruns, haccounts'⟩ := ih haccounts fun k hk => by
      rw [hretainers]
      exact hfree k (List.mem_cons_of_mem _ hk)
    refine ⟨s'', fun clamp hclamp => ?_, haccounts'⟩
    rw [releaseKeys, hrun clamp hclamp]
    exact hruns clamp hclamp

theorem release_accounts (h : Accounts s hold) (key : Key) :
    ∃ s', (∀ clamp, AtZero clamp → s.release clamp key = (s', none)) ∧ Accounts s' hold := by
  by_cases hretained : (s.retainers.get? key).getD 0 > 0
  · refine ⟨_, fun _ _ => ?_, h.marked s.deferred (insert key s.releasePending)⟩
    rw [release, if_pos hretained]
  · obtain ⟨s', hrun, haccounts, -⟩ := releaseKey_accounts h (h.retainers_none hretained)
    refine ⟨s', fun clamp hclamp => ?_, haccounts⟩
    rw [release, if_neg hretained]
    exact hrun clamp hclamp

theorem defer_accounts (h : Accounts s hold) (key : Key) : Accounts (s.defer key).1 hold := by
  unfold defer
  split
  · exact h.marked (insert key s.deferred) s.releasePending
  · exact h

theorem retain_accounts (h : Accounts s hold) (key : Key) : Accounts (s.retain key).1 hold := by
  unfold retain
  split
  case isTrue hreserved =>
    refine h.retaining fun k n hk => ?_
    rw [Dict.get?_set] at hk
    split at hk
    case isTrue e =>
      cases hk
      exact ⟨Nat.succ_pos _, e ▸ Dict.mem_support.mpr hreserved⟩
    case isFalse => exact h.retained k n hk
  case isFalse => exact h

theorem releaseRetained_accounts (h : Accounts s hold) (key : Key) :
    ∃ s', (∀ clamp, AtZero clamp → s.releaseRetained clamp key = (s', none)) ∧ Accounts s' hold := by
  by_cases hlast : (s.retainers.get? key).getD 0 ≤ 1
  · have hpopped : Accounts { s with retainers := s.retainers.erase key } hold := by
      refine h.retaining fun k n hk => ?_
      rw [Dict.get?_erase] at hk
      split at hk
      · cases hk
      · exact h.retained k n hk
    by_cases hpending : key ∈ s.releasePending
    · obtain ⟨s', hrun, haccounts, -⟩ := releaseKey_accounts hpopped (Dict.get?_erase_self _ _)
      refine ⟨s', fun clamp hclamp => ?_, haccounts⟩
      rw [releaseRetained, if_pos hlast, if_pos hpending]
      exact hrun clamp hclamp
    · refine ⟨_, fun _ _ => ?_, hpopped⟩
      rw [releaseRetained, if_pos hlast, if_neg hpending]
  · refine ⟨{ s with retainers := s.retainers.set key ((s.retainers.get? key).getD 0 - 1) }, fun _ _ => ?_,
      h.retaining ?_⟩
    · rw [releaseRetained, if_neg hlast]
    · intro k n hk
      rw [Dict.get?_set] at hk
      split at hk
      case isTrue e =>
        cases hk
        cases hget : s.retainers.get? key with
        | none =>
          rw [hget, Option.getD_none] at hlast
          omega
        | some m =>
          rw [hget, Option.getD_some] at hlast
          rw [Option.getD_some]
          exact ⟨by omega, e ▸ (h.retained _ m hget).2⟩
      case isFalse => exact h.retained k n hk

theorem releaseRun_accounts (h : Accounts s hold) (runId : String) :
    ∃ s', (∀ clamp, AtZero clamp → s.releaseRun clamp runId = (s', none)) ∧ Accounts s' hold := by
  refine releaseKeys_accounts (h.marked s.deferred _) ?_
  intro key hkey
  obtain ⟨hreserved, hfree⟩ := List.mem_filter.mp hkey
  obtain ⟨hrunId, -, hnot⟩ := of_decide_eq_true hfree
  refine h.retainers_none ?_
  intro hretained
  exact hnot (List.mem_filter.mpr ⟨hreserved, decide_eq_true ⟨hrunId, hretained⟩⟩)

end Calls

/-! ## Whole runs -/

theorem noted_reserve (runId nodeId : String) (size : Nat) (hold : Key → Holding BufferIdentity) :
    (fun key => noted (.reserve runId nodeId size, none) key (hold key)) =
      Function.update hold (runId, nodeId) (.bytes size) := by
  funext key
  rw [Function.update_apply]
  rfl

theorem noted_reconcile (runId nodeId : String) (table : Table) (hold : Key → Holding BufferIdentity) :
    (fun key => noted (.reconcile runId nodeId table, none) key (hold key)) =
      Function.update hold (runId, nodeId) (.shared (retainedBufferSizes table).support) := by
  funext key
  rw [Function.update_apply]
  rfl

/-- A regular call keeps the accounts, whatever it raises and whether or not it clamps. -/
theorem call_accounts {r : Run} (h : Accounts r.budget r.holding) {op : Op} (hop : r.Admits op) :
    ∃ s' failure, (∀ clamp, AtZero clamp → r.budget.call clamp op = (s', failure)) ∧
      Accounts s' fun key => noted (op, failure) key (r.holding key) := by
  generalize hbudget : r.budget = s at h ⊢
  cases op with
  | reserve runId nodeId size =>
    have hkey : (runId, nodeId) ∉ s.reservations.support := hbudget ▸ hop
    by_cases hfits : s.current + size > s.maximum
    · refine ⟨s, some (.limitInFlightBytesExceeded s.current size s.maximum), fun _ _ => ?_, h⟩
      rw [call, reserve, if_pos hfits]
    · refine ⟨(s.reserve (runId, nodeId) size).1, none, fun _ _ => ?_, ?_⟩
      · rw [call, reserve, if_neg hfits]
      · rw [noted_reserve]
        exact reserve_accounts h hkey hfits
  | reconcile runId nodeId table =>
    cases hreserved : s.reservations.get? (runId, nodeId) with
    | none =>
      refine ⟨s, some .keyError, fun _ _ => ?_, h⟩
      simp only [call, reconcile, hreserved]
    | some reserved =>
      by_cases hfits : ((retainedBufferSizes table).entries.map Prod.snd).sum > reserved
      · refine ⟨s, some (.limitAdmissionEstimateExceeded reserved
          ((retainedBufferSizes table).entries.map Prod.snd).sum), fun _ _ => ?_, h⟩
        simp only [call, reconcile, hreserved, hfits, if_true]
      · have hplain : (r.holding (runId, nodeId)).isShared = false :=
          hop (show (runId, nodeId) ∈ r.budget.reservations.support from
            hbudget ▸ Dict.mem_support_of_get? hreserved)
        have hbytes : r.holding (runId, nodeId) = .bytes reserved := by
          have hweight := h.weight _ _ hreserved
          cases hhold : r.holding (runId, nodeId) with
          | bytes n =>
            rw [hhold] at hweight
            exact congrArg _ hweight.symm
          | shared items =>
            rw [hhold] at hplain
            cases hplain
        have hsized := sized_retainedBufferSizes table
        have hadded := addReferences_added (Dict.nodup _)
          (fun b hb => hsized b.1 b.2 (Dict.get?_of_mem_entries hb))
          { s with current := s.current - reserved
                   reservations := s.reservations.set (runId, nodeId) ((retainedBufferSizes table).entries.map Prod.snd).sum
                   reservationBuffers := s.reservationBuffers.set (runId, nodeId) (retainedBufferSizes table).keys }
        have haccounts := share_accounts h hsized hreserved hbytes (by omega) rfl hadded
        refine ⟨_, none, fun _ _ => ?_, noted_reconcile _ _ _ r.holding ▸ haccounts⟩
        simp only [call, reconcile, hreserved, hfits, if_false]
  | release runId nodeId =>
    obtain ⟨s', hrun, haccounts⟩ := release_accounts h (runId, nodeId)
    exact ⟨s', none, hrun, haccounts⟩
  | defer runId nodeId => exact ⟨_, _, fun _ _ => rfl, defer_accounts h (runId, nodeId)⟩
  | retain runId nodeId => exact ⟨_, _, fun _ _ => rfl, retain_accounts h (runId, nodeId)⟩
  | releaseRetained runId nodeId =>
    obtain ⟨s', hrun, haccounts⟩ := releaseRetained_accounts h (runId, nodeId)
    exact ⟨s', none, hrun, haccounts⟩
  | releaseRun runId =>
    obtain ⟨s', hrun, haccounts⟩ := releaseRun_accounts h runId
    exact ⟨s', none, hrun, haccounts⟩

/-- Along a regular run the accounts are kept, and clamping makes no difference. -/
theorem execute_accounts {r : Run} (h : Accounts r.budget r.holding) {ops : List Op} {clamp : Int → Int}
    (hclamp : AtZero clamp) (hops : Run.Regular clamp r ops) :
    Accounts (r.execute clamp ops).budget (r.execute clamp ops).holding ∧ r.execute id ops = r.execute clamp ops := by
  induction ops generalizing r with
  | nil => exact ⟨h, rfl⟩
  | cons op ops ih =>
    obtain ⟨s', failure, hcall, haccounts⟩ := call_accounts h hops.1
    have hnext : ∀ clamp, AtZero clamp → r.next clamp op = ⟨s', r.log ++ [(op, failure)]⟩ := by
      intro clamp hclamp
      rw [Run.next, hcall clamp hclamp]
    have hholding : (r.next clamp op).holding = fun key => noted (op, failure) key (r.holding key) := by
      funext key
      rw [Run.holding_next, hcall clamp hclamp]
    have hbudget : (r.next clamp op).budget = s' := by rw [hnext clamp hclamp]
    have hid : r.next id op = r.next clamp op := by rw [hnext clamp hclamp, hnext id fun _ _ => rfl]
    obtain ⟨hkept, hsame⟩ := ih (by rw [hholding, hbudget]; exact haccounts) hops.2
    refine ⟨hkept, ?_⟩
    rw [Run.execute, List.foldl_cons, hid]
    exact hsame

/-! ### The maximum is never written -/

theorem dropReferences_maximum (identities : List BufferIdentity) (s : MemoryBudget) :
    (dropReferences identities s).1.maximum = s.maximum := by
  fun_induction dropReferences identities s with
  | case1 s => rfl
  | case2 s => rfl
  | case3 s => rfl
  | case4 s identity identities references _ _ size _ ih => exact ih
  | case5 s identity identities references _ _ ih => exact ih

theorem releaseKey_maximum (clamp : Int → Int) (s : MemoryBudget) (key : Key) :
    (s.releaseKey clamp key).1.maximum = s.maximum := by
  have hdrop := dropReferences_maximum ((s.reservationBuffers.get? key).getD [])
    { s with reservations := s.reservations.erase key, reservationBuffers := s.reservationBuffers.erase key }
  unfold releaseKey
  dsimp only
  split <;> rename_i heq <;> split at heq
  · cases heq
  · rw [heq] at hdrop
    exact hdrop
  · cases heq
    rfl
  · rw [heq] at hdrop
    exact hdrop

theorem releaseKeys_maximum (clamp : Int → Int) (keys : List Key) (s : MemoryBudget) :
    (releaseKeys clamp keys s).1.maximum = s.maximum := by
  induction keys generalizing s with
  | nil => rfl
  | cons key keys ih =>
    have hkey := releaseKey_maximum clamp s key
    rw [releaseKeys]
    split <;> rename_i heq <;> rw [heq] at hkey
    · exact hkey
    · rw [ih]
      exact hkey

theorem addReferences_maximum (buffers : List (BufferIdentity × Nat)) (s : MemoryBudget) :
    (buffers.foldl addReference s).maximum = s.maximum := by
  induction buffers generalizing s with
  | nil => rfl
  | cons b buffers ih =>
    rw [List.foldl_cons, ih]
    unfold addReference
    dsimp only
    split <;> rfl

theorem call_maximum (clamp : Int → Int) (s : MemoryBudget) (op : Op) : (s.call clamp op).1.maximum = s.maximum := by
  cases op with
  | reserve runId nodeId size =>
    rw [call, reserve]
    split <;> rfl
  | reconcile runId nodeId table =>
    rw [call, reconcile]
    split
    · rfl
    · split
      · rfl
      · rw [addReferences_maximum]
  | release runId nodeId =>
    rw [call, release]
    split
    · rfl
    · exact releaseKey_maximum clamp s _
  | defer runId nodeId =>
    rw [call, defer]
    split <;> rfl
  | retain runId nodeId =>
    rw [call, retain]
    split <;> rfl
  | releaseRetained runId nodeId =>
    rw [call, releaseRetained]
    dsimp only
    split
    · split
      · rw [releaseKey_maximum]
      · rfl
    · rfl
  | releaseRun runId => rw [call, releaseRun, releaseKeys_maximum]

theorem execute_maximum (clamp : Int → Int) (r : Run) (ops : List Op) :
    (r.execute clamp ops).budget.maximum = r.budget.maximum := by
  induction ops generalizing r with
  | nil => rfl
  | cons op ops ih =>
    rw [Run.execute, List.foldl_cons]
    exact (ih _).trans (call_maximum clamp r.budget op)

/-! ### The whole statement -/

theorem unchanged_of_raised {s : MemoryBudget} {clamp : Int → Int} {op : Op} {failure : BudgetFailure}
    (hop : (∃ runId nodeId size, op = .reserve runId nodeId size) ∨ ∃ runId nodeId table, op = .reconcile runId nodeId table)
    (h : (s.call clamp op).2 = some failure) : (s.call clamp op).1 = s := by
  obtain ⟨runId, nodeId, size, rfl⟩ | ⟨runId, nodeId, table, rfl⟩ := hop
  · simp only [call, reserve] at h ⊢
    split at h
    case isTrue hexceeded => rw [if_pos hexceeded]
    case isFalse => cases h
  · simp only [call, reconcile] at h ⊢
    split at h
    case h_1 hnone => rfl
    case h_2 reserved hreserved =>
      split at h
      case isTrue hexceeded => rw [if_pos hexceeded]
      case isFalse => cases h

/-- Exact accounting after every regular run of a new budget. -/
theorem exact_accounting (maximum : Nat) (ops : List Op) (hops : Run.Regular (max 0) (Run.new maximum) ops) :
    let r := (Run.new maximum).execute (max 0) ops
    r.budget.current = charge Prod.snd r.live r.holding ∧
    (∀ identity, (r.budget.bufferReferences.get? identity).getD 0 = (holders r.live r.holding identity).card) ∧
    r.budget.current ≤ maximum ∧
    (Run.new maximum).execute id ops = r ∧
    (∀ key, 0 < (r.budget.retainers.get? key).getD 0 → key ∈ r.live) ∧
    ∀ op, (∃ runId nodeId size, op = Op.reserve runId nodeId size) ∨
        (∃ runId nodeId table, op = Op.reconcile runId nodeId table) →
      ∀ failure, (r.budget.call (max 0) op).2 = some failure → (r.budget.call (max 0) op).1 = r.budget := by
  intro r
  obtain ⟨haccounts, hid⟩ := execute_accounts (accounts_new maximum (Run.new maximum).holding)
    (fun n hn => max_eq_right hn) hops
  refine ⟨haccounts.total, haccounts.count_eq, ?_, hid, fun key hkey => ?_, fun op hop failure h => unchanged_of_raised hop h⟩
  · have hbounded := haccounts.bounded
    rw [execute_maximum] at hbounded
    exact hbounded
  · by_contra hlive
    have hnone : ¬ ∃ n, r.budget.retainers.get? key = some n := by
      intro hn
      obtain ⟨n, hn⟩ := hn
      exact hlive (haccounts.retained key n hn).2
    cases hget : r.budget.retainers.get? key with
    | none => simp [hget] at hkey
    | some n => exact hnone ⟨n, hget⟩

/-- Two tables over one buffer: reserved, reconciled, retained and released in turn. -/
def sharedBuffer : List Op :=
  let table : Table := ⟨[[.plain [some (.root 4096 64)]]]⟩
  let view : Table := ⟨[[.plain [none, some (.view (.root 4096 64))]]]⟩
  [.reserve "run" "full" 64, .reconcile "run" "full" table, .reserve "run" "slice" 100, .reconcile "run" "slice" view,
    .retain "run" "full", .release "run" "full", .release "run" "slice"]

theorem sharedBuffer_accounted :
    ((Run.new 200).execute (max 0) sharedBuffer).budget.current ≤ 200 ∧
    ((Run.new 200).execute (max 0) sharedBuffer).budget.current = 64 := by
  refine ⟨(exact_accounting 200 sharedBuffer ?_).2.2.1, ?_⟩
  · decide +kernel
  · decide +kernel

end DataNexus.Runtime.MemoryBudget
