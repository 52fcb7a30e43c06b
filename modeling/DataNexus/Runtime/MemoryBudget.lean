/-
  DataNexus.Runtime.MemoryBudget — `_MemoryBudget` of coordinator.py over the buffers that
  arrow_memory.py finds in a table.

  Every method takes the budget's lock and awaits nothing inside it, so a call is one step
  of the state; a call that raises is a step with a failure, and leaves the state it left.
  `_release_key` ends with a clamp of `current` at zero; `releaseKey` takes the clamp as an
  argument so that the budget can be compared with one that has none.
-/

import DataNexus.Lib.Dict

namespace DataNexus.Runtime

open DataNexus.Lib

/-! ## Arrow buffers -/

/-- A root buffer, or a view into its `parent`. -/
inductive Buffer where
  | root (address size : Nat)
  | view (parent : Buffer)

/-- `(address, size)` of a root buffer. -/
abbrev BufferIdentity := Nat × Nat

def Buffer.identity : Buffer → BufferIdentity
  | .root address size => (address, size)
  | .view parent => parent.identity

/-- An array's own buffers and, by kind of array, the arrays below it. -/
inductive ArrowArray where
  | plain (buffers : List (Option Buffer))
  | dictionary (buffers : List (Option Buffer)) (dictionary : ArrowArray)
  | extension (buffers : List (Option Buffer)) (storage : ArrowArray)
  | struct (buffers : List (Option Buffer)) (fields : List ArrowArray)
  | listLike (buffers : List (Option Buffer)) (values : ArrowArray)
  | union (buffers : List (Option Buffer)) (fields : List ArrowArray)
  | runEndEncoded (buffers : List (Option Buffer)) (runEnds values : ArrowArray)

/-- A table as its columns' chunks. -/
structure Table where
  columns : List (List ArrowArray)

/-- The loop over `array.buffers()`: empty roots are not counted. -/
def collectBuffers (buffers : List (Option Buffer)) (found : Dict BufferIdentity Nat) : Dict BufferIdentity Nat :=
  buffers.foldl (fun found buffer => match buffer with
    | none => found
    | some buffer => if buffer.identity.2 = 0 then found else found.set buffer.identity buffer.identity.2) found

mutual

/-- `_collect_array_buffers`. -/
def collectArrayBuffers : ArrowArray → Dict BufferIdentity Nat → Dict BufferIdentity Nat
  | .plain buffers, found => collectBuffers buffers found
  | .dictionary buffers dictionary, found => collectArrayBuffers dictionary (collectBuffers buffers found)
  | .extension buffers storage, found => collectArrayBuffers storage (collectBuffers buffers found)
  | .struct buffers fields, found => collectFieldBuffers fields (collectBuffers buffers found)
  | .listLike buffers values, found => collectArrayBuffers values (collectBuffers buffers found)
  | .union buffers fields, found => collectFieldBuffers fields (collectBuffers buffers found)
  | .runEndEncoded buffers runEnds values, found =>
    collectArrayBuffers values (collectArrayBuffers runEnds (collectBuffers buffers found))

def collectFieldBuffers : List ArrowArray → Dict BufferIdentity Nat → Dict BufferIdentity Nat
  | [], found => found
  | field :: fields, found => collectFieldBuffers fields (collectArrayBuffers field found)

end

/-- `retained_buffer_sizes`. -/
def retainedBufferSizes (table : Table) : Dict BufferIdentity Nat :=
  table.columns.foldl (fun found chunks => collectFieldBuffers chunks found) Dict.empty

/-- The size of a buffer is part of its identity. -/
def Sized (found : Dict BufferIdentity Nat) : Prop := ∀ identity n, found.get? identity = some n → n = identity.2

theorem Sized.set {found : Dict BufferIdentity Nat} (h : Sized found) (identity : BufferIdentity) :
    Sized (found.set identity identity.2) := by
  intro x n hx
  rw [Dict.get?_set] at hx
  split at hx
  case isTrue e =>
    cases hx
    rw [e]
  case isFalse => exact h x n hx

theorem Sized.collectBuffers {found : Dict BufferIdentity Nat} (h : Sized found) (buffers : List (Option Buffer)) :
    Sized (collectBuffers buffers found) := by
  induction buffers generalizing found with
  | nil => exact h
  | cons buffer buffers ih =>
    cases buffer with
    | none => exact ih h
    | some buffer =>
      rw [Runtime.collectBuffers, List.foldl_cons]
      dsimp only
      split
      · exact ih h
      · exact ih (h.set _)

mutual

theorem Sized.collectArrayBuffers {found : Dict BufferIdentity Nat} (h : Sized found) (array : ArrowArray) :
    Sized (collectArrayBuffers array found) := by
  cases array with
  | plain buffers => exact h.collectBuffers buffers
  | dictionary buffers dictionary => exact (h.collectBuffers buffers).collectArrayBuffers dictionary
  | extension buffers storage => exact (h.collectBuffers buffers).collectArrayBuffers storage
  | struct buffers fields => exact (h.collectBuffers buffers).collectFieldBuffers fields
  | listLike buffers values => exact (h.collectBuffers buffers).collectArrayBuffers values
  | union buffers fields => exact (h.collectBuffers buffers).collectFieldBuffers fields
  | runEndEncoded buffers runEnds values =>
    exact ((h.collectBuffers buffers).collectArrayBuffers runEnds).collectArrayBuffers values

theorem Sized.collectFieldBuffers {found : Dict BufferIdentity Nat} (h : Sized found) (fields : List ArrowArray) :
    Sized (collectFieldBuffers fields found) := by
  cases fields with
  | nil => exact h
  | cons field fields => exact (h.collectArrayBuffers field).collectFieldBuffers fields

end

/-- A buffer identity always has the same size, whatever table it is found in. -/
theorem sized_retainedBufferSizes (table : Table) : Sized (retainedBufferSizes table) := by
  unfold retainedBufferSizes
  have hfold : ∀ (columns : List (List ArrowArray)) (found : Dict BufferIdentity Nat), Sized found →
      Sized (columns.foldl (fun found chunks => collectFieldBuffers chunks found) found) := by
    intro columns
    induction columns with
    | nil => exact fun _ h => h
    | cons chunks columns ih => exact fun found h => ih _ (h.collectFieldBuffers chunks)
  refine hfold _ _ ?_
  intro identity n h
  cases h

/-! ## The budget -/

/-- `(run_id, node_id)`. -/
abbrev Key := String × String

structure MemoryBudget where
  maximum : Nat
  current : Int := 0
  reservations : Dict Key Nat := Dict.empty
  /-- The identities of a reconciled reservation, in the order they are looped over. -/
  reservationBuffers : Dict Key (List BufferIdentity) := Dict.empty
  bufferSizes : Dict BufferIdentity Nat := Dict.empty
  bufferReferences : Dict BufferIdentity Nat := Dict.empty
  deferred : Finset Key := ∅
  retainers : Dict Key Nat := Dict.empty
  releasePending : Finset Key := ∅

inductive BudgetFailure where
  | limitInFlightBytesExceeded (currentBytes : Int) (requestedBytes limit : Nat)
  | limitAdmissionEstimateExceeded (reservedBytes actualBytes : Nat)
  | memoryReservationMissing (nodeId : String)
  | keyError
  deriving DecidableEq

/-- The code of a `RuntimeFailure`; a `KeyError` has none. -/
def BudgetFailure.code : BudgetFailure → Option String
  | .limitInFlightBytesExceeded .. => some "LIMIT_IN_FLIGHT_BYTES_EXCEEDED"
  | .limitAdmissionEstimateExceeded .. => some "LIMIT_ADMISSION_ESTIMATE_EXCEEDED"
  | .memoryReservationMissing _ => some "MEMORY_RESERVATION_MISSING"
  | .keyError => none

/-- The state a call leaves, and what it raised. -/
abbrev Called := MemoryBudget × Option BudgetFailure

namespace MemoryBudget

def reserve (s : MemoryBudget) (key : Key) (size : Nat) : Called :=
  if s.current + size > s.maximum then (s, some (.limitInFlightBytesExceeded s.current size s.maximum))
  else
    ({ s with current := s.current + size
              reservations := s.reservations.set key size }, none)

/-- One round of `reconcile`'s loop over the table's buffers. -/
def addReference (s : MemoryBudget) (buffer : BufferIdentity × Nat) : MemoryBudget :=
  let references := (s.bufferReferences.get? buffer.1).getD 0
  if references = 0 then
    { s with current := s.current + buffer.2
             bufferSizes := s.bufferSizes.set buffer.1 buffer.2
             bufferReferences := s.bufferReferences.set buffer.1 (references + 1) }
  else { s with bufferReferences := s.bufferReferences.set buffer.1 (references + 1) }

def reconcile (s : MemoryBudget) (key : Key) (table : Table) : Called :=
  let buffers := retainedBufferSizes table
  let size := (buffers.entries.map Prod.snd).sum
  match s.reservations.get? key with
  | none => (s, some .keyError)
  | some reserved =>
    if size > reserved then (s, some (.limitAdmissionEstimateExceeded reserved size))
    else
      let s := { s with current := s.current - reserved
                        reservations := s.reservations.set key size
                        reservationBuffers := s.reservationBuffers.set key buffers.keys }
      (buffers.entries.foldl addReference s, none)

/-- `_release_key`'s loop over the identities: the last reference takes the buffer's size
    with it. -/
def dropReferences : List BufferIdentity → MemoryBudget → Called
  | [], s => (s, none)
  | identity :: identities, s =>
    match s.bufferReferences.get? identity with
    | none => (s, some .keyError)
    | some references =>
      if references - 1 = 0 then
        match s.bufferSizes.get? identity with
        | none => (s, some .keyError)
        | some size =>
          dropReferences identities
            { s with current := s.current - size
                     bufferSizes := s.bufferSizes.erase identity
                     bufferReferences := s.bufferReferences.erase identity }
      else dropReferences identities { s with bufferReferences := s.bufferReferences.set identity (references - 1) }

variable (clamp : Int → Int)

/-- `_release_key`. -/
def releaseKey (s : MemoryBudget) (key : Key) : Called :=
  let reserved := (s.reservations.get? key).getD 0
  let identities := (s.reservationBuffers.get? key).getD []
  let s := { s with reservations := s.reservations.erase key
                    reservationBuffers := s.reservationBuffers.erase key }
  let dropped := if identities.isEmpty then ({ s with current := s.current - reserved }, none) else dropReferences identities s
  match dropped with
  | (s, some failure) => (s, some failure)
  | (s, none) =>
    ({ s with deferred := s.deferred.erase key
              releasePending := s.releasePending.erase key
              current := clamp s.current }, none)

def release (s : MemoryBudget) (key : Key) : Called :=
  if (s.retainers.get? key).getD 0 > 0 then ({ s with releasePending := insert key s.releasePending }, none)
  else s.releaseKey clamp key

def defer (s : MemoryBudget) (key : Key) : Called :=
  if s.reservations.contains key then ({ s with deferred := insert key s.deferred }, none) else (s, none)

def retain (s : MemoryBudget) (key : Key) : Called :=
  if s.reservations.contains key then
    ({ s with retainers := s.retainers.set key ((s.retainers.get? key).getD 0 + 1) }, none)
  else (s, some (.memoryReservationMissing key.2))

def releaseRetained (s : MemoryBudget) (key : Key) : Called :=
  let retained := (s.retainers.get? key).getD 0
  if retained ≤ 1 then
    let s := { s with retainers := s.retainers.erase key }
    if key ∈ s.releasePending then s.releaseKey clamp key else (s, none)
  else ({ s with retainers := s.retainers.set key (retained - 1) }, none)

/-- The loop of `release_run`, left where a call raises. -/
def releaseKeys : List Key → MemoryBudget → Called
  | [], s => (s, none)
  | key :: keys, s =>
    match s.releaseKey clamp key with
    | (s, some failure) => (s, some failure)
    | (s, none) => releaseKeys keys s

/-- The run's keys that a retainer holds. -/
def retainedKeys (s : MemoryBudget) (runId : String) : List Key :=
  s.reservations.keys.filter fun key => key.1 = runId ∧ (s.retainers.get? key).getD 0 > 0

def releaseRun (s : MemoryBudget) (runId : String) : Called :=
  let retained := s.retainedKeys runId
  let keys := s.reservations.keys.filter fun key => key.1 = runId ∧ key ∉ s.deferred ∧ key ∉ retained
  releaseKeys clamp keys { s with releasePending := s.releasePending ∪ retained.toFinset }

/-! ## Runs -/

inductive Op where
  | reserve (runId nodeId : String) (size : Nat)
  | reconcile (runId nodeId : String) (table : Table)
  | release (runId nodeId : String)
  | defer (runId nodeId : String)
  | retain (runId nodeId : String)
  | releaseRetained (runId nodeId : String)
  | releaseRun (runId : String)

def call (s : MemoryBudget) : Op → Called
  | .reserve runId nodeId size => s.reserve (runId, nodeId) size
  | .reconcile runId nodeId table => s.reconcile (runId, nodeId) table
  | .release runId nodeId => s.release clamp (runId, nodeId)
  | .defer runId nodeId => s.defer (runId, nodeId)
  | .retain runId nodeId => s.retain (runId, nodeId)
  | .releaseRetained runId nodeId => s.releaseRetained clamp (runId, nodeId)
  | .releaseRun runId => s.releaseRun clamp runId

end MemoryBudget

end DataNexus.Runtime
