/-
  DataNexus.Runtime.Emitter — `_Emitter.emit` and `_wait_for_task_completion` of
  coordinator.py: one numbered append at a time, whatever is cancelled.

  Actors. A call of `emit` waits for the emitter's lock (`acquiring`); with the lock it
  reads the next number, starts a task that appends its event, and waits for that task in a
  loop that remembers cancellations and goes on waiting (`waiting`). The append runs in its
  own task, which a cancelled call does not cancel: it persists the event and returns, or
  raises. Only then does the call leave the loop, advance the number unless the append
  raised, and release the lock. A cancellation is delivered at either wait, any number of
  times.

  Any call may take a free lock, in whatever order they came.

  Proved:
  - `step_inv`, `run_inv`: while an append is undecided its call holds the lock, and the
    number it read is still the next one.
  - `numbered_in_order`: the persisted events carry 0, 1, 2, … in the order of the appends,
    each call persists at most one, and a call that has left, cancelled or not, has its
    event settled for good.
-/

import DataNexus.Runtime.Coordinator

namespace DataNexus.Runtime

/-! ## Events -/

open Coordinator (ExecutionState)

inductive EventScope where
  | run | stage | node
  deriving DecidableEq

inductive MetadataValue where
  | str (s : String)
  | int (n : Int)
  | bool (b : Bool)
  | none
  deriving DecidableEq

/-- The arguments of `emit`. -/
structure Draft where
  scope : EventScope
  scopeId : String
  state : ExecutionState
  code : String
  message : String
  durationMs : Option Nat := none
  metadata : List (String × MetadataValue) := []
  deriving DecidableEq

structure DiagnosticEvent where
  sequence : Nat
  runId : String
  draft : Draft
  deriving DecidableEq

/-! ## The emitter -/

/-- How far the task that appends an event is. -/
inductive Append where
  | running
  | persisted
  | returned
  | raised
  deriving DecidableEq

namespace Append

/-- `task.done()`. -/
def isDone : Append → Bool
  | returned | raised => true
  | running | persisted => false

def isWritten : Append → Bool
  | persisted | returned => true
  | running | raised => false

end Append

inductive Emitted where
  | returned
  | cancelled
  | failed
  deriving DecidableEq

inductive EmitPc where
  | acquiring
  | waiting (wasCancelled : Bool)
  | left (outcome : Emitted)
  deriving DecidableEq

structure EmitCall where
  draft : Draft
  pc : EmitPc := .acquiring
  persistence : Option (DiagnosticEvent × Append) := none
  deriving DecidableEq

structure Emitter where
  runId : String
  sequence : Nat := 0
  /-- The call that holds the lock. -/
  holder : Option Nat := none
  calls : List EmitCall := []
  /-- The persisted events, each with the call that emitted it. -/
  log : List (Nat × DiagnosticEvent) := []

namespace Emitter

inductive Move where
  | emit (draft : Draft)
  | acquire (i : Nat)
  /-- A `CancelledError` at the call's await. -/
  | cancel (i : Nat)
  | persist (i : Nat)
  | appendReturns (i : Nat)
  | appendRaises (i : Nat)
  /-- The wait for the append's task ends. -/
  | wake (i : Nat)

/-- After the loop: `persistence.result()`, the next number, the lock. -/
def settle (s : Emitter) (i : Nat) (call : EmitCall) (append : Append) (wasCancelled : Bool) : Emitter :=
  if append = .raised then { s with holder := none, calls := s.calls.set i { call with pc := .left .failed } }
  else
    { s with sequence := s.sequence + 1
             holder := none
             calls := s.calls.set i { call with pc := .left (if wasCancelled then .cancelled else .returned) } }

/-- The head of `_wait_for_task_completion`'s loop. -/
def awaitCompletion (s : Emitter) (i : Nat) (call : EmitCall) (wasCancelled : Bool) : Emitter :=
  match call.persistence with
  | none => s
  | some (_, append) =>
    if append.isDone then s.settle i call append wasCancelled
    else { s with calls := s.calls.set i { call with pc := .waiting wasCancelled } }

/-- A move of call `i`; a move that is not its turn changes nothing. -/
def stepCall (s : Emitter) (i : Nat) (call : EmitCall) : Move → Emitter
  | .emit _ => s
  | .acquire _ =>
    if call.pc = .acquiring ∧ s.holder = none then
      { s with holder := some i
               calls := s.calls.set i { call with pc := .waiting false
                                                  persistence := some (⟨s.sequence, s.runId, call.draft⟩, .running) } }
    else s
  | .cancel _ =>
    match call.pc with
    | .acquiring => { s with calls := s.calls.set i { call with pc := .left .cancelled } }
    | .waiting _ => s.awaitCompletion i call true
    | .left _ => s
  | .persist _ =>
    match call.persistence with
    | some (event, .running) =>
      { s with log := s.log ++ [(i, event)], calls := s.calls.set i { call with persistence := some (event, .persisted) } }
    | _ => s
  | .appendReturns _ =>
    match call.persistence with
    | some (event, .persisted) => { s with calls := s.calls.set i { call with persistence := some (event, .returned) } }
    | _ => s
  | .appendRaises _ =>
    match call.persistence with
    | some (event, .running) => { s with calls := s.calls.set i { call with persistence := some (event, .raised) } }
    | _ => s
  | .wake _ =>
    match call.pc with
    | .waiting wasCancelled => s.awaitCompletion i call wasCancelled
    | _ => s

def step (s : Emitter) (move : Move) : Emitter :=
  match move with
  | .emit draft => { s with calls := s.calls ++ [{ draft }] }
  | .acquire i | .cancel i | .persist i | .appendReturns i | .appendRaises i | .wake i =>
    match s.calls[i]? with
    | none => s
    | some call => s.stepCall i call move

def run (s : Emitter) (moves : List Move) : Emitter := moves.foldl step s

/-! ## What a step can do -/

/-- The changes of one step: a new call, or one call's own move. -/
inductive Change (s : Emitter) : Emitter → Prop where
  | stay : Change s s
  | emit (draft : Draft) : Change s { s with calls := s.calls ++ [{ draft }] }
  | acquire {i : Nat} {call : EmitCall} : s.calls[i]? = some call → call.pc = .acquiring → s.holder = none →
      Change s { s with holder := some i
                        calls := s.calls.set i { call with pc := .waiting false
                                                           persistence := some (⟨s.sequence, s.runId, call.draft⟩, .running) } }
  | abandon {i : Nat} {call : EmitCall} : s.calls[i]? = some call → call.pc = .acquiring →
      Change s { s with calls := s.calls.set i { call with pc := .left .cancelled } }
  | note {i : Nat} {call : EmitCall} {wasCancelled wasCancelled' : Bool} : s.calls[i]? = some call →
      call.pc = .waiting wasCancelled → Change s { s with calls := s.calls.set i { call with pc := .waiting wasCancelled' } }
  | settle {i : Nat} {call : EmitCall} {wasCancelled wasCancelled' : Bool} {event : DiagnosticEvent} {append : Append} :
      s.calls[i]? = some call → call.pc = .waiting wasCancelled → call.persistence = some (event, append) →
      append.isDone = true → Change s (s.settle i call append wasCancelled')
  | persist {i : Nat} {call : EmitCall} {event : DiagnosticEvent} : s.calls[i]? = some call →
      call.persistence = some (event, .running) →
      Change s { s with log := s.log ++ [(i, event)]
                        calls := s.calls.set i { call with persistence := some (event, .persisted) } }
  | append {i : Nat} {call : EmitCall} {event : DiagnosticEvent} {before after : Append} : s.calls[i]? = some call →
      call.persistence = some (event, before) → before.isDone = false → after.isDone = true →
      before.isWritten = after.isWritten →
      Change s { s with calls := s.calls.set i { call with persistence := some (event, after) } }

theorem awaitCompletion_change {s : Emitter} {i : Nat} {call : EmitCall} {wasCancelled wasCancelled' : Bool}
    (hcall : s.calls[i]? = some call) (hpc : call.pc = .waiting wasCancelled) :
    Change s (s.awaitCompletion i call wasCancelled') := by
  unfold awaitCompletion
  split
  · exact .stay
  · rename_i event append hp
    split
    · exact .settle hcall hpc hp ‹_›
    · exact .note hcall hpc

theorem step_change (s : Emitter) (move : Move) : Change s (s.step move) := by
  unfold step
  split
  · exact .emit _
  all_goals
    split
    · exact .stay
    rename_i call hcall
    unfold stepCall
  · dsimp only
    split
    · rename_i h
      exact .acquire hcall h.1 h.2
    · exact .stay
  · dsimp only
    split
    · exact .abandon hcall ‹_›
    · exact awaitCompletion_change hcall ‹_›
    · exact .stay
  · dsimp only
    split
    · exact .persist hcall ‹_›
    · exact .stay
  · dsimp only
    split
    · rename_i heq
      exact .append hcall heq rfl rfl rfl
    · exact .stay
  · dsimp only
    split
    · rename_i heq
      exact .append hcall heq rfl rfl rfl
    · exact .stay
  · dsimp only
    split
    · exact awaitCompletion_change hcall ‹_›
    · exact .stay

/-! ## The invariant -/

/-- The calls whose events are in the log. -/
def emitters (s : Emitter) : List Nat := s.log.map Prod.fst

end Emitter

def EmitCall.isWritten (call : EmitCall) : Bool := call.persistence.any (·.2.isWritten)

/-- What a call's place in its code says of its append. -/
def EmitCall.Placed (call : EmitCall) (sequence : Nat) : Prop :=
  match call.pc with
  | .acquiring => call.persistence = none
  | .waiting _ => ∃ event append, call.persistence = some (event, append) ∧ event.sequence = sequence
  | .left .cancelled => call.persistence = none ∨ ∃ event, call.persistence = some (event, .returned)
  | .left .returned => ∃ event, call.persistence = some (event, .returned)
  | .left .failed => ∃ event, call.persistence = some (event, .raised)

def EmitPc.isWaiting : EmitPc → Bool
  | .waiting _ => true
  | .acquiring | .left _ => false

namespace Emitter

structure Inv (s : Emitter) : Prop where
  numbered : s.log.map (·.2.sequence) = List.range s.log.length
  once : s.emitters.Nodup
  known : ∀ i ∈ s.emitters, i < s.calls.length
  written : ∀ (i : Nat) (call : EmitCall), s.calls[i]? = some call → (i ∈ s.emitters ↔ call.isWritten = true)
  placed : ∀ (i : Nat) (call : EmitCall), s.calls[i]? = some call → call.Placed s.sequence
  alone : ∀ (i : Nat) (call : EmitCall), s.calls[i]? = some call → call.pc.isWaiting = true → s.holder = some i
  held : ∀ i, s.holder = some i → ∃ call : EmitCall, s.calls[i]? = some call ∧ call.pc.isWaiting = true ∧
    s.log.length = s.sequence + if call.isWritten then 1 else 0
  free : s.holder = none → s.log.length = s.sequence

theorem inv_new (runId : String) : Inv { runId } := by
  have hnone : ∀ {i : Nat} {call : EmitCall} {P : Prop}, ([] : List EmitCall)[i]? = some call → P := by
    intro i call P h
    simp at h
  refine ⟨rfl, List.nodup_nil, ?_, fun _ _ h => hnone h, fun _ _ h => hnone h, fun _ _ h => hnone h, ?_, fun _ => rfl⟩
  · intro i hi
    cases hi
  · intro i hi
    cases hi

theorem getElem?_set_cases {calls : List EmitCall} {i j : Nat} {call call' : EmitCall}
    (h : (calls.set i call)[j]? = some call') : (i = j ∧ call' = call) ∨ (i ≠ j ∧ calls[j]? = some call') := by
  by_cases hij : i = j
  · subst hij
    rw [List.getElem?_set_self'] at h
    cases hget : calls[i]? with
    | none => simp [hget] at h
    | some x => simp [hget] at h; exact .inl ⟨rfl, h.symm⟩
  · rw [List.getElem?_set_ne hij] at h
    exact .inr ⟨hij, h⟩

theorem getElem?_set_of_some {calls : List EmitCall} {i : Nat} {call call' : EmitCall} (h : calls[i]? = some call) :
    (calls.set i call')[i]? = some call' := by
  obtain ⟨hlt, -⟩ := List.getElem?_eq_some_iff.mp h
  simp [hlt]

theorem placed_of_not_waiting {call : EmitCall} {m n : Nat} (h : call.pc.isWaiting = false) (hm : call.Placed m) :
    call.Placed n := by
  unfold EmitCall.Placed at hm ⊢
  cases hpc : call.pc with
  | waiting b => rw [hpc] at h; cases h
  | acquiring => rw [hpc] at hm; exact hm
  | left outcome =>
    rw [hpc] at hm
    cases outcome <;> exact hm

/-- An undecided append belongs to a waiting call. -/
theorem Inv.waiting_of_undecided {s : Emitter} (h : Inv s) {i : Nat} {call : EmitCall} {event : DiagnosticEvent}
    {append : Append} (hcall : s.calls[i]? = some call) (hp : call.persistence = some (event, append))
    (hundecided : append.isDone = false) : ∃ wasCancelled, call.pc = .waiting wasCancelled := by
  have hplaced := h.placed i call hcall
  unfold EmitCall.Placed at hplaced
  cases hpc : call.pc with
  | waiting b => exact ⟨b, rfl⟩
  | acquiring =>
    rw [hpc, hp] at hplaced
    cases hplaced
  | left outcome =>
    rw [hpc, hp] at hplaced
    cases outcome with
    | returned =>
      obtain ⟨_, e⟩ := hplaced
      cases e
      cases hundecided
    | failed =>
      obtain ⟨_, e⟩ := hplaced
      cases e
      cases hundecided
    | cancelled =>
      obtain e | ⟨_, e⟩ := hplaced
      · cases e
      · cases e
        cases hundecided

theorem Inv.sequence_of_waiting {s : Emitter} (h : Inv s) {i : Nat} {call : EmitCall} {event : DiagnosticEvent}
    {append : Append} {wasCancelled : Bool} (hcall : s.calls[i]? = some call) (hpc : call.pc = .waiting wasCancelled)
    (hp : call.persistence = some (event, append)) :
    event.sequence = s.sequence ∧ s.log.length = s.sequence + (if append.isWritten then 1 else 0) ∧ s.holder = some i := by
  have hholder : s.holder = some i := h.alone i call hcall (by rw [hpc]; rfl)
  have hplaced := h.placed i call hcall
  unfold EmitCall.Placed at hplaced
  rw [hpc, hp] at hplaced
  obtain ⟨_, _, e, hsequence⟩ := hplaced
  cases e
  obtain ⟨call', hcall', -, hlength⟩ := h.held i hholder
  rw [hcall] at hcall'
  cases hcall'
  refine ⟨hsequence, ?_, hholder⟩
  rw [hlength, EmitCall.isWritten, hp]
  rfl

/-- One call replaced by one of the same append, that waits if and only if it did. -/
theorem Inv.replace {s : Emitter} (h : Inv s) {i : Nat} {call call' : EmitCall} (hcall : s.calls[i]? = some call)
    (hwaits : call'.pc.isWaiting = call.pc.isWaiting) (hwritten : call'.isWritten = call.isWritten)
    (hplaced : call'.Placed s.sequence) : Inv { s with calls := s.calls.set i call' } := by
  refine ⟨h.numbered, h.once, fun j hj => ?_, fun j c hj => ?_, fun j c hj => ?_, fun j c hj hw => ?_, fun j hj => ?_, h.free⟩
  · show j < (s.calls.set i call').length
    rw [List.length_set]
    exact h.known j hj
  · obtain ⟨rfl, rfl⟩ | ⟨-, hj⟩ := getElem?_set_cases hj
    · rw [hwritten]
      exact h.written i call hcall
    · exact h.written j c hj
  · obtain ⟨rfl, rfl⟩ | ⟨-, hj⟩ := getElem?_set_cases hj
    · exact hplaced
    · exact h.placed j c hj
  · obtain ⟨rfl, rfl⟩ | ⟨-, hj⟩ := getElem?_set_cases hj
    · exact h.alone i call hcall (hwaits ▸ hw)
    · exact h.alone j c hj hw
  · obtain ⟨c, hc, hw, hlength⟩ := h.held j hj
    by_cases hij : i = j
    · subst hij
      rw [hcall] at hc
      cases hc
      exact ⟨call', getElem?_set_of_some hcall, hwaits.trans hw, by rw [hwritten]; exact hlength⟩
    · exact ⟨c, by rw [List.getElem?_set_ne hij]; exact hc, hw, hlength⟩

theorem Inv.others {s : Emitter} (h : Inv s) {i j : Nat} {call : EmitCall} (hholder : s.holder = some i ∨ s.holder = none)
    (hij : i ≠ j) (hj : s.calls[j]? = some call) : call.pc.isWaiting = false := by
  by_contra hw
  rw [Bool.not_eq_false] at hw
  have hj' := h.alone j call hj hw
  obtain hholder | hholder := hholder
  · rw [hholder] at hj'
    exact hij (Option.some.inj hj')
  · rw [hholder] at hj'
    cases hj'

theorem settle_inv {s : Emitter} (h : Inv s) {i : Nat} {call : EmitCall} {wasCancelled wasCancelled' : Bool}
    {event : DiagnosticEvent} {append : Append} (hcall : s.calls[i]? = some call) (hpc : call.pc = .waiting wasCancelled)
    (hp : call.persistence = some (event, append)) (hdone : append.isDone = true) :
    Inv (s.settle i call append wasCancelled') := by
  obtain ⟨-, hlength, hholder⟩ := h.sequence_of_waiting hcall hpc hp
  -- the call left as `outcome`, with the number the log has reached
  have hleft : ∀ (outcome : Emitted) (sequence : Nat), s.log.length = sequence →
      EmitCall.Placed { call with pc := .left outcome } sequence →
      Inv { s with sequence, holder := none, calls := s.calls.set i { call with pc := .left outcome } } := by
    intro outcome sequence hnumber hplaced
    refine ⟨h.numbered, h.once, fun j hj => ?_, fun j c hj => ?_, fun j c hj => ?_, fun j c hj hw => ?_, nofun, fun _ => hnumber⟩
    · show j < (s.calls.set i _).length
      rw [List.length_set]
      exact h.known j hj
    · obtain ⟨rfl, rfl⟩ | ⟨-, hj⟩ := getElem?_set_cases hj
      · exact h.written i call hcall
      · exact h.written j c hj
    · obtain ⟨rfl, rfl⟩ | ⟨hij, hj⟩ := getElem?_set_cases hj
      · exact hplaced
      · exact placed_of_not_waiting (h.others (.inl hholder) hij hj) (h.placed j c hj)
    · obtain ⟨rfl, rfl⟩ | ⟨hij, hj⟩ := getElem?_set_cases hj
      · cases hw
      · rw [h.others (.inl hholder) hij hj] at hw
        cases hw
  unfold settle
  cases append with
  | running => cases hdone
  | persisted => cases hdone
  | raised => exact hleft .failed s.sequence hlength ⟨event, hp⟩
  | returned =>
    refine hleft _ (s.sequence + 1) hlength ?_
    cases wasCancelled' with
    | true => exact .inr ⟨event, hp⟩
    | false => exact ⟨event, hp⟩

theorem acquire_inv {s : Emitter} (h : Inv s) {i : Nat} {call : EmitCall} (hcall : s.calls[i]? = some call)
    (hpc : call.pc = .acquiring) (hfree : s.holder = none) :
    Inv { s with holder := some i
                 calls := s.calls.set i { call with pc := .waiting false
                                                    persistence := some (⟨s.sequence, s.runId, call.draft⟩, .running) } } := by
  have hnone : call.persistence = none := by
    have := h.placed i call hcall
    unfold EmitCall.Placed at this
    rw [hpc] at this
    exact this
  have hunwritten : i ∉ s.emitters := by
    rw [h.written i call hcall, EmitCall.isWritten, hnone]
    simp
  refine ⟨h.numbered, h.once, fun j hj => ?_, fun j c hj => ?_, fun j c hj => ?_, fun j c hj hw => ?_, fun j hj => ?_, nofun⟩
  · show j < (s.calls.set i _).length
    rw [List.length_set]
    exact h.known j hj
  · obtain ⟨rfl, rfl⟩ | ⟨-, hj⟩ := getElem?_set_cases hj
    · exact ⟨fun hi => absurd hi hunwritten, nofun⟩
    · exact h.written j c hj
  · obtain ⟨rfl, rfl⟩ | ⟨-, hj⟩ := getElem?_set_cases hj
    · exact ⟨_, _, rfl, rfl⟩
    · exact h.placed j c hj
  · obtain ⟨rfl, rfl⟩ | ⟨hij, hj⟩ := getElem?_set_cases hj
    · rfl
    · rw [h.others (.inr hfree) hij hj] at hw
      cases hw
  · cases hj
    exact ⟨_, getElem?_set_of_some hcall, rfl, h.free hfree⟩

theorem persist_inv {s : Emitter} (h : Inv s) {i : Nat} {call : EmitCall} {event : DiagnosticEvent}
    (hcall : s.calls[i]? = some call) (hp : call.persistence = some (event, .running)) :
    Inv { s with log := s.log ++ [(i, event)]
                 calls := s.calls.set i { call with persistence := some (event, .persisted) } } := by
  obtain ⟨wasCancelled, hpc⟩ := h.waiting_of_undecided hcall hp rfl
  obtain ⟨hsequence, hlength, hholder⟩ := h.sequence_of_waiting hcall hpc hp
  have hunwritten : i ∉ s.emitters := by
    rw [h.written i call hcall, EmitCall.isWritten, hp]
    simp [Append.isWritten]
  have hemitters : ∀ j, j ∈ Emitter.emitters { s with log := s.log ++ [(i, event)] } ↔ j ∈ s.emitters ∨ j = i := by
    intro j
    simp [emitters]
  refine ⟨?_, ?_, fun j hj => ?_, fun j c hj => ?_, fun j c hj => ?_, fun j c hj hw => ?_, fun j hj => ?_, fun hnone => ?_⟩
  · show (s.log ++ [(i, event)]).map _ = List.range (s.log ++ [(i, event)]).length
    rw [List.map_append, List.length_append, List.length_singleton, List.range_succ, h.numbered]
    simp [hsequence, hlength, Append.isWritten]
  · show ((s.log ++ [(i, event)]).map Prod.fst).Nodup
    rw [List.map_append]
    refine List.nodup_append'.mpr ⟨h.once, List.nodup_singleton _, ?_⟩
    intro j hj hi
    rw [List.map_singleton, List.mem_singleton] at hi
    rw [hi] at hj
    exact hunwritten hj
  · show j < (s.calls.set i _).length
    rw [List.length_set]
    obtain hj | rfl := (hemitters j).mp hj
    · exact h.known j hj
    · exact (List.getElem?_eq_some_iff.mp hcall).1
  · refine (hemitters j).trans ?_
    obtain ⟨rfl, rfl⟩ | ⟨hij, hj⟩ := getElem?_set_cases hj
    · simp [EmitCall.isWritten, Append.isWritten]
    · rw [h.written j c hj]
      simp [Ne.symm hij]
  · obtain ⟨rfl, rfl⟩ | ⟨-, hj⟩ := getElem?_set_cases hj
    · unfold EmitCall.Placed
      rw [hpc]
      exact ⟨event, .persisted, rfl, hsequence⟩
    · exact h.placed j c hj
  · obtain ⟨rfl, rfl⟩ | ⟨-, hj⟩ := getElem?_set_cases hj
    · exact hholder
    · exact h.alone j c hj hw
  · have hji : j = i := Option.some.inj (hj.symm.trans hholder)
    subst hji
    refine ⟨_, getElem?_set_of_some hcall, by rw [hpc]; rfl, ?_⟩
    show (s.log ++ [(j, event)]).length = s.sequence + 1
    rw [List.length_append, hlength]
    rfl
  · rw [hholder] at hnone
    cases hnone

theorem emit_inv {s : Emitter} (h : Inv s) (draft : Draft) : Inv { s with calls := s.calls ++ [{ draft }] } := by
  have hcases : ∀ {j : Nat} {c : EmitCall}, (s.calls ++ [({ draft } : EmitCall)])[j]? = some c →
      s.calls[j]? = some c ∨ (j = s.calls.length ∧ c = { draft }) := by
    intro j c hj
    by_cases hlt : j < s.calls.length
    · rw [List.getElem?_append_left hlt] at hj
      exact .inl hj
    · rw [List.getElem?_append_right (by omega)] at hj
      obtain ⟨hlen, hget⟩ := List.getElem?_eq_some_iff.mp hj
      rw [List.length_singleton] at hlen
      refine .inr ⟨by omega, ?_⟩
      simpa using hget.symm
  refine ⟨h.numbered, h.once, fun j hj => ?_, fun j c hj => ?_, fun j c hj => ?_, fun j c hj hw => ?_, fun j hj => ?_, h.free⟩
  · show j < (s.calls ++ [_]).length
    rw [List.length_append]
    exact Nat.lt_add_right _ (h.known j hj)
  · obtain hj | ⟨rfl, rfl⟩ := hcases hj
    · exact h.written j c hj
    · exact ⟨fun hj => absurd (h.known _ hj) (lt_irrefl _), nofun⟩
  · obtain hj | ⟨rfl, rfl⟩ := hcases hj
    · exact h.placed j c hj
    · rfl
  · obtain hj | ⟨rfl, rfl⟩ := hcases hj
    · exact h.alone j c hj hw
    · cases hw
  · obtain ⟨c, hc, hw, hlength⟩ := h.held j hj
    refine ⟨c, ?_, hw, hlength⟩
    show (s.calls ++ [_])[j]? = some c
    rw [List.getElem?_append_left (List.getElem?_eq_some_iff.mp hc).1]
    exact hc

theorem step_inv {s : Emitter} (h : Inv s) (move : Move) : Inv (s.step move) := by
  have hchange := step_change s move
  generalize s.step move = s' at hchange ⊢
  cases hchange with
  | stay => exact h
  | emit draft => exact emit_inv h draft
  | acquire hcall hpc hfree => exact acquire_inv h hcall hpc hfree
  | abandon hcall hpc =>
    refine h.replace hcall (by rw [hpc]; rfl) rfl ?_
    have hplaced := h.placed _ _ hcall
    unfold EmitCall.Placed at hplaced
    rw [hpc] at hplaced
    exact .inl hplaced
  | note hcall hpc =>
    refine h.replace hcall (by rw [hpc]; rfl) rfl ?_
    have hplaced := h.placed _ _ hcall
    unfold EmitCall.Placed at hplaced
    rw [hpc] at hplaced
    exact hplaced
  | settle hcall hpc hp hdone => exact settle_inv h hcall hpc hp hdone
  | persist hcall hp => exact persist_inv h hcall hp
  | append hcall hp hbefore hafter hsame =>
    obtain ⟨wasCancelled, hpc⟩ := h.waiting_of_undecided hcall hp hbefore
    have hsequence := (h.sequence_of_waiting hcall hpc hp).1
    refine h.replace hcall rfl ?_ ?_
    · rw [EmitCall.isWritten, EmitCall.isWritten, hp]
      exact hsame.symm
    · unfold EmitCall.Placed
      rw [hpc]
      exact ⟨_, _, rfl, hsequence⟩

theorem run_inv {s : Emitter} (h : Inv s) (moves : List Move) : Inv (s.run moves) := by
  induction moves generalizing s with
  | nil => exact h
  | cons move moves ih => exact ih (step_inv h move)

/-! ## Settled calls -/

/-- No append was started, or it has returned or raised. -/
def Settled (s : Emitter) (i : Nat) : Prop :=
  ∃ call outcome, s.calls[i]? = some call ∧ call.pc = .left outcome ∧ ∀ event append,
    call.persistence = some (event, append) → append.isDone = true

theorem Inv.settled {s : Emitter} (h : Inv s) {i : Nat} {call : EmitCall} {outcome : Emitted}
    (hcall : s.calls[i]? = some call) (hpc : call.pc = .left outcome) : s.Settled i := by
  refine ⟨call, outcome, hcall, hpc, fun event append hp => ?_⟩
  by_contra hundecided
  rw [Bool.not_eq_true] at hundecided
  obtain ⟨wasCancelled, hwaiting⟩ := h.waiting_of_undecided hcall hp hundecided
  rw [hpc] at hwaiting
  cases hwaiting

/-- What call `i` has persisted. -/
def eventsOf (s : Emitter) (i : Nat) : List DiagnosticEvent := (s.log.filter (·.1 = i)).map Prod.snd

/-- A step leaves a settled call and its events as they are. -/
theorem step_settled {s : Emitter} {i : Nat} (h : s.Settled i) (move : Move) :
    (s.step move).Settled i ∧ (s.step move).eventsOf i = s.eventsOf i ∧ (s.step move).calls[i]? = s.calls[i]? := by
  obtain ⟨call, outcome, hcall, hpc, hdone⟩ := h
  -- another call's move, which writes no event of `i`
  have hother : ∀ {j : Nat} {call' : EmitCall} {s' : Emitter}, j ≠ i → s'.calls = s.calls.set j call' →
      s'.eventsOf i = s.eventsOf i →
      s'.Settled i ∧ s'.eventsOf i = s.eventsOf i ∧ s'.calls[i]? = s.calls[i]? := by
    intro j call' s' hji hcalls hevents
    have hget : s'.calls[i]? = s.calls[i]? := by rw [hcalls, List.getElem?_set_ne hji]
    exact ⟨⟨call, outcome, hget.trans hcall, hpc, hdone⟩, hevents, hget⟩
  have hne : ∀ {j : Nat} {c : EmitCall}, s.calls[j]? = some c → c.pc ≠ .left outcome → j ≠ i := by
    intro j c hc hleft e
    rw [e, hcall] at hc
    cases hc
    exact hleft hpc
  have hundecided : ∀ {j : Nat} {c : EmitCall} {event : DiagnosticEvent} {append : Append}, s.calls[j]? = some c →
      c.persistence = some (event, append) → append.isDone = false → j ≠ i := by
    intro j c event append hc hp hrunning e
    rw [e, hcall] at hc
    cases hc
    rw [hdone event append hp] at hrunning
    cases hrunning
  have hchange := step_change s move
  generalize s.step move = s' at hchange ⊢
  cases hchange with
  | stay => exact ⟨⟨call, outcome, hcall, hpc, hdone⟩, rfl, rfl⟩
  | emit draft =>
    have hget : (s.calls ++ [({ draft } : EmitCall)])[i]? = s.calls[i]? :=
      List.getElem?_append_left (List.getElem?_eq_some_iff.mp hcall).1
    exact ⟨⟨call, outcome, hget.trans hcall, hpc, hdone⟩, rfl, hget⟩
  | acquire hc hacquiring => exact hother (hne hc (by rw [hacquiring]; nofun)) rfl rfl
  | abandon hc hacquiring => exact hother (hne hc (by rw [hacquiring]; nofun)) rfl rfl
  | note hc hwaiting => exact hother (hne hc (by rw [hwaiting]; nofun)) rfl rfl
  | @settle j c _ wasCancelled' _ append hc hwaiting hp hd =>
    have hji := hne hc (by rw [hwaiting]; nofun)
    unfold Emitter.settle
    split
    · exact hother hji rfl rfl
    · exact hother hji rfl rfl
  | @persist j c event hc hp =>
    refine hother (hundecided hc hp rfl) rfl ?_
    simp [eventsOf, List.filter_append, hundecided hc hp rfl]
  | append hc hp hbefore => exact hother (hundecided hc hp hbefore) rfl rfl

theorem run_settled {s : Emitter} {i : Nat} (h : s.Settled i) (moves : List Move) :
    (s.run moves).eventsOf i = s.eventsOf i ∧ (s.run moves).calls[i]? = s.calls[i]? := by
  induction moves generalizing s with
  | nil => exact ⟨rfl, rfl⟩
  | cons move moves ih =>
    obtain ⟨hsettled, hevents, hget⟩ := step_settled h move
    obtain ⟨hevents', hget'⟩ := ih hsettled
    exact ⟨hevents'.trans hevents, hget'.trans hget⟩

theorem run_append (s : Emitter) (moves moves' : List Move) : s.run (moves ++ moves') = (s.run moves).run moves' :=
  List.foldl_append

/-- After every sequence of moves: the events carry 0, 1, 2, … in the order in which they
    were appended, no call's event is there twice, and the event of a call that has raised
    `CancelledError` is settled: no further move persists or withdraws it. -/
theorem numbered_in_order (runId : String) (moves : List Move) :
    let s := run { runId } moves
    s.log.map (·.2.sequence) = List.range s.log.length ∧
    (s.log.map Prod.fst).Nodup ∧
    ∀ i call, s.calls[i]? = some call → call.pc = .left .cancelled →
      (∀ event append, call.persistence = some (event, append) → append.isDone = true) ∧
      ∀ moves', (run { runId } (moves ++ moves')).eventsOf i = s.eventsOf i := by
  intro s
  have h : Inv s := run_inv (inv_new runId) moves
  refine ⟨h.numbered, h.once, fun i call hcall hpc => ?_⟩
  have hsettled := h.settled hcall hpc
  refine ⟨fun event append hp => ?_, fun moves' => ?_⟩
  · obtain ⟨call', _, hcall', -, hdone⟩ := hsettled
    rw [hcall] at hcall'
    cases hcall'
    exact hdone event append hp
  · rw [run_append]
    exact (run_settled hsettled moves').1

end Emitter

end DataNexus.Runtime
