/-
  DataNexus.Runtime.Coordinator — a run of the coordinator as the tasks that write its log
  (`QueryCoordinator.run`, `_execute_node`, `_terminalize_waves`, `_skip_nodes`,
  `_finalize_outer_cancellation`, `_Emitter.emit` in `query_runtime/coordinator.py`).

  Actors: the task that awaits `run`, once it has registered its id, and one task per node
  of the current wave, made by `asyncio.gather`. A step is what a task does between two
  awaits, or an event outside it: the emitter's lock granted, a store append done, a wait
  over, `QueryCoordinator.cancel` (`cancelCall`), the awaiting task cancelled
  (`outerCancel`), any number of times.

  Cancelling a task leaves it a pending CancelledError (`interrupted`), thrown where it
  awaits next. An emission that waits for the lock is then dropped; one whose append is on
  its way is waited out and the error raised after it; a node's terminal event is emitted
  by a task of its own, so it is never dropped. Cancelling a gather cancels every child
  that is not done; the gather ends with the first child that raises, or with the last.

  Left out: the semaphore only delays a node, so its permit comes at any time; the hand-off
  of an execution succeeds; an execution ends in any way or not at all. An event is its
  scope and state: its sequence number is its position, and codes and messages are read by
  nothing here.
-/

import DataNexus.Lib.Journal
import DataNexus.Runtime.PhysicalPlan

namespace DataNexus.Runtime.Coordinator

open Lib

inductive ExecutionState where
  | pending | ready | running | succeeded | failed | cancelled | timedOut | skipped
  deriving DecidableEq

namespace ExecutionState

/-- `TERMINAL_STATES`. -/
def isTerminal : ExecutionState → Bool
  | succeeded | failed | cancelled | timedOut | skipped => true
  | _ => false

/-- `STATE_TRANSITIONS`. -/
def transitions : ExecutionState → List ExecutionState
  | pending => [ready, cancelled, skipped]
  | ready => [running, failed, cancelled, skipped]
  | running => [succeeded, failed, cancelled, timedOut]
  | _ => []

end ExecutionState

open ExecutionState

inductive Scope where
  | run
  | stage (wave : Nat)
  | node (id : String)
  deriving DecidableEq

abbrev Event := Journal.Entry Scope ExecutionState

/-- The last state in the log. -/
def stateIn (log : List Event) (scope : Scope) : ExecutionState := Journal.stateOf pending log scope

/-- `_terminal_stage_state`. -/
def terminalStageState (states : List ExecutionState) : ExecutionState :=
  if states.contains timedOut then timedOut
  else if states.contains failed then failed
  else if states.contains cancelled then cancelled
  else succeeded

section Plan

variable (plan : PhysicalPlan)

def waves : List Nat := Kahn.sorted (plan.nodes.map (·.wave)).dedup

/-- The ids of a wave's nodes, sorted. -/
def waveNodes (wave : Nat) : List String := Kahn.sorted ((plan.nodes.filter (·.wave = wave)).map (·.id))

/-- `_terminalize_waves`. -/
def terminalizeWaves (ws : List Nat) (state : ExecutionState) : List Event :=
  ws.flatMap fun w => ⟨.stage w, state⟩ :: (waveNodes plan w).map fun id => ⟨.node id, state⟩

def hasTerminal (log : List Event) (scope : Scope) : Bool := log.any fun e => e.scope = scope && e.state.isTerminal

/-- Everything the log speaks of, in the order `_finalize_outer_cancellation` goes. -/
def scopes : List Scope := ((waves plan).flatMap fun w => .stage w :: (waveNodes plan w).map .node) ++ [.run]

/-- `_finalize_outer_cancellation`: what it emits after it has read the log. -/
def finalizeEvents (log : List Event) : List Event :=
  ((scopes plan).filter (!hasTerminal log ·)).map (⟨·, cancelled⟩)

end Plan

/-- An emission waits for the emitter's lock, has its append on the way, or has it done
    with the lock still held. -/
inductive Emit where
  | waiting | holding | appended
  deriving DecidableEq

/-! ## Node tasks -/

/-- Where a node's task stands. -/
inductive NodePc where
  | idle
  /-- Made by the gather, not yet run. -/
  | created
  | ready (emit : Emit)
  | semaphore
  | started (emit : Emit)
  /-- In `asyncio.wait`. -/
  | executing
  /-- Awaiting the hand-off of its execution, after a timeout or a cancellation. -/
  | handoff (timeout : Bool)
  /-- Emitting its terminal event; `logged` is its state in the log before. -/
  | terminal (logged state : ExecutionState) (emit : Emit)
  | returned (state : ExecutionState)
  /-- A CancelledError left the task. -/
  | raised (logged : ExecutionState)
  deriving DecidableEq

/-- What `asyncio.wait` found done first, and the execution's result. -/
inductive Waited where
  | cancellation | timeout | succeeded | timeoutError | cancelledError | failed
  deriving DecidableEq

inductive NodeEv where
  | start
  | acquire
  | append
  | resume
  | permit
  | waited (result : Waited)
  | handed
  /-- The pending CancelledError is thrown where the task awaits. -/
  | deliver (executionDone : Bool)
  deriving DecidableEq

inductive Actor where
  | run
  | node (id : String)
  deriving DecidableEq

inductive LockMove where
  | keep | take | free
  deriving DecidableEq

def LockMove.apply (lock : Option Actor) (actor : Actor) : LockMove → Option Actor
  | keep => lock
  | take => some actor
  | free => none

/-- What a node's step does besides moving on. -/
structure NodeMove where
  pc : NodePc
  emits : Option ExecutionState := none
  lock : LockMove := .keep
  /-- `cancel_event.set()`. -/
  cancels : Bool := false
  /-- The pending CancelledError is used up. -/
  consumes : Bool := false
  deriving DecidableEq

/-- `except asyncio.CancelledError`, before the node's terminal event. -/
def exceptNode (logged : ExecutionState) : NodeMove :=
  { pc := .terminal logged .cancelled .waiting, cancels := true, consumes := true }

def failNode (state : ExecutionState) : NodeMove := { pc := .terminal .running state .waiting, cancels := true }

/-- After `asyncio.wait`, and the await of `cancellation` where it is not done. -/
def afterWait (cancelEvent : Bool) : Waited → Option NodeMove
  | .cancellation => if cancelEvent then some { pc := .handoff false } else none
  | .timeout => some { pc := .handoff true, cancels := true }
  | .succeeded =>
    some (if cancelEvent then exceptNode .running else { pc := .terminal .running .succeeded .waiting })
  | .timeoutError => some (failNode .timedOut)
  | .cancelledError => some (exceptNode .running)
  | .failed => some (failNode .failed)

/-- `_execute_node`, one step at a time. -/
def nodeMove (cancelEvent interrupted locked : Bool) : NodePc → NodeEv → Option NodeMove
  | .created, .start =>
    some (if interrupted then { pc := .raised .pending, consumes := true } else { pc := .ready .waiting })
  | .ready .waiting, .acquire =>
    if locked || interrupted then none else some { pc := .ready .holding, lock := .take }
  | .ready .waiting, .deliver _ =>
    -- The READY event is emitted outside the try block.
    if interrupted then some { pc := .raised .pending, consumes := true } else none
  | .ready .holding, .append => some { pc := .ready .appended, emits := some .ready }
  | .ready .appended, .resume =>
    some (if interrupted then { pc := .raised .ready, lock := .free, consumes := true }
      else { pc := .semaphore, lock := .free })
  | .semaphore, .permit =>
    if interrupted then none
    else some (if cancelEvent then exceptNode .ready else { pc := .started .waiting })
  | .semaphore, .deliver _ => if interrupted then some (exceptNode .ready) else none
  | .started .waiting, .acquire =>
    if locked || interrupted then none else some { pc := .started .holding, lock := .take }
  | .started .waiting, .deliver _ => if interrupted then some (exceptNode .ready) else none
  | .started .holding, .append => some { pc := .started .appended, emits := some .running }
  | .started .appended, .resume =>
    some (if interrupted then { exceptNode .running with lock := .free } else { pc := .executing, lock := .free })
  | .executing, .waited .cancellation => if interrupted then none else afterWait cancelEvent .cancellation
  | .executing, .waited result =>
    -- A CancelledError that comes while `cancellation` is awaited is suppressed.
    (afterWait cancelEvent result).map fun move => { move with consumes := true }
  | .executing, .deliver executionDone =>
    if interrupted then
      some (if executionDone then exceptNode .running else { pc := .handoff false, consumes := true })
    else none
  | .handoff timeout, .handed =>
    some (if timeout && !interrupted then { pc := .terminal .running .timedOut .waiting } else exceptNode .running)
  | .terminal logged state .waiting, .acquire =>
    if locked then none else some { pc := .terminal logged state .holding, lock := .take }
  | .terminal logged state .holding, .append => some { pc := .terminal logged state .appended, emits := some state }
  | .terminal _ state .appended, .resume =>
    some { pc := if interrupted then .raised state else .returned state, lock := .free, consumes := true }
  | _, _ => none

/-! ## The run's task -/

/-- Where `run` stands. -/
inductive RunPc where
  | runReady (emit : Emit)
  | runStarted (emit : Emit)
  | stageReady (wave : Nat) (rest : List Nat) (emit : Emit)
  | stageStarted (wave : Nat) (rest : List Nat) (emit : Emit)
  | gathering (wave : Nat) (rest : List Nat)
  | stageEnded (wave : Nat) (state : ExecutionState) (rest : List Nat) (emit : Emit)
  /-- In `_terminalize_waves`. -/
  | closing (queue : List Event) (emit : Emit) (final : ExecutionState)
  | runEnded (state : ExecutionState) (emit : Emit)
  /-- Past its finally block, reading the events it returns. -/
  | listing (state : ExecutionState)
  | returned (state : ExecutionState) (manifest : Bool)
  /-- `RUN_OUTPUT_MISSING`. -/
  | outputMissing
  /-- The finalizer is about to read the log. -/
  | snapshot
  | finalizing (queue : List Event) (emit : Emit)
  /-- A CancelledError left `run`. -/
  | left
  deriving DecidableEq

namespace RunPc

/-- The event the run is emitting. -/
def emission : RunPc → Option (Event × Emit)
  | runReady e => some (⟨.run, .ready⟩, e)
  | runStarted e => some (⟨.run, .running⟩, e)
  | stageReady w _ e => some (⟨.stage w, .ready⟩, e)
  | stageStarted w _ e => some (⟨.stage w, .running⟩, e)
  | stageEnded w state _ e => some (⟨.stage w, state⟩, e)
  | closing (event :: _) e _ => some (event, e)
  | runEnded state e => some (⟨.run, state⟩, e)
  | finalizing (event :: _) e => some (event, e)
  | _ => none

def withEmit (emit : Emit) : RunPc → RunPc
  | runReady _ => runReady emit
  | runStarted _ => runStarted emit
  | stageReady w rest _ => stageReady w rest emit
  | stageStarted w rest _ => stageStarted w rest emit
  | stageEnded w state rest _ => stageEnded w state rest emit
  | closing queue _ final => closing queue emit final
  | runEnded state _ => runEnded state emit
  | finalizing queue _ => finalizing queue emit
  | pc => pc

/-- Nothing the caller does reaches the run any more. -/
def isDeaf : RunPc → Bool
  | snapshot | finalizing _ _ | left | returned _ _ | outputMissing => true
  | _ => false

end RunPc

inductive RunEv where
  | acquire
  | append
  | resume
  | gathered
  /-- `event_store.list` has answered. -/
  | list
  | deliver
  deriving DecidableEq

/-- What the tasks share. -/
structure Board where
  log : List Event
  node : String → NodePc
  runInterrupted : Bool
  interrupted : String → Bool
  cancelEvent : Bool
  /-- The id is in `_accepting_cancellation`. -/
  accepting : Bool
  /-- Some `cancel(run_id)` has returned True. -/
  cancelAccepted : Bool
  manifests : List String

structure St extends Board where
  /-- The emitter's lock. -/
  lock : Option Actor
  run : RunPc

/-- The id is registered. -/
def init : St where
  log := []
  lock := none
  run := .runReady .waiting
  node _ := .idle
  runInterrupted := false
  interrupted _ := false
  cancelEvent := false
  accepting := true
  cancelAccepted := false
  manifests := []

variable (plan : PhysicalPlan)

/-- The end of `run`'s try block: no cancellation is accepted from here on. -/
def finish (s : St) (state : ExecutionState) : St :=
  { s with accepting := false, run := .runEnded (if state = succeeded ∧ s.cancelEvent then cancelled else state) .waiting }

def close (s : St) (ws : List Nat) (state final : ExecutionState) : St :=
  match terminalizeWaves plan ws state with
  | [] => finish s final
  | queue => { s with run := .closing queue .waiting final }

/-- The head of the loop over the waves. -/
def nextWave (s : St) : List Nat → St
  | [] => finish s succeeded
  | w :: rest =>
    if s.cancelEvent then close plan s (w :: rest) cancelled cancelled
    else { s with run := .stageReady w rest .waiting }

def skipState (state : ExecutionState) : ExecutionState := if state = cancelled then cancelled else skipped

/-- What `run` does once its event is written. -/
def advance (s : St) : St :=
  match s.run with
  | .runReady _ => { s with run := .runStarted .waiting }
  | .runStarted _ => nextWave plan s (waves plan)
  | .stageReady w rest _ => { s with run := .stageStarted w rest .waiting }
  | .stageStarted w rest _ =>
    { s with run := .gathering w rest, node := fun id => if id ∈ waveNodes plan w then .created else s.node id }
  | .stageEnded _ state rest _ =>
    if state = succeeded then nextWave plan s rest
    else close plan { s with cancelEvent := true } rest (skipState state) state
  | .closing (_ :: event :: queue) _ final => { s with run := .closing (event :: queue) .waiting final }
  | .closing _ _ final => finish s final
  | .runEnded state _ =>
    if state = succeeded ∧ plan.outputNodeId ∉ s.manifests then { s with run := .outputMissing }
    else { s with run := .listing state }
  | .finalizing (_ :: event :: queue) _ => { s with run := .finalizing (event :: queue) .waiting }
  | .finalizing _ _ => { s with run := .left }
  | _ => s

/-- `run`'s `except asyncio.CancelledError`, up to the finalizer. -/
def exceptRun (s : St) : St :=
  { s with run := .snapshot, runInterrupted := false, cancelEvent := true, accepting := false }

def outcomeOf : NodePc → ExecutionState
  | .returned state => state
  | _ => .pending

def isReturned : NodePc → Bool
  | .returned _ => true
  | _ => false

def isRaised : NodePc → Bool
  | .raised _ => true
  | _ => false

/-- The gather is over. -/
def gathered (s : St) (w : Nat) (rest : List Nat) : St :=
  let ids := waveNodes plan w
  if ids.any (isRaised ∘ s.node) || (s.runInterrupted && ids.all (isReturned ∘ s.node)) then exceptRun s
  else if ids.all (isReturned ∘ s.node) then
    { s with
      run := .stageEnded w (terminalStageState (ids.map (outcomeOf ∘ s.node))) rest .waiting
      manifests := s.manifests ++ ids.filter fun id => outcomeOf (s.node id) = succeeded }
  else s

def runAcquire (s : St) : St :=
  match s.run.emission with
  | some (_, .waiting) =>
    if s.lock.isSome || s.runInterrupted then s else { s with lock := some .run, run := s.run.withEmit .holding }
  | _ => s

def runAppend (s : St) : St :=
  match s.run.emission with
  | some (event, .holding) => { s with log := s.log ++ [event], run := s.run.withEmit .appended }
  | _ => s

def runResume (s : St) : St :=
  match s.run.emission with
  | some (_, .appended) =>
    if s.runInterrupted then exceptRun { s with lock := none } else advance plan { s with lock := none }
  | _ => s

def runGathered (s : St) : St :=
  match s.run with
  | .gathering w rest => gathered plan s w rest
  | _ => s

def runList (s : St) : St :=
  match s.run with
  | .listing state =>
    if s.runInterrupted then s
    else { s with run := .returned state (state = succeeded ∧ plan.outputNodeId ∈ s.manifests) }
  | .snapshot =>
    match finalizeEvents plan s.log with
    | [] => { s with run := .left }
    | queue => { s with run := .finalizing queue .waiting }
  | _ => s

def runDeliver (s : St) : St :=
  if s.runInterrupted then
    match s.run.emission, s.run with
    | some (_, .waiting), _ => exceptRun s
    | none, .listing _ => { s with run := .left, runInterrupted := false }
    | _, _ => s
  else s

def runStep (s : St) : RunEv → St
  | .acquire => runAcquire s
  | .append => runAppend s
  | .resume => runResume plan s
  | .gathered => runGathered plan s
  | .list => runList plan s
  | .deliver => runDeliver s

def applyMove (s : St) (id : String) (move : NodeMove) : St :=
  { s with
    node := Function.update s.node id move.pc
    log := s.log ++ (move.emits.map (⟨.node id, ·⟩)).toList
    lock := move.lock.apply s.lock (.node id)
    cancelEvent := s.cancelEvent || move.cancels
    interrupted := if move.consumes then Function.update s.interrupted id false else s.interrupted }

def nodeStep (s : St) (id : String) (e : NodeEv) : St :=
  match nodeMove s.cancelEvent (s.interrupted id) s.lock.isSome (s.node id) e with
  | none => s
  | some move => applyMove s id move

/-- The task that awaits `run` is cancelled. -/
def outerCancel (s : St) : St :=
  if s.run.isDeaf then s
  else
    match s.run with
    | .gathering w _ =>
      { s with
        runInterrupted := true
        interrupted := fun id =>
          s.interrupted id || (decide (id ∈ waveNodes plan w) && !isReturned (s.node id) && !isRaised (s.node id)) }
    | _ => { s with runInterrupted := true }

/-- `QueryCoordinator.cancel`. -/
def cancelCall (s : St) : St :=
  if s.accepting then { s with cancelEvent := true, cancelAccepted := true } else s

inductive Ev where
  | node (id : String) (e : NodeEv)
  | run (e : RunEv)
  | outerCancel
  | cancelCall
  deriving DecidableEq

def step (s : St) : Ev → St
  | .node id e => nodeStep s id e
  | .run e => runStep plan s e
  | .outerCancel => outerCancel plan s
  | .cancelCall => cancelCall s

end DataNexus.Runtime.Coordinator
