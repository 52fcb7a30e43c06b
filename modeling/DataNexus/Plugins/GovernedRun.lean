/-
  DataNexus.Plugins.GovernedRun — a run of the coordinator with the executions its node
  tasks wait for (`PluginRuntime.run`, `ResolverRegistry.execute`,
  `GovernedResolver.execute_validated_fragment` in `nexus_plugins`;
  `QueryCoordinator._perform_and_commit`, `DuckDBOperatorExecutor.execute`).

  Actors: those of `Runtime.Coordinator`, and one execution per node task, made when the
  task starts to wait. An execution reserves memory, then resolves its source or computes
  its operator, then commits. A governed resolver waits for the source's own task, for the
  run's cancel event and for its own deadline; leaving with that task still running, it sets
  the run's cancel event, asks the remote side to stop and waits for the task. The operator
  executor interrupts its worker and waits for it, and leaves the event alone.

  What a node task finds when its wait is over is what its execution has done by then
  (`fits`). Once it has handed the execution off, the execution is cancelled and goes on by
  itself. `lapsed` remembers that the source of an execution failed or passed its deadline
  while the task waited for it.

  A source's task raises CancelledError only once the cancel event is set, and so does a
  commit; a failing clean-up replaces the exception on its way. Tables, limits and stores
  are left out: an execution is accepted or not, a table is within the limits or not.
-/

import DataNexus.Runtime.Coordinator

namespace DataNexus.Plugins

open DataNexus.Runtime

/-- How an execution ends, or a task under it: with its table, with TimeoutError, with
    CancelledError or with another exception. -/
inductive Outcome where
  | succeeded | timeoutError | cancelledError | failed
  deriving DecidableEq

def Outcome.waited : Outcome → Coordinator.Waited
  | succeeded => .succeeded
  | timeoutError => .timeoutError
  | cancelledError => .cancelledError
  | failed => .failed

/-- An exception other than CancelledError. -/
def Outcome.isFailure : Outcome → Bool
  | timeoutError | failed => true
  | _ => false

inductive ExecPc where
  | reserving
  /-- The resolver in `asyncio.wait`; how the source's task ended, if it has. -/
  | resolving (work : Option Outcome)
  /-- The resolver's finally block, the source's task still running; what it raises. -/
  | cleaning (raises : Outcome)
  /-- The operator executor in `asyncio.wait`; how its worker ended, if it has. -/
  | computing (work : Option Outcome)
  /-- Waiting for the interrupted worker. -/
  | interrupting (raises : Outcome)
  | committing
  | ended (outcome : Outcome)
  deriving DecidableEq

structure Exec where
  pc : ExecPc
  /-- The source failed, or passed its deadline, while the node's task waited. -/
  lapsed : Bool
  deriving DecidableEq

inductive ExecEv where
  /-- The memory is reserved and the execution accepted, or not. -/
  | start (accepted : Bool)
  /-- The source's task, or the worker, ends. -/
  | work (outcome : Outcome)
  /-- The wait is over; whether a table is within the limits. -/
  | resume (within : Bool)
  /-- The wait's timeout. -/
  | deadline
  /-- The clean-up is over, with an exception of its own or without. -/
  | cleaned (instead : Option Outcome)
  | committed (outcome : Outcome)
  /-- `execution.cancel()`. -/
  | interrupt
  deriving DecidableEq

structure ExecMove where
  exec : Exec
  /-- `cancel_event.set()`. -/
  cancels : Bool := false
  deriving DecidableEq

namespace Exec

def goto (x : Exec) (pc : ExecPc) : Option ExecMove := some { exec := { x with pc := pc } }

def isEnded (x : Exec) : Bool :=
  match x.pc with
  | .ended _ => true
  | _ => false

/-- A table is at hand: the limits, and the cancel check before the commit. -/
def commit (x : Exec) (cancelEvent within : Bool) : Option ExecMove :=
  x.goto (if !within then .ended .failed else if cancelEvent then .ended .cancelledError else .committing)

/-- `execute_validated_fragment` after its wait. -/
def resumeSource (x : Exec) (cancelEvent within : Bool) (work : Option Outcome) : Option ExecMove :=
  if cancelEvent then
    match work with
    | none => some { exec := { x with pc := .cleaning .cancelledError }, cancels := true }
    | some _ => x.goto (.ended .cancelledError)
  else
    match work with
    | none => none
    | some .succeeded => x.commit cancelEvent within
    | some outcome => x.goto (.ended outcome)

/-- `DuckDBOperatorExecutor.execute` after its wait. -/
def resumeOperator (x : Exec) (cancelEvent within : Bool) (work : Option Outcome) : Option ExecMove :=
  match work with
  | none => if cancelEvent then x.goto (.interrupting .cancelledError) else none
  | some .succeeded => x.commit cancelEvent within
  | some outcome => x.goto (.ended outcome)

/-- The execution's task is cancelled where it awaits; the wait for a worker swallows it. -/
def interrupted (x : Exec) : Option ExecMove :=
  match x.pc with
  | .resolving none => some { exec := { x with pc := .cleaning .cancelledError }, cancels := true }
  | .computing none => x.goto (.interrupting .cancelledError)
  | .cleaning _ => x.goto (.cleaning .cancelledError)
  | .interrupting _ | .ended _ => none
  | _ => x.goto (.ended .cancelledError)

/-- One step of an execution. `attached`: the node's task still waits for it. -/
def move (source cancelEvent attached : Bool) (x : Exec) (e : ExecEv) : Option ExecMove :=
  match x.pc, e with
  | .reserving, .start accepted =>
    x.goto (if !accepted then .ended .failed else if cancelEvent then .ended .cancelledError
      else if source then .resolving none else .computing none)
  | .resolving none, .work outcome =>
    if outcome = .cancelledError ∧ cancelEvent = false then none
    else some { exec := { pc := .resolving (some outcome), lapsed := x.lapsed || attached && outcome.isFailure } }
  | .resolving work, .resume within => x.resumeSource cancelEvent within work
  | .resolving none, .deadline =>
    some { exec := { pc := .cleaning .failed, lapsed := x.lapsed || attached }, cancels := true }
  | .cleaning raises, .cleaned none => x.goto (.ended raises)
  | .cleaning _, .cleaned (some instead) => if instead.isFailure then x.goto (.ended instead) else none
  | .computing none, .work outcome =>
    if outcome = .cancelledError then none else x.goto (.computing (some outcome))
  | .computing work, .resume within => x.resumeOperator cancelEvent within work
  | .computing none, .deadline => x.goto (.interrupting .failed)
  | .interrupting raises, .cleaned _ => x.goto (.ended raises)
  | .committing, .committed outcome =>
    if outcome = .cancelledError ∧ cancelEvent = false then none else x.goto (.ended outcome)
  | _, .interrupt => if attached then none else x.interrupted
  | _, _ => none

end Exec

structure St where
  coordinator : Coordinator.St
  /-- The execution a node's task has made. -/
  exec : String → Option Exec

def init : St := { coordinator := Coordinator.init, exec := fun _ => none }

inductive Ev where
  | coordinator (e : Coordinator.Ev)
  | exec (id : String) (e : ExecEv)
  deriving DecidableEq

/-- What the node's task finds is what its execution has done. -/
def fits (x : Option Exec) : Coordinator.NodeEv → Bool
  | .waited .cancellation | .waited .timeout => !x.any (·.isEnded)
  | .waited result => x.any fun x => match x.pc with
    | .ended outcome => outcome.waited = result
    | _ => false
  | .deliver executionDone => executionDone == x.any (·.isEnded)
  | _ => true

variable (plan : PhysicalPlan)

def isSource (id : String) : Bool := (findNode plan.nodes id).any (·.isSourceFragment)

/-- A node's task moves; one that comes to its wait makes an execution. -/
def nodeStep (s : St) (id : String) (e : Coordinator.NodeEv) : St :=
  if fits (s.exec id) e then
    let coordinator := Coordinator.nodeStep s.coordinator id e
    { coordinator := coordinator
      exec := if coordinator.node id = .executing ∧ s.coordinator.node id ≠ .executing then
          Function.update s.exec id (some { pc := .reserving, lapsed := false })
        else s.exec }
  else s

def applyExec (s : St) (id : String) (move : ExecMove) : St :=
  { coordinator := { s.coordinator with cancelEvent := s.coordinator.cancelEvent || move.cancels }
    exec := Function.update s.exec id (some move.exec) }

def execStep (s : St) (id : String) (e : ExecEv) : St :=
  match s.exec id with
  | none => s
  | some x =>
    match x.move (isSource plan id) s.coordinator.cancelEvent (s.coordinator.node id = .executing) e with
    | none => s
    | some move => applyExec s id move

def step (s : St) : Ev → St
  | .coordinator (.node id e) => nodeStep s id e
  | .coordinator e => { s with coordinator := Coordinator.step plan s.coordinator e }
  | .exec id e => execStep plan s id e

def run (events : List Ev) : St := events.foldl (step plan) init

/-- No step of the run is one of `bad`. -/
def avoids (bad : St → Ev → Bool) : St → List Ev → Bool
  | _, [] => true
  | s, e :: events => !bad s e && avoids bad (step plan s e) events

/-- A node's task is woken by the cancel event while the node's own resolver cleans up
    after its deadline. -/
def overtaken (s : St) : Ev → Bool
  | .coordinator (.node id (.waited .cancellation)) => (s.exec id).any fun x => match x.pc with
    | .cleaning raises => raises.isFailure
    | _ => false
  | _ => false

/-- A cancellation is seen in the place of a failure of the node's own source: by the node's
    task, or by its resolver, which looks at the event first. -/
def outrun (id : String) (s : St) : Ev → Bool
  | .coordinator (.node id' (.waited .cancellation)) => id' = id && (s.exec id).any (·.lapsed)
  | .exec id' (.resume _) =>
    id' = id && s.coordinator.cancelEvent && (s.exec id).any fun x => match x.pc with
      | .resolving (some outcome) => outcome.isFailure
      | _ => false
  | _ => false

end DataNexus.Plugins
