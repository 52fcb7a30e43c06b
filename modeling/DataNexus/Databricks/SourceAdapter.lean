/-
  DataNexus.Databricks.SourceAdapter — one execution of a live source
  (`DatabricksSourceAdapter.execute` and `cancel` in `databricks_adapter.py`, over
  `StatementExecutionClient.execute` in the connector's `client.py`).

  Actors. The calling task waits for the resolution, for a cancellation (`cancel(handle)`
  or the run's cancel event) and for the adapter's timer; then it may ask the provider to
  cancel and drain the resolution. The resolution is a task of the client: it submits the
  statement, reports its id through `on_statement_submitted`, polls and collects. At most
  one task calls `provider_cancel`. The provider moves the statement on by itself. An event
  is what one of them does between two awaits, or comes from outside: the caller's task
  cancelled, a timer, an answer.

  The adapter's lock is never held across an await, so what is done under it is one step
  with what follows. Cancelling a task takes effect where it awaits: `provider_cancel` is
  waited for in a loop that swallows it, and so are the drains after a timeout and in the
  except clause; the drain on the cancellation path passes it on to the resolution, as the
  drain's own timer does. A resolution cancelled while it submits never learns the id; one
  whose answer `_parse_statement_response` refuses drops it, though the provider runs the
  statement. A request to cancel counts from the call that sends it, whatever is answered.

  Executions have handles of their own (`exec-` and a uuid), so one is modelled: its entries
  in the adapter's tables. Left out: provenance, run idleness and failure records, which
  `execute` only writes, and the contents of results and errors.
-/

import Mathlib

namespace DataNexus.Databricks.SourceAdapter

inductive StatementState where
  | pending | running | succeeded | failed | canceled | closed
  deriving DecidableEq

/-- `state in (PENDING, RUNNING)`. -/
def StatementState.isActive : StatementState → Bool
  | pending | running => true
  | _ => false

/-! ## The client -/

/-- How the resolution ended: a table, `StatementCanceledError`, `StatementTimeoutError`,
    another `DatabricksResolverError`, a CancelledError, any other exception. -/
inductive Resolution where
  | table | canceled | timeout | failed | cancelled | other
  deriving DecidableEq

inductive ClientPc where
  | submitting
  /-- In `on_statement_submitted`, until `provider_cancel` is done; the response's state. -/
  | callback (response : StatementState)
  /-- In `_cancel_after_submission_callback_failure`. -/
  | callbackFailed
  | polling (response : StatementState)
  /-- In `_handle_timeout`, until its cancel request is answered. -/
  | timingOut
  | collecting
  | ended (result : Resolution)
  deriving DecidableEq

inductive ClientEv where
  /-- The submission is answered. -/
  | submitted (statementId : String) (response : StatementState)
  /-- The provider runs the statement, and its answer to the submission is one that
      `_parse_statement_response` raises on: no readable id or status, or a malformed
      manifest or result. -/
  | unreadable (statementId : String) (response : StatementState)
  /-- Submitting, a poll or a chunk fails; the error is one of the connector's or not. -/
  | fails (known : Bool)
  | deadline
  | polled
  /-- A response that is not active is looked at. -/
  | settle
  | collected
  /-- The wait for `provider_cancel`, or for the client's own cancel request, is over. -/
  | resume
  deriving DecidableEq

/-! ## The adapter -/

/-- Why the calling task stopped waiting: a flag was set, its timer ran out, or it is in
    `except asyncio.CancelledError`. -/
inductive Cause where
  | flagged | timedOut | excepted
  deriving DecidableEq

inductive Leaving where
  | returned | cancelled | resolverFailure | other
  deriving DecidableEq

inductive AdapterPc where
  | waiting
  /-- In `_request_provider_cancel`. -/
  | requesting (cause : Cause)
  /-- Draining the resolution; whether the drain's timer has run out, and whether the
      caller's cancellation was passed on to the resolution. -/
  | draining (cause : Cause) (expired passed : Bool)
  | left (how : Leaving)
  deriving DecidableEq

/-- The task that runs `_provider_cancel_core`; it raises what that does not catch. -/
inductive ProviderTask where
  | none
  | running
  | done (raises : Bool)
  deriving DecidableEq

structure St where
  adapter : AdapterPc
  client : ClientPc
  localCancel : Bool
  cancelEvent : Bool
  /-- The handle's entry in `_active_statements`. -/
  registered : Option String
  providerTask : ProviderTask
  /-- The provider's state of the statement the client submitted, whether or not the client
      has read its id. -/
  statement : Option (String × StatementState)
  /-- Calls of `provider_cancel`. -/
  providerCalls : List String
  /-- Cancel requests of the client itself. -/
  clientCancels : List String
  deriving DecidableEq

/-- The resolution's task is made; the calling task waits. -/
def init : St where
  adapter := .waiting
  client := .submitting
  localCancel := false
  cancelEvent := false
  registered := none
  providerTask := .none
  statement := none
  providerCalls := []
  clientCancels := []

inductive Ev where
  /-- `DatabricksSourceAdapter.cancel(handle)`. -/
  | cancelCall
  | setCancelEvent
  /-- The calling task is cancelled. -/
  | taskCancel
  /-- The calling task goes on; `timer`: for its timer at the least; `accepts`: the result's
      schema and size are allowed. -/
  | wake (timer accepts : Bool)
  /-- The drain's timer. -/
  | drainTimer
  | client (e : ClientEv)
  /-- `provider_cancel` is done; `raises`: with an exception `_provider_cancel_core` lets through. -/
  | provider (raises : Bool)
  /-- The provider moves the statement on. -/
  | progress (state : StatementState)
  deriving DecidableEq

/-- `local_cancel.is_set() or cancel_event.is_set()`. -/
def flagged (s : St) : Bool := s.localCancel || s.cancelEvent

/-- `_request_provider_cancel`, up to its wait. -/
def requestProviderCancel (s : St) (statementId : String) : St :=
  match s.providerTask with
  | .none => { s with providerTask := .running, providerCalls := s.providerCalls ++ [statementId] }
  | _ => s

def isLeft : AdapterPc → Bool
  | .left _ => true
  | _ => false

/-! ## Steps of the client -/

def clientCancel (s : St) : St :=
  { s with clientCancels := s.clientCancels ++ (s.statement.map Prod.fst).toList }

/-- `on_statement_submitted`, and on to the polls. -/
def onStatementSubmitted (s : St) (statementId : String) (response : StatementState) : St :=
  let s := { s with registered := some statementId, statement := some (statementId, response) }
  if flagged s then { requestProviderCancel s statementId with client := .callback response }
  else { s with client := .polling response }

/-- `ProtocolError` out of `_submit`: the provider's statement, and nobody told of it. -/
def unreadable (s : St) (statementId : String) (response : StatementState) : St :=
  { s with statement := some (statementId, response), client := .ended .failed }

/-- The state the provider answers a poll with. -/
def pollState (s : St) (response : StatementState) : StatementState := (s.statement.map Prod.snd).getD response

def failure (known : Bool) : Resolution := if known then .failed else .other

/-- What `execute` does with a response that is not active. -/
def settled : StatementState → ClientPc
  | .succeeded => .collecting
  | .canceled => .ended .canceled
  | _ => .ended .failed

/-- `StatementExecutionClient.execute`, one step at a time. -/
def clientStep (cancelOnTimeout : Bool) (s : St) (e : ClientEv) : St :=
  match s.client, e with
  | .submitting, .submitted statementId response => onStatementSubmitted s statementId response
  | .submitting, .unreadable statementId response => unreadable s statementId response
  | .submitting, .fails known => { s with client := .ended (failure known) }
  | .submitting, .deadline => { s with client := .ended .timeout }
  | .callback response, .resume =>
    match s.providerTask with
    | .done true => { clientCancel s with client := .callbackFailed }
    | .done false => { s with client := .polling response }
    | _ => s
  | .callbackFailed, .resume => { s with client := .ended .other }
  | .polling response, .deadline =>
    if response.isActive && cancelOnTimeout then { clientCancel s with client := .timingOut }
    else { s with client := .ended .timeout }
  | .polling response, .polled => if response.isActive then { s with client := .polling (pollState s response) } else s
  | .polling response, .fails known => if response.isActive then { s with client := .ended (failure known) } else s
  | .polling response, .settle => if response.isActive then s else { s with client := settled response }
  | .timingOut, .resume => { s with client := .ended .timeout }
  | .collecting, .collected => { s with client := .ended .table }
  | .collecting, .fails known => { s with client := .ended (failure known) }
  | .collecting, .deadline => { s with client := .ended .timeout }
  | _, _ => s

/-- `resolution.cancel()`. -/
def interruptClient (s : St) : St :=
  match s.client with
  | .callback _ | .callbackFailed | .ended _ => s
  | _ => { s with client := .ended .cancelled }

/-! ## Steps of the calling task -/

/-- `_request_registered_provider_cancel`, and on to the drain where it has nothing to ask. -/
def requestRegistered (s : St) (cause : Cause) : St :=
  match s.registered with
  | some statementId => { requestProviderCancel s statementId with adapter := .requesting cause }
  | none => { s with adapter := .draining cause false false }

/-- `except asyncio.CancelledError`. -/
def exceptCancelled (s : St) : St := requestRegistered { s with localCancel := true } .excepted

/-- After `asyncio.wait`. -/
def afterWait (s : St) (timer accepts : Bool) : St :=
  if flagged s then requestRegistered s .flagged
  else
    match s.client with
    | .ended .table => { s with adapter := .left (if accepts then .returned else .resolverFailure) }
    | .ended .canceled | .ended .cancelled => exceptCancelled s
    | .ended .timeout | .ended .failed => { s with adapter := .left .resolverFailure }
    | .ended .other => { s with adapter := .left .other }
    | _ => if timer then requestRegistered s .timedOut else s

/-- After `_request_provider_cancel`. -/
def afterRequest (s : St) (cause : Cause) : St :=
  match s.providerTask with
  | .done true => { s with adapter := .left .other }
  | .done false => { s with adapter := .draining cause false false }
  | _ => s

/-- What is raised after a drain that went well. -/
def afterDrain (s : St) : Cause → St
  | .flagged => exceptCancelled s
  | .timedOut => { s with adapter := .left .resolverFailure }
  | .excepted => { s with adapter := .left .cancelled }

/-- A CancelledError out of the drain. -/
def drainCancelled (s : St) : Cause → St
  | .flagged | .timedOut => exceptCancelled s
  | .excepted => { s with adapter := .left .cancelled }

/-- `_drain_cancelled_resolution`, once the resolution is over. -/
def drained (s : St) (cause : Cause) (expired passed : Bool) : Resolution → St
  | .table | .canceled => afterDrain s cause
  | .timeout | .failed => { s with adapter := .left .resolverFailure }
  | .cancelled => if expired && !passed then { s with adapter := .left .resolverFailure } else drainCancelled s cause
  | .other => { s with adapter := .left .other }

def wake (s : St) (timer accepts : Bool) : St :=
  match s.adapter, s.client with
  | .waiting, _ => afterWait s timer accepts
  | .requesting cause, _ => afterRequest s cause
  | .draining cause expired passed, .ended result => drained s cause expired passed result
  | _, _ => s

def taskCancel (s : St) : St :=
  match s.adapter with
  | .waiting => exceptCancelled s
  | .draining .flagged expired _ => interruptClient { s with adapter := .draining .flagged expired true }
  | _ => s

def drainTimer (s : St) : St :=
  match s.adapter with
  | .draining cause false passed => interruptClient { s with adapter := .draining cause true passed }
  | _ => s

/-- `cancel`: after the execution its handle is unknown. -/
def cancelCall (s : St) : St :=
  if isLeft s.adapter then s
  else
    match s.registered with
    | some statementId => requestProviderCancel { s with localCancel := true } statementId
    | none => { s with localCancel := true }

/-- A statement that is over stays as it is. -/
def progress (s : St) (state : StatementState) : St :=
  match s.statement with
  | some (statementId, current) => if current.isActive then { s with statement := some (statementId, state) } else s
  | none => s

/-! ## Runs -/

variable (cancelOnTimeout : Bool)

def step (s : St) : Ev → St
  | .cancelCall => cancelCall s
  | .setCancelEvent => { s with cancelEvent := true }
  | .taskCancel => taskCancel s
  | .wake timer accepts => wake s timer accepts
  | .drainTimer => drainTimer s
  | .client e => clientStep cancelOnTimeout s e
  | .provider raises => if s.providerTask = .running then { s with providerTask := .done raises } else s
  | .progress state => progress s state

def run (events : List Ev) : St := events.foldl (step cancelOnTimeout) init

/-- A cancel request for the statement has been sent, by the adapter or by the client. -/
def sent (s : St) (statementId : String) : Bool :=
  s.providerCalls.contains statementId || s.clientCancels.contains statementId

/-- The execution has left without a table. -/
def gaveUp (s : St) : Bool :=
  match s.adapter with
  | .left .returned => false
  | .left _ => true
  | _ => false

end DataNexus.Databricks.SourceAdapter
