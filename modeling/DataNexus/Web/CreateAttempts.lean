/-
  DataNexus.Web.CreateAttempts — the create retries of the web client
  (`apps/web/src/api/httpSemanticNexusClient.ts`, `startRun`, `cancelRun`, `clearAttempt`,
  `isDefinitiveCreateFailure`, `request`).

  Actors. A call of `startRun` takes the pending attempt of its request key or makes one. If
  the attempt has no run id it posts the attempt's payload (`createSent`), after waiting for
  its access token where a token provider is configured (`createToken`); the answer gives the
  attempt its run id, or an error that may remove the attempt. If it has one it looks for a
  terminal snapshot, behind a running cancellation of that run (`looking`), else asks for the
  status. Then it polls (`looping`, `sleeping`, `looking`, `requesting`) to a terminal state,
  fetches the detail of a run that succeeded, and removes the attempt. `cancelRun` posts a
  cancellation, once at a time for each run, and removes the attempts of a run that is over.
  Between any two awaits any other call may run; every request may be answered, fail, time
  out or be malformed. Other calls accept summaries too (`observe`), and a 401 or 403 of any
  request resets the client (`forbidden`).

  What happened is kept in a log, and the statements are about the log. A question that fails
  `isText` throws before anything is touched and is left out; so are the progress callbacks,
  which run where `looping` begins, and a session that refuses its headers, which sends nothing.
  `fetch` and `json()` are the platform's and reject with errors of their own, which `request`
  wraps; a `NexusClientError` of the token provider goes through as it is.
-/

import DataNexus.Lib.Chronicle
import DataNexus.Lib.Roster
import DataNexus.Web.RunSnapshots

namespace DataNexus.Web.CreateAttempts

open Lib
open DataNexus.Control

structure Config where
  workload : String
  compilationMode : CompilationMode
  evaluationTimezone : String
  /-- A `tokenProvider` is configured. -/
  tokenProvider : Bool
  deriving DecidableEq

/-- What `JSON.stringify` makes the request key from. -/
structure RequestKey where
  question : String
  workload : String
  compilationMode : CompilationMode
  evaluationTimezone : String
  deriving DecidableEq

structure Payload where
  clientRequestId : String
  workload : String
  question : String
  evaluationClock : String
  evaluationTimezone : String
  compilationMode : CompilationMode
  executionMode : ExecutionMode
  outputMode : OutputMode
  deriving DecidableEq

/-- `PendingCreateAttempt`. -/
structure Attempt where
  requestKey : RequestKey
  payload : Payload
  runId : Option String
  deriving DecidableEq

inductive NexusClientErrorCode where
  | configuration
  | request
  | network
  | http
  | invalidResponse
  | timeout
  deriving DecidableEq

structure NexusClientError where
  code : NexusClientErrorCode
  status : Option Nat
  deriving DecidableEq

def isDefinitiveCreateFailure (error : NexusClientError) : Bool :=
  error.code = .request || error.code = .configuration ||
    (error.code = .http && error.status.any (· < 500))

/-- Where a call of `startRun` goes once `terminalSnapshotAfterCancellation` has answered. -/
inductive AfterLook where
  | resume
  | poll
  /-- At the deadline: time out without a terminal snapshot. -/
  | deadline
  /-- After a failed poll: throw its error without one. -/
  | rescue
  deriving DecidableEq

inductive StartPhase where
  | createToken
  | createSent
  | createBody
  /-- A refusal is in; its body is being read. -/
  | createError (status : Nat)
  /-- In `terminalSnapshotAfterCancellation`: what it saw when called, and the cancellation it
      awaits. -/
  | looking (runId : String) (found : Option RunMetadata) (awaited : Option Nat) (next : AfterLook)
  | requesting (runId : String) (resumed : Bool)
  | looping (summary : RunMetadata)
  | sleeping (summary : RunMetadata)
  | detail (summary : RunMetadata)
  | ended
  deriving DecidableEq

structure StartCall where
  attempt : Nat
  phase : StartPhase
  deriving DecidableEq

inductive CancelPhase where
  | requesting
  | detail (summary : RunMetadata)
  | ended
  deriving DecidableEq

structure CancelCall where
  runId : String
  phase : CancelPhase
  deriving DecidableEq

inductive Entry where
  /-- A call of `startRun` begins, with this attempt. -/
  | begun (call attempt : Nat)
  /-- A create POST leaves. -/
  | sent (call : Nat) (key : RequestKey) (attempt : Nat) (payload : Payload)
  /-- A create request fails for good. -/
  | refused (call attempt : Nat) (error : NexusClientError)
  /-- The attempt's run id is known. -/
  | created (attempt : Nat) (runId : String)
  | accepted (summary : RunMetadata)
  | detailed (runId : String)
  /-- The pending attempt of the key is removed. -/
  | removed (key : RequestKey) (attempt : Nat)
  | reset
  deriving DecidableEq

structure St where
  snapshots : Snapshots
  pendingAttempts : List (RequestKey × Nat)
  attempts : List Attempt
  cancellations : List (String × Nat)
  starts : List StartCall
  cancels : List CancelCall
  log : List Entry

def init : St := ⟨fun _ => none, [], [], [], [], [], []⟩

inductive TokenOutcome where
  | valid
  /-- Blank or with a line break. -/
  | invalid
  /-- The provider rejects, with a `NexusClientError` or anything else; or the deadline passes. -/
  | failed (error : Option NexusClientError)
  deriving DecidableEq

inductive CreateOutcome where
  | ok
  | status (n : Nat)
  | failed
  deriving DecidableEq

inductive Ev where
  /-- `startRun`, with what `requestId()` and `now()` would give. -/
  | startRun (question clientRequestId evaluationClock : String)
  | token (call : Nat) (outcome : TokenOutcome)
  | createResponse (call : Nat) (outcome : CreateOutcome)
  | createBody (call : Nat) (summary : Option RunMetadata)
  | createErrorBody (call : Nat) (timedOut : Bool)
  | looked (call : Nat)
  | response (call : Nat) (summary : Option RunMetadata)
  | loop (call : Nat) (late : Bool)
  | wake (call : Nat)
  | detailed (call : Nat) (ok : Bool)
  | cancelRun (runId : String)
  | cancelled (call : Nat) (summary : Option RunMetadata)
  | cancelDetailed (call : Nat) (ok : Bool)
  /-- `listRuns` and `getRun`. -/
  | observe (summary : RunMetadata)
  | forbidden

namespace St

variable (s : St)

def note (e : Entry) : St := { s with log := s.log ++ [e] }

def setStart (i : Nat) (call : StartCall) (p : StartPhase) : St := { s with starts := s.starts.set i { call with phase := p } }

def setCancel (i : Nat) (call : CancelCall) (p : CancelPhase) : St :=
  { s with cancels := s.cancels.set i { call with phase := p } }

/-- `acceptSummary`, and the summary it returns. -/
def accept (candidate : RunMetadata) : St × RunMetadata :=
  let (snapshots, kept) := acceptSummary s.snapshots candidate
  ({ s with snapshots := snapshots }.note (.accepted kept), kept)

def clearAttempt (a : Nat) : St :=
  match s.attempts[a]? with
  | none => s
  | some attempt =>
    if s.pendingAttempts.lookup attempt.requestKey = some a then
      { s with pendingAttempts := s.pendingAttempts.filter fun entry => entry.1 != attempt.requestKey }.note
        (.removed attempt.requestKey a)
    else s

def clearIfRun (runId : String) (entry : RequestKey × Nat) : St :=
  if (s.attempts[entry.2]?).bind (·.runId) = some runId then s.clearAttempt entry.2 else s

def clearAttemptByRunId (runId : String) : St := s.pendingAttempts.foldl (fun s entry => s.clearIfRun runId entry) s

/-- A 401 or 403 answer. -/
def reset : St := { s with snapshots := fun _ => none, pendingAttempts := [] }.note .reset

/-- The call of `terminalSnapshotAfterCancellation`. -/
def look (runId : String) (next : AfterLook) : StartPhase :=
  let found := terminalSnapshot s.snapshots runId
  .looking runId found (if found.isSome then none else s.cancellations.lookup runId) next

/-- The awaited cancellation has settled. -/
def settled (awaited : Option Nat) : Bool :=
  awaited.all fun j => s.cancels[j]?.all fun call => decide (call.phase = .ended)

/-- The catch block around the create. -/
def createThrew (i : Nat) (call : StartCall) (error : NexusClientError) : St :=
  let s := if isDefinitiveCreateFailure error then (s.note (.refused i call.attempt error)).clearAttempt call.attempt else s
  s.setStart i call .ended

def endCancel (j : Nat) (call : CancelCall) : St :=
  { s.setCancel j call .ended with cancellations := s.cancellations.filter fun entry => entry.2 != j }

end St

variable (cfg : Config)

def Config.requestKey (question : String) : RequestKey :=
  ⟨question, cfg.workload, cfg.compilationMode, cfg.evaluationTimezone⟩

def Config.attempt (question clientRequestId evaluationClock : String) : Attempt where
  requestKey := cfg.requestKey question
  payload := ⟨clientRequestId, cfg.workload, question, evaluationClock, cfg.evaluationTimezone, cfg.compilationMode,
    .thread, .normal⟩
  runId := none

/-- The first turn of `startRun`, once it has its attempt. -/
def begin (s : St) (a : Nat) (attempt : Attempt) : St :=
  let i := s.starts.length
  let s := s.note (.begun i a)
  match attempt.runId with
  | some runId => { s with starts := s.starts ++ [⟨a, s.look runId .resume⟩] }
  | none =>
    if cfg.tokenProvider then { s with starts := s.starts ++ [⟨a, .createToken⟩] }
    else { s.note (.sent i attempt.requestKey a attempt.payload) with starts := s.starts ++ [⟨a, .createSent⟩] }

def startRun (s : St) (question clientRequestId evaluationClock : String) : St :=
  match s.pendingAttempts.lookup (cfg.requestKey question) with
  | some a =>
    match s.attempts[a]? with
    | some attempt => begin cfg s a attempt
    | none => s
  | none =>
    let attempt := cfg.attempt question clientRequestId evaluationClock
    let s' := { s with
      attempts := s.attempts ++ [attempt]
      pendingAttempts := s.pendingAttempts ++ [(attempt.requestKey, s.attempts.length)] }
    begin cfg s' s.attempts.length attempt

/-- The create's answer: its summary is accepted and the attempt has its run id. -/
def created (s : St) (i : Nat) (call : StartCall) (candidate : RunMetadata) : St :=
  let (s, kept) := s.accept candidate
  match s.attempts[call.attempt]? with
  | none => s
  | some attempt =>
    let s := { s with attempts := s.attempts.set call.attempt { attempt with runId := some kept.id } }
    (s.note (.created call.attempt kept.id)).setStart i call (.looping kept)

def step (s : St) : Ev → St
  | .startRun question clientRequestId evaluationClock => startRun cfg s question clientRequestId evaluationClock
  | .token i outcome =>
    match s.starts[i]? with
    | some call =>
      match call.phase, s.attempts[call.attempt]? with
      | .createToken, some attempt =>
        match outcome with
        | .valid => (s.note (.sent i attempt.requestKey call.attempt attempt.payload)).setStart i call .createSent
        | .invalid => s.createThrew i call ⟨.configuration, none⟩
        | .failed error => s.createThrew i call (error.getD ⟨.network, none⟩)
      | _, _ => s
    | none => s
  | .createResponse i outcome =>
    match s.starts[i]? with
    | some call =>
      match call.phase, outcome with
      | .createSent, .ok => s.setStart i call .createBody
      | .createSent, .status n =>
        (if n = 401 ∨ n = 403 then s.reset else s).setStart i call (.createError n)
      | .createSent, .failed => s.createThrew i call ⟨.network, none⟩
      | _, _ => s
    | none => s
  | .createBody i summary =>
    match s.starts[i]? with
    | some call =>
      match call.phase, summary with
      | .createBody, some candidate => created s i call candidate
      | .createBody, none => s.createThrew i call ⟨.invalidResponse, none⟩
      | _, _ => s
    | none => s
  | .createErrorBody i timedOut =>
    match s.starts[i]? with
    | some call =>
      match call.phase with
      | .createError n => s.createThrew i call (if timedOut then ⟨.timeout, none⟩ else ⟨.http, some n⟩)
      | _ => s
    | none => s
  | .looked i =>
    match s.starts[i]? with
    | some call =>
      match call.phase with
      | .looking runId found awaited next =>
        if s.settled awaited then
          match found.or (terminalSnapshot s.snapshots runId), next with
          | some summary, _ => s.setStart i call (.looping summary)
          | none, .resume => s.setStart i call (.requesting runId true)
          | none, .poll => s.setStart i call (.requesting runId false)
          | none, .deadline | none, .rescue => s.setStart i call .ended
        else s
      | _ => s
    | none => s
  | .response i summary =>
    match s.starts[i]? with
    | some call =>
      match call.phase with
      | .requesting runId resumed =>
        match summary.filter (·.id = runId) with
        | some candidate =>
          let (s, kept) := s.accept candidate
          s.setStart i call (.looping kept)
        | none => s.setStart i call (if resumed then .ended else s.look runId .rescue)
      | _ => s
    | none => s
  | .loop i late =>
    match s.starts[i]? with
    | some call =>
      match call.phase with
      | .looping summary =>
        if summary.state.isTerminal then
          if summary.state = .succeeded then s.setStart i call (.detail summary)
          else (s.clearAttempt call.attempt).setStart i call .ended
        else
          match terminalSnapshot s.snapshots summary.id with
          | some terminal => s.setStart i call (.looping terminal)
          | none =>
            if late then s.setStart i call (s.look summary.id .deadline) else s.setStart i call (.sleeping summary)
      | _ => s
    | none => s
  | .wake i =>
    match s.starts[i]? with
    | some call =>
      match call.phase with
      | .sleeping summary => s.setStart i call (s.look summary.id .poll)
      | _ => s
    | none => s
  | .detailed i ok =>
    match s.starts[i]? with
    | some call =>
      match call.phase with
      | .detail summary =>
        if ok then ((s.note (.detailed summary.id)).clearAttempt call.attempt).setStart i call .ended
        else s.setStart i call .ended
      | _ => s
    | none => s
  | .cancelRun runId =>
    match s.cancellations.lookup runId with
    | some _ => s
    | none =>
      { s with
        cancels := s.cancels ++ [⟨runId, .requesting⟩]
        cancellations := s.cancellations ++ [(runId, s.cancels.length)] }
  | .cancelled j summary =>
    match s.cancels[j]? with
    | some call =>
      match call.phase with
      | .requesting =>
        match summary.filter (·.id = call.runId) with
        | some candidate =>
          let (s, kept) := s.accept candidate
          if kept.state = .succeeded then s.setCancel j call (.detail kept)
          else (if kept.state.isTerminal then s.clearAttemptByRunId kept.id else s).endCancel j call
        | none => s.endCancel j call
      | _ => s
    | none => s
  | .cancelDetailed j ok =>
    match s.cancels[j]? with
    | some call =>
      match call.phase with
      | .detail summary =>
        (if ok then (s.note (.detailed summary.id)).clearAttemptByRunId summary.id else s).endCancel j call
      | _ => s
    | none => s
  | .observe summary => (s.accept summary).1
  | .forbidden => s.reset

def run (s : St) (events : List Ev) : St := events.foldl (step cfg) s

/-! ## What the log has to say -/

variable {cfg}

/-- No removal of the key's pending attempt in this stretch. -/
def NoRemoval (key : RequestKey) (stretch : List Entry) : Prop :=
  ∀ e ∈ stretch, e ≠ .reset ∧ ∀ a, e ≠ .removed key a

/-- A terminal state of a run the attempt created was accepted, with its detail if it
    succeeded; or a create POST of the attempt was sent and refused. -/
def Evidence (past : List Entry) (a : Nat) : Prop :=
  (∃ runId summary, .created a runId ∈ past ∧ .accepted summary ∈ past ∧ summary.id = runId ∧
    summary.state.isTerminal = true ∧ (summary.state = .succeeded → .detailed runId ∈ past)) ∨
  ∃ i key payload status, .sent i key a payload ∈ past ∧ .refused i a ⟨.http, some status⟩ ∈ past ∧ status < 500

def Law (past : List Entry) : Entry → Prop
  | .sent i key a payload =>
    (∀ l₀ l₁ j b other, past = l₀ ++ Entry.sent j key b other :: l₁ → NoRemoval key l₁ → other = payload) ∧
    ∀ l₀ l₁, past = l₀ ++ Entry.begun i a :: l₁ → ∀ runId, .created a runId ∉ l₀
  | .removed _ a => Evidence past a
  | _ => True

/-- Entries that say nothing about attempts. -/
def Entry.quiet : Entry → Bool
  | .accepted _ | .detailed _ | .refused _ _ _ => true
  | _ => false

def StartOk (cfg : Config) (log : List Entry) (i : Nat) (call : StartCall) : Prop :=
  match call.phase with
  | .createToken => cfg.tokenProvider = true ∧
    ∀ l₀ l₁, log = l₀ ++ Entry.begun i call.attempt :: l₁ → ∀ runId, .created call.attempt runId ∉ l₀
  | .createSent | .createBody | .createError _ => ∃ key payload, .sent i key call.attempt payload ∈ log
  | .looking runId found _ _ =>
    .created call.attempt runId ∈ log ∧ ∀ summary, found = some summary → .accepted summary ∈ log ∧ summary.id = runId
  | .requesting runId _ => .created call.attempt runId ∈ log
  | .looping summary | .sleeping summary => .accepted summary ∈ log ∧ .created call.attempt summary.id ∈ log
  | .detail summary =>
    .accepted summary ∈ log ∧ .created call.attempt summary.id ∈ log ∧ summary.state = .succeeded
  | .ended => True

def CancelOk (log : List Entry) (call : CancelCall) : Prop :=
  match call.phase with
  | .detail summary => .accepted summary ∈ log ∧ summary.state = .succeeded
  | _ => True

structure Inv (cfg : Config) (s : St) : Prop where
  lawful : Chronicle.Lawful Law s.log
  /-- The POSTs since the last removal of a key are those of its pending attempt. -/
  window : ∀ l₀ l₁ i key a payload, s.log = l₀ ++ Entry.sent i key a payload :: l₁ → NoRemoval key l₁ →
    s.pendingAttempts.lookup key = some a ∧ ∃ attempt : Attempt, s.attempts[a]? = some attempt ∧ attempt.payload = payload
  keyed : ∀ key a, s.pendingAttempts.lookup key = some a →
    ∃ attempt : Attempt, s.attempts[a]? = some attempt ∧ attempt.requestKey = key
  known : ∀ (a : Nat) (attempt : Attempt) runId, s.attempts[a]? = some attempt → attempt.runId = some runId →
    .created a runId ∈ s.log
  learnt : ∀ a runId, .created a runId ∈ s.log → ∃ attempt : Attempt, s.attempts[a]? = some attempt ∧ attempt.runId ≠ none
  shown : ∀ runId summary, s.snapshots runId = some summary → .accepted summary ∈ s.log ∧ summary.id = runId
  began : ∀ i a, .begun i a ∈ s.log → i < s.starts.length
  starts : ∀ (i : Nat) (call : StartCall), s.starts[i]? = some call → StartOk cfg s.log i call
  cancels : ∀ (j : Nat) (call : CancelCall), s.cancels[j]? = some call → CancelOk s.log call

theorem inv_init : Inv cfg init := by
  constructor
  · exact Chronicle.lawful_nil
  · intro l₀ l₁ i key a payload h
    simp [init] at h
  all_goals simp [init]

theorem NoRemoval.of_append {key : RequestKey} {l₁ l₂ : List Entry} (h : NoRemoval key (l₁ ++ l₂)) : NoRemoval key l₁ :=
  fun e he => h e (List.mem_append_left _ he)

theorem StartOk.grow {log : List Entry} {i : Nat} {call : StartCall} (h : StartOk cfg log i call) {e : Entry}
    (he : e ≠ .begun i call.attempt) : StartOk cfg (log ++ [e]) i call := by
  have hmem : ∀ {x : Entry}, x ∈ log → x ∈ log ++ [e] := fun hx => List.mem_append_left _ hx
  obtain ⟨a, p⟩ := call
  cases p with
  | createToken =>
    refine ⟨h.1, fun l₀ l₁ hsplit => ?_⟩
    rcases Chronicle.split_append hsplit with ⟨-, hx, -⟩ | ⟨l₁', -, hlog⟩
    · exact absurd hx.symm he
    · exact h.2 l₀ l₁' hlog
  | createSent =>
    obtain ⟨key, payload, hsent⟩ := h
    exact ⟨key, payload, hmem hsent⟩
  | createBody =>
    obtain ⟨key, payload, hsent⟩ := h
    exact ⟨key, payload, hmem hsent⟩
  | createError n =>
    obtain ⟨key, payload, hsent⟩ := h
    exact ⟨key, payload, hmem hsent⟩
  | looking runId found awaited next => exact ⟨hmem h.1, fun summary hs => ⟨hmem (h.2 summary hs).1, (h.2 summary hs).2⟩⟩
  | requesting runId resumed => exact hmem h
  | looping summary => exact ⟨hmem h.1, hmem h.2⟩
  | sleeping summary => exact ⟨hmem h.1, hmem h.2⟩
  | detail summary => exact ⟨hmem h.1, hmem h.2.1, h.2.2⟩
  | ended => trivial

theorem CancelOk.grow {log : List Entry} {call : CancelCall} (h : CancelOk log call) (e : Entry) :
    CancelOk (log ++ [e]) call := by
  obtain ⟨runId, p⟩ := call
  cases p with
  | requesting => trivial
  | detail summary => exact ⟨List.mem_append_left _ h.1, h.2⟩
  | ended => trivial

/-! ## The pieces of a step -/

theorem Inv.note {s : St} (h : Inv cfg s) {e : Entry} (hquiet : e.quiet = true) : Inv cfg (s.note e) := by
  have hne : ∀ x : Entry, x.quiet = false → x ≠ e := by
    rintro x hx rfl
    rw [hquiet] at hx
    cases hx
  have hold : ∀ {x : Entry}, x.quiet = false → x ∈ s.log ++ [e] → x ∈ s.log := by
    intro x hx hmem
    rcases List.mem_append.mp hmem with hmem | hmem
    · exact hmem
    · exact absurd (List.mem_singleton.mp hmem) (hne x hx)
  refine ⟨Chronicle.lawful_append h.lawful ?_, ?_, ?_, ?_, ?_, ?_, ?_, ?_, ?_⟩
  · cases e <;> trivial
  · intro l₀ l₁ i key a payload hsplit hno
    rcases Chronicle.split_append hsplit with ⟨-, hx, -⟩ | ⟨l₁', rfl, hlog⟩
    · exact absurd hx (hne _ rfl)
    · exact h.window l₀ l₁' i key a payload hlog hno.of_append
  · exact h.keyed
  · intro a attempt runId ha hrun
    exact List.mem_append_left _ (h.known a attempt runId ha hrun)
  · intro a runId hmem
    exact h.learnt a runId (hold rfl hmem)
  · intro runId summary hs
    exact ⟨List.mem_append_left _ (h.shown runId summary hs).1, (h.shown runId summary hs).2⟩
  · intro i a hmem
    exact h.began i a (hold rfl hmem)
  · intro i call hc
    exact (h.starts i call hc).grow (hne _ rfl).symm
  · intro j call hc
    exact (h.cancels j call hc).grow e

theorem Inv.setStart {s : St} (h : Inv cfg s) {i : Nat} {c : StartCall} {p : StartPhase}
    (hok : StartOk cfg s.log i { c with phase := p }) : Inv cfg (s.setStart i c p) := by
  refine ⟨h.lawful, h.window, h.keyed, h.known, h.learnt, h.shown, ?_, ?_, h.cancels⟩
  · intro j a hmem
    have := h.began j a hmem
    simpa [St.setStart] using this
  · intro j other hj
    rcases Roster.getElem?_set_cases hj with ⟨rfl, rfl⟩ | ⟨-, hj⟩
    · exact hok
    · exact h.starts j other hj

theorem Inv.setCancel {s : St} (h : Inv cfg s) {j : Nat} {call : CancelCall} {p : CancelPhase}
    (hok : CancelOk s.log { call with phase := p }) : Inv cfg (s.setCancel j call p) := by
  refine ⟨h.lawful, h.window, h.keyed, h.known, h.learnt, h.shown, h.began, h.starts, ?_⟩
  intro i other hi
  rcases Roster.getElem?_set_cases hi with ⟨-, rfl⟩ | ⟨-, hi⟩
  · exact hok
  · exact h.cancels i other hi

theorem Inv.endCancel {s : St} (h : Inv cfg s) (j : Nat) (call : CancelCall) : Inv cfg (s.endCancel j call) := by
  have hset : Inv cfg (s.setCancel j call .ended) := h.setCancel trivial
  exact ⟨hset.lawful, hset.window, hset.keyed, hset.known, hset.learnt, hset.shown, hset.began, hset.starts, hset.cancels⟩

/-- What is kept after `acceptSummary` has been accepted, and under its own id. -/
theorem acceptSummary_shown {log : List Entry} {snapshots : Snapshots} (candidate : RunMetadata)
    (h : ∀ runId summary, snapshots runId = some summary → .accepted summary ∈ log ∧ summary.id = runId) :
    (acceptSummary snapshots candidate).2.id = candidate.id ∧
    ∀ runId summary, (acceptSummary snapshots candidate).1 runId = some summary →
      .accepted summary ∈ log ++ [Entry.accepted (acceptSummary snapshots candidate).2] ∧ summary.id = runId := by
  have hold : ∀ kept runId summary, snapshots runId = some summary →
      Entry.accepted summary ∈ log ++ [Entry.accepted kept] ∧ summary.id = runId := by
    intro kept runId summary hs
    exact ⟨List.mem_append_left _ (h runId summary hs).1, (h runId summary hs).2⟩
  have hnew : ∀ runId summary, Function.update snapshots candidate.id (some candidate) runId = some summary →
      Entry.accepted summary ∈ log ++ [Entry.accepted candidate] ∧ summary.id = runId := by
    intro runId summary hs
    by_cases hid : runId = candidate.id
    · subst hid
      obtain rfl : candidate = summary := by simpa using hs
      exact ⟨by simp, rfl⟩
    · rw [Function.update_of_ne hid] at hs
      exact hold candidate runId summary hs
  unfold acceptSummary
  cases hs : snapshots candidate.id with
  | none => exact ⟨rfl, hnew⟩
  | some current =>
    have hid := (h candidate.id current hs).2
    dsimp only
    split_ifs
    · exact ⟨hid, hold current⟩
    · exact ⟨hid, hold current⟩
    · exact ⟨hid, hold current⟩
    · exact ⟨rfl, hnew⟩

theorem Inv.accept {s : St} (h : Inv cfg s) (candidate : RunMetadata) :
    Inv cfg (s.accept candidate).1 ∧ .accepted (s.accept candidate).2 ∈ (s.accept candidate).1.log ∧
      (s.accept candidate).2.id = candidate.id := by
  obtain ⟨hid, hshown⟩ := acceptSummary_shown candidate h.shown
  have hnote := h.note (e := .accepted (acceptSummary s.snapshots candidate).2) rfl
  exact ⟨⟨hnote.lawful, hnote.window, hnote.keyed, hnote.known, hnote.learnt, hshown, hnote.began, hnote.starts, hnote.cancels⟩,
    List.mem_append_right _ List.mem_cons_self, hid⟩

/-- A POST leaves whose attempt is the pending one. -/
theorem Inv.send {s : St} (h : Inv cfg s) {i a : Nat} {attempt : Attempt} (ha : s.attempts[a]? = some attempt)
    (hpending : s.pendingAttempts.lookup attempt.requestKey = some a)
    (huntold : ∀ l₀ l₁, s.log = l₀ ++ Entry.begun i a :: l₁ → ∀ runId, .created a runId ∉ l₀) :
    Inv cfg (s.note (.sent i attempt.requestKey a attempt.payload)) := by
  have hold : ∀ {x : Entry}, (∀ j k b q, x ≠ .sent j k b q) → x ∈ s.log ++ [Entry.sent i attempt.requestKey a attempt.payload] →
      x ∈ s.log := by
    intro x hx hmem
    rcases List.mem_append.mp hmem with hmem | hmem
    · exact hmem
    · exact absurd (List.mem_singleton.mp hmem) (hx _ _ _ _)
  refine ⟨Chronicle.lawful_append h.lawful ⟨?_, huntold⟩, ?_, h.keyed, ?_, ?_, ?_, ?_, ?_, ?_⟩
  · -- An earlier POST of this window was the pending attempt's, and so is this one.
    intro l₀ l₁ j b other hsplit hno
    obtain ⟨hb, attempt', ha', rfl⟩ := h.window l₀ l₁ j _ b other hsplit hno
    rw [hpending] at hb
    obtain rfl : a = b := by simpa using hb
    rw [ha] at ha'
    obtain rfl : attempt = attempt' := by simpa using ha'
    rfl
  · intro l₀ l₁ j key b payload hsplit hno
    rcases Chronicle.split_append hsplit with ⟨-, hx, -⟩ | ⟨l₁', rfl, hlog⟩
    · obtain ⟨rfl, rfl, rfl, rfl⟩ : j = i ∧ key = attempt.requestKey ∧ b = a ∧ payload = attempt.payload := by
        simpa using hx
      exact ⟨hpending, attempt, ha, rfl⟩
    · exact h.window l₀ l₁' j key b payload hlog hno.of_append
  · intro b attempt' runId hb hrun
    exact List.mem_append_left _ (h.known b attempt' runId hb hrun)
  · intro b runId hmem
    exact h.learnt b runId (hold (by simp) hmem)
  · intro runId summary hs
    exact ⟨List.mem_append_left _ (h.shown runId summary hs).1, (h.shown runId summary hs).2⟩
  · intro j b hmem
    exact h.began j b (hold (by simp) hmem)
  · intro j call hc
    exact (h.starts j call hc).grow (by simp)
  · intro j call hc
    exact (h.cancels j call hc).grow _

/-- The log grows by a removal, and the pending attempts lose what it names. -/
theorem Inv.drop {s : St} (h : Inv cfg s) {e : Entry} (hlaw : Law s.log e) (hkind : e = .reset ∨ ∃ key a, e = .removed key a)
    {pending : List (RequestKey × Nat)}
    (hkeeps : ∀ key a, s.pendingAttempts.lookup key = some a → NoRemoval key [e] → pending.lookup key = some a)
    (hsub : ∀ key a, pending.lookup key = some a → s.pendingAttempts.lookup key = some a) :
    Inv cfg { s with pendingAttempts := pending, log := s.log ++ [e] } := by
  have hne : ∀ x : Entry, (x ≠ .reset) → (∀ key a, x ≠ .removed key a) → x ≠ e := by
    rintro x hreset hremoved rfl
    rcases hkind with rfl | ⟨key, a, rfl⟩
    · exact hreset rfl
    · exact hremoved key a rfl
  have hold : ∀ {x : Entry}, (x ≠ .reset) → (∀ key a, x ≠ .removed key a) → x ∈ s.log ++ [e] → x ∈ s.log := by
    intro x hreset hremoved hmem
    rcases List.mem_append.mp hmem with hmem | hmem
    · exact hmem
    · exact absurd (List.mem_singleton.mp hmem) (hne x hreset hremoved)
  refine ⟨Chronicle.lawful_append h.lawful hlaw, ?_, fun key a hb => h.keyed key a (hsub key a hb), ?_, ?_, ?_, ?_, ?_, ?_⟩
  · intro l₀ l₁ i key a payload hsplit hno
    rcases Chronicle.split_append hsplit with ⟨-, hx, -⟩ | ⟨l₁', rfl, hlog⟩
    · exact absurd hx (hne _ (by simp) (by simp))
    · obtain ⟨hpending, hattempt⟩ := h.window l₀ l₁' i key a payload hlog hno.of_append
      exact ⟨hkeeps key a hpending fun x hx => hno x (List.mem_append_right _ hx), hattempt⟩
  · intro a attempt runId ha hrun
    exact List.mem_append_left _ (h.known a attempt runId ha hrun)
  · intro a runId hmem
    exact h.learnt a runId (hold (by simp) (by simp) hmem)
  · intro runId summary hs
    exact ⟨List.mem_append_left _ (h.shown runId summary hs).1, (h.shown runId summary hs).2⟩
  · intro i a hmem
    exact h.began i a (hold (by simp) (by simp) hmem)
  · intro i call hc
    exact (h.starts i call hc).grow (hne _ (by simp) (by simp)).symm
  · intro j call hc
    exact (h.cancels j call hc).grow e

theorem lookup_filter_ne {pending : List (RequestKey × Nat)} {key other : RequestKey} (hne : key ≠ other) :
    (pending.filter fun entry => entry.1 != other).lookup key = pending.lookup key := by
  induction pending with
  | nil => rfl
  | cons entry pending ih =>
    obtain ⟨k, a⟩ := entry
    by_cases hk : k = other
    · have hfalse : (key == k) = false := by simpa [hk] using hne
      simp [hk, List.lookup_cons, ih, hk ▸ hfalse]
    · simp [hk, List.lookup_cons, ih]

theorem lookup_filter_self (pending : List (RequestKey × Nat)) (key : RequestKey) :
    (pending.filter fun entry => entry.1 != key).lookup key = none := by
  rw [List.lookup_eq_none_iff]
  intro entry hentry
  have hne : entry.1 ≠ key := by simpa using (List.mem_filter.mp hentry).2
  simpa using fun h : key = entry.1 => hne h.symm

theorem Inv.clearAttempt {s : St} (h : Inv cfg s) {a : Nat} (hevidence : Evidence s.log a) : Inv cfg (s.clearAttempt a) := by
  unfold St.clearAttempt
  split
  · exact h
  · rename_i attempt ha
    split_ifs with hpending
    · refine h.drop (e := .removed attempt.requestKey a) hevidence (.inr ⟨_, _, rfl⟩) ?_ ?_
      · intro key b hb hno
        have hkey : key ≠ attempt.requestKey := by
          rintro rfl
          exact (hno _ List.mem_cons_self).2 a rfl
        rw [lookup_filter_ne hkey]
        exact hb
      · intro key b hb
        have hkey : key ≠ attempt.requestKey := by
          rintro rfl
          rw [lookup_filter_self] at hb
          cases hb
        rwa [lookup_filter_ne hkey] at hb
    · exact h

/-- What `clearAttempt` leaves as it is. -/
theorem clearAttempt_frame (s : St) (a : Nat) :
    (s.clearAttempt a).attempts = s.attempts ∧ (s.clearAttempt a).starts = s.starts ∧
      ∀ {e : Entry}, e ∈ s.log → e ∈ (s.clearAttempt a).log := by
  unfold St.clearAttempt
  split
  · exact ⟨rfl, rfl, id⟩
  · split_ifs
    · exact ⟨rfl, rfl, List.mem_append_left _⟩
    · exact ⟨rfl, rfl, id⟩

theorem Inv.reset {s : St} (h : Inv cfg s) : Inv cfg s.reset := by
  have hempty : Inv cfg { s with snapshots := fun _ => none } :=
    ⟨h.lawful, h.window, h.keyed, h.known, h.learnt, (fun _ _ hs => nomatch hs), h.began, h.starts, h.cancels⟩
  refine hempty.drop (e := .reset) trivial (.inl rfl) ?_ (fun _ _ hb => nomatch hb)
  intro key a _ hno
  exact absurd rfl (hno _ List.mem_cons_self).1

/-- A run is over, with its detail if it succeeded. -/
def Finished (log : List Entry) (runId : String) : Prop :=
  ∃ summary, .accepted summary ∈ log ∧ summary.id = runId ∧ summary.state.isTerminal = true ∧
    (summary.state = .succeeded → .detailed runId ∈ log)

theorem Finished.evidence {log : List Entry} {runId : String} {a : Nat} (h : Finished log runId)
    (hcreated : .created a runId ∈ log) : Evidence log a := by
  obtain ⟨summary, haccepted, hid, hterm, hdetail⟩ := h
  exact .inl ⟨runId, summary, hcreated, haccepted, hid, hterm, hdetail⟩

theorem Finished.mono {log log' : List Entry} {runId : String} (h : Finished log runId)
    (hsub : ∀ {e : Entry}, e ∈ log → e ∈ log') : Finished log' runId := by
  obtain ⟨summary, haccepted, hid, hterm, hdetail⟩ := h
  exact ⟨summary, hsub haccepted, hid, hterm, fun hs => hsub (hdetail hs)⟩

theorem Inv.clearAttemptByRunId {s : St} (h : Inv cfg s) {runId : String} (hfinished : Finished s.log runId) :
    Inv cfg (s.clearAttemptByRunId runId) := by
  unfold St.clearAttemptByRunId
  refine (s.pendingAttempts.foldlRecOn (motive := fun s' => Inv cfg s' ∧ Finished s'.log runId) _ ⟨h, hfinished⟩ ?_).1
  rintro s' ⟨hs', hdone⟩ entry -
  unfold St.clearIfRun
  split_ifs with hrun
  · have hcreated : .created entry.2 runId ∈ s'.log := by
      cases ha : s'.attempts[entry.2]? with
      | none => simp [ha] at hrun
      | some attempt => exact hs'.known _ attempt _ ha (by simpa [ha] using hrun)
    exact ⟨hs'.clearAttempt (hdone.evidence hcreated), hdone.mono (clearAttempt_frame s' entry.2).2.2⟩
  · exact ⟨hs', hdone⟩

/-- An attempt gets its run id. -/
theorem Inv.learn {s : St} (h : Inv cfg s) {a : Nat} {attempt : Attempt} (ha : s.attempts[a]? = some attempt) (runId : String) :
    Inv cfg ({ s with attempts := s.attempts.set a { attempt with runId := some runId } }.note (.created a runId)) := by
  have hold : ∀ {x : Entry}, (∀ b r, x ≠ .created b r) → x ∈ s.log ++ [Entry.created a runId] → x ∈ s.log := by
    intro x hx hmem
    rcases List.mem_append.mp hmem with hmem | hmem
    · exact hmem
    · exact absurd (List.mem_singleton.mp hmem) (hx _ _)
  have hsame : ∀ {b : Nat} {attempt' : Attempt}, s.attempts[b]? = some attempt' →
      ∃ attempt'' : Attempt, (s.attempts.set a { attempt with runId := some runId })[b]? = some attempt'' ∧
        attempt''.payload = attempt'.payload ∧ attempt''.requestKey = attempt'.requestKey := by
    intro b attempt' hb
    by_cases hab : b = a
    · subst hab
      obtain rfl : attempt = attempt' := by rw [ha] at hb; simpa using hb
      exact ⟨_, Roster.getElem?_set_self ha _, rfl, rfl⟩
    · exact ⟨attempt', (List.getElem?_set_ne (fun e => hab e.symm)).trans hb, rfl, rfl⟩
  refine ⟨Chronicle.lawful_append h.lawful trivial, ?_, ?_, ?_, ?_, ?_, ?_, ?_, ?_⟩
  · intro l₀ l₁ i key b payload hsplit hno
    rcases Chronicle.split_append hsplit with ⟨-, hx, -⟩ | ⟨l₁', rfl, hlog⟩
    · cases hx
    · obtain ⟨hpending, attempt', hb, hpayload⟩ := h.window l₀ l₁' i key b payload hlog hno.of_append
      obtain ⟨attempt'', hb', hpayload', -⟩ := hsame hb
      exact ⟨hpending, attempt'', hb', hpayload'.trans hpayload⟩
  · intro key b hb
    obtain ⟨attempt', hb', hkey⟩ := h.keyed key b hb
    obtain ⟨attempt'', hb'', -, hkey'⟩ := hsame hb'
    exact ⟨attempt'', hb'', hkey'.trans hkey⟩
  · intro b attempt' r hb hr
    rcases Roster.getElem?_set_cases hb with ⟨rfl, rfl⟩ | ⟨-, hb⟩
    · obtain rfl : runId = r := by simpa using hr
      exact List.mem_append_right _ List.mem_cons_self
    · exact List.mem_append_left _ (h.known b attempt' r hb hr)
  · intro b r hmem
    by_cases hab : b = a
    · subst hab
      exact ⟨_, Roster.getElem?_set_self ha _, by simp⟩
    · have hmem : .created b r ∈ s.log := by
        rcases List.mem_append.mp hmem with hmem | hmem
        · exact hmem
        · obtain ⟨hb, -⟩ : b = a ∧ r = runId := by simpa using hmem
          exact absurd hb hab
      obtain ⟨attempt', hb, hr⟩ := h.learnt b r hmem
      exact ⟨attempt', (List.getElem?_set_ne (fun e => hab e.symm)).trans hb, hr⟩
  · intro r summary hs
    exact ⟨List.mem_append_left _ (h.shown r summary hs).1, (h.shown r summary hs).2⟩
  · intro i b hmem
    exact h.began i b (hold (by simp) hmem)
  · intro i call hc
    exact (h.starts i call hc).grow (by simp)
  · intro j call hc
    exact (h.cancels j call hc).grow _

/-- The create's answer. -/
theorem inv_created {s : St} (h : Inv cfg s) (i : Nat) (call : StartCall) (candidate : RunMetadata) :
    Inv cfg (created s i call candidate) := by
  obtain ⟨haccept, hmem, -⟩ := h.accept candidate
  unfold created
  rcases hacc : s.accept candidate with ⟨s', kept⟩
  rw [hacc] at haccept hmem
  dsimp only
  split
  · exact haccept
  · rename_i attempt ha
    refine (haccept.learn ha _).setStart ⟨?_, ?_⟩
    · exact List.mem_append_left _ hmem
    · exact List.mem_append_right _ List.mem_cons_self

/-- What `terminalSnapshot` answers has been accepted, under that id. -/
theorem Inv.terminal {s : St} (h : Inv cfg s) {runId : String} {summary : RunMetadata}
    (hs : terminalSnapshot s.snapshots runId = some summary) : .accepted summary ∈ s.log ∧ summary.id = runId := by
  obtain ⟨hs, -⟩ := Option.filter_eq_some_iff.mp hs
  exact h.shown runId summary hs

theorem Inv.look {s : St} (h : Inv cfg s) {i a : Nat} {runId : String} (hcreated : .created a runId ∈ s.log)
    (next : AfterLook) : StartOk cfg s.log i ⟨a, s.look runId next⟩ :=
  ⟨hcreated, fun _ hs => h.terminal hs⟩

/-- A call begins: it looks where the run id is known, and else posts what is pending. -/
theorem inv_begin {s : St} (h : Inv cfg s) {a : Nat} {attempt : Attempt} (ha : s.attempts[a]? = some attempt)
    (hpending : s.pendingAttempts.lookup attempt.requestKey = some a) : Inv cfg (begin cfg s a attempt) := by
  have hfresh : ∀ b, .begun s.starts.length b ∉ s.log := by
    intro b hmem
    exact absurd (h.began _ b hmem) (Nat.lt_irrefl _)
  have hbegun : ∀ (call : StartCall), StartOk cfg (s.log ++ [Entry.begun s.starts.length a]) s.starts.length call →
      Inv cfg { s.note (.begun s.starts.length a) with starts := s.starts ++ [call] } := by
    intro call hok
    have hold : ∀ {x : Entry}, (∀ i b, x ≠ .begun i b) → x ∈ s.log ++ [Entry.begun s.starts.length a] → x ∈ s.log := by
      intro x hx hmem
      rcases List.mem_append.mp hmem with hmem | hmem
      · exact hmem
      · exact absurd (List.mem_singleton.mp hmem) (hx _ _)
    refine ⟨Chronicle.lawful_append h.lawful trivial, ?_, h.keyed, ?_, ?_, ?_, ?_, ?_, ?_⟩
    · intro l₀ l₁ i key b payload hsplit hno
      rcases Chronicle.split_append hsplit with ⟨-, hx, -⟩ | ⟨l₁', rfl, hlog⟩
      · cases hx
      · exact h.window l₀ l₁' i key b payload hlog hno.of_append
    · intro b attempt' r hb hr
      exact List.mem_append_left _ (h.known b attempt' r hb hr)
    · intro b r hmem
      exact h.learnt b r (hold (by simp) hmem)
    · intro r summary hs
      exact ⟨List.mem_append_left _ (h.shown r summary hs).1, (h.shown r summary hs).2⟩
    · intro i b hmem
      show i < (s.starts ++ [call]).length
      rw [List.length_append]
      rcases List.mem_append.mp hmem with hmem | hmem
      · have := h.began i b hmem
        omega
      · obtain ⟨rfl, -⟩ : i = s.starts.length ∧ b = a := by simpa using hmem
        simp
    · intro i other hi
      rcases Roster.getElem?_append_cases hi with ⟨rfl, rfl⟩ | hi
      · exact hok
      · refine (h.starts i other hi).grow ?_
        have hlt := (List.getElem?_eq_some_iff.mp hi).1
        intro hsame
        obtain ⟨hi', -⟩ : s.starts.length = i ∧ a = other.attempt := by simpa using hsame
        omega
    · intro j other hj
      exact (h.cancels j other hj).grow _
  have huntold : attempt.runId = none → ∀ l₀ l₁, s.log ++ [Entry.begun s.starts.length a] = l₀ ++ Entry.begun s.starts.length a :: l₁ →
      ∀ runId, .created a runId ∉ l₀ := by
    intro hnone l₀ l₁ hsplit runId hmem
    rcases Chronicle.split_append hsplit with ⟨-, -, rfl⟩ | ⟨l₁', -, hlog⟩
    · obtain ⟨attempt', ha', hrun⟩ := h.learnt a runId hmem
      obtain rfl : attempt = attempt' := by rw [ha] at ha'; simpa using ha'
      exact hrun hnone
    · exact hfresh a (by rw [hlog]; simp)
  unfold begin
  cases hrun : attempt.runId with
  | some runId =>
    refine hbegun _ ⟨List.mem_append_left _ (h.known a attempt runId ha hrun), ?_⟩
    intro summary hs
    obtain ⟨hmem, hid⟩ := h.terminal hs
    exact ⟨List.mem_append_left _ hmem, hid⟩
  | none =>
    dsimp only
    split_ifs with htoken
    · exact hbegun _ ⟨htoken, huntold hrun⟩
    · -- Without a token to wait for, the POST leaves in the same turn.
      have hcall := hbegun ⟨a, .ended⟩ trivial
      have hsend := hcall.send (i := s.starts.length) ha hpending (huntold hrun)
      have hset := hsend.setStart (i := s.starts.length) (c := ⟨a, .ended⟩) (p := .createSent)
        ⟨attempt.requestKey, attempt.payload, List.mem_append_right _ List.mem_cons_self⟩
      simpa [St.setStart, St.note] using hset

/-- A fresh attempt, and pending. -/
theorem Inv.fresh {s : St} (h : Inv cfg s) (attempt : Attempt) (hrun : attempt.runId = none) :
    Inv cfg { s with
      attempts := s.attempts ++ [attempt]
      pendingAttempts := s.pendingAttempts ++ [(attempt.requestKey, s.attempts.length)] } := by
  have hlookup : ∀ key a, s.pendingAttempts.lookup key = some a →
      (s.pendingAttempts ++ [(attempt.requestKey, s.attempts.length)]).lookup key = some a := by
    intro key a hb
    rw [List.lookup_append, hb]
    rfl
  have hkept : ∀ {b : Nat} {attempt' : Attempt}, s.attempts[b]? = some attempt' →
      (s.attempts ++ [attempt])[b]? = some attempt' := by
    intro b attempt' hb
    rw [List.getElem?_append_left (List.getElem?_eq_some_iff.mp hb).1]
    exact hb
  refine ⟨h.lawful, ?_, ?_, ?_, ?_, h.shown, h.began, h.starts, h.cancels⟩
  · intro l₀ l₁ i key a payload hsplit hno
    obtain ⟨hpending, attempt', hb, hpayload⟩ := h.window l₀ l₁ i key a payload hsplit hno
    exact ⟨hlookup key a hpending, attempt', hkept hb, hpayload⟩
  · intro key a hb
    cases hold : s.pendingAttempts.lookup key with
    | some b =>
      have hnew := hlookup key b hold
      obtain rfl : b = a := by
        have hb : (s.pendingAttempts ++ [(attempt.requestKey, s.attempts.length)]).lookup key = some a := hb
        rw [hnew] at hb
        simpa using hb
      obtain ⟨attempt', ha, hkey⟩ := h.keyed key b hold
      exact ⟨attempt', hkept ha, hkey⟩
    | none =>
      have hb : (s.pendingAttempts ++ [(attempt.requestKey, s.attempts.length)]).lookup key = some a := hb
      rw [List.lookup_append, hold] at hb
      have hkey : key = attempt.requestKey := by
        by_contra hne
        simp [List.lookup_cons, beq_false_of_ne hne] at hb
      subst hkey
      obtain rfl : s.attempts.length = a := by simpa using hb
      exact ⟨attempt, by simp, rfl⟩
  · intro a attempt' r ha hr
    rcases Roster.getElem?_append_cases ha with ⟨-, rfl⟩ | ha
    · rw [hrun] at hr
      cases hr
    · exact h.known a attempt' r ha hr
  · intro a r hmem
    obtain ⟨attempt', ha, hr⟩ := h.learnt a r hmem
    exact ⟨attempt', hkept ha, hr⟩

theorem inv_startRun {s : St} (h : Inv cfg s) (question clientRequestId evaluationClock : String) :
    Inv cfg (startRun cfg s question clientRequestId evaluationClock) := by
  unfold startRun
  cases hp : s.pendingAttempts.lookup (cfg.requestKey question) with
  | some a =>
    obtain ⟨attempt, ha, hkey⟩ := h.keyed _ a hp
    simp only [ha]
    exact inv_begin h ha (by rw [hkey]; exact hp)
  | none =>
    have hfresh := h.fresh (cfg.attempt question clientRequestId evaluationClock) rfl
    refine inv_begin hfresh (by simp) ?_
    show (s.pendingAttempts ++ [(cfg.requestKey question, s.attempts.length)]).lookup (cfg.requestKey question) =
      some s.attempts.length
    rw [List.lookup_append, hp]
    simp

/-- The catch block removes the attempt only for a refusal of a POST that was sent. -/
theorem Inv.createThrew {s : St} (h : Inv cfg s) {i : Nat} {call : StartCall} {error : NexusClientError}
    (hwhy : isDefinitiveCreateFailure error = true → ∃ status key payload, error = ⟨.http, some status⟩ ∧ status < 500 ∧
      .sent i key call.attempt payload ∈ s.log) : Inv cfg (s.createThrew i call error) := by
  unfold St.createThrew
  dsimp only
  split_ifs with hdef
  · obtain ⟨status, key, payload, rfl, hlt, hsent⟩ := hwhy hdef
    refine Inv.setStart (Inv.clearAttempt (h.note rfl) (.inr ⟨i, key, payload, status, ?_, ?_, hlt⟩)) trivial
    · exact List.mem_append_left _ hsent
    · exact List.mem_append_right _ List.mem_cons_self
  · exact h.setStart trivial

/-- Nor does it remove an attempt that is not the pending one. -/
theorem Inv.createThrew_unlisted {s : St} (h : Inv cfg s) {i : Nat} {call : StartCall} {attempt : Attempt}
    (ha : s.attempts[call.attempt]? = some attempt)
    (hpending : s.pendingAttempts.lookup attempt.requestKey ≠ some call.attempt) (error : NexusClientError) :
    Inv cfg (s.createThrew i call error) := by
  have hclear : (s.note (.refused i call.attempt error)).clearAttempt call.attempt = s.note (.refused i call.attempt error) := by
    simp [St.clearAttempt, St.note, ha, hpending]
  unfold St.createThrew
  dsimp only
  rw [hclear]
  split_ifs
  · exact (h.note rfl).setStart trivial
  · exact h.setStart trivial

/-! ## Each step -/

/-- While an attempt is pending, a token its create waits for is well formed and its provider
    does not fail for good; and a token arrives only while the attempt is. -/
def tokenInTime (s : St) : Ev → Bool
  | .token i outcome =>
    match s.starts[i]? with
    | some call =>
      match call.phase, s.attempts[call.attempt]? with
      | .createToken, some attempt =>
        match outcome with
        | .valid => s.pendingAttempts.lookup attempt.requestKey = some call.attempt
        | .invalid => s.pendingAttempts.lookup attempt.requestKey ≠ some call.attempt
        | .failed error =>
          s.pendingAttempts.lookup attempt.requestKey ≠ some call.attempt || !error.any isDefinitiveCreateFailure
      | _, _ => true
    | none => true
  | _ => true

def inTime (cfg : Config) : St → List Ev → Bool
  | _, [] => true
  | s, e :: events => tokenInTime s e && inTime cfg (step cfg s e) events

theorem inv_token {s : St} (h : Inv cfg s) (i : Nat) (outcome : TokenOutcome)
    (htime : cfg.tokenProvider = true → tokenInTime s (.token i outcome) = true) :
    Inv cfg (step cfg s (.token i outcome)) := by
  simp only [step]
  split
  swap
  · exact h
  rename_i call hcall
  split
  swap
  · exact h
  rename_i attempt hphase ha
  have hok := h.starts i call hcall
  rw [StartOk, hphase] at hok
  obtain ⟨hprovider, huntold⟩ := hok
  have htime := htime hprovider
  simp only [tokenInTime, hcall, hphase, ha] at htime
  cases outcome with
  | valid =>
    refine (h.send ha (by simpa using htime) huntold).setStart ⟨attempt.requestKey, attempt.payload, ?_⟩
    exact List.mem_append_right _ List.mem_cons_self
  | invalid => exact h.createThrew_unlisted ha (by simpa using htime) _
  | failed error =>
    by_cases hpending : s.pendingAttempts.lookup attempt.requestKey = some call.attempt
    · -- The attempt is pending, so what the provider failed with is not definitive.
      refine h.createThrew fun hdef => ?_
      cases error with
      | none => cases hdef
      | some error =>
        have hpasses : isDefinitiveCreateFailure error = false := by simpa [hpending] using htime
        rw [Option.getD_some, hpasses] at hdef
        cases hdef
    · exact h.createThrew_unlisted ha hpending _

theorem inv_createResponse {s : St} (h : Inv cfg s) (i : Nat) (outcome : CreateOutcome) :
    Inv cfg (step cfg s (.createResponse i outcome)) := by
  simp only [step]
  split
  swap
  · exact h
  rename_i call hcall
  have hok := h.starts i call hcall
  split
  · rename_i hphase
    rw [StartOk, hphase] at hok
    exact h.setStart hok
  · rename_i n hphase
    rw [StartOk, hphase] at hok
    split_ifs
    · obtain ⟨key, payload, hsent⟩ := hok
      exact h.reset.setStart ⟨key, payload, List.mem_append_left _ hsent⟩
    · exact h.setStart hok
  · exact h.createThrew fun hdef => by cases hdef
  · exact h

theorem inv_createErrorBody {s : St} (h : Inv cfg s) (i : Nat) (timedOut : Bool) :
    Inv cfg (step cfg s (.createErrorBody i timedOut)) := by
  simp only [step]
  split
  swap
  · exact h
  rename_i call hcall
  have hok := h.starts i call hcall
  split
  swap
  · exact h
  rename_i n hphase
  rw [StartOk, hphase] at hok
  obtain ⟨key, payload, hsent⟩ := hok
  cases timedOut with
  | true => exact h.createThrew fun hdef => by cases hdef
  | false =>
    refine h.createThrew fun hdef => ⟨n, key, payload, rfl, ?_, hsent⟩
    simpa [isDefinitiveCreateFailure] using hdef

theorem inv_looked {s : St} (h : Inv cfg s) (i : Nat) : Inv cfg (step cfg s (.looked i)) := by
  simp only [step]
  split
  swap
  · exact h
  rename_i call hcall
  have hok := h.starts i call hcall
  split
  swap
  · exact h
  rename_i runId found awaited next hphase
  rw [StartOk, hphase] at hok
  obtain ⟨hcreated, hfound⟩ := hok
  split
  swap
  · exact h
  split
  · rename_i summary hsummary
    refine h.setStart ?_
    have hseen : .accepted summary ∈ s.log ∧ summary.id = runId := by
      cases hf : found with
      | some seen =>
        rw [hf] at hsummary
        obtain rfl : seen = summary := by simpa using hsummary
        exact hfound seen hf
      | none =>
        rw [hf] at hsummary
        exact h.terminal (by simpa using hsummary)
    exact ⟨hseen.1, hseen.2 ▸ hcreated⟩
  · exact h.setStart hcreated
  · exact h.setStart hcreated
  · exact h.setStart trivial
  · exact h.setStart trivial

theorem inv_response {s : St} (h : Inv cfg s) (i : Nat) (summary : Option RunMetadata) :
    Inv cfg (step cfg s (.response i summary)) := by
  simp only [step]
  split
  swap
  · exact h
  rename_i call hcall
  have hok := h.starts i call hcall
  split
  swap
  · exact h
  rename_i runId resumed hphase
  rw [StartOk, hphase] at hok
  split
  · rename_i candidate hcandidate
    obtain ⟨-, hid⟩ := Option.filter_eq_some_iff.mp hcandidate
    obtain ⟨haccept, hmem, hkept⟩ := h.accept candidate
    rw [of_decide_eq_true hid] at hkept
    have hcreated : .created call.attempt runId ∈ (s.accept candidate).1.log := List.mem_append_left _ hok
    rcases hacc : s.accept candidate with ⟨s', kept⟩
    rw [hacc] at haccept hmem hkept hcreated
    exact haccept.setStart ⟨hmem, hkept ▸ hcreated⟩
  · split_ifs
    · exact h.setStart trivial
    · exact h.setStart (h.look hok .rescue)

theorem inv_loop {s : St} (h : Inv cfg s) (i : Nat) (late : Bool) : Inv cfg (step cfg s (.loop i late)) := by
  simp only [step]
  split
  swap
  · exact h
  rename_i call hcall
  have hok := h.starts i call hcall
  split
  swap
  · exact h
  rename_i summary hphase
  rw [StartOk, hphase] at hok
  obtain ⟨haccepted, hcreated⟩ := hok
  by_cases hterm : summary.state.isTerminal = true
  · rw [if_pos hterm]
    split_ifs with hsucceeded
    · exact h.setStart ⟨haccepted, hcreated, hsucceeded⟩
    · have hfinished : Finished s.log summary.id := ⟨summary, haccepted, rfl, hterm, fun hs => absurd hs hsucceeded⟩
      exact (h.clearAttempt (hfinished.evidence hcreated)).setStart trivial
  · rw [if_neg hterm]
    split
    · rename_i terminal hterminal
      obtain ⟨hmem, hid⟩ := h.terminal hterminal
      exact h.setStart ⟨hmem, hid ▸ hcreated⟩
    · split_ifs
      · exact h.setStart (h.look hcreated .deadline)
      · exact h.setStart ⟨haccepted, hcreated⟩

theorem inv_wake {s : St} (h : Inv cfg s) (i : Nat) : Inv cfg (step cfg s (.wake i)) := by
  simp only [step]
  split
  swap
  · exact h
  rename_i call hcall
  have hok := h.starts i call hcall
  split
  swap
  · exact h
  rename_i summary hphase
  rw [StartOk, hphase] at hok
  exact h.setStart (h.look hok.2 .poll)

theorem inv_detailed {s : St} (h : Inv cfg s) (i : Nat) (ok : Bool) : Inv cfg (step cfg s (.detailed i ok)) := by
  simp only [step]
  split
  swap
  · exact h
  rename_i call hcall
  have hok := h.starts i call hcall
  split
  swap
  · exact h
  rename_i summary hphase
  rw [StartOk, hphase] at hok
  obtain ⟨haccepted, hcreated, hsucceeded⟩ := hok
  split_ifs
  · have hfinished : Finished (s.log ++ [Entry.detailed summary.id]) summary.id :=
      ⟨summary, List.mem_append_left _ haccepted, rfl, by simp [hsucceeded, RunState.isTerminal],
        fun _ => List.mem_append_right _ List.mem_cons_self⟩
    have hnote := h.note (e := .detailed summary.id) rfl
    have hclear := hnote.clearAttempt (hfinished.evidence (List.mem_append_left _ hcreated))
    exact hclear.setStart trivial
  · exact h.setStart trivial

theorem inv_cancelRun {s : St} (h : Inv cfg s) (runId : String) : Inv cfg (step cfg s (.cancelRun runId)) := by
  simp only [step]
  split
  · exact h
  · refine ⟨h.lawful, h.window, h.keyed, h.known, h.learnt, h.shown, h.began, h.starts, ?_⟩
    intro j call hj
    rcases Roster.getElem?_append_cases hj with ⟨-, rfl⟩ | hj
    · trivial
    · exact h.cancels j call hj

theorem inv_cancelled {s : St} (h : Inv cfg s) (j : Nat) (summary : Option RunMetadata) :
    Inv cfg (step cfg s (.cancelled j summary)) := by
  simp only [step]
  split
  swap
  · exact h
  rename_i call hcall
  split
  swap
  · exact h
  split
  · rename_i candidate hcandidate
    obtain ⟨haccept, hmem, -⟩ := h.accept candidate
    rcases hacc : s.accept candidate with ⟨s', kept⟩
    rw [hacc] at haccept hmem
    dsimp only
    split_ifs with hsucceeded hterm
    · exact haccept.setCancel ⟨hmem, hsucceeded⟩
    · exact (haccept.clearAttemptByRunId ⟨kept, hmem, rfl, hterm, fun hs => absurd hs hsucceeded⟩).endCancel j call
    · exact haccept.endCancel j call
  · exact h.endCancel j call

theorem inv_cancelDetailed {s : St} (h : Inv cfg s) (j : Nat) (ok : Bool) : Inv cfg (step cfg s (.cancelDetailed j ok)) := by
  simp only [step]
  split
  swap
  · exact h
  rename_i call hcall
  have hok := h.cancels j call hcall
  split
  swap
  · exact h
  rename_i summary hphase
  rw [CancelOk, hphase] at hok
  obtain ⟨haccepted, hsucceeded⟩ := hok
  split_ifs
  · have hfinished : Finished (s.log ++ [Entry.detailed summary.id]) summary.id :=
      ⟨summary, List.mem_append_left _ haccepted, rfl, by simp [hsucceeded, RunState.isTerminal],
        fun _ => List.mem_append_right _ List.mem_cons_self⟩
    have hnote := h.note (e := .detailed summary.id) rfl
    have hclear := hnote.clearAttemptByRunId hfinished
    exact hclear.endCancel j call
  · exact h.endCancel j call

theorem inv_step {s : St} (h : Inv cfg s) (e : Ev)
    (htime : cfg.tokenProvider = true → tokenInTime s e = true) : Inv cfg (step cfg s e) := by
  cases e with
  | startRun question clientRequestId evaluationClock => exact inv_startRun h question clientRequestId evaluationClock
  | token i outcome => exact inv_token h i outcome htime
  | createResponse i outcome => exact inv_createResponse h i outcome
  | createBody i summary =>
    simp only [step]
    split
    swap
    · exact h
    rename_i call hcall
    split
    · exact inv_created h i call _
    · exact h.createThrew fun hdef => by cases hdef
    · exact h
  | createErrorBody i timedOut => exact inv_createErrorBody h i timedOut
  | looked i => exact inv_looked h i
  | response i summary => exact inv_response h i summary
  | loop i late => exact inv_loop h i late
  | wake i => exact inv_wake h i
  | detailed i ok => exact inv_detailed h i ok
  | cancelRun runId => exact inv_cancelRun h runId
  | cancelled j summary => exact inv_cancelled h j summary
  | cancelDetailed j ok => exact inv_cancelDetailed h j ok
  | observe summary => exact (h.accept summary).1
  | forbidden => exact h.reset

theorem inv_run {s : St} (h : Inv cfg s) (events : List Ev)
    (htime : cfg.tokenProvider = true → inTime cfg s events = true) : Inv cfg (run cfg s events) := by
  induction events generalizing s with
  | nil => exact h
  | cons e events ih =>
    simp only [inTime, Bool.and_eq_true] at htime
    exact ih (inv_step h e fun hp => (htime hp).1) fun hp => (htime hp).2

/-! ## Retries -/

/-- A run of the client in which a pending attempt gets its tokens in time and no provider
    fails it for good, or no token is waited for: the create POSTs of a key between two removals carry one payload, an attempt
    is removed for a run of its own that is over or for a refused POST of its own (or by a
    reset), and a call that begins once the run id is known posts nothing. -/
theorem create_retries_idempotent (cfg : Config) (events : List Ev)
    (htime : cfg.tokenProvider = false ∨ inTime cfg init events = true) :
    (∀ l₀ l₁ l₂ i j key a b payload other,
      (run cfg init events).log = l₀ ++ Entry.sent i key a payload :: (l₁ ++ Entry.sent j key b other :: l₂) →
      NoRemoval key l₁ → payload = other) ∧
    (∀ l₀ l₁ key a, (run cfg init events).log = l₀ ++ Entry.removed key a :: l₁ → Evidence l₀ a) ∧
    (∀ l₀ l₁ i a key payload, (run cfg init events).log = l₀ ++ Entry.begun i a :: l₁ → .sent i key a payload ∈ l₁ →
      ∀ runId, .created a runId ∉ l₀) := by
  have h : Inv cfg (run cfg init events) := by
    refine inv_run inv_init events fun hprovider => ?_
    rcases htime with hnone | htime
    · rw [hprovider] at hnone
      cases hnone
    · exact htime
  refine ⟨?_, ?_, ?_⟩
  · intro l₀ l₁ l₂ i j key a b payload other hlog hno
    have hlaw := h.lawful (l₀ ++ Entry.sent i key a payload :: l₁) (.sent j key b other) l₂ (by simpa using hlog)
    exact hlaw.1 l₀ l₁ i a payload rfl hno
  · intro l₀ l₁ key a hlog
    exact h.lawful l₀ (.removed key a) l₁ hlog
  · intro l₀ l₁ i a key payload hlog hsent
    obtain ⟨m₀, m₁, rfl⟩ := List.append_of_mem hsent
    have hlaw := h.lawful (l₀ ++ Entry.begun i a :: m₀) (.sent i key a payload) m₁ (by simpa using hlog)
    exact hlaw.2 l₀ m₀ rfl

def sampleConfig (tokenProvider : Bool) : Config :=
  ⟨"regional-sales", .regionalQuarterlyProfit, "Etc/UTC", tokenProvider⟩

/-- Two calls share an attempt; the first waits for its token while the second is refused, and
    a third makes a new attempt. -/
def lateToken : List Ev :=
  [.startRun "profit by region" "request-1" "09:00", .startRun "profit by region" "request-2" "09:01",
    .token 1 .valid, .createResponse 1 (.status 400), .createErrorBody 1 false,
    .startRun "profit by region" "request-3" "09:02", .token 2 .valid, .token 0 .valid]

/-- The first call's POST leaves with the removed attempt's payload, right after the new one's. -/
theorem lateToken_payloads_differ :
    ¬ ∀ l₀ l₁ l₂ i j key a b payload other,
      (run (sampleConfig true) init lateToken).log = l₀ ++ Entry.sent i key a payload :: (l₁ ++ Entry.sent j key b other :: l₂) →
      NoRemoval key l₁ → payload = other := by
  intro h
  let key := (sampleConfig true).requestKey "profit by region"
  let first := (sampleConfig true).attempt "profit by region" "request-1" "09:00"
  let third := (sampleConfig true).attempt "profit by region" "request-3" "09:02"
  have hlog : (run (sampleConfig true) init lateToken).log =
      [.begun 0 0, .begun 1 0, .sent 1 key 0 first.payload, .refused 1 0 ⟨.http, some 400⟩, .removed key 0, .begun 2 1] ++
        .sent 2 key 1 third.payload :: ([] ++ Entry.sent 0 key 0 first.payload :: []) := by
    decide +kernel
  have hsame := h _ [] [] 2 0 key 1 0 third.payload first.payload hlog fun e he => nomatch he
  exact absurd hsame (by decide +kernel)

/-- The token provider runs out of time, then the create fails on the network. -/
def renewedToken : List Ev :=
  [.startRun "profit by region" "request-1" "09:00", .token 0 (.failed (some ⟨.timeout, none⟩)),
    .startRun "profit by region" "request-2" "09:01", .token 1 .valid, .createResponse 1 .failed,
    .startRun "profit by region" "request-3" "09:02", .token 2 .valid]

/-- The create is posted again as it was, with its first request id. -/
theorem retry_posts_again :
    let key := (sampleConfig true).requestKey "profit by region"
    let payload := ((sampleConfig true).attempt "profit by region" "request-1" "09:00").payload
    let log := (run (sampleConfig true) init renewedToken).log
    log = [.begun 0 0, .begun 1 0, .sent 1 key 0 payload, .begun 2 0, .sent 2 key 0 payload] ∧
      ∀ l₀ l₁ l₂ i j key a b payload other, log = l₀ ++ Entry.sent i key a payload :: (l₁ ++ Entry.sent j key b other :: l₂) →
        NoRemoval key l₁ → payload = other :=
  ⟨by decide +kernel, (create_retries_idempotent (sampleConfig true) _ (.inr (by decide +kernel))).1⟩

end DataNexus.Web.CreateAttempts
