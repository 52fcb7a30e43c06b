/-
  DataNexus.Control.Repositories — the two run repositories
  (`Persistence/PostgresRunRepository.cs`, `Persistence/InMemoryRunRepository.cs`,
  `Persistence/Migrations/001_*.sql` and `002_identity_workspace.sql`).

  A call of the Postgres repository is one transaction of a few statements. `begin` is what
  comes before it, `advance` is one statement: a check, a read under a row lock, the action on
  the record that was read, the guarded update. `Effect` is what the transaction has written
  for its own eyes; `Effect.apply` is the commit. `solo` is a call with nobody else around. A
  call of the in-memory repository is one locked section.

  The clock reading, the drawn run id and the answer of the identity tables are arguments. The
  checks of the tables on a row's text (its length, what `jsonb` can hold) are `Limits`. JSON
  is the record itself, read back through `StoredRunCodec`. The average duration of the
  statistics is the exact one.
-/

import DataNexus.Control.Dispatch

namespace DataNexus.Control

open Lib RunTransitions SemanticRunStatusValidator

/-! ## Calls -/

/-- `access.Context`, as far as a repository reads it. -/
structure TrustedAccess where
  tenantId : String
  workspaceId : String
  principalId : String
  deriving DecidableEq

/-- `tenant_id`, `workspace_id`: both or neither. -/
abbrev Scope := Option (String × String)

def scopeOf (access : Option TrustedAccess) : Scope := access.map fun context => (context.tenantId, context.workspaceId)

/-- `access.Context?.Principal.PrincipalId ?? subject`. -/
def subjectOf (access : Option TrustedAccess) (subject : String) : String := (access.map (·.principalId)).getD subject

/-- A call with its clock reading and, for a create, the run id it draws. -/
inductive RepositoryCall where
  | create (request : CreateRunRequest) (subject id : String) (now : DateTimeOffset)
  | get (id : String)
  | list (limit : Int)
  | applySemanticStatus (id : String) (expected : Int) (status : SemanticRunStatus) (now : DateTimeOffset)
  | markFailed (id code message : String) (now : DateTimeOffset)
  | markStartDispatchUnknown (id code : String) (now : DateTimeOffset)
  | requestCancellation (id : String) (expected : Option Int) (now : DateTimeOffset)
  | markCancellationDelivered (id : String) (generation : Int) (now : DateTimeOffset)
  | finalizeCancellationWithoutBackend (id : String) (version generation : Option Int) (now : DateTimeOffset)
  | claimStart (id : String) (now : DateTimeOffset)
  | submitFeedback (id : String) (request : SubmitFeedbackRequest) (subject : String) (now : DateTimeOffset)
  | getFeedback (id : String)
  | getStatistics
  deriving DecidableEq

/-- The transition a call applies to the record of its run. -/
def RepositoryCall.transition (access : Option TrustedAccess) : RepositoryCall → Option (String × Transition)
  | .applySemanticStatus id expected status now => some (id, .applyStatus expected status now)
  | .markFailed id code message now => some (id, .fail code message now)
  | .markStartDispatchUnknown id code now => some (id, .dispatchUnknown code now)
  | .requestCancellation id expected now => some (id, .cancel expected now)
  | .markCancellationDelivered id generation now => some (id, .deliver generation now)
  | .finalizeCancellationWithoutBackend id version generation now => some (id, .finalizeCancellation version generation now)
  | .claimStart id now => some (id, .dispatchUnknown "durable_start_dispatch_claimed" now)
  | .submitFeedback id request subject now => some (id, .feedback request (subjectOf access subject) now)
  | .create .. | .get _ | .list _ | .getFeedback _ | .getStatistics => none

/-- The run version a call says it has seen. -/
def RepositoryCall.expectedVersion : RepositoryCall → Option Int
  | .applySemanticStatus _ expected _ _ => some expected
  | .requestCancellation _ expected _ => expected
  | .finalizeCancellationWithoutBackend _ version _ _ => version
  | .submitFeedback _ request _ _ => some request.expectedRunVersion
  | _ => none

/-- The run id a call draws. -/
def RepositoryCall.draws : RepositoryCall → Option String
  | .create _ _ id _ => some id
  | _ => none

structure RunStatistics where
  totalRuns : Int
  runsByState : RunState → Int
  averageDurationMilliseconds : Option ℚ
  totalInputTokens : Int
  totalOutputTokens : Int
  feedbackCount : Int

inductive RepositoryValue where
  | created (result : CreateRunResult)
  | found (run : Option RunMetadata)
  | listed (runs : List RunMetadata)
  | updated (run : RunMetadata)
  | mutation (result : MutationResult)
  | claim (claim : StartDispatchClaim)
  | feedback (feedback : RunFeedback)
  | feedbacks (items : List RunFeedback)
  | statistics (statistics : RunStatistics)

inductive RepositoryFailure where
  | thrown (error : RepositoryError)
  | accessDenied
  | argumentOutOfRange
  | uniqueViolation
  | checkViolation
  /-- `Dictionary.Add` of a key that is there. -/
  | argument
  | infrastructure

abbrev Outcome := Except RepositoryFailure RepositoryValue

/-! ## Records and their codecs -/

def StoredRunCodec.feedback (feedback : RunFeedback) : Except RepositoryError RunFeedback :=
  if !RunId.tryParse feedback.runId || isNullOrWhiteSpace feedback.submissionId ||
      decide (64 < utf16Length feedback.submissionId) || decide (feedback.rating < 1) || decide (5 < feedback.rating) ||
      decide (10 < feedback.reasonCodes.length) ||
      (feedback.reasonCodes.any fun code => isNullOrWhiteSpace code || decide (32 < utf16Length code) ||
        !code.toList.all identifierCharacter) ||
      isNullOrWhiteSpace feedback.submittedBy || feedback.submittedAt == 0 || decide (feedback.runVersion < 2) then
    .error .storageCorruption
  else .ok feedback

def duplicateFeedback (existing : RunFeedback) (request : SubmitFeedbackRequest) : Except RepositoryError RunFeedback := do
  refuseIf (existing.rating != request.rating || existing.outcome != request.outcome ||
      existing.reasonCodes != request.reasonCodes)
    (.idempotencyConflict "The feedback submission ID was already used with different values.")
  return existing

/-- `checked(a + b)`. -/
def checkedAdd (a b : Int) : Except RepositoryError Int :=
  if a + b ≤ longMax ∧ -longMax - 1 ≤ a + b then .ok (a + b) else .error (.transition .overflow)

/-- `RunMetadata.Duration`, in ticks. -/
def RunMetadata.duration (run : RunMetadata) : Option Int :=
  if run.state.isTerminal then
    match run.startedAt, run.completedAt with
    | some started, some completed => some (completed - started)
    | _, _ => none
  else none

structure RunStatisticsAccumulator where
  total : Int
  states : RunState → Int
  input : Int
  output : Int
  durations : Nat
  averageDuration : ℚ

namespace RunStatisticsAccumulator

def new : RunStatisticsAccumulator := ⟨0, fun _ => 0, 0, 0, 0, 0⟩

def add (accumulator : RunStatisticsAccumulator) (run : RunMetadata) : Except RepositoryError RunStatisticsAccumulator := do
  let total ← checkedAdd accumulator.total 1
  let inState ← checkedAdd (accumulator.states run.state) 1
  let input ← checkedAdd accumulator.input run.tokenUsage.inputTokens
  let output ← checkedAdd accumulator.output run.tokenUsage.outputTokens
  let next := { accumulator with
    total := total
    states := Function.update accumulator.states run.state inState
    input := input
    output := output }
  match run.duration with
  | some ticks =>
    if 0 ≤ ticks then
      let n := accumulator.durations + 1
      return { next with
        durations := n
        averageDuration := accumulator.averageDuration + ((ticks : ℚ) / 10000 - accumulator.averageDuration) / n }
    else return next
  | none => return next

def finish (accumulator : RunStatisticsAccumulator) (feedbackCount : Int) : RunStatistics where
  totalRuns := accumulator.total
  runsByState := accumulator.states
  averageDurationMilliseconds := if accumulator.durations = 0 then none else some accumulator.averageDuration
  totalInputTokens := accumulator.input
  totalOutputTokens := accumulator.output
  feedbackCount := feedbackCount

end RunStatisticsAccumulator

/-! ## The tables -/

structure RunRow where
  runId : String
  subject : String
  clientRequestId : String
  version : Int
  createdAt : Int
  metadata : RunMetadata
  scope : Scope
  deriving DecidableEq

structure FeedbackRow where
  runId : String
  submissionId : String
  feedback : RunFeedback
  deriving DecidableEq

structure Tables where
  runs : List RunRow
  feedback : List FeedbackRow
  dispatch : List String
  deriving DecidableEq

def Tables.empty : Tables := ⟨[], [], []⟩

/-- What the tables' column types, checks and indexes take of a record and its JSON. -/
structure Limits where
  run : RunMetadata → Bool
  feedback : RunFeedback → Bool

namespace Tables

variable (t : Tables) (scope : Scope)

/-- `WHERE run_id = $1 AND tenant_id IS NOT DISTINCT FROM $2 AND workspace_id IS NOT DISTINCT FROM $3`. -/
def selectRun (id : String) : Option RunRow := t.runs.find? fun row => row.runId = id ∧ row.scope = scope

/-- `WHERE subject = $1 AND client_request_id = $2` and the scope. -/
def selectKey (subject clientRequestId : String) : Option RunRow :=
  t.runs.find? fun row => row.subject = subject ∧ row.clientRequestId = clientRequestId ∧ row.scope = scope

def inScope : List RunRow := t.runs.filter fun row => row.scope = scope

/-- `ORDER BY created_at DESC, run_id`; the column is a `timestamptz`, in microseconds. -/
def listOrder (a b : RunRow) : Bool := decide (b.createdAt < a.createdAt ∨ (a.createdAt = b.createdAt ∧ a.runId ≤ b.runId))

def feedbackOf (id : String) : List RunFeedback := (t.feedback.filter (·.runId = id)).map (·.feedback)

end Tables

/-! ## Statements -/

/-- What the action of `WithRun` returns, and what it has inserted on the way. -/
structure Write where
  run : RunMetadata
  feedback : Option RunFeedback
  dispatch : Bool
  value : RepositoryValue

/-- What an open transaction holds: a row to be, a locked row, or a locked row with its
    update and inserts. -/
inductive Effect where
  | none
  | held (id : String)
  | insert (row : RunRow)
  | write (id : String) (current : RunMetadata) (w : Write)

/-- The commit. -/
def Effect.apply (t : Tables) : Effect → Tables
  | .none | .held _ => t
  | .insert row => { t with runs := t.runs ++ [row] }
  | .write id current w =>
    { runs := if w.run = current then t.runs else
        t.runs.map fun row => if row.runId = id ∧ row.version = current.version then
          { row with version := w.run.version, metadata := w.run } else row
      feedback := t.feedback ++ (w.feedback.map fun f => (⟨id, f.submissionId, f⟩ : FeedbackRow)).toList
      dispatch := t.dispatch ++ if w.dispatch then [id] else [] }

inductive CallPhase where
  | opened
  | authorized
  /-- The insert of a create did nothing. -/
  | conflicted
  /-- `GetFeedbackAsync` has seen the run. -/
  | checked
  | locked (current : RunMetadata)
  | acted (current : RunMetadata) (w : Write)
  | ready (effect : Effect) (value : RepositoryValue)
  | ended (outcome : Outcome)

namespace PostgresRunRepository

/-- `RunTransitions.Create` for this call. -/
def newRun (access : Option TrustedAccess) (request : CreateRunRequest) (subject id : String) (now : DateTimeOffset) :
    RunMetadata :=
  RunTransitions.create id request (subjectOf access subject) now

def newRow (access : Option TrustedAccess) (run : RunMetadata) : RunRow :=
  ⟨run.id, run.createdBy, run.clientRequestId, run.version, run.createdAt / 10, run, scopeOf access⟩

/-- Before the transaction. -/
def begin (access : Option TrustedAccess) : RepositoryCall → CallPhase
  | .create request subject id now =>
    match StoredRunCodec.run (newRun access request subject id now) with
    | .ok _ => .opened
    | .error error => .ended (.error (.thrown error))
  | .list limit => if limit < 1 ∨ 100 < limit then .ended (.error .argumentOutOfRange) else .opened
  | _ => .opened

/-- A value, or what was thrown on the way to it. -/
def answer {T : Type} (value : T → RepositoryValue) : Except RepositoryError T → CallPhase
  | .ok x => .ready .none (value x)
  | .error error => .ended (.error (.thrown error))

def statistics (t : Tables) (scope : Scope) : Except RepositoryError RunStatistics := do
  let (accumulator, count) ← (t.inScope scope).foldlM (fun (acc : RunStatisticsAccumulator × Int) row => do
    let run ← StoredRunCodec.run row.metadata
    let accumulator ← acc.1.add run
    let items ← (t.feedbackOf row.runId).mapM StoredRunCodec.feedback
    return (accumulator, acc.2 + items.length)) (RunStatisticsAccumulator.new, 0)
  return accumulator.finish count

/-- The first statement of the call's own. -/
def first (limits : Limits) (t : Tables) (access : Option TrustedAccess) : RepositoryCall → CallPhase
  | .create request subject id now =>
    let run := newRun access request subject id now
    if !limits.run run then .ended (.error .checkViolation)
    else if (t.selectKey (scopeOf access) run.createdBy run.clientRequestId).isSome then .conflicted
    else if t.runs.any (·.runId = id) then .ended (.error .uniqueViolation)
    else .ready (.insert (newRow access run)) (.created ⟨run, true⟩)
  | .get id =>
    answer .found (match t.selectRun (scopeOf access) id with
      | none => .ok none
      | some row => some <$> readRun row.metadata id)
  | .list limit =>
    answer .listed (((t.inScope (scopeOf access)).mergeSort Tables.listOrder |>.take limit.toNat).mapM
      fun row => StoredRunCodec.run row.metadata)
  | .getFeedback id =>
    if (t.selectRun (scopeOf access) id).isSome then .checked else .ended (.error (.thrown .runNotFound))
  | .getStatistics => answer .statistics (statistics t (scopeOf access))
  | .applySemanticStatus id .. | .markFailed id .. | .markStartDispatchUnknown id .. | .requestCancellation id ..
  | .markCancellationDelivered id .. | .finalizeCancellationWithoutBackend id .. | .claimStart id ..
  | .submitFeedback id .. =>
    match t.selectRun (scopeOf access) id with
    | none => .ended (.error (.thrown .runNotFound))
    | some row =>
      match readRun row.metadata id with
      | .ok current => .locked current
      | .error error => .ended (.error (.thrown error))

/-- An action that only applies a transition. -/
def transit (current : RunMetadata) (transition : Transition) : Except RepositoryFailure Write :=
  match transition.apply current with
  | .ok run => .ok ⟨run, none, false, .updated run⟩
  | .error error => .error (.thrown (.transition error))

/-- The action of `WithRun`. -/
def action (limits : Limits) (t : Tables) (access : Option TrustedAccess) (current : RunMetadata) :
    RepositoryCall → Except RepositoryFailure Write
  | .applySemanticStatus _ expected status now => transit current (.applyStatus expected status now)
  | .markFailed _ code message now => transit current (.fail code message now)
  | .markStartDispatchUnknown _ code now => transit current (.dispatchUnknown code now)
  | .markCancellationDelivered _ generation now => transit current (.deliver generation now)
  | .requestCancellation _ expected now =>
    match cancel current expected now with
    | .ok result => .ok ⟨result.run, none, false, .mutation result⟩
    | .error error => .error (.thrown (.transition error))
  | .finalizeCancellationWithoutBackend id version generation now =>
    if t.dispatch.contains id && !current.state.isTerminal then .error (.thrown .dispatchRecoveryRequired)
    else transit current (.finalizeCancellation version generation now)
  | .claimStart id now =>
    if !current.state.requiresStartReconciliation || t.dispatch.contains id then
      .ok ⟨current, none, false, .claim ⟨current, false⟩⟩
    else
      match dispatchUnknown current "durable_start_dispatch_claimed" now with
      | .ok updated => .ok ⟨updated, none, true, .claim ⟨updated, true⟩⟩
      | .error error => .error (.thrown (.transition error))
  | .submitFeedback id request subject now =>
    match t.feedback.find? fun row => row.runId = id ∧ row.submissionId = request.submissionId with
    | some row =>
      match StoredRunCodec.feedback row.feedback >>= fun existing => duplicateFeedback existing request with
      | .ok existing => .ok ⟨current, none, false, .feedback existing⟩
      | .error error => .error (.thrown error)
    | none =>
      match feedback current request (subjectOf access subject) now with
      | .error error => .error (.thrown (.transition error))
      | .ok (run, item) =>
        match StoredRunCodec.feedback item with
        | .error error => .error (.thrown error)
        | .ok _ => if limits.feedback item then .ok ⟨run, some item, false, .feedback item⟩ else .error .checkViolation
  | .create .. | .get _ | .list _ | .getFeedback _ | .getStatistics => .error .infrastructure

/-- The run a call locks. -/
def lockId : RepositoryCall → String
  | .applySemanticStatus id .. | .markFailed id .. | .markStartDispatchUnknown id .. | .requestCancellation id ..
  | .markCancellationDelivered id .. | .finalizeCancellationWithoutBackend id .. | .claimStart id ..
  | .submitFeedback id .. | .get id | .getFeedback id => id
  | .create .. | .list _ | .getStatistics => ""

/-- `UPDATE … WHERE run_id = $3 AND version = $4`, behind the codec, if the record has changed. -/
def update (limits : Limits) (t : Tables) (call : RepositoryCall) (current : RunMetadata) (w : Write) : CallPhase :=
  if w.run = current then .ready (.write (lockId call) current w) w.value
  else
    match StoredRunCodec.run w.run with
    | .error error => .ended (.error (.thrown error))
    | .ok _ =>
      if !limits.run w.run then .ended (.error .checkViolation)
      else if t.runs.any fun row => row.runId = lockId call ∧ row.version = current.version then
        .ready (.write (lockId call) current w) w.value
      else .ended (.error (.thrown (.transition (.optimisticConcurrency "Run changed during its transaction."))))

def isFeedback : RepositoryCall → Bool
  | .submitFeedback .. => true
  | _ => false

/-- One statement, with nobody in its way. -/
def advance (limits : Limits) (t : Tables) (access : Option TrustedAccess) (call : RepositoryCall) (authorized : Bool) :
    CallPhase → CallPhase
  | .opened => if access.isSome && !authorized then .ended (.error .accessDenied) else .authorized
  | .authorized => first limits t access call
  | .conflicted =>
    match call with
    | .create request subject _ _ =>
      match t.selectKey (scopeOf access) (subjectOf access subject) request.clientRequestId with
      | none => .ended (.error .infrastructure)
      | some row =>
        match StoredRunCodec.run row.metadata >>= fun stored => duplicate stored request with
        | .ok result => .ready (.held row.runId) (.created result)
        | .error error => .ended (.error (.thrown error))
    | _ => .ended (.error .infrastructure)
  | .checked =>
    match call with
    | .getFeedback id =>
      answer (fun items => .feedbacks (items.mergeSort fun a b => decide (a.submittedAt ≤ b.submittedAt)))
        ((t.feedback.filter (·.runId = id)).mapM fun row => do
          let item ← StoredRunCodec.feedback row.feedback
          refuseIf (item.runId != id) .storageCorruption
          return item)
    | _ => .ended (.error .infrastructure)
  | .locked current =>
    -- `SubmitFeedbackAsync` authorizes a second time, as a contributor.
    if isFeedback call && access.isSome && !authorized then .ended (.error .accessDenied)
    else
      match action limits t access current call with
      | .ok w => .acted current w
      | .error failure => .ended (.error failure)
  | .acted current w => update limits t call current w
  | phase => phase

/-- The commit, and what the caller sees. -/
def finish (t : Tables) : CallPhase → Tables × Outcome
  | .ready effect value => (effect.apply t, .ok value)
  | .ended outcome => (t, outcome)
  | _ => (t, .error .infrastructure)

/-- A call with nobody else around: its statements one after another, then the commit. -/
def solo (limits : Limits) (access : Option TrustedAccess) (t : Tables) (call : RepositoryCall) : Tables × Outcome :=
  let statement := advance limits t access call true
  finish t (statement (statement (statement (statement (begin access call)))))

end PostgresRunRepository

/-! ## The in-memory repository -/

/-- The dictionaries `runs`, `createKeys` and `feedback`. -/
structure InMemory where
  runs : List (String × RunMetadata)
  createKeys : List ((String × String) × String)
  feedback : List (String × List (String × RunFeedback))
  deriving DecidableEq

def InMemory.empty : InMemory := ⟨[], [], []⟩

namespace InMemoryRunRepository

/-- `dictionary[key] = value` of a key that is there. -/
def set {β : Type} (dictionary : List (String × β)) (key : String) (value : β) : List (String × β) :=
  dictionary.map fun entry => if entry.1 = key then (key, value) else entry

def thrown {T : Type} (m : InMemory) (value : T → InMemory × RepositoryValue) : Except RepositoryError T → InMemory × Outcome
  | .ok x => ((value x).1, .ok (value x).2)
  | .error error => (m, .error (.thrown error))

def mutate (m : InMemory) (id : String) (transition : Transition) : InMemory × Outcome :=
  match m.runs.lookup id with
  | none => (m, .error (.thrown .runNotFound))
  | some current =>
    thrown m (fun run => ({ m with runs := set m.runs id run }, .updated run)) ((transition.apply current).mapError .transition)

/-- One locked section. `ClaimStartAsync` is not an operation of this repository. -/
def call (m : InMemory) : RepositoryCall → InMemory × Outcome
  | .create request subject id now =>
    match m.createKeys.lookup (subject, request.clientRequestId) with
    | some existing =>
      match m.runs.lookup existing with
      | none => (m, .error .infrastructure)
      | some run => thrown m (fun result => (m, .created result)) (PostgresRunRepository.duplicate run request)
    | none =>
      let run := RunTransitions.create id request subject now
      if (m.runs.lookup id).isSome then (m, .error .argument)
      else
        ({ m with
            runs := m.runs ++ [(id, run)]
            createKeys := m.createKeys ++ [((subject, request.clientRequestId), id)] },
          .ok (.created ⟨run, true⟩))
  | .get id => (m, .ok (.found (m.runs.lookup id)))
  | .list limit =>
    (m, .ok (.listed (((m.runs.map (·.2)).mergeSort fun a b => decide (b.createdAt ≤ a.createdAt)).take limit.toNat)))
  | .applySemanticStatus id expected status now => mutate m id (.applyStatus expected status now)
  | .markFailed id code message now => mutate m id (.fail code message now)
  | .markStartDispatchUnknown id code now => mutate m id (.dispatchUnknown code now)
  | .markCancellationDelivered id generation now => mutate m id (.deliver generation now)
  | .finalizeCancellationWithoutBackend id version generation now =>
    mutate m id (.finalizeCancellation version generation now)
  | .requestCancellation id expected now =>
    match m.runs.lookup id with
    | none => (m, .error (.thrown .runNotFound))
    | some current =>
      thrown m (fun result => ({ m with runs := set m.runs id result.run }, .mutation result))
        ((cancel current expected now).mapError .transition)
  | .claimStart _ _ => (m, .error .infrastructure)
  | .submitFeedback id request subject now =>
    match m.runs.lookup id with
    | none => (m, .error (.thrown .runNotFound))
    | some current =>
      let m := if (m.feedback.lookup id).isSome then m else { m with feedback := m.feedback ++ [(id, [])] }
      let submissions := (m.feedback.lookup id).getD []
      match submissions.lookup request.submissionId with
      | some existing => thrown m (fun item => (m, .feedback item)) (duplicateFeedback existing request)
      | none =>
        thrown m (fun result => ({ m with
            runs := set m.runs id result.1
            feedback := set m.feedback id (submissions ++ [(result.2.submissionId, result.2)]) }, .feedback result.2))
          ((feedback current request subject now).mapError .transition)
  | .getFeedback id =>
    match m.runs.lookup id with
    | none => (m, .error (.thrown .runNotFound))
    | some _ =>
      (m, .ok (.feedbacks ((((m.feedback.lookup id).getD []).map (·.2)).mergeSort
        fun a b => decide (a.submittedAt ≤ b.submittedAt))))
  | .getStatistics =>
    thrown m (fun accumulator => (m, .statistics (accumulator.finish (m.feedback.map (·.2.length)).sum)))
      ((m.runs.map (·.2)).foldlM RunStatisticsAccumulator.add RunStatisticsAccumulator.new)

end InMemoryRunRepository

end DataNexus.Control
