/-
  DataNexus.Control.Dispatch — the endpoints over the durable store
  (`Endpoints/ControlApiEndpoints.cs` with `Persistence/PostgresRunRepository.cs`).

  The database holds one run's row and its dispatch row. Each repository method is one
  transaction, so one operation; each backend call is one operation with any reply. An
  operation may also fail on its way in (nothing written) or on its way out (written, but
  the caller sees an exception), and a handler may be dropped anywhere. The per-run lease is
  left out: a process does not share it with another, so every interleaving here is one two
  processes can make. So is feedback, which only moves the version on.

  The dispatch row is written in the transaction that moves the run to `dispatchUnknown`,
  and it grants the one call of `StartAsync` (`Lib/Process`).
-/

import DataNexus.Control.StoredRunCodec
import DataNexus.Lib.Process

namespace DataNexus.Control

open Lib Process RunTransitions

inductive SemanticFailureKind where
  | unknownOutcome
  | rejected
  | notFound
  | invalidResponse
  deriving DecidableEq

/-- What an awaited operation throws. -/
inductive Thrown where
  | semanticBackend (diagnosticCode : String) (failureKind : SemanticFailureKind)
  | operationCanceled
  | repository (error : RepositoryError)
  | infrastructure
  deriving DecidableEq

def RepositoryError.thrown : RepositoryError → Thrown
  | .transition (.semanticBackend code _) => .semanticBackend code .invalidResponse
  | error => .repository error

structure CreateRunResult where
  run : RunMetadata
  created : Bool

structure StartDispatchClaim where
  run : RunMetadata
  acquired : Bool

/-- The run's row of `control_runs`, and whether `control_start_dispatch` has its row. -/
structure Database where
  run : Option RunMetadata
  dispatch : Bool

/-! ## The repository -/

namespace PostgresRunRepository

/-- `RunTransitions.Duplicate`. -/
def duplicate (run : RunMetadata) (request : CreateRunRequest) : Except RepositoryError CreateRunResult := do
  refuseIf (run.workload != request.workload || run.question != request.question ||
      run.evaluationClock != request.evaluationClock || run.evaluationTimezone != request.evaluationTimezone ||
      run.compilationMode != request.compilationMode || run.executionMode != request.executionMode ||
      run.outputMode != request.outputMode)
    (.idempotencyConflict "The client request ID was already used with different run metadata.")
  return ⟨run, false⟩

/-- `CreateAsync`; the row in the database, if any, is the one of this subject and request ID. -/
def createAsync (guid : Fin 32 → Fin 16) (request : CreateRunRequest) (subject : String) (now : DateTimeOffset)
    (db : Database) : Except RepositoryError (Database × CreateRunResult) := do
  let run ← StoredRunCodec.run (create (RunId.new guid) request subject now)
  match db.run with
  | none => return ({ db with run := some run }, ⟨run, true⟩)
  | some stored =>
    let result ← duplicate (← StoredRunCodec.run stored) request
    return (db, result)

def getAsync (db : Database) : Except RepositoryError (Database × Option RunMetadata) :=
  match db.run with
  | none => return (db, none)
  | some stored => do
    let run ← StoredRunCodec.run stored
    return (db, some run)

/-- `WithRun` on the database; the action also sees the dispatch row and may write it. -/
def withRow {T : Type} (db : Database)
    (action : RunMetadata → Except RepositoryError (RunMetadata × (Bool × T))) :
    Except RepositoryError (Database × T) :=
  match db.run with
  | none => .error .runNotFound
  | some stored => do
    let (run, dispatch, result) ← withRun stored stored.id action
    return (⟨some run, dispatch⟩, result)

def mutateAsync (t : Transition) (db : Database) : Except RepositoryError (Database × RunMetadata) :=
  withRow db fun current => do
    let updated ← (t.apply current).mapError .transition
    return (updated, db.dispatch, updated)

def requestCancellationAsync (expected : Option Int) (now : DateTimeOffset) (db : Database) :
    Except RepositoryError (Database × MutationResult) :=
  withRow db fun current => do
    let result ← (cancel current expected now).mapError .transition
    return (result.run, db.dispatch, result)

def finalizeCancellationWithoutBackendAsync (version generation : Option Int) (now : DateTimeOffset)
    (db : Database) : Except RepositoryError (Database × RunMetadata) :=
  withRow db fun current => do
    refuseIf (db.dispatch && !current.state.isTerminal) .dispatchRecoveryRequired
    let updated ← (finalizeCancellation current version generation now).mapError .transition
    return (updated, db.dispatch, updated)

def claimStartAsync (now : DateTimeOffset) (db : Database) :
    Except RepositoryError (Database × StartDispatchClaim) :=
  withRow db fun current =>
    if !current.state.requiresStartReconciliation then
      .ok (current, db.dispatch, ⟨current, false⟩)
    else if db.dispatch then
      .ok (current, true, ⟨current, false⟩)
    else do
      let updated ← (dispatchUnknown current "durable_start_dispatch_claimed" now).mapError .transition
      return (updated, true, ⟨updated, true⟩)

end PostgresRunRepository

/-! ## Operations -/

inductive Op where
  | createAsync (guid : Fin 32 → Fin 16) (request : CreateRunRequest) (subject : String)
  | getAsync
  | claimStartAsync
  | startAsync (run : RunMetadata)
  | getStatusAsync
  | applySemanticStatusAsync (version : Int) (status : SemanticRunStatus)
  | markFailedAsync (code message : String)
  | markStartDispatchUnknownAsync (code : String)
  | requestCancellationAsync (expected : Option Int)
  | cancelBackendAsync
  | markCancellationDeliveredAsync (generation : Int)
  | finalizeCancellationWithoutBackendAsync (version generation : Option Int)

abbrev Op.Value : Op → Type
  | .createAsync .. => CreateRunResult
  | .getAsync => Option RunMetadata
  | .claimStartAsync => StartDispatchClaim
  | .startAsync _ | .getStatusAsync => SemanticRunStatus
  | .requestCancellationAsync _ => MutationResult
  | .cancelBackendAsync => Unit
  | .applySemanticStatusAsync .. | .markFailedAsync .. | .markStartDispatchUnknownAsync _
  | .markCancellationDeliveredAsync _ | .finalizeCancellationWithoutBackendAsync .. => RunMetadata

abbrev Op.Result (op : Op) : Type := Except Thrown op.Value

/-- Where an operation on the database breaks, if it does: before its commit or after it. -/
inductive Fault where
  | none
  | before (thrown : Thrown)
  | after (thrown : Thrown)

/-- What the world brings to one operation: the clock, a fault, and the backend's answer. -/
structure Environment where
  now : DateTimeOffset
  fault : Fault
  reply : Except Thrown SemanticRunStatus

/-- One transaction under a fault. -/
def transact {T : Type} (fault : Fault) (db : Database) (result : Except RepositoryError (Database × T)) :
    Database × Except Thrown T :=
  match fault, result with
  | .before thrown, _ => (db, .error thrown)
  | _, .error error => (db, .error error.thrown)
  | .after thrown, .ok (written, _) => (written, .error thrown)
  | .none, .ok (written, value) => (written, .ok value)

def execute (op : Op) (env : Environment) (db : Database) : Database × op.Result :=
  match op with
  | .createAsync guid request subject =>
    transact env.fault db (PostgresRunRepository.createAsync guid request subject env.now db)
  | .getAsync => transact env.fault db (PostgresRunRepository.getAsync db)
  | .claimStartAsync => transact env.fault db (PostgresRunRepository.claimStartAsync env.now db)
  | .startAsync _ => (db, env.reply)
  | .getStatusAsync => (db, env.reply)
  | .applySemanticStatusAsync version status =>
    transact env.fault db (PostgresRunRepository.mutateAsync (.applyStatus version status env.now) db)
  | .markFailedAsync code message =>
    transact env.fault db (PostgresRunRepository.mutateAsync (.fail code message env.now) db)
  | .markStartDispatchUnknownAsync code =>
    transact env.fault db (PostgresRunRepository.mutateAsync (.dispatchUnknown code env.now) db)
  | .requestCancellationAsync expected =>
    transact env.fault db (PostgresRunRepository.requestCancellationAsync expected env.now db)
  | .cancelBackendAsync => (db, env.reply.map fun _ => ())
  | .markCancellationDeliveredAsync generation =>
    transact env.fault db (PostgresRunRepository.mutateAsync (.deliver generation env.now) db)
  | .finalizeCancellationWithoutBackendAsync version generation =>
    transact env.fault db
      (PostgresRunRepository.finalizeCancellationWithoutBackendAsync version generation env.now db)

/-! ## Endpoints -/

namespace ControlApiEndpoints

abbrev Handler := Proc Op Op.Result

/-- The `catch` clauses of `CreateRun`. -/
def startFailed : Thrown → Handler
  | .semanticBackend code .rejected =>
    .call (.markFailedAsync code "The semantic backend definitively rejected the run.") fun _ => .done
  | .semanticBackend code _ => .call (.markStartDispatchUnknownAsync code) fun _ => .done
  | .operationCanceled => .call (.markStartDispatchUnknownAsync "semantic_backend_start_cancelled") fun _ => .done
  | _ => .done

/-- The status `CreateRun` has been given is applied to the record it has read. -/
def startReceived (current : RunMetadata) : Except Thrown SemanticRunStatus → Handler
  | .ok status => .call (.applySemanticStatusAsync current.version status) fun
    | .ok _ => .done
    | .error thrown => startFailed thrown
  | .error thrown => startFailed thrown

def startClaimed : Except Thrown StartDispatchClaim → Handler
  | .error thrown => startFailed thrown
  | .ok claim =>
    if !claim.run.state.requiresStartReconciliation then .done
    else if claim.acquired then .call (.startAsync claim.run) (startReceived claim.run)
    else .call .getStatusAsync fun
      -- `DispatchRecoveryRequiredException` passes the handlers of `CreateRun`.
      | .error (.semanticBackend _ .notFound) => .done
      | reply => startReceived claim.run reply

def createRun (disallowed : Char → Bool) (guid : Fin 32 → Fin 16) (request : CreateRunRequest) (subject : String) :
    Handler :=
  match validate disallowed request with
  | .error _ => .done
  | .ok _ => .call (.createAsync guid request subject) fun
    | .error _ => .done
    | .ok _ => .call .getAsync fun
      | .ok (some current) =>
        if !current.state.requiresStartReconciliation then .done else .call .claimStartAsync startClaimed
      | _ => .done

def reconcileMissingCancellation (cancellation : MutationResult) : Handler :=
  .call .getAsync fun
    | .ok (some current) => .call .getStatusAsync fun
      | .ok status => .call (.applySemanticStatusAsync current.version status) fun _ => .done
      | .error (.semanticBackend _ .notFound) =>
        .call (.finalizeCancellationWithoutBackendAsync none (some cancellation.cancellationGeneration)) fun _ => .done
      | .error _ => .done
    | _ => .done

def dispatchCancellation (result : MutationResult) : Handler :=
  if !result.requiresDispatch then .done
  else .call .cancelBackendAsync fun
    | .ok _ => .call (.markCancellationDeliveredAsync result.cancellationGeneration) fun _ => .done
    | .error (.semanticBackend _ .notFound) => reconcileMissingCancellation result
    | .error _ => .done

def cancelRun (expectedVersion : Option Int) : Handler :=
  .call .getAsync fun
    | .ok (some _) => .call .getAsync fun
      | .ok (some current) =>
        if current.state = .dispatchUnknown then
          if expectedVersion.any (current.version != ·) then .done
          else .call (.requestCancellationAsync expectedVersion) fun
            | .error _ => .done
            | .ok result => .call .getStatusAsync fun
              | .ok status => .call (.applySemanticStatusAsync result.run.version status) fun
                | .ok updated => if updated.state.isTerminal then .done else dispatchCancellation result
                | .error _ => .done
              | .error (.semanticBackend _ .notFound) =>
                .call (.finalizeCancellationWithoutBackendAsync none (some result.cancellationGeneration))
                  fun _ => .done
              | .error _ => .done
        else .call (.requestCancellationAsync expectedVersion) fun
          | .error _ => .done
          | .ok result => dispatchCancellation result
      | _ => .done
    | _ => .done

def getSemanticStatus : Handler :=
  .call .getAsync fun
    | .ok (some _) => .call .getAsync fun
      | .ok (some run) => .call .getStatusAsync fun
        | .ok status => .call (.applySemanticStatusAsync run.version status) fun _ => .done
        | .error _ => .done
      | _ => .done
    | _ => .done

/-- The requests on the run. -/
inductive Endpoint : Handler → Prop where
  | createRun (disallowed : Char → Bool) (guid : Fin 32 → Fin 16) (request : CreateRunRequest) (subject : String) :
    Endpoint (createRun disallowed guid request subject)
  | cancelRun (expectedVersion : Option Int) : Endpoint (cancelRun expectedVersion)
  | getSemanticStatus : Endpoint getSemanticStatus

end ControlApiEndpoints

/-! ## The dispatch row grants the start -/

/-- A claim that was acquired. -/
def grantsStart : (op : Op) → op.Result → Bool
  | .claimStartAsync, .ok claim => claim.acquired
  | _, _ => false

def callsStart : Op → Bool
  | .startAsync _ => true
  | _ => false

namespace ControlApiEndpoints

/-- An operation that neither claims nor starts. -/
theorem within_call {op : Op} {next : op.Result → Handler} (hstart : callsStart op = false)
    (hclaim : ∀ r, grantsStart op r = false) (h : ∀ r, Within grantsStart callsStart 0 (next r)) :
    Within grantsStart callsStart 0 (.call op next) := by
  refine ⟨by simp [hstart], fun r => ?_⟩
  simpa [hstart, hclaim r] using h r

theorem within_last {op : Op} (hstart : callsStart op = false) (hclaim : ∀ r, grantsStart op r = false) :
    Within grantsStart callsStart 0 (.call op fun _ => .done) :=
  within_call hstart hclaim fun _ => trivial

theorem within_startFailed (thrown : Thrown) : Within grantsStart callsStart 0 (startFailed thrown) := by
  unfold startFailed
  split
  · exact within_last rfl fun _ => rfl
  · exact within_last rfl fun _ => rfl
  · exact within_last rfl fun _ => rfl
  · trivial

theorem within_startReceived (current : RunMetadata) (reply : Except Thrown SemanticRunStatus) :
    Within grantsStart callsStart 0 (startReceived current reply) := by
  unfold startReceived
  split
  · refine within_call rfl (fun _ => rfl) fun r => ?_
    cases r with
    | ok updated => trivial
    | error thrown => exact within_startFailed thrown
  · exact within_startFailed _

/-- `CreateRun` starts the backend once, on a claim it has acquired. -/
theorem within_startClaimed (r : Except Thrown StartDispatchClaim) :
    Within grantsStart callsStart (if grantsStart .claimStartAsync r then 1 else 0) (startClaimed r) := by
  cases r with
  | error thrown => exact within_startFailed thrown
  | ok claim =>
    have hgrant : grantsStart .claimStartAsync (.ok claim) = claim.acquired := rfl
    rw [hgrant]
    by_cases hrec : claim.run.state.requiresStartReconciliation = true
    · by_cases hacq : claim.acquired = true
      · simp only [startClaimed, hrec, hacq, Bool.not_true, Bool.false_eq_true, if_false, if_true]
        refine ⟨fun _ => by decide, fun r => ?_⟩
        simpa [grantsStart, callsStart] using within_startReceived claim.run r
      · simp only [startClaimed, hrec, hacq, Bool.not_true, Bool.false_eq_true, if_false]
        refine within_call rfl (fun _ => rfl) fun r => ?_
        split
        · trivial
        · exact within_startReceived claim.run _
    · simp only [startClaimed, hrec, Bool.not_false, if_true]
      trivial

theorem within_createRun (disallowed : Char → Bool) (guid : Fin 32 → Fin 16) (request : CreateRunRequest)
    (subject : String) : Within grantsStart callsStart 0 (createRun disallowed guid request subject) := by
  unfold createRun
  split
  · trivial
  refine within_call rfl (fun _ => rfl) fun r => ?_
  cases r with
  | error thrown => trivial
  | ok result =>
    refine within_call rfl (fun _ => rfl) fun r => ?_
    split
    · split
      · trivial
      · refine ⟨by simp [callsStart], fun r => ?_⟩
        simpa [callsStart] using within_startClaimed r
    · trivial

theorem within_dispatchCancellation (result : MutationResult) :
    Within grantsStart callsStart 0 (dispatchCancellation result) := by
  unfold dispatchCancellation
  split
  · trivial
  refine within_call rfl (fun _ => rfl) fun r => ?_
  split
  · exact within_last rfl fun _ => rfl
  · refine within_call rfl (fun _ => rfl) fun r => ?_
    split
    · refine within_call rfl (fun _ => rfl) fun r => ?_
      split
      · exact within_last rfl fun _ => rfl
      · exact within_last rfl fun _ => rfl
      · trivial
    · trivial
  · trivial

theorem within_cancelRun (expectedVersion : Option Int) :
    Within grantsStart callsStart 0 (cancelRun expectedVersion) := by
  refine within_call rfl (fun _ => rfl) fun r => ?_
  split
  · refine within_call rfl (fun _ => rfl) fun r => ?_
    split
    · split
      · split
        · trivial
        · refine within_call rfl (fun _ => rfl) fun r => ?_
          split
          · trivial
          · refine within_call rfl (fun _ => rfl) fun r => ?_
            split
            · refine within_call rfl (fun _ => rfl) fun r => ?_
              split
              · split
                · trivial
                · exact within_dispatchCancellation _
              · trivial
            · exact within_last rfl fun _ => rfl
            · trivial
      · refine within_call rfl (fun _ => rfl) fun r => ?_
        split
        · trivial
        · exact within_dispatchCancellation _
    · trivial
  · trivial

theorem within_getSemanticStatus : Within grantsStart callsStart 0 getSemanticStatus := by
  refine within_call rfl (fun _ => rfl) fun r => ?_
  split
  · refine within_call rfl (fun _ => rfl) fun r => ?_
    split
    · refine within_call rfl (fun _ => rfl) fun r => ?_
      split
      · exact within_last rfl fun _ => rfl
      · trivial
    · trivial
  · trivial

theorem within_endpoint {handler : Handler} (h : Endpoint handler) : Within grantsStart callsStart 0 handler := by
  cases h with
  | createRun disallowed guid request subject => exact within_createRun disallowed guid request subject
  | cancelRun expectedVersion => exact within_cancelRun expectedVersion
  | getSemanticStatus => exact within_getSemanticStatus

end ControlApiEndpoints

/-! ## What an operation does to the database -/

theorem readRun_eq_ok {stored run : RunMetadata} {id : String} (h : PostgresRunRepository.readRun stored id = .ok run) :
    run = stored := by
  simp only [PostgresRunRepository.readRun, StoredRunCodec.run, bind_eq_ok] at h
  obtain ⟨a, ⟨_, -, ha⟩, _, -, hrun⟩ := h
  split at ha
  · exact (pure_eq_ok.mp hrun).symm.trans (pure_eq_ok.mp ha).symm
  · simp at ha

theorem withRow_eq_ok {T : Type} {db db' : Database} {x : T}
    {action : RunMetadata → Except RepositoryError (RunMetadata × (Bool × T))}
    (h : PostgresRunRepository.withRow db action = .ok (db', x)) :
    ∃ stored run dispatch, db.run = some stored ∧ action stored = .ok (run, dispatch, x) ∧
      db' = ⟨some run, dispatch⟩ := by
  unfold PostgresRunRepository.withRow at h
  split at h
  · simp at h
  rename_i stored hs
  simp only [PostgresRunRepository.withRun, bind_eq_ok] at h
  obtain ⟨⟨run, dispatch, y⟩, ⟨current, hread, result, hact, hres⟩, hpure⟩ := h
  rw [readRun_eq_ok hread] at hact hres
  have hresult : result = (run, dispatch, y) := by
    split at hres
    · simp only [bind_eq_ok, pure_eq_ok] at hres
      exact hres.choose_spec.2
    · simpa using hres
  simp only [pure_eq_ok, Prod.mk.injEq] at hpure
  obtain ⟨hdb, rfl⟩ := hpure
  exact ⟨stored, run, dispatch, hs, hresult ▸ hact, hdb.symm⟩

theorem mapError_eq_ok {ε ε' α : Type} {x : Except ε α} {f : ε → ε'} {a : α} : x.mapError f = .ok a ↔ x = .ok a := by
  cases x <;> simp [Except.mapError]

/-- Under any fault a transaction leaves the database as it was, or as its commit leaves it,
    and only then may the caller see its value. -/
theorem transact_cases {T : Type} (fault : Fault) (db : Database) (result : Except RepositoryError (Database × T)) :
    ((transact fault db result).1 = db ∧ ∀ v, (transact fault db result).2 ≠ .ok v) ∨
    ∃ written value, result = .ok (written, value) ∧ (transact fault db result).1 = written ∧
      ∀ v, (transact fault db result).2 = .ok v → v = value := by
  cases fault with
  | before thrown => exact .inl ⟨rfl, fun v => by simp [transact]⟩
  | none =>
    cases result with
    | error e => exact .inl ⟨rfl, fun v => by simp [transact]⟩
    | ok p => exact .inr ⟨p.1, p.2, rfl, rfl, fun v hv => by simpa [transact] using hv.symm⟩
  | after thrown =>
    cases result with
    | error e => exact .inl ⟨rfl, fun v => by simp [transact]⟩
    | ok p => exact .inr ⟨p.1, p.2, rfl, rfl, fun v hv => by simp [transact] at hv⟩

/-- One write of the run's row. -/
inductive Written (db : Database) : Op → Database → Prop where
  | created {guid : Fin 32 → Fin 16} {request : CreateRunRequest} {subject : String} {now : DateTimeOffset}
    (h : db.run = none) : Written db (.createAsync guid request subject)
      { db with run := some (create (RunId.new guid) request subject now) }
  | status {version : Int} {status : SemanticRunStatus} {stored updated : RunMetadata} {now : DateTimeOffset}
    (h : db.run = some stored) (ht : applyStatus stored version status now = .ok updated) :
    Written db (.applySemanticStatusAsync version status) { db with run := some updated }
  | cancelled {expected : Option Int} {stored : RunMetadata} {result : MutationResult} {now : DateTimeOffset}
    (h : db.run = some stored) (ht : cancel stored expected now = .ok result) :
    Written db (.requestCancellationAsync expected) { db with run := some result.run }
  | finalized {version generation : Option Int} {stored updated : RunMetadata} {now : DateTimeOffset}
    (h : db.run = some stored) (hrow : db.dispatch = false ∨ stored.state.isTerminal = true)
    (ht : finalizeCancellation stored version generation now = .ok updated) :
    Written db (.finalizeCancellationWithoutBackendAsync version generation) { db with run := some updated }
  | claimed {stored updated : RunMetadata} {now : DateTimeOffset} (h : db.run = some stored)
    (hrec : stored.state.requiresStartReconciliation = true) (hrow : db.dispatch = false)
    (ht : dispatchUnknown stored "durable_start_dispatch_claimed" now = .ok updated) :
    Written db .claimStartAsync ⟨some updated, true⟩
  | marked {op : Op} {stored updated : RunMetadata} {t : Transition} (h : db.run = some stored)
    (ht : t.apply stored = .ok updated) (hop : (∃ code message now, t = .fail code message now) ∨
      (∃ code now, t = .dispatchUnknown code now) ∨ ∃ generation now, t = .deliver generation now) :
    Written db op { db with run := some updated }

theorem mutateAsync_written {db db' : Database} {t : Transition} {x : RunMetadata}
    (h : PostgresRunRepository.mutateAsync t db = .ok (db', x)) :
    ∃ stored updated, db.run = some stored ∧ t.apply stored = .ok updated ∧ db' = { db with run := some updated } := by
  obtain ⟨stored, run, dispatch, hs, hact, rfl⟩ := withRow_eq_ok h
  simp only [bind_eq_ok, mapError_eq_ok, pure_eq_ok, Prod.mk.injEq] at hact
  obtain ⟨updated, ht, rfl, rfl, -⟩ := hact
  exact ⟨stored, updated, hs, ht, rfl⟩

theorem claimStartAsync_written {db db' : Database} {now : DateTimeOffset} {claim : StartDispatchClaim}
    (h : PostgresRunRepository.claimStartAsync now db = .ok (db', claim)) :
    (db' = db ∧ claim.acquired = false) ∨ (Written db .claimStartAsync db' ∧ db.dispatch = false ∧ db'.dispatch = true) := by
  obtain ⟨stored, run, dispatch, hs, hact, rfl⟩ := withRow_eq_ok h
  split at hact
  · simp only [Except.ok.injEq, Prod.mk.injEq] at hact
    obtain ⟨rfl, rfl, rfl⟩ := hact
    exact .inl ⟨by rw [← hs], rfl⟩
  rename_i hrec
  split at hact
  · rename_i hrow
    simp only [Except.ok.injEq, Prod.mk.injEq] at hact
    obtain ⟨rfl, rfl, rfl⟩ := hact
    exact .inl ⟨by rw [← hs, ← hrow], rfl⟩
  · rename_i hrow
    simp only [bind_eq_ok, mapError_eq_ok, pure_eq_ok, Prod.mk.injEq] at hact
    obtain ⟨updated, ht, rfl, rfl, rfl⟩ := hact
    have hrow : db.dispatch = false := by simpa using hrow
    exact .inr ⟨.claimed hs (by simpa using hrec) hrow ht, hrow, rfl⟩

theorem createAsync_written {guid : Fin 32 → Fin 16} {request : CreateRunRequest} {subject : String}
    {now : DateTimeOffset} {db db' : Database} {result : CreateRunResult}
    (h : PostgresRunRepository.createAsync guid request subject now db = .ok (db', result)) :
    db' = db ∨ Written db (.createAsync guid request subject) db' := by
  simp only [PostgresRunRepository.createAsync, bind_eq_ok] at h
  obtain ⟨run, hrun, h⟩ := h
  have hrun : run = create (RunId.new guid) request subject now := by
    simp only [StoredRunCodec.run, bind_eq_ok] at hrun
    obtain ⟨_, -, hrun⟩ := hrun
    split at hrun
    · exact (pure_eq_ok.mp hrun).symm
    · simp at hrun
  split at h
  · rename_i hnone
    simp only [pure_eq_ok, Prod.mk.injEq] at h
    rw [← h.1, hrun]
    exact .inr (.created hnone)
  · simp only [bind_eq_ok, pure_eq_ok, Prod.mk.injEq] at h
    obtain ⟨_, -, _, -, hdb, -⟩ := h
    exact .inl hdb.symm

theorem execute_written (op : Op) (env : Environment) (db : Database) :
    (execute op env db).1 = db ∨ Written db op (execute op env db).1 := by
  have hmark : ∀ (op : Op) (t : Transition), ((∃ code message now, t = .fail code message now) ∨
      (∃ code now, t = .dispatchUnknown code now) ∨ ∃ generation now, t = .deliver generation now) →
      (transact env.fault db (PostgresRunRepository.mutateAsync t db)).1 = db ∨
      Written db op (transact env.fault db (PostgresRunRepository.mutateAsync t db)).1 := by
    intro op t ht
    rcases transact_cases env.fault db (PostgresRunRepository.mutateAsync t db) with ⟨h, -⟩ | ⟨written, v, h, hw, -⟩
    · exact .inl h
    obtain ⟨stored, updated, hs, happ, rfl⟩ := mutateAsync_written h
    rw [hw]
    exact .inr (.marked hs happ ht)
  cases op with
  | createAsync guid request subject =>
    rcases transact_cases env.fault db (PostgresRunRepository.createAsync guid request subject env.now db) with
      ⟨h, -⟩ | ⟨written, v, h, hw, -⟩
    · exact .inl h
    · rw [show (execute (.createAsync guid request subject) env db).1 = written from hw]
      exact createAsync_written h
  | getAsync =>
    rcases transact_cases env.fault db (PostgresRunRepository.getAsync db) with ⟨h, -⟩ | ⟨written, v, h, hw, -⟩
    · exact .inl h
    · left
      rw [show (execute .getAsync env db).1 = written from hw]
      unfold PostgresRunRepository.getAsync at h
      split at h
      · simpa [eq_comm] using And.left (by simpa using h)
      · simp only [bind_eq_ok, pure_eq_ok, Prod.mk.injEq] at h
        obtain ⟨_, -, hdb, -⟩ := h
        exact hdb.symm
  | claimStartAsync =>
    rcases transact_cases env.fault db (PostgresRunRepository.claimStartAsync env.now db) with
      ⟨h, -⟩ | ⟨written, v, h, hw, -⟩
    · exact .inl h
    · rw [show (execute .claimStartAsync env db).1 = written from hw]
      exact (claimStartAsync_written h).imp And.left And.left
  | startAsync run => exact .inl rfl
  | getStatusAsync => exact .inl rfl
  | applySemanticStatusAsync version status =>
    rcases transact_cases env.fault db
      (PostgresRunRepository.mutateAsync (.applyStatus version status env.now) db) with ⟨h, -⟩ | ⟨written, v, h, hw, -⟩
    · exact .inl h
    · obtain ⟨stored, updated, hs, happ, rfl⟩ := mutateAsync_written h
      rw [show (execute (.applySemanticStatusAsync version status) env db).1 = _ from hw]
      exact .inr (.status hs happ)
  | markFailedAsync code message => exact hmark _ _ (.inl ⟨code, message, env.now, rfl⟩)
  | markStartDispatchUnknownAsync code => exact hmark _ _ (.inr (.inl ⟨code, env.now, rfl⟩))
  | requestCancellationAsync expected =>
    rcases transact_cases env.fault db (PostgresRunRepository.requestCancellationAsync expected env.now db) with
      ⟨h, -⟩ | ⟨written, v, h, hw, -⟩
    · exact .inl h
    · obtain ⟨stored, run, dispatch, hs, hact, rfl⟩ := withRow_eq_ok h
      simp only [bind_eq_ok, mapError_eq_ok, pure_eq_ok, Prod.mk.injEq] at hact
      obtain ⟨result, ht, rfl, rfl, -⟩ := hact
      rw [show (execute (.requestCancellationAsync expected) env db).1 = _ from hw]
      exact .inr (.cancelled hs ht)
  | cancelBackendAsync => exact .inl rfl
  | markCancellationDeliveredAsync generation => exact hmark _ _ (.inr (.inr ⟨generation, env.now, rfl⟩))
  | finalizeCancellationWithoutBackendAsync version generation =>
    rcases transact_cases env.fault db
      (PostgresRunRepository.finalizeCancellationWithoutBackendAsync version generation env.now db) with
      ⟨h, -⟩ | ⟨written, v, h, hw, -⟩
    · exact .inl h
    · obtain ⟨stored, run, dispatch, hs, hact, rfl⟩ := withRow_eq_ok h
      simp only [bind_eq_ok, mapError_eq_ok, pure_eq_ok, Prod.mk.injEq, refuseIf_eq_ok] at hact
      obtain ⟨_, hrow, updated, ht, rfl, rfl, -⟩ := hact
      rw [show (execute (.finalizeCancellationWithoutBackendAsync version generation) env db).1 = _ from hw]
      refine .inr (.finalized hs ?_ ht)
      cases hdispatch : db.dispatch with
      | false => exact .inl rfl
      | true => exact .inr (by simpa [hdispatch] using hrow)

/-- The database has granted a start when it holds the dispatch row. -/
def granted (db : Database) : Nat := if db.dispatch then 1 else 0

/-- A write leaves the dispatch row alone, or is the claim: the run needed a start and is
    now in `dispatchUnknown`. -/
theorem Written.dispatch {op : Op} {db db' : Database} (h : Written db op db') :
    db'.dispatch = db.dispatch ∨ (db'.dispatch = true ∧ ∃ stored updated, db.run = some stored ∧
      stored.state.requiresStartReconciliation = true ∧ db'.run = some updated ∧ updated.state = .dispatchUnknown) := by
  cases h with
  | @claimed stored updated now h hrec hrow ht =>
    refine .inr ⟨rfl, stored, updated, h, hrec, rfl, ?_⟩
    rcases dispatchUnknown_cases ht with ⟨rfl, hno | hs⟩ | ⟨-, rfl⟩
    · simp [hno] at hrec
    · exact hs
    · rfl
  | created | status | cancelled | finalized | marked => exact .inl rfl

theorem granted_execute (op : Op) (env : Environment) (db : Database) :
    granted db + (if grantsStart op (execute op env db).2 then 1 else 0) ≤ granted (execute op env db).1 := by
  by_cases hg : grantsStart op (execute op env db).2 = true
  · -- Only an acquired claim grants, and its transaction has found no row and left one.
    rw [if_pos hg]
    cases op with
    | claimStartAsync =>
      cases hr : (execute .claimStartAsync env db).2 with
      | error e => simp [hr, grantsStart] at hg
      | ok claim =>
        have hacq : claim.acquired = true := by simpa [hr, grantsStart] using hg
        rcases transact_cases env.fault db (PostgresRunRepository.claimStartAsync env.now db) with
          ⟨-, h⟩ | ⟨written, v, h, hw, hv⟩
        · exact absurd hr (h claim)
        · obtain rfl := hv claim hr
          rcases claimStartAsync_written h with ⟨-, hno⟩ | ⟨-, hbefore, hafter⟩
          · simp [hno] at hacq
          · rw [show (execute .claimStartAsync env db).1 = written from hw]
            simp [granted, hbefore, hafter]
    | _ => simp [grantsStart] at hg
  · rw [if_neg hg]
    rcases execute_written op env db with h | h
    · rw [h]
      exact le_rfl
    · unfold granted
      rcases h.dispatch with h | ⟨h, -⟩ <;> rw [h]
      · exact le_rfl
      · split <;> simp

/-! ## The runs of the system -/

def Database.state (db : Database) : Option RunState := db.run.map (·.state)

/-- The operation moved the run to `cancelled`, and it was not the application of a status. -/
def CancelledWithoutBackend (entry : Entry Op Database) : Prop :=
  entry.before.state ≠ some .cancelled ∧ entry.after.state = some .cancelled ∧
    ∀ version status, entry.op ≠ .applySemanticStatusAsync version status

/-- The dispatch row and the record agree: a claimed run has left `startPending`, and a run
    cancelled without the backend has no row and stays as it is. -/
structure Consistent (db : Database) (trace : List (Entry Op Database)) : Prop where
  uncreated : db.run = none → db.dispatch = false
  inv : ∀ r, db.run = some r → Inv r
  claimed : db.dispatch = true → db.state ≠ some .startPending
  cancelled : (∃ entry ∈ trace, CancelledWithoutBackend entry) → db.dispatch = false ∧ db.state = some .cancelled

/-- A write creates the row or moves the record by one transition. -/
theorem Written.transition {op : Op} {db db' : Database} (h : Written db op db') :
    (db.run = none ∧ db'.dispatch = db.dispatch ∧ ∃ id request subject now,
      db'.run = some (create id request subject now)) ∨
    ∃ stored updated, ∃ t : Transition, db.run = some stored ∧ t.apply stored = .ok updated ∧
      db'.run = some updated := by
  cases h with
  | created h => exact .inl ⟨h, rfl, _, _, _, _, rfl⟩
  | @status version status stored updated now h ht =>
    exact .inr ⟨stored, updated, .applyStatus version status now, h, ht, rfl⟩
  | @cancelled expected stored result now h ht =>
    exact .inr ⟨stored, result.run, .cancel expected now, h, by simp [Transition.apply, ht], rfl⟩
  | @finalized version generation stored updated now h hrow ht =>
    exact .inr ⟨stored, updated, .finalizeCancellation version generation now, h, ht, rfl⟩
  | @claimed stored updated now h hrec hrow ht =>
    exact .inr ⟨stored, updated, .dispatchUnknown _ now, h, ht, rfl⟩
  | @marked _ stored updated t h ht hop => exact .inr ⟨stored, updated, t, h, ht, rfl⟩

/-- No transition goes back to `startPending`. -/
theorem apply_startPending {r r' : RunMetadata} {t : Transition} (h : t.apply r = .ok r')
    (hs : r'.state = .startPending) : r.state = .startPending := by
  cases t with
  | applyStatus expected status now =>
    rcases applyStatus_cases h with ⟨rfl, -⟩ | ⟨-, hv, -, next, rfl, -, rfl⟩
    · exact hs
    have hb := SemanticRunStatusValidator.isBackendState_of_validate hv
    split at hs
    · simp at hs
    · rw [show status.state = .startPending from hs] at hb
      simp [RunState.isBackendState] at hb
  | fail code message now =>
    rcases fail_cases h with rfl | ⟨-, rfl⟩
    · exact hs
    · simp at hs
  | dispatchUnknown code now =>
    rcases dispatchUnknown_cases h with ⟨rfl, -⟩ | ⟨-, rfl⟩
    · exact hs
    · simp at hs
  | cancel expected now =>
    obtain ⟨m, hm, rfl⟩ := map_eq_ok.mp h
    rcases cancel_cases hm with e | ⟨hl, -⟩ | ⟨-, -, -, e⟩
    · rwa [e] at hs
    · exact hl
    · simp [e] at hs
  | deliver generation now =>
    rcases deliver_cases h with rfl | ⟨-, rfl⟩
    · exact hs
    · exact hs
  | finalizeCancellation version generation now =>
    rcases finalizeCancellation_cases h with ⟨rfl, -⟩ | ⟨-, rfl⟩
    · exact hs
    · simp at hs
  | feedback request subject now =>
    obtain ⟨p, hp, rfl⟩ := map_eq_ok.mp h
    rw [feedback_cases hp] at hs
    exact hs

/-- A write that cancels the run without the backend found no dispatch row. -/
theorem Written.unclaimed {op : Op} {db db' : Database} (h : Written db op db')
    (hclaimed : db.dispatch = true → db.state ≠ some .startPending)
    (hc : CancelledWithoutBackend ⟨op, db, db'⟩) : db'.dispatch = false := by
  obtain ⟨hbefore, hafter, hop⟩ := hc
  cases h with
  | created h => simp [Database.state, create] at hafter
  | status h ht => exact absurd rfl (hop _ _)
  | @cancelled expected stored result now h ht =>
    have hafter : result.run.state = .cancelled := by simpa [Database.state] using hafter
    rcases cancel_cases ht with e | ⟨hl, -⟩ | ⟨-, -, -, e⟩
    · exact absurd (by rw [← e, hafter] : stored.state = .cancelled) (by simpa [Database.state, h] using hbefore)
    · by_contra hrow
      exact hclaimed (by simpa using hrow) (by simp [Database.state, h, hl])
    · simp [e] at hafter
  | @finalized version generation stored updated now h hrow ht =>
    rcases finalizeCancellation_cases ht with ⟨-, hs⟩ | ⟨hs, -⟩
    · exact absurd (by simp [Database.state, h, hs]) hbefore
    · rcases hrow with hrow | hterm
      · exact hrow
      · simp [hs, RunState.isTerminal] at hterm
  | @claimed stored updated now h hrec hrow ht =>
    have hafter : updated.state = .cancelled := by simpa [Database.state] using hafter
    rcases dispatchUnknown_cases ht with ⟨rfl, -⟩ | ⟨-, rfl⟩
    · simp [hafter, RunState.requiresStartReconciliation] at hrec
    · simp at hafter
  | @marked _ stored updated t h ht hop' =>
    have hnow : updated.state = .cancelled := by simpa [Database.state] using hafter
    have hold : stored.state ≠ .cancelled := by simpa [Database.state, h] using hbefore
    rcases hop' with ⟨code, message, now, rfl⟩ | ⟨code, now, rfl⟩ | ⟨generation, now, rfl⟩
    · rcases fail_cases ht with rfl | ⟨-, rfl⟩
      · exact absurd hnow hold
      · simp at hnow
    · rcases dispatchUnknown_cases ht with ⟨rfl, -⟩ | ⟨-, rfl⟩
      · exact absurd hnow hold
      · simp at hnow
    · rcases deliver_cases ht with rfl | ⟨-, rfl⟩ <;> exact absurd hnow hold

theorem Written.consistent {op : Op} {db db' : Database} {trace : List (Entry Op Database)} (h : Written db op db')
    (hc : Consistent db trace) : Consistent db' (trace ++ [⟨op, db, db'⟩]) := by
  have hnew : CancelledWithoutBackend ⟨op, db, db'⟩ → db'.dispatch = false ∧ db'.state = some .cancelled :=
    fun e => ⟨h.unclaimed hc.claimed e, e.2.1⟩
  rcases h.transition with ⟨hnone, hrow, id, request, subject, now, hrun⟩ | ⟨stored, updated, t, hs, ht, hrun⟩
  · have hrow : db'.dispatch = false := hrow.trans (hc.uncreated hnone)
    refine ⟨by simp [hrun], fun r hr => ?_, by simp [hrow], fun ⟨entry, hmem, he⟩ => ?_⟩
    · rw [hrun] at hr
      obtain rfl := Option.some.inj hr
      exact create_inv id request subject now
    · rcases List.mem_append.mp hmem with hmem | hmem
      · have := (hc.cancelled ⟨entry, hmem, he⟩).2
        simp [Database.state, hnone] at this
      · exact hnew (List.mem_singleton.mp hmem ▸ he)
  have hinv := hc.inv stored hs
  have hstep : step stored t = updated := by simp [step, ht]
  refine ⟨by simp [hrun], fun r hr => ?_, fun hrow hstate => ?_, fun ⟨entry, hmem, he⟩ => ?_⟩
  · rw [hrun] at hr
    obtain rfl := Option.some.inj hr
    exact hstep ▸ step_inv hinv t
  · -- A claimed record was not `startPending` before, or the claim itself moved it on.
    have hupdated : updated.state = .startPending := by simpa [Database.state, hrun] using hstate
    have hold := apply_startPending ht hupdated
    rcases h.dispatch with hd | ⟨-, -, claimed, -, -, hclaimed, hst⟩
    · exact hc.claimed (hd ▸ hrow) (by simp [Database.state, hs, hold])
    · obtain rfl := Option.some.inj (hrun.symm.trans hclaimed)
      simp [hst] at hupdated
  · rcases List.mem_append.mp hmem with hmem | hmem
    · obtain ⟨hrow, hstate⟩ := hc.cancelled ⟨entry, hmem, he⟩
      have hold : stored.state = .cancelled := by simpa [Database.state, hs] using hstate
      have hsame := step_outcome hinv t (by simp [hold, RunState.isTerminal])
      rw [hstep] at hsame
      refine ⟨?_, by simp [Database.state, hrun, hsame.1, hold]⟩
      rcases h.dispatch with hd | ⟨-, stored', -, hs', hrec, -, -⟩
      · rw [hd, hrow]
      · obtain rfl := Option.some.inj (hs.symm.trans hs')
        simp [hold, RunState.requiresStartReconciliation] at hrec
    · exact hnew (List.mem_singleton.mp hmem ▸ he)

theorem consistent_execute (op : Op) (env : Environment) (db : Database) (trace : List (Entry Op Database))
    (h : Consistent db trace) :
    Consistent (execute op env db).1 (trace ++ [⟨op, db, (execute op env db).1⟩]) := by
  rcases execute_written op env db with hsame | hw
  · rw [hsame]
    refine ⟨h.uncreated, h.inv, h.claimed, fun ⟨entry, hmem, he⟩ => ?_⟩
    rcases List.mem_append.mp hmem with hmem | hmem
    · exact h.cancelled ⟨entry, hmem, he⟩
    · obtain rfl := List.mem_singleton.mp hmem
      exact absurd he.2.1 he.1
  · exact hw.consistent h

/-- The system before the run exists. -/
def idle : World Op Database Op.Result := ⟨⟨none, false⟩, [], []⟩

/-- The calls of `StartAsync` so far. -/
def startCalls (trace : List (Entry Op Database)) : Nat := spent callsStart trace

theorem consistent_run (moves : List (Move Op Environment Op.Result)) :
    Consistent (idle.run execute moves).store (idle.run execute moves).trace := by
  refine World.run_invariant (P := Consistent) ⟨fun _ => rfl, by simp [idle], by simp [idle], by simp [idle]⟩ ?_ moves
  exact consistent_execute

/-- However any number of requests on one run interleave, fail and are dropped, the backend
    is started at most once, and not at all for a run that is cancelled without it. -/
theorem start_at_most_once (moves : List (Move Op Environment Op.Result))
    (h : World.Spawns ControlApiEndpoints.Endpoint moves) :
    startCalls (idle.run execute moves).trace ≤ 1 ∧
    ((∃ entry ∈ (idle.run execute moves).trace, CancelledWithoutBackend entry) →
      startCalls (idle.run execute moves).trace = 0) := by
  have hgranted : startCalls (idle.run execute moves).trace ≤ granted (idle.run execute moves).store :=
    spent_le_granted granted_execute (fun p hp => ControlApiEndpoints.within_endpoint hp) _ h
  constructor
  · refine hgranted.trans ?_
    unfold granted
    split <;> omega
  · intro hcancelled
    have hrow := ((consistent_run moves).cancelled hcancelled).1
    simpa [granted, hrow] using hgranted

/-- Two requests for the same run race to the claim; the loser asks for the status. -/
def racingCreates : List (Move Op Environment Op.Result) :=
  let create := ControlApiEndpoints.createRun (fun _ => false) (fun _ => Fin.last 15) quarterlyRequest "analyst"
  let env : Environment := ⟨10, .none, .ok (runningSince 9)⟩
  [.spawn create, .spawn create, .step 0 env, .step 1 env, .step 0 env, .step 1 env, .step 0 env, .step 1 env,
    .step 0 env, .step 1 env, .step 0 env, .step 1 env]

theorem racingCreates_start_once :
    startCalls (idle.run execute racingCreates).trace ≤ 1 ∧
    startCalls (idle.run execute racingCreates).trace = 1 := by
  refine ⟨(start_at_most_once racingCreates ?_).1, by decide +kernel⟩
  intro p hp
  have : p = ControlApiEndpoints.createRun (fun _ => false) (fun _ => Fin.last 15) quarterlyRequest "analyst" := by
    simpa [racingCreates] using hp
  rw [this]
  exact .createRun _ _ _ _

end DataNexus.Control
