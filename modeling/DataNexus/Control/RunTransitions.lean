/-
  DataNexus.Control.RunTransitions — the run record's life (`Persistence/RunTransitions.cs`).

  Each transition is a pure function of the stored record, its arguments and the clock;
  it returns the next record or throws. `step` is what a store sees: a transition that
  throws leaves the record it was given. `run` is a whole history from `create`.

  The record's state and its cancellation fields move together (`Inv`): the generation
  counts at most one request, a terminal run has nothing pending, and a run whose start
  has not been reconciled has no start timestamp. Every effective transition is an
  `Advance`: one version up, a written start timestamp kept, a terminal outcome kept.
-/

import DataNexus.Control.RunModels

namespace DataNexus.Control.RunTransitions

open Lib

def create (id : String) (request : CreateRunRequest) (subject : String) (now : DateTimeOffset) : RunMetadata where
  id := id
  clientRequestId := request.clientRequestId
  workload := request.workload
  question := request.question
  evaluationClock := request.evaluationClock
  evaluationTimezone := request.evaluationTimezone
  compilationMode := request.compilationMode
  executionMode := request.executionMode
  outputMode := request.outputMode
  createdBy := subject
  state := .startPending
  cancellationDelivery := .notRequested
  cancellationGeneration := 0
  createdAt := now
  updatedAt := now
  startedAt := none
  completedAt := none
  version := 1
  stages := []
  tokenUsage := ⟨0, 0⟩
  diagnostics := []

/-- `checked(value + 1)`. -/
def checkedSucc (value : Int) : Except ControlError Int :=
  if value < longMax then .ok (value + 1) else .error .overflow

@[simp] theorem checkedSucc_eq_ok {v w : Int} : checkedSucc v = .ok w ↔ v < longMax ∧ v + 1 = w := by
  unfold checkedSucc
  split <;> simp [*]

def checkVersion (current : RunMetadata) (expected : Option Int) : Except ControlError Unit :=
  match expected with
  | none => .ok ()
  | some expected =>
    refuseIf (current.version != expected) (.optimisticConcurrency
      s!"Run version {expected} is stale; current version is {current.version}.")

def checkGeneration (current : RunMetadata) (expected : Option Int) : Except ControlError Unit :=
  match expected with
  | none => .ok ()
  | some expected =>
    refuseIf (current.cancellationGeneration != expected) (.optimisticConcurrency
      s!"Cancellation generation {expected} is stale; current generation is {current.cancellationGeneration}.")

/-- A terminal observation settles a pending cancellation delivery. -/
def settledDelivery (delivery : CancellationDeliveryState) : CancellationDeliveryState :=
  if delivery = .pending then .delivered else delivery

def applyStatus (current : RunMetadata) (expected : Int) (status : SemanticRunStatus) (now : DateTimeOffset) :
    Except ControlError RunMetadata := do
  SemanticRunStatusValidator.validate status current.id
  checkVersion current (some expected)
  let next := if current.state = .cancelRequested ∧ status.state.isTerminal = false then
    .cancelRequested else status.state
  refuseIf (!current.state.canTransitionTo next) (.invalidRunTransition current.state next)
  if current.state.isTerminal then
    return current
  let started := current.startedAt.or status.startedAt
  refuseIf (status.finalizedAt.any fun finalized => started.any (finalized < ·))
    (SemanticRunStatusValidator.invalid
      "The semantic backend finalized the run before its persisted start timestamp.")
  let version ← checkedSucc current.version
  return { current with
    state := next
    cancellationDelivery :=
      if status.state.isTerminal then settledDelivery current.cancellationDelivery else current.cancellationDelivery
    updatedAt := now
    startedAt := started
    completedAt := if status.state.isTerminal then status.finalizedAt else none
    version := version
    stages := status.stages
    tokenUsage := status.tokenUsage
    diagnostics := status.diagnostics }

/-- `AppendLocalDiagnostic`; `none` is the list it was given (`ReferenceEquals`). -/
def appendLocalDiagnostic (diagnostics : List DiagnosticSummary) (diagnostic : DiagnosticSummary) :
    Option (List DiagnosticSummary) :=
  if diagnostics.length ≥ SemanticRunStatusValidator.maximumDiagnostics ||
      diagnostics.getLast?.any (·.code == diagnostic.code) then none
  else some (diagnostics ++ [diagnostic])

def fail (current : RunMetadata) (code message : String) (now : DateTimeOffset) : Except ControlError RunMetadata := do
  if current.state.isTerminal then
    return current
  let version ← checkedSucc current.version
  return { current with
    state := .failed
    cancellationDelivery := settledDelivery current.cancellationDelivery
    updatedAt := now
    startedAt := some (current.startedAt.getD current.createdAt)
    completedAt := some now
    version := version
    diagnostics := (appendLocalDiagnostic current.diagnostics ⟨code, message, none, now⟩).getD current.diagnostics }

def dispatchUnknown (current : RunMetadata) (code : String) (now : DateTimeOffset) :
    Except ControlError RunMetadata := do
  if !current.state.requiresStartReconciliation then
    return current
  let diagnostics := appendLocalDiagnostic current.diagnostics
    ⟨code, "Semantic start dispatch outcome is unknown and requires reconciliation.", none, now⟩
  if current.state = .dispatchUnknown ∧ diagnostics = none then
    return current
  let version ← checkedSucc current.version
  return { current with
    state := .dispatchUnknown
    updatedAt := now
    version := version
    diagnostics := diagnostics.getD current.diagnostics }

structure MutationResult where
  run : RunMetadata
  changed : Bool
  requiresDispatch : Bool
  cancellationGeneration : Int

def cancel (current : RunMetadata) (expected : Option Int) (now : DateTimeOffset) :
    Except ControlError MutationResult := do
  if current.state = .cancelRequested ∨ current.state = .cancelled ∨
      (current.state.isTerminal = true ∧ current.cancellationGeneration > 0 ∧
        current.cancellationDelivery = .delivered) then
    return ⟨current, false, current.cancellationDelivery == .pending, current.cancellationGeneration⟩
  refuseIf current.state.isTerminal (.invalidRunTransition current.state .cancelRequested)
  checkVersion current expected
  let isLocal := current.state == .startPending
  let generation ← checkedSucc current.cancellationGeneration
  let version ← checkedSucc current.version
  let updated := { current with
    state := if isLocal then .cancelled else .cancelRequested
    cancellationDelivery := if isLocal then .delivered else .pending
    cancellationGeneration := generation
    updatedAt := now
    startedAt := if isLocal then some current.createdAt else current.startedAt
    completedAt := if isLocal then some now else current.completedAt
    version := version }
  return ⟨updated, true, !isLocal, updated.cancellationGeneration⟩

def deliver (current : RunMetadata) (generation : Int) (now : DateTimeOffset) : Except ControlError RunMetadata := do
  checkGeneration current (some generation)
  if current.cancellationDelivery = .delivered then
    return current
  refuseIf (current.cancellationDelivery != .pending)
    (.invalidOperation "Cancellation delivery can only be acknowledged for a pending generation.")
  let version ← checkedSucc current.version
  return { current with cancellationDelivery := .delivered, updatedAt := now, version := version }

def finalizeCancellation (current : RunMetadata) (version generation : Option Int) (now : DateTimeOffset) :
    Except ControlError RunMetadata := do
  if current.state = .cancelled ∧ current.cancellationDelivery = .delivered then
    return current
  checkVersion current version
  checkGeneration current generation
  refuseIf (current.state != .cancelRequested) (.invalidRunTransition current.state .cancelled)
  let version ← checkedSucc current.version
  return { current with
    state := .cancelled
    cancellationDelivery := .delivered
    updatedAt := now
    startedAt := some (current.startedAt.getD current.createdAt)
    completedAt := some now
    version := version }

def feedback (current : RunMetadata) (request : SubmitFeedbackRequest) (subject : String) (now : DateTimeOffset) :
    Except ControlError (RunMetadata × RunFeedback) := do
  checkVersion current (some request.expectedRunVersion)
  let version ← checkedSucc current.version
  let updated := { current with updatedAt := now, version := version }
  return (updated, ⟨request.submissionId, current.id, request.rating, request.outcome, request.reasonCodes,
    subject, now, updated.version⟩)

/-! ## Histories -/

/-- A transition with its arguments; each reads the clock once. -/
inductive Transition where
  | applyStatus (expected : Int) (status : SemanticRunStatus) (now : DateTimeOffset)
  | fail (code message : String) (now : DateTimeOffset)
  | dispatchUnknown (code : String) (now : DateTimeOffset)
  | cancel (expected : Option Int) (now : DateTimeOffset)
  | deliver (generation : Int) (now : DateTimeOffset)
  | finalizeCancellation (version generation : Option Int) (now : DateTimeOffset)
  | feedback (request : SubmitFeedbackRequest) (subject : String) (now : DateTimeOffset)

/-- The record a transition returns. -/
def Transition.apply (current : RunMetadata) : Transition → Except ControlError RunMetadata
  | .applyStatus expected status now => RunTransitions.applyStatus current expected status now
  | .fail code message now => RunTransitions.fail current code message now
  | .dispatchUnknown code now => RunTransitions.dispatchUnknown current code now
  | .cancel expected now => MutationResult.run <$> RunTransitions.cancel current expected now
  | .deliver generation now => RunTransitions.deliver current generation now
  | .finalizeCancellation version generation now => RunTransitions.finalizeCancellation current version generation now
  | .feedback request subject now => Prod.fst <$> RunTransitions.feedback current request subject now

/-- The run version a transition was told. -/
def Transition.expected : Transition → Option Int
  | .applyStatus expected _ _ => some expected
  | .cancel expected _ => expected
  | .finalizeCancellation version _ _ => version
  | .feedback request _ _ => some request.expectedRunVersion
  | .fail .. | .dispatchUnknown .. | .deliver .. => none

/-- What the store holds after the transition: the returned record, or the old one if it threw. -/
def step (current : RunMetadata) (t : Transition) : RunMetadata :=
  match t.apply current with
  | .ok next => next
  | .error _ => current

def run (start : RunMetadata) (ts : List Transition) : RunMetadata := ts.foldl step start

/-! ## What a transition can do -/

structure Inv (r : RunMetadata) : Prop where
  generation : (r.cancellationGeneration = 0 ∧ r.cancellationDelivery = .notRequested) ∨
    (r.cancellationGeneration = 1 ∧ r.cancellationDelivery ≠ .notRequested)
  settled : r.state.isTerminal = true → r.cancellationDelivery ≠ .pending
  requested : r.state = .cancelRequested → r.cancellationGeneration = 1
  unrequested : r.state.isTerminal = false → r.state ≠ .cancelRequested → r.cancellationGeneration = 0
  unstarted : r.state.requiresStartReconciliation = true → r.startedAt = none

/-- The fields that carry a finished run's outcome. -/
def SameOutcome (r r' : RunMetadata) : Prop :=
  r'.state = r.state ∧ r'.startedAt = r.startedAt ∧ r'.completedAt = r.completedAt ∧ r'.stages = r.stages ∧
    r'.tokenUsage = r.tokenUsage ∧ r'.diagnostics = r.diagnostics

structure Advance (r r' : RunMetadata) : Prop where
  inv : Inv r'
  version : r'.version = r.version + 1
  started : ∀ t, r.startedAt = some t → r'.startedAt = some t
  outcome : r.state.isTerminal = true → SameOutcome r r'

theorem SameOutcome.refl (r : RunMetadata) : SameOutcome r r := ⟨rfl, rfl, rfl, rfl, rfl, rfl⟩

theorem SameOutcome.trans {a b c : RunMetadata} (h : SameOutcome a b) (h' : SameOutcome b c) : SameOutcome a c := by
  obtain ⟨h1, h2, h3, h4, h5, h6⟩ := h
  obtain ⟨k1, k2, k3, k4, k5, k6⟩ := h'
  exact ⟨k1.trans h1, k2.trans h2, k3.trans h3, k4.trans h4, k5.trans h5, k6.trans h6⟩

theorem create_inv (id : String) (request : CreateRunRequest) (subject : String) (now : DateTimeOffset) :
    Inv (create id request subject now) where
  generation := .inl ⟨rfl, rfl⟩
  settled h := nomatch h
  requested h := nomatch h
  unrequested _ _ := rfl
  unstarted _ := rfl

theorem settledDelivery_ne_pending (d : CancellationDeliveryState) : settledDelivery d ≠ .pending := by
  cases d <;> simp [settledDelivery]

theorem settledDelivery_notRequested {d : CancellationDeliveryState} :
    settledDelivery d = .notRequested ↔ d = .notRequested := by
  cases d <;> simp [settledDelivery]

theorem requiresStartReconciliation_of_isBackendState {s : RunState} (h : s.isBackendState = true) :
    s.requiresStartReconciliation = false ∧ s ≠ .cancelRequested := by
  cases s <;> simp_all [RunState.isBackendState, RunState.requiresStartReconciliation]

/-! Each transition read backwards: it returned the record it was given, or its guards held
    and the result is the updated record. -/

theorem applyStatus_cases {r r' : RunMetadata} {expected : Int} {status : SemanticRunStatus} {now : DateTimeOffset}
    (h : applyStatus r expected status now = .ok r') :
    (r' = r ∧ r.state.isTerminal = true) ∨
    (r.state.isTerminal = false ∧ SemanticRunStatusValidator.validate status r.id = .ok () ∧
      (∀ finalized started, status.finalizedAt = some finalized → r.startedAt.or status.startedAt = some started →
        started ≤ finalized) ∧
      ∃ next, next = (if r.state = .cancelRequested ∧ status.state.isTerminal = false then
          RunState.cancelRequested else status.state) ∧ r.state.canTransitionTo next = true ∧
        r' = { r with
          state := next
          cancellationDelivery :=
            if status.state.isTerminal then settledDelivery r.cancellationDelivery else r.cancellationDelivery
          updatedAt := now
          startedAt := r.startedAt.or status.startedAt
          completedAt := if status.state.isTerminal then status.finalizedAt else none
          version := r.version + 1
          stages := status.stages
          tokenUsage := status.tokenUsage
          diagnostics := status.diagnostics }) := by
  simp only [applyStatus, bind_eq_ok, refuseIf_eq_ok] at h
  obtain ⟨_, hv, _, -, _, hcan, h⟩ := h
  split at h
  · rename_i hterm
    exact .inl ⟨(pure_eq_ok.mp h).symm, hterm⟩
  rename_i hterm
  simp only [bind_eq_ok, checkedSucc_eq_ok, pure_eq_ok, refuseIf_eq_ok] at h
  obtain ⟨_, hfin, _, ⟨-, rfl⟩, rfl⟩ := h
  refine .inr ⟨by simpa using hterm, hv, ?_, _, rfl, by simpa using hcan, rfl⟩
  intro finalized started hf hs
  simpa [hf, hs] using hfin

theorem fail_cases {r r' : RunMetadata} {code message : String} {now : DateTimeOffset}
    (h : fail r code message now = .ok r') :
    r' = r ∨ (r.state.isTerminal = false ∧ r' = { r with
      state := .failed
      cancellationDelivery := settledDelivery r.cancellationDelivery
      updatedAt := now
      startedAt := some (r.startedAt.getD r.createdAt)
      completedAt := some now
      version := r.version + 1
      diagnostics := (appendLocalDiagnostic r.diagnostics ⟨code, message, none, now⟩).getD r.diagnostics }) := by
  simp only [fail] at h
  split at h
  · exact .inl (pure_eq_ok.mp h).symm
  rename_i hterm
  simp only [bind_eq_ok, checkedSucc_eq_ok, pure_eq_ok] at h
  obtain ⟨_, ⟨-, rfl⟩, rfl⟩ := h
  exact .inr ⟨by simpa using hterm, rfl⟩

theorem dispatchUnknown_cases {r r' : RunMetadata} {code : String} {now : DateTimeOffset}
    (h : dispatchUnknown r code now = .ok r') :
    (r' = r ∧ (r.state.requiresStartReconciliation = false ∨ r.state = .dispatchUnknown)) ∨
    (r.state.requiresStartReconciliation = true ∧ r' = { r with
      state := .dispatchUnknown
      updatedAt := now
      version := r.version + 1
      diagnostics := (appendLocalDiagnostic r.diagnostics
        ⟨code, "Semantic start dispatch outcome is unknown and requires reconciliation.", none, now⟩).getD
          r.diagnostics }) := by
  simp only [dispatchUnknown] at h
  split at h
  · rename_i hrec
    exact .inl ⟨(pure_eq_ok.mp h).symm, .inl (by simpa using hrec)⟩
  rename_i hrec
  split at h
  · rename_i hsame
    exact .inl ⟨(pure_eq_ok.mp h).symm, .inr hsame.1⟩
  simp only [bind_eq_ok, checkedSucc_eq_ok, pure_eq_ok] at h
  obtain ⟨_, ⟨-, rfl⟩, rfl⟩ := h
  exact .inr ⟨by simpa using hrec, rfl⟩

/-- An effective cancellation: on the spot if nothing was dispatched, else a request. -/
theorem cancel_cases {r : RunMetadata} {m : MutationResult} {expected : Option Int} {now : DateTimeOffset}
    (h : cancel r expected now = .ok m) :
    m.run = r ∨
    (r.state = .startPending ∧ m.run = { r with
      state := .cancelled
      cancellationDelivery := .delivered
      cancellationGeneration := r.cancellationGeneration + 1
      updatedAt := now
      startedAt := some r.createdAt
      completedAt := some now
      version := r.version + 1 }) ∨
    (r.state.isTerminal = false ∧ r.state ≠ .startPending ∧ r.state ≠ .cancelRequested ∧ m.run = { r with
      state := .cancelRequested
      cancellationDelivery := .pending
      cancellationGeneration := r.cancellationGeneration + 1
      updatedAt := now
      version := r.version + 1 }) := by
  simp only [cancel] at h
  split at h
  · exact .inl (by rw [← pure_eq_ok.mp h])
  rename_i hno
  simp only [bind_eq_ok, checkedSucc_eq_ok, pure_eq_ok, refuseIf_eq_ok] at h
  obtain ⟨_, hterm, _, -, g, ⟨-, rfl⟩, _, ⟨-, rfl⟩, rfl⟩ := h
  by_cases hl : r.state = .startPending
  · exact .inr (.inl ⟨hl, by simp [hl]⟩)
  · exact .inr (.inr ⟨hterm, hl, fun e => hno (.inl e), by simp [hl]⟩)

theorem deliver_cases {r r' : RunMetadata} {generation : Int} {now : DateTimeOffset}
    (h : deliver r generation now = .ok r') :
    r' = r ∨ (r.cancellationDelivery = .pending ∧
      r' = { r with cancellationDelivery := .delivered, updatedAt := now, version := r.version + 1 }) := by
  simp only [deliver, bind_eq_ok] at h
  obtain ⟨_, -, h⟩ := h
  split at h
  · exact .inl (pure_eq_ok.mp h).symm
  simp only [bind_eq_ok, checkedSucc_eq_ok, pure_eq_ok, refuseIf_eq_ok, bne_eq_false_iff_eq] at h
  obtain ⟨_, hp, _, ⟨-, rfl⟩, rfl⟩ := h
  exact .inr ⟨hp, rfl⟩

theorem finalizeCancellation_cases {r r' : RunMetadata} {version generation : Option Int} {now : DateTimeOffset}
    (h : finalizeCancellation r version generation now = .ok r') :
    (r' = r ∧ r.state = .cancelled) ∨ (r.state = .cancelRequested ∧ r' = { r with
      state := .cancelled
      cancellationDelivery := .delivered
      updatedAt := now
      startedAt := some (r.startedAt.getD r.createdAt)
      completedAt := some now
      version := r.version + 1 }) := by
  simp only [finalizeCancellation] at h
  split at h
  · rename_i hc
    exact .inl ⟨(pure_eq_ok.mp h).symm, hc.1⟩
  simp only [bind_eq_ok, checkedSucc_eq_ok, pure_eq_ok, refuseIf_eq_ok, bne_eq_false_iff_eq] at h
  obtain ⟨_, -, _, -, _, hc, _, ⟨-, rfl⟩, rfl⟩ := h
  exact .inr ⟨hc, rfl⟩

theorem feedback_cases {r : RunMetadata} {p : RunMetadata × RunFeedback} {request : SubmitFeedbackRequest}
    {subject : String} {now : DateTimeOffset} (h : feedback r request subject now = .ok p) :
    p.1 = { r with updatedAt := now, version := r.version + 1 } := by
  simp only [feedback, bind_eq_ok, checkedSucc_eq_ok, pure_eq_ok] at h
  obtain ⟨_, -, _, ⟨-, rfl⟩, rfl⟩ := h
  rfl

theorem checkVersion_eq_ok {r : RunMetadata} {expected : Option Int} {u : Unit} :
    checkVersion r expected = .ok u ↔ ∀ v, expected = some v → v = r.version := by
  cases expected with
  | none => simp [checkVersion]
  | some expected =>
    simp only [checkVersion, refuseIf_eq_ok, bne_eq_false_iff_eq, Option.some.injEq, forall_eq']
    exact eq_comm

theorem checkGeneration_eq_ok {r : RunMetadata} {expected : Option Int} {u : Unit} :
    checkGeneration r expected = .ok u ↔ ∀ g, expected = some g → g = r.cancellationGeneration := by
  cases expected with
  | none => simp [checkGeneration]
  | some expected =>
    simp only [checkGeneration, refuseIf_eq_ok, bne_eq_false_iff_eq, Option.some.injEq, forall_eq']
    exact eq_comm

/-- A cancellation is finalized at the version and the generation that were told. -/
theorem finalizeCancellation_expected {r r' : RunMetadata} {version generation : Option Int} {now : DateTimeOffset}
    (h : finalizeCancellation r version generation now = .ok r') (hc : r.state ≠ .cancelled) :
    (∀ v, version = some v → v = r.version) ∧ ∀ g, generation = some g → g = r.cancellationGeneration := by
  simp only [finalizeCancellation, hc, false_and, if_false, bind_eq_ok] at h
  obtain ⟨_, hversion, _, hgeneration, -⟩ := h
  exact ⟨checkVersion_eq_ok.mp hversion, checkGeneration_eq_ok.mp hgeneration⟩

/-- A transition that changes the record moves the version by one, and only from the version it
    was told. -/
theorem apply_changes {r r' : RunMetadata} {t : Transition} (h : t.apply r = .ok r') :
    r' = r ∨ (r'.version = r.version + 1 ∧ ∀ v, t.expected = some v → v = r.version) := by
  cases t with
  | applyStatus expected status now =>
    have hv : ∀ v, some expected = some v → v = r.version := by
      simp only [Transition.apply, applyStatus, bind_eq_ok] at h
      obtain ⟨_, -, _, hv, -⟩ := h
      exact checkVersion_eq_ok.mp hv
    rcases applyStatus_cases h with ⟨rfl, -⟩ | ⟨-, -, -, next, -, -, rfl⟩
    · exact .inl rfl
    · exact .inr ⟨rfl, hv⟩
  | fail code message now =>
    rcases fail_cases h with rfl | ⟨-, rfl⟩
    · exact .inl rfl
    · exact .inr ⟨rfl, fun v hv => by cases hv⟩
  | dispatchUnknown code now =>
    rcases dispatchUnknown_cases h with ⟨rfl, -⟩ | ⟨-, rfl⟩
    · exact .inl rfl
    · exact .inr ⟨rfl, fun v hv => by cases hv⟩
  | cancel expected now =>
    simp only [Transition.apply, map_eq_ok] at h
    obtain ⟨m, h, rfl⟩ := h
    simp only [RunTransitions.cancel] at h
    split at h
    · obtain rfl := pure_eq_ok.mp h
      exact .inl rfl
    · simp only [bind_eq_ok, checkedSucc_eq_ok, pure_eq_ok] at h
      obtain ⟨_, -, _, hv, _, -, _, ⟨-, rfl⟩, rfl⟩ := h
      exact .inr ⟨rfl, checkVersion_eq_ok.mp hv⟩
  | deliver generation now =>
    rcases deliver_cases h with rfl | ⟨-, rfl⟩
    · exact .inl rfl
    · exact .inr ⟨rfl, fun v hv => by cases hv⟩
  | finalizeCancellation version generation now =>
    simp only [Transition.apply, RunTransitions.finalizeCancellation] at h
    split at h
    · exact .inl (pure_eq_ok.mp h).symm
    · simp only [bind_eq_ok, checkedSucc_eq_ok, pure_eq_ok] at h
      obtain ⟨_, hv, _, -, _, -, _, ⟨-, rfl⟩, rfl⟩ := h
      exact .inr ⟨rfl, checkVersion_eq_ok.mp hv⟩
  | feedback request subject now =>
    simp only [Transition.apply, RunTransitions.feedback, map_eq_ok, bind_eq_ok, checkedSucc_eq_ok, pure_eq_ok] at h
    obtain ⟨_, ⟨_, hv, _, ⟨-, rfl⟩, rfl⟩, rfl⟩ := h
    exact .inr ⟨rfl, checkVersion_eq_ok.mp hv⟩

theorem applyStatus_advance {r r' : RunMetadata} (hi : Inv r) {expected : Int} {status : SemanticRunStatus}
    {now : DateTimeOffset} (h : applyStatus r expected status now = .ok r') : r' = r ∨ Advance r r' := by
  rcases applyStatus_cases h with ⟨rfl, -⟩ | ⟨hterm, hv, -, next, rfl, -, rfl⟩
  · exact .inl rfl
  obtain ⟨hrec, hne⟩ := requiresStartReconciliation_of_isBackendState
    (SemanticRunStatusValidator.isBackendState_of_validate hv)
  right
  refine ⟨?_, rfl, fun t e => by simp [e], fun e => by simp [hterm] at e⟩
  by_cases hc : r.state = .cancelRequested ∧ status.state.isTerminal = false
  · -- A live status of a run being cancelled: the request stays.
    have hg := hi.requested hc.1
    refine ⟨?_, ?_, ?_, ?_, ?_⟩ <;> rw [if_pos hc]
    · simpa [hc.2] using hi.generation
    · simp [RunState.isTerminal]
    · exact fun _ => hg
    · simp
    · simp [RunState.requiresStartReconciliation]
  refine ⟨?_, ?_, ?_, ?_, ?_⟩ <;> simp only [if_neg hc]
  · rcases hi.generation with ⟨hg, hd⟩ | ⟨hg, hd⟩
    · exact .inl ⟨hg, by simp [hd, settledDelivery]⟩
    · refine .inr ⟨hg, ?_⟩
      split
      · simpa [settledDelivery_notRequested] using hd
      · exact hd
  · intro hs
    simpa [hs] using settledDelivery_ne_pending _
  · exact fun e => absurd e hne
  · intro hs _
    exact hi.unrequested hterm fun e => hc ⟨e, hs⟩
  · simp [hrec]

theorem fail_advance {r r' : RunMetadata} (hi : Inv r) {code message : String} {now : DateTimeOffset}
    (h : fail r code message now = .ok r') : r' = r ∨ Advance r r' := by
  rcases fail_cases h with rfl | ⟨hterm, rfl⟩
  · exact .inl rfl
  refine .inr ⟨⟨?_, ?_, ?_, ?_, ?_⟩, rfl, fun t e => by simp [e], fun e => by simp [hterm] at e⟩
  · simpa [settledDelivery_notRequested] using hi.generation
  · exact fun _ => settledDelivery_ne_pending _
  · simp
  · simp [RunState.isTerminal]
  · simp [RunState.requiresStartReconciliation]

theorem dispatchUnknown_advance {r r' : RunMetadata} (hi : Inv r) {code : String} {now : DateTimeOffset}
    (h : dispatchUnknown r code now = .ok r') : r' = r ∨ Advance r r' := by
  rcases dispatchUnknown_cases h with ⟨rfl, -⟩ | ⟨hrec, rfl⟩
  · exact .inl rfl
  have hlive : r.state.isTerminal = false ∧ r.state ≠ .cancelRequested := by
    revert hrec
    cases r.state <;> simp [RunState.requiresStartReconciliation, RunState.isTerminal]
  refine .inr ⟨⟨hi.generation, ?_, ?_, ?_, ?_⟩, rfl, fun t e => e, fun e => by simp [hlive.1] at e⟩
  · simp [RunState.isTerminal]
  · simp
  · exact fun _ _ => hi.unrequested hlive.1 hlive.2
  · exact fun _ => hi.unstarted hrec

theorem cancel_advance {r : RunMetadata} {m : MutationResult} (hi : Inv r) {expected : Option Int}
    {now : DateTimeOffset} (h : cancel r expected now = .ok m) : m.run = r ∨ Advance r m.run := by
  rcases cancel_cases h with h | ⟨hl, h⟩ | ⟨hterm, hl, hc, h⟩
  · exact .inl h
  · have hterm : r.state.isTerminal = false := by simp [hl, RunState.isTerminal]
    have hg : r.cancellationGeneration = 0 := hi.unrequested hterm (by simp [hl])
    have hst : r.startedAt = none := hi.unstarted (by simp [hl, RunState.requiresStartReconciliation])
    rw [h]
    -- A run still waiting to be dispatched has no start timestamp to overwrite.
    refine .inr ⟨⟨.inr ?_, ?_, ?_, ?_, ?_⟩, rfl, fun t e => by simp [hst] at e, fun e => by simp [hterm] at e⟩ <;>
      simp [hg, RunState.isTerminal, RunState.requiresStartReconciliation]
  · have hg : r.cancellationGeneration = 0 := hi.unrequested hterm hc
    rw [h]
    refine .inr ⟨⟨.inr ?_, ?_, ?_, ?_, ?_⟩, rfl, fun t e => e, fun e => by simp [hterm] at e⟩ <;>
      simp [hg, RunState.isTerminal, RunState.requiresStartReconciliation]

theorem deliver_advance {r r' : RunMetadata} (hi : Inv r) {generation : Int} {now : DateTimeOffset}
    (h : deliver r generation now = .ok r') : r' = r ∨ Advance r r' := by
  rcases deliver_cases h with rfl | ⟨hp, rfl⟩
  · exact .inl rfl
  have hg : r.cancellationGeneration = 1 := by
    rcases hi.generation with ⟨-, hd⟩ | ⟨hg, -⟩
    · simp [hp] at hd
    · exact hg
  refine .inr ⟨⟨.inr ⟨hg, by simp⟩, by simp, fun _ => hg, ?_, hi.unstarted⟩, rfl, fun t e => e, fun _ => .refl r⟩
  intro hs hc
  simp [hi.unrequested hs hc] at hg

theorem finalizeCancellation_advance {r r' : RunMetadata} (hi : Inv r) {version generation : Option Int}
    {now : DateTimeOffset} (h : finalizeCancellation r version generation now = .ok r') :
    r' = r ∨ Advance r r' := by
  rcases finalizeCancellation_cases h with ⟨rfl, -⟩ | ⟨hc, rfl⟩
  · exact .inl rfl
  refine .inr ⟨⟨.inr ⟨hi.requested hc, by simp⟩, by simp, by simp, ?_, ?_⟩, rfl, fun t e => by simp [e], ?_⟩
  · simp [RunState.isTerminal]
  · simp [RunState.requiresStartReconciliation]
  · simp [hc, RunState.isTerminal]

theorem feedback_advance {r : RunMetadata} {p : RunMetadata × RunFeedback} (hi : Inv r)
    {request : SubmitFeedbackRequest} {subject : String} {now : DateTimeOffset}
    (h : feedback r request subject now = .ok p) : Advance r p.1 := by
  rw [feedback_cases h]
  exact ⟨⟨hi.generation, hi.settled, hi.requested, hi.unrequested, hi.unstarted⟩, rfl, fun _ e => e, fun _ => .refl r⟩

theorem apply_advance {r r' : RunMetadata} (hi : Inv r) {t : Transition} (h : t.apply r = .ok r') :
    r' = r ∨ Advance r r' := by
  cases t with
  | applyStatus expected status now => exact applyStatus_advance hi h
  | fail code message now => exact fail_advance hi h
  | dispatchUnknown code now => exact dispatchUnknown_advance hi h
  | cancel expected now =>
    obtain ⟨m, hm, rfl⟩ := map_eq_ok.mp h
    exact cancel_advance hi hm
  | deliver generation now => exact deliver_advance hi h
  | finalizeCancellation version generation now => exact finalizeCancellation_advance hi h
  | feedback request subject now =>
    obtain ⟨p, hp, rfl⟩ := map_eq_ok.mp h
    exact .inr (feedback_advance hi hp)

/-- One transition, thrown or not: the record as it was, or one version on. -/
theorem step_cases {r : RunMetadata} (hi : Inv r) (t : Transition) :
    step r t = r ∨ (t.apply r = .ok (step r t) ∧ Advance r (step r t)) := by
  unfold step
  split
  · rename_i next h
    exact (apply_advance hi h).imp id fun hadv => ⟨h, hadv⟩
  · exact .inl rfl

/-! ## What a history preserves -/

theorem step_inv {r : RunMetadata} (hi : Inv r) (t : Transition) : Inv (step r t) := by
  rcases step_cases hi t with h | ⟨-, h⟩
  · rwa [h]
  · exact h.inv

theorem run_inv {r : RunMetadata} (hi : Inv r) (ts : List Transition) : Inv (run r ts) :=
  ts.foldlRecOn step hi fun _ h t _ => step_inv h t

theorem step_started {r : RunMetadata} (hi : Inv r) (t : Transition) {s : DateTimeOffset}
    (h : r.startedAt = some s) : (step r t).startedAt = some s := by
  rcases step_cases hi t with e | ⟨-, e⟩
  · rwa [e]
  · exact e.started s h

theorem step_outcome {r : RunMetadata} (hi : Inv r) (t : Transition) (h : r.state.isTerminal = true) :
    SameOutcome r (step r t) := by
  rcases step_cases hi t with e | ⟨-, e⟩
  · rw [e]; exact .refl r
  · exact e.outcome h

theorem run_started {r : RunMetadata} (hi : Inv r) (ts : List Transition) {s : DateTimeOffset}
    (h : r.startedAt = some s) : (run r ts).startedAt = some s := by
  induction ts generalizing r with
  | nil => exact h
  | cons t ts ih => exact ih (step_inv hi t) (step_started hi t h)

theorem run_outcome {r : RunMetadata} (hi : Inv r) (ts : List Transition) (h : r.state.isTerminal = true) :
    SameOutcome r (run r ts) := by
  induction ts generalizing r with
  | nil => exact .refl r
  | cons t ts ih =>
    have hs := step_outcome hi t h
    exact hs.trans (ih (step_inv hi t) (by rw [hs.1]; exact h))

theorem run_append (r : RunMetadata) (ts us : List Transition) : run r (ts ++ us) = run (run r ts) us := by
  simp [run]

/-- The version never goes back, and a history that leaves it where it was changed nothing. -/
theorem run_version {r : RunMetadata} (hi : Inv r) (ts : List Transition) :
    r.version ≤ (run r ts).version ∧ ((run r ts).version = r.version → run r ts = r) := by
  induction ts generalizing r with
  | nil => exact ⟨le_refl _, fun _ => rfl⟩
  | cons t ts ih =>
    show r.version ≤ (run (step r t) ts).version ∧ ((run (step r t) ts).version = r.version → run (step r t) ts = r)
    have hrest := ih (step_inv hi t)
    rcases step_cases hi t with h | ⟨-, h⟩
    · rw [h] at hrest ⊢
      exact hrest
    · have hup := h.version
      exact ⟨by omega, fun he => by omega⟩

/-- The records of one history, in order: one for each prefix of it. -/
def Recorded (start : RunMetadata) (ts : List Transition) (r : RunMetadata) : Prop := ∃ k, r = run start (ts.take k)

/-- Of two records of one history, the one with the version no higher comes first. -/
theorem Recorded.later {start r r' : RunMetadata} {ts : List Transition} (hi : Inv start) (h : Recorded start ts r)
    (h' : Recorded start ts r') (hle : r.version ≤ r'.version) : ∃ later, r' = run r later := by
  obtain ⟨j, rfl⟩ := h
  obtain ⟨k, rfl⟩ := h'
  have hleading : ∀ m n, m ≤ n → run start (ts.take n) = run (run start (ts.take m)) ((ts.take n).drop m) := by
    intro m n hmn
    have htake : ts.take m = (ts.take n).take m := by rw [List.take_take, Nat.min_eq_left hmn]
    rw [← run_append, htake, List.take_append_drop]
  rcases Nat.le_total j k with hjk | hkj
  · exact ⟨_, hleading j k hjk⟩
  · have hback := run_version (run_inv hi (ts.take k)) ((ts.take j).drop k)
    rw [← hleading k j hkj] at hback
    exact ⟨[], (hback.2 (by omega)).symm⟩

theorem Recorded.inv {start r : RunMetadata} {ts : List Transition} (hi : Inv start) (h : Recorded start ts r) : Inv r := by
  obtain ⟨k, rfl⟩ := h
  exact run_inv hi _

/-- One record for each version. -/
theorem Recorded.unique {start r r' : RunMetadata} {ts : List Transition} (hi : Inv start) (h : Recorded start ts r)
    (h' : Recorded start ts r') (hv : r.version = r'.version) : r = r' := by
  obtain ⟨later, rfl⟩ := h.later hi h' hv.le
  exact ((run_version (h.inv hi) later).2 hv.symm).symm

/-- The state of a terminal record is that of every later one. -/
theorem Recorded.terminal {start r r' : RunMetadata} {ts : List Transition} (hi : Inv start) (h : Recorded start ts r)
    (h' : Recorded start ts r') (hterm : r.state.isTerminal = true) (hle : r.version ≤ r'.version) :
    r'.state = r.state := by
  obtain ⟨later, rfl⟩ := h.later hi h' hle
  exact (run_outcome (h.inv hi) later hterm).1

/-- Every history of a run made by `create`: a terminal outcome never changes, the
    cancellation fields agree with each other and with the state, the start timestamp
    is written once, and a transition either moves the version by one or changes nothing. -/
theorem run_laws (id : String) (request : CreateRunRequest) (subject : String) (now : DateTimeOffset)
    (ts : List Transition) :
    let r := run (create id request subject now) ts
    (r.state.isTerminal = true → ∀ later, SameOutcome r (run r later)) ∧
    ((r.cancellationGeneration = 0 ∨ r.cancellationGeneration = 1) ∧
      (r.cancellationGeneration = 0 ↔ r.cancellationDelivery = .notRequested)) ∧
    (r.state.isTerminal = true → r.cancellationDelivery ≠ .pending) ∧
    (r.state = .cancelRequested → r.cancellationGeneration = 1) ∧
    (∀ s, r.startedAt = some s → ∀ later, (run r later).startedAt = some s) ∧
    (∀ t, step r t ≠ r → (step r t).version = r.version + 1) ∧
    (∀ t e, t.apply r = .error e → step r t = r) := by
  intro r
  have hi : Inv r := run_inv (create_inv id request subject now) ts
  refine ⟨fun h later => run_outcome hi later h, ⟨?_, ?_⟩, hi.settled, hi.requested,
    fun s h later => run_started hi later h, fun t hne => ?_, fun t e h => by simp [step, h]⟩
  · rcases hi.generation with ⟨h, -⟩ | ⟨h, -⟩ <;> simp [h]
  · rcases hi.generation with ⟨h, hd⟩ | ⟨h, hd⟩ <;> simp [h, hd]
  · rcases step_cases hi t with h | ⟨-, h⟩
    · exact absurd h hne
    · exact h.version

end DataNexus.Control.RunTransitions
