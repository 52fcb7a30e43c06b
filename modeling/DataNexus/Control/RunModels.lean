/-
  DataNexus.Control.RunModels — the control API's run record and what its backend may
  say about it (`Domain/RunModels.cs`, `Contracts/ApiContracts.cs`, and
  `SemanticRunStatusValidator` of `Semantic/SemanticBackendClient.cs`).

  A `DateTimeOffset` is its instant, in ticks from 0001-01-01 UTC (C# compares them by
  instant, and `default` is tick 0). `long` is `Int` with the bound checked where the
  source says `checked`. Reference types the source does not mark nullable are never
  null here; the validator's null checks on them have nothing to reject.
-/

import DataNexus.Lib.Outcome

namespace DataNexus.Control

open Lib

inductive RunState where
  | startPending
  | dispatchUnknown
  | queued
  | starting
  | running
  | cancelRequested
  | cancelled
  | succeeded
  | failed
  deriving DecidableEq

namespace RunState

/-- `RunStateMachine.AllowedTransitions`. -/
def allowedTransitions : RunState → List RunState
  | startPending =>
    [dispatchUnknown, queued, starting, running, cancelRequested, cancelled, succeeded, failed]
  | dispatchUnknown => [queued, starting, running, cancelRequested, cancelled, succeeded, failed]
  | queued => [starting, running, cancelRequested, succeeded, failed]
  | starting => [running, cancelRequested, succeeded, failed]
  | running => [cancelRequested, succeeded, failed]
  | cancelRequested => [cancelled, succeeded, failed]
  | cancelled => []
  | succeeded => []
  | failed => []

def isTerminal : RunState → Bool
  | cancelled | succeeded | failed => true
  | _ => false

def requiresStartReconciliation : RunState → Bool
  | startPending | dispatchUnknown => true
  | _ => false

def canTransitionTo (current next : RunState) : Bool :=
  current == next || (allowedTransitions current).contains next

/-- `SemanticRunStatusValidator.IsBackendState`. -/
def isBackendState : RunState → Bool
  | queued | starting | running | cancelled | succeeded | failed => true
  | _ => false

/-- A terminal state has no way out. -/
theorem canTransitionTo_of_isTerminal {s t : RunState} (hs : s.isTerminal = true) :
    s.canTransitionTo t = true ↔ s = t := by
  cases s <;> simp_all [isTerminal, canTransitionTo, allowedTransitions]

end RunState

inductive CancellationDeliveryState where
  | notRequested
  | pending
  | delivered
  deriving DecidableEq

inductive CompilationMode where
  | regionalQuarterlyProfit
  | monthlyRegionalComparison
  deriving DecidableEq

inductive ExecutionMode where
  | thread
  deriving DecidableEq

inductive OutputMode where
  | normal
  | stream
  deriving DecidableEq

inductive FeedbackOutcome where
  | helpful
  | partiallyHelpful
  | notHelpful
  deriving DecidableEq

abbrev DateTimeOffset := Int

def longMax : Int := 2 ^ 63 - 1

structure TokenUsage where
  inputTokens : Int
  outputTokens : Int
  deriving DecidableEq

structure DiagnosticSummary where
  code : String
  message : String
  stage : Option String
  occurredAt : DateTimeOffset
  deriving DecidableEq

structure NodeSummary where
  nodeId : String
  kind : String
  state : RunState
  startedAt : Option DateTimeOffset
  completedAt : Option DateTimeOffset
  deriving DecidableEq

structure StageSummary where
  stageId : String
  name : String
  state : RunState
  startedAt : Option DateTimeOffset
  completedAt : Option DateTimeOffset
  nodes : List NodeSummary
  deriving DecidableEq

structure RunMetadata where
  id : String
  clientRequestId : String
  workload : String
  question : String
  evaluationClock : DateTimeOffset
  evaluationTimezone : String
  compilationMode : CompilationMode
  executionMode : ExecutionMode
  outputMode : OutputMode
  createdBy : String
  state : RunState
  cancellationDelivery : CancellationDeliveryState
  cancellationGeneration : Int
  createdAt : DateTimeOffset
  updatedAt : DateTimeOffset
  startedAt : Option DateTimeOffset
  completedAt : Option DateTimeOffset
  version : Int
  stages : List StageSummary
  tokenUsage : TokenUsage
  diagnostics : List DiagnosticSummary
  deriving DecidableEq

structure CreateRunRequest where
  clientRequestId : String
  workload : String
  question : String
  evaluationClock : DateTimeOffset
  evaluationTimezone : String
  compilationMode : CompilationMode
  executionMode : ExecutionMode
  outputMode : OutputMode
  deriving DecidableEq

structure SubmitFeedbackRequest where
  submissionId : String
  rating : Int
  outcome : FeedbackOutcome
  reasonCodes : List String
  expectedRunVersion : Int
  deriving DecidableEq

structure RunFeedback where
  submissionId : String
  runId : String
  rating : Int
  outcome : FeedbackOutcome
  reasonCodes : List String
  submittedBy : String
  submittedAt : DateTimeOffset
  runVersion : Int
  deriving DecidableEq

structure SemanticRunStatus where
  runId : String
  state : RunState
  startedAt : Option DateTimeOffset
  finalizedAt : Option DateTimeOffset
  stages : List StageSummary
  tokenUsage : TokenUsage
  diagnostics : List DiagnosticSummary
  deriving DecidableEq

/-- What a transition or the validator throws, with its text. -/
inductive ControlError where
  | optimisticConcurrency (message : String)
  | invalidRunTransition (current requested : RunState)
  | semanticBackend (diagnosticCode message : String)
  | invalidOperation (message : String)
  | overflow
  deriving DecidableEq

/-! ## The backend status validator -/

namespace SemanticRunStatusValidator

def maximumStages : Nat := 100
def maximumNodesPerStage : Nat := 1000
def maximumDiagnostics : Nat := 100
def maximumStatusIdentifierLength : Nat := 160

def invalid (message : String) : ControlError :=
  .semanticBackend "semantic_backend_invalid_response" message

/-- `string.Length`: UTF-16 code units. -/
def utf16Length (s : String) : Nat :=
  (s.toList.map fun c => if c.val < 0x10000 then 1 else 2).sum

/-- `char.IsWhiteSpace` on a code unit. -/
def isWhiteSpace (c : Char) : Bool :=
  let v := c.val.toNat
  v == 0x20 || (0x09 ≤ v && v ≤ 0x0D) || v == 0x85 || v == 0xA0 || v == 0x1680 ||
    (0x2000 ≤ v && v ≤ 0x200A) || v == 0x2028 || v == 0x2029 || v == 0x202F || v == 0x205F || v == 0x3000

def isNullOrWhiteSpace (s : String) : Bool := s.toList.all isWhiteSpace

def validIdentifier (value : String) (maximumLength : Nat) : Bool :=
  !isNullOrWhiteSpace value && utf16Length value ≤ maximumLength

def validLabel (value : String) : Bool := validIdentifier value 64

def validateTimeline (state : RunState) (startedAt completedAt : Option DateTimeOffset) (subject : String) :
    Except ControlError Unit :=
  if state = .queued then
    refuseIf (startedAt.isSome || completedAt.isSome)
      (invalid s!"The queued backend {subject} cannot have timestamps.")
  else
    match startedAt with
    | none => .error (invalid s!"The backend {subject} is missing its start timestamp.")
    | some started =>
      if state.isTerminal then
        refuseIf (completedAt.all (· < started))
          (invalid s!"The backend {subject} has invalid completion timestamps.")
      else
        refuseIf completedAt.isSome
          (invalid s!"The backend {subject} is active but has a completion timestamp.")

def validateRunTimeline (status : SemanticRunStatus) : Except ControlError Unit :=
  if status.state = .queued then
    refuseIf (status.startedAt.isSome || status.finalizedAt.isSome)
      (invalid "A queued run cannot have execution timestamps.")
  else validateTimeline status.state status.startedAt status.finalizedAt "run"

def validateTokenUsage (usage : TokenUsage) : Except ControlError Unit :=
  refuseIf (usage.inputTokens < 0 || usage.outputTokens < 0 || usage.inputTokens > longMax - usage.outputTokens)
    (invalid "The semantic backend returned invalid token usage.")

def validateNode (node : NodeSummary) : Except ControlError Unit := do
  refuseIf (!validIdentifier node.nodeId maximumStatusIdentifierLength || !validLabel node.kind ||
      !node.state.isBackendState) (invalid "The semantic backend returned an invalid node.")
  validateTimeline node.state node.startedAt node.completedAt "node"

def validateStage (stage : StageSummary) : Except ControlError Unit := do
  refuseIf (!validLabel stage.stageId || !validLabel stage.name || !stage.state.isBackendState ||
      stage.nodes.length > maximumNodesPerStage) (invalid "The semantic backend returned an invalid stage.")
  validateTimeline stage.state stage.startedAt stage.completedAt "stage"
  forM stage.nodes validateNode

def validateDiagnostic (diagnostic : DiagnosticSummary) : Except ControlError Unit :=
  refuseIf (!validLabel diagnostic.code || isNullOrWhiteSpace diagnostic.message ||
      utf16Length diagnostic.message > 512 || diagnostic.occurredAt == 0 ||
      diagnostic.stage.any (fun stage => utf16Length stage > 64))
    (invalid "The semantic backend returned an invalid diagnostic.")

def validate (status : SemanticRunStatus) (expectedRunId : String) : Except ControlError Unit := do
  refuseIf (status.runId != expectedRunId) (invalid "The semantic backend returned a different run ID.")
  refuseIf (!status.state.isBackendState) (invalid "The semantic backend returned an unsupported run state.")
  validateRunTimeline status
  validateTokenUsage status.tokenUsage
  refuseIf (status.stages.length > maximumStages)
    (invalid "The semantic backend returned an invalid stage collection.")
  forM status.stages validateStage
  refuseIf (status.diagnostics.length > maximumDiagnostics)
    (invalid "The semantic backend returned an invalid diagnostic collection.")
  forM status.diagnostics validateDiagnostic

/-- An accepted status carries a backend state. -/
theorem isBackendState_of_validate {status : SemanticRunStatus} {id : String}
    (h : validate status id = .ok ()) : status.state.isBackendState = true := by
  obtain ⟨_, -, _, hs, -⟩ := by simpa only [validate, bind_eq_ok] using h
  simpa using hs

/-- Stages, usage and diagnostics within the validator's limits. -/
structure Content (stages : List StageSummary) (usage : TokenUsage) (diagnostics : List DiagnosticSummary) :
    Prop where
  usage : validateTokenUsage usage = .ok ()
  stages : stages.length ≤ maximumStages ∧ ∀ stage ∈ stages, validateStage stage = .ok ()
  diagnostics : diagnostics.length ≤ maximumDiagnostics ∧ ∀ d ∈ diagnostics, validateDiagnostic d = .ok ()

theorem validate_eq_ok {status : SemanticRunStatus} {id : String} :
    validate status id = .ok () ↔ status.runId = id ∧ status.state.isBackendState = true ∧
      validateRunTimeline status = .ok () ∧ Content status.stages status.tokenUsage status.diagnostics := by
  constructor
  · intro h
    simp only [validate, bind_eq_ok, refuseIf_eq_ok, forM_eq_ok] at h
    obtain ⟨_, hid, _, hs, _, ht, _, hu, _, hl, _, hst, _, hdl, hd⟩ := h
    exact ⟨by simpa using hid, by simpa using hs, ht, hu, ⟨by simpa using hl, hst⟩, by simpa using hdl, hd⟩
  · intro h
    obtain ⟨hid, hs, ht, hc⟩ := h
    simp only [validate, bind_eq_ok, refuseIf_eq_ok, forM_eq_ok]
    exact ⟨(), by simpa using hid, (), by simpa using hs, (), ht, (), hc.usage, (), by simpa using hc.stages.1, (),
      hc.stages.2, (), by simpa using hc.diagnostics.1, hc.diagnostics.2⟩

/-- The timestamps a run's state calls for. -/
structure Timeline (state : RunState) (startedAt completedAt : Option DateTimeOffset) : Prop where
  closed : state.isTerminal = true → ∃ s c, startedAt = some s ∧ completedAt = some c ∧ s ≤ c
  unclosed : state.isTerminal = false → completedAt = none
  queued : state = .queued → startedAt = none
  live : state = .starting ∨ state = .running → startedAt.isSome = true

theorem timeline_of_validateRunTimeline {status : SemanticRunStatus}
    (h : validateRunTimeline status = .ok ()) : Timeline status.state status.startedAt status.finalizedAt := by
  unfold validateRunTimeline validateTimeline at h
  split at h
  · rename_i hq
    simp only [refuseIf_eq_ok, Bool.or_eq_false_iff, Option.isSome_eq_false_iff, Option.isNone_iff_eq_none] at h
    exact ⟨by simp [hq, RunState.isTerminal], fun _ => h.2, fun _ => h.1, by simp [hq]⟩
  rename_i hq
  split at h
  · simp at h
  rename_i started hst
  rw [hst]
  split at h
  · rename_i hterm
    simp only [refuseIf_eq_ok] at h
    refine ⟨fun _ => ?_, by simp [hterm], fun e => absurd e hq, by simp⟩
    cases hf : status.finalizedAt with
    | none => simp [hf] at h
    | some c => exact ⟨started, c, rfl, rfl, by simpa [hf] using h⟩
  · rename_i hterm
    simp only [refuseIf_eq_ok, Option.isSome_eq_false_iff, Option.isNone_iff_eq_none] at h
    exact ⟨fun e => absurd e hterm, fun _ => h, fun e => absurd e hq, by simp⟩

theorem validateRunTimeline_of_timeline {status : SemanticRunStatus} (hs : status.state.isBackendState = true)
    (h : Timeline status.state status.startedAt status.finalizedAt) : validateRunTimeline status = .ok () := by
  unfold validateRunTimeline validateTimeline
  by_cases hq : status.state = .queued
  · simp [hq, h.queued hq, h.unclosed (by simp [hq, RunState.isTerminal])]
  rw [if_neg hq, if_neg hq]
  by_cases hterm : status.state.isTerminal = true
  · obtain ⟨s, c, hs, hc, hle⟩ := h.closed hterm
    simp [hs, hc, hterm, hle]
  · have hlive : status.state = .starting ∨ status.state = .running := by
      revert hs hq hterm
      cases status.state <;> simp [RunState.isBackendState, RunState.isTerminal]
    obtain ⟨s, hst⟩ := Option.isSome_iff_exists.mp (h.live hlive)
    simp [hst, hterm, h.unclosed (by simpa using hterm)]

end SemanticRunStatusValidator

end DataNexus.Control
