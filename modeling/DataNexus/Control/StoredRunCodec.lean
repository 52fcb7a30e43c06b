/-
  DataNexus.Control.StoredRunCodec — what the store reads back (`Persistence/StoredRunCodec.cs`,
  `WithRun` of `Persistence/PostgresRunRepository.cs`, and the request checks of
  `Endpoints/ControlApiEndpoints.cs` that a record's fixed fields come from).

  The codec decodes a record and checks it once more, the state mapped to one a backend
  could report. `WithRun` reads through the codec, applies a transition and sends the result
  through the codec again before it writes. Encoding and decoding are the identity here: a
  record is its JSON, and what JSON cannot carry (an undefined enum value, a null) no record
  has.

  A transition stamps local times on a record that holds the backend's. `Timely` says when
  that is harmless: the clock has reached the recorded start when the run is closed locally,
  and a local diagnostic fits the limits. `Storable` is the invariant; `stored_run_accepted`
  is a whole history.
-/

import DataNexus.Control.RunTransitions

namespace DataNexus.Control

open Lib SemanticRunStatusValidator

/-! ## Identifiers -/

/-- `char.IsAsciiLetterOrDigit(c) || c is '-' or '_' or '.'`. -/
def identifierCharacter (c : Char) : Bool := c.isAlphanum || c == '-' || c == '_' || c == '.'

/-- `StoredRunCodec.Identifier`; the endpoint spells the same check out twice. -/
def identifier (value : String) : Bool :=
  !isNullOrWhiteSpace value && utf16Length value ≤ 64 && value.toList.head?.any Char.isAlphanum &&
    value.toList.all identifierCharacter

namespace RunId

def isLowerHex (value : List Char) : Bool :=
  value.all fun c => (c.isDigit || ('a' ≤ c && c ≤ 'f') || ('A' ≤ c && c ≤ 'F')) && !c.isUpper

def tryParse (s : String) : Bool :=
  utf16Length s == 36 && "run_".toList.isPrefixOf s.toList && isLowerHex (s.toList.drop 4)

/-- One digit of `Guid.ToString("N")`. -/
def hexDigit (d : Fin 16) : Char := ("0123456789abcdef".toList).get (d.cast (by decide))

/-- `RunId.New()` on the 32 digits of a fresh GUID. -/
def new (guid : Fin 32 → Fin 16) : String := String.ofList ("run_".toList ++ List.ofFn fun i => hexDigit (guid i))

end RunId

/-! ## Requests -/

namespace ControlApiEndpoints

def isCanonicalIanaSegment (segment : List Char) : Bool :=
  1 ≤ segment.length && segment.length ≤ 14 && segment.head?.any Char.isAlpha &&
    segment.all fun c => c.isAlphanum || c == '_' || c == '-' || c == '+'

def isIanaTimeZone (value : String) : Bool :=
  value == "UTC" ||
    (value != "" && utf16Length value ≤ 100 &&
      let segments := value.toList.splitOn '/'
      2 ≤ segments.length && segments.all isCanonicalIanaSegment)

/-- `Validate(CreateRunRequest)`: the code and text of the first problem. `disallowed` is
    the categories `HasDisallowedUnicodeCategory` looks up. -/
def validate (disallowed : Char → Bool) (request : CreateRunRequest) : Except (String × String) Unit := do
  refuseIf (!identifier request.clientRequestId)
    ("invalid_client_request_id", "ClientRequestId must contain 1-64 ASCII letters, digits, '.', '-', or '_'.")
  refuseIf (!identifier request.workload)
    ("invalid_workload", "Workload must contain 1-64 ASCII letters, digits, '.', '-', or '_'.")
  refuseIf (isNullOrWhiteSpace request.question || request.question.toList.length > 4000 ||
      request.question.toList.any disallowed)
    ("invalid_question", "Question must contain between 1 and 4000 characters.")
  refuseIf (request.evaluationClock == 0)
    ("invalid_evaluation_clock", "EvaluationClock must be a timezone-aware timestamp.")
  refuseIf (!isIanaTimeZone request.evaluationTimezone)
    ("invalid_evaluation_timezone", "EvaluationTimezone must be a valid IANA time zone name.")

end ControlApiEndpoints

/-! ## The codec and the store -/

inductive RepositoryError where
  | storageCorruption
  | runNotFound
  | idempotencyConflict (message : String)
  | dispatchRecoveryRequired
  | transition (error : ControlError)
  deriving DecidableEq

namespace StoredRunCodec

/-- The state a record is validated in: one the backend could report. -/
def validationState (run : RunMetadata) : RunState :=
  if run.state = .startPending ∨ run.state = .dispatchUnknown ∨ run.state = .cancelRequested then
    if run.startedAt.isNone then .queued else .running
  else run.state

def wellFormed (run : RunMetadata) : Bool :=
  RunId.tryParse run.id && identifier run.clientRequestId && identifier run.workload &&
  !isNullOrWhiteSpace run.createdBy &&
  !isNullOrWhiteSpace run.question && utf16Length run.question ≤ 8000 &&
  run.evaluationClock != 0 && !isNullOrWhiteSpace run.evaluationTimezone &&
  utf16Length run.evaluationTimezone ≤ 100 &&
  1 ≤ run.version && 0 ≤ run.cancellationGeneration && run.createdAt != 0 && run.updatedAt != 0 &&
  ((run.cancellationGeneration == 0) == (run.cancellationDelivery == .notRequested)) &&
  !(run.state == .cancelRequested && run.cancellationGeneration == 0) &&
  !(run.state.isTerminal && run.cancellationDelivery == .pending)

def validationStatus (run : RunMetadata) : SemanticRunStatus where
  runId := run.id
  state := validationState run
  startedAt := run.startedAt
  finalizedAt := run.completedAt
  stages := run.stages
  tokenUsage := run.tokenUsage
  diagnostics := run.diagnostics

def run (run : RunMetadata) : Except RepositoryError RunMetadata := do
  refuseIf (!wellFormed run) .storageCorruption
  match validate (validationStatus run) run.id with
  | .ok _ => return run
  | .error _ => .error .storageCorruption

end StoredRunCodec

namespace PostgresRunRepository

def readRun (stored : RunMetadata) (id : String) : Except RepositoryError RunMetadata := do
  let run ← StoredRunCodec.run stored
  refuseIf (run.id != id) .storageCorruption
  return run

/-- `WithRun` on the row it has locked: the record it leaves in the row, and the result. -/
def withRun {T : Type} (stored : RunMetadata) (id : String)
    (action : RunMetadata → Except RepositoryError (RunMetadata × T)) : Except RepositoryError (RunMetadata × T) := do
  let current ← readRun stored id
  let result ← action current
  if result.1 ≠ current then
    let _ ← StoredRunCodec.run result.1
  return result

/-- `Mutate`: a transition, and its record as the result. -/
def mutate (stored : RunMetadata) (id : String) (t : RunTransitions.Transition) :
    Except RepositoryError (RunMetadata × RunMetadata) :=
  withRun stored id fun current => do
    let updated ← (t.apply current).mapError .transition
    return (updated, updated)

end PostgresRunRepository

/-! ## What a request and a fresh identifier bring -/

theorem isWhiteSpace_of_isAlphanum {c : Char} (h : c.isAlphanum = true) : isWhiteSpace c = false := by
  have hv : c.val.toNat = c.toNat := rfl
  have hc : (48 ≤ c.toNat ∧ c.toNat ≤ 57) ∨ (65 ≤ c.toNat ∧ c.toNat ≤ 90) ∨ (97 ≤ c.toNat ∧ c.toNat ≤ 122) := by
    simp only [Char.isAlphanum, Char.isAlpha, Char.isUpper, Char.isLower, Char.isDigit, Bool.or_eq_true,
      Bool.and_eq_true, decide_eq_true_eq, UInt32.le_iff_toNat_le, ge_iff_le] at h
    change (((65 ≤ c.toNat ∧ c.toNat ≤ 90) ∨ (97 ≤ c.toNat ∧ c.toNat ≤ 122)) ∨
      (48 ≤ c.toNat ∧ c.toNat ≤ 57)) at h
    tauto
  simp only [isWhiteSpace, hv, Bool.or_eq_false_iff, Bool.and_eq_false_iff, beq_eq_false_iff_ne,
    decide_eq_false_iff_not]
  omega

/-- A text that starts with a letter or digit is not blank. -/
theorem isNullOrWhiteSpace_of_head {s : String} {p : Char → Bool} (hp : ∀ c, p c = true → c.isAlphanum = true)
    (h : s.toList.head?.any p = true) : isNullOrWhiteSpace s = false := by
  unfold isNullOrWhiteSpace
  cases hs : s.toList with
  | nil => simp [hs] at h
  | cons c cs =>
    have hc : p c = true := by simpa [hs] using h
    simp [isWhiteSpace_of_isAlphanum (hp c hc)]

theorem utf16Length_le (s : String) : utf16Length s ≤ 2 * s.toList.length := by
  unfold utf16Length
  induction s.toList with
  | nil => simp
  | cons c cs ih =>
    simp only [List.map_cons, List.sum_cons, List.length_cons]
    split <;> omega

theorem RunId.tryParse_new (guid : Fin 32 → Fin 16) : RunId.tryParse (RunId.new guid) = true := by
  have hdigit : ∀ d : Fin 16, ((hexDigit d).isDigit || ('a' ≤ hexDigit d && hexDigit d ≤ 'f') ||
      ('A' ≤ hexDigit d && hexDigit d ≤ 'F')) = true ∧ (hexDigit d).isUpper = false ∧
      (hexDigit d).val < 0x10000 := by decide
  have hlist : (new guid).toList = "run_".toList ++ List.ofFn fun i => hexDigit (guid i) := String.toList_ofList
  unfold tryParse
  rw [Bool.and_eq_true, Bool.and_eq_true, beq_iff_eq, hlist]
  refine ⟨⟨?_, List.isPrefixOf_iff_prefix.mpr (List.prefix_append _ _)⟩, ?_⟩
  · rw [utf16Length, hlist, List.map_append, List.map_ofFn, List.sum_append]
    have hones : List.ofFn ((fun c : Char => if c.val < 0x10000 then 1 else 2) ∘ fun i => hexDigit (guid i)) =
        List.ofFn fun _ : Fin 32 => 1 := by
      congr 1
      funext i
      exact if_pos (hdigit (guid i)).2.2
    rw [hones]
    decide
  · have hdrop : ∀ l : List Char, ("run_".toList ++ l).drop 4 = l := fun _ => rfl
    simp only [isLowerHex, hdrop, List.all_eq_true]
    intro c hc
    obtain ⟨i, rfl⟩ := List.mem_ofFn.mp hc
    rw [(hdigit (guid i)).1, (hdigit (guid i)).2.1]
    rfl

/-- The fixed fields of a record, as the codec wants them. -/
structure Header (r : RunMetadata) : Prop where
  id : RunId.tryParse r.id = true
  clientRequestId : identifier r.clientRequestId = true
  workload : identifier r.workload = true
  createdBy : isNullOrWhiteSpace r.createdBy = false
  question : isNullOrWhiteSpace r.question = false ∧ utf16Length r.question ≤ 8000
  evaluationClock : r.evaluationClock ≠ 0
  evaluationTimezone : isNullOrWhiteSpace r.evaluationTimezone = false ∧ utf16Length r.evaluationTimezone ≤ 100
  createdAt : 0 < r.createdAt

theorem ControlApiEndpoints.timezone_of_isIanaTimeZone {value : String} (h : isIanaTimeZone value = true) :
    isNullOrWhiteSpace value = false ∧ utf16Length value ≤ 100 := by
  simp only [isIanaTimeZone, Bool.or_eq_true, beq_iff_eq, Bool.and_eq_true, decide_eq_true_eq] at h
  rcases h with rfl | ⟨⟨-, hlen⟩, -, hseg⟩
  · decide
  refine ⟨?_, hlen⟩
  -- The first segment starts the text, and it starts with a letter.
  refine isNullOrWhiteSpace_of_head (p := Char.isAlpha) (fun c hc => by simp [Char.isAlphanum, hc]) ?_
  cases hv : value.toList with
  | nil => simp [hv, isCanonicalIanaSegment] at hseg
  | cons c cs =>
    rw [hv, List.splitOn, List.splitOnP_cons_eq_if_modifyHead] at hseg
    split at hseg
    · simp [isCanonicalIanaSegment] at hseg
    · cases hs : cs.splitOnP (· == '/') with
      | nil => exact absurd hs (List.splitOnP_ne_nil _ _)
      | cons seg segs =>
        simp only [hs, List.modifyHead_cons, List.all_cons, isCanonicalIanaSegment, List.head?_cons,
          Option.any_some, Bool.and_eq_true] at hseg
        exact hseg.1.1.2

theorem header_create {disallowed : Char → Bool} {request : CreateRunRequest} {subject : String}
    {now : DateTimeOffset} (guid : Fin 32 → Fin 16) (hreq : ControlApiEndpoints.validate disallowed request = .ok ())
    (hsub : isNullOrWhiteSpace subject = false) (hnow : 0 < now) :
    Header (RunTransitions.create (RunId.new guid) request subject now) := by
  simp only [ControlApiEndpoints.validate, bind_eq_ok, refuseIf_eq_ok, Bool.not_eq_false', Bool.or_eq_false_iff,
    decide_eq_false_iff_not, beq_eq_false_iff_ne] at hreq
  obtain ⟨_, hid, _, hw, _, ⟨⟨hq, hlen⟩, -⟩, _, hc, hz⟩ := hreq
  have hle := utf16Length_le request.question
  refine ⟨RunId.tryParse_new guid, hid, hw, hsub, ⟨hq, ?_⟩, hc, ControlApiEndpoints.timezone_of_isIanaTimeZone hz, hnow⟩
  show utf16Length request.question ≤ 8000
  omega

/-! ## The invariant -/

/-- Everything the codec asks of a record, and what keeps it true: the record was made by
    `clock`. -/
structure Storable (clock : DateTimeOffset) (r : RunMetadata) : Prop where
  header : Header r
  inv : RunTransitions.Inv r
  version : 1 ≤ r.version
  created : r.createdAt ≤ clock
  updated : 0 < r.updatedAt
  timeline : Timeline r.state r.startedAt r.completedAt
  content : Content r.stages r.tokenUsage r.diagnostics

theorem timeline_validationState {r : RunMetadata} (h : Timeline r.state r.startedAt r.completedAt) :
    (StoredRunCodec.validationState r).isBackendState = true ∧
      Timeline (StoredRunCodec.validationState r) r.startedAt r.completedAt := by
  unfold StoredRunCodec.validationState
  split
  · rename_i hs
    have hopen : r.completedAt = none := h.unclosed (by rcases hs with e | e | e <;> simp [e, RunState.isTerminal])
    cases hst : r.startedAt with
    | none => exact ⟨rfl, by simp [RunState.isTerminal], fun _ => hopen, fun _ => rfl, by simp⟩
    | some s => exact ⟨rfl, by simp [RunState.isTerminal], fun _ => hopen, by simp, by simp⟩
  · rename_i hs
    refine ⟨?_, h⟩
    revert hs
    cases r.state <;> simp [RunState.isBackendState]

/-- The codec accepts every storable record. -/
theorem Storable.accepted {clock : DateTimeOffset} {r : RunMetadata} (h : Storable clock r) :
    StoredRunCodec.run r = .ok r := by
  have hwf : StoredRunCodec.wellFormed r = true := by
    obtain ⟨h1, h2, h3, h4, ⟨h5, h6⟩, h7, ⟨h8, h9⟩, h10⟩ := h.header
    have hcreated : r.createdAt ≠ 0 := ne_of_gt h10
    have hupdated : r.updatedAt ≠ 0 := ne_of_gt h.updated
    have hgen : 0 ≤ r.cancellationGeneration ∧
        (r.cancellationGeneration = 0 ↔ r.cancellationDelivery = .notRequested) := by
      rcases h.inv.generation with ⟨hg, hd⟩ | ⟨hg, hd⟩ <;> simp [hg, hd]
    have hreq : r.state = .cancelRequested → r.cancellationGeneration ≠ 0 := by
      intro e
      simp [h.inv.requested e]
    have hset := h.inv.settled
    simp only [StoredRunCodec.wellFormed, h1, h2, h3, h4, h5, h6, h8, h9, h.version, hgen.1, Bool.and_eq_true,
      Bool.not_eq_true', bne_iff_ne, decide_eq_true_eq, beq_iff_eq, Bool.and_eq_false_iff, beq_eq_false_iff_ne,
      Bool.not_false, ne_eq, hcreated, hupdated, h7, not_false_eq_true, and_true, true_and]
    refine ⟨⟨?_, ?_⟩, ?_⟩
    · rw [Bool.eq_iff_iff]
      simpa using hgen.2
    · by_cases e : r.state = .cancelRequested
      · exact .inr (hreq e)
      · exact .inl e
    · cases e : r.state.isTerminal with
      | false => exact .inl rfl
      | true => exact .inr (hset e)
  obtain ⟨hs, ht⟩ := timeline_validationState h.timeline
  have hv : validate (StoredRunCodec.validationStatus r) r.id = .ok () :=
    validate_eq_ok.mpr ⟨rfl, hs, validateRunTimeline_of_timeline hs ht, h.content⟩
  simp [StoredRunCodec.run, hwf, hv]

theorem storable_create {disallowed : Char → Bool} {request : CreateRunRequest} {subject : String}
    {now : DateTimeOffset} (guid : Fin 32 → Fin 16) (hreq : ControlApiEndpoints.validate disallowed request = .ok ())
    (hsub : isNullOrWhiteSpace subject = false) (hnow : 0 < now) :
    Storable now (RunTransitions.create (RunId.new guid) request subject now) where
  header := header_create guid hreq hsub hnow
  inv := RunTransitions.create_inv _ _ _ _
  version := by simp [RunTransitions.create]
  created := le_refl now
  updated := hnow
  timeline := ⟨by simp [RunTransitions.create, RunState.isTerminal], fun _ => rfl, fun _ => rfl,
    by simp [RunTransitions.create]⟩
  content := ⟨rfl, ⟨by simp [RunTransitions.create], by simp [RunTransitions.create]⟩,
    by simp [RunTransitions.create], by simp [RunTransitions.create]⟩

/-! ## What keeps it -/

/-- A time the transition may be stamped with. -/
theorem Storable.stamp {clock now : DateTimeOffset} {r : RunMetadata} (h : Storable clock r) (hle : clock ≤ now) :
    r.createdAt ≤ now ∧ 0 < now :=
  ⟨h.created.trans hle, h.header.createdAt.trans_le (h.created.trans hle)⟩

/-- The diagnostic a local transition appends, if it appends one, is one the validator takes. -/
def AppendFits (diagnostics : List DiagnosticSummary) (d : DiagnosticSummary) : Prop :=
  (RunTransitions.appendLocalDiagnostic diagnostics d).isSome = true → validateDiagnostic d = .ok ()

/-- The local clock has reached the record's start. -/
def Reached (r : RunMetadata) (now : DateTimeOffset) : Prop := ∀ s ∈ r.startedAt, s ≤ now

/-- A transition that goes through and closes the run locally does so once the clock has reached
    the recorded start, and a local diagnostic is within the limits. -/
def Timely (r : RunMetadata) : RunTransitions.Transition → Prop
  | .fail code message now => r.state.isTerminal = false →
      Reached r now ∧ AppendFits r.diagnostics ⟨code, message, none, now⟩
  | .dispatchUnknown code now => r.state.requiresStartReconciliation = true →
      AppendFits r.diagnostics
        ⟨code, "Semantic start dispatch outcome is unknown and requires reconciliation.", none, now⟩
  | .finalizeCancellation version generation now =>
    r.state = .cancelRequested ∧ (∀ v ∈ version, v = r.version) ∧ (∀ g ∈ generation, g = r.cancellationGeneration) →
      Reached r now
  | _ => True

instance (diagnostics : List DiagnosticSummary) (d : DiagnosticSummary) : Decidable (AppendFits diagnostics d) :=
  inferInstanceAs (Decidable (_ → _))

instance (r : RunMetadata) (now : DateTimeOffset) : Decidable (Reached r now) :=
  inferInstanceAs (Decidable (∀ s ∈ r.startedAt, s ≤ now))

instance (r : RunMetadata) (t : RunTransitions.Transition) : Decidable (Timely r t) :=
  match t with
  | .fail .. => inferInstanceAs (Decidable (_ → _ ∧ _))
  | .dispatchUnknown .. => inferInstanceAs (Decidable (_ → _))
  | .finalizeCancellation .. => inferInstanceAs (Decidable (_ → _))
  | .applyStatus .. | .cancel .. | .deliver .. | .feedback .. => .isTrue trivial

namespace RunTransitions

def Transition.now : Transition → DateTimeOffset
  | .applyStatus _ _ now => now
  | .fail _ _ now => now
  | .dispatchUnknown _ now => now
  | .cancel _ now => now
  | .deliver _ now => now
  | .finalizeCancellation _ _ now => now
  | .feedback _ _ now => now

theorem content_append {r : RunMetadata} {d : DiagnosticSummary} (h : Content r.stages r.tokenUsage r.diagnostics)
    (hd : AppendFits r.diagnostics d) :
    Content r.stages r.tokenUsage ((appendLocalDiagnostic r.diagnostics d).getD r.diagnostics) := by
  refine ⟨h.usage, h.stages, ?_⟩
  unfold AppendFits at hd
  revert hd
  unfold appendLocalDiagnostic
  split
  · exact fun _ => h.diagnostics
  · rename_i hroom
    intro hd
    simp only [Bool.or_eq_true, decide_eq_true_eq, not_or, not_le] at hroom
    have hv := hd rfl
    constructor
    · simpa using hroom.1
    · intro x hx
      rcases List.mem_append.mp hx with hx | hx
      · exact h.diagnostics.2 x hx
      · rwa [List.mem_singleton.mp hx]

/-- Closed on the local clock: it has reached the start, or there is none but the creation's. -/
theorem timeline_closedNow {clock now : DateTimeOffset} {r : RunMetadata} {state : RunState} (h : Storable clock r)
    (hle : clock ≤ now) (hreach : Reached r now) (hs : state.isTerminal = true) :
    Timeline state (some (r.startedAt.getD r.createdAt)) (some now) := by
  refine ⟨fun _ => ⟨_, _, rfl, rfl, ?_⟩, by simp [hs], ?_, by simp⟩
  · cases e : r.startedAt with
    | none => exact (h.stamp hle).1
    | some s => exact hreach s e
  · intro e
    simp [e, RunState.isTerminal] at hs

theorem applyStatus_timeline {r r' : RunMetadata} (hi : Inv r) (ht : Timeline r.state r.startedAt r.completedAt)
    {expected : Int} {status : SemanticRunStatus} {now : DateTimeOffset}
    (h : applyStatus r expected status now = .ok r') : Timeline r'.state r'.startedAt r'.completedAt := by
  rcases applyStatus_cases h with ⟨rfl, -⟩ | ⟨hterm, hv, hfin, next, rfl, hcan, rfl⟩
  · exact ht
  obtain ⟨-, hb, hrt, -⟩ := validate_eq_ok.mp hv
  have hst := timeline_of_validateRunTimeline hrt
  by_cases hs : status.state.isTerminal = true
  · -- The run ends: its start, older or the status's own, is not after the end.
    obtain ⟨s, c, hs', hc, hle⟩ := hst.closed hs
    obtain ⟨started, hor⟩ : ∃ started, r.startedAt.or status.startedAt = some started := by
      cases r.startedAt <;> simp [hs']
    have hnext : ¬(r.state = .cancelRequested ∧ status.state.isTerminal = false) := by simp [hs]
    simp only [if_neg hnext]
    simp only [hs, if_true, hor, hc]
    refine ⟨fun _ => ⟨started, c, rfl, rfl, hfin c started hc hor⟩, by simp [hs], ?_, by simp⟩
    intro e
    simp [e, RunState.isTerminal] at hs
  · have hs : status.state.isTerminal = false := by simpa using hs
    simp only [hs, and_true, Bool.false_eq_true, if_false]
    by_cases hc : r.state = .cancelRequested
    · simp only [hc, if_true]
      exact ⟨by simp [RunState.isTerminal], fun _ => rfl, by simp, by simp⟩
    · simp only [if_neg hc]
      simp only [hc, false_and, if_false] at hcan
      refine ⟨by simp [hs], fun _ => rfl, ?_, ?_⟩
      · -- Only a run not yet reconciled, or queued, can become queued; neither has started.
        intro hq
        have hold : r.startedAt = none := by
          by_cases hrec : r.state.requiresStartReconciliation = true
          · exact hi.unstarted hrec
          · refine ht.queued ?_
            revert hcan hrec
            rw [hq]
            cases r.state <;>
              simp [RunState.canTransitionTo, RunState.allowedTransitions, RunState.requiresStartReconciliation]
        simp [hold, hst.queued hq]
      · intro hl
        obtain ⟨s, hs⟩ := Option.isSome_iff_exists.mp (hst.live hl)
        cases r.startedAt <;> simp [hs]

theorem apply_storable {clock : DateTimeOffset} {r r' : RunMetadata} {t : Transition} (hr : Storable clock r)
    (hclock : clock ≤ t.now) (ht : Timely r t) (h : t.apply r = .ok r') : Storable t.now r' := by
  obtain ⟨hcreated, hpos⟩ := hr.stamp hclock
  have hsame : r' = r → Storable t.now r' := by
    intro e
    rw [e]
    exact { hr with created := hcreated }
  rcases apply_advance hr.inv h with e | hadv
  · exact hsame e
  have hversion : 1 ≤ r'.version := by
    have := hr.version
    have := hadv.version
    omega
  cases t with
  | applyStatus expected status now =>
    have htl := applyStatus_timeline hr.inv hr.timeline h
    rcases applyStatus_cases h with ⟨e, -⟩ | ⟨-, hv, -, next, -, -, rfl⟩
    · exact hsame e
    exact ⟨{ hr.header with }, hadv.inv, hversion, hcreated, hpos, htl, (validate_eq_ok.mp hv).2.2.2⟩
  | fail code message now =>
    rcases fail_cases h with e | ⟨hterm, rfl⟩
    · exact hsame e
    obtain ⟨hreach, hfits⟩ := ht hterm
    exact ⟨{ hr.header with }, hadv.inv, hversion, hcreated, hpos, timeline_closedNow hr hclock hreach rfl, content_append hr.content hfits⟩
  | dispatchUnknown code now =>
    rcases dispatchUnknown_cases h with ⟨e, -⟩ | ⟨hrec, rfl⟩
    · exact hsame e
    have hlive : r.state.isTerminal = false := by
      revert hrec
      cases r.state <;> simp [RunState.requiresStartReconciliation, RunState.isTerminal]
    exact ⟨{ hr.header with }, hadv.inv, hversion, hcreated, hpos,
      ⟨by simp [RunState.isTerminal], fun _ => hr.timeline.unclosed hlive, by simp, by simp⟩, content_append hr.content (ht hrec)⟩
  | cancel expected now =>
    obtain ⟨m, hm, rfl⟩ := map_eq_ok.mp h
    rcases cancel_cases hm with e | ⟨hl, e⟩ | ⟨hlive, -, -, e⟩
    · exact hsame e
    · rw [e] at hadv hversion ⊢
      have hst : r.startedAt = none := hr.inv.unstarted (by simp [hl, RunState.requiresStartReconciliation])
      have htl : Timeline .cancelled _ (some now) := timeline_closedNow hr hclock (by simp [Reached, hst]) rfl
      exact ⟨{ hr.header with }, hadv.inv, hversion, hcreated, hpos, by simpa [hst] using htl, hr.content⟩
    · rw [e] at hadv hversion ⊢
      exact ⟨{ hr.header with }, hadv.inv, hversion, hcreated, hpos,
        ⟨by simp [RunState.isTerminal], fun _ => hr.timeline.unclosed hlive, by simp, by simp⟩, hr.content⟩
  | deliver generation now =>
    rcases deliver_cases h with e | ⟨-, rfl⟩
    · exact hsame e
    exact ⟨{ hr.header with }, hadv.inv, hversion, hcreated, hpos, hr.timeline, hr.content⟩
  | finalizeCancellation version generation now =>
    rcases finalizeCancellation_cases h with ⟨e, -⟩ | ⟨hc, rfl⟩
    · exact hsame e
    have hreach := ht ⟨hc, finalizeCancellation_expected h (by simp [hc])⟩
    exact ⟨{ hr.header with }, hadv.inv, hversion, hcreated, hpos, timeline_closedNow hr hclock hreach rfl, hr.content⟩
  | feedback request subject now =>
    obtain ⟨p, hp, rfl⟩ := map_eq_ok.mp h
    rw [feedback_cases hp] at hadv hversion ⊢
    exact ⟨{ hr.header with }, hadv.inv, hversion, hcreated, hpos, hr.timeline, hr.content⟩

theorem step_storable {clock : DateTimeOffset} {r : RunMetadata} {t : Transition} (hr : Storable clock r)
    (hclock : clock ≤ t.now) (ht : Timely r t) : Storable t.now (step r t) := by
  unfold step
  split
  · rename_i next h
    exact apply_storable hr hclock ht h
  · exact { hr with created := (hr.stamp hclock).1 }

/-- What a run of timely transitions keeps, whatever the clock reads when it starts. -/
theorem run_storable {clock : DateTimeOffset} {r : RunMetadata} {ts : List Transition} (hr : Storable clock r)
    (hclock : (clock :: ts.map Transition.now).IsChain (· ≤ ·))
    (ht : ∀ pre t post, ts = pre ++ t :: post → Timely (run r pre) t) :
    ∃ clock', Storable clock' (run r ts) ∧ ∀ t, (clock :: (ts ++ [t]).map Transition.now).IsChain (· ≤ ·) → clock' ≤ t.now := by
  induction ts generalizing clock r with
  | nil =>
    refine ⟨clock, hr, fun t h => ?_⟩
    simpa using h
  | cons t ts ih =>
    simp only [List.map_cons, List.isChain_cons_cons] at hclock
    have hstep := step_storable hr hclock.1 (ht [] t ts rfl)
    obtain ⟨clock', hr', hlast⟩ := ih hstep hclock.2 fun pre u post e => ht (t :: pre) u post (by simp [e])
    refine ⟨clock', hr', fun u h => hlast u ?_⟩
    simp only [List.cons_append, List.map_cons, List.isChain_cons_cons] at h
    exact h.2

theorem apply_id {r r' : RunMetadata} {t : Transition} (h : t.apply r = .ok r') : r'.id = r.id := by
  cases t with
  | applyStatus expected status now =>
    rcases applyStatus_cases h with ⟨rfl, -⟩ | ⟨-, -, -, next, -, -, rfl⟩ <;> rfl
  | fail code message now => rcases fail_cases h with rfl | ⟨-, rfl⟩ <;> rfl
  | dispatchUnknown code now => rcases dispatchUnknown_cases h with ⟨rfl, -⟩ | ⟨-, rfl⟩ <;> rfl
  | cancel expected now =>
    obtain ⟨m, hm, rfl⟩ := map_eq_ok.mp h
    rcases cancel_cases hm with e | ⟨-, e⟩ | ⟨-, -, -, e⟩ <;> rw [e]
  | deliver generation now => rcases deliver_cases h with rfl | ⟨-, rfl⟩ <;> rfl
  | finalizeCancellation version generation now =>
    rcases finalizeCancellation_cases h with ⟨rfl, -⟩ | ⟨-, rfl⟩ <;> rfl
  | feedback request subject now =>
    obtain ⟨p, hp, rfl⟩ := map_eq_ok.mp h
    rw [feedback_cases hp]

theorem step_id (r : RunMetadata) (t : Transition) : (step r t).id = r.id := by
  unfold step
  split
  · rename_i next h
    exact apply_id h
  · rfl

theorem run_id (r : RunMetadata) (ts : List Transition) : (run r ts).id = r.id := by
  induction ts generalizing r with
  | nil => rfl
  | cons t ts ih => exact (ih (step r t)).trans (step_id r t)

end RunTransitions

open RunTransitions

/-- On a storable record `Mutate` is the transition: the codec has nothing to say. -/
theorem PostgresRunRepository.mutate_eq {clock : DateTimeOffset} {r : RunMetadata} {t : Transition}
    (hr : Storable clock r) (hclock : clock ≤ t.now) (ht : Timely r t) :
    mutate r r.id t = ((t.apply r).map fun updated => (updated, updated)).mapError .transition := by
  have hread : readRun r r.id = .ok r := by simp [readRun, hr.accepted]
  cases h : t.apply r with
  | error e => simp [mutate, withRun, hread, h, Except.mapError, bind, Except.bind, Except.map]
  | ok next =>
    have hacc := (apply_storable hr hclock ht h).accepted
    by_cases hne : next = r <;>
      simp [mutate, withRun, hread, h, Except.mapError, bind, Except.bind, hacc, hne, pure, Except.pure, Except.map]

/-- Every history of timely transitions on a nondecreasing clock: the codec accepts each
    record of it, so each `WithRun` ends as its transition does. -/
theorem stored_run_accepted (disallowed : Char → Bool) (guid : Fin 32 → Fin 16) (request : CreateRunRequest)
    (subject : String) (now : DateTimeOffset) (ts : List Transition)
    (hreq : ControlApiEndpoints.validate disallowed request = .ok ())
    (hsub : isNullOrWhiteSpace subject = false) (hnow : 0 < now)
    (hclock : (now :: ts.map Transition.now).IsChain (· ≤ ·))
    (htimely : ∀ pre t post, ts = pre ++ t :: post →
      Timely (run (create (RunId.new guid) request subject now) pre) t) :
    let start := create (RunId.new guid) request subject now
    (∀ pre post, ts = pre ++ post → StoredRunCodec.run (run start pre) = .ok (run start pre)) ∧
    (∀ pre t post, ts = pre ++ t :: post →
      PostgresRunRepository.mutate (run start pre) start.id t =
        ((t.apply (run start pre)).map fun updated => (updated, updated)).mapError .transition ∧
      PostgresRunRepository.mutate (run start pre) start.id t ≠ .error .storageCorruption) := by
  intro start
  have hstart : Storable now start := storable_create guid hreq hsub hnow
  have hleading : ∀ pre post, ts = pre ++ post → ∃ clock, Storable clock (run start pre) ∧
      ∀ t post', post = t :: post' → clock ≤ t.now := by
    intro pre post e
    have hchain : ∀ xs ys, ts = xs ++ ys → (now :: xs.map Transition.now).IsChain (· ≤ ·) := by
      intro xs ys e
      rw [e, List.map_append, ← List.cons_append] at hclock
      exact hclock.left_of_append
    obtain ⟨clock, hr, hlast⟩ := run_storable hstart (hchain pre post e)
      fun p t q e' => htimely p t (q ++ post) (by simp [e, e'])
    refine ⟨clock, hr, fun t post' e' => hlast t (hchain (pre ++ [t]) post' (by simp [e, e']))⟩
  refine ⟨fun pre post e => ?_, fun pre t post e => ?_⟩
  · obtain ⟨clock, hr, -⟩ := hleading pre post e
    exact hr.accepted
  · obtain ⟨clock, hr, hle⟩ := hleading pre (t :: post) e
    have heq := PostgresRunRepository.mutate_eq hr (hle t post rfl) (htimely pre t post e)
    rw [run_id] at heq
    refine ⟨heq, ?_⟩
    rw [heq]
    cases t.apply (run start pre) <;> simp [Except.mapError, Except.map]

def quarterlyRequest : CreateRunRequest where
  clientRequestId := "request-1"
  workload := "retail"
  question := "Quarterly profit by region"
  evaluationClock := 5
  evaluationTimezone := "UTC"
  compilationMode := .regionalQuarterlyProfit
  executionMode := .thread
  outputMode := .normal

/-- The backend reports the run as running since `started`. -/
def runningSince (started : DateTimeOffset) : SemanticRunStatus where
  runId := RunId.new fun _ => 0
  state := .running
  startedAt := some started
  finalizedAt := none
  stages := []
  tokenUsage := ⟨0, 0⟩
  diagnostics := []

/-- A run that was created at 10, is claimed at 20, is reported running since `started`, and
    is rejected at 40. -/
def rejectedRun (started : DateTimeOffset) : List Transition :=
  [.dispatchUnknown "durable_start_dispatch_claimed" 20, .applyStatus 2 (runningSince started) 30,
    .fail "semantic_backend_rejected" "The semantic backend definitively rejected the run." 40]

theorem rejectedRun_accepted :
    let start := create (RunId.new fun _ => 0) quarterlyRequest "analyst" 10
    StoredRunCodec.run (run start (rejectedRun 25)) = .ok (run start (rejectedRun 25)) := by
  intro start
  refine (stored_run_accepted (fun _ => false) (fun _ => 0) quarterlyRequest "analyst" 10 (rejectedRun 25)
    (by decide +kernel) (by decide +kernel) (by decide) (by decide) ?_).1 _ [] (List.append_nil _).symm
  intro pre t post h
  rcases pre with _ | ⟨a, _ | ⟨b, _ | ⟨c, pre⟩⟩⟩
  · simp only [rejectedRun, List.nil_append, List.cons.injEq] at h
    obtain ⟨rfl, -⟩ := h
    decide +kernel
  · simp only [rejectedRun, List.cons_append, List.nil_append, List.cons.injEq] at h
    obtain ⟨rfl, rfl, -⟩ := h
    exact trivial
  · simp only [rejectedRun, List.cons_append, List.nil_append, List.cons.injEq] at h
    obtain ⟨rfl, rfl, rfl, -⟩ := h
    decide +kernel
  · have := congrArg List.length h
    simp [rejectedRun] at this

/-- The backend's clock is ahead: the start it reported is after the local failure, and the
    store refuses the record it is about to write. -/
theorem skewedRejection_refused :
    let start := create (RunId.new fun _ => 0) quarterlyRequest "analyst" 10
    ControlApiEndpoints.validate (fun _ => false) quarterlyRequest = .ok () ∧
    validate (runningSince 1000) start.id = .ok () ∧
    ((10 : DateTimeOffset) :: (rejectedRun 1000).map Transition.now).IsChain (· ≤ ·) ∧
    StoredRunCodec.run (run start (rejectedRun 1000)) = .error .storageCorruption ∧
    PostgresRunRepository.mutate (run start ((rejectedRun 1000).take 2)) start.id
      (.fail "semantic_backend_rejected" "The semantic backend definitively rejected the run." 40) =
        .error .storageCorruption := by
  decide +kernel

end DataNexus.Control
