/-
  DataNexus.Databricks.ProviderCancel — what an execution asks the provider to cancel.

  `provider_cancel` is called at most once in an execution, in every order of events
  (`providerCalls_le_one`). A statement that is still active when the execution gives up
  has been asked to stop, in every run that never takes one of four steps (`lost`): the
  submission is answered while the adapter drains after its own timeout with no flag set
  (that path sets none, so the callback asks for nothing); it is answered with an active
  statement and the parser raises on the answer; or, while the adapter still waits with no
  flag set, a poll fails or the client's deadline passes with `cancel_on_timeout` off.
  `late_submission_lost` is the first, `unreadable_answer_lost` the second: the execution
  leaves with the statement running and nobody told.
-/

import DataNexus.Databricks.SourceAdapter

namespace DataNexus.Databricks.SourceAdapter

/-! ## The request -/

section Request

variable (s : St) (statementId : String)

/-- A request touches the provider's task and its calls alone. -/
theorem request_frame : ∃ task calls, requestProviderCancel s statementId = { s with providerTask := task, providerCalls := calls } := by
  unfold requestProviderCancel
  split
  · exact ⟨_, _, rfl⟩
  · exact ⟨s.providerTask, s.providerCalls, rfl⟩

@[simp] theorem request_adapter : (requestProviderCancel s statementId).adapter = s.adapter := by
  obtain ⟨_, _, h⟩ := request_frame s statementId
  rw [h]

@[simp] theorem request_client : (requestProviderCancel s statementId).client = s.client := by
  obtain ⟨_, _, h⟩ := request_frame s statementId
  rw [h]

@[simp] theorem request_statement : (requestProviderCancel s statementId).statement = s.statement := by
  obtain ⟨_, _, h⟩ := request_frame s statementId
  rw [h]

@[simp] theorem request_registered : (requestProviderCancel s statementId).registered = s.registered := by
  obtain ⟨_, _, h⟩ := request_frame s statementId
  rw [h]

@[simp] theorem request_clientCancels : (requestProviderCancel s statementId).clientCancels = s.clientCancels := by
  obtain ⟨_, _, h⟩ := request_frame s statementId
  rw [h]

@[simp] theorem request_flagged : flagged (requestProviderCancel s statementId) = flagged s := by
  obtain ⟨_, _, h⟩ := request_frame s statementId
  rw [h]
  rfl

theorem request_task : (requestProviderCancel s statementId).providerTask ≠ .none := by
  unfold requestProviderCancel
  split
  · simp
  · assumption

end Request

/-! ## One call -/

/-- What the adapter knows of the statement, and the calls it has made for it. -/
structure Inv (s : St) : Prop where
  registered : ∀ statementId, s.registered = some statementId → s.statement.map Prod.fst = some statementId
  submitting : s.client = .submitting → s.statement = none
  unasked : s.providerTask = .none → s.providerCalls = []
  asked : s.providerTask ≠ .none → ∃ statementId state,
    s.statement = some (statementId, state) ∧ s.providerCalls = [statementId]

theorem init_inv : Inv init := ⟨nofun, fun _ => rfl, fun _ => rfl, fun h => absurd rfl h⟩

/-- A step that leaves the statement and the calls alone. -/
theorem Inv.frame {s t : St} (h : Inv s) (hclient : t.client = .submitting → s.client = .submitting)
    (hregistered : t.registered = s.registered) (hstatement : t.statement = s.statement)
    (htask : t.providerTask = .none ↔ s.providerTask = .none) (hcalls : t.providerCalls = s.providerCalls) :
    Inv t := by
  refine ⟨?_, ?_, ?_, ?_⟩
  · rw [hregistered, hstatement]
    exact h.registered
  · intro hc
    rw [hstatement]
    exact h.submitting (hclient hc)
  · intro ht
    rw [hcalls]
    exact h.unasked (htask.mp ht)
  · intro ht
    rw [hcalls, hstatement]
    exact h.asked (mt htask.mpr ht)

theorem Inv.request {s : St} (h : Inv s) {statementId : String} (hid : s.registered = some statementId) :
    Inv (requestProviderCancel s statementId) := by
  have hmap := h.registered statementId hid
  obtain ⟨⟨id, state⟩, hst, rfl⟩ := Option.map_eq_some_iff.mp hmap
  unfold requestProviderCancel
  split
  · next htask =>
    refine ⟨h.registered, h.submitting, (fun ht => by cases ht), fun _ => ⟨id, state, hst, ?_⟩⟩
    show s.providerCalls ++ [id] = [id]
    rw [h.unasked htask]
    rfl
  · exact h

/-- After the request the statement has been asked to stop. -/
theorem Inv.request_sent {s : St} (h : Inv s) {statementId : String} (hid : s.registered = some statementId) :
    sent (requestProviderCancel s statementId) statementId = true := by
  have hmap := h.registered statementId hid
  obtain ⟨id, state, hst, hcalls⟩ := (h.request hid).asked (request_task s statementId)
  rw [request_statement] at hst
  rw [hst] at hmap
  obtain rfl : id = statementId := Option.some.inj hmap
  unfold sent
  rw [hcalls]
  simp

theorem requestRegistered_inv {s : St} (h : Inv s) (cause : Cause) : Inv (requestRegistered s cause) := by
  unfold requestRegistered
  split
  · next hid => exact (h.request hid).frame id rfl rfl Iff.rfl rfl
  · exact h.frame id rfl rfl Iff.rfl rfl

theorem exceptCancelled_inv {s : St} (h : Inv s) : Inv (exceptCancelled s) := by
  have hset : Inv { s with localCancel := true } := h.frame id rfl rfl Iff.rfl rfl
  exact requestRegistered_inv hset .excepted

theorem adapter_inv {s : St} (h : Inv s) (adapter : AdapterPc) : Inv { s with adapter := adapter } :=
  h.frame id rfl rfl Iff.rfl rfl

theorem client_inv {s : St} (h : Inv s) {client : ClientPc} (hc : client ≠ .submitting) :
    Inv { s with client := client } :=
  h.frame (fun hc' => absurd hc' hc) rfl rfl Iff.rfl rfl

theorem interruptClient_inv {s : St} (h : Inv s) : Inv (interruptClient s) := by
  unfold interruptClient
  split
  · exact h
  · exact h
  · exact h
  · exact client_inv h (by simp)

theorem afterWait_inv {s : St} (h : Inv s) (timer accepts : Bool) : Inv (afterWait s timer accepts) := by
  unfold afterWait
  split
  · exact requestRegistered_inv h .flagged
  · split
    · exact adapter_inv h _
    · exact exceptCancelled_inv h
    · exact exceptCancelled_inv h
    · exact adapter_inv h _
    · exact adapter_inv h _
    · exact adapter_inv h _
    · split
      · exact requestRegistered_inv h .timedOut
      · exact h

theorem afterRequest_inv {s : St} (h : Inv s) (cause : Cause) : Inv (afterRequest s cause) := by
  unfold afterRequest
  split
  · exact adapter_inv h _
  · exact adapter_inv h _
  · exact h

theorem drained_inv {s : St} (h : Inv s) (cause : Cause) (expired passed : Bool) (result : Resolution) :
    Inv (drained s cause expired passed result) := by
  have hafter : Inv (afterDrain s cause) := by
    cases cause with
    | flagged => exact exceptCancelled_inv h
    | timedOut => exact adapter_inv h _
    | excepted => exact adapter_inv h _
  have hcancelled : Inv (drainCancelled s cause) := by
    cases cause with
    | flagged => exact exceptCancelled_inv h
    | timedOut => exact exceptCancelled_inv h
    | excepted => exact adapter_inv h _
  cases result with
  | table => exact hafter
  | canceled => exact hafter
  | timeout => exact adapter_inv h _
  | failed => exact adapter_inv h _
  | other => exact adapter_inv h _
  | cancelled =>
    show Inv (if expired && !passed then _ else _)
    split
    · exact adapter_inv h _
    · exact hcancelled

theorem onStatementSubmitted_inv {s : St} (h : Inv s) (hs : s.client = .submitting) (statementId : String)
    (response : StatementState) : Inv (onStatementSubmitted s statementId response) := by
  -- Before its id is known nothing can have asked for the statement.
  have htask : s.providerTask = .none := by
    by_contra ht
    obtain ⟨id, state, hst, -⟩ := h.asked ht
    rw [h.submitting hs] at hst
    cases hst
  unfold onStatementSubmitted
  simp only
  split
  · unfold requestProviderCancel
    simp only [htask]
    refine ⟨fun _ => id, (fun hc => by cases hc), (fun ht => by cases ht), fun _ => ⟨statementId, response, rfl, ?_⟩⟩
    show s.providerCalls ++ [statementId] = [statementId]
    rw [h.unasked htask]
    rfl
  · exact ⟨fun _ => id, (fun hc => by cases hc), h.unasked, fun ht => absurd htask ht⟩

theorem unreadable_inv {s : St} (h : Inv s) (hs : s.client = .submitting) (statementId : String)
    (response : StatementState) : Inv (unreadable s statementId response) := by
  have hnone := h.submitting hs
  refine ⟨?_, (fun hc => by cases hc), h.unasked, ?_⟩
  · intro id hid
    have hmap := h.registered id hid
    rw [hnone] at hmap
    cases hmap
  · intro ht
    obtain ⟨id, state, hst, -⟩ := h.asked ht
    rw [hnone] at hst
    cases hst

theorem clientCancel_inv {s : St} (h : Inv s) : Inv (clientCancel s) := h.frame id rfl rfl Iff.rfl rfl

theorem clientStep_inv {s : St} (h : Inv s) (cancelOnTimeout : Bool) (e : ClientEv) :
    Inv (clientStep cancelOnTimeout s e) := by
  unfold clientStep
  split
  · next hc => exact onStatementSubmitted_inv h hc _ _
  · next hc => exact unreadable_inv h hc _ _
  · exact client_inv h (by simp)
  · exact client_inv h (by simp)
  · split
    · exact client_inv (clientCancel_inv h) (by simp)
    · exact client_inv h (by simp)
    · exact h
  · exact client_inv h (by simp)
  · split
    · exact client_inv (clientCancel_inv h) (by simp)
    · exact client_inv h (by simp)
  · split
    · exact client_inv h (by simp)
    · exact h
  · split
    · exact client_inv h (by simp)
    · exact h
  · split
    · exact h
    · refine client_inv h ?_
      unfold settled
      split <;> simp
  · exact client_inv h (by simp)
  · exact client_inv h (by simp)
  · exact client_inv h (by simp)
  · exact client_inv h (by simp)
  · exact h

theorem progress_inv {s : St} (h : Inv s) (state : StatementState) : Inv (progress s state) := by
  unfold progress
  split
  · next statementId current hst =>
    split
    · refine ⟨?_, ?_, h.unasked, ?_⟩
      · intro id hid
        have hmap := h.registered id hid
        rw [hst] at hmap
        exact hmap
      · intro hc
        rw [h.submitting hc] at hst
        cases hst
      · intro ht
        obtain ⟨id, state', hst', hcalls⟩ := h.asked ht
        rw [hst] at hst'
        cases hst'
        exact ⟨statementId, state, rfl, hcalls⟩
    · exact h
  · exact h

theorem step_inv {s : St} (h : Inv s) (cancelOnTimeout : Bool) (e : Ev) : Inv (step cancelOnTimeout s e) := by
  cases e with
  | cancelCall =>
    show Inv (cancelCall s)
    unfold cancelCall
    split
    · exact h
    · have hset : Inv { s with localCancel := true } := h.frame id rfl rfl Iff.rfl rfl
      split
      · next hid => exact hset.request hid
      · exact hset
  | setCancelEvent => exact h.frame id rfl rfl Iff.rfl rfl
  | taskCancel =>
    show Inv (taskCancel s)
    unfold taskCancel
    split
    · exact exceptCancelled_inv h
    · exact interruptClient_inv (adapter_inv h _)
    · exact h
  | wake timer accepts =>
    show Inv (wake s timer accepts)
    unfold wake
    split
    · exact afterWait_inv h timer accepts
    · exact afterRequest_inv h _
    · exact drained_inv h _ _ _ _
    · exact h
  | drainTimer =>
    show Inv (drainTimer s)
    unfold drainTimer
    split
    · exact interruptClient_inv (adapter_inv h _)
    · exact h
  | client e => exact clientStep_inv h cancelOnTimeout e
  | provider raises =>
    show Inv (if s.providerTask = .running then _ else _)
    split
    · next hrunning => exact h.frame id rfl rfl (by simp [hrunning]) rfl
    · exact h
  | progress state => exact progress_inv h state

theorem foldl_inv (cancelOnTimeout : Bool) (events : List Ev) {s : St} (h : Inv s) :
    Inv (events.foldl (step cancelOnTimeout) s) := by
  induction events generalizing s with
  | nil => exact h
  | cons e events ih => exact ih (step_inv h cancelOnTimeout e)

theorem Inv.providerCalls_le_one {s : St} (h : Inv s) : s.providerCalls.length ≤ 1 := by
  by_cases ht : s.providerTask = .none
  · rw [h.unasked ht]
    exact Nat.zero_le 1
  · obtain ⟨id, state, -, hcalls⟩ := h.asked ht
    rw [hcalls]
    exact Nat.le_refl 1

/-! ## No statement is left running -/

/-- The steps that lose an active statement. -/
def lost (cancelOnTimeout : Bool) (s : St) : Ev → Bool
  | .client (.submitted _ response) =>
    match s.adapter with
    | .draining .timedOut _ _ => !flagged s && response.isActive
    | _ => false
  | .client (.unreadable _ response) => s.client = .submitting && response.isActive
  | .client (.fails _) => s.adapter = .waiting && !flagged s && (s.statement.map (·.2.isActive)).getD false
  | .client .deadline =>
    s.adapter = .waiting && !flagged s && !cancelOnTimeout && (s.statement.map (·.2.isActive)).getD false
  | _ => false

/-- No step of the run loses the statement. -/
def keeps (cancelOnTimeout : Bool) : St → List Ev → Bool
  | _, [] => true
  | s, e :: events => !lost cancelOnTimeout s e && keeps cancelOnTimeout (step cancelOnTimeout s e) events

def cause? : AdapterPc → Option Cause
  | .requesting cause => some cause
  | .draining cause _ _ => some cause
  | _ => none

/-- What the client's position says about an active statement. -/
def ClientOk (s : St) (statementId : String) : Prop :=
  match s.client with
  | .submitting => True
  | .callback response => response.isActive = true ∧ sent s statementId = true
  | .polling response => response.isActive = true
  | .callbackFailed | .timingOut => sent s statementId = true
  | .collecting | .ended .table | .ended .canceled => False
  | .ended .cancelled => s.adapter ≠ .waiting
  | .ended _ => s.adapter = .waiting → flagged s = false → sent s statementId = true

structure Cover (s : St) : Prop where
  /-- Off its timeout path the adapter has a flag set, which the callback will see. -/
  flags : ∀ cause, cause? s.adapter = some cause → cause ≠ .timedOut → flagged s = true
  requesting : ∀ cause, s.adapter = .requesting cause → s.providerTask ≠ .none
  left : isLeft s.adapter = true → s.client ≠ .submitting
  registered : ∀ statementId state, s.statement = some (statementId, state) → state.isActive = true →
    s.registered = some statementId
  stop : ∀ statementId state, s.statement = some (statementId, state) → state.isActive = true →
    (cause? s.adapter).isSome = true ∨ gaveUp s = true → sent s statementId = true
  client : ∀ statementId state, s.statement = some (statementId, state) → state.isActive = true → ClientOk s statementId

theorem init_cover : Cover init :=
  ⟨nofun, nofun, nofun, nofun, nofun, nofun⟩

/-- More flags and more requests. -/
theorem ClientOk.mono {s t : St} {statementId : String} (h : ClientOk s statementId) (hclient : t.client = s.client)
    (hadapter : t.adapter = .waiting → s.adapter = .waiting) (hflags : flagged s = true → flagged t = true)
    (hsent : sent s statementId = true → sent t statementId = true) : ClientOk t statementId := by
  have hunflagged : flagged t = false → flagged s = false := by
    intro ht
    by_contra hs
    rw [hflags (by simpa using hs)] at ht
    cases ht
  unfold ClientOk at h ⊢
  rw [hclient]
  cases hc : s.client with
  | submitting => trivial
  | callback response =>
    rw [hc] at h
    exact ⟨h.1, hsent h.2⟩
  | callbackFailed =>
    rw [hc] at h
    exact hsent h
  | polling response =>
    rw [hc] at h
    exact h
  | timingOut =>
    rw [hc] at h
    exact hsent h
  | collecting =>
    rw [hc] at h
    exact h
  | ended result =>
    rw [hc] at h
    cases result with
    | table => exact h
    | canceled => exact h
    | cancelled => exact fun ht => h (hadapter ht)
    | timeout => exact fun ht hf => hsent (h (hadapter ht) (hunflagged hf))
    | failed => exact fun ht hf => hsent (h (hadapter ht) (hunflagged hf))
    | other => exact fun ht hf => hsent (h (hadapter ht) (hunflagged hf))

/-- A step that neither moves the two tasks nor the statement. -/
theorem Cover.frame {s t : St} (h : Cover s) (hadapter : t.adapter = s.adapter) (hclient : t.client = s.client)
    (hstatement : t.statement = s.statement) (hregistered : t.registered = s.registered)
    (hflags : flagged s = true → flagged t = true)
    (hsent : ∀ statementId, sent s statementId = true → sent t statementId = true)
    (htask : s.providerTask ≠ .none → t.providerTask ≠ .none) : Cover t := by
  refine ⟨?_, ?_, ?_, ?_, ?_, ?_⟩
  · intro cause hc hne
    rw [hadapter] at hc
    exact hflags (h.flags cause hc hne)
  · intro cause hr
    rw [hadapter] at hr
    exact htask (h.requesting cause hr)
  · rw [hadapter, hclient]
    exact h.left
  · rw [hstatement, hregistered]
    exact h.registered
  · intro statementId state hst hactive hpc
    unfold gaveUp at hpc
    rw [hadapter] at hpc
    rw [hstatement] at hst
    exact hsent _ (h.stop statementId state hst hactive hpc)
  · intro statementId state hst hactive
    rw [hstatement] at hst
    exact (h.client statementId state hst hactive).mono hclient (fun hw => hadapter ▸ hw) hflags (hsent _)

theorem request_sent_mono {s : St} {statementId asked : String} (h : sent s asked = true) :
    sent (requestProviderCancel s statementId) asked = true := by
  unfold requestProviderCancel
  split
  · unfold sent at h ⊢
    simp only [Bool.or_eq_true, List.contains_iff_mem, List.mem_append] at h ⊢
    exact h.imp_left Or.inl
  · exact h

theorem clientCancel_sent_mono {s : St} {asked : String} (h : sent s asked = true) : sent (clientCancel s) asked = true := by
  unfold sent clientCancel at *
  simp only [Bool.or_eq_true, List.contains_iff_mem, List.mem_append] at h ⊢
  exact h.imp_right Or.inl

theorem clientCancel_sent {s : St} {statementId : String} {state : StatementState}
    (h : s.statement = some (statementId, state)) : sent (clientCancel s) statementId = true := by
  simp [sent, clientCancel, h]

/-! ### The calling task -/

/-- Whatever its cause, a request reaches the statement if there is one. -/
theorem requestRegistered_cover {s : St} (h : Cover s) (hi : Inv s) {cause : Cause}
    (hflags : cause ≠ .timedOut → flagged s = true) : Cover (requestRegistered s cause) := by
  unfold requestRegistered
  split
  · next asked hid =>
    have hsent : ∀ statementId state, s.statement = some (statementId, state) →
        sent (requestProviderCancel s asked) statementId = true := by
      intro statementId state hst
      have hmap := hi.registered asked hid
      rw [hst] at hmap
      cases hmap
      exact hi.request_sent hid
    refine ⟨?_, ?_, nofun, ?_, ?_, ?_⟩
    · intro cause' hc hne
      cases hc
      exact (request_flagged s asked).trans (hflags hne)
    · intro _ _
      exact request_task s asked
    · intro statementId state hst hactive
      have hregistered := h.registered statementId state (request_statement s asked ▸ hst) hactive
      exact (request_registered s asked).trans hregistered
    · intro statementId state hst _ _
      exact hsent statementId state (request_statement s asked ▸ hst)
    · intro statementId state hst hactive
      have hst : s.statement = some (statementId, state) := request_statement s asked ▸ hst
      exact (h.client statementId state hst hactive).mono (request_client s asked) nofun
        (fun hf => (request_flagged s asked).trans hf) (fun _ => hsent statementId state hst)
  · next hid =>
    -- An active statement is registered, so with nothing registered there is none.
    have hover : ∀ statementId state, s.statement = some (statementId, state) → state.isActive = true → False := by
      intro statementId state hst hactive
      have hregistered := h.registered statementId state hst hactive
      rw [hid] at hregistered
      cases hregistered
    refine ⟨?_, nofun, nofun, h.registered, ?_, ?_⟩
    · intro cause' hc hne
      cases hc
      exact hflags hne
    · intro statementId state hst hactive
      exact (hover statementId state hst hactive).elim
    · intro statementId state hst hactive
      exact (hover statementId state hst hactive).elim

theorem exceptCancelled_cover {s : St} (h : Cover s) (hi : Inv s) : Cover (exceptCancelled s) := by
  have hset : Cover { s with localCancel := true } := h.frame rfl rfl rfl rfl (fun _ => rfl) (fun _ => id) id
  have hinv : Inv { s with localCancel := true } := hi.frame id rfl rfl Iff.rfl rfl
  exact requestRegistered_cover hset hinv fun _ => rfl

/-- The execution leaves: an active statement has been asked to stop. -/
theorem leave_cover {s : St} (h : Cover s) {how : Leaving} (hclient : s.client ≠ .submitting)
    (hstop : ∀ statementId state, s.statement = some (statementId, state) → state.isActive = true →
      how ≠ .returned → sent s statementId = true) : Cover { s with adapter := .left how } := by
  refine ⟨nofun, nofun, fun _ => hclient, h.registered, ?_, ?_⟩
  · intro statementId state hst hactive hpc
    refine hstop statementId state hst hactive ?_
    rintro rfl
    rcases hpc with hpc | hpc
    · cases hpc
    · cases hpc
  · intro statementId state hst hactive
    exact (h.client statementId state hst hactive).mono rfl nofun id id

/-- Leaving from the request or the drain. -/
theorem Cover.leave_of_cause {s : St} (h : Cover s) (hcause : (cause? s.adapter).isSome = true)
    (hclient : s.client ≠ .submitting) (how : Leaving) : Cover { s with adapter := .left how } :=
  leave_cover h hclient fun statementId state hst hactive _ => h.stop statementId state hst hactive (.inl hcause)

theorem draining_cover {s : St} (h : Cover s) {cause : Cause} (hcause : cause? s.adapter = some cause)
    (expired passed : Bool) : Cover { s with adapter := .draining cause expired passed } := by
  refine ⟨?_, nofun, nofun, h.registered, ?_, ?_⟩
  · intro cause' hc hne
    cases hc
    exact h.flags cause hcause hne
  · intro statementId state hst hactive _
    exact h.stop statementId state hst hactive (.inl (by rw [hcause]; rfl))
  · intro statementId state hst hactive
    exact (h.client statementId state hst hactive).mono rfl nofun id id

theorem afterWait_cover {s : St} (h : Cover s) (hi : Inv s) (hw : s.adapter = .waiting) (timer accepts : Bool) :
    Cover (afterWait s timer accepts) := by
  unfold afterWait
  split
  · next hf => exact requestRegistered_cover h hi fun _ => hf
  · next hf =>
    have hf : flagged s = false := by simpa using hf
    split
    · next hc =>
      refine leave_cover h (by simp [hc]) ?_
      intro statementId state hst hactive _
      have hok := h.client statementId state hst hactive
      simp [ClientOk, hc] at hok
    · exact exceptCancelled_cover h hi
    · exact exceptCancelled_cover h hi
    · next hc =>
      refine leave_cover h (by simp [hc]) ?_
      intro statementId state hst hactive _
      have hok := h.client statementId state hst hactive
      simp only [ClientOk, hc] at hok
      exact hok hw hf
    · next hc =>
      refine leave_cover h (by simp [hc]) ?_
      intro statementId state hst hactive _
      have hok := h.client statementId state hst hactive
      simp only [ClientOk, hc] at hok
      exact hok hw hf
    · next hc =>
      refine leave_cover h (by simp [hc]) ?_
      intro statementId state hst hactive _
      have hok := h.client statementId state hst hactive
      simp only [ClientOk, hc] at hok
      exact hok hw hf
    · split
      · exact requestRegistered_cover h hi fun hne => absurd rfl hne
      · exact h

theorem afterRequest_cover {s : St} (h : Cover s) (hi : Inv s) {cause : Cause} (hr : s.adapter = .requesting cause) :
    Cover (afterRequest s cause) := by
  have hclient : s.client ≠ .submitting := by
    intro hc
    obtain ⟨id, state, hst, -⟩ := hi.asked (h.requesting cause hr)
    rw [hi.submitting hc] at hst
    cases hst
  unfold afterRequest
  split
  · exact h.leave_of_cause (by rw [hr]; rfl) hclient _
  · exact draining_cover h (by rw [hr]; rfl) false false
  · exact h

theorem drained_cover {s : St} (h : Cover s) (hi : Inv s) {cause : Cause} {expired passed : Bool} {result : Resolution}
    (hd : s.adapter = .draining cause expired passed) (hc : s.client = .ended result) :
    Cover (drained s cause expired passed result) := by
  have hleave (how : Leaving) : Cover { s with adapter := .left how } :=
    h.leave_of_cause (by rw [hd]; rfl) (by simp [hc]) how
  have hafter : Cover (afterDrain s cause) := by
    cases cause with
    | flagged => exact exceptCancelled_cover h hi
    | timedOut => exact hleave _
    | excepted => exact hleave _
  have hcancelled : Cover (drainCancelled s cause) := by
    cases cause with
    | flagged => exact exceptCancelled_cover h hi
    | timedOut => exact exceptCancelled_cover h hi
    | excepted => exact hleave _
  cases result with
  | table => exact hafter
  | canceled => exact hafter
  | timeout => exact hleave _
  | failed => exact hleave _
  | other => exact hleave _
  | cancelled =>
    show Cover (if expired && !passed then _ else _)
    split
    · exact hleave _
    · exact hcancelled

/-! ### The client -/

/-- The client moves on its own; `hok` is what its new position needs. -/
theorem client_cover {s t : St} (h : Cover s) (hadapter : t.adapter = s.adapter) (hclient : t.client ≠ .submitting)
    (hstatement : t.statement = s.statement) (hregistered : t.registered = s.registered)
    (hflags : flagged t = flagged s) (htask : t.providerTask = s.providerTask)
    (hsent : ∀ statementId, sent s statementId = true → sent t statementId = true)
    (hok : ∀ statementId state, s.statement = some (statementId, state) → state.isActive = true →
      ClientOk s statementId → ClientOk t statementId) : Cover t := by
  refine ⟨?_, ?_, fun _ => hclient, ?_, ?_, ?_⟩
  · rw [hadapter, hflags]
    exact h.flags
  · rw [hadapter, htask]
    exact h.requesting
  · rw [hstatement, hregistered]
    exact h.registered
  · intro statementId state hst hactive hpc
    unfold gaveUp at hpc
    rw [hadapter] at hpc
    rw [hstatement] at hst
    exact hsent _ (h.stop statementId state hst hactive hpc)
  · intro statementId state hst hactive
    rw [hstatement] at hst
    exact hok statementId state hst hactive (h.client statementId state hst hactive)

theorem interruptClient_cover {s : St} (h : Cover s) (hne : s.adapter ≠ .waiting) : Cover (interruptClient s) := by
  unfold interruptClient
  split
  · exact h
  · exact h
  · exact h
  · exact client_cover h rfl (by simp) rfl rfl rfl rfl (fun _ => id) fun _ _ _ _ _ => hne

theorem onStatementSubmitted_cover {s : St} (h : Cover s) (hi : Inv s) (hs : s.client = .submitting)
    {cancelOnTimeout : Bool} {statementId : String} {response : StatementState}
    (hkept : lost cancelOnTimeout s (.client (.submitted statementId response)) = false) :
    Cover (onStatementSubmitted s statementId response) := by
  have htask : s.providerTask = .none := by
    by_contra ht
    obtain ⟨id, state, hst, -⟩ := hi.asked ht
    rw [hi.submitting hs] at hst
    cases hst
  have hleft : isLeft s.adapter = false := by
    by_contra hl
    exact h.left (by simpa using hl) hs
  unfold onStatementSubmitted
  simp only
  split
  · next hf =>
    have hsent : sent { s with registered := some statementId, statement := some (statementId, response)
                               providerTask := .running, providerCalls := s.providerCalls ++ [statementId]
                               client := .callback response } statementId = true := by
      simp [sent]
    unfold requestProviderCancel
    simp only [htask]
    refine ⟨fun _ _ _ => hf, nofun, nofun, ?_, ?_, ?_⟩
    · intro statementId' state hst _
      cases hst
      rfl
    · intro statementId' state hst _ _
      cases hst
      exact hsent
    · intro statementId' state hst hactive
      cases hst
      exact ⟨hactive, hsent⟩
  · next hf =>
    have hf : flagged s = false := by simpa [flagged] using hf
    refine ⟨h.flags, h.requesting, nofun, ?_, ?_, ?_⟩
    · intro statementId' state hst _
      cases hst
      rfl
    · intro statementId' state hst hactive hpc
      cases hst
      -- The statement is new, so the adapter neither asks for it nor has left; only the
      -- drain after a timeout has no flag for the callback to see.
      exfalso
      cases ha : s.adapter with
      | waiting =>
        simp only [gaveUp, ha, cause?] at hpc
        rcases hpc with hpc | hpc
        · cases hpc
        · cases hpc
      | requesting cause => exact h.requesting cause ha htask
      | left how =>
        rw [ha] at hleft
        cases hleft
      | draining cause expired passed =>
        by_cases hcause : cause = .timedOut
        · subst hcause
          simp [lost, ha, hf, hactive] at hkept
        · have hflagged := h.flags cause (by rw [ha]; rfl) hcause
          rw [hf] at hflagged
          cases hflagged
    · intro statementId' state hst hactive
      cases hst
      exact hactive

/-- An answer the parser refuses: the statement it names is over. -/
theorem unreadable_cover {s : St} (h : Cover s) (hs : s.client = .submitting) {cancelOnTimeout : Bool}
    {statementId : String} {response : StatementState}
    (hkept : lost cancelOnTimeout s (.client (.unreadable statementId response)) = false) :
    Cover (unreadable s statementId response) := by
  have hover : response.isActive = false := by simpa [lost, hs] using hkept
  have hinactive : ∀ id state, some (statementId, response) = some (id, state) → state.isActive = true → False := by
    intro id state hst hactive
    cases hst
    rw [hover] at hactive
    cases hactive
  refine ⟨h.flags, h.requesting, nofun, ?_, ?_, ?_⟩
  · intro id state hst hactive
    exact (hinactive id state hst hactive).elim
  · intro id state hst hactive
    exact (hinactive id state hst hactive).elim
  · intro id state hst hactive
    exact (hinactive id state hst hactive).elim

/-- A failure ends the resolution: the adapter, if it still waits, has a flag set. -/
theorem fails_cover {s : St} (h : Cover s) {cancelOnTimeout known : Bool}
    (hkept : lost cancelOnTimeout s (.client (.fails known)) = false) :
    Cover { s with client := .ended (failure known) } := by
  refine client_cover h rfl (by simp) rfl rfl rfl rfl (fun _ => id) ?_
  intro statementId state hst hactive _
  have hlost : s.adapter = .waiting → flagged s = false → False := by
    intro hw hf
    simp [lost, hw, hf, hst, hactive] at hkept
  cases known with
  | true => exact fun hw hf => (hlost hw hf).elim
  | false => exact fun hw hf => (hlost hw hf).elim

theorem deadline_cover {s : St} (h : Cover s) {cancelOnTimeout : Bool} {response : StatementState}
    (hc : s.client = .polling response) (hkept : lost cancelOnTimeout s (.client .deadline) = false)
    (hoff : (response.isActive && cancelOnTimeout) = false) : Cover { s with client := .ended .timeout } := by
  refine client_cover h rfl (by simp) rfl rfl rfl rfl (fun _ => id) ?_
  intro statementId state hst hactive hok hw hf
  have hresponse : response.isActive = true := by simpa [ClientOk, hc] using hok
  rw [hresponse, Bool.true_and] at hoff
  have hw : s.adapter = .waiting := hw
  have hf : flagged s = false := hf
  simp [lost, hw, hf, hst, hactive, hoff] at hkept

theorem clientStep_cover {s : St} (h : Cover s) (hi : Inv s) {cancelOnTimeout : Bool} {e : ClientEv}
    (hkept : lost cancelOnTimeout s (.client e) = false) : Cover (clientStep cancelOnTimeout s e) := by
  unfold clientStep
  split
  · next hc => exact onStatementSubmitted_cover h hi hc hkept
  · next hc => exact unreadable_cover h hc hkept
  · exact fails_cover h hkept
  · next hc =>
    refine client_cover h rfl (by simp) rfl rfl rfl rfl (fun _ => id) ?_
    intro statementId state hst
    exact absurd ((hi.submitting hc).symm.trans hst) nofun
  · next response hc =>
    split
    · refine client_cover h rfl (by simp) rfl rfl rfl rfl (fun _ => clientCancel_sent_mono) ?_
      intro statementId state hst _ _
      exact clientCancel_sent hst
    · refine client_cover h rfl (by simp) rfl rfl rfl rfl (fun _ => id) ?_
      intro statementId state _ _ hok
      simp only [ClientOk, hc] at hok
      exact hok.1
    · exact h
  · next hc =>
    refine client_cover h rfl (by simp) rfl rfl rfl rfl (fun _ => id) ?_
    intro statementId state _ _ hok _ _
    simp only [ClientOk, hc] at hok
    exact hok
  · next response hc =>
    split
    · refine client_cover h rfl (by simp) rfl rfl rfl rfl (fun _ => clientCancel_sent_mono) ?_
      intro statementId state hst _ _
      exact clientCancel_sent hst
    · next hoff => exact deadline_cover h hc hkept (by simpa using hoff)
  · next response hc =>
    split
    · refine client_cover h rfl (by simp) rfl rfl rfl rfl (fun _ => id) ?_
      intro statementId state hst hactive _
      show (pollState s response).isActive = true
      rw [pollState, hst]
      exact hactive
    · exact h
  · split
    · exact fails_cover h hkept
    · exact h
  · next response hc =>
    split
    · exact h
    · next hinactive =>
      refine client_cover h rfl ?_ rfl rfl rfl rfl (fun _ => id) ?_
      · show settled response ≠ .submitting
        unfold settled
        split <;> simp
      · intro statementId state _ _ hok
        simp only [ClientOk, hc] at hok
        exact absurd hok hinactive
  · next hc =>
    refine client_cover h rfl (by simp) rfl rfl rfl rfl (fun _ => id) ?_
    intro statementId state _ _ hok _ _
    simp only [ClientOk, hc] at hok
    exact hok
  · next hc =>
    refine client_cover h rfl (by simp) rfl rfl rfl rfl (fun _ => id) ?_
    intro statementId state _ _ hok
    simp only [ClientOk, hc] at hok
  · exact fails_cover h hkept
  · next hc =>
    refine client_cover h rfl (by simp) rfl rfl rfl rfl (fun _ => id) ?_
    intro statementId state _ _ hok
    simp only [ClientOk, hc] at hok
  · exact h

/-! ### Runs -/

theorem progress_cover {s : St} (h : Cover s) (state : StatementState) : Cover (progress s state) := by
  unfold progress
  split
  · next statementId current hst =>
    split
    · next hactive =>
      refine ⟨h.flags, h.requesting, h.left, ?_, ?_, ?_⟩
      · intro statementId' state' hst' _
        cases hst'
        exact h.registered statementId current hst hactive
      · intro statementId' state' hst' _ hpc
        cases hst'
        exact h.stop statementId current hst hactive hpc
      · intro statementId' state' hst' _
        cases hst'
        exact h.client statementId current hst hactive
    · exact h
  · exact h

theorem step_cover {s : St} (h : Cover s) (hi : Inv s) {cancelOnTimeout : Bool} {e : Ev}
    (hkept : lost cancelOnTimeout s e = false) : Cover (step cancelOnTimeout s e) := by
  cases e with
  | cancelCall =>
    show Cover (cancelCall s)
    unfold cancelCall
    split
    · exact h
    · have hset : Cover { s with localCancel := true } := h.frame rfl rfl rfl rfl (fun _ => rfl) (fun _ => id) id
      split
      · next asked _ =>
        exact hset.frame (request_adapter _ _) (request_client _ _) (request_statement _ _)
          (request_registered _ _) (fun _ => (request_flagged _ _).trans rfl) (fun _ => request_sent_mono) (fun _ => request_task _ asked)
      · exact hset
  | setCancelEvent => exact h.frame rfl rfl rfl rfl (fun _ => Bool.or_true _) (fun _ => id) id
  | taskCancel =>
    show Cover (taskCancel s)
    unfold taskCancel
    split
    · exact exceptCancelled_cover h hi
    · next ha => exact interruptClient_cover (draining_cover h (by rw [ha]; rfl) _ _) (by simp)
    · exact h
  | wake timer accepts =>
    show Cover (wake s timer accepts)
    unfold wake
    split
    · next ha => exact afterWait_cover h hi ha timer accepts
    · next ha => exact afterRequest_cover h hi ha
    · next ha hc => exact drained_cover h hi ha hc
    · exact h
  | drainTimer =>
    show Cover (drainTimer s)
    unfold drainTimer
    split
    · next ha => exact interruptClient_cover (draining_cover h (by rw [ha]; rfl) _ _) (by simp)
    · exact h
  | client e => exact clientStep_cover h hi hkept
  | provider raises =>
    show Cover (if s.providerTask = .running then _ else _)
    split
    · exact h.frame rfl rfl rfl rfl id (fun _ => id) (fun _ => by simp)
    · exact h
  | progress state => exact progress_cover h state

theorem foldl_cover {cancelOnTimeout : Bool} (events : List Ev) {s : St} (h : Cover s) (hi : Inv s)
    (hkept : keeps cancelOnTimeout s events = true) : Cover (events.foldl (step cancelOnTimeout) s) := by
  induction events generalizing s with
  | nil => exact h
  | cons e events ih =>
    simp only [keeps, Bool.and_eq_true, Bool.not_eq_true'] at hkept
    exact ih (step_cover h hi hkept.1) (step_inv hi cancelOnTimeout e) hkept.2

/-- In every order of events `provider_cancel` is called at most once; and in every run that
    takes no step of `lost`, an execution that has left without a table has asked for its
    statement to be cancelled, unless the statement is over. -/
theorem provider_cancelled (cancelOnTimeout : Bool) (events : List Ev) :
    (run cancelOnTimeout events).providerCalls.length ≤ 1 ∧
      (keeps cancelOnTimeout init events = true → ∀ statementId state,
        (run cancelOnTimeout events).statement = some (statementId, state) → state.isActive = true →
        gaveUp (run cancelOnTimeout events) = true → sent (run cancelOnTimeout events) statementId = true) := by
  constructor
  · exact (foldl_inv cancelOnTimeout events init_inv).providerCalls_le_one
  · intro hkept statementId state hst hactive hgave
    exact (foldl_cover events init_cover init_inv hkept).stop statementId state hst hactive (.inr hgave)

/-- A cancellation that comes before the submission is answered: the callback asks for the
    statement, which is still running when the drain runs out. -/
def cancelledEarly : List Ev :=
  [.cancelCall, .wake false true, .client (.submitted "s-1" .running), .provider false, .client .resume, .drainTimer,
    .wake false true]

theorem cancelledEarly_sent :
    gaveUp (run true cancelledEarly) = true ∧ (run true cancelledEarly).statement = some ("s-1", .running) ∧
      sent (run true cancelledEarly) "s-1" = true := by
  have hleft : gaveUp (run true cancelledEarly) = true := by decide
  have hst : (run true cancelledEarly).statement = some ("s-1", .running) := by decide
  exact ⟨hleft, hst, (provider_cancelled true cancelledEarly).2 (by decide) "s-1" .running hst rfl hleft⟩

/-- The adapter's timer runs out before the submission is answered; the statement it then
    starts is drained for a while and left running. -/
def submittedLate : List Ev :=
  [.wake true true, .client (.submitted "s-1" .running), .drainTimer, .wake false true]

theorem late_submission_lost :
    gaveUp (run true submittedLate) = true ∧ (run true submittedLate).statement = some ("s-1", .running) ∧
      sent (run true submittedLate) "s-1" = false := by
  decide

/-- The answer to the submission names a running statement, and its manifest is malformed. -/
def answeredUnreadably : List Ev := [.client (.unreadable "s-1" .running), .wake false true]

theorem unreadable_answer_lost :
    gaveUp (run true answeredUnreadably) = true ∧ (run true answeredUnreadably).statement = some ("s-1", .running) ∧
      sent (run true answeredUnreadably) "s-1" = false := by
  decide

end DataNexus.Databricks.SourceAdapter
