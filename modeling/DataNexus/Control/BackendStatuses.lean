/-
  DataNexus.Control.BackendStatuses — the control API applies the statuses of the semantic backend.

  Actors. The backend publishes a run's state: STARTING (`start`), RUNNING (`_begin_stage`), then one
  terminal state that no later write changes (`_succeed`, `_fail`, `_finalize_cancelled`; the
  last also on shutdown, which no client asked for). The control API sees some of these
  states in order, each applied with the current version, between cancellations and
  deliveries of its own.

  Proved: the states the control API holds follow those it has seen (`follow_held`), so that a
  status is refused only where the backend has cancelled a run that the control API holds to be
  starting or running, without a cancellation of its own (`statuses_follow`). There the run
  stays as it is: `shutdown_refused`.
-/

import DataNexus.Control.RunTransitions

namespace DataNexus.Control.BackendStatuses

open Lib RunTransitions

/-! ## The backend -/

/-- The state of the backend's record after a write, or read again. -/
inductive Publishes : RunState → RunState → Prop where
  | again (s : RunState) : Publishes s s
  | begin : Publishes .starting .running
  | finish {s t : RunState} (hs : s = .starting ∨ s = .running) (ht : t.isTerminal = true) : Publishes s t

/-- The states of one run of the backend, from the first. -/
def Published (states : List RunState) : Prop := (RunState.starting :: states).IsChain Publishes

/-! ## The control API -/

/-- What happens to the run in the control API. -/
inductive Event where
  | observe (status : SemanticRunStatus) (now : DateTimeOffset)
  | cancel (expected : Option Int) (now : DateTimeOffset)
  | deliver (generation : Int) (now : DateTimeOffset)

/-- A status is applied with the current version. -/
def Event.transition (current : RunMetadata) : Event → Transition
  | .observe status now => .applyStatus current.version status now
  | .cancel expected now => .cancel expected now
  | .deliver generation now => .deliver generation now

def follow (start : RunMetadata) (events : List Event) : RunMetadata :=
  events.foldl (fun r e => step r (e.transition r)) start

def Event.state? : Event → Option RunState
  | .observe status _ => some status.state
  | _ => none

/-- The backend's states among the events. -/
def seen (events : List Event) : List RunState := events.filterMap Event.state?

/-- The application of a status ends with an `InvalidRunTransitionException`. -/
def Refused (r : RunMetadata) (status : SemanticRunStatus) (now : DateTimeOffset) : Prop :=
  ∃ next, applyStatus r r.version status now = .error (.invalidRunTransition r.state next)

/-- Nothing but the range of the version or the backend's own timestamps keeps a status from being
    written. -/
structure Timely (r : RunMetadata) (status : SemanticRunStatus) : Prop where
  version : r.version < longMax
  finalized : ∀ finalized started, status.finalizedAt = some finalized → r.startedAt.or status.startedAt = some started →
    started ≤ finalized

/-- No status is refused, unless the run has ended another way, and a terminal one ends the run. -/
structure Follows (start : RunMetadata) (events : List Event) : Prop where
  accepted : ∀ before status now after, events = before ++ .observe status now :: after →
    Refused (follow start before) status now →
    (follow start before).state.isTerminal = true ∧ (follow start before).state ≠ status.state
  ends : ∀ before status now after, events = before ++ .observe status now :: after →
    SemanticRunStatusValidator.validate status (follow start before).id = .ok () → status.state.isTerminal = true →
    Timely (follow start before) status → (follow start (before ++ [.observe status now])).state.isTerminal = true

/-- No cancellation by the backend meets a run that goes on for all the control API knows. -/
def NoSurprise (start : RunMetadata) (events : List Event) : Prop :=
  ∀ before status now after, events = before ++ .observe status now :: after →
    SemanticRunStatusValidator.validate status (follow start before).id = .ok () → status.state = .cancelled →
    (follow start before).state ≠ .starting ∧ (follow start before).state ≠ .running

/-! ## States seen in order -/

/-- A state the backend has after another one. -/
def Later (s t : RunState) : Prop := s = t ∨ (s.isTerminal = false ∧ (t = .running ∨ t.isTerminal = true))

theorem Later.of_publishes {s t : RunState} (h : Publishes s t) : Later s t := by
  cases h with
  | again => exact .inl rfl
  | begin => exact .inr ⟨rfl, .inl rfl⟩
  | finish hs ht =>
    rcases hs with rfl | rfl
    · exact .inr ⟨rfl, .inr ht⟩
    · exact .inr ⟨rfl, .inr ht⟩

theorem Later.trans {s t u : RunState} (h : Later s t) (h' : Later t u) : Later s u := by
  rcases h with rfl | ⟨hs, ht⟩
  · exact h'
  · rcases h' with rfl | ⟨-, hu⟩
    · exact .inr ⟨hs, ht⟩
    · exact .inr ⟨hs, hu⟩

theorem later_of_published {states : List RunState} (h : Published states) : (RunState.starting :: states).Pairwise Later := by
  have htrans : IsTrans RunState Later := ⟨fun _ _ _ => Later.trans⟩
  exact List.isChain_iff_pairwise.mp (h.imp fun _ _ => Later.of_publishes)

/-- The states of a backend run are active ones and terminal ones. -/
theorem backend_of_published {states : List RunState} (h : Published states) {t : RunState}
    (ht : t ∈ RunState.starting :: states) : t = .starting ∨ t = .running ∨ t.isTerminal = true := by
  rcases List.mem_cons.mp ht with rfl | hmem
  · exact .inl rfl
  · rcases (List.pairwise_cons.mp (later_of_published h)).1 t hmem with rfl | ⟨-, hlater⟩
    · exact .inl rfl
    · exact .inr hlater

/-! ## What a status does -/

/-- What is thrown says that the backend's response is invalid. -/
def ThrowsInvalid {α : Type} (x : Except ControlError α) : Prop := ∀ e, x = .error e → ∃ message, e = SemanticRunStatusValidator.invalid message

theorem ThrowsInvalid.refuseIf (c : Bool) (message : String) :
    ThrowsInvalid (refuseIf c (SemanticRunStatusValidator.invalid message)) := by
  intro e he
  exact ⟨message, (refuseIf_eq_error.mp he).2.symm⟩

theorem ThrowsInvalid.bind {α β : Type} {x : Except ControlError α} {f : α → Except ControlError β} (hx : ThrowsInvalid x)
    (hf : ∀ a, ThrowsInvalid (f a)) : ThrowsInvalid (x >>= f) := by
  intro e he
  rcases bind_eq_error.mp he with herror | ⟨a, -, herror⟩
  · exact hx e herror
  · exact hf a e herror

theorem ThrowsInvalid.forM {α : Type} {xs : List α} {f : α → Except ControlError Unit} (hf : ∀ x, ThrowsInvalid (f x)) :
    ThrowsInvalid (forM xs f) := by
  induction xs with
  | nil =>
    intro e he
    cases he
  | cons x xs ih =>
    rw [List.forM_cons]
    exact (hf x).bind fun _ => ih

theorem throws_validateTimeline (state : RunState) (startedAt completedAt : Option DateTimeOffset) (subject : String) :
    ThrowsInvalid (SemanticRunStatusValidator.validateTimeline state startedAt completedAt subject) := by
  unfold SemanticRunStatusValidator.validateTimeline
  split
  · exact .refuseIf _ _
  · split
    · intro e he
      exact ⟨_, (Except.error.inj he).symm⟩
    · split
      · exact .refuseIf _ _
      · exact .refuseIf _ _

theorem throws_validate (status : SemanticRunStatus) (id : String) :
    ThrowsInvalid (SemanticRunStatusValidator.validate status id) := by
  refine (ThrowsInvalid.refuseIf _ _).bind fun _ => (ThrowsInvalid.refuseIf _ _).bind fun _ => ThrowsInvalid.bind ?_ fun _ =>
    (ThrowsInvalid.refuseIf _ _).bind fun _ => (ThrowsInvalid.refuseIf _ _).bind fun _ => (ThrowsInvalid.forM fun stage => ?_).bind
      fun _ => (ThrowsInvalid.refuseIf _ _).bind fun _ => .forM fun diagnostic => .refuseIf _ _
  · unfold SemanticRunStatusValidator.validateRunTimeline
    split
    · exact .refuseIf _ _
    · exact throws_validateTimeline _ _ _ _
  · refine (ThrowsInvalid.refuseIf _ _).bind fun _ => (throws_validateTimeline _ _ _ _).bind fun _ => .forM fun node => ?_
    exact (ThrowsInvalid.refuseIf _ _).bind fun _ => throws_validateTimeline _ _ _ _

/-- The state a status asks for. -/
def asked (r : RunMetadata) (status : SemanticRunStatus) : RunState :=
  if r.state = .cancelRequested ∧ status.state.isTerminal = false then .cancelRequested else status.state

/-- A status is refused if it is valid and asks for a state the run has no transition to. -/
theorem refused_iff {r : RunMetadata} {status : SemanticRunStatus} {now : DateTimeOffset} : Refused r status now ↔
    SemanticRunStatusValidator.validate status r.id = .ok () ∧ r.state.canTransitionTo (asked r status) = false := by
  have hversion : checkVersion r (some r.version) = .ok () := by
    rw [checkVersion, refuseIf_eq_ok]
    exact bne_self_eq_false r.version
  constructor
  · rintro ⟨next, hnext⟩
    simp only [applyStatus, bind_eq_error, refuseIf_eq_error] at hnext
    rcases hnext with hinvalid | ⟨_, hvalid, hstale | ⟨_, -, hrefused | ⟨_, -, hlater⟩⟩⟩
    · obtain ⟨message, hmessage⟩ := throws_validate status r.id _ hinvalid
      cases hmessage
    · rw [hversion] at hstale
      cases hstale
    · exact ⟨hvalid, by simpa [asked] using hrefused.1⟩
    · split at hlater
      · cases hlater
      · simp only [bind_eq_error, refuseIf_eq_error, checkedSucc] at hlater
        rcases hlater with ⟨-, hinvalid⟩ | ⟨_, -, hoverflow | ⟨_, -, hpure⟩⟩
        · cases hinvalid
        · split at hoverflow
          · cases hoverflow
          · cases hoverflow
        · cases hpure
  · rintro ⟨hvalid, hrefused⟩
    refine ⟨asked r status, ?_⟩
    simp only [applyStatus, hvalid, hversion, bind, Except.bind]
    rw [show (if r.state = .cancelRequested ∧ status.state.isTerminal = false then RunState.cancelRequested else status.state) =
      asked r status from rfl, hrefused]
    rfl

/-- A status that returns is the next state, or the run was terminal or waits for its cancellation. -/
theorem applyStatus_state {r r' : RunMetadata} {expected : Int} {status : SemanticRunStatus} {now : DateTimeOffset}
    (h : applyStatus r expected status now = .ok r') : r' = r ∨ r'.state = .cancelRequested ∨ r'.state = status.state := by
  rcases applyStatus_cases h with ⟨hsame, -⟩ | ⟨-, -, -, next, hnext, -, rfl⟩
  · exact .inl hsame
  · refine .inr ?_
    show next = .cancelRequested ∨ next = status.state
    rw [hnext]
    split
    · exact .inl rfl
    · exact .inr rfl

/-! ## A run of the control API -/

/-- A state the control API can hold after these of the backend. -/
def Held (states : List RunState) (s : RunState) : Prop :=
  s.requiresStartReconciliation = true ∨ s = .cancelRequested ∨ s.isTerminal = true ∨ s ∈ states

theorem Held.mono {states states' : List RunState} {s : RunState} (h : Held states s) (hsub : states ⊆ states') :
    Held states' s := h.imp_right (Or.imp_right (Or.imp_right fun hmem => hsub hmem))

theorem step_held {states : List RunState} {r : RunMetadata} (event : Event) (h : Held states r.state) :
    Held (states ++ (event.state?).toList) (step r (event.transition r)).state := by
  have hself : Held (states ++ (event.state?).toList) r.state := h.mono (List.subset_append_left ..)
  unfold step
  split
  · rename_i next happly
    cases event with
    | observe status now =>
      rcases applyStatus_state happly with rfl | hstate | hstate
      · exact hself
      · exact .inr (.inl hstate)
      · exact .inr (.inr (.inr (by simp [Event.state?, hstate])))
    | cancel expected now =>
      obtain ⟨m, hm, rfl⟩ := map_eq_ok.mp happly
      rcases cancel_cases hm with hsame | ⟨-, hcancelled⟩ | ⟨-, -, -, hrequested⟩
      · rw [hsame]
        exact hself
      · rw [hcancelled]
        exact .inr (.inr (.inl rfl))
      · rw [hrequested]
        exact .inr (.inl rfl)
    | deliver generation now =>
      rcases deliver_cases happly with rfl | ⟨-, rfl⟩
      · exact hself
      · exact hself
  · exact hself

/-- The state held is one of those seen, if the run waits for nothing and has not ended. -/
theorem follow_held {start : RunMetadata} (hstart : start.state.requiresStartReconciliation = true) (events : List Event) :
    Held (seen events) (follow start events).state := by
  induction events using List.reverseRecOn with
  | nil => exact .inl hstart
  | append_singleton events event ih =>
    have hseen : seen (events ++ [event]) = seen events ++ (event.state?).toList := by
      rw [seen, List.filterMap_append, seen]
      cases event <;> rfl
    have hfollow : follow start (events ++ [event]) = step (follow start events) (event.transition (follow start events)) := by
      rw [follow, List.foldl_append, follow]
      rfl
    rw [hseen, hfollow]
    exact step_held event ih

/-- A later state of the backend is a transition from one held, unless a run that goes on is cancelled. -/
theorem canTransitionTo_of_later {s t : RunState} (hs : s = .starting ∨ s = .running) (h : Later s t)
    (hcancelled : t ≠ .cancelled) : s.canTransitionTo t = true := by
  rcases h with rfl | ⟨-, rfl | hterminal⟩
  · rcases hs with rfl | rfl <;> rfl
  · rcases hs with rfl | rfl <;> rfl
  · cases t with
    | cancelled => exact absurd rfl hcancelled
    | succeeded | failed => rcases hs with rfl | rfl <;> rfl
    | _ => cases hterminal

theorem asked_of_not_requested {r : RunMetadata} {status : SemanticRunStatus} (h : r.state ≠ .cancelRequested) :
    asked r status = status.state := if_neg fun hboth => h hboth.1

/-- A run that has ended stays as it is. -/
theorem step_ended {r : RunMetadata} (hended : r.state.isTerminal = true) (expected : Int) (status : SemanticRunStatus)
    (now : DateTimeOffset) : step r (.applyStatus expected status now) = r := by
  unfold step
  split
  · rename_i next happly
    rcases applyStatus_cases happly with ⟨hsame, -⟩ | ⟨hactive, -⟩
    · exact hsame
    · rw [hended] at hactive
      cases hactive
  · rfl

/-- A valid status that is not refused and is timely ends the run, if it is terminal. -/
theorem step_ends {r : RunMetadata} {status : SemanticRunStatus} {now : DateTimeOffset}
    (hvalid : SemanticRunStatusValidator.validate status r.id = .ok ()) (hterminal : status.state.isTerminal = true)
    (htimely : Timely r status) (hcan : r.state.canTransitionTo (asked r status) = true) :
    (step r (.applyStatus r.version status now)).state.isTerminal = true := by
  have hversion : checkVersion r (some r.version) = .ok () := by
    rw [checkVersion, refuseIf_eq_ok]
    exact bne_self_eq_false r.version
  have hasked : asked r status = status.state := if_neg fun hboth => by simp [hterminal] at hboth
  by_cases hended : r.state.isTerminal = true
  · rwa [step_ended hended]
  · have hfinalized : (status.finalizedAt.any fun finalized => (r.startedAt.or status.startedAt).any (finalized < ·)) = false := by
      cases hf : status.finalizedAt with
      | none => rfl
      | some finalized =>
        cases hs : r.startedAt.or status.startedAt with
        | none => rfl
        | some started => simpa using htimely.finalized finalized started hf hs
    have hreturns : ∃ next, applyStatus r r.version status now = .ok next ∧ next.state = status.state := by
      rw [hasked] at hcan
      have hif : (if r.state = .cancelRequested ∧ status.state.isTerminal = false then RunState.cancelRequested
          else status.state) = status.state := hasked
      simp only [applyStatus, hvalid, hversion, bind, Except.bind, hif, hcan, hfinalized, checkedSucc, if_pos htimely.version,
        if_neg hended]
      exact ⟨_, rfl, rfl⟩
    obtain ⟨next, happly, hstate⟩ := hreturns
    have hstep : step r (.applyStatus r.version status now) = next := by
      rw [step, Transition.apply, happly]
    rw [hstep, hstate]
    exact hterminal

/-- A run that waits to start can go to every state of the backend. -/
theorem canTransitionTo_of_waiting {r : RunMetadata} {status : SemanticRunStatus}
    (hwaits : r.state.requiresStartReconciliation = true)
    (hstatus : status.state = .starting ∨ status.state = .running ∨ status.state.isTerminal = true) :
    r.state.canTransitionTo (asked r status) = true := by
  rw [asked_of_not_requested fun h => by rw [h] at hwaits; cases hwaits]
  cases hstate : r.state with
  | startPending | dispatchUnknown =>
    rcases hstatus with h | h | h
    · rw [h]
      rfl
    · rw [h]
      rfl
    · cases hterminal : status.state with
      | cancelled | succeeded | failed => rfl
      | _ =>
        rw [hterminal] at h
        cases h
  | _ =>
    rw [hstate] at hwaits
    cases hwaits

/-- A run that waits for its cancellation stays so, or ends. -/
theorem canTransitionTo_of_requested {r : RunMetadata} {status : SemanticRunStatus} (h : r.state = .cancelRequested) :
    r.state.canTransitionTo (asked r status) = true := by
  unfold asked
  rw [h]
  cases status.state <;> rfl

theorem seen_split {before after : List Event} {status : SemanticRunStatus} {now : DateTimeOffset} :
    seen (before ++ .observe status now :: after) = seen before ++ status.state :: seen after := by
  rw [seen, List.filterMap_append, List.filterMap_cons]
  rfl

/-- The control API follows the states of the backend it sees, in order and in part, exactly where the
    backend does not cancel a run that the control API holds to be starting or running. -/
theorem statuses_follow {start : RunMetadata} (hstart : start.state.requiresStartReconciliation = true) {states : List RunState}
    (hpublished : Published states) {events : List Event} (hseen : (seen events).Sublist (.starting :: states)) :
    Follows start events ↔ NoSurprise start events := by
  constructor
  · intro hfollows before status now after hevents hvalid hcancelled
    have hactive : ∀ s, s = .starting ∨ s = .running → (follow start before).state ≠ s := by
      intro s hs hstate
      have hasked : asked (follow start before) status = .cancelled := by
        rw [asked_of_not_requested (by rcases hs with rfl | rfl <;> rw [hstate] <;> decide), hcancelled]
      have hrefused : Refused (follow start before) status now := by
        refine refused_iff.mpr ⟨hvalid, ?_⟩
        rw [hasked, hstate]
        rcases hs with rfl | rfl <;> rfl
      have hended := (hfollows.accepted before status now after hevents hrefused).1
      rw [hstate] at hended
      rcases hs with rfl | rfl <;> cases hended
    exact ⟨hactive .starting (.inl rfl), hactive .running (.inr rfl)⟩
  · intro hnone
    have hcan : ∀ before status now after, events = before ++ .observe status now :: after →
        SemanticRunStatusValidator.validate status (follow start before).id = .ok () →
        (follow start before).state.canTransitionTo (asked (follow start before) status) = true ∨
          ((follow start before).state.isTerminal = true ∧ (follow start before).state ≠ status.state) := by
      intro before status now after hevents hvalid
      have hall : (seen before ++ status.state :: seen after).Sublist (.starting :: states) := by
        rw [← @seen_split before after status now, ← hevents]
        exact hseen
      have hbackend : ∀ t ∈ seen before ++ status.state :: seen after, t = .starting ∨ t = .running ∨ t.isTerminal = true :=
        fun t ht => backend_of_published hpublished (hall.subset ht)
      have hstatus := hbackend status.state (by simp)
      have hpairs := List.pairwise_append.mp ((later_of_published hpublished).sublist hall)
      have hnocancel := hnone before status now after hevents hvalid
      have hheld := follow_held hstart before
      generalize follow start before = r at hheld hnocancel ⊢
      by_cases hended : r.state.isTerminal = true
      · by_cases hsame : r.state = status.state
        · refine .inl ?_
          rw [asked_of_not_requested (fun h => by rw [h] at hended; cases hended), RunState.canTransitionTo_of_isTerminal hended]
          exact hsame
        · exact .inr ⟨hended, hsame⟩
      -- It waits to start, waits for its cancellation, or is in a state of the backend seen before.
      · refine .inl ?_
        rcases hheld with hwaits | hrequested | hterminal | hmem
        · exact canTransitionTo_of_waiting hwaits hstatus
        · exact canTransitionTo_of_requested hrequested
        · exact absurd hterminal hended
        · have hactive : r.state = .starting ∨ r.state = .running := by
            rcases hbackend r.state (List.mem_append_left _ hmem) with h | h | h
            · exact .inl h
            · exact .inr h
            · exact absurd h hended
          rw [asked_of_not_requested fun h => by rw [h] at hactive; simp at hactive]
          refine canTransitionTo_of_later hactive (hpairs.2.2 _ hmem _ List.mem_cons_self) fun hcancelled => ?_
          obtain ⟨hstarting, hrunning⟩ := hnocancel hcancelled
          exact hactive.elim hstarting hrunning
    refine ⟨fun before status now after hevents hrefused => ?_, fun before status now after hevents hvalid hterminal htimely => ?_⟩
    · obtain ⟨hvalid, hcannot⟩ := refused_iff.mp hrefused
      rcases hcan before status now after hevents hvalid with htransition | hended
      · rw [htransition] at hcannot
        cases hcannot
      · exact hended
    · have hstep : follow start (before ++ [.observe status now]) =
          step (follow start before) (.applyStatus (follow start before).version status now) := by
        rw [follow, List.foldl_append]
        rfl
      rw [hstep]
      rcases hcan before status now after hevents hvalid with htransition | ⟨hended, hother⟩
      · exact step_ends hvalid hterminal htimely htransition
      · rwa [step_ended hended]

/-! ## Two runs of the backend -/

/-- A run as it is created. -/
def created : RunMetadata :=
  create "run_1" ⟨"request-1", "workload", "profit by region", 1, "UTC", .regionalQuarterlyProfit, .thread, .normal⟩ "user" 1

/-- A status without stages. -/
def bare (state : RunState) (finalizedAt : Option DateTimeOffset) : SemanticRunStatus :=
  ⟨"run_1", state, some 2, finalizedAt, [], ⟨0, 0⟩, []⟩

theorem published_cancelled : Published [.running, .cancelled] :=
  .cons_cons .begin (.cons_cons (.finish (.inr rfl) rfl) (.singleton _))

/-- The backend is seen running, and cancels once the control API has asked for it. -/
def cancelledRun : List Event :=
  [.observe (bare .running none) 3, .cancel none 4, .observe (bare .cancelled (some 5)) 6]

theorem cancelledRun_follows : Follows created cancelledRun := by
  refine (statuses_follow rfl published_cancelled (by decide)).mpr fun before status now after hevents _ hcancelled => ?_
  rcases before with _ | ⟨a, _ | ⟨b, _ | ⟨c, before⟩⟩⟩
  · obtain ⟨hfirst, -⟩ := List.cons.inj hevents
    obtain ⟨rfl, -⟩ := Event.observe.inj hfirst
    cases hcancelled
  · obtain ⟨-, hrest⟩ := List.cons.inj hevents
    obtain ⟨hfirst, -⟩ := List.cons.inj hrest
    cases hfirst
  · obtain ⟨rfl, hrest⟩ := List.cons.inj hevents
    obtain ⟨rfl, -⟩ := List.cons.inj hrest
    decide +kernel
  · have hlength := congrArg List.length hevents
    simp [cancelledRun] at hlength

/-- The backend is seen running, and shuts down. -/
def shutdownRun : List Event := [.observe (bare .running none) 3, .observe (bare .cancelled (some 5)) 6]

/-- The control API refuses the backend's last word, and holds the run to be running. -/
theorem shutdown_refused : created.state.requiresStartReconciliation = true ∧ Published [.running, .cancelled] ∧
    (seen shutdownRun).Sublist [.starting, .running, .cancelled] ∧ (follow created shutdownRun).state = .running ∧
    ¬ Follows created shutdownRun := by
  refine ⟨rfl, published_cancelled, by decide, by decide +kernel, fun hfollows => ?_⟩
  have hrefused : Refused (follow created [.observe (bare .running none) 3]) (bare .cancelled (some 5)) 6 :=
    refused_iff.mpr (by decide +kernel)
  have hended := (hfollows.accepted [_] (bare .cancelled (some 5)) 6 [] rfl hrefused).1
  exact absurd hended (by decide +kernel)

end DataNexus.Control.BackendStatuses
