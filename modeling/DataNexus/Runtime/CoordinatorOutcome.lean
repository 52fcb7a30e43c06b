/-
  DataNexus.Runtime.CoordinatorOutcome — what a run leaves behind.

  - `returned_run`: `run` returns, its caller not being cancelled. Each scope's states are a
    path of STATE_TRANSITIONS with one terminal event, the last; no node is started before
    its dependencies have succeeded; the state returned is that of the first wave that did
    not succeed, else CANCELLED if a cancellation was accepted, else SUCCEEDED; there is a
    manifest exactly in the last case.
  - `cancelled_run`: `run` leaves with CancelledError. Each scope still has one terminal
    event, the last, as long as the finalizer reads the log when no node task is between
    its READY event and its own terminal event.
  - `straggler_twice`: where it does not wait for such a task, the node gets two.
-/

import DataNexus.Runtime.CoordinatorRun

namespace DataNexus.Runtime.Coordinator

open Lib ExecutionState

variable {plan : PhysicalPlan} {lib : ScalarParsers}

def execute (plan : PhysicalPlan) (events : List Ev) : St := events.foldl (step plan) init

theorem execute_append (events : List Ev) (ev : Ev) : execute plan (events ++ [ev]) = step plan (execute plan events) ev := by
  simp [execute]

theorem inv_init : Inv plan init := by
  have hstate : ∀ σ, stateIn [] σ = pending := fun _ => rfl
  refine ⟨Journal.legal_nil, fun _ => trivial, fun _ => ⟨fun h => (by cases h), fun h => (by cases h)⟩,
    ⟨fun h => (by cases h), fun h => (by cases h)⟩, fun _ h => absurd rfl h, fun h => (by cases h), fun _ => rfl,
    fun _ => ⟨.inl rfl, rfl⟩, ⟨fun _ h => absurd rfl h, fun h => (by cases h), ?_⟩, rfl,
    fun w _ => ⟨hstate _, fun id _ => ⟨rfl, hstate _⟩⟩⟩
  intro pre id post h
  simp [init] at h

/-- The finalizer's reading of the log finds every node task calm. -/
def CalmRead (plan : PhysicalPlan) (s : St) (ev : Ev) : Prop :=
  ev = .run .list → s.run = .snapshot → ∀ node ∈ plan.nodes, (s.node node.id).calm = true

theorem Inv.step (hplan : Accepted lib plan) {s : St} (h : Inv plan s) {ev : Ev} (hcalm : CalmRead plan s ev) :
    Inv plan (step plan s ev) := by
  cases ev with
  | node id e => exact h.node hplan id e
  | outerCancel => exact h.outerCancel
  | cancelCall => exact h.cancelCall
  | run e =>
    cases e with
    | acquire => exact h.acquire
    | append => exact h.append hplan
    | resume => exact h.resume hplan
    | gathered => exact h.gathered
    | deliver => exact h.deliver
    | list =>
      refine h.list hplan fun hs id => ?_
      by_cases hid : s.node id = .idle
      · simp [hid, NodePc.calm]
      · obtain ⟨w, -, hw⟩ := h.known id hid
        obtain ⟨node, hn, -, rfl⟩ := mem_waveNodes.mp hw
        exact hcalm rfl hs node hn

/-! ## A run that returns -/

/-- Exactly one terminal event, the last one. -/
def EndsOnce (log : List Event) (σ : Scope) : Prop :=
  ∃ pre last, Journal.history log σ = pre ++ [last] ∧ last.isTerminal = true ∧ ∀ state ∈ pre, state.isTerminal = false

theorem endsOnce_of_isTerminal {log : List Event} (h : LegalLog log) {σ : Scope}
    (hσ : (stateIn log σ).isTerminal = true) : EndsOnce log σ := by
  obtain ⟨pre, hpre, hopen⟩ := h.settled (fun state => state.isTerminal = true)
    (fun _ _ => not_canTransition_of_isTerminal) hσ (by simp [isTerminal])
  exact ⟨pre, stateIn log σ, hpre, hσ, fun state hs => by simpa using hopen state hs⟩

/-- The first wave whose stage did not succeed. -/
def firstUnsuccessful (plan : PhysicalPlan) (log : List Event) : Option Nat :=
  (waves plan).find? fun w => stateIn log (.stage w) ≠ succeeded

/-- The state of a run, read off its log. -/
def verdictOf (plan : PhysicalPlan) (log : List Event) (cancelAccepted : Bool) : ExecutionState :=
  match firstUnsuccessful plan log with
  | some w => terminalStageState ((waveNodes plan w).map fun id => stateIn log (.node id))
  | none => if cancelAccepted then cancelled else succeeded

structure Concluded (plan : PhysicalPlan) (s : St) (state : ExecutionState) (manifest : Bool) : Prop where
  ends : ∀ σ ∈ scopes plan, EndsOnce s.log σ
  path : ∀ σ, List.IsChain canTransition (pending :: Journal.history s.log σ)
  order : StartedAfter plan s.log
  verdict : state = verdictOf plan s.log s.cancelAccepted
  stage : ∀ w, firstUnsuccessful plan s.log = some w → stateIn s.log (.stage w) = state
  manifest : manifest = true ↔ state = succeeded
  accepted : s.cancelAccepted = true → state ≠ succeeded

theorem firstUnsuccessful_split {b : Board} {done rest : List Nat} {w : Nat} (hsplit : waves plan = done ++ w :: rest)
    (hwon : ∀ v ∈ done, Won plan b v) (hw : stateIn b.log (.stage w) ≠ succeeded) :
    firstUnsuccessful plan b.log = some w := by
  have hdone : done.find? (fun w => stateIn b.log (.stage w) ≠ succeeded) = none := by
    rw [List.find?_eq_none]
    intro v hv
    simp [(hwon v hv).stage]
  rw [firstUnsuccessful, hsplit, List.find?_append, hdone, List.find?_cons_of_pos (by simpa using hw)]
  rfl

theorem Over.verdictOf {b : Board} {state : ExecutionState} (h : Over plan b state)
    (hwf : ∀ id, (b.node id).WellFormed) :
    state = verdictOf plan b.log b.cancelAccepted ∧
      ∀ w, firstUnsuccessful plan b.log = some w → stateIn b.log (.stage w) = state := by
  have ht := h.normal.tracked
  cases h.verdict with
  | all hwon hs =>
    have hnone : firstUnsuccessful plan b.log = none := by
      rw [firstUnsuccessful, List.find?_eq_none]
      intro v hv
      simp [(hwon v hv).stage]
    simp [Coordinator.verdictOf, hnone, hs]
  | @stopped skip rest hst hshut =>
    cases hst with
    | cancelled hsplit hne hwon hf hs =>
      subst hf hs
      obtain ⟨w, rest, rfl⟩ := List.exists_cons_of_ne_nil hne
      have hscopes := (hshut w (by simp)).scopes
      have hstage : stateIn b.log (.stage w) = cancelled := hscopes _ (mem_waveScopes.mpr (.inl rfl))
      have hfirst := firstUnsuccessful_split hsplit hwon (by simp [hstage])
      refine ⟨?_, fun v hv => by rw [hfirst] at hv; cases hv; exact hstage⟩
      -- The wave has a node, and all its nodes were closed as CANCELLED.
      have hnodes : ∀ x ∈ (waveNodes plan w).map fun id => stateIn b.log (.node id), x = cancelled := by
        intro x hx
        obtain ⟨id, hid, rfl⟩ := List.mem_map.mp hx
        exact hscopes _ (mem_waveScopes.mpr (.inr ⟨id, hid, rfl⟩))
      have hsome : ((waveNodes plan w).map fun id => stateIn b.log (.node id)) ≠ [] := by
        simpa using waveNodes_ne_nil (hsplit ▸ by simp : w ∈ waves plan)
      rw [Coordinator.verdictOf, hfirst]
      exact (terminalStageState_cancelled hsome hnodes).symm
    | @ended done _ w hsplit hwon hend hstage hf hs =>
      have hfirst := firstUnsuccessful_split hsplit hwon (by rwa [hstage])
      refine ⟨?_, fun v hv => by rw [hfirst] at hv; cases hv; exact hstage⟩
      rw [Coordinator.verdictOf, hfirst]
      have hmap : (waveNodes plan w).map (fun id => stateIn b.log (.node id)) =
          (waveNodes plan w).map (outcomeOf ∘ b.node) :=
        List.map_congr_left fun id hid => (hend.closed ht hwf hid).1
      show state = terminalStageState _
      rw [hmap]
      exact hend.state.symm

theorem Inv.concluded {s : St} (h : Inv plan s) {state : ExecutionState} {manifest : Bool}
    (hret : s.run = .returned state manifest) : Concluded plan s state manifest := by
  have hphase := h.phase
  rw [hret] at hphase
  obtain ⟨hover, hrun, hman⟩ := hphase
  obtain ⟨hverdict, hstage⟩ := hover.verdictOf h.wellFormed
  refine ⟨fun σ hσ => endsOnce_of_isTerminal h.legal (hover.terminal hrun h.wellFormed hσ), h.legal.path,
    hover.normal.order, hverdict, hstage, hman, fun ha hs => ?_⟩
  cases hover.verdict with
  | all _ hv => simp [ha, hs] at hv
  | stopped hst _ => exact hst.final_eq.2 hs

theorem unwinding_withEmit (pc : RunPc) (e : Emit) : (pc.withEmit e).unwinding = pc.unwinding := by
  cases pc <;> rfl

/-- Without a cancellation from outside, `run` never gets into its handler. -/
theorem step_uncancelled {s : St} (h : Inv plan s) {ev : Ev} (hev : ev ≠ .outerCancel)
    (hs : s.runInterrupted = false ∧ s.run.unwinding = false) :
    (step plan s ev).runInterrupted = false ∧ (step plan s ev).run.unwinding = false := by
  obtain ⟨hint, hun⟩ := hs
  cases ev with
  | node id e =>
    show (nodeStep s id e).runInterrupted = false ∧ (nodeStep s id e).run.unwinding = false
    rcases nodeStep_cases h.wellFormed id e with hn | ⟨move, -, hn⟩
    · rw [hn]
      exact ⟨hint, hun⟩
    · rw [hn]
      exact ⟨hint, hun⟩
  | outerCancel => exact absurd rfl hev
  | cancelCall =>
    show (cancelCall s).runInterrupted = false ∧ (cancelCall s).run.unwinding = false
    unfold cancelCall
    split <;> exact ⟨hint, hun⟩
  | run e =>
    cases e with
    | acquire =>
      show (runAcquire s).runInterrupted = false ∧ (runAcquire s).run.unwinding = false
      unfold runAcquire
      split
      · split
        · exact ⟨hint, hun⟩
        · exact ⟨hint, (unwinding_withEmit _ _).trans hun⟩
      · exact ⟨hint, hun⟩
    | append =>
      show (runAppend s).runInterrupted = false ∧ (runAppend s).run.unwinding = false
      unfold runAppend
      split
      · exact ⟨hint, (unwinding_withEmit _ _).trans hun⟩
      · exact ⟨hint, hun⟩
    | resume =>
      show (runResume plan s).runInterrupted = false ∧ (runResume plan s).run.unwinding = false
      unfold runResume
      split
      · rename_i event hemit
        rw [if_neg (by simp [hint])]
        have hmoved := advance_moved plan (s := { s with lock := none }) hemit
        exact ⟨hmoved.runInterrupted.trans hint, hmoved.unwinding hun⟩
      · exact ⟨hint, hun⟩
    | gathered =>
      show (runGathered plan s).runInterrupted = false ∧ (runGathered plan s).run.unwinding = false
      unfold runGathered
      split
      · rename_i w rest hpc
        have hphase := h.phase
        rw [hpc] at hphase
        -- A child that raises was cancelled with the gather.
        have hraised : ¬ ((waveNodes plan w).any (isRaised ∘ s.node) ||
            (s.runInterrupted && (waveNodes plan w).all (isReturned ∘ s.node))) = true := by
          intro hr
          rw [hint, Bool.false_and, Bool.or_false, List.any_eq_true] at hr
          obtain ⟨id, -, hid⟩ := hr
          rw [hphase.2.2.2.2.2 id (.inr hid)] at hint
          cases hint
        unfold gathered
        rw [if_neg hraised]
        split
        · exact ⟨hint, rfl⟩
        · exact ⟨hint, hun⟩
      · exact ⟨hint, hun⟩
    | list =>
      show (runList plan s).runInterrupted = false ∧ (runList plan s).run.unwinding = false
      unfold runList
      split
      · rw [if_neg (by simp [hint])]
        exact ⟨hint, rfl⟩
      · rename_i hpc
        rw [hpc] at hun
        cases hun
      · exact ⟨hint, hun⟩
    | deliver =>
      show (runDeliver s).runInterrupted = false ∧ (runDeliver s).run.unwinding = false
      unfold runDeliver
      rw [if_neg (by simp [hint])]
      exact ⟨hint, hun⟩

theorem inv_execute_uncancelled (hplan : Accepted lib plan) {events : List Ev} (hev : .outerCancel ∉ events) :
    Inv plan (execute plan events) ∧ (execute plan events).runInterrupted = false ∧
      (execute plan events).run.unwinding = false := by
  induction events using List.reverseRecOn with
  | nil => exact ⟨inv_init, rfl, rfl⟩
  | append_singleton events ev ih =>
    rw [List.mem_append, not_or, List.mem_singleton] at hev
    obtain ⟨hinv, hquiet⟩ := ih hev.1
    rw [execute_append]
    refine ⟨hinv.step hplan fun _ hs => ?_, step_uncancelled hinv (Ne.symm hev.2) hquiet⟩
    rw [hs] at hquiet
    cases hquiet.2

/-- Every run of an accepted plan that returns, its caller not being cancelled. -/
theorem returned_run (lib : ScalarParsers) (plan : PhysicalPlan) (hplan : validatePhysicalPlan lib plan = .ok ())
    (events : List Ev) (hev : .outerCancel ∉ events) (state : ExecutionState) (manifest : Bool)
    (hret : (execute plan events).run = .returned state manifest) :
    Concluded plan (execute plan events) state manifest :=
  (inv_execute_uncancelled (validatePhysicalPlan_eq_ok.mp hplan) hev).1.concluded hret

section Example

/-- A source fragment that reads table `id`. -/
def scan (id : String) : PhysicalNode :=
  { id, operation := .select, dependencies := [], wave := 0, logicalNodeIds := [id], logicalOperations := []
    payload := .sourceFragment ⟨⟨"warehouse", "csv", id⟩, [bareSelect], []⟩ }

/-- Two source fragments and the join of them. -/
def forkJoin : PhysicalPlan :=
  { version := .v0, id := "fork-join", outputNodeId := "j"
    nodes := [scan "a", scan "b",
      { id := "j", operation := .join, dependencies := ["a", "b"], wave := 1, logicalNodeIds := ["j"]
        logicalOperations := [], payload := .operator bareJoin }] }

def emitRun : List Ev := [.run .acquire, .run .append, .run .resume]

def emitNode (id : String) : List Ev := [.node id .acquire, .node id .append, .node id .resume]

/-- Until both source fragments are made. -/
def untilGather : List Ev := .flatten [emitRun, emitRun, emitRun, emitRun, [.node "a" .start, .node "b" .start]]

/-- Both sources succeed, a cancellation is accepted, and the join finds it. -/
def cancelledJoin : List Ev :=
  .flatten [untilGather, emitNode "a", emitNode "b", [.node "a" .permit], emitNode "a", [.node "b" .permit],
    emitNode "b", [.node "b" (.waited .succeeded)], emitNode "b", [.node "a" (.waited .succeeded)], emitNode "a",
    [.run .gathered], emitRun, emitRun, emitRun, [.node "j" .start], emitNode "j", [.cancelCall, .node "j" .permit],
    emitNode "j", [.run .gathered], emitRun, emitRun, [.run .list]]

theorem cancelledJoin_concluded :
    (execute forkJoin cancelledJoin).run = .returned cancelled false ∧
      Concluded forkJoin (execute forkJoin cancelledJoin) cancelled false :=
  ⟨by decide +kernel, returned_run noParsers forkJoin (by decide +kernel) cancelledJoin (by decide +kernel) cancelled
    false (by decide +kernel)⟩

end Example

/-! ## A run that is cancelled from outside -/

/-- Every reading of the log by the finalizer finds the node tasks calm. -/
def CalmReads (plan : PhysicalPlan) : St → List Ev → Prop
  | _, [] => True
  | s, ev :: events => CalmRead plan s ev ∧ CalmReads plan (step plan s ev) events

instance (plan : PhysicalPlan) (s : St) (ev : Ev) : Decidable (CalmRead plan s ev) :=
  inferInstanceAs (Decidable (_ → _ → _))

instance decidableCalmReads (plan : PhysicalPlan) : ∀ (s : St) (events : List Ev), Decidable (CalmReads plan s events)
  | _, [] => .isTrue trivial
  | s, ev :: events => haveI := decidableCalmReads plan (step plan s ev) events; inferInstanceAs (Decidable (_ ∧ _))

theorem inv_of_calmReads (hplan : Accepted lib plan) {s : St} (h : Inv plan s) {events : List Ev}
    (hcalm : CalmReads plan s events) : Inv plan (events.foldl (step plan) s) := by
  induction events generalizing s with
  | nil => exact h
  | cons ev events ih => exact ih (h.step hplan hcalm.1) hcalm.2

/-- Every run of an accepted plan that leaves with CancelledError, cancelled any number of
    times, as long as the finalizer finds no node task that will still write its own
    terminal event. -/
theorem cancelled_run (lib : ScalarParsers) (plan : PhysicalPlan) (hplan : validatePhysicalPlan lib plan = .ok ())
    (events : List Ev) (hcalm : CalmReads plan init events) (hleft : (execute plan events).run = .left) :
    ∀ σ ∈ scopes plan, EndsOnce (execute plan events).log σ := by
  have h : Inv plan (execute plan events) := inv_of_calmReads (validatePhysicalPlan_eq_ok.mp hplan) inv_init hcalm
  have hphase := h.phase
  rw [hleft] at hphase
  intro σ hσ
  refine endsOnce_of_isTerminal h.legal ((hphase.cover σ hσ).resolve_right ?_)
  simp

section Example

/-- `run` is cancelled while `a` waits for the emitter's lock; `a` writes its terminal event
    before the finalizer reads the log. -/
def cancelledFork : List Ev :=
  .flatten [untilGather, emitNode "a",
    [.node "a" .permit, .outerCancel, .node "b" (.deliver false), .node "a" (.deliver false)], emitNode "a",
    [.run .gathered, .run .list], emitRun, emitRun, emitRun, emitRun, emitRun]

theorem cancelledFork_ends :
    (execute forkJoin cancelledFork).run = .left ∧
      ∀ σ ∈ scopes forkJoin, EndsOnce (execute forkJoin cancelledFork).log σ :=
  ⟨by decide +kernel, cancelled_run noParsers forkJoin (by decide +kernel) cancelledFork (by decide +kernel)
    (by decide +kernel)⟩

/-- The same, with `b` holding the lock: `b` raises once its READY event is written, the
    gather ends with it, and the log is read while `a`'s terminal event is on its way. -/
def straggler : List Ev :=
  .flatten [untilGather, emitNode "a",
    [.node "a" .permit, .node "b" .acquire, .outerCancel, .node "a" (.deliver false), .node "b" .append,
      .node "b" .resume, .node "a" .acquire, .run .gathered, .run .list, .node "a" .append, .node "a" .resume],
    emitRun, emitRun, emitRun, emitRun, emitRun, emitRun]

theorem straggler_twice :
    validatePhysicalPlan noParsers forkJoin = .ok () ∧ (execute forkJoin straggler).run = .left ∧
      (∀ node ∈ forkJoin.nodes, (execute forkJoin straggler).node node.id ∈
        [.idle, .returned cancelled, .raised ready]) ∧
      ¬ ∀ σ ∈ scopes forkJoin, EndsOnce (execute forkJoin straggler).log σ := by
  refine ⟨by decide +kernel, by decide +kernel, by decide +kernel, fun h => ?_⟩
  obtain ⟨pre, last, hpre, -, hopen⟩ := h (.node "a") (by decide +kernel)
  have hlog : Journal.history (execute forkJoin straggler).log (.node "a") = [ready, cancelled] ++ [cancelled] := by
    decide +kernel
  obtain ⟨rfl, -⟩ := List.append_inj' (hpre.symm.trans hlog) rfl
  simpa [isTerminal] using hopen cancelled (by simp)

end Example

end DataNexus.Runtime.Coordinator
