/-
  DataNexus.Runtime.CoordinatorLog — what the tasks of a run know about its log.

  The invariant ties each task's position to the last state the log has for its scope:
  a node task that is not idle is the only one that writes for its node (`Tracked`), the
  waves before the current one are won, the ones after it untouched, and while the rest is
  closed down every scope is closed or still queued. Every entry is then a transition of
  `STATE_TRANSITIONS`. Once the finalizer has read the log (`Settling`) the same holds as
  long as no node task was left that would still write its own terminal event (`calm`).
-/

import DataNexus.Runtime.Coordinator

namespace DataNexus.Runtime.Coordinator

open Lib ExecutionState

def canTransition (a b : ExecutionState) : Prop := b ∈ a.transitions

abbrev LegalLog (log : List Event) : Prop := Journal.Legal canTransition pending log

theorem not_canTransition_of_isTerminal {a b : ExecutionState} (h : a.isTerminal = true) : ¬ canTransition a b := by
  cases a <;> simp_all [canTransition, transitions, isTerminal]

theorem stateIn_append (log : List Event) (e : Event) (σ : Scope) :
    stateIn (log ++ [e]) σ = if e.scope = σ then e.state else stateIn log σ :=
  Journal.stateOf_append e σ

theorem stateIn_append_of_ne {log : List Event} {e : Event} {σ : Scope} (h : e.scope ≠ σ) :
    stateIn (log ++ [e]) σ = stateIn log σ :=
  Journal.stateOf_append_of_ne h

theorem legalLog_append {log : List Event} {e : Event} (h : LegalLog log)
    (he : canTransition (stateIn log e.scope) e.state) : LegalLog (log ++ [e]) :=
  Journal.legal_append h he

/-- In a legal log a scope has had a terminal event exactly if it is in a terminal state. -/
theorem hasTerminal_iff {log : List Event} (h : LegalLog log) (σ : Scope) :
    hasTerminal log σ = true ↔ (stateIn log σ).isTerminal = true := by
  induction log using List.reverseRecOn with
  | nil => simp [hasTerminal, stateIn, isTerminal]
  | append_singleton log e ih =>
    have ih := ih h.of_append
    have hany : hasTerminal (log ++ [e]) σ = (hasTerminal log σ || (decide (e.scope = σ) && e.state.isTerminal)) := by
      simp [hasTerminal]
    rw [hany, stateIn_append]
    by_cases he : e.scope = σ
    · have hopen : hasTerminal log σ = false := by
        rw [Bool.eq_false_iff, ne_eq, ih]
        exact fun ht => not_canTransition_of_isTerminal ht (he ▸ h log e [] rfl)
      simp [he, hopen]
    · simp [he, ih]

/-! ## The plan's waves -/

section Waves

variable {plan : PhysicalPlan}

theorem mem_waves {w : Nat} : w ∈ waves plan ↔ ∃ node ∈ plan.nodes, node.wave = w := by
  simp [waves]

theorem mem_waveNodes {w : Nat} {id : String} :
    id ∈ waveNodes plan w ↔ ∃ node ∈ plan.nodes, node.wave = w ∧ node.id = id := by
  simp [waveNodes, and_assoc]

theorem waves_nodup (plan : PhysicalPlan) : (waves plan).Nodup := (Kahn.sorted_perm _).nodup_iff.mpr (List.nodup_dedup _)

theorem waves_pairwise (plan : PhysicalPlan) : (waves plan).Pairwise (· < ·) := by
  have hle : (waves plan).Pairwise (· ≤ ·) := List.pairwise_insertionSort _ _
  exact (hle.and (waves_nodup plan)).imp fun ⟨h, hne⟩ => lt_of_le_of_ne h hne

theorem wave_unique (hnd : (plan.nodes.map (·.id)).Nodup) {v w : Nat} {id : String} (hv : id ∈ waveNodes plan v)
    (hw : id ∈ waveNodes plan w) : v = w := by
  obtain ⟨a, ha, rfl, hid⟩ := mem_waveNodes.mp hv
  obtain ⟨b, hb, rfl, rfl⟩ := mem_waveNodes.mp hw
  have h1 := find?_key_of_mem (fun n : PhysicalNode => n.id) hnd ha
  rw [hid] at h1
  exact congrArg (·.wave) (Option.some.inj (h1.symm.trans (find?_key_of_mem (fun n : PhysicalNode => n.id) hnd hb)))

theorem waveNodes_nodup (hnd : (plan.nodes.map (·.id)).Nodup) (w : Nat) : (waveNodes plan w).Nodup :=
  (Kahn.sorted_perm _).nodup_iff.mpr ((List.Sublist.map _ List.filter_sublist).nodup hnd)

theorem waveNodes_ne_nil {w : Nat} (h : w ∈ waves plan) : waveNodes plan w ≠ [] := by
  obtain ⟨node, hn, hw⟩ := mem_waves.mp h
  exact List.ne_nil_of_mem (mem_waveNodes.mpr ⟨node, hn, hw, rfl⟩)

/-- The scopes of a wave. -/
def waveScopes (plan : PhysicalPlan) (w : Nat) : List Scope := .stage w :: (waveNodes plan w).map .node

theorem mem_waveScopes {w : Nat} {σ : Scope} :
    σ ∈ waveScopes plan w ↔ σ = .stage w ∨ ∃ id ∈ waveNodes plan w, σ = .node id := by
  simp [waveScopes, eq_comm]

theorem run_notMem_waveScopes (w : Nat) : Scope.run ∉ waveScopes plan w := by
  simp [waveScopes]

theorem waveScopes_unique (hnd : (plan.nodes.map (·.id)).Nodup) {v w : Nat} {σ : Scope} (hv : σ ∈ waveScopes plan v)
    (hw : σ ∈ waveScopes plan w) : v = w := by
  rcases mem_waveScopes.mp hv with rfl | ⟨id, hid, rfl⟩
  · rcases mem_waveScopes.mp hw with h | ⟨_, _, h⟩
    · simpa using h
    · cases h
  · rcases mem_waveScopes.mp hw with h | ⟨id', hid', h⟩
    · cases h
    · obtain rfl : id = id' := by simpa using h
      exact wave_unique hnd hid hid'

theorem waveScopes_nodup (hnd : (plan.nodes.map (·.id)).Nodup) {ws : List Nat} (hws : ws.Nodup) :
    (ws.flatMap (waveScopes plan)).Nodup := by
  rw [List.nodup_flatMap]
  refine ⟨fun w _ => ?_, hws.imp fun hne σ hv hw => hne (waveScopes_unique hnd hv hw)⟩
  rw [waveScopes, List.nodup_cons]
  exact ⟨by simp, (waveNodes_nodup hnd w).map fun a b h => by simpa using h⟩

theorem scopes_nodup (hnd : (plan.nodes.map (·.id)).Nodup) : (scopes plan).Nodup := by
  rw [scopes, List.nodup_append]
  refine ⟨waveScopes_nodup hnd (waves_nodup plan), by simp, fun σ hσ τ hτ => ?_⟩
  obtain rfl : τ = .run := by simpa using hτ
  obtain ⟨w, -, hw⟩ := List.mem_flatMap.mp hσ
  rcases mem_waveScopes.mp hw with rfl | ⟨_, _, rfl⟩ <;> simp

theorem terminalizeWaves_eq (plan : PhysicalPlan) (ws : List Nat) (state : ExecutionState) :
    terminalizeWaves plan ws state = (ws.flatMap (waveScopes plan)).map (⟨·, state⟩) := by
  induction ws with
  | nil => rfl
  | cons w ws ih =>
    rw [terminalizeWaves] at ih ⊢
    simp [waveScopes, Function.comp_def, ih]

end Waves

theorem canTransition_terminalStageState (states : List ExecutionState) :
    canTransition running (terminalStageState states) := by
  unfold terminalStageState
  split_ifs <;> simp [canTransition, transitions]

theorem terminalStageState_eq_succeeded {states : List ExecutionState} :
    terminalStageState states = succeeded ↔ timedOut ∉ states ∧ failed ∉ states ∧ cancelled ∉ states := by
  unfold terminalStageState
  split_ifs <;> simp_all

theorem terminalStageState_cancelled {states : List ExecutionState} (hne : states ≠ [])
    (h : ∀ x ∈ states, x = cancelled) : terminalStageState states = cancelled := by
  obtain ⟨x, states, rfl⟩ := List.exists_cons_of_ne_nil hne
  have h1 : timedOut ∉ x :: states := fun hm => by simpa using h _ hm
  have h2 : failed ∉ x :: states := fun hm => by simpa using h _ hm
  obtain rfl := h x (by simp)
  unfold terminalStageState
  rw [if_neg (by simpa using h1), if_neg (by simpa using h2), if_pos (by simp)]

/-! ## Node tasks -/

namespace NodePc

/-- The node's state in the log, as far as its task wrote it. -/
def logged : NodePc → ExecutionState
  | idle | created | ready .waiting | ready .holding => pending
  | ready .appended | semaphore | started .waiting | started .holding => .ready
  | started .appended | executing | handoff _ => .running
  | terminal _ state .appended => state
  | terminal logged _ _ => logged
  | returned state => state
  | raised logged => logged

/-- The task holds the emitter's lock. -/
def holds : NodePc → Bool
  | ready .holding | ready .appended | started .holding | started .appended | terminal _ _ .holding
  | terminal _ _ .appended => true
  | _ => false

def WellFormed : NodePc → Prop
  | terminal logged state _ => canTransition logged state ∧ state.isTerminal ∧ state ≠ skipped
  | returned state => state.isTerminal ∧ state ≠ skipped
  | _ => True

/-- The task will not write a terminal event any more. -/
def calm : NodePc → Bool
  | semaphore | started _ | executing | handoff _ | terminal _ _ .waiting | terminal _ _ .holding => false
  | _ => true

/-- The task has not got past its READY event. -/
def early : NodePc → Bool
  | created | ready _ => true
  | _ => false

/-- The task is on its way to an outcome other than success. -/
def bad : NodePc → Bool
  | handoff _ | raised _ => true
  | terminal _ state _ => state != succeeded
  | returned state => state != succeeded
  | _ => false

end NodePc

/-- What one step of a node's task does. -/
structure MoveSpec (cancelEvent interrupted locked : Bool) (pc : NodePc) (move : NodeMove) : Prop where
  active : pc ≠ .idle ∧ isReturned pc = false ∧ isRaised pc = false
  notIdle : move.pc ≠ .idle
  wellFormed : move.pc.WellFormed
  silent : move.emits = none → move.pc.logged = pc.logged
  emits : ∀ state, move.emits = some state → canTransition pc.logged state ∧ move.pc.logged = state ∧ pc.holds = true ∧
    move.lock = .keep
  take : move.lock = .take → locked = false ∧ move.pc.holds = true
  free : move.lock = .free → pc.holds = true ∧ move.pc.holds = false
  keep : move.lock = .keep → move.pc.holds = pc.holds
  started : ∀ state, move.emits = some state → state = running → pc = .started .holding
  raised : isRaised move.pc = true → interrupted = true
  calm : pc.calm = true → (pc.early = true → interrupted = true) → move.pc.calm = true
  early : move.pc.early = true → pc.early = true ∧ (interrupted = true → move.consumes = false)
  cancels : move.cancels = true → move.pc.bad = true
  bad : pc.bad = true → move.pc.bad = true
  inflight : move.pc = .ready .holding → pc.early = true ∧ interrupted = false
  calmEmits : ∀ state, move.emits = some state → pc.calm = true → pc = .ready .holding ∧ state = .ready

theorem MoveSpec.consume {cancelEvent interrupted locked : Bool} {pc : NodePc} {move : NodeMove}
    (h : MoveSpec cancelEvent interrupted locked pc move) (he : pc.early = false) :
    MoveSpec cancelEvent interrupted locked pc { move with consumes := true } :=
  { h with early := fun hm => absurd (h.early hm).1 (by simp [he]) }

theorem afterWait_spec {cancelEvent interrupted locked : Bool} {result : Waited} {move : NodeMove}
    (h : afterWait cancelEvent result = some move) : MoveSpec cancelEvent interrupted locked .executing move := by
  cases result <;> cases cancelEvent <;> simp [afterWait] at h <;> subst h <;> constructor <;>
    simp [exceptNode, failNode, NodePc.WellFormed, NodePc.logged, NodePc.holds, NodePc.calm, NodePc.early, NodePc.bad,
      isReturned, isRaised, canTransition, transitions, isTerminal]

theorem nodeMove_spec {cancelEvent interrupted locked : Bool} {pc : NodePc} {e : NodeEv} {move : NodeMove}
    (hw : pc.WellFormed) (h : nodeMove cancelEvent interrupted locked pc e = some move) :
    MoveSpec cancelEvent interrupted locked pc move := by
  -- A table: one line of `nodeMove` per case, each decided by its guards.
  unfold nodeMove at h
  split at h <;> try split_ifs at h
  all_goals
    first
    | exact afterWait_spec h
    | obtain ⟨next, hnext, rfl⟩ := Option.map_eq_some_iff.mp h
      exact (afterWait_spec hnext).consume rfl
    | cases h; done
    | cases h
      constructor <;> simp_all [exceptNode, NodePc.WellFormed, NodePc.logged, NodePc.holds,
        NodePc.calm, NodePc.early, NodePc.bad, isReturned, isRaised, canTransition, transitions, isTerminal]
  -- What is left is that a terminal state is not RUNNING.
  rintro rfl
  simp at hw

/-! ## The invariant -/

/-- The head of the queue is out once its append is done. -/
def remaining (emit : Emit) (queue : List Event) : List Event := if emit = .appended then queue.tail else queue

def after (emit : Emit) (before state : ExecutionState) : ExecutionState := if emit = .appended then state else before

def RunPc.holds (pc : RunPc) : Bool :=
  match pc.emission with
  | some (_, .holding) | some (_, .appended) => true
  | _ => false

/-- The run is in its `except asyncio.CancelledError` or has left through it. -/
def RunPc.unwinding : RunPc → Bool
  | .snapshot | .finalizing _ _ | .left => true
  | _ => false

section Board

variable (plan : PhysicalPlan) (b : Board)

/-- A node is started after its dependencies have succeeded. -/
def StartedAfter (log : List Event) : Prop :=
  ∀ pre id post, log = pre ++ ⟨.node id, running⟩ :: post → ∀ node ∈ plan.nodes, node.id = id →
    ∀ d ∈ node.dependencies, stateIn pre (.node d) = succeeded

/-- The wave is untouched. -/
structure Fresh (w : Nat) : Prop where
  stage : stateIn b.log (.stage w) = pending
  nodes : ∀ id ∈ waveNodes plan w, b.node id = .idle ∧ stateIn b.log (.node id) = pending

structure Won (w : Nat) : Prop where
  stage : stateIn b.log (.stage w) = succeeded
  nodes : ∀ id ∈ waveNodes plan w, b.node id = .returned succeeded ∧ id ∈ b.manifests

/-- All nodes of the wave have an outcome, and these give `state`. -/
structure Ended (w : Nat) (state : ExecutionState) : Prop where
  nodes : ∀ id ∈ waveNodes plan w, isReturned (b.node id) = true
  state : terminalStageState ((waveNodes plan w).map (outcomeOf ∘ b.node)) = state
  manifests : ∀ id ∈ waveNodes plan w, outcomeOf (b.node id) = succeeded → id ∈ b.manifests

/-- The wave was closed down before it started. -/
structure Shut (w : Nat) (state : ExecutionState) : Prop where
  idle : ∀ id ∈ waveNodes plan w, b.node id = .idle
  scopes : ∀ σ ∈ waveScopes plan w, stateIn b.log σ = state

/-- Only a node's own task has written for it. -/
def Tracked : Prop := ∀ id, b.node id ≠ .idle → stateIn b.log (.node id) = (b.node id).logged

/-- No node task is under way. -/
def Quiet : Prop := ∀ id, (b.node id = .idle ∨ isReturned (b.node id) = true) ∧ b.interrupted id = false

/-- A task that has not got past its READY event has a CancelledError pending. -/
def Alerted : Prop := ∀ id, (b.node id).early = true → b.interrupted id = true

structure Normal : Prop where
  tracked : Tracked b
  blame : b.cancelEvent = true → b.cancelAccepted = true ∨ ∃ id, (b.node id).bad = true
  order : StartedAfter plan b.log

/-- In wave `w`, with `done` won before it and `rest` untouched. -/
structure AtWave (done : List Nat) (w : Nat) (rest : List Nat) : Prop where
  split : waves plan = done ++ w :: rest
  won : ∀ v ∈ done, Won plan b v
  fresh : ∀ v ∈ rest, Fresh plan b v
  run : stateIn b.log .run = running

/-- How the waves stand when the rest of them is closed down as `skip`, or would be: after
    the last one, at one that is not started, or after one that did not succeed. -/
inductive Stopped (final skip : ExecutionState) : List Nat → Prop
  | cancelled {done rest : List Nat} : waves plan = done ++ rest → rest ≠ [] → (∀ v ∈ done, Won plan b v) →
      final = cancelled → skip = cancelled → Stopped final skip rest
  | ended {done rest : List Nat} {w : Nat} : waves plan = done ++ w :: rest → (∀ v ∈ done, Won plan b v) →
      Ended plan b w final → stateIn b.log (.stage w) = final → final ≠ succeeded → skip = skipState final →
      Stopped final skip rest

/-- The state `run` returns, and why. -/
inductive Verdict (state : ExecutionState) : Prop
  | all : (∀ v ∈ waves plan, Won plan b v) → state = (if b.cancelAccepted then cancelled else succeeded) → Verdict state
  | stopped {skip : ExecutionState} {rest : List Nat} : Stopped plan b state skip rest →
      (∀ v ∈ rest, Shut plan b v skip) → Verdict state

structure Over (state : ExecutionState) : Prop where
  quiet : Quiet b
  normal : Normal plan b
  closed : b.accepting = false
  verdict : Verdict plan b state

/-- The finalizer has read the log and will write `queue`. -/
structure Settling (queue : List Event) : Prop where
  open_ : ∀ e ∈ queue, e.state = cancelled ∧ (stateIn b.log e.scope).isTerminal = false
  nodup : (queue.map (·.scope)).Nodup
  cover : ∀ σ ∈ scopes plan, (stateIn b.log σ).isTerminal = true ∨ σ ∈ queue.map (·.scope)
  calm : ∀ id, (b.node id).calm = true
  alerted : Alerted b
  inflight : ∀ id, b.node id = .ready .holding → stateIn b.log (.node id) = pending

/-- What holds where the run stands. -/
def Phase : RunPc → Prop
  | .runReady e =>
    Quiet b ∧ Normal plan b ∧ stateIn b.log .run = after e pending ready ∧ ∀ w ∈ waves plan, Fresh plan b w
  | .runStarted e =>
    Quiet b ∧ Normal plan b ∧ stateIn b.log .run = after e ready running ∧ ∀ w ∈ waves plan, Fresh plan b w
  | .stageReady w rest e => Quiet b ∧ Normal plan b ∧ (∃ done, AtWave plan b done w rest) ∧
    stateIn b.log (.stage w) = after e pending ready ∧
    ∀ id ∈ waveNodes plan w, b.node id = .idle ∧ stateIn b.log (.node id) = pending
  | .stageStarted w rest e => Quiet b ∧ Normal plan b ∧ (∃ done, AtWave plan b done w rest) ∧
    stateIn b.log (.stage w) = after e ready running ∧
    ∀ id ∈ waveNodes plan w, b.node id = .idle ∧ stateIn b.log (.node id) = pending
  | .gathering w rest => Normal plan b ∧ (∃ done, AtWave plan b done w rest) ∧ stateIn b.log (.stage w) = running ∧
    (∀ id ∈ waveNodes plan w, b.node id ≠ .idle) ∧ (b.runInterrupted = true → Alerted b) ∧
    ∀ id, b.interrupted id = true ∨ isRaised (b.node id) = true → b.runInterrupted = true
  | .stageEnded w state rest e => Quiet b ∧ Normal plan b ∧ (∃ done, AtWave plan b done w rest) ∧
    stateIn b.log (.stage w) = after e running state ∧ Ended plan b w state
  | .closing queue e final => Quiet b ∧ Normal plan b ∧ stateIn b.log .run = running ∧
    ∃ skip rest, Stopped plan b final skip rest ∧ (∀ v ∈ rest, ∀ id ∈ waveNodes plan v, b.node id = .idle) ∧
      (∀ x ∈ remaining e queue, x.state = skip ∧ stateIn b.log x.scope = pending) ∧
      ((remaining e queue).map (·.scope)).Nodup ∧
      (∀ v ∈ rest, ∀ σ ∈ waveScopes plan v, stateIn b.log σ = skip ∨ σ ∈ (remaining e queue).map (·.scope)) ∧
      ∀ σ ∈ (remaining e queue).map (·.scope), ∃ v ∈ rest, σ ∈ waveScopes plan v
  | .runEnded state e => Over plan b state ∧ stateIn b.log .run = after e running state
  | .listing state => Over plan b state ∧ stateIn b.log .run = state
  | .returned state manifest => Over plan b state ∧ stateIn b.log .run = state ∧ (manifest = true ↔ state = succeeded)
  | .outputMissing => False
  | .snapshot => Tracked b ∧ Alerted b
  | .finalizing queue e => Settling plan b (remaining e queue)
  | .left => Settling plan b []

end Board

structure Inv (plan : PhysicalPlan) (s : St) : Prop where
  legal : LegalLog s.log
  wellFormed : ∀ id, (s.node id).WellFormed
  lockNode : ∀ id, (s.node id).holds = true ↔ s.lock = some (.node id)
  lockRun : s.run.holds = true ↔ s.lock = some .run
  known : ∀ id, s.node id ≠ .idle → ∃ w ∈ waves plan, id ∈ waveNodes plan w
  accepted : s.cancelAccepted = true → s.cancelEvent = true
  deaf : s.run.isDeaf = true → s.runInterrupted = false
  phase : Phase plan s.toBoard s.run

end DataNexus.Runtime.Coordinator
