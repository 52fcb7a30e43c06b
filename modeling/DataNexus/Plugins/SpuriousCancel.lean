/-
  DataNexus.Plugins.SpuriousCancel — when a run that nobody cancelled ends CANCELLED.

  Nobody cancels: no `cancel(run_id)` is accepted and the calling task is not cancelled. The
  run's cancel event is then set by a node that will fail or time out, or by the resolver of
  one, on its way to report that its deadline has passed. As long as the node's task waits
  for that report, the node is FAILED or TIMED_OUT, its wave is, and so is the run
  (`no_spurious_cancellation`). But the same event wakes the node's own task: where the
  clean-up after the deadline takes longer than that (`overtaken`), the node is CANCELLED,
  and with it the run (`deadline_cancels`).

  The invariant `Inv` names, for a cancel event that is set, the node to blame in the wave
  that is gathered, or has the run on its way to FAILED or TIMED_OUT.
-/

import DataNexus.Plugins.GovernedRun
import DataNexus.Runtime.CoordinatorOutcome

namespace DataNexus.Plugins

open DataNexus.Runtime
open Coordinator (NodePc NodeEv NodeMove RunPc RunEv waveNodes)
open Coordinator.ExecutionState

variable {plan : PhysicalPlan}

/-! ## Where a node is heading -/

/-- The state a node's task is bound to report. -/
def verdict : NodePc → Option Coordinator.ExecutionState
  | .handoff true => some timedOut
  | .handoff false => some cancelled
  | .terminal _ state _ => some state
  | .returned state => some state
  | _ => none

def isFailing (state : Coordinator.ExecutionState) : Bool := state = failed || state = timedOut

/-- The execution raises what it cleans up after, or has raised. -/
def culpable (x : Exec) : Bool :=
  match x.pc with
  | .cleaning outcome | .ended outcome => outcome.isFailure
  | _ => false

/-- The same, or its source has failed and the resolver has not looked yet. -/
def firm (x : Exec) : Bool :=
  match x.pc with
  | .resolving (some outcome) | .cleaning outcome | .ended outcome => outcome.isFailure
  | _ => false

/-- The execution, or a task under it, has seen the cancel event. -/
def seen (x : Exec) : Bool :=
  match x.pc with
  | .resolving (some outcome) | .computing (some outcome) | .cleaning outcome | .interrupting outcome
  | .ended outcome => outcome = .cancelledError
  | _ => false

/-- The node will be FAILED or TIMED_OUT. -/
def guilty (pc : NodePc) (x : Option Exec) : Bool :=
  (verdict pc).any isFailing || (pc = .executing && x.any culpable)

def isActive : NodePc → Bool
  | .idle | .returned _ => false
  | _ => true

/-- What a node's task reports after its wait. -/
def reported (cancelEvent : Bool) : Coordinator.Waited → Coordinator.ExecutionState
  | .timeout | .timeoutError => timedOut
  | .failed => failed
  | .succeeded => if cancelEvent then cancelled else succeeded
  | .cancellation | .cancelledError => cancelled

/-- What an uninterrupted node's task can do. -/
inductive Moves (cancelEvent : Bool) (pc : NodePc) : NodeEv → NodeMove → Prop
  /-- On to its terminal event, whose state is fixed. -/
  | bound {e move} : pc ≠ .executing → verdict pc ≠ none → verdict move.pc = verdict pc →
      (move.cancels = true → verdict pc = some cancelled) → Moves cancelEvent pc e move
  /-- Before its execution. -/
  | early {e move} : pc ≠ .executing → verdict pc = none → verdict move.pc = none → move.cancels = false →
      Moves cancelEvent pc e move
  | refused {e move} : pc ≠ .executing → verdict pc = none → cancelEvent = true → verdict move.pc = some cancelled →
      Moves cancelEvent pc e move
  | waited {result move} : pc = .executing → verdict move.pc = some (reported cancelEvent result) →
      (result = .cancellation → cancelEvent = true) →
      (isFailing (reported cancelEvent result) = true → move.cancels = true) →
      (reported cancelEvent result = succeeded → move.cancels = false) → Moves cancelEvent pc (.waited result) move

theorem afterWait_cases {cancelEvent : Bool} {result : Coordinator.Waited} {move : NodeMove}
    (h : Coordinator.afterWait cancelEvent result = some move) :
    Coordinator.isRaised move.pc = false ∧ verdict move.pc = some (reported cancelEvent result) ∧
      (result = .cancellation → cancelEvent = true) ∧
      (isFailing (reported cancelEvent result) = true → move.cancels = true) ∧
      (reported cancelEvent result = succeeded → move.cancels = false) := by
  cases result with
  | cancellation =>
    simp only [Coordinator.afterWait, Option.ite_none_right_eq_some, Option.some.injEq] at h
    obtain ⟨hc, rfl⟩ := h
    exact ⟨rfl, rfl, fun _ => hc, (fun h => by cases h), (fun h => by cases h)⟩
  | succeeded =>
    cases h
    cases cancelEvent with
    | true => exact ⟨rfl, rfl, (fun h => by cases h), (fun h => by cases h), (fun h => by cases h)⟩
    | false => exact ⟨rfl, rfl, (fun h => by cases h), (fun h => by cases h), fun _ => rfl⟩
  | timeout =>
    cases h
    exact ⟨rfl, rfl, (fun h => by cases h), fun _ => rfl, (fun h => by cases h)⟩
  | timeoutError =>
    cases h
    exact ⟨rfl, rfl, (fun h => by cases h), fun _ => rfl, (fun h => by cases h)⟩
  | cancelledError =>
    cases h
    exact ⟨rfl, rfl, (fun h => by cases h), (fun h => by cases h), (fun h => by cases h)⟩
  | failed =>
    cases h
    exact ⟨rfl, rfl, (fun h => by cases h), fun _ => rfl, (fun h => by cases h)⟩

theorem nodeMove_cases {cancelEvent locked : Bool} {pc : NodePc} {e : NodeEv} {move : NodeMove}
    (h : Coordinator.nodeMove cancelEvent false locked pc e = some move) :
    isActive pc = true ∧ Coordinator.isRaised move.pc = false ∧ Moves cancelEvent pc e move := by
  unfold Coordinator.nodeMove at h
  split at h <;> try simp only [Bool.false_eq_true, if_false, Bool.or_false, Option.ite_none_left_eq_some,
    Option.some.injEq, reduceCtorEq] at h
  -- Before the execution, in the order of `_execute_node`.
  case h_1 | h_4 | h_5 | h_10 | h_11 =>
    subst h
    exact ⟨rfl, rfl, .early (by simp) rfl rfl rfl⟩
  case h_2 | h_8 =>
    obtain ⟨-, rfl⟩ := h
    exact ⟨rfl, rfl, .early (by simp) rfl rfl rfl⟩
  case h_6 =>
    subst h
    cases hc : cancelEvent with
    | true => exact ⟨rfl, rfl, .refused (by simp) rfl rfl rfl⟩
    | false => exact ⟨rfl, rfl, .early (by simp) rfl rfl rfl⟩
  -- The wait.
  case h_12 =>
    obtain ⟨hraised, hverdict, hevent, hcancels, hkeeps⟩ := afterWait_cases h
    exact ⟨rfl, hraised, .waited rfl hverdict hevent hcancels hkeeps⟩
  case h_13 =>
    obtain ⟨inner, hinner, rfl⟩ := Option.map_eq_some_iff.mp h
    obtain ⟨hraised, hverdict, hevent, hcancels, hkeeps⟩ := afterWait_cases hinner
    exact ⟨rfl, hraised, .waited rfl hverdict hevent hcancels hkeeps⟩
  -- The hand-off and the terminal event.
  case h_15 timeout =>
    subst h
    cases timeout with
    | true => exact ⟨rfl, rfl, .bound (by simp) (by simp [verdict]) rfl nofun⟩
    | false => exact ⟨rfl, rfl, .bound (by simp) (by simp [verdict]) rfl fun _ => rfl⟩
  case h_16 =>
    obtain ⟨-, rfl⟩ := h
    exact ⟨rfl, rfl, .bound (by simp) (by simp [verdict]) rfl nofun⟩
  case h_17 | h_18 =>
    subst h
    exact ⟨rfl, rfl, .bound (by simp) (by simp [verdict]) rfl nofun⟩

/-! ## Steps of an execution -/

/-- What a step of an execution tells. -/
structure ExecSpec (cancelEvent attached : Bool) (x : Exec) (e : ExecEv) (move : ExecMove) : Prop where
  running : x.isEnded = false
  seen : seen move.exec = true → seen x = true ∨ cancelEvent = true ∨ attached = false
  cancels : move.cancels = true → culpable move.exec = true ∨ cancelEvent = true ∨ attached = false
  culpable : culpable x = true → culpable move.exec = true ∨ attached = false
  lapsed : move.exec.lapsed = true → x.lapsed = true ∨ (firm move.exec = true ∧ attached = true)
  firm : firm x = true → firm move.exec = true ∨ attached = false ∨
    (cancelEvent = true ∧ (∃ within, e = .resume within) ∧ ∃ outcome, x.pc = .resolving (some outcome) ∧ outcome.isFailure)

theorem goto_spec {cancelEvent attached : Bool} {x : Exec} {e : ExecEv} {pc : ExecPc} {move : ExecMove}
    (h : x.goto pc = some move) (hrunning : x.isEnded = false)
    (hseen : seen { x with pc := pc } = true → seen x = true ∨ cancelEvent = true ∨ attached = false)
    (hculpable : culpable x = true → culpable { x with pc := pc } = true ∨ attached = false)
    (hfirm : firm x = true → firm { x with pc := pc } = true ∨ attached = false ∨
      (cancelEvent = true ∧ (∃ within, e = .resume within) ∧
        ∃ outcome, x.pc = .resolving (some outcome) ∧ outcome.isFailure)) :
    ExecSpec cancelEvent attached x e move := by
  cases h
  exact ⟨hrunning, hseen, nofun, hculpable, .inl, hfirm⟩

theorem move_interrupt (source cancelEvent attached : Bool) (x : Exec) :
    x.move source cancelEvent attached .interrupt = if attached then none else x.interrupted := by
  unfold Exec.move
  split <;> first | rfl | contradiction

/-- Only an execution that was let go of is cancelled. -/
theorem interrupt_spec {cancelEvent attached : Bool} {x : Exec} {e : ExecEv} {move : ExecMove}
    (h : (if attached then none else x.interrupted) = some move) : ExecSpec cancelEvent attached x e move := by
  simp only [Option.ite_none_left_eq_some] at h
  obtain ⟨hattached, h⟩ := h
  have hattached : attached = false := by simpa using hattached
  have hmove : x.isEnded = false ∧ move.exec.lapsed = x.lapsed := by
    unfold Exec.interrupted at h
    unfold Exec.isEnded
    split at h <;> simp_all [Exec.goto] <;> cases h <;> simp_all
  exact ⟨hmove.1, fun _ => .inr (.inr hattached), fun _ => .inr (.inr hattached), fun _ => .inr hattached,
    fun hl => .inl (hmove.2 ▸ hl), fun _ => .inr (.inl hattached)⟩

theorem commit_spec {cancelEvent attached within : Bool} {x : Exec} {e : ExecEv} {move : ExecMove}
    (h : x.commit cancelEvent within = some move) (hrunning : x.isEnded = false) (hculpable : culpable x = false)
    (hfirm : firm x = false) : ExecSpec cancelEvent attached x e move := by
  refine goto_spec h hrunning ?_ (by simp [hculpable]) (by simp [hfirm])
  intro hs
  cases hc : cancelEvent with
  | true => exact .inr (.inl rfl)
  | false =>
    rw [hc] at hs
    cases within with
    | true => cases hs
    | false => cases hs

theorem resumeSource_spec {cancelEvent attached within lapsed : Bool} {work : Option Outcome} {move : ExecMove}
    (h : Exec.resumeSource ⟨.resolving work, lapsed⟩ cancelEvent within work = some move) :
    ExecSpec cancelEvent attached ⟨.resolving work, lapsed⟩ (.resume within) move := by
  cases cancelEvent with
  | true =>
    cases work with
    | none =>
      cases h
      exact ⟨rfl, fun _ => .inr (.inl rfl), fun _ => .inr (.inl rfl), nofun, .inl, nofun⟩
    | some outcome =>
      refine goto_spec h rfl (fun _ => .inr (.inl rfl)) nofun ?_
      intro hf
      exact .inr (.inr ⟨rfl, ⟨within, rfl⟩, outcome, rfl, hf⟩)
  | false =>
    cases work with
    | none => cases h
    | some outcome =>
      cases outcome with
      | succeeded => exact commit_spec h rfl rfl rfl
      | timeoutError => exact goto_spec h rfl nofun nofun fun _ => .inl rfl
      | cancelledError => exact goto_spec h rfl (fun _ => .inl rfl) nofun nofun
      | failed => exact goto_spec h rfl nofun nofun fun _ => .inl rfl

theorem resumeOperator_spec {cancelEvent attached within lapsed : Bool} {e : ExecEv} {work : Option Outcome}
    {move : ExecMove} (h : Exec.resumeOperator ⟨.computing work, lapsed⟩ cancelEvent within work = some move) :
    ExecSpec cancelEvent attached ⟨.computing work, lapsed⟩ e move := by
  cases work with
  | none =>
    cases cancelEvent with
    | true => exact goto_spec h rfl (fun _ => .inr (.inl rfl)) nofun nofun
    | false => cases h
  | some outcome =>
    cases outcome with
    | succeeded => exact commit_spec h rfl rfl rfl
    | timeoutError => exact goto_spec h rfl nofun nofun nofun
    | cancelledError => exact goto_spec h rfl (fun _ => .inl rfl) nofun nofun
    | failed => exact goto_spec h rfl nofun nofun nofun

/-- A CancelledError out of a task below comes after the cancel event. -/
theorem guarded_spec {cancelEvent : Bool} {outcome : Outcome} {a : Option ExecMove} {move : ExecMove}
    (h : (if outcome = .cancelledError ∧ cancelEvent = false then none else a) = some move) :
    a = some move ∧ (outcome = .cancelledError → cancelEvent = true) := by
  simp only [Option.ite_none_left_eq_some, not_and, Bool.not_eq_false] at h
  exact ⟨h.2, h.1⟩

theorem move_spec {source cancelEvent attached lapsed : Bool} {pc : ExecPc} {e : ExecEv} {move : ExecMove}
    (h : Exec.move source cancelEvent attached ⟨pc, lapsed⟩ e = some move) :
    ExecSpec cancelEvent attached ⟨pc, lapsed⟩ e move := by
  cases e with
  | interrupt => exact interrupt_spec ((move_interrupt source cancelEvent attached _).symm.trans h)
  | start accepted =>
    cases pc with
    | reserving =>
      refine goto_spec h rfl ?_ nofun nofun
      intro hs
      cases hc : cancelEvent with
      | true => exact .inr (.inl rfl)
      | false =>
        rw [hc] at hs
        cases accepted with
        | true => cases source <;> cases hs
        | false => cases hs
    | resolving work => cases work <;> cases h
    | computing work => cases work <;> cases h
    | _ => cases h
  | work outcome =>
    cases pc with
    | resolving work =>
      cases work with
      | none =>
        obtain ⟨h, hc⟩ := guarded_spec h
        cases h
        refine ⟨rfl, ?_, nofun, nofun, ?_, nofun⟩
        · intro hs
          exact .inr (.inl (hc (by simpa [seen] using hs)))
        · intro hl
          simpa [firm, and_comm] using hl
      | some _ => cases h
    | computing work =>
      cases work with
      | none =>
        simp only [Exec.move, Option.ite_none_left_eq_some] at h
        refine goto_spec h.2 rfl ?_ nofun nofun
        intro hs
        exact absurd (by simpa [seen] using hs) h.1
      | some _ => cases h
    | _ => cases h
  | resume within =>
    cases pc with
    | resolving work =>
      have h : Exec.resumeSource ⟨.resolving work, lapsed⟩ cancelEvent within work = some move := by
        cases work <;> exact h
      exact resumeSource_spec h
    | computing work =>
      have h : Exec.resumeOperator ⟨.computing work, lapsed⟩ cancelEvent within work = some move := by
        cases work <;> exact h
      exact resumeOperator_spec h
    | _ => cases h
  | deadline =>
    cases pc with
    | resolving work =>
      cases work with
      | none =>
        cases h
        refine ⟨rfl, nofun, fun _ => .inl rfl, nofun, ?_, nofun⟩
        intro hl
        exact (Bool.or_eq_true_iff.mp hl).imp_right fun ha => ⟨rfl, ha⟩
      | some _ => cases h
    | computing work =>
      cases work with
      | none => exact goto_spec h rfl nofun nofun nofun
      | some _ => cases h
    | _ => cases h
  | cleaned instead =>
    cases pc with
    | resolving work => cases work <;> cases h
    | computing work => cases work <;> cases h
    | interrupting raises => exact goto_spec h rfl .inl nofun nofun
    | cleaning raises =>
      cases instead with
      | none => exact goto_spec h rfl .inl .inl .inl
      | some instead =>
        simp only [Exec.move, Option.ite_none_right_eq_some] at h
        refine goto_spec h.2 rfl ?_ (fun _ => .inl h.1) (fun _ => .inl h.1)
        intro hs
        cases instead <;> simp_all [seen, Outcome.isFailure]
    | _ => cases h
  | committed outcome =>
    cases pc with
    | resolving work => cases work <;> cases h
    | computing work => cases work <;> cases h
    | committing =>
      obtain ⟨h, hc⟩ := guarded_spec h
      refine goto_spec h rfl ?_ nofun nofun
      intro hs
      exact .inr (.inl (hc (by simpa [seen] using hs)))
    | _ => cases h

/-! ## The invariant -/

/-- The run has failed and is on its way to say so. -/
def stopping : RunPc → Bool
  | .stageEnded _ state _ _ | .closing _ _ state | .runEnded state _ | .listing state | .returned state _ =>
    isFailing state
  | _ => false

/-- Nothing has been cancelled. -/
def sound : RunPc → Bool
  | .stageEnded _ state _ _ | .runEnded state _ | .listing state | .returned state _ =>
    state = succeeded || isFailing state
  | .closing _ _ state => isFailing state
  | .snapshot | .finalizing _ _ | .left => false
  | _ => true

/-- The node is in the wave that is gathered. -/
def InWave (plan : PhysicalPlan) (pc : RunPc) (id : String) : Prop :=
  ∃ w rest, pc = .gathering w rest ∧ id ∈ waveNodes plan w

structure Inv (plan : PhysicalPlan) (s : St) : Prop where
  runCalm : s.coordinator.runInterrupted = false
  calm : ∀ id, s.coordinator.interrupted id = false
  sound : sound s.coordinator.run = true
  raised : ∀ id, Coordinator.isRaised (s.coordinator.node id) = false
  active : ∀ id, isActive (s.coordinator.node id) = true → InWave plan s.coordinator.run id
  /-- Some node answers for a cancel event that is set. -/
  blame : s.coordinator.cancelEvent = true → stopping s.coordinator.run = true ∨
    ∃ id, InWave plan s.coordinator.run id ∧ guilty (s.coordinator.node id) (s.exec id) = true
  bound : ∀ id state, verdict (s.coordinator.node id) = some state → state ≠ succeeded → s.coordinator.cancelEvent = true
  seen : ∀ id x, s.exec id = some x → seen x = true → s.coordinator.node id = .executing → s.coordinator.cancelEvent = true
  loose : ∀ id x, s.exec id = some x → x.isEnded = false → s.coordinator.node id ≠ .executing →
    s.coordinator.cancelEvent = true
  lapsed : ∀ id x, s.exec id = some x → x.lapsed = true →
    s.coordinator.cancelEvent = true ∨ (s.coordinator.node id = .executing ∧ firm x = true)

theorem init_inv : Inv plan init :=
  ⟨rfl, fun _ => rfl, rfl, fun _ => rfl, nofun, nofun, nofun, nofun, nofun, nofun⟩

/-! ### Executions -/

theorem applyExec_inv {s : St} (h : Inv plan s) {id : String} {x : Exec} (hx : s.exec id = some x) {e : ExecEv}
    {move : ExecMove}
    (spec : ExecSpec s.coordinator.cancelEvent (s.coordinator.node id = .executing) x e move) :
    Inv plan (applyExec s id move) := by
  have hmono : s.coordinator.cancelEvent = true → (s.coordinator.cancelEvent || move.cancels) = true := by
    intro hc
    rw [hc]
    rfl
  -- An execution that moves and is not attached was let go of for a cancel event.
  have hdetached : decide (s.coordinator.node id = .executing) = false → s.coordinator.cancelEvent = true :=
    fun hd => h.loose id x hx spec.running (of_decide_eq_false hd)
  refine ⟨h.runCalm, h.calm, h.sound, h.raised, h.active, ?_, ?_, ?_, ?_, ?_⟩
  · intro hc
    by_cases hold : s.coordinator.cancelEvent = true
    · rcases h.blame hold with hstop | ⟨id', hw, hg⟩
      · exact .inl hstop
      · refine .inr ⟨id', hw, ?_⟩
        by_cases hid : id' = id
        · subst hid
          show guilty (s.coordinator.node id') (Function.update s.exec id' (some move.exec) id') = true
          rw [Function.update_self]
          simp only [guilty, hx, Bool.or_eq_true, Bool.and_eq_true, decide_eq_true_eq, Option.any_some] at hg ⊢
          rcases hg with hg | ⟨hexec, hg⟩
          · exact .inl hg
          · rcases spec.culpable hg with hg | hd
            · exact .inr ⟨hexec, hg⟩
            · exact absurd hexec (of_decide_eq_false hd)
        · show guilty (s.coordinator.node id') (Function.update s.exec id (some move.exec) id') = true
          rw [Function.update_of_ne hid]
          exact hg
    · have hcancels : move.cancels = true := by simpa [applyExec, hold] using hc
      rcases spec.cancels hcancels with hg | hc | hd
      · have hexec : s.coordinator.node id = .executing := by
          by_contra hne
          exact hold (h.loose id x hx spec.running hne)
        refine .inr ⟨id, h.active id (by rw [hexec]; rfl), ?_⟩
        show guilty (s.coordinator.node id) (Function.update s.exec id (some move.exec) id) = true
        rw [Function.update_self]
        simp [guilty, hexec, hg]
      · exact absurd hc hold
      · exact absurd (hdetached hd) hold
  · intro id' state hv hne
    exact hmono (h.bound id' state hv hne)
  · intro id' x' hx' hs hexec
    by_cases hid : id' = id
    · subst hid
      have hx' : some move.exec = some x' := by simpa [applyExec] using hx'
      cases hx'
      rcases spec.seen hs with hs | hc | hd
      · exact hmono (h.seen id' x hx hs hexec)
      · exact hmono hc
      · exact hmono (hdetached hd)
    · have hx' : s.exec id' = some x' := by simpa [applyExec, Function.update_of_ne hid] using hx'
      exact hmono (h.seen id' x' hx' hs hexec)
  · intro id' x' hx' hr hne
    by_cases hid : id' = id
    · subst hid
      exact hmono (h.loose id' x hx spec.running hne)
    · have hx' : s.exec id' = some x' := by simpa [applyExec, Function.update_of_ne hid] using hx'
      exact hmono (h.loose id' x' hx' hr hne)
  · intro id' x' hx' hl
    by_cases hid : id' = id
    · subst hid
      have hx' : some move.exec = some x' := by simpa [applyExec] using hx'
      cases hx'
      by_cases hexec : s.coordinator.node id' = .executing
      · rcases spec.lapsed hl with hl | hf
        · rcases h.lapsed id' x hx hl with hc | ⟨-, hf⟩
          · exact .inl (hmono hc)
          · rcases spec.firm hf with hf | hd | ⟨hc, -⟩
            · exact .inr ⟨hexec, hf⟩
            · exact .inl (hmono (hdetached hd))
            · exact .inl (hmono hc)
        · exact .inr ⟨hexec, hf.1⟩
      · exact .inl (hmono (h.loose id' x hx spec.running hexec))
    · have hx' : s.exec id' = some x' := by simpa [applyExec, Function.update_of_ne hid] using hx'
      exact (h.lapsed id' x' hx' hl).imp_left hmono

theorem execStep_inv {s : St} (h : Inv plan s) (id : String) (e : ExecEv) : Inv plan (execStep plan s id e) := by
  unfold execStep
  split
  · exact h
  · next x hx =>
    split
    · exact h
    · next move hmove => exact applyExec_inv h hx (move_spec hmove)

/-! ### Node tasks -/

/-- The wait ended for something else, or with the execution's outcome. -/
theorem fits_waited {x : Option Exec} {result : Coordinator.Waited} (h : fits x (.waited result) = true) :
    ((result = .cancellation ∨ result = .timeout) ∧ ∀ y, x = some y → y.isEnded = false) ∨
      ∃ y outcome, x = some y ∧ y.pc = .ended outcome ∧ outcome.waited = result := by
  have hopen (h : (!x.any (·.isEnded)) = true) : ∀ y, x = some y → y.isEnded = false := by
    rintro y rfl
    simpa using h
  cases result with
  | cancellation => exact .inl ⟨.inl rfl, hopen h⟩
  | timeout => exact .inl ⟨.inr rfl, hopen h⟩
  | succeeded | timeoutError | cancelledError | failed =>
    refine .inr ?_
    cases x with
    | none => cases h
    | some y =>
      cases hpc : y.pc with
      | ended outcome =>
        simp only [fits, Option.any_some, hpc, decide_eq_true_eq] at h
        exact ⟨y, outcome, rfl, hpc, h⟩
      | _ => simp [fits, hpc] at h

theorem reported_waited {outcome : Outcome} (cancelEvent : Bool) (h : outcome.isFailure = true) :
    isFailing (reported cancelEvent outcome.waited) = true := by
  cases outcome with
  | timeoutError => rfl
  | failed => rfl
  | succeeded => cases h
  | cancelledError => cases h

/-- An execution's CancelledError comes from the event. -/
theorem cancelledError_event {s : St} (h : Inv plan s) {id : String}
    (hfits : fits (s.exec id) (.waited .cancelledError) = true) (hexec : s.coordinator.node id = .executing) :
    s.coordinator.cancelEvent = true := by
  rcases fits_waited hfits with ⟨hr | hr, -⟩ | ⟨y, outcome, hy, hpc, hout⟩
  · cases hr
  · cases hr
  · refine h.seen id y hy ?_ hexec
    cases outcome with
    | cancelledError => simp [seen, hpc]
    | succeeded => cases hout
    | timeoutError => cases hout
    | failed => cases hout

section Node

variable {s : St} (h : Inv plan s) {id : String} {e : NodeEv} {move : NodeMove}
  (hfits : fits (s.exec id) e = true)
  (hmoves : Moves s.coordinator.cancelEvent (s.coordinator.node id) e move)
include h hfits hmoves

/-- A node that is bound for anything but success has set the event, or found it set. -/
theorem moves_bound {state : Coordinator.ExecutionState} (hv : verdict move.pc = some state) (hne : state ≠ succeeded) :
    (s.coordinator.cancelEvent || move.cancels) = true := by
  cases hmoves with
  | bound _ _ hsame _ => simp [h.bound id state (hsame ▸ hv) hne]
  | early _ _ hnone _ =>
    rw [hnone] at hv
    cases hv
  | refused _ _ hc _ => simp [hc]
  | @waited result _ hexec hreported hevent hcancels _ =>
    rw [hreported] at hv
    cases hv
    cases result with
    | cancellation => simp [hevent rfl]
    | timeout => simp [hcancels rfl]
    | timeoutError => simp [hcancels rfl]
    | failed => simp [hcancels rfl]
    | succeeded =>
      cases hc : s.coordinator.cancelEvent with
      | true => rfl
      | false => simp [reported, hc] at hne
    | cancelledError => simp [cancelledError_event h hfits hexec]

theorem moves_cancels (hcancels : move.cancels = true) :
    s.coordinator.cancelEvent = true ∨ (verdict move.pc).any isFailing = true := by
  cases hmoves with
  | bound _ _ _ hc => exact .inl (h.bound id cancelled (hc hcancels) (by simp))
  | early _ _ _ hc =>
    rw [hc] at hcancels
    cases hcancels
  | refused _ _ hc _ => exact .inl hc
  | @waited result _ hexec hreported hevent _ hkeeps =>
    by_cases hf : isFailing (reported s.coordinator.cancelEvent result) = true
    · exact .inr (by rw [hreported]; exact hf)
    · cases result with
      | cancellation => exact .inl (hevent rfl)
      | timeout => exact absurd rfl hf
      | timeoutError => exact absurd rfl hf
      | failed => exact absurd rfl hf
      | succeeded =>
        left
        by_contra hc
        have hc : s.coordinator.cancelEvent = false := by simpa using hc
        rw [hkeeps (by simp [reported, hc])] at hcancels
        cases hcancels
      | cancelledError => exact .inl (cancelledError_event h hfits hexec)

omit h in
/-- A node to blame stays one, unless its own task takes its resolver's clean-up for a
    cancellation. -/
theorem moves_guilty (hkept : overtaken s (.coordinator (.node id e)) = false)
    (hg : guilty (s.coordinator.node id) (s.exec id) = true) : (verdict move.pc).any isFailing = true := by
  simp only [guilty, Bool.or_eq_true, Bool.and_eq_true, decide_eq_true_eq] at hg
  cases hmoves with
  | bound hexec _ hsame _ =>
    rw [hsame]
    rcases hg with hg | ⟨hpc, -⟩
    · exact hg
    · exact absurd hpc hexec
  | early hexec hnone _ _ =>
    rw [hnone] at hg
    rcases hg with hg | ⟨hpc, -⟩
    · cases hg
    · exact absurd hpc hexec
  | refused hexec hnone _ _ =>
    rw [hnone] at hg
    rcases hg with hg | ⟨hpc, -⟩
    · cases hg
    · exact absurd hpc hexec
  | @waited result _ hexec hreported _ _ _ =>
    rw [hexec] at hg
    rcases hg with hg | ⟨-, hg⟩
    · cases hg
    · rw [hreported, Option.any_some]
      obtain ⟨y, hy, hculpable⟩ := (Option.any_eq_true _ _).mp hg
      rcases fits_waited hfits with ⟨hr | rfl, hopen⟩ | ⟨y', outcome, hy', hpc, rfl⟩
      · -- The resolver is still cleaning up, and the task woke for the event.
        exfalso
        subst hr
        have hrunning := hopen y hy
        cases hpc : y.pc with
        | cleaning raises =>
          simp only [culpable, hpc] at hculpable
          simp [overtaken, hy, hpc, hculpable] at hkept
        | ended outcome => simp [Exec.isEnded, hpc] at hrunning
        | _ => simp [culpable, hpc] at hculpable
      · rfl
      · rw [hy] at hy'
        cases hy'
        simp only [culpable, hpc] at hculpable
        exact reported_waited _ hculpable

omit h in
/-- A task that leaves an execution running, or one whose source has lapsed, does so with
    the event set. -/
theorem moves_leave (hexec : s.coordinator.node id = .executing) {x : Exec} (hx : s.exec id = some x)
    (hleft : x.isEnded = false ∨ firm x = true) : (s.coordinator.cancelEvent || move.cancels) = true := by
  cases hmoves with
  | bound hne _ _ _ => exact absurd hexec hne
  | early hne _ _ _ => exact absurd hexec hne
  | refused hne _ _ _ => exact absurd hexec hne
  | @waited result _ _ _ hevent hcancels _ =>
    rcases fits_waited hfits with ⟨rfl | rfl, -⟩ | ⟨y, outcome, hy, hpc, rfl⟩
    · simp [hevent rfl]
    · simp [hcancels rfl]
    · rw [hx] at hy
      cases hy
      rcases hleft with hrunning | hfirm
      · simp [Exec.isEnded, hpc] at hrunning
      · simp only [firm, hpc] at hfirm
        simp [hcancels (reported_waited _ hfirm)]

omit h hfits in
/-- Only a task that was not there yet comes to its wait. -/
theorem moves_executing (hpc : move.pc = .executing) : s.coordinator.node id ≠ .executing := by
  cases hmoves with
  | bound hne _ _ _ => exact hne
  | early hne _ _ _ => exact hne
  | refused hne _ _ _ => exact hne
  | waited _ hreported _ _ _ =>
    rw [hpc] at hreported
    cases hreported

end Node

/-- A node's task moves; `exec'` has the execution it made, if it made one. -/
theorem applyMove_inv {s : St} (h : Inv plan s) {id : String} {e : NodeEv} {move : NodeMove}
    (hfits : fits (s.exec id) e = true) (hkept : overtaken s (.coordinator (.node id e)) = false)
    (hmove : Coordinator.nodeMove s.coordinator.cancelEvent false s.coordinator.lock.isSome (s.coordinator.node id) e =
      some move) {exec' : String → Option Exec} (hother : ∀ id', id' ≠ id → exec' id' = s.exec id')
    (hmade : move.pc = .executing → exec' id = some { pc := .reserving, lapsed := false })
    (hsame : move.pc ≠ .executing → exec' id = s.exec id) :
    Inv plan { coordinator := Coordinator.applyMove s.coordinator id move, exec := exec' } := by
  obtain ⟨hactive, hraised, hmoves⟩ := nodeMove_cases hmove
  have hself : (Coordinator.applyMove s.coordinator id move).node id = move.pc := by simp [Coordinator.applyMove]
  have hnode : ∀ id', id' ≠ id → (Coordinator.applyMove s.coordinator id move).node id' = s.coordinator.node id' := by
    intro id' hid
    simp [Coordinator.applyMove, hid]
  have hmono : s.coordinator.cancelEvent = true → (s.coordinator.cancelEvent || move.cancels) = true := by
    intro hc
    rw [hc]
    rfl
  refine ⟨h.runCalm, ?_, h.sound, ?_, ?_, ?_, ?_, ?_, ?_, ?_⟩
  · intro id'
    by_cases hid : id' = id
    · subst hid
      by_cases hc : move.consumes = true
      · simp [Coordinator.applyMove, hc]
      · simpa [Coordinator.applyMove, hc] using h.calm id'
    · by_cases hc : move.consumes = true
      · simpa [Coordinator.applyMove, hc, hid] using h.calm id'
      · simpa [Coordinator.applyMove, hc] using h.calm id'
  · intro id'
    by_cases hid : id' = id
    · subst hid
      rw [hself]
      exact hraised
    · rw [hnode id' hid]
      exact h.raised id'
  · intro id' ha
    by_cases hid : id' = id
    · subst hid
      exact h.active id' hactive
    · rw [hnode id' hid] at ha
      exact h.active id' ha
  · intro hc
    by_cases hold : s.coordinator.cancelEvent = true
    · rcases h.blame hold with hstop | ⟨id', hw, hg⟩
      · exact .inl hstop
      · refine .inr ⟨id', hw, ?_⟩
        by_cases hid : id' = id
        · subst hid
          rw [hself]
          simp [guilty, moves_guilty hfits hmoves hkept hg]
        · simp only [hnode id' hid, hother id' hid]
          exact hg
    · have hcancels : move.cancels = true := by simpa [Coordinator.applyMove, hold] using hc
      rcases moves_cancels h hfits hmoves hcancels with hc | hg
      · exact absurd hc hold
      · refine .inr ⟨id, h.active id hactive, ?_⟩
        rw [hself]
        simp [guilty, hg]
  · intro id' state hv hne
    by_cases hid : id' = id
    · subst hid
      rw [hself] at hv
      exact moves_bound h hfits hmoves hv hne
    · rw [hnode id' hid] at hv
      exact hmono (h.bound id' state hv hne)
  · intro id' x hx hs hexec
    by_cases hid : id' = id
    · subst hid
      rw [hself] at hexec
      obtain rfl := Option.some.inj ((hmade hexec).symm.trans hx)
      cases hs
    · rw [hnode id' hid] at hexec
      exact hmono (h.seen id' x (hother id' hid ▸ hx) hs hexec)
  · intro id' x hx hr hne
    by_cases hid : id' = id
    · subst hid
      rw [hself] at hne
      have hx : s.exec id' = some x := hsame hne ▸ hx
      by_cases hexec : s.coordinator.node id' = .executing
      · exact moves_leave hfits hmoves hexec hx (.inl hr)
      · exact hmono (h.loose id' x hx hr hexec)
    · rw [hnode id' hid] at hne
      exact hmono (h.loose id' x (hother id' hid ▸ hx) hr hne)
  · intro id' x hx hl
    by_cases hid : id' = id
    · subst hid
      by_cases hpc : move.pc = .executing
      · obtain rfl := Option.some.inj ((hmade hpc).symm.trans hx)
        cases hl
      · have hx : s.exec id' = some x := hsame hpc ▸ hx
        rcases h.lapsed id' x hx hl with hc | ⟨hexec, hf⟩
        · exact .inl (hmono hc)
        · exact .inl (moves_leave hfits hmoves hexec hx (.inr hf))
    · rw [hnode id' hid]
      exact (h.lapsed id' x (hother id' hid ▸ hx) hl).imp_left hmono

theorem nodeStep_inv {s : St} (h : Inv plan s) {id : String} {e : NodeEv}
    (hkept : overtaken s (.coordinator (.node id e)) = false) : Inv plan (nodeStep s id e) := by
  unfold nodeStep
  split
  · next hfits =>
    unfold Coordinator.nodeStep
    rw [h.calm id]
    cases hmove : Coordinator.nodeMove s.coordinator.cancelEvent false s.coordinator.lock.isSome
        (s.coordinator.node id) e with
    | none =>
      simp only
      rw [if_neg fun hboth => hboth.2 hboth.1]
      exact h
    | some move =>
      simp only
      have hself : (Coordinator.applyMove s.coordinator id move).node id = move.pc := by simp [Coordinator.applyMove]
      have hmoves := (nodeMove_cases hmove).2.2
      refine applyMove_inv h hfits hkept hmove ?_ ?_ ?_
      · intro id' hid
        split
        · exact Function.update_of_ne hid _ _
        · rfl
      · intro hpc
        rw [if_pos ⟨hself.trans hpc, moves_executing hmoves hpc⟩, Function.update_self]
      · intro hpc
        rw [if_neg fun hboth => hpc (hself.symm.trans hboth.1)]
  · exact h

/-! ### The run's task -/

theorem Inv.quiet {s : St} (h : Inv plan s) (hne : ∀ w rest, s.coordinator.run ≠ .gathering w rest) (id : String) :
    isActive (s.coordinator.node id) = false := by
  by_contra ha
  obtain ⟨w, rest, hrun, -⟩ := h.active id (by simpa using ha)
  exact hne w rest hrun

/-- Outside a gather a set event means that the run is stopping. -/
theorem Inv.stops {s : St} (h : Inv plan s) (hne : ∀ w rest, s.coordinator.run ≠ .gathering w rest)
    (hc : s.coordinator.cancelEvent = true) : stopping s.coordinator.run = true := by
  rcases h.blame hc with hstop | ⟨id, ⟨w, rest, hrun, -⟩, -⟩
  · exact hstop
  · exact absurd hrun (hne w rest)

/-- The run's task moves on while no node's task is under way. -/
theorem runMoves_inv {s : St} (h : Inv plan s) (hquiet : ∀ id, isActive (s.coordinator.node id) = false)
    {c : Coordinator.St} (hnode : c.node = s.coordinator.node) (hcalm : c.interrupted = s.coordinator.interrupted)
    (hrunCalm : c.runInterrupted = s.coordinator.runInterrupted) (hsound : sound c.run = true)
    (hblame : c.cancelEvent = true → stopping c.run = true)
    (hmono : s.coordinator.cancelEvent = true → c.cancelEvent = true) : Inv plan { s with coordinator := c } := by
  refine ⟨hrunCalm.trans h.runCalm, ?_, hsound, ?_, ?_, fun hc => .inl (hblame hc), ?_, ?_, ?_, ?_⟩
  · rw [hcalm]
    exact h.calm
  · rw [hnode]
    exact h.raised
  · intro id ha
    rw [hnode, hquiet id] at ha
    cases ha
  · intro id state hv hne
    exact hmono (h.bound id state (hnode ▸ hv) hne)
  · intro id x hx hs hexec
    exact hmono (h.seen id x hx hs (hnode ▸ hexec))
  · intro id x hx hr hne
    exact hmono (h.loose id x hx hr (hnode ▸ hne))
  · intro id x hx hl
    rw [hnode]
    exact (h.lapsed id x hx hl).imp_left hmono

theorem isFailing_ne {state : Coordinator.ExecutionState} (h : isFailing state = true) : state ≠ succeeded := by
  rintro rfl
  cases h

/-- The run ends as it should, given an event that is set only if it fails. -/
theorem finish_inv {s : St} (h : Inv plan s) (hquiet : ∀ id, isActive (s.coordinator.node id) = false)
    {c : Coordinator.St} (hnode : c.node = s.coordinator.node) (hcalm : c.interrupted = s.coordinator.interrupted)
    (hrunCalm : c.runInterrupted = s.coordinator.runInterrupted) {state : Coordinator.ExecutionState}
    (hstate : state = succeeded ∧ c.cancelEvent = false ∨ isFailing state = true)
    (hmono : s.coordinator.cancelEvent = true → c.cancelEvent = true) :
    Inv plan { s with coordinator := Coordinator.finish c state } := by
  rcases hstate with ⟨rfl, hc⟩ | hf
  · refine runMoves_inv h hquiet hnode hcalm hrunCalm ?_ ?_ hmono
    · simp [Coordinator.finish, hc, sound]
    · intro hc'
      have hc' : c.cancelEvent = true := hc'
      rw [hc] at hc'
      cases hc'
  · have hrun : (Coordinator.finish c state).run = .runEnded state .waiting := by
      simp [Coordinator.finish, isFailing_ne hf]
    refine runMoves_inv h hquiet hnode hcalm hrunCalm ?_ ?_ hmono
    · rw [hrun]
      simp [sound, hf]
    · intro _
      rw [hrun]
      exact hf

theorem nextWave_inv {s : St} (h : Inv plan s) (hquiet : ∀ id, isActive (s.coordinator.node id) = false)
    {c : Coordinator.St} (hnode : c.node = s.coordinator.node) (hcalm : c.interrupted = s.coordinator.interrupted)
    (hrunCalm : c.runInterrupted = s.coordinator.runInterrupted) (hevent : c.cancelEvent = false)
    (hold : s.coordinator.cancelEvent = false) (ws : List Nat) :
    Inv plan { s with coordinator := Coordinator.nextWave plan c ws } := by
  have hmono : s.coordinator.cancelEvent = true → c.cancelEvent = true := by simp [hold]
  cases ws with
  | nil => exact finish_inv h hquiet hnode hcalm hrunCalm (.inl ⟨rfl, hevent⟩) hmono
  | cons w rest =>
    simp only [Coordinator.nextWave, hevent, Bool.false_eq_true, if_false]
    refine runMoves_inv h hquiet hnode hcalm hrunCalm rfl ?_ hmono
    intro hc
    have hc : c.cancelEvent = true := hc
    rw [hevent] at hc
    cases hc

theorem close_inv {s : St} (h : Inv plan s) (hquiet : ∀ id, isActive (s.coordinator.node id) = false)
    {c : Coordinator.St} (hnode : c.node = s.coordinator.node) (hcalm : c.interrupted = s.coordinator.interrupted)
    (hrunCalm : c.runInterrupted = s.coordinator.runInterrupted) (hevent : c.cancelEvent = true)
    {final : Coordinator.ExecutionState} (hf : isFailing final = true) (ws : List Nat)
    (skip : Coordinator.ExecutionState) :
    Inv plan { s with coordinator := Coordinator.close plan c ws skip final } := by
  unfold Coordinator.close
  split
  · exact finish_inv h hquiet hnode hcalm hrunCalm (.inr hf) fun _ => hevent
  · exact runMoves_inv h hquiet hnode hcalm hrunCalm hf (fun _ => hf) fun _ => hevent

theorem Inv.clear {s : St} (h : Inv plan s) (hne : ∀ w rest, s.coordinator.run ≠ .gathering w rest)
    (hstop : stopping s.coordinator.run = false) : s.coordinator.cancelEvent = false := by
  by_contra hc
  rw [h.stops hne (by simpa using hc)] at hstop
  cases hstop

/-- The gather makes the tasks of a wave, with the event clear. -/
theorem gathering_inv {s : St} (h : Inv plan s) (hquiet : ∀ id, isActive (s.coordinator.node id) = false)
    (hevent : s.coordinator.cancelEvent = false) (w : Nat) (rest : List Nat) (lock : Option Coordinator.Actor) :
    Inv plan { s with coordinator := { s.coordinator with
      lock := lock, run := .gathering w rest
      node := fun id => if id ∈ waveNodes plan w then .created else s.coordinator.node id } } := by
  have hnode : ∀ id, (if id ∈ waveNodes plan w then NodePc.created else s.coordinator.node id) = .created ∧
      id ∈ waveNodes plan w ∨ (if id ∈ waveNodes plan w then NodePc.created else s.coordinator.node id) =
        s.coordinator.node id := by
    intro id
    by_cases hid : id ∈ waveNodes plan w
    · exact .inl ⟨if_pos hid, hid⟩
    · exact .inr (if_neg hid)
  have hexecuting : ∀ id, s.coordinator.node id ≠ .executing := by
    intro id hexec
    have ha := hquiet id
    rw [hexec] at ha
    cases ha
  refine ⟨h.runCalm, h.calm, rfl, ?_, ?_, ?_, ?_, ?_, ?_, ?_⟩
  · intro id
    show Coordinator.isRaised (if _ then _ else _) = false
    rcases hnode id with ⟨hid, -⟩ | hid
    · rw [hid]
      rfl
    · rw [hid]
      exact h.raised id
  · intro id ha
    rcases hnode id with ⟨-, hmem⟩ | hid
    · exact ⟨w, rest, rfl, hmem⟩
    · have ha : isActive (if id ∈ waveNodes plan w then NodePc.created else s.coordinator.node id) = true := ha
      rw [hid, hquiet id] at ha
      cases ha
  · intro hc
    have hc : s.coordinator.cancelEvent = true := hc
    rw [hevent] at hc
    cases hc
  · intro id state hv hne
    have hv : verdict (if id ∈ waveNodes plan w then NodePc.created else s.coordinator.node id) = some state := hv
    rcases hnode id with ⟨hid, -⟩ | hid
    · rw [hid] at hv
      cases hv
    · rw [hid] at hv
      exact h.bound id state hv hne
  · intro id x hx hs hexec
    have hexec : (if id ∈ waveNodes plan w then NodePc.created else s.coordinator.node id) = .executing := hexec
    rcases hnode id with ⟨hid, -⟩ | hid
    · rw [hid] at hexec
      cases hexec
    · rw [hid] at hexec
      exact absurd hexec (hexecuting id)
  · intro id x hx hr _
    exact h.loose id x hx hr (hexecuting id)
  · intro id x hx hl
    rcases h.lapsed id x hx hl with hc | ⟨hexec, -⟩
    · exact .inl hc
    · exact absurd hexec (hexecuting id)

theorem runResume_inv {s : St} (h : Inv plan s) :
    Inv plan { s with coordinator := Coordinator.runResume plan s.coordinator } := by
  unfold Coordinator.runResume
  split
  · next event hemit =>
    rw [h.runCalm]
    simp only [Bool.false_eq_true, if_false]
    have hne : ∀ w rest, s.coordinator.run ≠ .gathering w rest := by
      intro w rest hrun
      rw [hrun] at hemit
      cases hemit
    have hquiet := h.quiet hne
    have hsound := h.sound
    have hclear := h.clear hne
    have hstops := h.stops hne
    cases hrun : s.coordinator.run with
    | runReady e =>
      simp only [Coordinator.advance]
      refine runMoves_inv h hquiet rfl rfl rfl rfl ?_ id
      intro hc
      exact absurd hc (by simp [hclear (by rw [hrun]; rfl)])
    | runStarted e =>
      simp only [Coordinator.advance]
      have hevent := hclear (by rw [hrun]; rfl)
      refine nextWave_inv h hquiet ?_ ?_ ?_ ?_ hevent _
      · rfl
      · rfl
      · rfl
      · exact hevent
    | stageReady w rest e =>
      simp only [Coordinator.advance]
      refine runMoves_inv h hquiet rfl rfl rfl rfl ?_ id
      intro hc
      exact absurd hc (by simp [hclear (by rw [hrun]; rfl)])
    | stageStarted w rest e =>
      simp only [Coordinator.advance]
      exact gathering_inv h hquiet (hclear (by rw [hrun]; rfl)) w rest none
    | stageEnded w state rest e =>
      simp only [Coordinator.advance]
      rw [hrun] at hsound
      split
      · next hs =>
        have hevent := hclear (by rw [hrun, hs]; rfl)
        refine nextWave_inv h hquiet ?_ ?_ ?_ ?_ hevent _
        · rfl
        · rfl
        · rfl
        · exact hevent
      · next hs =>
        have hf : isFailing state = true := by simpa [sound, hs] using hsound
        refine close_inv h hquiet ?_ ?_ ?_ ?_ hf _ _
        · rfl
        · rfl
        · rfl
        · rfl
    | closing queue e final =>
      rw [hrun] at hsound hemit
      rcases queue with _ | ⟨first, _ | ⟨second, queue⟩⟩
      · cases hemit
      · simp only [Coordinator.advance]
        refine finish_inv h hquiet ?_ ?_ ?_ (.inr hsound) id
        · rfl
        · rfl
        · rfl
      · simp only [Coordinator.advance]
        exact runMoves_inv h hquiet rfl rfl rfl hsound (fun _ => hsound) id
    | runEnded state e =>
      simp only [Coordinator.advance]
      rw [hrun] at hsound hstops
      split
      · next hs =>
        refine runMoves_inv h hquiet rfl rfl rfl rfl ?_ id
        intro hc
        have hf := hstops hc
        rw [hs.1] at hf
        cases hf
      · exact runMoves_inv h hquiet rfl rfl rfl hsound hstops id
    | finalizing queue e =>
      rw [hrun] at hsound
      cases hsound
    | _ =>
      rw [hrun] at hemit
      cases hemit
  · exact h

/-- The run's task takes a step inside an emission. -/
theorem emit_inv {s : St} (h : Inv plan s) {event : Coordinator.Event} {e : Coordinator.Emit}
    (hemit : s.coordinator.run.emission = some (event, e)) {c : Coordinator.St} {e' : Coordinator.Emit}
    (hrun : c.run = s.coordinator.run.withEmit e') (hnode : c.node = s.coordinator.node)
    (hcalm : c.interrupted = s.coordinator.interrupted) (hrunCalm : c.runInterrupted = s.coordinator.runInterrupted)
    (hevent : c.cancelEvent = s.coordinator.cancelEvent) : Inv plan { s with coordinator := c } := by
  have hne : ∀ w rest, s.coordinator.run ≠ .gathering w rest := by
    intro w rest hg
    rw [hg] at hemit
    cases hemit
  have hkeep : sound c.run = sound s.coordinator.run ∧ stopping c.run = stopping s.coordinator.run := by
    rw [hrun]
    cases s.coordinator.run <;> exact ⟨rfl, rfl⟩
  refine runMoves_inv h (h.quiet hne) hnode hcalm hrunCalm (hkeep.1.trans h.sound) ?_ (fun hc => hevent.trans hc)
  intro hc
  exact hkeep.2.trans (h.stops hne (hevent ▸ hc))

/-- The gather is over: the wave has failed if the event is set. -/
theorem runGathered_inv {s : St} (h : Inv plan s) :
    Inv plan { s with coordinator := Coordinator.runGathered plan s.coordinator } := by
  unfold Coordinator.runGathered
  split
  · next w rest hrun =>
    unfold Coordinator.gathered
    have hraised : (waveNodes plan w).any (Coordinator.isRaised ∘ s.coordinator.node) = false := by
      simp [h.raised]
    simp only [hraised, h.runCalm, Bool.false_and, Bool.or_self, Bool.false_eq_true, if_false]
    split
    · next hall =>
      have hreturned : ∀ id ∈ waveNodes plan w, ∃ state, s.coordinator.node id = .returned state := by
        intro id hid
        have hr := List.all_eq_true.mp hall id hid
        cases hn : s.coordinator.node id with
        | returned state => exact ⟨state, rfl⟩
        | _ => simp [hn, Coordinator.isReturned] at hr
      have hquiet : ∀ id, isActive (s.coordinator.node id) = false := by
        intro id
        by_contra ha
        obtain ⟨w', rest', hrun', hid⟩ := h.active id (by simpa using ha)
        rw [hrun] at hrun'
        cases hrun'
        obtain ⟨state, hn⟩ := hreturned id hid
        simp [hn, isActive] at ha
      have hstate : s.coordinator.cancelEvent = true → isFailing (Coordinator.terminalStageState
          ((waveNodes plan w).map (Coordinator.outcomeOf ∘ s.coordinator.node))) = true := by
        intro hc
        rcases h.blame hc with hstop | ⟨id, ⟨w', rest', hrun', hid⟩, hg⟩
        · rw [hrun] at hstop
          cases hstop
        · rw [hrun] at hrun'
          cases hrun'
          obtain ⟨state, hn⟩ := hreturned id hid
          have hf : isFailing state = true := by simpa [guilty, hn, verdict] using hg
          have hmem : state ∈ (waveNodes plan w).map (Coordinator.outcomeOf ∘ s.coordinator.node) :=
            List.mem_map.mpr ⟨id, hid, by simp [hn, Coordinator.outcomeOf]⟩
          unfold Coordinator.terminalStageState
          split
          · rfl
          · next hno =>
            simp only [isFailing, Bool.or_eq_true, decide_eq_true_eq] at hf
            rcases hf with rfl | rfl
            · rw [if_pos (List.contains_iff_mem.mpr hmem)]
              rfl
            · exact absurd (List.contains_iff_mem.mpr hmem) hno
      refine runMoves_inv h hquiet rfl rfl h.runCalm.symm ?_ hstate id
      by_cases hc : s.coordinator.cancelEvent = true
      · simp [sound, hstate hc]
      · -- With the event clear no node was cancelled.
        have hno : ((waveNodes plan w).map (Coordinator.outcomeOf ∘ s.coordinator.node)).contains cancelled = false := by
          by_contra hm
          obtain ⟨id, hid, hout⟩ := List.mem_map.mp (List.contains_iff_mem.mp (Bool.not_eq_false _ ▸ hm))
          obtain ⟨state, hn⟩ := hreturned id hid
          have hst : state = cancelled := by simpa [hn, Coordinator.outcomeOf] using hout
          exact hc (h.bound id cancelled (by rw [hn, hst]; rfl) (by simp))
        unfold Coordinator.terminalStageState
        rw [hno]
        split
        · rfl
        · split
          · rfl
          · rfl
    · exact h
  · exact h

theorem runStep_inv {s : St} (h : Inv plan s) (e : RunEv) :
    Inv plan { s with coordinator := Coordinator.runStep plan s.coordinator e } := by
  cases e with
  | resume => exact runResume_inv h
  | gathered => exact runGathered_inv h
  | acquire =>
    show Inv plan { s with coordinator := Coordinator.runAcquire s.coordinator }
    unfold Coordinator.runAcquire
    split
    · next hemit =>
      split
      · exact h
      · exact emit_inv h hemit rfl rfl rfl rfl rfl
    · exact h
  | append =>
    show Inv plan { s with coordinator := Coordinator.runAppend s.coordinator }
    unfold Coordinator.runAppend
    split
    · next hemit => exact emit_inv h hemit rfl rfl rfl rfl rfl
    · exact h
  | deliver =>
    show Inv plan { s with coordinator := Coordinator.runDeliver s.coordinator }
    simp only [Coordinator.runDeliver, h.runCalm, Bool.false_eq_true, if_false]
    exact h
  | list =>
    show Inv plan { s with coordinator := Coordinator.runList plan s.coordinator }
    unfold Coordinator.runList
    have hsound := h.sound
    split
    · next state hrun =>
      have hne : ∀ w rest, s.coordinator.run ≠ .gathering w rest := by simp [hrun]
      have hstops := h.stops hne
      rw [hrun] at hsound hstops
      simp only [h.runCalm, Bool.false_eq_true, if_false]
      exact runMoves_inv h (h.quiet hne) rfl rfl rfl hsound hstops id
    · next hrun =>
      rw [hrun] at hsound
      cases hsound
    · exact h

/-! ### Runs -/

/-- An accepted cancellation is remembered. -/
theorem step_accepted {s : St} (e : Ev) (h : (step plan s e).coordinator.cancelAccepted = false) :
    s.coordinator.cancelAccepted = false := by
  rw [← h]
  cases e with
  | exec id e =>
    show _ = (execStep plan s id e).coordinator.cancelAccepted
    unfold execStep
    split
    · rfl
    · split <;> rfl
  | coordinator e =>
    cases e with
    | node id e =>
      show _ = (nodeStep s id e).coordinator.cancelAccepted
      unfold nodeStep
      split
      · show _ = (Coordinator.nodeStep s.coordinator id e).cancelAccepted
        unfold Coordinator.nodeStep
        split <;> rfl
      · rfl
    | outerCancel =>
      show _ = (Coordinator.outerCancel plan s.coordinator).cancelAccepted
      unfold Coordinator.outerCancel
      split
      · rfl
      · split <;> rfl
    | cancelCall =>
      have h : (Coordinator.cancelCall s.coordinator).cancelAccepted = false := h
      show _ = (Coordinator.cancelCall s.coordinator).cancelAccepted
      unfold Coordinator.cancelCall at h ⊢
      split
      · next ha =>
        rw [if_pos ha] at h
        cases h
      · rfl
    | run e =>
      show _ = (Coordinator.runStep plan s.coordinator e).cancelAccepted
      cases e with
      | acquire =>
        simp only [Coordinator.runStep, Coordinator.runAcquire]
        split
        · split <;> rfl
        · rfl
      | append =>
        simp only [Coordinator.runStep, Coordinator.runAppend]
        split <;> rfl
      | resume =>
        simp only [Coordinator.runStep, Coordinator.runResume]
        split
        · next hemit =>
          split
          · rfl
          · exact (Coordinator.advance_moved plan (s := { s.coordinator with lock := none }) hemit).cancelAccepted.symm
        · rfl
      | gathered =>
        simp only [Coordinator.runStep, Coordinator.runGathered]
        split
        · unfold Coordinator.gathered
          simp only
          split
          · rfl
          · split <;> rfl
        · rfl
      | list =>
        simp only [Coordinator.runStep, Coordinator.runList]
        split
        · split <;> rfl
        · split <;> rfl
        · rfl
      | deliver =>
        simp only [Coordinator.runStep, Coordinator.runDeliver]
        split
        · split <;> rfl
        · rfl

theorem step_inv {s : St} (h : Inv plan s) {e : Ev} (houter : e ≠ .coordinator .outerCancel)
    (hkept : overtaken s e = false) (haccepted : (step plan s e).coordinator.cancelAccepted = false) :
    Inv plan (step plan s e) := by
  cases e with
  | exec id e => exact execStep_inv h id e
  | coordinator e =>
    cases e with
    | node id e => exact nodeStep_inv h hkept
    | run e => exact runStep_inv h e
    | outerCancel => exact absurd rfl houter
    | cancelCall =>
      show Inv plan { s with coordinator := Coordinator.cancelCall s.coordinator }
      have haccepted : (Coordinator.cancelCall s.coordinator).cancelAccepted = false := haccepted
      unfold Coordinator.cancelCall at haccepted ⊢
      split
      · next ha =>
        rw [if_pos ha] at haccepted
        cases haccepted
      · exact h

theorem foldl_accepted (events : List Ev) {s : St}
    (h : (events.foldl (step plan) s).coordinator.cancelAccepted = false) : s.coordinator.cancelAccepted = false := by
  induction events generalizing s with
  | nil => exact h
  | cons e events ih => exact step_accepted e (ih h)

theorem foldl_inv (events : List Ev) {s : St} (h : Inv plan s) (houter : .coordinator .outerCancel ∉ events)
    (hkept : avoids plan overtaken s events = true)
    (haccepted : (events.foldl (step plan) s).coordinator.cancelAccepted = false) :
    Inv plan (events.foldl (step plan) s) := by
  induction events generalizing s with
  | nil => exact h
  | cons e events ih =>
    simp only [avoids, Bool.and_eq_true, Bool.not_eq_true'] at hkept
    have hstep := step_inv h (fun he => houter (he ▸ List.mem_cons_self)) hkept.1 (foldl_accepted events haccepted)
    exact ih hstep (fun hm => houter (List.mem_cons_of_mem e hm)) hkept.2 haccepted

/-! ## A lapsed source -/

/-- The source's failure is on its way to its node. -/
def Told (id : String) (s : St) : Prop :=
  ∀ x, s.exec id = some x → x.lapsed = true →
    (verdict (s.coordinator.node id)).any isFailing = true ∨ (s.coordinator.node id = .executing ∧ firm x = true)

theorem applyExec_told {s : St} {id' : String} (h : Told id' s) {id : String} {x : Exec} (hx : s.exec id = some x)
    {e : ExecEv} {move : ExecMove}
    (spec : ExecSpec s.coordinator.cancelEvent (s.coordinator.node id = .executing) x e move)
    (hkept : outrun id' s (.exec id e) = false) : Told id' (applyExec s id move) := by
  intro x' hx' hl
  show (verdict (s.coordinator.node id')).any isFailing = true ∨ (s.coordinator.node id' = .executing ∧ firm x' = true)
  by_cases hid : id' = id
  · subst hid
    have hx' : some move.exec = some x' := by simpa [applyExec] using hx'
    cases hx'
    rcases spec.lapsed hl with hl | ⟨hf, ha⟩
    · rcases h x hx hl with hv | ⟨hexec, hf⟩
      · exact .inl hv
      · rcases spec.firm hf with hf | hd | ⟨hc, ⟨within, rfl⟩, outcome, hpc, ho⟩
        · exact .inr ⟨hexec, hf⟩
        · exact absurd hexec (of_decide_eq_false hd)
        · simp [outrun, hc, hx, hpc, ho] at hkept
    · exact .inr ⟨of_decide_eq_true ha, hf⟩
  · have hx' : s.exec id' = some x' := by simpa [applyExec, Function.update_of_ne hid] using hx'
    exact h x' hx' hl

theorem nodeStep_told {s : St} (hinv : Inv plan s) {id' : String} (h : Told id' s) {id : String} {e : NodeEv}
    (hkept : outrun id' s (.coordinator (.node id e)) = false) : Told id' (nodeStep s id e) := by
  unfold nodeStep
  split
  · next hfits =>
    unfold Coordinator.nodeStep
    rw [hinv.calm id]
    cases hmove : Coordinator.nodeMove s.coordinator.cancelEvent false s.coordinator.lock.isSome
        (s.coordinator.node id) e with
    | none =>
      simp only
      rw [if_neg fun hboth => hboth.2 hboth.1]
      exact h
    | some move =>
      simp only
      have hself : (Coordinator.applyMove s.coordinator id move).node id = move.pc := by simp [Coordinator.applyMove]
      have hmoves := (nodeMove_cases hmove).2.2
      intro x hx hl
      by_cases hid : id' = id
      · subst hid
        show (verdict ((Coordinator.applyMove s.coordinator id' move).node id')).any isFailing = true ∨ _
        rw [hself]
        left
        by_cases hpc : move.pc = .executing
        · simp only [hself, hpc, moves_executing hmoves hpc, ne_eq, not_false_eq_true, and_self, if_true,
            Function.update_self, Option.some.injEq] at hx
          rw [← hx] at hl
          cases hl
        · have hx : s.exec id' = some x := by simpa [hself, hpc] using hx
          cases hmoves with
          | bound hne _ hsame _ =>
            rw [hsame]
            exact (h x hx hl).resolve_right fun hb => hne hb.1
          | early hne hnone _ _ =>
            rcases h x hx hl with hv | hb
            · rw [hnone] at hv
              cases hv
            · exact absurd hb.1 hne
          | refused hne hnone _ _ =>
            rcases h x hx hl with hv | hb
            · rw [hnone] at hv
              cases hv
            · exact absurd hb.1 hne
          | @waited result _ hexec hreported _ _ _ =>
            rw [hreported, Option.any_some]
            rcases fits_waited hfits with ⟨rfl | rfl, -⟩ | ⟨y, outcome, hy, hypc, rfl⟩
            · simp [outrun, hx, hl] at hkept
            · rfl
            · rw [hx] at hy
              cases hy
              rcases h x hx hl with hv | hb
              · rw [hexec] at hv
                cases hv
              · have hf := hb.2
                simp only [firm, hypc] at hf
                exact reported_waited _ hf
      · have hnode : (Coordinator.applyMove s.coordinator id move).node id' = s.coordinator.node id' := by
          simp [Coordinator.applyMove, hid]
        have hx : s.exec id' = some x := by
          have hx : (if _ then Function.update s.exec id _ else s.exec) id' = some x := hx
          split at hx
          · rwa [Function.update_of_ne hid] at hx
          · exact hx
        show (verdict ((Coordinator.applyMove s.coordinator id move).node id')).any isFailing = true ∨
          ((Coordinator.applyMove s.coordinator id move).node id' = .executing ∧ _)
        rw [hnode]
        exact h x hx hl
  · exact h

theorem close_node (c : Coordinator.St) (ws : List Nat) (skip final : Coordinator.ExecutionState) :
    (Coordinator.close plan c ws skip final).node = c.node := by
  unfold Coordinator.close
  split <;> rfl

theorem nextWave_node (c : Coordinator.St) (ws : List Nat) : (Coordinator.nextWave plan c ws).node = c.node := by
  unfold Coordinator.nextWave
  split
  · rfl
  · split
    · exact close_node c _ _ _
    · rfl

/-- The run's task changes a node only where it makes a wave's tasks, with the event clear. -/
theorem runStep_node {s : St} (hinv : Inv plan s) (e : RunEv) (id : String) :
    (Coordinator.runStep plan s.coordinator e).node id = s.coordinator.node id ∨
      (isActive (s.coordinator.node id) = false ∧ s.coordinator.cancelEvent = false) := by
  cases e with
  | acquire =>
    simp only [Coordinator.runStep, Coordinator.runAcquire]
    left
    split
    · split <;> rfl
    · rfl
  | append =>
    simp only [Coordinator.runStep, Coordinator.runAppend]
    left
    split <;> rfl
  | gathered =>
    simp only [Coordinator.runStep, Coordinator.runGathered]
    left
    split
    · unfold Coordinator.gathered
      simp only
      split
      · rfl
      · split <;> rfl
    · rfl
  | list =>
    simp only [Coordinator.runStep, Coordinator.runList]
    left
    split
    · split <;> rfl
    · split <;> rfl
    · rfl
  | deliver =>
    simp only [Coordinator.runStep, Coordinator.runDeliver]
    left
    split
    · split <;> rfl
    · rfl
  | resume =>
    simp only [Coordinator.runStep, Coordinator.runResume]
    split
    · next hemit =>
      rw [hinv.runCalm]
      simp only [Bool.false_eq_true, if_false]
      cases hrun : s.coordinator.run with
      | stageStarted w rest emit =>
        have hne : ∀ w rest, s.coordinator.run ≠ .gathering w rest := by simp [hrun]
        exact .inr ⟨hinv.quiet hne id, hinv.clear hne (by rw [hrun]; rfl)⟩
      | runReady emit => exact .inl rfl
      | stageReady w rest emit => exact .inl rfl
      | runStarted emit => exact .inl (congrFun (nextWave_node _ _) id)
      | stageEnded w state rest emit =>
        simp only [Coordinator.advance]
        left
        split
        · exact congrFun (nextWave_node _ _) id
        · exact congrFun (close_node _ _ _ _) id
      | closing queue emit final =>
        rcases queue with _ | ⟨first, _ | ⟨second, queue⟩⟩ <;> exact .inl rfl
      | runEnded state emit =>
        simp only [Coordinator.advance]
        left
        split <;> rfl
      | finalizing queue emit =>
        rcases queue with _ | ⟨first, _ | ⟨second, queue⟩⟩ <;> exact .inl rfl
      | _ =>
        rw [hrun] at hemit
        cases hemit
    · exact .inl rfl

theorem runStep_told {s : St} (hinv : Inv plan s) {id : String} (h : Told id s) (e : RunEv) :
    Told id { s with coordinator := Coordinator.runStep plan s.coordinator e } := by
  intro x hx hl
  rcases runStep_node hinv e id with hnode | ⟨hidle, hclear⟩
  · simp only [hnode]
    exact h x hx hl
  · exfalso
    rcases hinv.lapsed id x hx hl with hc | ⟨hexec, -⟩
    · rw [hclear] at hc
      cases hc
    · rw [hexec] at hidle
      cases hidle

theorem step_told {s : St} (hinv : Inv plan s) {id : String} (h : Told id s) {e : Ev}
    (houter : e ≠ .coordinator .outerCancel) (hkept : outrun id s e = false) : Told id (step plan s e) := by
  cases e with
  | exec id' e =>
    show Told id (execStep plan s id' e)
    unfold execStep
    split
    · exact h
    · next x hx =>
      split
      · exact h
      · next move hmove => exact applyExec_told h hx (move_spec hmove) hkept
  | coordinator e =>
    cases e with
    | node id' e => exact nodeStep_told hinv h hkept
    | run e => exact runStep_told hinv h e
    | outerCancel => exact absurd rfl houter
    | cancelCall =>
      show Told id { s with coordinator := Coordinator.cancelCall s.coordinator }
      unfold Coordinator.cancelCall
      split
      · exact h
      · exact h

theorem foldl_told (events : List Ev) {s : St} (hinv : Inv plan s) {id : String} (h : Told id s)
    (houter : .coordinator .outerCancel ∉ events) (hkept : avoids plan overtaken s events = true)
    (htold : avoids plan (outrun id) s events = true)
    (haccepted : (events.foldl (step plan) s).coordinator.cancelAccepted = false) :
    Told id (events.foldl (step plan) s) := by
  induction events generalizing s with
  | nil => exact h
  | cons e events ih =>
    simp only [avoids, Bool.and_eq_true, Bool.not_eq_true'] at hkept htold
    have he : e ≠ .coordinator .outerCancel := fun he => houter (he ▸ List.mem_cons_self)
    have hstep := step_inv hinv he hkept.1 (foldl_accepted events haccepted)
    exact ih hstep (step_told hinv h he htold.1) (fun hm => houter (List.mem_cons_of_mem e hm)) hkept.2 htold.2 haccepted

/-- A run that nobody cancels, in which no node's task takes the clean-up of its own
    resolver for a cancellation, does not end CANCELLED. Where a source has failed or passed
    its deadline the run ends FAILED or TIMED_OUT; so does the source's node, unless a
    cancellation of the run's other nodes is seen first. -/
theorem no_spurious_cancellation (plan : PhysicalPlan) (events : List Ev)
    (houter : .coordinator .outerCancel ∉ events) (hkept : avoids plan overtaken init events = true)
    (haccepted : (run plan events).coordinator.cancelAccepted = false) :
    (∀ manifest, (run plan events).coordinator.run ≠ .returned cancelled manifest) ∧
      ∀ id x, (run plan events).exec id = some x → x.lapsed = true →
        (∀ state manifest, (run plan events).coordinator.run = .returned state manifest → state = failed ∨ state = timedOut) ∧
        (avoids plan (outrun id) init events = true → ∀ state,
          (run plan events).coordinator.node id = .returned state → state = failed ∨ state = timedOut) := by
  have h : Inv plan (run plan events) := foldl_inv events init_inv houter hkept haccepted
  have hfailing : ∀ {state : Coordinator.ExecutionState}, isFailing state = true → state = failed ∨ state = timedOut := by
    intro state hs
    simpa [isFailing] using hs
  refine ⟨?_, ?_⟩
  · intro manifest hrun
    have hsound := h.sound
    rw [hrun] at hsound
    cases hsound
  · intro id x hx hl
    refine ⟨?_, ?_⟩
    · intro state manifest hrun
      have hne : ∀ w rest, (run plan events).coordinator.run ≠ .gathering w rest := by simp [hrun]
      -- The node is done, so the event is set; and a run that has ended answers for it.
      have hc : (run plan events).coordinator.cancelEvent = true := by
        rcases h.lapsed id x hx hl with hc | ⟨hexec, -⟩
        · exact hc
        · have hidle := h.quiet hne id
          rw [hexec] at hidle
          cases hidle
      have hstop := h.stops hne hc
      rw [hrun] at hstop
      exact hfailing hstop
    · intro htold state hnode
      rcases foldl_told events init_inv (by simp [Told, init]) houter hkept htold haccepted x hx hl with hv | ⟨hexec, -⟩
      · have hv : (verdict ((run plan events).coordinator.node id)).any isFailing = true := hv
        rw [hnode] at hv
        exact hfailing hv
      · have hexec : (run plan events).coordinator.node id = .executing := hexec
        rw [hnode] at hexec
        cases hexec

section Example

open Coordinator (forkJoin untilGather emitNode emitRun)

/-- Both source fragments of the plan are executing; `a` has passed its deadline. -/
def lapsedSource : List Ev :=
  (.flatten [untilGather, emitNode "a", emitNode "b", [.node "a" .permit], emitNode "a", [.node "b" .permit],
    emitNode "b"] : List Coordinator.Ev).map .coordinator ++
    [.exec "a" (.start true), .exec "b" (.start true), .exec "a" .deadline]

/-- The clean-up of `a` is over at once: `a` fails and `b` is cancelled. -/
def reportedDeadline : List Ev :=
  lapsedSource ++ [.exec "a" (.cleaned none)] ++
    (.flatten [[.node "a" (.waited .failed), .node "b" (.waited .cancellation), .node "b" .handed], emitNode "a",
      emitNode "b", [.run .gathered], emitRun, emitRun, emitRun, emitRun, [.run .list]] : List Coordinator.Ev).map
      .coordinator

theorem reportedDeadline_failed :
    (run forkJoin reportedDeadline).coordinator.run = .returned failed false ∧
      (run forkJoin reportedDeadline).exec "a" = some ⟨.ended .failed, true⟩ ∧
      ∀ manifest, (run forkJoin reportedDeadline).coordinator.run ≠ .returned cancelled manifest := by
  refine ⟨by decide +kernel, by decide +kernel, ?_⟩
  exact (no_spurious_cancellation forkJoin reportedDeadline (by decide +kernel) (by decide +kernel)
    (by decide +kernel)).1

/-- The remote side takes its time to stop `a`, and the event `a`'s resolver set wakes both
    node tasks. -/
def overtakenDeadline : List Ev :=
  lapsedSource ++
    (.flatten [[.node "a" (.waited .cancellation), .node "a" .handed, .node "b" (.waited .cancellation),
      .node "b" .handed], emitNode "a", emitNode "b", [.run .gathered], emitRun, emitRun, emitRun, emitRun,
      [.run .list]] : List Coordinator.Ev).map .coordinator

theorem deadline_cancels :
    validatePhysicalPlan noParsers forkJoin = .ok () ∧ .coordinator .outerCancel ∉ overtakenDeadline ∧
      (run forkJoin overtakenDeadline).coordinator.cancelAccepted = false ∧
      (run forkJoin overtakenDeadline).exec "a" = some ⟨.cleaning .failed, true⟩ ∧
      (run forkJoin overtakenDeadline).coordinator.node "a" = .returned cancelled ∧
      (run forkJoin overtakenDeadline).coordinator.run = .returned cancelled false := by
  refine ⟨by decide +kernel, by decide +kernel, by decide +kernel, by decide +kernel, by decide +kernel,
    by decide +kernel⟩

end Example

end DataNexus.Plugins
