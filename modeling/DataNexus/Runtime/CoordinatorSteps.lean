/-
  DataNexus.Runtime.CoordinatorSteps — the node tasks and the cancellations keep the
  invariant of a run.

  A step writes for one wave at most, so what is said of the others carries over
  (`Agrees`). A node task can only move while its wave is gathered or after `run` was
  interrupted there: elsewhere the tasks are idle or done (`Quiet`).
-/

import DataNexus.Runtime.CoordinatorLog

namespace DataNexus.Runtime.Coordinator

open Lib ExecutionState

variable {plan : PhysicalPlan}

/-! ## What a step leaves alone -/

section Frame

variable {b b' : Board}

/-- Nothing that is said of wave `w` has changed. -/
structure Agrees (plan : PhysicalPlan) (b b' : Board) (w : Nat) : Prop where
  log : ∀ σ ∈ waveScopes plan w, stateIn b'.log σ = stateIn b.log σ
  node : ∀ id ∈ waveNodes plan w, b'.node id = b.node id
  manifests : ∀ id ∈ b.manifests, id ∈ b'.manifests

theorem Agrees.stage {w : Nat} (h : Agrees plan b b' w) : stateIn b'.log (.stage w) = stateIn b.log (.stage w) :=
  h.log _ (mem_waveScopes.mpr (.inl rfl))

theorem Agrees.nodeLog {w : Nat} (h : Agrees plan b b' w) {id : String} (hid : id ∈ waveNodes plan w) :
    stateIn b'.log (.node id) = stateIn b.log (.node id) :=
  h.log _ (mem_waveScopes.mpr (.inr ⟨id, hid, rfl⟩))

theorem Fresh.frame {w : Nat} (h : Fresh plan b w) (ha : Agrees plan b b' w) : Fresh plan b' w := by
  refine ⟨ha.stage.trans h.stage, fun id hid => ?_⟩
  rw [ha.node id hid, ha.nodeLog hid]
  exact h.nodes id hid

theorem Won.frame {w : Nat} (h : Won plan b w) (ha : Agrees plan b b' w) : Won plan b' w := by
  refine ⟨ha.stage.trans h.stage, fun id hid => ?_⟩
  rw [ha.node id hid]
  exact ⟨(h.nodes id hid).1, ha.manifests id (h.nodes id hid).2⟩

theorem Ended.frame {w : Nat} {state : ExecutionState} (h : Ended plan b w state) (ha : Agrees plan b b' w) :
    Ended plan b' w state := by
  have hmap : (waveNodes plan w).map (outcomeOf ∘ b'.node) = (waveNodes plan w).map (outcomeOf ∘ b.node) :=
    List.map_congr_left fun id hid => congrArg outcomeOf (ha.node id hid)
  refine ⟨fun id hid => ?_, hmap ▸ h.state, fun id hid => ?_⟩
  · rw [ha.node id hid]
    exact h.nodes id hid
  · rw [ha.node id hid]
    exact fun ho => ha.manifests id (h.manifests id hid ho)

theorem Shut.frame {w : Nat} {state : ExecutionState} (h : Shut plan b w state) (ha : Agrees plan b b' w) :
    Shut plan b' w state := by
  refine ⟨fun id hid => (ha.node id hid).trans (h.idle id hid), fun σ hσ => (ha.log σ hσ).trans (h.scopes σ hσ)⟩

theorem Stopped.frame {final skip : ExecutionState} {rest : List Nat} (h : Stopped plan b final skip rest)
    (ha : ∀ v ∈ waves plan, v ∉ rest → Agrees plan b b' v) : Stopped plan b' final skip rest := by
  have hnd := waves_nodup plan
  cases h with
  | @cancelled done _ hw hne hwon hf hs =>
    refine .cancelled hw hne (fun v hv => (hwon v hv).frame (ha v (by simp [hw, hv]) ?_)) hf hs
    rw [hw, List.nodup_append] at hnd
    exact fun hr => hnd.2.2 v hv v hr rfl
  | @ended done _ w hw hwon he hst hf hs =>
    rw [hw, List.nodup_append, List.nodup_cons] at hnd
    have haw := ha w (by simp [hw]) hnd.2.1.1
    refine .ended hw (fun v hv => (hwon v hv).frame (ha v (by simp [hw, hv]) ?_)) (he.frame haw)
      (haw.stage.trans hst) hf hs
    exact fun hr => hnd.2.2 v hv v (List.mem_cons_of_mem _ hr) rfl

theorem Stopped.mem_waves {final skip : ExecutionState} {rest : List Nat} (h : Stopped plan b final skip rest) :
    ∀ v ∈ rest, v ∈ waves plan := by
  cases h with
  | cancelled hw => simp +contextual [hw]
  | ended hw => simp +contextual [hw]

theorem Verdict.frame {state : ExecutionState} (h : Verdict plan b state) (ha : ∀ v ∈ waves plan, Agrees plan b b' v)
    (hc : b'.cancelAccepted = b.cancelAccepted) : Verdict plan b' state := by
  cases h with
  | all hwon hs => exact .all (fun v hv => (hwon v hv).frame (ha v hv)) (hc ▸ hs)
  | stopped hst hshut =>
    exact .stopped (hst.frame fun v hv _ => ha v hv) fun v hv => (hshut v hv).frame (ha v (hst.mem_waves v hv))

theorem AtWave.frame {done rest : List Nat} {w : Nat} (h : AtWave plan b done w rest)
    (ha : ∀ v ∈ waves plan, v ≠ w → Agrees plan b b' v) (hrun : stateIn b'.log .run = stateIn b.log .run) :
    AtWave plan b' done w rest := by
  have hnd := waves_nodup plan
  rw [h.split, List.nodup_append, List.nodup_cons] at hnd
  refine ⟨h.split, fun v hv => (h.won v hv).frame (ha v (by simp [h.split, hv]) ?_),
    fun v hv => (h.fresh v hv).frame (ha v (by simp [h.split, hv]) ?_), hrun.trans h.run⟩
  · exact fun heq => hnd.2.2 v hv w (by simp) heq
  · rintro rfl
    exact hnd.2.1.1 hv

/-- The board changed in the marks of a cancellation only. -/
structure SameLog (b b' : Board) : Prop where
  log : b'.log = b.log
  node : b'.node = b.node
  manifests : b'.manifests = b.manifests

theorem SameLog.agrees (h : SameLog b b') (w : Nat) : Agrees plan b b' w :=
  ⟨fun _ _ => by rw [h.log], fun _ _ => by rw [h.node], fun _ => by rw [h.manifests]; exact id⟩

theorem Normal.mark (h : Normal plan b) (hs : SameLog b b')
    (hb : b'.cancelEvent = true → b'.cancelAccepted = true ∨ ∃ id, (b'.node id).bad = true) : Normal plan b' := by
  refine ⟨?_, hb, hs.log ▸ h.order⟩
  unfold Tracked
  rw [hs.log, hs.node]
  exact h.tracked

theorem Quiet.mark (h : Quiet b) (hs : SameLog b b') (hi : b'.interrupted = b.interrupted) : Quiet b' := by
  unfold Quiet
  rw [hs.node, hi]
  exact h

theorem Settling.mark {queue : List Event} (h : Settling plan b queue) (hs : SameLog b b')
    (hi : b'.interrupted = b.interrupted) : Settling plan b' queue := by
  refine ⟨?_, h.nodup, ?_, ?_, ?_, ?_⟩
  · rw [hs.log]
    exact h.open_
  · rw [hs.log]
    exact h.cover
  · rw [hs.node]
    exact h.calm
  · unfold Alerted
    rw [hs.node, hi]
    exact h.alerted
  · rw [hs.log, hs.node]
    exact h.inflight

theorem AtWave.mark {done rest : List Nat} {w : Nat} (h : AtWave plan b done w rest) (hs : SameLog b b') :
    AtWave plan b' done w rest :=
  h.frame (fun v _ _ => hs.agrees v) (by rw [hs.log])

theorem agrees_write {w : Nat} {e : Event} (hlog : b'.log = b.log ++ [e]) (hnode : b'.node = b.node)
    (hman : b'.manifests = b.manifests) (he : e.scope ∉ waveScopes plan w) : Agrees plan b b' w := by
  refine ⟨fun σ hσ => ?_, fun _ _ => by rw [hnode], fun _ => by rw [hman]; exact id⟩
  rw [hlog]
  exact stateIn_append_of_ne fun heq => he (heq ▸ hσ)

/-- A log only gets a START that comes after the node's dependencies. -/
theorem StartedAfter.write {log : List Event} {e : Event} (h : StartedAfter plan log)
    (he : ∀ node ∈ plan.nodes, e = ⟨.node node.id, running⟩ →
      ∀ d ∈ node.dependencies, stateIn log (.node d) = succeeded) : StartedAfter plan (log ++ [e]) := by
  intro pre id post hsplit node hn hid
  rcases List.eq_nil_or_concat post with rfl | ⟨post, y, rfl⟩
  · obtain ⟨rfl, hx⟩ := List.append_inj' hsplit rfl
    obtain rfl := List.singleton_inj.mp hx
    exact he node hn (by rw [hid])
  · rw [List.concat_eq_append, ← List.cons_append, ← List.append_assoc] at hsplit
    obtain ⟨rfl, -⟩ := List.append_inj' hsplit rfl
    exact h pre id post rfl node hn hid

/-- An event of the run, of a stage, or of a node that has no task. -/
theorem Normal.write {e : Event} (h : Normal plan b)
    (he : ∀ id, e.scope = .node id → b.node id = .idle ∧ e.state ≠ running) :
    Normal plan { b with log := b.log ++ [e] } := by
  refine ⟨fun id hid => ?_, h.blame, h.order.write fun node _ hnode => ?_⟩
  · show stateIn (b.log ++ [e]) (.node id) = _
    rw [stateIn_append_of_ne]
    · exact h.tracked id hid
    · exact fun hs => hid (he id hs).1
  · subst hnode
    exact absurd rfl (he node.id rfl).2

theorem Quiet.alerted (h : Quiet b) : Alerted b := by
  intro id he
  rcases (h id).1 with hi | hr
  · simp [hi, NodePc.early] at he
  · cases hn : b.node id <;> simp_all [isReturned, NodePc.early]

theorem Quiet.calm (h : Quiet b) (id : String) : (b.node id).calm = true := by
  rcases (h id).1 with hi | hr
  · simp [hi, NodePc.calm]
  · cases hn : b.node id <;> simp_all [isReturned, NodePc.calm]

/-- A task that moves is in the wave that is gathered. -/
theorem AtWave.mem_of_active {done rest : List Nat} {w : Nat} (h : AtWave plan b done w rest) {id : String}
    (hknown : ∃ v ∈ waves plan, id ∈ waveNodes plan v) (hidle : b.node id ≠ .idle)
    (hret : isReturned (b.node id) = false) : id ∈ waveNodes plan w := by
  obtain ⟨v, hv, hid⟩ := hknown
  rw [h.split] at hv
  rcases List.mem_append.mp hv with hv | hv
  · have := ((h.won v hv).nodes id hid).1
    simp [this, isReturned] at hret
  · rcases List.mem_cons.mp hv with rfl | hv
    · exact hid
    · exact absurd ((h.fresh v hv).nodes id hid).1 hidle

end Frame

/-! ## Steps of a node task -/

section Move

variable {s : St} {id : String} {move : NodeMove}

theorem nodeStep_cases (hw : ∀ id, (s.node id).WellFormed) (id : String) (e : NodeEv) :
    nodeStep s id e = s ∨ ∃ move, MoveSpec s.cancelEvent (s.interrupted id) s.lock.isSome (s.node id) move ∧
      nodeStep s id e = applyMove s id move := by
  unfold nodeStep
  cases h : nodeMove s.cancelEvent (s.interrupted id) s.lock.isSome (s.node id) e with
  | none => exact .inl rfl
  | some move => exact .inr ⟨move, nodeMove_spec (hw id) h, rfl⟩

@[simp] theorem applyMove_node_self : (applyMove s id move).node id = move.pc := by simp [applyMove]

theorem applyMove_node_of_ne {id' : String} (h : id' ≠ id) : (applyMove s id move).node id' = s.node id' := by
  simp [applyMove, h]

@[simp] theorem applyMove_run : (applyMove s id move).run = s.run := rfl

theorem applyMove_state_of_ne {σ : Scope} (h : σ ≠ .node id) :
    stateIn (applyMove s id move).log σ = stateIn s.log σ := by
  cases he : move.emits with
  | none => simp [applyMove, he]
  | some state => simpa [applyMove, he] using stateIn_append_of_ne fun heq => h heq.symm

theorem applyMove_state_silent {σ : Scope} (h : move.emits = none) :
    stateIn (applyMove s id move).log σ = stateIn s.log σ := by
  simp [applyMove, h]

theorem applyMove_state_emits {state : ExecutionState} (h : move.emits = some state) :
    stateIn (applyMove s id move).log (.node id) = state := by
  simp [applyMove, h, stateIn_append]

theorem applyMove_interrupted {id' : String} (h : (applyMove s id move).interrupted id' = true) :
    s.interrupted id' = true := by
  by_cases hc : move.consumes = true <;> by_cases hid : id' = id <;> simp_all [applyMove]

theorem applyMove_agrees {w : Nat} (h : id ∉ waveNodes plan w) :
    Agrees plan s.toBoard (applyMove s id move).toBoard w := by
  refine ⟨fun σ hσ => applyMove_state_of_ne ?_, fun id' hid' => applyMove_node_of_ne ?_, fun _ hm => hm⟩
  · rintro rfl
    rcases mem_waveScopes.mp hσ with h' | ⟨id', hid', h'⟩
    · cases h'
    · obtain rfl : id = id' := by simpa using h'
      exact h hid'
  · rintro rfl
    exact h hid'

theorem applyMove_legal (hl : LegalLog s.log)
    (h : ∀ state, move.emits = some state → canTransition (stateIn s.log (.node id)) state) :
    LegalLog (applyMove s id move).log := by
  cases he : move.emits with
  | none => simpa [applyMove, he] using hl
  | some state =>
    have := legalLog_append (e := ⟨.node id, state⟩) hl (h state he)
    simpa [applyMove, he] using this

variable (spec : MoveSpec s.cancelEvent (s.interrupted id) s.lock.isSome (s.node id) move)
include spec

theorem applyMove_tracked (h : Tracked s.toBoard) : Tracked (applyMove s id move).toBoard := by
  intro id' hid'
  by_cases heq : id' = id
  · subst heq
    rw [applyMove_node_self]
    cases he : move.emits with
    | none => rw [applyMove_state_silent he, spec.silent he, h _ spec.active.1]
    | some state => rw [applyMove_state_emits he, (spec.emits state he).2.1]
  · rw [applyMove_node_of_ne heq] at hid' ⊢
    rw [applyMove_state_of_ne (by simpa using heq)]
    exact h id' hid'

theorem applyMove_alerted (h : Alerted s.toBoard) : Alerted (applyMove s id move).toBoard := by
  intro id' he
  by_cases heq : id' = id
  · subst heq
    rw [applyMove_node_self] at he
    have hi := h id' (spec.early he).1
    simp [applyMove, (spec.early he).2 hi, hi]
  · rw [applyMove_node_of_ne heq] at he
    by_cases hc : move.consumes = true <;> simp [applyMove, hc, heq, h id' he]

/-- The emitter's lock is held by the task whose emission says so. -/
theorem applyMove_lock (hn : ∀ id, (s.node id).holds = true ↔ s.lock = some (.node id))
    (hr : s.run.holds = true ↔ s.lock = some .run) :
    (∀ id', ((applyMove s id move).node id').holds = true ↔ (applyMove s id move).lock = some (.node id')) ∧
      (s.run.holds = true ↔ (applyMove s id move).lock = some .run) := by
  have hlock : (applyMove s id move).lock = move.lock.apply s.lock (.node id) := rfl
  cases hm : move.lock with
  | keep =>
    simp only [hlock, hm, LockMove.apply]
    refine ⟨fun id' => ?_, hr⟩
    by_cases heq : id' = id
    · subst heq
      rw [applyMove_node_self, spec.keep hm]
      exact hn id'
    · rw [applyMove_node_of_ne heq]
      exact hn id'
  | take =>
    have hnone : s.lock = none := by simpa using (spec.take hm).1
    simp only [hlock, hm, LockMove.apply]
    refine ⟨fun id' => ?_, by simp [hr, hnone]⟩
    by_cases heq : id' = id
    · subst heq
      simp [(spec.take hm).2]
    · rw [applyMove_node_of_ne heq, hn id', hnone]
      simpa using fun h => heq h.symm
  | free =>
    have hheld := (hn id).mp (spec.free hm).1
    simp only [hlock, hm, LockMove.apply]
    refine ⟨fun id' => ?_, by simp [hr, hheld]⟩
    by_cases heq : id' = id
    · subst heq
      simp [(spec.free hm).2]
    · rw [applyMove_node_of_ne heq, hn id', hheld]
      simpa using fun h => heq h.symm

/-- The cancel event is set by a task that will not succeed. -/
theorem applyMove_blame (h : s.cancelEvent = true → s.cancelAccepted = true ∨ ∃ id, (s.node id).bad = true)
    (hc : (applyMove s id move).cancelEvent = true) :
    s.cancelAccepted = true ∨ ∃ id', ((applyMove s id move).node id').bad = true := by
  have hc : s.cancelEvent = true ∨ move.cancels = true := by simpa [applyMove] using hc
  rcases hc with hc | hc
  · rcases h hc with ha | ⟨id', hb⟩
    · exact .inl ha
    · refine .inr ⟨id', ?_⟩
      by_cases heq : id' = id
      · subst heq
        rw [applyMove_node_self]
        exact spec.bad hb
      · rwa [applyMove_node_of_ne heq]
  · exact .inr ⟨id, by rw [applyMove_node_self]; exact spec.cancels hc⟩

theorem settling_move {queue : List Event} (h : Settling plan s.toBoard queue) :
    Settling plan (applyMove s id move).toBoard queue := by
  -- The one event a calm task can still write is the READY that is on its way.
  have hemit : ∀ state, move.emits = some state → stateIn s.log (.node id) = pending ∧ state = ready := by
    intro state he
    obtain ⟨hpc, rfl⟩ := spec.calmEmits state he (h.calm id)
    exact ⟨h.inflight id hpc, rfl⟩
  have hterm : ∀ σ, (stateIn (applyMove s id move).log σ).isTerminal = (stateIn s.log σ).isTerminal := by
    intro σ
    by_cases hσ : σ = .node id
    · subst hσ
      cases he : move.emits with
      | none => rw [applyMove_state_silent he]
      | some state =>
        rw [applyMove_state_emits he, (hemit state he).1, (hemit state he).2]
        rfl
    · rw [applyMove_state_of_ne hσ]
  refine ⟨fun e he => ?_, h.nodup, fun σ hσ => ?_, fun id' => ?_, applyMove_alerted spec h.alerted, fun id' hid' => ?_⟩
  · rw [hterm]
    exact h.open_ e he
  · rw [hterm]
    exact h.cover σ hσ
  · by_cases heq : id' = id
    · subst heq
      rw [applyMove_node_self]
      exact spec.calm (h.calm id') (h.alerted id')
    · rw [applyMove_node_of_ne heq]
      exact h.calm id'
  · by_cases heq : id' = id
    · subst heq
      rw [applyMove_node_self] at hid'
      obtain ⟨hearly, hi⟩ := spec.inflight hid'
      rw [h.alerted id' hearly] at hi
      cases hi
    · rw [applyMove_node_of_ne heq] at hid'
      rw [applyMove_state_of_ne (by simpa using heq)]
      exact h.inflight id' hid'

end Move

/-- The dependencies of a node that is started lie in waves that are won. -/
theorem AtWave.started {lib : ScalarParsers} (hplan : Accepted lib plan) {b : Board} {done rest : List Nat} {w : Nat}
    (h : AtWave plan b done w rest) (ht : Tracked b) {node : PhysicalNode} (hn : node ∈ plan.nodes)
    (hw : node.id ∈ waveNodes plan w) {d : String} (hd : d ∈ node.dependencies) :
    stateIn b.log (.node d) = succeeded := by
  obtain ⟨below, hb, rfl, hlt⟩ := (hplan.nodes node hn).waves d hd
  have hwave : node.wave = w := wave_unique hplan.nodup (mem_waveNodes.mpr ⟨node, hn, rfl, rfl⟩) hw
  have hmem : below.wave ∈ done ++ w :: rest := h.split ▸ mem_waves.mpr ⟨below, hb, rfl⟩
  have hsorted := waves_pairwise plan
  rw [h.split, List.pairwise_append, List.pairwise_cons] at hsorted
  have hdone : below.wave ∈ done := by
    rcases List.mem_append.mp hmem with hm | hm
    · exact hm
    · rcases List.mem_cons.mp hm with hm | hm
      · omega
      · have := hsorted.2.1.1 _ hm
        omega
  have hret := ((h.won _ hdone).nodes below.id (mem_waveNodes.mpr ⟨below, hb, rfl, rfl⟩)).1
  rw [ht below.id (by simp [hret]), hret]
  rfl

theorem gathering_move {lib : ScalarParsers} (hplan : Accepted lib plan) {s : St} {id : String} {move : NodeMove}
    (spec : MoveSpec s.cancelEvent (s.interrupted id) s.lock.isSome (s.node id) move) {w : Nat} {rest : List Nat}
    (hknown : ∃ v ∈ waves plan, id ∈ waveNodes plan v) (h : Phase plan s.toBoard (.gathering w rest)) :
    Phase plan (applyMove s id move).toBoard (.gathering w rest) := by
  obtain ⟨hnormal, ⟨done, hat⟩, hstage, hnodes, halert, hint⟩ := h
  have hid : id ∈ waveNodes plan w := hat.mem_of_active hknown spec.active.1 spec.active.2.1
  have hother : ∀ v ∈ waves plan, v ≠ w → Agrees plan s.toBoard (applyMove s id move).toBoard v :=
    fun v _ hne => applyMove_agrees fun hv => hne (wave_unique hplan.nodup hv hid)
  refine ⟨⟨applyMove_tracked spec hnormal.tracked, applyMove_blame spec hnormal.blame, ?_⟩,
    ⟨done, hat.frame hother (applyMove_state_of_ne (by simp))⟩, ?_, fun id' hid' => ?_, fun hr => ?_, fun id' hi => ?_⟩
  · cases he : move.emits with
    | none => simpa [applyMove, he] using hnormal.order
    | some state =>
      have hstart := hnormal.order.write (e := ⟨.node id, state⟩) fun node hn heq d hd => by
        obtain rfl : id = node.id := by simpa using congrArg (·.scope) heq
        exact hat.started hplan hnormal.tracked hn hid hd
      simpa [applyMove, he] using hstart
  · rw [applyMove_state_of_ne (by simp)]
    exact hstage
  · by_cases heq : id' = id
    · subst heq
      rw [applyMove_node_self]
      exact spec.notIdle
    · rw [applyMove_node_of_ne heq]
      exact hnodes id' hid'
  · exact applyMove_alerted spec (halert hr)
  · show s.runInterrupted = true
    rcases hi with hi | hi
    · exact hint id' (.inl (applyMove_interrupted hi))
    · by_cases heq : id' = id
      · subst heq
        rw [applyMove_node_self] at hi
        exact hint id' (.inl (spec.raised hi))
      · rw [applyMove_node_of_ne heq] at hi
        exact hint id' (.inr hi)

/-- Only the finalizer writes for a node that has a task. -/
theorem Phase.tracked {b : Board} {pc : RunPc} (h : Phase plan b pc) : Tracked b ∨ ∃ queue, Settling plan b queue := by
  cases pc with
  | runReady e => exact .inl h.2.1.tracked
  | runStarted e => exact .inl h.2.1.tracked
  | stageReady w rest e => exact .inl h.2.1.tracked
  | stageStarted w rest e => exact .inl h.2.1.tracked
  | gathering w rest => exact .inl h.1.tracked
  | stageEnded w state rest e => exact .inl h.2.1.tracked
  | closing queue e final => exact .inl h.2.1.tracked
  | runEnded state e => exact .inl h.1.normal.tracked
  | listing state => exact .inl h.1.normal.tracked
  | returned state manifest => exact .inl h.1.normal.tracked
  | outputMissing => exact h.elim
  | snapshot => exact .inl h.1
  | finalizing queue e => exact .inr ⟨_, h⟩
  | left => exact .inr ⟨_, h⟩

section Node

variable {s : St} {id : String} {move : NodeMove}
  (spec : MoveSpec s.cancelEvent (s.interrupted id) s.lock.isSome (s.node id) move)
include spec

theorem Quiet.stuck (h : Quiet s.toBoard) : False := by
  rcases (h id).1 with hi | hr
  · exact spec.active.1 hi
  · rw [spec.active.2.1] at hr
    cases hr

theorem phase_emits {state : ExecutionState} (h : Phase plan s.toBoard s.run) (he : move.emits = some state) :
    canTransition (stateIn s.log (.node id)) state := by
  rcases h.tracked with ht | ⟨queue, hq⟩
  · rw [ht id spec.active.1]
    exact (spec.emits state he).1
  · obtain ⟨hpc, rfl⟩ := spec.calmEmits state he (hq.calm id)
    rw [hq.inflight id hpc]
    simp [canTransition, transitions]

theorem phase_move {lib : ScalarParsers} (hplan : Accepted lib plan)
    (hknown : ∃ v ∈ waves plan, id ∈ waveNodes plan v) {pc : RunPc} (h : Phase plan s.toBoard pc) :
    Phase plan (applyMove s id move).toBoard pc := by
  cases pc with
  | gathering w rest => exact gathering_move hplan spec hknown h
  | snapshot => exact ⟨applyMove_tracked spec h.1, applyMove_alerted spec h.2⟩
  | finalizing queue e => exact settling_move spec h
  | left => exact settling_move spec h
  | runReady e => exact (h.1.stuck spec).elim
  | runStarted e => exact (h.1.stuck spec).elim
  | stageReady w rest e => exact (h.1.stuck spec).elim
  | stageStarted w rest e => exact (h.1.stuck spec).elim
  | stageEnded w state rest e => exact (h.1.stuck spec).elim
  | closing queue e final => exact (h.1.stuck spec).elim
  | runEnded state e => exact (h.1.quiet.stuck spec).elim
  | listing state => exact (h.1.quiet.stuck spec).elim
  | returned state manifest => exact (h.1.quiet.stuck spec).elim
  | outputMissing => exact h.elim

end Node

theorem Inv.node {lib : ScalarParsers} (hplan : Accepted lib plan) {s : St} (h : Inv plan s) (id : String)
    (e : NodeEv) : Inv plan (nodeStep s id e) := by
  rcases nodeStep_cases h.wellFormed id e with hs | ⟨move, spec, hs⟩
  · rwa [hs]
  rw [hs]
  have hlock := applyMove_lock spec h.lockNode h.lockRun
  have hknown := h.known id spec.active.1
  refine ⟨applyMove_legal h.legal fun state he => phase_emits spec h.phase he, fun id' => ?_, hlock.1, hlock.2,
    fun id' hid' => ?_, fun ha => ?_, h.deaf, phase_move spec hplan hknown h.phase⟩
  · by_cases heq : id' = id
    · subst heq
      rw [applyMove_node_self]
      exact spec.wellFormed
    · rw [applyMove_node_of_ne heq]
      exact h.wellFormed id'
  · by_cases heq : id' = id
    · exact heq ▸ hknown
    · rw [applyMove_node_of_ne heq] at hid'
      exact h.known id' hid'
  · show (s.cancelEvent || move.cancels) = true
    rw [h.accepted ha]
    rfl

/-! ## Cancellation -/

/-- A mark that changes neither the log nor a task. -/
theorem Phase.mark {b b' : Board} {pc : RunPc} (h : Phase plan b pc) (hs : SameLog b b') (hi : b'.interrupted = b.interrupted)
    (hr : ∀ w rest, pc = .gathering w rest → b'.runInterrupted = b.runInterrupted)
    (hb : Normal plan b → b'.cancelEvent = true → b'.cancelAccepted = true ∨ ∃ id, (b'.node id).bad = true)
    (ho : b.accepting = false → b'.accepting = false ∧ b'.cancelAccepted = b.cancelAccepted) : Phase plan b' pc := by
  have hquiet : Quiet b → Quiet b' := fun hq => hq.mark hs hi
  have hnormal : Normal plan b → Normal plan b' := fun hn => hn.mark hs (hb hn)
  have hover : ∀ state, Over plan b state → Over plan b' state := fun state hov =>
    ⟨hquiet hov.quiet, hnormal hov.normal, (ho hov.closed).1,
      hov.verdict.frame (fun v _ => hs.agrees v) (ho hov.closed).2⟩
  have hat : ∀ {w rest}, (∃ done, AtWave plan b done w rest) → ∃ done, AtWave plan b' done w rest :=
    fun ⟨done, h⟩ => ⟨done, h.mark hs⟩
  have hfresh : (∀ w ∈ waves plan, Fresh plan b w) → ∀ w ∈ waves plan, Fresh plan b' w :=
    fun hf w hw => (hf w hw).frame (hs.agrees w)
  cases pc with
  | runReady e => exact ⟨hquiet h.1, hnormal h.2.1, hs.log ▸ h.2.2.1, hfresh h.2.2.2⟩
  | runStarted e => exact ⟨hquiet h.1, hnormal h.2.1, hs.log ▸ h.2.2.1, hfresh h.2.2.2⟩
  | stageReady w rest e =>
    refine ⟨hquiet h.1, hnormal h.2.1, hat h.2.2.1, ?_⟩
    rw [hs.log, hs.node]
    exact h.2.2.2
  | stageStarted w rest e =>
    refine ⟨hquiet h.1, hnormal h.2.1, hat h.2.2.1, ?_⟩
    rw [hs.log, hs.node]
    exact h.2.2.2
  | gathering w rest =>
    refine ⟨hnormal h.1, hat h.2.1, ?_⟩
    unfold Alerted
    rw [hs.log, hs.node, hi, hr w rest rfl]
    exact h.2.2
  | stageEnded w state rest e =>
    exact ⟨hquiet h.1, hnormal h.2.1, hat h.2.2.1, hs.log ▸ h.2.2.2.1, h.2.2.2.2.frame (hs.agrees w)⟩
  | closing queue e final =>
    obtain ⟨hq, hn, hrun, skip, rest, hst, hrest⟩ := h
    refine ⟨hquiet hq, hnormal hn, hs.log ▸ hrun, skip, rest, hst.frame fun v _ _ => hs.agrees v, ?_⟩
    rw [hs.log, hs.node]
    exact hrest
  | runEnded state e => exact ⟨hover _ h.1, hs.log ▸ h.2⟩
  | listing state => exact ⟨hover _ h.1, hs.log ▸ h.2⟩
  | returned state manifest => exact ⟨hover _ h.1, hs.log ▸ h.2.1, h.2.2⟩
  | outputMissing => exact h
  | snapshot =>
    obtain ⟨ht, ha⟩ := h
    unfold Tracked at ht
    unfold Alerted at ha
    rw [← hs.node, ← hs.log] at ht
    rw [← hs.node, ← hi] at ha
    exact ⟨ht, ha⟩
  | finalizing queue e => exact Settling.mark h hs hi
  | left => exact Settling.mark h hs hi

theorem Inv.cancelCall {s : St} (h : Inv plan s) : Inv plan (cancelCall s) := by
  unfold Coordinator.cancelCall
  split
  · rename_i hacc
    refine ⟨h.legal, h.wellFormed, h.lockNode, h.lockRun, h.known, fun _ => rfl, h.deaf, ?_⟩
    refine h.phase.mark ⟨rfl, rfl, rfl⟩ rfl (fun _ _ _ => rfl) (fun _ _ => .inl rfl) fun hno => ?_
    rw [hacc] at hno
    cases hno
  · exact h

theorem Inv.outerCancel {s : St} (h : Inv plan s) : Inv plan (outerCancel plan s) := by
  unfold Coordinator.outerCancel
  split
  · exact h
  · rename_i hdeaf
    split
    · rename_i w rest hpc
      have hphase := h.phase
      rw [hpc] at hphase
      obtain ⟨hnormal, ⟨done, hat⟩, hstage, hnodes, -, -⟩ := hphase
      refine ⟨h.legal, h.wellFormed, h.lockNode, h.lockRun, h.known, h.accepted, fun hd => absurd hd hdeaf, ?_⟩
      show Phase plan _ s.run
      rw [hpc]
      refine ⟨hnormal.mark ⟨rfl, rfl, rfl⟩ hnormal.blame, ⟨done, hat.mark ⟨rfl, rfl, rfl⟩⟩, hstage, hnodes,
        fun _ id he => ?_, fun _ _ => rfl⟩
      -- A task before its READY event is neither idle nor done, so it is cancelled now.
      have he : (s.node id).early = true := he
      have hactive : s.node id ≠ .idle ∧ isReturned (s.node id) = false ∧ isRaised (s.node id) = false := by
        cases hn : s.node id <;> simp_all [NodePc.early, isReturned, isRaised]
      have hid := hat.mem_of_active (h.known id hactive.1) hactive.1 hactive.2.1
      simp [hid, hactive.2]
    · rename_i hpc
      refine ⟨h.legal, h.wellFormed, h.lockNode, h.lockRun, h.known, h.accepted, fun hd => absurd hd hdeaf, ?_⟩
      exact h.phase.mark ⟨rfl, rfl, rfl⟩ rfl (fun w rest hg => absurd hg (hpc w rest)) (fun hn => hn.blame)
        fun hc => ⟨hc, rfl⟩

end DataNexus.Runtime.Coordinator
