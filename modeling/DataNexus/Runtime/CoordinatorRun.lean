/-
  DataNexus.Runtime.CoordinatorRun — the task of `run` keeps the invariant.

  An emission of the run is a transition of its scope (`Phase.append`); behind it the run
  starts the next wave, closes the rest of them down or ends (`advance`). The one step that
  needs more than the invariant is the finalizer's reading of the log: it has to find every
  node task calm (`Inv.list`).
-/

import DataNexus.Runtime.CoordinatorSteps

namespace DataNexus.Runtime.Coordinator

open Lib ExecutionState

variable {plan : PhysicalPlan}

/-! ## Emissions of the run -/

theorem Phase.acquire {b : Board} {pc : RunPc} {event : Event} (h : Phase plan b pc)
    (he : pc.emission = some (event, .waiting)) : Phase plan b (pc.withEmit .holding) := by
  cases pc with
  | closing queue e final => cases queue <;> cases e <;> first | exact h | cases he
  | finalizing queue e => cases queue <;> cases e <;> first | exact h | cases he
  | runReady e => cases e <;> first | exact h | cases he
  | runStarted e => cases e <;> first | exact h | cases he
  | stageReady w rest e => cases e <;> first | exact h | cases he
  | stageStarted w rest e => cases e <;> first | exact h | cases he
  | stageEnded w state rest e => cases e <;> first | exact h | cases he
  | runEnded state e => cases e <;> first | exact h | cases he
  | _ => cases he

section Append

variable {lib : ScalarParsers} (hplan : Accepted lib plan) {b : Board} {event : Event}

theorem Stopped.skip_eq {final skip : ExecutionState} {rest : List Nat} (h : Stopped plan b final skip rest) :
    skip = ExecutionState.cancelled ∨ skip = skipped := by
  cases h with
  | cancelled _ _ _ _ hs => exact .inl hs
  | ended _ _ _ _ _ hs =>
    rw [hs, skipState]
    split_ifs <;> simp

theorem Stopped.final_eq {final skip : ExecutionState} {rest : List Nat} (h : Stopped plan b final skip rest) :
    canTransition running final ∧ final ≠ succeeded := by
  cases h with
  | cancelled _ _ _ hf _ => simp [hf, canTransition, transitions]
  | ended _ _ he _ hf _ => exact ⟨he.state ▸ canTransition_terminalStageState _, hf⟩

theorem Verdict.canTransition {state : ExecutionState} (h : Verdict plan b state) :
    canTransition running state := by
  cases h with
  | all _ hs =>
    rw [hs]
    split_ifs <;> simp [Coordinator.canTransition, transitions]
  | stopped hst _ => exact hst.final_eq.1

theorem Over.write {state : ExecutionState} (h : Over plan b state) (he : event.scope = .run) :
    Over plan { b with log := b.log ++ [event] } state := by
  refine ⟨h.quiet, h.normal.write fun id hid => ?_, h.closed, h.verdict.frame (fun v _ => ?_) rfl⟩
  · rw [he] at hid
    cases hid
  · exact agrees_write rfl rfl rfl (he ▸ run_notMem_waveScopes v)

include hplan in
theorem AtWave.write {done rest : List Nat} {w : Nat} (h : AtWave plan b done w rest) (he : event.scope = .stage w) :
    AtWave plan { b with log := b.log ++ [event] } done w rest := by
  refine h.frame (fun v _ hne => agrees_write rfl rfl rfl fun hv => ?_) (stateIn_append_of_ne (by simp [he]))
  have hw : event.scope ∈ waveScopes plan w := mem_waveScopes.mpr (.inl he)
  exact hne (waveScopes_unique hplan.nodup hv hw)

theorem settling_append {queue : List Event} (h : Settling plan b (event :: queue))
    (hfree : ∀ id, (b.node id).holds = false) :
    Coordinator.canTransition (stateIn b.log event.scope) event.state ∧
      Settling plan { b with log := b.log ++ [event] } queue := by
  obtain ⟨hstate, hopen⟩ := h.open_ event (by simp)
  have hnd := List.nodup_cons.mp h.nodup
  refine ⟨?_, ⟨fun x hx => ?_, hnd.2, fun σ hσ => ?_, h.calm, h.alerted, fun id hid => ?_⟩⟩
  · rw [hstate]
    cases hs : stateIn b.log event.scope <;> simp_all [Coordinator.canTransition, transitions, isTerminal]
  · show _ ∧ (stateIn (b.log ++ [event]) x.scope).isTerminal = false
    rw [stateIn_append_of_ne fun heq => hnd.1 (List.mem_map.mpr ⟨x, hx, heq.symm⟩)]
    exact h.open_ x (List.mem_cons_of_mem _ hx)
  · show (stateIn (b.log ++ [event]) σ).isTerminal = true ∨ _
    rw [stateIn_append]
    by_cases heq : event.scope = σ
    · simp [heq, hstate, isTerminal]
    · rcases h.cover σ hσ with ht | hq
      · simp [heq, ht]
      · rw [List.map_cons, List.mem_cons] at hq
        exact .inr (hq.resolve_left fun h => heq h.symm)
  · have hid : b.node id = .ready .holding := hid
    have := hfree id
    simp [hid, NodePc.holds] at this

end Append

theorem closing_append {lib : ScalarParsers} (hplan : Accepted lib plan) {b : Board} {event : Event}
    {queue : List Event} {final : ExecutionState} (h : Phase plan b (.closing (event :: queue) .holding final)) :
    canTransition (stateIn b.log event.scope) event.state ∧
      Phase plan { b with log := b.log ++ [event] } (.closing (event :: queue) .appended final) := by
  obtain ⟨hq, hn, hrun, skip, rest, hst, hidle, hopen, hnd, hcover, hin⟩ := h
  obtain ⟨hstate, hpend⟩ := hopen event (by simp [remaining])
  obtain ⟨v, hv, hscope⟩ := hin event.scope (by simp [remaining])
  have hnd := List.nodup_cons.mp hnd
  have hne : event.scope ≠ .run := fun heq => run_notMem_waveScopes v (heq ▸ hscope)
  refine ⟨?_, hq, hn.write fun id hid => ⟨?_, ?_⟩, (stateIn_append_of_ne hne).trans hrun, skip, rest,
    hst.frame fun u _ hu => agrees_write rfl rfl rfl fun hw => ?_, hidle, fun x hx => ?_, hnd.2, fun u hu σ hσ => ?_,
    fun σ hσ => ?_⟩
  · rw [hstate, hpend]
    rcases hst.skip_eq with rfl | rfl <;> simp [canTransition, transitions]
  · rw [hid] at hscope
    rcases mem_waveScopes.mp hscope with h | ⟨id', hid', h⟩
    · cases h
    · obtain rfl : id = id' := by simpa using h
      exact hidle v hv id hid'
  · rw [hstate]
    rcases hst.skip_eq with rfl | rfl <;> simp
  · exact hu (waveScopes_unique hplan.nodup hscope hw ▸ hv)
  · have hx : x ∈ queue := hx
    show _ ∧ stateIn (b.log ++ [event]) x.scope = pending
    rw [stateIn_append_of_ne fun heq => hnd.1 (List.mem_map.mpr ⟨x, hx, heq.symm⟩)]
    exact hopen x (List.mem_cons_of_mem _ hx)
  · show stateIn (b.log ++ [event]) σ = skip ∨ _
    rw [stateIn_append]
    by_cases heq : event.scope = σ
    · simp [heq, hstate]
    · rcases hcover u hu σ hσ with hs | hs
      · simp [heq, hs]
      · replace hs : σ ∈ (event :: queue).map (·.scope) := hs
        rw [List.map_cons, List.mem_cons] at hs
        exact .inr (hs.resolve_left fun h => heq h.symm)
  · exact hin σ (List.mem_cons_of_mem _ hσ)

section Append

variable {lib : ScalarParsers} (hplan : Accepted lib plan) {b : Board}

theorem fresh_write {event : Event} (he : event.scope = .run) (h : ∀ w ∈ waves plan, Fresh plan b w) :
    ∀ w ∈ waves plan, Fresh plan { b with log := b.log ++ [event] } w :=
  fun w hw => (h w hw).frame (agrees_write rfl rfl rfl (he ▸ run_notMem_waveScopes w))

theorem Normal.writeNoNode {event : Event} (h : Normal plan b) (he : ∀ id, event.scope ≠ .node id) :
    Normal plan { b with log := b.log ++ [event] } :=
  h.write fun id hid => absurd hid (he id)

include hplan in
/-- The event the run emits is a transition of its scope, and the phase goes on behind it. -/
theorem Phase.append {pc : RunPc} {event : Event} (h : Phase plan b pc) (he : pc.emission = some (event, .holding))
    (hfree : ∀ id, (b.node id).holds = false) :
    canTransition (stateIn b.log event.scope) event.state ∧
      Phase plan { b with log := b.log ++ [event] } (pc.withEmit .appended) := by
  cases pc with
  | runReady e =>
    obtain ⟨rfl, rfl⟩ : ⟨.run, ready⟩ = event ∧ e = .holding := by simpa [RunPc.emission] using he
    obtain ⟨hq, hn, hrun, hf⟩ := h
    replace hrun : stateIn b.log .run = pending := hrun
    refine ⟨?_, hq, hn.writeNoNode (by simp), by simp [stateIn_append, after], fresh_write rfl hf⟩
    simp [hrun, canTransition, transitions]
  | runStarted e =>
    obtain ⟨rfl, rfl⟩ : ⟨.run, running⟩ = event ∧ e = .holding := by simpa [RunPc.emission] using he
    obtain ⟨hq, hn, hrun, hf⟩ := h
    replace hrun : stateIn b.log .run = ready := hrun
    refine ⟨?_, hq, hn.writeNoNode (by simp), by simp [stateIn_append, after], fresh_write rfl hf⟩
    simp [hrun, canTransition, transitions]
  | stageReady w rest e =>
    obtain ⟨rfl, rfl⟩ : ⟨.stage w, ready⟩ = event ∧ e = .holding := by simpa [RunPc.emission] using he
    obtain ⟨hq, hn, ⟨done, hat⟩, hstage, hnodes⟩ := h
    replace hstage : stateIn b.log (.stage w) = pending := hstage
    refine ⟨?_, hq, hn.writeNoNode (by simp), ⟨done, hat.write hplan rfl⟩, by simp [stateIn_append, after],
      fun id hid => ?_⟩
    · simp [hstage, canTransition, transitions]
    · simpa [stateIn_append] using hnodes id hid
  | stageStarted w rest e =>
    obtain ⟨rfl, rfl⟩ : ⟨.stage w, running⟩ = event ∧ e = .holding := by simpa [RunPc.emission] using he
    obtain ⟨hq, hn, ⟨done, hat⟩, hstage, hnodes⟩ := h
    replace hstage : stateIn b.log (.stage w) = ready := hstage
    refine ⟨?_, hq, hn.writeNoNode (by simp), ⟨done, hat.write hplan rfl⟩, by simp [stateIn_append, after],
      fun id hid => ?_⟩
    · simp [hstage, canTransition, transitions]
    · simpa [stateIn_append] using hnodes id hid
  | stageEnded w state rest e =>
    obtain ⟨rfl, rfl⟩ : ⟨.stage w, state⟩ = event ∧ e = .holding := by simpa [RunPc.emission] using he
    obtain ⟨hq, hn, ⟨done, hat⟩, hstage, hend⟩ := h
    replace hstage : stateIn b.log (.stage w) = running := hstage
    refine ⟨?_, hq, hn.writeNoNode (by simp), ⟨done, hat.write hplan rfl⟩, by simp [stateIn_append, after],
      ⟨hend.nodes, hend.state, hend.manifests⟩⟩
    simpa [hstage, ← hend.state] using canTransition_terminalStageState _
  | closing queue e final =>
    cases queue with
    | nil => cases he
    | cons x queue =>
      obtain ⟨rfl, rfl⟩ : x = event ∧ e = .holding := by simpa [RunPc.emission] using he
      exact closing_append hplan h
  | runEnded state e =>
    obtain ⟨rfl, rfl⟩ : ⟨.run, state⟩ = event ∧ e = .holding := by simpa [RunPc.emission] using he
    obtain ⟨hover, hrun⟩ := h
    replace hrun : stateIn b.log .run = running := hrun
    refine ⟨?_, hover.write rfl, by simp [stateIn_append, after]⟩
    simpa [hrun] using hover.verdict.canTransition
  | finalizing queue e =>
    cases queue with
    | nil => cases he
    | cons x queue =>
      obtain ⟨rfl, rfl⟩ : x = event ∧ e = .holding := by simpa [RunPc.emission] using he
      exact settling_append h hfree
  | _ => cases he

end Append

/-! ## The run moves on -/

section Advance

variable {lib : ScalarParsers} (hplan : Accepted lib plan) {s : St}

/-- A won wave has no task that is on its way to another outcome. -/
theorem not_bad_of_won (hknown : ∀ id, s.node id ≠ .idle → ∃ w ∈ waves plan, id ∈ waveNodes plan w)
    (h : ∀ v ∈ waves plan, Won plan s.toBoard v) (id : String) : (s.node id).bad = false := by
  by_cases hid : s.node id = .idle
  · simp [hid, NodePc.bad]
  · obtain ⟨w, hw, hm⟩ := hknown id hid
    simp [((h w hw).nodes id hm).1, NodePc.bad]

theorem finish_phase_won (hq : Quiet s.toBoard) (hn : Normal plan s.toBoard)
    (hknown : ∀ id, s.node id ≠ .idle → ∃ w ∈ waves plan, id ∈ waveNodes plan w)
    (hacc : s.cancelAccepted = true → s.cancelEvent = true) (hrun : stateIn s.log .run = running)
    (h : ∀ v ∈ waves plan, Won plan s.toBoard v) : Phase plan (finish s succeeded).toBoard (finish s succeeded).run := by
  have hiff : s.cancelEvent = s.cancelAccepted := by
    rw [Bool.eq_iff_iff]
    refine ⟨fun hc => ?_, hacc⟩
    rcases hn.blame hc with ha | ⟨id, hb⟩
    · exact ha
    · rw [not_bad_of_won hknown h id] at hb
      cases hb
  have hsame : SameLog s.toBoard (finish s succeeded).toBoard := ⟨rfl, rfl, rfl⟩
  refine ⟨⟨hq, hn.mark hsame hn.blame, rfl, ?_⟩, hrun⟩
  refine .all (fun v hv => (h v hv).frame (hsame.agrees v)) ?_
  simp [finish, hiff]

theorem finish_phase_stopped (hq : Quiet s.toBoard) (hn : Normal plan s.toBoard) (hrun : stateIn s.log .run = running)
    {final skip : ExecutionState} {rest : List Nat} (hst : Stopped plan s.toBoard final skip rest)
    (h : ∀ v ∈ rest, Shut plan s.toBoard v skip) : Phase plan (finish s final).toBoard (finish s final).run := by
  have hsame : SameLog s.toBoard (finish s final).toBoard := ⟨rfl, rfl, rfl⟩
  refine ⟨⟨hq, hn.mark hsame hn.blame, rfl, ?_⟩, hrun⟩
  have hfin := hst.final_eq.2
  simp only [hfin, false_and, if_false]
  exact .stopped (hst.frame fun v _ _ => hsame.agrees v) fun v hv => (h v hv).frame (hsame.agrees v)

include hplan in
theorem close_phase (hq : Quiet s.toBoard) (hn : Normal plan s.toBoard) (hrun : stateIn s.log .run = running)
    {final skip : ExecutionState} {rest : List Nat} (hst : Stopped plan s.toBoard final skip rest)
    (h : ∀ v ∈ rest, Fresh plan s.toBoard v) :
    Phase plan (close plan s rest skip final).toBoard (close plan s rest skip final).run := by
  have hqueue := terminalizeWaves_eq plan rest skip
  unfold close
  split
  · rename_i hnil
    have hrest : ∀ v ∈ rest, False := by
      intro v hv
      rw [hqueue, List.map_eq_nil_iff, List.flatMap_eq_nil_iff] at hnil
      exact List.cons_ne_nil _ _ (hnil v hv)
    exact finish_phase_stopped hq hn hrun hst fun v hv => (hrest v hv).elim
  · have hscopes : (terminalizeWaves plan rest skip).map (·.scope) = rest.flatMap (waveScopes plan) := by
      simp [hqueue, Function.comp_def]
    have hnd : rest.Nodup := by
      have := waves_nodup plan
      cases hst with
      | cancelled hw => exact (List.nodup_append.mp (hw ▸ this)).2.1
      | ended hw => exact (List.nodup_cons.mp (List.nodup_append.mp (hw ▸ this)).2.1).2
    have hpending : ∀ v ∈ rest, ∀ σ ∈ waveScopes plan v, stateIn s.log σ = pending := by
      intro v hv σ hσ
      rcases mem_waveScopes.mp hσ with rfl | ⟨id, hid, rfl⟩
      · exact (h v hv).stage
      · exact ((h v hv).nodes id hid).2
    refine ⟨hq, hn, hrun, skip, rest, hst, fun v hv id hid => ((h v hv).nodes id hid).1, fun x hx => ?_, ?_,
      fun v hv σ hσ => .inr ?_, fun σ hσ => ?_⟩
    · replace hx : x ∈ terminalizeWaves plan rest skip := hx
      rw [hqueue] at hx
      obtain ⟨σ, hσ, rfl⟩ := List.mem_map.mp hx
      obtain ⟨v, hv, hσ⟩ := List.mem_flatMap.mp hσ
      exact ⟨rfl, hpending v hv σ hσ⟩
    · show ((terminalizeWaves plan rest skip).map (·.scope)).Nodup
      rw [hscopes]
      exact waveScopes_nodup hplan.nodup hnd
    · show σ ∈ (terminalizeWaves plan rest skip).map (·.scope)
      rw [hscopes]
      exact List.mem_flatMap.mpr ⟨v, hv, hσ⟩
    · replace hσ : σ ∈ (terminalizeWaves plan rest skip).map (·.scope) := hσ
      rw [hscopes] at hσ
      simpa using List.mem_flatMap.mp hσ

include hplan in
theorem nextWave_phase (hq : Quiet s.toBoard) (hn : Normal plan s.toBoard)
    (hknown : ∀ id, s.node id ≠ .idle → ∃ w ∈ waves plan, id ∈ waveNodes plan w)
    (hacc : s.cancelAccepted = true → s.cancelEvent = true) (hrun : stateIn s.log .run = running)
    (done ws : List Nat) (hsplit : waves plan = done ++ ws) (hwon : ∀ v ∈ done, Won plan s.toBoard v)
    (hfresh : ∀ v ∈ ws, Fresh plan s.toBoard v) :
    Phase plan (nextWave plan s ws).toBoard (nextWave plan s ws).run := by
  cases ws with
  | nil =>
    rw [List.append_nil] at hsplit
    exact finish_phase_won hq hn hknown hacc hrun (hsplit ▸ hwon)
  | cons w rest =>
    by_cases hc : s.cancelEvent = true
    · rw [show nextWave plan s (w :: rest) = close plan s (w :: rest) cancelled cancelled from if_pos hc]
      exact close_phase hplan hq hn hrun (.cancelled hsplit (by simp) hwon rfl rfl) hfresh
    · rw [show nextWave plan s (w :: rest) = { s with run := .stageReady w rest .waiting } from if_neg hc]
      exact ⟨hq, hn, ⟨done, hsplit, hwon, fun v hv => hfresh v (List.mem_cons_of_mem _ hv), hrun⟩,
        (hfresh w (by simp)).stage, (hfresh w (by simp)).nodes⟩

theorem Ended.won {b : Board} {w : Nat} (hwf : ∀ id, (b.node id).WellFormed) (h : Ended plan b w succeeded)
    (hstage : stateIn b.log (.stage w) = succeeded) : Won plan b w := by
  refine ⟨hstage, fun id hid => ?_⟩
  have hret := h.nodes id hid
  have hmem : outcomeOf (b.node id) ∈ (waveNodes plan w).map (outcomeOf ∘ b.node) := List.mem_map.mpr ⟨id, hid, rfl⟩
  cases hn : b.node id with
  | returned state =>
    have hw := hwf id
    rw [hn] at hmem hw
    -- No node of the wave timed out, failed or was cancelled, and a task never returns SKIPPED.
    obtain ⟨h1, h2, h3⟩ := terminalStageState_eq_succeeded.mp h.state
    have : state = succeeded := by
      cases state with
      | succeeded => rfl
      | timedOut => exact absurd hmem h1
      | failed => exact absurd hmem h2
      | cancelled => exact absurd hmem h3
      | _ => simp [NodePc.WellFormed, isTerminal] at hw
    subst this
    exact ⟨rfl, h.manifests id hid (by simp [hn, outcomeOf])⟩
  | _ => simp [hn, isReturned] at hret

theorem Ended.bad {b : Board} {w : Nat} {state : ExecutionState} (h : Ended plan b w state) (hne : state ≠ succeeded) :
    ∃ id, (b.node id).bad = true := by
  obtain ⟨x, hx, hxne⟩ : ∃ x ∈ (waveNodes plan w).map (outcomeOf ∘ b.node), x ≠ succeeded := by
    by_contra hall
    push Not at hall
    refine hne (h.state ▸ terminalStageState_eq_succeeded.mpr ⟨?_, ?_, ?_⟩)
    all_goals exact fun hm => absurd (hall _ hm) (by simp)
  obtain ⟨id, hid, rfl⟩ := List.mem_map.mp hx
  refine ⟨id, ?_⟩
  have hret := h.nodes id hid
  cases hn : b.node id <;> simp_all [isReturned, NodePc.bad, outcomeOf]

include hplan in
/-- `asyncio.gather` makes the tasks of the wave. -/
theorem gather_phase {b : Board} {w : Nat} {rest : List Nat} (hint : b.runInterrupted = false)
    (h : Phase plan b (.stageStarted w rest .appended)) :
    Phase plan { b with node := fun id => if id ∈ waveNodes plan w then .created else b.node id } (.gathering w rest) := by
  obtain ⟨hq, hn, ⟨done, hat⟩, hstage, hnodes⟩ := h
  refine ⟨⟨fun id hid => ?_, fun hc => ?_, hn.order⟩, ⟨done, hat.frame (fun v _ hne => ?_) rfl⟩, hstage,
    fun id hid => by simp [hid], fun hr => ?_, fun id hi => ?_⟩
  · show stateIn b.log (.node id) = (if id ∈ waveNodes plan w then NodePc.created else b.node id).logged
    by_cases hw : id ∈ waveNodes plan w
    · simp [hw, NodePc.logged, (hnodes id hw).2]
    · have hid : b.node id ≠ .idle := by simpa [hw] using hid
      simp [hw, hn.tracked id hid]
  · rcases hn.blame hc with ha | ⟨id, hb⟩
    · exact .inl ha
    · refine .inr ⟨id, ?_⟩
      by_cases hw : id ∈ waveNodes plan w
      · simp [(hnodes id hw).1, NodePc.bad] at hb
      · simp [hw, hb]
  · refine ⟨fun _ _ => rfl, fun id hid => ?_, fun _ hm => hm⟩
    have hw : id ∉ waveNodes plan w := fun hw => hne (wave_unique hplan.nodup hid hw)
    simp [hw]
  · rw [hint] at hr
    cases hr
  · rcases hi with hi | hi
    · rw [(hq id).2] at hi
      cases hi
    · by_cases hw : id ∈ waveNodes plan w
      · simp [hw, isRaised] at hi
      · rcases (hq id).1 with hidle | hret
        · simp [hw, hidle, isRaised] at hi
        · cases hnode : b.node id <;> simp_all [isReturned, isRaised]

include hplan in
theorem stageEnded_phase (hwf : ∀ id, (s.node id).WellFormed)
    (hknown : ∀ id, s.node id ≠ .idle → ∃ w ∈ waves plan, id ∈ waveNodes plan w)
    (hacc : s.cancelAccepted = true → s.cancelEvent = true) {w : Nat} {state : ExecutionState} {rest : List Nat}
    (hrun : s.run = .stageEnded w state rest .appended) (h : Phase plan s.toBoard s.run) :
    Phase plan (advance plan s).toBoard (advance plan s).run := by
  rw [hrun] at h
  obtain ⟨hq, hn, ⟨done, hat⟩, hstage, hend⟩ := h
  replace hstage : stateIn s.log (.stage w) = state := hstage
  by_cases hs : state = succeeded
  · subst hs
    have hadv : advance plan s = nextWave plan s rest := by simp [advance, hrun]
    rw [hadv]
    refine nextWave_phase hplan hq hn hknown hacc hat.run (done ++ [w]) rest (by simp [hat.split]) (fun v hv => ?_)
      hat.fresh
    rcases List.mem_append.mp hv with hv | hv
    · exact hat.won v hv
    · rw [List.mem_singleton.mp hv]
      exact hend.won hwf hstage
  · have hadv : advance plan s = close plan { s with cancelEvent := true } rest (skipState state) state := by
      simp [advance, hrun, hs]
    have hsame : SameLog s.toBoard ({ s with cancelEvent := true } : St).toBoard := ⟨rfl, rfl, rfl⟩
    rw [hadv]
    refine close_phase hplan (s := { s with cancelEvent := true }) (hq.mark hsame rfl) (hn.mark hsame fun _ => .inr (hend.bad hs)) hat.run
      (Stopped.frame (.ended hat.split hat.won hend hstage hs rfl) fun v _ _ => hsame.agrees v)
      fun v hv => (hat.fresh v hv).frame (hsame.agrees v)

theorem closing_done {b : Board} {queue : List Event} {final : ExecutionState} (hnil : queue.tail = [])
    (h : Phase plan b (.closing queue .appended final)) :
    ∃ skip rest, Stopped plan b final skip rest ∧ ∀ v ∈ rest, Shut plan b v skip := by
  obtain ⟨-, -, -, skip, rest, hst, hidle, -, -, hcover, -⟩ := h
  refine ⟨skip, rest, hst, fun v hv => ⟨hidle v hv, fun σ hσ => (hcover v hv σ hσ).resolve_right ?_⟩⟩
  simp [remaining, hnil]

include hplan in
/-- A run that succeeds has committed its output. -/
theorem Verdict.output {b : Board} (h : Verdict plan b succeeded) : plan.outputNodeId ∈ b.manifests := by
  cases h with
  | all hwon _ =>
    obtain ⟨node, hn, hid⟩ := List.mem_map.mp hplan.output
    have := (hwon node.wave (mem_waves.mpr ⟨node, hn, rfl⟩)).nodes node.id (mem_waveNodes.mpr ⟨node, hn, rfl, rfl⟩)
    exact hid ▸ this.2
  | stopped hst _ => exact absurd rfl hst.final_eq.2

include hplan in
theorem advance_phase (hwf : ∀ id, (s.node id).WellFormed)
    (hknown : ∀ id, s.node id ≠ .idle → ∃ w ∈ waves plan, id ∈ waveNodes plan w)
    (hacc : s.cancelAccepted = true → s.cancelEvent = true) (hphase : Phase plan s.toBoard s.run)
    (hint : s.runInterrupted = false) {event : Event} (hemit : s.run.emission = some (event, .appended)) :
    Phase plan (advance plan s).toBoard (advance plan s).run := by
  cases hpc : s.run with
  | runReady e =>
    rw [hpc] at hemit hphase
    obtain ⟨-, rfl⟩ : _ ∧ e = .appended := by simpa [RunPc.emission] using hemit
    simp only [advance, hpc]
    exact hphase
  | runStarted e =>
    rw [hpc] at hemit hphase
    obtain ⟨-, rfl⟩ : _ ∧ e = .appended := by simpa [RunPc.emission] using hemit
    obtain ⟨hq, hn, hrun, hfresh⟩ := hphase
    simp only [advance, hpc]
    exact nextWave_phase hplan hq hn hknown hacc hrun [] (waves plan)
      rfl (by simp) hfresh
  | stageReady w rest e =>
    rw [hpc] at hemit hphase
    obtain ⟨-, rfl⟩ : _ ∧ e = .appended := by simpa [RunPc.emission] using hemit
    simp only [advance, hpc]
    exact hphase
  | stageStarted w rest e =>
    rw [hpc] at hemit hphase
    obtain ⟨-, rfl⟩ : _ ∧ e = .appended := by simpa [RunPc.emission] using hemit
    simp only [advance, hpc]
    exact gather_phase hplan hint hphase
  | stageEnded w state rest e =>
    rw [hpc] at hemit
    obtain ⟨-, rfl⟩ : _ ∧ e = .appended := by simpa [RunPc.emission] using hemit
    exact stageEnded_phase hplan hwf hknown hacc hpc hphase
  | closing queue e final =>
    rw [hpc] at hemit hphase
    cases queue with
    | nil => cases hemit
    | cons x queue =>
      obtain ⟨-, rfl⟩ : _ ∧ e = .appended := by simpa [RunPc.emission] using hemit
      cases queue with
      | nil =>
        obtain ⟨skip, rest, hst, hshut⟩ := closing_done rfl hphase
        simp only [advance, hpc]
        exact finish_phase_stopped hphase.1 hphase.2.1 hphase.2.2.1 hst hshut
      | cons y queue =>
        simp only [advance, hpc]
        exact hphase
  | runEnded state e =>
    rw [hpc] at hemit hphase
    obtain ⟨-, rfl⟩ : _ ∧ e = .appended := by simpa [RunPc.emission] using hemit
    have hout : ¬ (state = succeeded ∧ plan.outputNodeId ∉ s.manifests) := by
      intro ⟨hs, hno⟩
      subst hs
      exact hno (hphase.1.verdict.output hplan)
    simp only [advance, hpc, if_neg hout]
    exact hphase
  | finalizing queue e =>
    rw [hpc] at hemit hphase
    cases queue with
    | nil => cases hemit
    | cons x queue =>
      obtain ⟨-, rfl⟩ : _ ∧ e = .appended := by simpa [RunPc.emission] using hemit
      cases queue with
      | nil =>
        simp only [advance, hpc]
        exact hphase
      | cons y queue =>
        simp only [advance, hpc]
        exact hphase
  | _ =>
    rw [hpc] at hemit
    cases hemit

end Advance

/-! ## The invariant -/

/-- What `advance` leaves alone. -/
structure Moved (plan : PhysicalPlan) (s s' : St) : Prop where
  log : s'.log = s.log
  lock : s'.lock = s.lock
  runInterrupted : s'.runInterrupted = s.runInterrupted
  cancelAccepted : s'.cancelAccepted = s.cancelAccepted
  cancelEvent : s.cancelEvent = true → s'.cancelEvent = true
  holds : s'.run.holds = false
  unwinding : s.run.unwinding = false → s'.run.unwinding = false
  node : ∀ id, s'.node id = s.node id ∨ (s'.node id = .created ∧ ∃ w, id ∈ waveNodes plan w)

theorem finish_moved (s : St) (state : ExecutionState) : Moved plan s (finish s state) :=
  ⟨rfl, rfl, rfl, rfl, id, rfl, fun _ => rfl, fun _ => .inl rfl⟩

theorem close_moved (plan : PhysicalPlan) (s : St) (ws : List Nat) (state final : ExecutionState) :
    Moved plan s (close plan s ws state final) := by
  unfold close
  split
  · exact finish_moved s final
  · refine ⟨rfl, rfl, rfl, rfl, id, ?_, fun _ => rfl, fun _ => .inl rfl⟩
    cases terminalizeWaves plan ws state <;> rfl

theorem nextWave_moved (s : St) (ws : List Nat) : Moved plan s (nextWave plan s ws) := by
  cases ws with
  | nil => exact finish_moved s succeeded
  | cons w rest =>
    by_cases hc : s.cancelEvent = true
    · rw [show nextWave plan s (w :: rest) = close plan s (w :: rest) cancelled cancelled from if_pos hc]
      exact close_moved plan s _ _ _
    · rw [show nextWave plan s (w :: rest) = { s with run := .stageReady w rest .waiting } from if_neg hc]
      exact ⟨rfl, rfl, rfl, rfl, id, rfl, fun _ => rfl, fun _ => .inl rfl⟩

theorem advance_moved (plan : PhysicalPlan) {s : St} {event : Event} (hemit : s.run.emission = some (event, .appended)) :
    Moved plan s (advance plan s) := by
  cases hpc : s.run with
  | runStarted e =>
    simp only [advance, hpc]
    exact nextWave_moved s _
  | stageStarted w rest e =>
    simp only [advance, hpc]
    refine ⟨rfl, rfl, rfl, rfl, id, rfl, fun _ => rfl, fun id => ?_⟩
    by_cases hid : id ∈ waveNodes plan w
    · exact .inr ⟨if_pos hid, w, hid⟩
    · exact .inl (if_neg hid)
  | stageEnded w state rest e =>
    simp only [advance, hpc]
    split
    · exact nextWave_moved s _
    · have hclose := close_moved plan { s with cancelEvent := true } rest (skipState state) state
      exact { hclose with cancelEvent := fun _ => hclose.cancelEvent rfl }
  | closing queue e final =>
    rw [hpc] at hemit
    match queue with
    | [] => cases hemit
    | [x] =>
      simp only [advance, hpc]
      exact finish_moved s final
    | x :: y :: queue =>
      simp only [advance, hpc]
      exact ⟨rfl, rfl, rfl, rfl, id, rfl, fun _ => rfl, fun _ => .inl rfl⟩
  | runEnded state e =>
    simp only [advance, hpc]
    split <;> exact ⟨rfl, rfl, rfl, rfl, id, rfl, fun _ => rfl, fun _ => .inl rfl⟩
  | finalizing queue e =>
    rw [hpc] at hemit
    match queue with
    | [] => cases hemit
    | [x] =>
      simp only [advance, hpc]
      exact ⟨rfl, rfl, rfl, rfl, id, rfl, by simp [hpc, RunPc.unwinding], fun _ => .inl rfl⟩
    | x :: y :: queue =>
      simp only [advance, hpc]
      exact ⟨rfl, rfl, rfl, rfl, id, rfl, by simp [hpc, RunPc.unwinding], fun _ => .inl rfl⟩
  | runReady e =>
    simp only [advance, hpc]
    exact ⟨rfl, rfl, rfl, rfl, id, rfl, fun _ => rfl, fun _ => .inl rfl⟩
  | stageReady w rest e =>
    simp only [advance, hpc]
    exact ⟨rfl, rfl, rfl, rfl, id, rfl, fun _ => rfl, fun _ => .inl rfl⟩
  | _ =>
    rw [hpc] at hemit
    cases hemit

/-- An interrupted run that was emitting leaves no node task that is not accounted for. -/
theorem Phase.interrupted {b : Board} {pc : RunPc} {event : Event} {e : Emit} (h : Phase plan b pc)
    (hemit : pc.emission = some (event, e)) (hdeaf : pc.isDeaf = false) : Tracked b ∧ Alerted b := by
  cases pc with
  | runReady e => exact ⟨h.2.1.tracked, h.1.alerted⟩
  | runStarted e => exact ⟨h.2.1.tracked, h.1.alerted⟩
  | stageReady w rest e => exact ⟨h.2.1.tracked, h.1.alerted⟩
  | stageStarted w rest e => exact ⟨h.2.1.tracked, h.1.alerted⟩
  | stageEnded w state rest e => exact ⟨h.2.1.tracked, h.1.alerted⟩
  | closing queue e final => exact ⟨h.2.1.tracked, h.1.alerted⟩
  | runEnded state e => exact ⟨h.1.normal.tracked, h.1.quiet.alerted⟩
  | finalizing queue e => cases hdeaf
  | _ => cases hemit

theorem holds_withEmit {pc : RunPc} {event : Event} {e e' : Emit} (hemit : pc.emission = some (event, e))
    (he' : e' ≠ .waiting) : (pc.withEmit e').holds = true := by
  cases pc with
  | closing queue e final => cases queue <;> cases e' <;> first | rfl | contradiction
  | finalizing queue e => cases queue <;> cases e' <;> first | rfl | contradiction
  | _ => cases e' <;> first | rfl | contradiction

theorem isDeaf_withEmit (pc : RunPc) (e : Emit) : (pc.withEmit e).isDeaf = pc.isDeaf := by
  cases pc <;> rfl

theorem isTerminal_of_running {state : ExecutionState} (h : canTransition running state) : state.isTerminal = true := by
  cases state <;> simp_all [canTransition, transitions, isTerminal]

section Closed

variable {b : Board}

theorem mem_scopes {σ : Scope} : σ ∈ scopes plan ↔ (∃ w ∈ waves plan, σ ∈ waveScopes plan w) ∨ σ = .run := by
  rw [scopes, List.mem_append, List.mem_flatMap, List.mem_singleton]
  rfl

theorem Won.closed {w : Nat} (h : Won plan b w) (ht : Tracked b) {σ : Scope} (hσ : σ ∈ waveScopes plan w) :
    stateIn b.log σ = succeeded := by
  rcases mem_waveScopes.mp hσ with rfl | ⟨id, hid, rfl⟩
  · exact h.stage
  · have hn := (h.nodes id hid).1
    rw [ht id (by simp [hn]), hn]
    rfl

theorem Ended.closed {w : Nat} {state : ExecutionState} (h : Ended plan b w state) (ht : Tracked b)
    (hwf : ∀ id, (b.node id).WellFormed) {id : String} (hid : id ∈ waveNodes plan w) :
    stateIn b.log (.node id) = outcomeOf (b.node id) ∧ (outcomeOf (b.node id)).isTerminal = true := by
  have hret := h.nodes id hid
  have hw := hwf id
  cases hn : b.node id with
  | returned state =>
    rw [hn] at hw
    rw [ht id (by simp [hn]), hn]
    exact ⟨rfl, hw.1⟩
  | _ => simp [hn, isReturned] at hret

/-- When a run is over every scope of the plan is in a terminal state. -/
theorem Over.terminal {state : ExecutionState} (h : Over plan b state) (hrun : stateIn b.log .run = state)
    (hwf : ∀ id, (b.node id).WellFormed) {σ : Scope} (hσ : σ ∈ scopes plan) : (stateIn b.log σ).isTerminal = true := by
  have ht := h.normal.tracked
  rcases mem_scopes.mp hσ with ⟨w, hw, hσ⟩ | rfl
  · cases h.verdict with
    | all hwon _ =>
      rw [(hwon w hw).closed ht hσ]
      rfl
    | @stopped skip rest hst hshut =>
      have hskip : ∀ v ∈ rest, ∀ σ ∈ waveScopes plan v, (stateIn b.log σ).isTerminal = true := by
        intro v hv σ hσ
        rw [(hshut v hv).scopes σ hσ]
        rcases hst.skip_eq with rfl | rfl <;> rfl
      have hfinal := isTerminal_of_running hst.final_eq.1
      cases hst with
      | cancelled hsplit _ hwon _ _ =>
        rw [hsplit] at hw
        rcases List.mem_append.mp hw with hw | hw
        · rw [(hwon w hw).closed ht hσ]
          rfl
        · exact hskip w hw σ hσ
      | ended hsplit hwon hend hstage _ _ =>
        rw [hsplit] at hw
        rcases List.mem_append.mp hw with hw | hw
        · rw [(hwon w hw).closed ht hσ]
          rfl
        · rcases List.mem_cons.mp hw with rfl | hw
          · rcases mem_waveScopes.mp hσ with rfl | ⟨id, hid, rfl⟩
            · rw [hstage]
              exact hfinal
            · rw [(hend.closed ht hwf hid).1]
              exact (hend.closed ht hwf hid).2
          · exact hskip w hw σ hσ
  · rw [hrun]
    exact isTerminal_of_running h.verdict.canTransition

end Closed

section Inv

variable {lib : ScalarParsers} (hplan : Accepted lib plan) {s : St} (h : Inv plan s)
include h

theorem Inv.exceptRun (lock : Option Actor) (hn : ∀ id, (s.node id).holds = true ↔ lock = some (.node id))
    (hr : lock ≠ some .run) (ht : Tracked s.toBoard) (ha : Alerted s.toBoard) :
    Inv plan (exceptRun { s with lock := lock }) :=
  ⟨h.legal, h.wellFormed, hn, ⟨fun hh => (by cases hh), fun hl => absurd hl hr⟩, h.known, fun _ => rfl, fun _ => rfl,
    ht, ha⟩

/-- While the run holds the emitter's lock no node does. -/
theorem Inv.free (hl : s.lock = some .run) (id : String) : (s.node id).holds = false := by
  rw [Bool.eq_false_iff, ne_eq, h.lockNode id, hl]
  simp

theorem Inv.acquire : Inv plan (runAcquire s) := by
  unfold runAcquire
  cases hemit : s.run.emission with
  | none => exact h
  | some em =>
    obtain ⟨event, e⟩ := em
    cases e with
    | holding => exact h
    | appended => exact h
    | waiting =>
      by_cases hfree : s.lock.isSome || s.runInterrupted
      · simpa only [hfree, if_true] using h
      · have hnone : s.lock = none := by
          cases hl : s.lock
          · rfl
          · simp [hl] at hfree
        have hnode : ∀ id, (s.node id).holds = false := by
          intro id
          rw [Bool.eq_false_iff, ne_eq, h.lockNode id, hnone]
          simp
        have hholds : (s.run.withEmit .holding).holds = true := holds_withEmit hemit (by simp)
        rw [if_neg hfree]
        refine ⟨h.legal, h.wellFormed, fun id => by simp [hnode id], by simp [hholds], h.known, h.accepted, ?_,
          h.phase.acquire hemit⟩
        rw [isDeaf_withEmit]
        exact h.deaf

include hplan in
theorem Inv.append : Inv plan (runAppend s) := by
  unfold runAppend
  cases hemit : s.run.emission with
  | none => exact h
  | some em =>
    obtain ⟨event, e⟩ := em
    cases e with
    | waiting => exact h
    | appended => exact h
    | holding =>
      have hl : s.lock = some .run := h.lockRun.mp (by simp [RunPc.holds, hemit])
      obtain ⟨htrans, hphase⟩ := h.phase.append hplan hemit (h.free hl)
      have hholds : (s.run.withEmit .appended).holds = true := holds_withEmit hemit (by simp)
      refine ⟨legalLog_append h.legal htrans, h.wellFormed, h.lockNode, by simp [hholds, hl], h.known, h.accepted, ?_,
        hphase⟩
      rw [isDeaf_withEmit]
      exact h.deaf

include hplan in
theorem Inv.advance (hint : s.runInterrupted = false) {event : Event}
    (hemit : s.run.emission = some (event, .appended)) : Inv plan (advance plan { s with lock := none }) := by
  have hl : s.lock = some .run := h.lockRun.mp (by simp [RunPc.holds, hemit])
  have hmoved := advance_moved plan (s := { s with lock := none }) hemit
  have hphase := advance_phase hplan (s := { s with lock := none }) h.wellFormed h.known h.accepted h.phase hint hemit
  refine ⟨hmoved.log ▸ h.legal, fun id => ?_, fun id => ?_, ?_, fun id hid => ?_, fun ha => ?_, fun _ => ?_, hphase⟩
  · rcases hmoved.node id with hn | ⟨hn, -⟩
    · rw [hn]
      exact h.wellFormed id
    · rw [hn]
      trivial
  · rw [hmoved.lock]
    rcases hmoved.node id with hn | ⟨hn, -⟩
    · rw [hn]
      simp [h.free hl id]
    · simp [hn, NodePc.holds]
  · simp [hmoved.lock, hmoved.holds]
  · rcases hmoved.node id with hn | ⟨-, w, hw⟩
    · rw [hn] at hid
      exact h.known id hid
    · obtain ⟨node, hnode, hwave, -⟩ := mem_waveNodes.mp hw
      exact ⟨w, mem_waves.mpr ⟨node, hnode, hwave⟩, hw⟩
  · rw [hmoved.cancelAccepted] at ha
    exact hmoved.cancelEvent (h.accepted ha)
  · rw [hmoved.runInterrupted]
    exact hint

include hplan in
theorem Inv.resume : Inv plan (runResume plan s) := by
  unfold runResume
  cases hemit : s.run.emission with
  | none => exact h
  | some em =>
    obtain ⟨event, e⟩ := em
    cases e with
    | waiting => exact h
    | holding => exact h
    | appended =>
      have hl : s.lock = some .run := h.lockRun.mp (by simp [RunPc.holds, hemit])
      have hfree : ∀ id, (s.node id).holds = true ↔ (none : Option Actor) = some (.node id) := by
        intro id
        simp [h.free hl id]
      by_cases hint : s.runInterrupted = true
      · have hdeaf : s.run.isDeaf = false := by
          rw [Bool.eq_false_iff]
          intro hd
          rw [h.deaf hd] at hint
          cases hint
        obtain ⟨ht, ha⟩ := h.phase.interrupted hemit hdeaf
        rw [if_pos hint]
        exact h.exceptRun none hfree (by simp) ht ha
      · have hint : s.runInterrupted = false := by simpa using hint
        rw [if_neg (by simp [hint])]
        exact h.advance hplan hint hemit

theorem Inv.gathered : Inv plan (runGathered plan s) := by
  unfold runGathered
  split
  · rename_i w rest hpc
    have hphase := h.phase
    rw [hpc] at hphase
    obtain ⟨hn, ⟨done, hat⟩, hstage, hnodes, halert, hint⟩ := hphase
    have hholds : s.run.holds = false := by simp [hpc, RunPc.holds, RunPc.emission]
    have hlock : s.lock ≠ some .run := fun hl => by simp [h.lockRun.mpr hl] at hholds
    unfold Coordinator.gathered
    by_cases hend : ((waveNodes plan w).any (isRaised ∘ s.node) ||
        (s.runInterrupted && (waveNodes plan w).all (isReturned ∘ s.node))) = true
    · have hr : s.runInterrupted = true := by
        rcases Bool.or_eq_true_iff.mp hend with hraised | hall
        · obtain ⟨id, -, hid⟩ := List.any_eq_true.mp hraised
          exact hint id (.inr hid)
        · exact (Bool.and_eq_true_iff.mp hall).1
      simp only [hend, if_true]
      exact h.exceptRun s.lock h.lockNode hlock hn.tracked (halert hr)
    · rw [if_neg hend]
      by_cases hall : (waveNodes plan w).all (isReturned ∘ s.node) = true
      · have hr : s.runInterrupted = false := by
          by_contra hr
          simp [hall, Bool.not_eq_false _ |>.mp hr] at hend
        rw [if_pos hall]
        have hret : ∀ id ∈ waveNodes plan w, isReturned (s.node id) = true := fun id hid =>
          List.all_eq_true.mp hall id hid
        refine ⟨h.legal, h.wellFormed, h.lockNode, ⟨fun hh => (by cases hh), fun hl => absurd hl hlock⟩, h.known,
          h.accepted, fun hd => (by cases hd), fun id => ⟨?_, ?_⟩, ⟨hn.tracked, hn.blame, hn.order⟩,
          ⟨done, hat.frame (fun v _ _ => ⟨fun _ _ => rfl, fun _ _ => rfl, fun _ => List.mem_append_left _⟩) rfl⟩,
          hstage, hret, rfl, fun id hid ho => ?_⟩
        · -- A task of another wave is done or was never made.
          by_cases hidle : s.node id = .idle
          · exact .inl hidle
          · refine .inr ?_
            by_contra hno
            have hno : isReturned (s.node id) = false := by simpa using hno
            rw [hret id (hat.mem_of_active (h.known id hidle) hidle hno)] at hno
            cases hno
        · show s.interrupted id = false
          by_contra hi
          rw [hint id (.inl (by simpa using hi))] at hr
          cases hr
        · exact List.mem_append_right _ (List.mem_filter.mpr ⟨hid, by simpa using ho⟩)
      · rw [if_neg hall]
        exact h
  · exact h

include hplan in
/-- The finalizer reads the log. -/
theorem snapshot_phase (hpc : s.run = .snapshot) (hcalm : ∀ id, (s.node id).calm = true) :
    Settling plan s.toBoard (finalizeEvents plan s.log) := by
  have hphase := h.phase
  rw [hpc] at hphase
  obtain ⟨ht, ha⟩ := hphase
  have hscopes : (finalizeEvents plan s.log).map (·.scope) = (scopes plan).filter (!hasTerminal s.log ·) := by
    simp [finalizeEvents, Function.comp_def]
  have hopen : ∀ σ, hasTerminal s.log σ = false ↔ (stateIn s.log σ).isTerminal = false := by
    intro σ
    rw [Bool.eq_iff_iff.mpr (hasTerminal_iff h.legal σ)]
  refine ⟨fun e he => ?_, ?_, fun σ hσ => ?_, hcalm, ha, fun id hid => ?_⟩
  · obtain ⟨σ, hσ, rfl⟩ := List.mem_map.mp he
    exact ⟨rfl, (hopen σ).mp (by simpa using (List.mem_filter.mp hσ).2)⟩
  · rw [hscopes]
    exact (scopes_nodup hplan.nodup).filter _
  · rw [hscopes]
    by_cases hterm : (stateIn s.log σ).isTerminal = true
    · exact .inl hterm
    · refine .inr (List.mem_filter.mpr ⟨hσ, ?_⟩)
      rw [(hopen σ).mpr (by simpa using hterm)]
      rfl
  · rw [ht id (by simp [hid]), hid]
    rfl

include hplan in
theorem Inv.list (hcalm : s.run = .snapshot → ∀ id, (s.node id).calm = true) : Inv plan (runList plan s) := by
  unfold runList
  split
  · rename_i state hpc
    have hphase := h.phase
    rw [hpc] at hphase
    have hlock : s.lock ≠ some .run := fun hl => by
      have := h.lockRun.mpr hl
      simp [hpc, RunPc.holds, RunPc.emission] at this
    by_cases hint : s.runInterrupted = true
    · rwa [if_pos hint]
    · rw [if_neg hint]
      refine ⟨h.legal, h.wellFormed, h.lockNode, ⟨fun hh => (by cases hh), fun hl => absurd hl hlock⟩, h.known,
        h.accepted, fun _ => by simpa using hint, hphase.1, hphase.2, ?_⟩
      rw [decide_eq_true_eq]
      exact ⟨fun ho => ho.1, fun hs => ⟨hs, (hs ▸ hphase.1.verdict).output hplan⟩⟩
  · rename_i hpc
    have hset := snapshot_phase hplan h hpc (hcalm hpc)
    have hlock : s.lock ≠ some .run := fun hl => by
      have := h.lockRun.mpr hl
      simp [hpc, RunPc.holds, RunPc.emission] at this
    have hint : s.runInterrupted = false := h.deaf (by rw [hpc]; rfl)
    split
    · rename_i hnil
      rw [hnil] at hset
      exact ⟨h.legal, h.wellFormed, h.lockNode, ⟨fun hh => (by cases hh), fun hl => absurd hl hlock⟩, h.known,
        h.accepted, fun _ => hint, hset⟩
    · refine ⟨h.legal, h.wellFormed, h.lockNode, ⟨fun hh => ?_, fun hl => absurd hl hlock⟩, h.known,
        h.accepted, fun _ => hint, hset⟩
      cases hq : finalizeEvents plan s.log <;> rw [hq] at hh <;> cases hh
  · exact h

theorem Inv.deliver : Inv plan (runDeliver s) := by
  unfold runDeliver
  split
  · rename_i hint
    have hdeaf : s.run.isDeaf = false := by
      rw [Bool.eq_false_iff]
      intro hd
      rw [h.deaf hd] at hint
      cases hint
    split
    · rename_i event hemit
      obtain ⟨ht, ha⟩ := h.phase.interrupted hemit hdeaf
      refine h.exceptRun s.lock h.lockNode (fun hl => ?_) ht ha
      have := h.lockRun.mpr hl
      simp [RunPc.holds, hemit] at this
    · rename_i state hemit hpc
      have hphase := h.phase
      rw [hpc] at hphase
      obtain ⟨hover, hrun⟩ := hphase
      refine ⟨h.legal, h.wellFormed, h.lockNode, ⟨fun hh => (by cases hh), fun hl => ?_⟩, h.known, h.accepted,
        fun _ => rfl, fun e he => (by cases he), List.nodup_nil, fun σ hσ => .inl (hover.terminal hrun h.wellFormed hσ),
        hover.quiet.calm, hover.quiet.alerted, fun id hid => ?_⟩
      · have := h.lockRun.mpr hl
        simp [hpc, RunPc.holds, RunPc.emission] at this
      · have hid : s.node id = .ready .holding := hid
        rcases (hover.quiet id).1 with hq | hq <;> simp [hid, isReturned] at hq
    · exact h
  · exact h

end Inv

end DataNexus.Runtime.Coordinator
