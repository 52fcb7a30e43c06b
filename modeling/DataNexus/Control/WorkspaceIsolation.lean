/-
  DataNexus.Control.WorkspaceIsolation — a workspace does not see the others.

  `Cluster.within` is what belongs to one scope: its runs, their feedback and dispatch rows, its
  sessions and its commits. A step of another scope leaves it alone (`within_other`), and a step
  of the scope itself does to it what it does to the whole (`within_own`): every statement reads
  rows of its scope only, or rows of a run it has found there, and it waits only for sessions of
  its scope. So a scope's part of a history is the history of that scope alone.

  A run id is drawn for one create only; of the answers of the identity tables a history holds
  what they were.
-/

import DataNexus.Control.RepositoryTransactions

namespace DataNexus.Control

open Lib RunTransitions PostgresRunRepository

/-! ## One scope's part -/

namespace Tables

variable (t : Tables) (scope : Scope)

/-- The run is one of the scope. -/
def owns (id : String) : Bool := t.runs.any fun row => row.runId = id ∧ row.scope = scope

def within : Tables where
  runs := t.runs.filter (·.scope = scope)
  feedback := t.feedback.filter fun row => t.owns scope row.runId
  dispatch := t.dispatch.filter (t.owns scope)

variable {t scope}

theorem owns_eq_true {id : String} : t.owns scope id = true ↔ ∃ row ∈ t.runs, row.runId = id ∧ row.scope = scope := by
  simp [owns]

theorem within_selectRun (id : String) : (t.within scope).selectRun scope id = t.selectRun scope id := by
  simp only [selectRun, within, List.find?_filter]
  congr 1
  funext row
  by_cases h : row.scope = scope <;> simp [h]

theorem within_selectKey (subject request : String) :
    (t.within scope).selectKey scope subject request = t.selectKey scope subject request := by
  simp only [selectKey, within, List.find?_filter]
  congr 1
  funext row
  by_cases h : row.scope = scope <;> simp [h]

theorem within_inScope : (t.within scope).inScope scope = t.inScope scope := by
  simp [inScope, within]

/-- Of a run of the scope, all feedback rows are there. -/
theorem within_feedback {id : String} (h : t.owns scope id = true) :
    (t.within scope).feedback.filter (·.runId = id) = t.feedback.filter (·.runId = id) := by
  simp only [within, List.filter_filter]
  refine List.filter_congr fun row _ => ?_
  by_cases he : row.runId = id
  · simp [he, h]
  · simp [he]

theorem within_feedbackOf {id : String} (h : t.owns scope id = true) :
    (t.within scope).feedbackOf id = t.feedbackOf id := by
  rw [feedbackOf, within_feedback h, ← feedbackOf]

theorem within_submission {id : String} (h : t.owns scope id = true) (submission : String) :
    ((t.within scope).feedback.find? fun row => row.runId = id ∧ row.submissionId = submission) =
      t.feedback.find? fun row => row.runId = id ∧ row.submissionId = submission := by
  simp only [within, List.find?_filter]
  congr 1
  funext row
  by_cases he : row.runId = id
  · simp [he, h]
  · simp [he]

theorem within_dispatch {id : String} (h : t.owns scope id = true) :
    (t.within scope).dispatch.contains id = t.dispatch.contains id := by
  rw [Bool.eq_iff_iff]
  simp only [within, List.contains_iff_mem, List.mem_filter]
  exact ⟨fun hm => hm.1, fun hm => ⟨hm, h⟩⟩

theorem scope_of_owns (hids : (t.runs.map (·.runId)).Nodup) {row : RunRow} (hrow : row ∈ t.runs)
    (h : t.owns scope row.runId = true) : row.scope = scope := by
  obtain ⟨other, hother, hid, hscope⟩ := owns_eq_true.mp h
  obtain rfl : other = row := List.inj_on_of_nodup_map hids hother hrow hid
  exact hscope

/-- A test on the one row of a run of the scope. -/
theorem within_any (hids : (t.runs.map (·.runId)).Nodup) {id : String} (h : t.owns scope id = true) (version : Int) :
    ((t.within scope).runs.any fun row => row.runId = id ∧ row.version = version) =
      t.runs.any fun row => row.runId = id ∧ row.version = version := by
  rw [Bool.eq_iff_iff]
  simp only [within, List.any_eq_true, List.mem_filter, decide_eq_true_eq]
  constructor
  · intro hex
    obtain ⟨row, ⟨hrow, -⟩, hmatch⟩ := hex
    exact ⟨row, hrow, hmatch⟩
  · intro hex
    obtain ⟨row, hrow, hid, hversion⟩ := hex
    exact ⟨row, ⟨hrow, scope_of_owns hids hrow (hid ▸ h)⟩, hid, hversion⟩

end Tables

/-! ## What a statement reads -/

theorem foldlM_congr {α β ε : Type} {f g : β → α → Except ε β} {l : List α} (h : ∀ a ∈ l, ∀ b, f b a = g b a) (b : β) :
    l.foldlM f b = l.foldlM g b := by
  induction l generalizing b with
  | nil => rfl
  | cons a l ih =>
    rw [List.foldlM_cons, List.foldlM_cons, h a List.mem_cons_self]
    cases g b a with
    | error e => rfl
    | ok b' => exact ih (fun a' ha' => h a' (List.mem_cons_of_mem _ ha')) b'

theorem within_statistics (t : Tables) (scope : Scope) : statistics (t.within scope) scope = statistics t scope := by
  simp only [statistics, Tables.within_inScope]
  congr 1
  refine foldlM_congr (fun row hrow acc => ?_) _
  obtain ⟨hmem, hscope⟩ := List.mem_filter.mp hrow
  rw [Tables.within_feedbackOf (Tables.owns_eq_true.mpr ⟨row, hmem, rfl, by simpa using hscope⟩)]

variable {limits : Limits} {t : Tables}

theorem within_first (access : Option TrustedAccess) (call : RepositoryCall)
    (hfresh : ∀ id, call.draws = some id → id ∉ t.runs.map (·.runId)) :
    first limits (t.within (scopeOf access)) access call = first limits t access call := by
  cases call with
  | create request subject id now =>
    have hnone : ∀ l : List RunRow, (∀ row ∈ l, row ∈ t.runs) → (l.any fun row => row.runId = id) = false := by
      intro l hl
      rw [List.any_eq_false]
      intro row hrow he
      exact hfresh id rfl (List.mem_map.mpr ⟨row, hl row hrow, by simpa using he⟩)
    simp only [first, Tables.within_selectKey]
    rw [hnone t.runs (fun row hrow => hrow), hnone (t.within (scopeOf access)).runs
      (fun row hrow => (List.mem_filter.mp hrow).1)]
  | list limit => simp only [first, Tables.within_inScope]
  | getStatistics => simp only [first, within_statistics]
  | _ => simp only [first, Tables.within_selectRun]

theorem within_action {access : Option TrustedAccess} {current : RunMetadata} (call : RepositoryCall)
    (h : t.owns (scopeOf access) (lockId call) = true) :
    action limits (t.within (scopeOf access)) access current call = action limits t access current call := by
  cases call with
  | finalizeCancellationWithoutBackend id version generation now =>
    have hid : t.owns (scopeOf access) id = true := h
    simp only [action, Tables.within_dispatch hid]
  | claimStart id now =>
    have hid : t.owns (scopeOf access) id = true := h
    simp only [action, Tables.within_dispatch hid]
  | submitFeedback id request subject now =>
    have hid : t.owns (scopeOf access) id = true := h
    simp only [action, Tables.within_submission hid]
  | _ => rfl

theorem owns_of_read {s : Session} {id : String} {current : RunMetadata} (h : s.Read t id current) :
    t.owns (scopeOf s.access) id = true := by
  obtain ⟨row, hrow, hid, hscope, -⟩ := h
  exact Tables.owns_eq_true.mpr ⟨row, hrow, hid, hscope⟩

variable (limits) in
/-- A statement reads its scope's part of the tables only. -/
theorem within_advance (hids : (t.runs.map (·.runId)).Nodup) (s : Session) (authorized : Bool) (h : s.Holds t)
    (hfresh : s.phase = .authorized → ∀ id, s.call.draws = some id → id ∉ t.runs.map (·.runId))
    (hchecked : s.phase = .checked → t.owns (scopeOf s.access) (lockId s.call) = true) :
    advance limits (t.within (scopeOf s.access)) s.access s.call authorized s.phase =
      advance limits t s.access s.call authorized s.phase := by
  obtain ⟨number, access, call, phase⟩ := s
  cases phase with
  | opened => rfl
  | authorized => exact within_first access call (hfresh rfl)
  | conflicted => simp only [advance, Tables.within_selectKey]
  | checked =>
    cases call with
    | getFeedback id =>
      have hid : t.owns (scopeOf access) id = true := hchecked rfl
      simp only [advance, Tables.within_feedback hid]
    | _ => rfl
  | locked current => simp only [advance, within_action call (owns_of_read h)]
  | acted current w =>
    have howns : t.owns (scopeOf access) (lockId call) = true := owns_of_read h.1
    simp only [advance, update, Tables.within_any hids howns]
  | ready effect value => rfl
  | ended outcome => rfl

/-! ## What a commit writes -/

namespace Tables

theorem owns_congr {t' : Tables} {scope : Scope} {id : String}
    (h : t'.runs.map (fun row => (row.runId, row.scope)) = t.runs.map fun row => (row.runId, row.scope)) :
    t'.owns scope id = t.owns scope id := by
  have hpairs : ∀ u : Tables, u.owns scope id =
      (u.runs.map fun row => (row.runId, row.scope)).any fun x => x.1 = id ∧ x.2 = scope := by
    intro u
    rw [owns, List.any_map]
    rfl
  rw [hpairs, hpairs, h]

theorem write_pairs (id : String) (current : RunMetadata) (w : Write) :
    ((Effect.write id current w).apply t).runs.map (fun row => (row.runId, row.scope)) =
      t.runs.map fun row => (row.runId, row.scope) := by
  simp only [Effect.apply]
  split
  · rfl
  · rw [List.map_map]
    refine List.map_congr_left fun row _ => ?_
    simp only [Function.comp_apply]
    split <;> rfl

/-- The other tables refer to runs only. -/
structure Referential (t : Tables) : Prop where
  feedback : ∀ row ∈ t.feedback, row.runId ∈ t.runs.map (·.runId)
  dispatch : ∀ id ∈ t.dispatch, id ∈ t.runs.map (·.runId)

theorem insert_owns {row : RunRow} {scope : Scope} {id : String} (hne : id ≠ row.runId) :
    ((Effect.insert row).apply t).owns scope id = t.owns scope id := by
  have hno : ¬ row.runId = id := fun e => hne e.symm
  simp [owns, Effect.apply, hno]

theorem within_insert (hr : t.Referential) {row : RunRow} (hnew : row.runId ∉ t.runs.map (·.runId)) (scope : Scope) :
    ((Effect.insert row).apply t).within scope =
      if row.scope = scope then (Effect.insert row).apply (t.within scope) else t.within scope := by
  have hfeedback : ((Effect.insert row).apply t).feedback.filter
      (fun f => ((Effect.insert row).apply t).owns scope f.runId) = (t.within scope).feedback := by
    refine List.filter_congr fun f hf => insert_owns ?_
    intro he
    exact hnew (he ▸ hr.feedback f hf)
  have hdispatch : ((Effect.insert row).apply t).dispatch.filter (((Effect.insert row).apply t).owns scope) =
      (t.within scope).dispatch := by
    refine List.filter_congr fun id hid => insert_owns ?_
    intro he
    exact hnew (he ▸ hr.dispatch id hid)
  have hruns : ((Effect.insert row).apply t).runs.filter (·.scope = scope) =
      (t.within scope).runs ++ if row.scope = scope then [row] else [] := by
    simp only [Effect.apply, List.filter_append, within]
    congr 1
    by_cases h : row.scope = scope <;> simp [h]
  rw [within, hfeedback, hdispatch, hruns]
  split
  · rfl
  · rw [List.append_nil]

/-- A write to a run of the scope. -/
theorem within_write_own {id : String} {scope : Scope} (hid : t.owns scope id = true) (current : RunMetadata) (w : Write) :
    ((Effect.write id current w).apply t).within scope = (Effect.write id current w).apply (t.within scope) := by
  have howns : ∀ id', ((Effect.write id current w).apply t).owns scope id' = t.owns scope id' :=
    fun id' => owns_congr (write_pairs id current w)
  have hruns : ((Effect.write id current w).apply t).runs.filter (·.scope = scope) =
      ((Effect.write id current w).apply (t.within scope)).runs := by
    simp only [Effect.apply, within]
    split
    · rfl
    · rw [List.filter_map]
      congr 1
      refine List.filter_congr fun row _ => ?_
      simp only [Function.comp_apply]
      split <;> rfl
  have hfeedback : ((Effect.write id current w).apply t).feedback.filter
      (fun f => ((Effect.write id current w).apply t).owns scope f.runId) =
        ((Effect.write id current w).apply (t.within scope)).feedback := by
    have he : (fun f : FeedbackRow => ((Effect.write id current w).apply t).owns scope f.runId) =
        fun f => t.owns scope f.runId := funext fun f => howns f.runId
    rw [he]
    simp only [Effect.apply, List.filter_append, within]
    congr 1
    cases w.feedback with
    | none => rfl
    | some item => simp [hid]
  have hdispatch : ((Effect.write id current w).apply t).dispatch.filter (((Effect.write id current w).apply t).owns scope) =
      ((Effect.write id current w).apply (t.within scope)).dispatch := by
    have he : ((Effect.write id current w).apply t).owns scope = t.owns scope := funext howns
    rw [he]
    simp only [Effect.apply, List.filter_append, within]
    congr 1
    split
    · simp [hid]
    · rfl
  rw [within, hfeedback, hdispatch, hruns]

/-- A write to a run of another scope. -/
theorem within_write_other {id : String} {scope : Scope} (hid : t.owns scope id = false) (current : RunMetadata)
    (w : Write) : ((Effect.write id current w).apply t).within scope = t.within scope := by
  have howns : ∀ id', ((Effect.write id current w).apply t).owns scope id' = t.owns scope id' :=
    fun id' => owns_congr (write_pairs id current w)
  have hrow : ∀ row ∈ t.runs, row.scope = scope → row.runId ≠ id := by
    intro row hrow hscope he
    rw [owns_eq_true.mpr ⟨row, hrow, he, hscope⟩] at hid
    cases hid
  have hruns : ((Effect.write id current w).apply t).runs.filter (·.scope = scope) = (t.within scope).runs := by
    simp only [Effect.apply, within]
    split
    · rfl
    · rw [List.filter_map]
      have hpred : t.runs.filter ((fun row : RunRow => decide (row.scope = scope)) ∘ fun row : RunRow =>
          if row.runId = id ∧ row.version = current.version then { row with version := w.run.version, metadata := w.run }
          else row) = t.runs.filter (·.scope = scope) := by
        refine List.filter_congr fun row _ => ?_
        simp only [Function.comp_apply]
        split <;> rfl
      rw [hpred]
      refine (List.map_congr_left fun row hmem => ?_).trans (List.map_id _)
      obtain ⟨hmem, hscope⟩ := List.mem_filter.mp hmem
      exact if_neg fun h => hrow row hmem (by simpa using hscope) h.1
  have hfeedback : ((Effect.write id current w).apply t).feedback.filter
      (fun f => ((Effect.write id current w).apply t).owns scope f.runId) = (t.within scope).feedback := by
    have he : (fun f : FeedbackRow => ((Effect.write id current w).apply t).owns scope f.runId) =
        fun f => t.owns scope f.runId := funext fun f => howns f.runId
    rw [he]
    simp only [Effect.apply, List.filter_append, within]
    cases w.feedback with
    | none => simp
    | some item => simp [hid]
  have hdispatch : ((Effect.write id current w).apply t).dispatch.filter (((Effect.write id current w).apply t).owns scope) =
      (t.within scope).dispatch := by
    have he : ((Effect.write id current w).apply t).owns scope = t.owns scope := funext howns
    rw [he]
    simp only [Effect.apply, List.filter_append, within]
    split
    · simp [hid]
    · simp
  rw [within, hfeedback, hdispatch, hruns]

theorem owns_apply {scope : Scope} {id : String} (h : t.owns scope id = true) (effect : Effect) :
    (effect.apply t).owns scope id = true := by
  cases effect with
  | none => exact h
  | held id' => exact h
  | insert row =>
    obtain ⟨old, hold, hrest⟩ := owns_eq_true.mp h
    exact owns_eq_true.mpr ⟨old, List.mem_append_left _ hold, hrest⟩
  | write id' current w => exact (owns_congr (write_pairs id' current w)).trans h

end Tables

/-! ## Where run ids come from -/

def TransactionEvent.draws : TransactionEvent → Option String
  | .start _ _ call => call.draws
  | _ => none

def TransactionEvent.scope : TransactionEvent → Scope
  | .start _ access _ => scopeOf access
  | .statement key _ | .commit key _ _ | .fail key => key.1

/-- Every run id has been drawn by one call, and the row of a run is there once its call is over. -/
structure Traced (c : Cluster) (ids : List String) : Prop where
  drawn : ∀ s ∈ c.sessions, ∀ id, s.call.draws = some id → id ∈ ids
  once : ∀ s ∈ c.sessions, ∀ s' ∈ c.sessions, ∀ id, s.call.draws = some id → s'.call.draws = some id → s.key = s'.key
  rows : ∀ row ∈ c.tables.runs, ∃ s ∈ c.sessions, s.call.draws = some row.runId ∧ s.finished = true
  refs : c.tables.Referential
  checked : ∀ s ∈ c.sessions, s.phase = .checked → c.tables.owns (scopeOf s.access) (lockId s.call) = true

theorem advance_checked {s : Session} {authorized : Bool}
    (h : advance limits t s.access s.call authorized s.phase = .checked) :
    s.phase = .checked ∨ t.owns (scopeOf s.access) (lockId s.call) = true := by
  obtain ⟨number, access, call, phase⟩ := s
  cases phase with
  | checked => exact .inl rfl
  | authorized =>
    refine .inr ?_
    simp only [advance] at h
    cases call with
    | getFeedback id =>
      simp only [first] at h
      split at h
      · rename_i hrow
        obtain ⟨row, hrow⟩ := Option.isSome_iff_exists.mp hrow
        obtain ⟨hmem, hid, hscope⟩ := selectRun_mem hrow
        exact Tables.owns_eq_true.mpr ⟨row, hmem, hid, hscope⟩
      · cases h
    | create request subject id now =>
      simp only [first] at h
      split at h
      · cases h
      · split at h
        · cases h
        · split at h <;> cases h
    | get id =>
      simp only [first, answer] at h
      split at h <;> cases h
    | list limit =>
      simp only [first, answer] at h
      split at h <;> cases h
    | getStatistics =>
      simp only [first, answer] at h
      split at h <;> cases h
    | _ =>
      simp only [first] at h
      split at h
      · cases h
      · split at h <;> cases h
  | opened =>
    simp only [advance] at h
    split at h <;> cases h
  | conflicted =>
    simp only [advance] at h
    split at h
    · split at h
      · cases h
      · split at h <;> cases h
    · cases h
  | locked current =>
    simp only [advance] at h
    split at h
    · cases h
    · split at h <;> cases h
  | acted current w =>
    simp only [advance, update] at h
    split at h
    · cases h
    · split at h
      · cases h
      · split at h
        · cases h
        · split at h <;> cases h
  | ready effect value => cases h
  | ended outcome => cases h

namespace Cluster

variable {c : Cluster} {ids : List String} {key : CallKey} {s : Session}

/-- A session goes on; the tables may have changed by its commit. -/
theorem traced_move (hs : Sound c) (h : Traced c ids) (hfind : c.find key = some s) {phase : CallPhase} {c' : Cluster}
    (hsessions : c'.sessions = move c.sessions key phase)
    (hfinished : s.finished = true → Session.finished { s with phase := phase } = true)
    (hrows : ∀ row ∈ c'.tables.runs, row.runId ∈ c.tables.runs.map (·.runId) ∨
      (s.call.draws = some row.runId ∧ Session.finished { s with phase := phase } = true))
    (hrefs : c'.tables.Referential)
    (howns : ∀ scope id, c.tables.owns scope id = true → c'.tables.owns scope id = true)
    (hchecked : phase = .checked → c'.tables.owns (scopeOf s.access) (lockId s.call) = true) : Traced c' ids := by
  obtain ⟨hmem, hkey⟩ := find_mem hfind
  have hold : ∀ s' ∈ c'.sessions, ∃ old ∈ c.sessions, old.call = s'.call ∧ old.key = s'.key := by
    intro s' hs'
    rw [hsessions] at hs'
    rcases mem_move hs.keys hfind hs' with rfl | ⟨hs', -⟩
    · exact ⟨s, hmem, rfl, rfl⟩
    · exact ⟨s', hs', rfl, rfl⟩
  refine ⟨?_, ?_, ?_, hrefs, ?_⟩
  · intro s' hs' id hid
    obtain ⟨old, hold, hcall, -⟩ := hold s' hs'
    exact h.drawn old hold id (hcall ▸ hid)
  · intro a ha b hb id hia hib
    obtain ⟨olda, holda, hca, hka⟩ := hold a ha
    obtain ⟨oldb, holdb, hcb, hkb⟩ := hold b hb
    rw [← hka, ← hkb]
    exact h.once olda holda oldb holdb id (hca ▸ hia) (hcb ▸ hib)
  · intro row hrow
    rcases hrows row hrow with hrow | ⟨hdraws, hover⟩
    · obtain ⟨old, holdrow, he⟩ := List.mem_map.mp hrow
      obtain ⟨s', hs', hdraws, hover⟩ := h.rows old holdrow
      rw [he] at hdraws
      by_cases hk : s'.key = key
      · obtain rfl : s' = s := List.inj_on_of_nodup_map hs.keys hs' hmem (hk.trans hkey.symm)
        exact ⟨{ s' with phase := phase }, by rw [hsessions]; exact moved_mem hfind phase, hdraws, hfinished hover⟩
      · exact ⟨s', by rw [hsessions]; exact mem_move_of_ne hs' hk phase, hdraws, hover⟩
    · exact ⟨{ s with phase := phase }, by rw [hsessions]; exact moved_mem hfind phase, hdraws, hover⟩
  · intro s' hs' hphase
    rw [hsessions] at hs'
    rcases mem_move hs.keys hfind hs' with rfl | ⟨hs', -⟩
    · exact hchecked hphase
    · exact howns _ _ (h.checked s' hs' hphase)

theorem mem_runIds {row : RunRow} (h : row ∈ t.runs) : row.runId ∈ t.runs.map (·.runId) := List.mem_map.mpr ⟨row, h, rfl⟩

theorem traced_commit (hs : Sound c) (h : Traced c ids) (hfind : c.find key = some s) {effect : Effect}
    {value : RepositoryValue} (hphase : s.phase = .ready effect value) (answered : Bool) :
    Traced (c.commit s effect value answered) ids := by
  obtain ⟨hmem, rfl⟩ := find_mem hfind
  have hholds := hs.holds s hmem
  refine traced_move hs h hfind rfl (fun _ => rfl) ?_ ?_ (fun scope id howns => Tables.owns_apply howns effect)
    (fun he => by cases he)
  · intro row hrow
    cases effect with
    | none => exact .inl (mem_runIds hrow)
    | held id => exact .inl (mem_runIds hrow)
    | insert new =>
      simp only [Session.Holds, hphase] at hholds
      obtain ⟨⟨request, subject, id, now, hcall, hnew, -⟩, -⟩ := hholds
      rcases List.mem_append.mp hrow with hrow | hrow
      · exact .inl (mem_runIds hrow)
      · obtain rfl : row = new := by simpa using hrow
        refine .inr ⟨?_, rfl⟩
        rw [hcall, hnew]
        rfl
    | write id current w =>
      refine .inl ?_
      rw [← Effect.runIds_write id current w]
      exact mem_runIds hrow
  · cases effect with
    | none => exact h.refs
    | held id => exact h.refs
    | insert new =>
      refine ⟨fun row hrow => ?_, fun id hid => ?_⟩
      · show row.runId ∈ (c.tables.runs ++ [new]).map (·.runId)
        rw [List.map_append]
        exact List.mem_append_left _ (h.refs.feedback row hrow)
      · show id ∈ (c.tables.runs ++ [new]).map (·.runId)
        rw [List.map_append]
        exact List.mem_append_left _ (h.refs.dispatch id hid)
    | write id current w =>
      simp only [Session.Holds, hphase] at hholds
      obtain ⟨rfl, -, ⟨found, hfound, hfid, -⟩, -⟩ := hholds
      have hid : lockId s.call ∈ c.tables.runs.map (·.runId) := hfid ▸ mem_runIds hfound
      refine ⟨fun row hrow => ?_, fun id' hid' => ?_⟩
      · show row.runId ∈ ((Effect.write _ _ _).apply c.tables).runs.map (·.runId)
        rw [Effect.runIds_write]
        rcases List.mem_append.mp hrow with hrow | hrow
        · exact h.refs.feedback row hrow
        · cases hw : w.feedback with
          | none => simp [hw] at hrow
          | some item =>
            obtain rfl : row = ⟨lockId s.call, item.submissionId, item⟩ := by simpa [hw] using hrow
            exact hid
      · show id' ∈ ((Effect.write _ _ _).apply c.tables).runs.map (·.runId)
        rw [Effect.runIds_write]
        rcases List.mem_append.mp hid' with hid' | hid'
        · exact h.refs.dispatch id' hid'
        · split at hid'
          · obtain rfl : id' = lockId s.call := by simpa using hid'
            exact hid
          · cases hid'

/-- A session that goes on without a commit. -/
theorem traced_phase (hs : Sound c) (h : Traced c ids) (hfind : c.find key = some s) {phase : CallPhase}
    (hfinished : s.finished = true → Session.finished { s with phase := phase } = true)
    (hchecked : phase = .checked → c.tables.owns (scopeOf s.access) (lockId s.call) = true) :
    Traced { c with sessions := move c.sessions key phase } ids :=
  traced_move hs h hfind rfl hfinished (fun _ hrow => .inl (mem_runIds hrow)) h.refs (fun _ _ howns => howns) hchecked

theorem traced_start (h : Traced c ids) {number : Nat} {access : Option TrustedAccess} {call : RepositoryCall}
    (hfresh : ∀ id, call.draws = some id → id ∉ ids) :
    Traced { c with sessions := c.sessions ++ [⟨number, access, call, begin access call⟩] } (ids ++ call.draws.toList) := by
  have hcases : ∀ s ∈ c.sessions ++ [⟨number, access, call, begin access call⟩],
      s ∈ c.sessions ∨ s = ⟨number, access, call, begin access call⟩ := by
    intro s hs
    simpa using hs
  have hbegin : begin access call ≠ .checked := by
    unfold begin
    split
    · split <;> simp
    · split <;> simp
    · simp
  refine ⟨?_, ?_, ?_, h.refs, ?_⟩
  · intro s hs id hid
    rcases hcases s hs with hs | rfl
    · exact List.mem_append_left _ (h.drawn s hs id hid)
    · refine List.mem_append_right _ ?_
      simpa using hid
  · intro a ha b hb id hia hib
    rcases hcases a ha with ha | rfl <;> rcases hcases b hb with hb | rfl
    · exact h.once a ha b hb id hia hib
    · exact absurd (h.drawn a ha id hia) (hfresh id hib)
    · exact absurd (h.drawn b hb id hib) (hfresh id hia)
    · rfl
  · intro row hrow
    obtain ⟨s, hs, hrest⟩ := h.rows row hrow
    exact ⟨s, List.mem_append_left _ hs, hrest⟩
  · intro s hs hphase
    rcases hcases s hs with hs | rfl
    · exact h.checked s hs hphase
    · exact absurd hphase hbegin

theorem traced_step (hs : Sound c) (h : Traced c ids) {event : TransactionEvent}
    (hfresh : ∀ id, event.draws = some id → id ∉ ids) : Traced (step limits c event) (ids ++ event.draws.toList) := by
  cases event with
  | start number access call =>
    simp only [step]
    split
    · exact ⟨fun s hs id hid => List.mem_append_left _ (h.drawn s hs id hid), h.once, h.rows, h.refs, h.checked⟩
    · exact traced_start h hfresh
  | statement key authorized =>
    show Traced _ (ids ++ [])
    rw [List.append_nil]
    simp only [step]
    cases hfind : c.find key with
    | none => exact h
    | some s =>
      dsimp only
      split
      · exact h
      · refine traced_phase hs h hfind (finished_advance c.tables authorized) fun hphase => ?_
        rcases advance_checked hphase with hphase | howns
        · exact h.checked s (find_mem hfind).1 hphase
        · exact howns
  | commit key unexpired answered =>
    show Traced _ (ids ++ [])
    rw [List.append_nil]
    simp only [step]
    cases hfind : c.find key with
    | none => exact h
    | some s =>
      dsimp only
      split
      · rename_i effect value hphase
        split
        · exact traced_phase hs h hfind (fun _ => rfl) fun he => by cases he
        · exact traced_commit hs h hfind hphase answered
      · exact h
  | fail key =>
    show Traced _ (ids ++ [])
    rw [List.append_nil]
    simp only [step]
    cases hfind : c.find key with
    | none => exact h
    | some s =>
      dsimp only
      split
      · exact h
      · exact traced_phase hs h hfind (fun _ => rfl) fun he => by cases he

theorem traced_run {events : List TransactionEvent} (h : (events.filterMap TransactionEvent.draws).Nodup) :
    Traced (run limits events) (events.filterMap TransactionEvent.draws) := by
  induction events using List.reverseRecOn with
  | nil =>
    refine ⟨?_, ?_, ?_, ⟨?_, ?_⟩, ?_⟩
    · intro s hs
      cases hs
    · intro s hs
      cases hs
    · intro row hrow
      cases hrow
    · intro row hrow
      cases hrow
    · intro id hid
      cases hid
    · intro s hs
      cases hs
  | append_singleton events event ih =>
    rw [List.filterMap_append, List.nodup_append] at h
    obtain ⟨hpast, -, hnew⟩ := h
    have hlast : [event].filterMap TransactionEvent.draws = event.draws.toList := by
      cases he : event.draws <;> simp [he]
    rw [run_concat, List.filterMap_append, hlast]
    refine traced_step (sound_run events) (ih hpast) ?_
    intro id hid hmem
    exact hnew id hmem id (by rw [hlast, hid]; exact List.mem_singleton_self id) rfl

/-! ## One scope's steps -/

/-- What belongs to the scope. -/
def within (c : Cluster) (scope : Scope) : Cluster where
  tables := c.tables.within scope
  sessions := c.sessions.filter fun s => scopeOf s.access = scope
  log := c.log.filter fun entry => entry.author.1 = scope

theorem within_find (c : Cluster) (key : CallKey) : (c.within key.1).find key = c.find key := by
  simp only [find, within, List.find?_filter]
  congr 1
  funext s
  by_cases h : s.key = key
  · have hscope : scopeOf s.access = key.1 := congrArg Prod.fst h
    simp [h, hscope]
  · simp [h]

theorem within_move (sessions : List Session) (key : CallKey) (phase : CallPhase) (scope : Scope) :
    (move sessions key phase).filter (fun s => scopeOf s.access = scope) =
      move (sessions.filter fun s => scopeOf s.access = scope) key phase := by
  rw [move, List.filter_map, ← move]
  congr 1
  refine List.filter_congr fun s _ => ?_
  simp only [Function.comp_apply]
  split <;> rfl

theorem within_move_other (sessions : List Session) {key : CallKey} (phase : CallPhase) {scope : Scope} (h : key.1 ≠ scope) :
    (move sessions key phase).filter (fun s => scopeOf s.access = scope) =
      sessions.filter fun s => scopeOf s.access = scope := by
  rw [within_move, move]
  refine (List.map_congr_left fun s hs => ?_).trans (List.map_id _)
  refine if_neg fun hkey => h ?_
  have hscope : scopeOf s.access = scope := by simpa using (List.mem_filter.mp hs).2
  rw [← hkey, ← hscope]
  rfl

theorem record_author {log : List Commit} {author : CallKey} {access : Option TrustedAccess} {call : RepositoryCall}
    {id : String} {before after : Option RunMetadata} {feedback : Option RunFeedback} (scope : Scope) :
    (record log author access call id before after feedback).filter (fun entry => entry.author.1 = scope) =
      if author.1 = scope then
        record (log.filter fun entry => entry.author.1 = scope) author access call id before after feedback
      else log.filter fun entry => entry.author.1 = scope := by
  unfold record
  cases after with
  | none => simp
  | some run =>
    dsimp only
    by_cases hrun : before = some run
    · simp [hrun]
    · by_cases hscope : author.1 = scope <;> simp [hrun, hscope]

/-- A row of the scope is one that a session of the scope holds. -/
theorem scope_of_lock (hs : Sound c) {other : Session} (hother : other ∈ c.sessions) {id : String}
    (hlock : other.lock = some id) {row : RunRow} (hrow : row ∈ c.tables.runs) (hid : row.runId = id) :
    scopeOf other.access = row.scope := by
  have hread : ∃ current, other.Read c.tables id current := by
    have hholds := hs.holds other hother
    unfold Session.lock at hlock
    unfold Session.Holds at hholds
    cases hphase : other.phase with
    | locked current =>
      simp only [hphase, Option.some.injEq] at hlock hholds
      exact ⟨current, hlock ▸ hholds⟩
    | acted current w =>
      simp only [hphase, Option.some.injEq] at hlock hholds
      exact ⟨current, hlock ▸ hholds.1⟩
    | ready effect value =>
      cases effect with
      | held id' =>
        simp only [hphase, Option.some.injEq] at hlock hholds
        exact hlock ▸ hholds
      | write id' current w =>
        simp only [hphase, Option.some.injEq] at hlock hholds
        obtain ⟨he, -, hread, -⟩ := hholds
        exact ⟨current, (he.symm.trans hlock) ▸ hread⟩
      | none => simp [hphase] at hlock
      | insert row => simp [hphase] at hlock
    | _ => simp [hphase] at hlock
  obtain ⟨current, found, hfound, hfid, hscope, -⟩ := hread
  obtain rfl : found = row := List.inj_on_of_nodup_map hs.rowIds hfound hrow (hfid.trans hid.symm)
  exact hscope.symm

theorem within_wanted (t : Tables) (s : Session) : s.wanted (t.within (scopeOf s.access)) = s.wanted t := by
  unfold Session.wanted
  simp only [Tables.within_selectRun, Tables.within_selectKey]

/-- The row that a session's next statement locks is of its scope. -/
theorem wanted_scope {t : Tables} {s : Session} {id : String} (h : s.wanted t = some id) :
    ∃ row ∈ t.runs, row.runId = id ∧ row.scope = scopeOf s.access := by
  unfold Session.wanted at h
  split at h
  · obtain ⟨row, hrow, rfl⟩ := Option.map_eq_some_iff.mp h
    obtain ⟨hmem, -, -, hscope⟩ := selectKey_mem hrow
    exact ⟨row, hmem, rfl, hscope⟩
  · obtain ⟨x, -, hx⟩ := Option.bind_eq_some_iff.mp h
    obtain ⟨row, hrow, rfl⟩ := Option.map_eq_some_iff.mp hx
    obtain ⟨hmem, -, hscope⟩ := selectRun_mem hrow
    exact ⟨row, hmem, rfl, hscope⟩
  · cases h

theorem inserting_draws {s : Session} {row : RunRow} (h : s.inserting = some row) :
    s.call.draws = some row.runId ∧ row.scope = scopeOf s.access := by
  unfold Session.inserting at h
  split at h
  · rename_i hcall
    obtain rfl := Option.some.inj h
    exact ⟨by rw [hcall]; rfl, rfl⟩
  · cases h

theorem inserted_draws (hs : Sound c) (hmem : s ∈ c.sessions) {row : RunRow} (h : s.inserted = some row) :
    s.call.draws = some row.runId ∧ row.scope = scopeOf s.access := by
  have hholds := hs.holds s hmem
  unfold Session.inserted at h
  split at h
  · rename_i value hphase
    obtain rfl := Option.some.inj h
    simp only [Session.Holds, hphase] at hholds
    obtain ⟨⟨request, subject, id, now, hcall, hrow, -⟩, -⟩ := hholds
    rw [hcall, hrow]
    exact ⟨rfl, rfl⟩
  · cases h

/-- A session waits only for sessions of its own scope. -/
theorem within_waits (hs : Sound c) (h : Traced c ids) (hmem : s ∈ c.sessions) :
    waits (c.tables.within (scopeOf s.access)) (c.sessions.filter fun other => scopeOf other.access = scopeOf s.access) s =
      waits c.tables c.sessions s := by
  have hfilter : ∀ p : Session → Bool, (∀ other ∈ c.sessions, p other = true → scopeOf other.access = scopeOf s.access) →
      (c.sessions.filter fun other => scopeOf other.access = scopeOf s.access).any p = c.sessions.any p := by
    intro p hp
    rw [Bool.eq_iff_iff, List.any_filter, List.any_eq_true, List.any_eq_true]
    constructor
    · intro hex
      obtain ⟨other, hother, hboth⟩ := hex
      exact ⟨other, hother, (Bool.and_eq_true_iff.mp hboth).2⟩
    · intro hex
      obtain ⟨other, hother, hpo⟩ := hex
      exact ⟨other, hother, by simp [hp other hother hpo, hpo]⟩
  unfold waits
  rw [within_wanted]
  congr 1
  · cases hwanted : s.wanted c.tables with
    | none => rfl
    | some id =>
      obtain ⟨row, hrow, hid, hscope⟩ := wanted_scope hwanted
      simp only [Option.any_some]
      refine hfilter _ fun other hother hlock => ?_
      rw [scope_of_lock hs hother (by simpa using hlock) hrow hid, hscope]
  · cases hinserting : s.inserting with
    | none => rfl
    | some row =>
      obtain ⟨hdraws, hscope⟩ := inserting_draws hinserting
      simp only [Option.any_some]
      refine hfilter _ fun other hother hins => ?_
      have hex : ∃ row', other.inserted = some row' ∧ sameKey row row' = true := by
        cases ho : other.inserted with
        | none => simp [ho] at hins
        | some row' => exact ⟨row', rfl, by simpa [ho] using hins⟩
      obtain ⟨row', hrow', hsame⟩ := hex
      obtain ⟨hdraws', hscope'⟩ := inserted_draws hs hother hrow'
      simp only [sameKey, decide_eq_true_eq] at hsame
      rcases hsame with hid | ⟨he, -⟩
      · have hkey := h.once other hother s hmem row.runId (by rw [hdraws', hid]) hdraws
        exact congrArg Prod.fst hkey
      · rw [← hscope', ← he, hscope]

theorem within_log (c : Cluster) (s : Session) {effect : Effect} (value : RepositoryValue) (answered : Bool)
    (hstored : ∀ id, effect.runId = some id →
      (c.tables.within (scopeOf s.access)).stored id = c.tables.stored id ∧
      (effect.apply (c.tables.within (scopeOf s.access))).stored id = (effect.apply c.tables).stored id) :
    (c.commit s effect value answered).log.filter (fun entry => entry.author.1 = scopeOf s.access) =
      ((c.within (scopeOf s.access)).commit s effect value answered).log := by
  simp only [commit, within]
  cases hid : effect.runId with
  | none => rfl
  | some id =>
    obtain ⟨hbefore, hafter⟩ := hstored id hid
    dsimp only
    rw [record_author, if_pos (show s.key.1 = scopeOf s.access from rfl), hbefore, hafter]

theorem stored_within {t : Tables} (hids : (t.runs.map (·.runId)).Nodup) {scope : Scope} {id : String}
    (h : t.owns scope id = true) : (t.within scope).stored id = t.stored id := by
  obtain ⟨row, hrow, rfl, hscope⟩ := Tables.owns_eq_true.mp h
  have hsub : ((t.within scope).runs.map (·.runId)).Nodup := hids.sublist (List.filter_sublist.map _)
  rw [Tables.stored_of_mem hids hrow,
    Tables.stored_of_mem hsub (List.mem_filter.mpr ⟨hrow, by simpa using hscope⟩)]

/-- A commit of the scope, and what it does to the scope's part. -/
theorem within_commit_own (hs : Sound c) (h : Traced c ids) (hfind : c.find key = some s) {effect : Effect}
    {value : RepositoryValue} (hphase : s.phase = .ready effect value) (answered : Bool) :
    (c.commit s effect value answered).within (scopeOf s.access) =
      (c.within (scopeOf s.access)).commit s effect value answered := by
  obtain ⟨hmem, rfl⟩ := find_mem hfind
  have hholds := hs.holds s hmem
  have hsound := sound_commit hs hfind hphase answered
  have htables : (effect.apply c.tables).within (scopeOf s.access) = effect.apply (c.tables.within (scopeOf s.access)) ∧
      ∀ id, effect.runId = some id → (c.tables.within (scopeOf s.access)).stored id = c.tables.stored id ∧
        (effect.apply c.tables).owns (scopeOf s.access) id = true := by
    cases effect with
    | none => exact ⟨rfl, fun id hid => nomatch hid⟩
    | held id => exact ⟨rfl, fun id hid => nomatch hid⟩
    | insert row =>
      simp only [Session.Holds, hphase] at hholds
      obtain ⟨⟨request, subject, id, now, hcall, hrow, -⟩, hfresh⟩ := hholds
      have hscope : row.scope = scopeOf s.access := by
        rw [hrow]
        rfl
      refine ⟨by rw [Tables.within_insert h.refs hfresh, if_pos hscope], fun id' hid' => ?_⟩
      obtain rfl : row.runId = id' := Option.some.inj hid'
      refine ⟨?_, Tables.owns_eq_true.mpr ⟨row, by simp [Effect.apply], rfl, hscope⟩⟩
      rw [Tables.stored_eq_none.mpr hfresh, Tables.stored_eq_none]
      intro hin
      obtain ⟨old, hold, he⟩ := List.mem_map.mp hin
      exact hfresh (he ▸ mem_runIds (List.mem_filter.mp hold).1)
    | write id current w =>
      simp only [Session.Holds, hphase] at hholds
      obtain ⟨rfl, -, hread, -⟩ := hholds
      have howns := owns_of_read hread
      refine ⟨Tables.within_write_own howns current w, fun id' hid' => ?_⟩
      obtain rfl : lockId s.call = id' := Option.some.inj hid'
      exact ⟨stored_within hs.rowIds howns, Tables.owns_apply howns _⟩
  have hlog := within_log c s value answered fun id hid =>
    ⟨(htables.2 id hid).1, by rw [← htables.1]; exact stored_within hsound.rowIds (htables.2 id hid).2⟩
  have hsessions := within_move c.sessions s.key (.ended (if answered then .ok value else .error .infrastructure))
    (scopeOf s.access)
  rw [within, hlog]
  simp only [commit, within, htables.1, hsessions]

/-- A commit of another scope. -/
theorem within_commit_other (hs : Sound c) (h : Traced c ids) (hfind : c.find key = some s) {effect : Effect}
    {value : RepositoryValue} (hphase : s.phase = .ready effect value) (answered : Bool) {scope : Scope}
    (hother : scopeOf s.access ≠ scope) : (c.commit s effect value answered).within scope = c.within scope := by
  obtain ⟨hmem, rfl⟩ := find_mem hfind
  have hholds := hs.holds s hmem
  have htables : (effect.apply c.tables).within scope = c.tables.within scope := by
    cases effect with
    | none => rfl
    | held id => rfl
    | insert row =>
      simp only [Session.Holds, hphase] at hholds
      obtain ⟨⟨request, subject, id, now, hcall, hrow, -⟩, hfresh⟩ := hholds
      have hscope : row.scope ≠ scope := by
        rw [hrow]
        exact hother
      rw [Tables.within_insert h.refs hfresh, if_neg hscope]
    | write id current w =>
      simp only [Session.Holds, hphase] at hholds
      obtain ⟨rfl, -, ⟨found, hfound, hfid, hscope, -⟩, -⟩ := hholds
      refine Tables.within_write_other ?_ current w
      rw [Bool.eq_false_iff]
      intro howns
      rw [← hfid] at howns
      exact hother (hscope.symm.trans (Tables.scope_of_owns hs.rowIds hfound howns))
  have hlog : (c.commit s effect value answered).log.filter (fun entry => entry.author.1 = scope) =
      c.log.filter fun entry => entry.author.1 = scope := by
    simp only [commit]
    cases effect.runId with
    | none => rfl
    | some id =>
      dsimp only
      rw [record_author, if_neg (show s.key.1 ≠ scope from hother)]
  rw [within, hlog]
  simp only [commit, within, htables, within_move_other c.sessions _ (show s.key.1 ≠ scope from hother)]

theorem within_phase_own (c : Cluster) (key : CallKey) (phase : CallPhase) :
    within { c with sessions := move c.sessions key phase } key.1 =
      { c.within key.1 with sessions := move (c.within key.1).sessions key phase } := by
  simp only [within, within_move]

theorem within_phase_other (c : Cluster) {key : CallKey} (phase : CallPhase) {scope : Scope} (h : key.1 ≠ scope) :
    within { c with sessions := move c.sessions key phase } scope = c.within scope := by
  simp only [within, within_move_other c.sessions phase h]

/-- A step of another scope. -/
theorem within_other (hs : Sound c) (h : Traced c ids) {event : TransactionEvent} {scope : Scope}
    (hother : event.scope ≠ scope) : (step limits c event).within scope = c.within scope := by
  cases event with
  | start number access call =>
    have hne : ¬ scopeOf access = scope := hother
    simp only [step]
    split
    · rfl
    · simp [within, hne]
  | statement key authorized =>
    simp only [step]
    cases hfind : c.find key with
    | none => rfl
    | some s =>
      dsimp only
      split
      · rfl
      · exact within_phase_other c _ hother
  | commit key unexpired answered =>
    simp only [step]
    cases hfind : c.find key with
    | none => rfl
    | some s =>
      dsimp only
      split
      · rename_i effect value hphase
        split
        · exact within_phase_other c _ hother
        · refine within_commit_other hs h hfind hphase answered ?_
          have hkey := (find_mem hfind).2
          exact fun he => hother ((congrArg Prod.fst hkey).symm.trans he)
      · rfl
  | fail key =>
    simp only [step]
    cases hfind : c.find key with
    | none => rfl
    | some s =>
      dsimp only
      split
      · rfl
      · exact within_phase_other c _ hother

/-- The id a session is about to insert is not there yet. -/
theorem fresh_of_authorized (hs : Sound c) (h : Traced c ids) (hmem : s ∈ c.sessions) (hphase : s.phase = .authorized)
    {id : String} (hdraws : s.call.draws = some id) : id ∉ c.tables.runs.map (·.runId) := by
  intro hin
  obtain ⟨row, hrow, rfl⟩ := List.mem_map.mp hin
  obtain ⟨s', hs', hdraws', hover⟩ := h.rows row hrow
  obtain rfl : s' = s := List.inj_on_of_nodup_map hs.keys hs' hmem (h.once s' hs' s hmem _ hdraws' hdraws)
  simp [Session.finished, hphase] at hover

/-- A step of the scope does to its part what it does to the whole. -/
theorem within_own (hs : Sound c) (h : Traced c ids) (event : TransactionEvent) :
    (step limits c event).within event.scope = step limits (c.within event.scope) event := by
  cases event with
  | start number access call =>
    have hany : (c.within (scopeOf access)).sessions.any (fun s => s.key = (scopeOf access, number)) =
        c.sessions.any fun s => s.key = (scopeOf access, number) := by
      rw [within, List.any_filter]
      congr 1
      funext s
      by_cases hk : s.key = (scopeOf access, number)
      · have hscope : scopeOf s.access = scopeOf access := congrArg Prod.fst hk
        simp [hk, hscope]
      · simp [hk]
    simp only [step, TransactionEvent.scope, hany]
    split
    · rfl
    · simp [within]
  | statement key authorized =>
    simp only [step, TransactionEvent.scope, within_find]
    cases hfind : c.find key with
    | none => rfl
    | some s =>
      obtain ⟨hmem, rfl⟩ := find_mem hfind
      have hwaits := within_waits hs h hmem
      have hadvance := within_advance limits hs.rowIds s authorized (hs.holds s hmem)
        (fun hphase id hdraws => fresh_of_authorized hs h hmem hphase hdraws) (h.checked s hmem)
      dsimp only
      show (if waits c.tables c.sessions s = true then c else _).within (scopeOf s.access) =
        if waits (c.tables.within (scopeOf s.access))
          (c.sessions.filter fun other => scopeOf other.access = scopeOf s.access) s = true then _ else _
      rw [hwaits]
      split
      · rfl
      · rw [← hadvance]
        exact within_phase_own c s.key _
  | commit key unexpired answered =>
    simp only [step, TransactionEvent.scope, within_find]
    cases hfind : c.find key with
    | none => rfl
    | some s =>
      obtain ⟨hmem, rfl⟩ := find_mem hfind
      dsimp only
      split
      · rename_i effect value hphase
        split
        · exact within_phase_own c s.key _
        · exact within_commit_own hs h hfind hphase answered
      · rfl
  | fail key =>
    simp only [step, TransactionEvent.scope, within_find]
    cases hfind : c.find key with
    | none => rfl
    | some s =>
      dsimp only
      split
      · rfl
      · exact within_phase_own c key _

/-! ## Histories -/

/-- A scope's part of a history is the history of that scope alone. -/
theorem within_run (scope : Scope) {events : List TransactionEvent}
    (h : (events.filterMap TransactionEvent.draws).Nodup) :
    (run limits events).within scope = run limits (events.filter fun event => event.scope = scope) := by
  induction events using List.reverseRecOn with
  | nil => rfl
  | append_singleton events event ih =>
    rw [List.filterMap_append, List.nodup_append] at h
    have hpast := h.1
    have hsound : Sound (run limits events) := sound_run events
    have htraced : Traced (run limits events) (events.filterMap TransactionEvent.draws) := traced_run hpast
    rw [List.filter_append, run_concat]
    by_cases hscope : event.scope = scope
    · subst hscope
      have hone : [event].filter (fun e => e.scope = event.scope) = [event] := by simp
      rw [hone, run_concat, ← ih hpast]
      exact within_own hsound htraced event
    · have hnone : [event].filter (fun e => e.scope = scope) = [] := by simp [hscope]
      rw [hnone, List.append_nil, ← ih hpast]
      exact within_other hsound htraced hscope

end Cluster

/-- Two histories with the same events under a scope, each drawing a run id for one create only:
    the calls under the scope are where they are, and have returned or thrown what they have,
    alike in both. -/
theorem workspace_isolation (limits : Limits) (scope : Scope) (events events' : List TransactionEvent)
    (h : (events.filterMap TransactionEvent.draws).Nodup) (h' : (events'.filterMap TransactionEvent.draws).Nodup)
    (same : (events.filter fun event => event.scope = scope) = events'.filter fun event => event.scope = scope) :
    ((Cluster.run limits events).sessions.filter fun s => scopeOf s.access = scope) =
      (Cluster.run limits events').sessions.filter fun s => scopeOf s.access = scope := by
  have hleft : (Cluster.run limits events).within scope = _ := Cluster.within_run scope h
  have hright : (Cluster.run limits events').within scope = _ := Cluster.within_run scope h'
  rw [← same, ← hleft] at hright
  exact (congrArg Cluster.sessions hright).symm

/-- One call with its statements and its commit, nobody in its way. -/
def wholeCall (number : Nat) (access : TrustedAccess) (call : RepositoryCall) : List TransactionEvent :=
  let key : CallKey := (scopeOf (some access), number)
  [.start number (some access) call, .statement key true, .statement key true, .statement key true, .statement key true,
    .commit key true true]

def northAccess : TrustedAccess := ⟨"acme", "north", "analyst"⟩

def southAccess : TrustedAccess := ⟨"acme", "south", "analyst"⟩

def northCalls : List TransactionEvent :=
  wholeCall 0 northAccess (.create quarterlyRequest "analyst" "run_0000000000000000000000000000000a" 10) ++
    wholeCall 1 northAccess (.requestCancellation "run_0000000000000000000000000000000a" (some 1) 20)

/-- The same request ID in the next workspace first, then an attempt on the run from there. -/
def crowdedCalls : List TransactionEvent :=
  wholeCall 0 southAccess (.create quarterlyRequest "analyst" "run_0000000000000000000000000000000b" 5) ++ northCalls.take 6 ++
    wholeCall 1 southAccess (.markFailed "run_0000000000000000000000000000000a" "code" "message" 15) ++ northCalls.drop 6

theorem north_isolated :
    ((Cluster.run ⟨fun _ => true, fun _ => true⟩ crowdedCalls).sessions.filter fun s =>
      scopeOf s.access = some ("acme", "north")) =
        ((Cluster.run ⟨fun _ => true, fun _ => true⟩ northCalls).sessions.filter fun s =>
          scopeOf s.access = some ("acme", "north")) ∧
    ((Cluster.run ⟨fun _ => true, fun _ => true⟩ crowdedCalls).tables.stored "run_0000000000000000000000000000000a").map (·.state) =
      some .cancelled :=
  ⟨workspace_isolation _ _ crowdedCalls northCalls (by decide) (by decide) (by decide), by decide +kernel⟩

end DataNexus.Control
