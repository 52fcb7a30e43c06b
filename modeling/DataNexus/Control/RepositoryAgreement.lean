/-
  DataNexus.Control.RepositoryAgreement — the in-memory repository against the Postgres one,
  call by call.

  `Agrees` relates the tables to the dictionaries: the same runs in the same order, the same
  request keys, the same submissions of each run. The calls of the two, with no identity context
  and the ids the creates draw, keep it and answer alike (`call_agrees`), as long as what is
  encoded decodes (`Decodes`) and fits the checks of the tables (`Fits`). The dictionaries check
  nothing, so a record that does not fit sets them apart.
-/

import DataNexus.Control.RunCommits

namespace DataNexus.Control

open Lib RunTransitions PostgresRunRepository SemanticRunStatusValidator

/-! ## What a call encodes -/

/-- The nine operations that both repositories have in common and the claim of a start has not. -/
def RepositoryCall.plain : RepositoryCall → Bool
  | .create .. | .get _ | .applySemanticStatus .. | .markFailed .. | .markStartDispatchUnknown .. | .requestCancellation ..
  | .markCancellationDelivered .. | .finalizeCancellationWithoutBackend .. | .submitFeedback .. => true
  | .list _ | .claimStart .. | .getFeedback _ | .getStatistics => false

/-- What a call encodes: the run it would create, the result of its transition, its feedback. -/
def encodes (m : InMemory) (call : RepositoryCall) : List RunMetadata × List RunFeedback :=
  match call with
  | .create request subject id now => ([create id request subject now], [])
  | .submitFeedback id request subject now =>
    match m.stored id with
    | none => ([], [])
    | some current =>
      if ((m.submissions id).lookup request.submissionId).isSome then ([], [])
      else
        match feedback current request subject now with
        | .ok (run, item) => ([run], [item])
        | .error _ => ([], [])
  | call =>
    match call.transition none with
    | none => ([], [])
    | some (id, transition) =>
      match m.stored id with
      | none => ([], [])
      | some current =>
        match transition.apply current with
        | .ok run => ([run], [])
        | .error _ => ([], [])

def Decodes (m : InMemory) (call : RepositoryCall) : Prop :=
  (∀ run ∈ (encodes m call).1, StoredRunCodec.run run = .ok run) ∧
    ∀ item ∈ (encodes m call).2, StoredRunCodec.feedback item = .ok item

def Fits (limits : Limits) (m : InMemory) (call : RepositoryCall) : Prop :=
  (∀ run ∈ (encodes m call).1, limits.run run = true) ∧ ∀ item ∈ (encodes m call).2, limits.feedback item = true

/-- It holds at every call of the sequence, in the state the call finds. -/
def Along (P : InMemory → RepositoryCall → Prop) : InMemory → List RepositoryCall → Prop
  | _, [] => True
  | m, call :: calls => P m call ∧ Along P (InMemoryRunRepository.call m call).1 calls

/-! ## Sequences of calls -/

def postgresCalls (limits : Limits) : Tables → List RepositoryCall → Tables × List Outcome
  | t, [] => (t, [])
  | t, call :: calls =>
    let (t', outcome) := solo limits none t call
    let (t'', outcomes) := postgresCalls limits t' calls
    (t'', outcome :: outcomes)

def memoryCalls : InMemory → List RepositoryCall → InMemory × List Outcome
  | m, [] => (m, [])
  | m, call :: calls =>
    let (m', outcome) := InMemoryRunRepository.call m call
    let (m'', outcomes) := memoryCalls m' calls
    (m'', outcome :: outcomes)

/-! ## The relation -/

structure Agrees (t : Tables) (m : InMemory) : Prop where
  runs : t.runs.map (fun row => (row.runId, row.metadata)) = m.runs
  keys : t.runs.map (fun row => ((row.subject, row.clientRequestId), row.runId)) = m.createKeys
  rowIds : (t.runs.map (·.runId)).Nodup
  rows : ∀ row ∈ t.runs, row.scope = none ∧ row.metadata.id = row.runId ∧ row.metadata.version = row.version ∧
    StoredRunCodec.run row.metadata = .ok row.metadata
  dispatch : t.dispatch = []
  submissions : ∀ id, t.submissions id = m.submissions id
  decodes : ∀ row ∈ t.feedback, StoredRunCodec.feedback row.feedback = .ok row.feedback

theorem lookup_map {α κ β : Type} [BEq κ] [LawfulBEq κ] [DecidableEq κ] (l : List α) (f : α → κ) (g : α → β) (k : κ) :
    (l.map fun a => (f a, g a)).lookup k = (l.find? fun a => f a = k).map g := by
  induction l with
  | nil => rfl
  | cons a l ih =>
    rw [List.map_cons, List.lookup_cons, List.find?_cons]
    by_cases h : f a = k
    · simp [h]
    · have hb : (k == f a) = false := by simpa using fun e : k = f a => h e.symm
      simp [h, hb, ih]

section

variable {t : Tables} {m : InMemory} {limits : Limits}

theorem Agrees.stored (h : Agrees t m) (id : String) : m.stored id = t.stored id := by
  rw [InMemory.stored, ← h.runs, lookup_map t.runs (·.runId) (·.metadata), Tables.stored]

theorem Agrees.selectRun (h : Agrees t m) (id : String) :
    t.selectRun none id = t.runs.find? (·.runId = id) := by
  refine List.find?_congr fun row hrow => ?_
  simp [(h.rows row hrow).1]

theorem Agrees.selectKey (h : Agrees t m) (subject request : String) :
    m.createKeys.lookup (subject, request) = (t.selectKey none subject request).map (·.runId) := by
  rw [← h.keys, lookup_map t.runs (fun row => (row.subject, row.clientRequestId)) (·.runId)]
  congr 1
  refine List.find?_congr fun row hrow => ?_
  simp [(h.rows row hrow).1]

/-- The row of a run, read back. -/
theorem Agrees.found (h : Agrees t m) {id : String} {current : RunMetadata} (hc : m.stored id = some current) :
    ∃ row ∈ t.runs, row.runId = id ∧ row.metadata = current ∧ row.version = current.version ∧
      t.selectRun none id = some row ∧ readRun row.metadata id = .ok current := by
  rw [h.stored, Tables.stored] at hc
  obtain ⟨row, hrow, rfl⟩ := Option.map_eq_some_iff.mp hc
  have hmem := List.mem_of_find?_eq_some hrow
  have hid : row.runId = id := by simpa using List.find?_some hrow
  obtain ⟨-, hmid, hversion, hdecodes⟩ := h.rows row hmem
  refine ⟨row, hmem, hid, rfl, hversion.symm, by rw [h.selectRun, hrow], ?_⟩
  simp [readRun, hdecodes, hmid, hid, refuseIf, bind, Except.bind, pure, Except.pure]

theorem Agrees.missing (h : Agrees t m) {id : String} (hc : m.stored id = none) : t.selectRun none id = none := by
  rw [h.stored, Tables.stored, Option.map_eq_none_iff] at hc
  rw [h.selectRun, hc]

/-! ## One call alone -/

theorem begin_transition {call : RepositoryCall} {id : String} {tr : Transition} (h : call.transition none = some (id, tr)) :
    begin none call = .opened := by
  cases call <;> first | rfl | simp [RepositoryCall.transition] at h

theorem solo_missing {call : RepositoryCall} {id : String} {tr : Transition} (h : call.transition none = some (id, tr))
    (hrow : t.selectRun none id = none) : solo limits none t call = (t, .error (.thrown .runNotFound)) := by
  have hfirst := first_transition limits t h
  rw [show scopeOf none = none from rfl, hrow] at hfirst
  simp only [solo, begin_transition h, advance, Option.isSome_none, Bool.false_and, Bool.false_eq_true, if_false, hfirst,
    finish]

theorem solo_found {call : RepositoryCall} {id : String} {tr : Transition} {row : RunRow} {current : RunMetadata}
    (h : call.transition none = some (id, tr)) (hrow : t.selectRun none id = some row)
    (hread : readRun row.metadata id = .ok current) :
    solo limits none t call = (match action limits t none current call with
      | .error failure => (t, .error failure)
      | .ok w => finish t (update limits t call current w)) := by
  have hfirst := first_transition limits t h
  rw [show scopeOf none = none from rfl, hrow] at hfirst
  simp only [hread] at hfirst
  simp only [solo, begin_transition h, advance, Option.isSome_none, Bool.false_and, Bool.and_false, Bool.false_eq_true,
    if_false, hfirst]
  cases action limits t none current call <;> rfl

/-- An update of a record that decodes and fits. -/
theorem update_ready {call : RepositoryCall} {current : RunMetadata} {w : Write} {row : RunRow}
    (hw : w.run = current ∨ (StoredRunCodec.run w.run = .ok w.run ∧ limits.run w.run = true)) (hrow : row ∈ t.runs)
    (hid : row.runId = lockId call) (hversion : row.version = current.version) :
    update limits t call current w = .ready (.write (lockId call) current w) w.value := by
  have hany : (t.runs.any fun row => row.runId = lockId call ∧ row.version = current.version) = true :=
    List.any_eq_true.mpr ⟨row, hrow, by simp [hid, hversion]⟩
  rcases hw with hw | ⟨hcodec, hlimit⟩
  · simp only [update, hw, if_true]
  · simp only [update, hcodec, hlimit, hany, Bool.not_true, Bool.false_eq_true, if_false, if_true, ite_self]

/-! ## The relation is kept -/

/-- The write of a transition's result, against the assignments to the dictionaries. -/
theorem Agrees.write (h : Agrees t m) {id : String} {current : RunMetadata} {w : Write} (hc : m.stored id = some current)
    (hid : w.run.id = id) (hcodec : StoredRunCodec.run w.run = .ok w.run) (hdispatch : w.dispatch = false)
    (hitem : ∀ item, w.feedback = some item → StoredRunCodec.feedback item = .ok item) {m' : InMemory}
    (hruns : m'.runs = InMemoryRunRepository.set m.runs id w.run) (hkeys : m'.createKeys = m.createKeys)
    (hsubmissions : ∀ id', m'.submissions id' = m.submissions id' ++
      if id' = id then (w.feedback.map fun item => (item.submissionId, item)).toList else []) :
    Agrees ((Effect.write id current w).apply t) m' := by
  obtain ⟨found, hfound, hfid, hfcurrent, hfversion, -⟩ := h.found hc
  -- The one row of the run is the one that the update hits.
  have hrow : ∀ row ∈ t.runs, row.runId = id → row = found := fun row hrow he =>
    List.inj_on_of_nodup_map h.rowIds hrow hfound (he.trans hfid.symm)
  have hmem : ∀ row ∈ ((Effect.write id current w).apply t).runs, row ∈ t.runs ∨
      (row.runId = id ∧ row.scope = none ∧ row.metadata = w.run ∧ row.version = w.run.version) := by
    intro row hr
    simp only [Effect.apply] at hr
    split at hr
    · exact .inl hr
    · obtain ⟨old, hold, rfl⟩ := List.mem_map.mp hr
      split
      · rename_i hmatch
        exact .inr ⟨hmatch.1, (h.rows old hold).1, rfl, rfl⟩
      · exact .inl hold
  have hmap : ∀ {β : Type} (g : RunRow → β) (g' : RunRow → β), (∀ row ∈ t.runs, row.runId ≠ id → g row = g' row) →
      g { found with version := w.run.version, metadata := w.run } = g' found →
      ((Effect.write id current w).apply t).runs.map g = t.runs.map g' := by
    intro β g g' hother hsame
    simp only [Effect.apply]
    split
    · rename_i he
      refine List.map_congr_left fun row hr => ?_
      by_cases hrid : row.runId = id
      · obtain rfl := hrow row hr hrid
        have hback : ({ row with version := w.run.version, metadata := w.run } : RunRow) = row := by
          rw [he, ← hfversion, ← hfcurrent]
        rw [← hsame, hback]
      · exact hother row hr hrid
    · rw [List.map_map]
      refine List.map_congr_left fun row hr => ?_
      by_cases hrid : row.runId = id
      · obtain rfl := hrow row hr hrid
        simpa [hrid, hfversion] using hsame
      · simpa [hrid] using hother row hr hrid
  refine ⟨?_, ?_, ?_, ?_, ?_, ?_, ?_⟩
  · rw [hruns, ← h.runs, InMemoryRunRepository.set, List.map_map]
    refine hmap _ _ ?_ ?_
    · intro row hr hne
      simp [hne]
    · simp [hfid]
  · rw [hkeys, ← h.keys]
    exact hmap _ _ (fun row _ _ => rfl) rfl
  · rw [Effect.runIds_write]
    exact h.rowIds
  · intro row hr
    rcases hmem row hr with hr | ⟨hrid, hscope, hmeta, hversion⟩
    · exact h.rows row hr
    · exact ⟨hscope, by rw [hmeta, hid, hrid], by rw [hmeta, hversion], by rw [hmeta, hcodec]⟩
  · simp [Effect.apply, h.dispatch, hdispatch]
  · intro id'
    rw [Effect.submissions_write, hsubmissions, h.submissions]
  · intro row hr
    rcases List.mem_append.mp hr with hr | hr
    · exact h.decodes row hr
    · cases hw : w.feedback with
      | none => simp [hw] at hr
      | some item =>
        obtain rfl : row = ⟨id, item.submissionId, item⟩ := by simpa [hw] using hr
        exact hitem item hw

/-- The call answers alike on both sides, and keeps them related. -/
def Alike (limits : Limits) (t : Tables) (m : InMemory) (call : RepositoryCall) : Prop :=
  (solo limits none t call).2 = (InMemoryRunRepository.call m call).2 ∧
    Agrees (solo limits none t call).1 (InMemoryRunRepository.call m call).1

/-- A call whose action is a write without feedback of the result of its transition. -/
theorem transition_alike (h : Agrees t m) {call : RepositoryCall} {id : String} {tr : Transition}
    (htr : call.transition none = some (id, tr)) (value : RunMetadata → RepositoryValue) {current run : RunMetadata}
    (hc : m.stored id = some current) (happly : tr.apply current = .ok run)
    (haction : action limits t none current call = .ok ⟨run, none, false, value run⟩)
    (hcodec : StoredRunCodec.run run = .ok run) (hlimit : limits.run run = true)
    (hmemory : InMemoryRunRepository.call m call =
      ({ m with runs := InMemoryRunRepository.set m.runs id run }, .ok (value run))) : Alike limits t m call := by
  obtain ⟨row, hrow, hrid, hrm, hversion, hselect, hread⟩ := h.found hc
  have hlock := transition_lockId htr
  have hupdate : update limits t call current ⟨run, none, false, value run⟩ =
      .ready (.write (lockId call) current ⟨run, none, false, value run⟩) (value run) :=
    update_ready (.inr ⟨hcodec, hlimit⟩) hrow (hrid.trans hlock) hversion
  have hid : run.id = id := by
    rw [apply_id happly, ← hrm, (h.rows row hrow).2.1, hrid]
  have hwrite : Agrees ((Effect.write id current ⟨run, none, false, value run⟩).apply t)
      { m with runs := InMemoryRunRepository.set m.runs id run } := by
    refine h.write (w := ⟨run, none, false, value run⟩) hc hid hcodec rfl ?_ rfl rfl ?_
    · intro item hitem
      simp at hitem
    · intro id'
      rw [Option.map_none, Option.toList_none, ite_self, List.append_nil]
      rfl
  rw [Alike, solo_found htr hselect hread, haction, hmemory]
  dsimp only
  rw [hupdate, ← hlock]
  exact ⟨rfl, hwrite⟩

theorem failing_alike (h : Agrees t m) {call : RepositoryCall} {id : String} {tr : Transition}
    (htr : call.transition none = some (id, tr)) {current : RunMetadata} (hc : m.stored id = some current)
    (failure : RepositoryFailure) (haction : action limits t none current call = .error failure) (m' : InMemory)
    (hmemory : InMemoryRunRepository.call m call = (m', .error failure)) (hm : Agrees t m') : Alike limits t m call := by
  obtain ⟨row, -, -, -, -, hselect, hread⟩ := h.found hc
  rw [Alike, solo_found htr hselect hread, haction, hmemory]
  exact ⟨rfl, hm⟩

theorem missing_alike (h : Agrees t m) {call : RepositoryCall} {id : String} {tr : Transition}
    (htr : call.transition none = some (id, tr)) (hc : m.stored id = none)
    (hmemory : InMemoryRunRepository.call m call = (m, .error (.thrown .runNotFound))) : Alike limits t m call := by
  rw [Alike, solo_missing htr (h.missing hc), hmemory]
  exact ⟨rfl, h⟩

/-- `Mutate` on both sides. -/
theorem mutate_alike (h : Agrees t m) {call : RepositoryCall} {id : String} {tr : Transition}
    (htr : call.transition none = some (id, tr)) (hmemory : InMemoryRunRepository.call m call = InMemoryRunRepository.mutate m id tr)
    (haction : ∀ current, action limits t none current call = transit current tr)
    (hok : ∀ current run, m.stored id = some current → tr.apply current = .ok run →
      StoredRunCodec.run run = .ok run ∧ limits.run run = true) : Alike limits t m call := by
  cases hc : m.stored id with
  | none =>
    refine missing_alike h htr hc ?_
    rw [InMemory.stored] at hc
    rw [hmemory, InMemoryRunRepository.mutate, hc]
  | some current =>
    have hlookup : m.runs.lookup id = some current := hc
    cases happly : tr.apply current with
    | error e =>
      refine failing_alike h htr hc (.thrown (.transition e)) ?_ m ?_ h
      · rw [haction, transit, happly]
      · rw [hmemory, InMemoryRunRepository.mutate, hlookup]
        simp only [happly, Except.mapError, InMemoryRunRepository.thrown]
    | ok run =>
      obtain ⟨hcodec, hlimit⟩ := hok current run hc happly
      refine transition_alike h htr .updated hc happly ?_ hcodec hlimit ?_
      · rw [haction, transit, happly]
      · rw [hmemory, InMemoryRunRepository.mutate, hlookup]
        simp only [happly, Except.mapError, InMemoryRunRepository.thrown]

theorem requestCancellation_alike (h : Agrees t m) {id : String} {expected : Option Int} {now : DateTimeOffset}
    (hok : ∀ current run, m.stored id = some current → (Transition.cancel expected now).apply current = .ok run →
      StoredRunCodec.run run = .ok run ∧ limits.run run = true) : Alike limits t m (.requestCancellation id expected now) := by
  have htr : (RepositoryCall.requestCancellation id expected now).transition none = some (id, .cancel expected now) := rfl
  cases hc : m.stored id with
  | none =>
    refine missing_alike h htr hc ?_
    rw [InMemory.stored] at hc
    simp only [InMemoryRunRepository.call, hc]
  | some current =>
    have hlookup : m.runs.lookup id = some current := hc
    cases hcancel : cancel current expected now with
    | error e =>
      refine failing_alike h htr hc (.thrown (.transition e)) ?_ m ?_ h
      · simp only [action, hcancel]
      · simp only [InMemoryRunRepository.call, hlookup, hcancel, Except.mapError, InMemoryRunRepository.thrown]
    | ok result =>
      have happly : (Transition.cancel expected now).apply current = .ok result.run := by
        simp [Transition.apply, hcancel]
      obtain ⟨hcodec, hlimit⟩ := hok current result.run hc happly
      refine transition_alike h htr (fun _ => .mutation result) hc happly ?_ hcodec hlimit ?_
      · simp only [action, hcancel]
      · simp only [InMemoryRunRepository.call, hlookup, hcancel, Except.mapError, InMemoryRunRepository.thrown]

theorem get_alike (h : Agrees t m) (id : String) : Alike limits t m (.get id) := by
  have hbegin : begin none (.get id) = .opened := rfl
  have hsolo : solo limits none t (.get id) = (t, .ok (.found (m.stored id))) := by
    cases hc : m.stored id with
    | none =>
      have hselect := h.missing hc
      simp only [solo, hbegin, advance, Option.isSome_none, Bool.false_and, Bool.false_eq_true, if_false, first,
        show scopeOf none = none from rfl, hselect, answer, finish, Effect.apply]
    | some current =>
      obtain ⟨row, -, -, -, -, hselect, hread⟩ := h.found hc
      simp only [solo, hbegin, advance, Option.isSome_none, Bool.false_and, Bool.false_eq_true, if_false, first,
        show scopeOf none = none from rfl, hselect, hread, Functor.map, Except.map, answer, finish, Effect.apply]
  rw [Alike, hsolo]
  exact ⟨rfl, h⟩

theorem create_alike (h : Agrees t m) {request : CreateRunRequest} {subject id : String} {now : DateTimeOffset}
    (hcodec : StoredRunCodec.run (create id request subject now) = .ok (create id request subject now))
    (hlimit : limits.run (create id request subject now) = true) (hfresh : m.stored id = none) :
    Alike limits t m (.create request subject id now) := by
  have hrun : newRun none request subject id now = create id request subject now := rfl
  have hbegin : begin none (.create request subject id now) = .opened := by
    have hnew : StoredRunCodec.run (newRun none request subject id now) = .ok (create id request subject now) := hcodec
    unfold begin
    dsimp only
    rw [hnew]
  have hkey := h.selectKey subject request.clientRequestId
  have hcreated : (create id request subject now).createdBy = subject := rfl
  have hclient : (create id request subject now).clientRequestId = request.clientRequestId := rfl
  cases hselect : t.selectKey none subject request.clientRequestId with
  | some row =>
    obtain ⟨hmem, -, -, -⟩ := selectKey_mem hselect
    have hdecodes := (h.rows row hmem).2.2.2
    have hstored : m.runs.lookup row.runId = some row.metadata := by
      have := h.stored row.runId
      rw [Tables.stored_of_mem h.rowIds hmem] at this
      exact this
    rw [hselect, Option.map_some] at hkey
    cases hduplicate : duplicate row.metadata request with
    | ok result =>
      have hsolo : solo limits none t (.create request subject id now) = (t, .ok (.created result)) := by
        simp only [solo, hbegin, advance, Option.isSome_none, Bool.false_and, Bool.false_eq_true, if_false, first, hrun,
          hlimit, Bool.not_true, show scopeOf none = none from rfl, hcreated, hclient, hselect, Option.isSome_some, if_true,
          show subjectOf none subject = subject from rfl, hdecodes, bind, Except.bind, hduplicate]
        rfl
      rw [Alike, hsolo]
      simp only [InMemoryRunRepository.call, hkey, hstored, hduplicate]
      exact ⟨rfl, h⟩
    | error e =>
      have hsolo : solo limits none t (.create request subject id now) = (t, .error (.thrown e)) := by
        simp only [solo, hbegin, advance, Option.isSome_none, Bool.false_and, Bool.false_eq_true, if_false, first, hrun,
          hlimit, Bool.not_true, show scopeOf none = none from rfl, hcreated, hclient, hselect, Option.isSome_some, if_true,
          show subjectOf none subject = subject from rfl, hdecodes, bind, Except.bind, hduplicate]
        rfl
      rw [Alike, hsolo]
      simp only [InMemoryRunRepository.call, hkey, hstored, hduplicate]
      exact ⟨rfl, h⟩
  | none =>
    rw [hselect, Option.map_none] at hkey
    have hstored : t.stored id = none := by rw [← h.stored, hfresh]
    have hnew := Tables.stored_eq_none.mp hstored
    have hany : (t.runs.any fun row => row.runId = id) = false := by
      rw [List.any_eq_false]
      intro row hrow he
      exact hnew (List.mem_map.mpr ⟨row, hrow, by simpa using he⟩)
    have hsolo : solo limits none t (.create request subject id now) =
        ((Effect.insert (newRow none (create id request subject now))).apply t,
          .ok (.created ⟨create id request subject now, true⟩)) := by
      simp only [solo, hbegin, advance, Option.isSome_none, Bool.false_and, Bool.false_eq_true, if_false, first, hrun, hlimit,
        Bool.not_true, show scopeOf none = none from rfl, hcreated, hclient, hselect, hany, finish]
    have hlookup : m.runs.lookup id = none := hfresh
    rw [Alike, hsolo]
    simp only [InMemoryRunRepository.call, hkey, hlookup, Option.isSome_none, Bool.false_eq_true, if_false]
    refine ⟨trivial, ?_, ?_, ?_, ?_, h.dispatch, h.submissions, h.decodes⟩
    · simp only [Effect.apply, List.map_append, h.runs]
      rfl
    · simp only [Effect.apply, List.map_append, h.keys]
      rfl
    · simp only [Effect.apply, List.map_append, List.nodup_append]
      refine ⟨h.rowIds, by simp, ?_⟩
      intro a ha b hb he
      obtain rfl : b = id := by simpa [newRow, create] using hb
      exact hnew (he ▸ ha)
    · intro row hrow
      rcases List.mem_append.mp hrow with hrow | hrow
      · exact h.rows row hrow
      · obtain rfl : row = newRow none (create id request subject now) := by simpa using hrow
        exact ⟨rfl, rfl, rfl, hcodec⟩

/-- The submission of a run that is stored under an id, in both. -/
theorem Agrees.submission (h : Agrees t m) (id submission : String) :
    (m.submissions id).lookup submission =
      (t.feedback.find? fun row => row.runId = id ∧ row.submissionId = submission).map (·.feedback) := by
  have hlookup := lookup_map (t.feedback.filter (·.runId = id)) (fun row : FeedbackRow => row.submissionId)
    (fun row => row.feedback) submission
  rw [← h.submissions, Tables.submissions, hlookup, List.find?_filter]
  congr 1
  refine List.find?_congr fun row _ => ?_
  by_cases hid : row.runId = id <;> simp [hid]

/-- The memory with a dictionary of the run's submissions, made if it was not there. -/
def InMemory.opened (m : InMemory) (id : String) : InMemory :=
  if (m.feedback.lookup id).isSome = true then m else { m with feedback := m.feedback ++ [(id, [])] }

theorem InMemory.opened_eq (m : InMemory) (id : String) :
    m.opened id = if (m.feedback.lookup id).isSome = true then m else { m with feedback := m.feedback ++ [(id, [])] } := rfl

@[simp] theorem InMemory.opened_runs (m : InMemory) (id : String) : (m.opened id).runs = m.runs := by
  unfold InMemory.opened
  split <;> rfl

@[simp] theorem InMemory.opened_createKeys (m : InMemory) (id : String) : (m.opened id).createKeys = m.createKeys := by
  unfold InMemory.opened
  split <;> rfl

theorem InMemory.opened_lookup (m : InMemory) (id : String) : ((m.opened id).feedback.lookup id).isSome = true := by
  unfold InMemory.opened
  split
  · assumption
  · simp [InMemoryRunRepository.lookup_append]

/-- An empty dictionary holds no submission. -/
@[simp] theorem InMemory.opened_submissions (m : InMemory) (id id' : String) : (m.opened id).submissions id' = m.submissions id' := by
  unfold InMemory.opened
  split
  · rfl
  · rename_i hnone
    have hno : m.feedback.lookup id = none := Option.not_isSome_iff_eq_none.mp hnone
    simp only [InMemory.submissions, InMemoryRunRepository.lookup_append]
    by_cases he : id' = id
    · subst he
      simp [hno]
    · simp [he]

theorem Agrees.opened (h : Agrees t m) (id : String) : Agrees t (m.opened id) where
  runs := by rw [m.opened_runs, h.runs]
  keys := by rw [m.opened_createKeys, h.keys]
  rowIds := h.rowIds
  rows := h.rows
  dispatch := h.dispatch
  submissions := fun id' => by rw [m.opened_submissions, h.submissions]
  decodes := h.decodes

section

variable {id : String} {request : SubmitFeedbackRequest} {subject : String} {now : DateTimeOffset} {current : RunMetadata}

theorem call_submitFeedback_again (hc : m.stored id = some current) {existing : RunFeedback}
    (hexisting : ((m.opened id).submissions id).lookup request.submissionId = some existing) :
    InMemoryRunRepository.call m (.submitFeedback id request subject now) =
      InMemoryRunRepository.thrown (m.opened id) (fun item => (m.opened id, .feedback item)) (duplicateFeedback existing request) := by
  have hlookup : m.runs.lookup id = some current := hc
  rw [InMemory.submissions] at hexisting
  simp only [InMemoryRunRepository.call, hlookup, ← InMemory.opened_eq, hexisting]

theorem call_submitFeedback_first (hc : m.stored id = some current)
    (hnew : ((m.opened id).submissions id).lookup request.submissionId = none) :
    InMemoryRunRepository.call m (.submitFeedback id request subject now) =
      InMemoryRunRepository.thrown (m.opened id) (fun result => ({ m.opened id with
        runs := InMemoryRunRepository.set (m.opened id).runs id result.1
        feedback := InMemoryRunRepository.set (m.opened id).feedback id
          ((m.opened id).submissions id ++ [(result.2.submissionId, result.2)]) },
        .feedback result.2)) ((feedback current request subject now).mapError .transition) := by
  have hlookup : m.runs.lookup id = some current := hc
  rw [InMemory.submissions] at hnew
  simp only [InMemoryRunRepository.call, hlookup, ← InMemory.opened_eq, hnew]
  rfl

/-- A submission whose row is there: the run is written as it was read. -/
theorem submitFeedback_again_alike (h : Agrees t m) (hc : m.stored id = some current) {row : FeedbackRow}
    (hfind : (t.feedback.find? fun row => row.runId = id ∧ row.submissionId = request.submissionId) = some row) :
    Alike limits t m (.submitFeedback id request subject now) := by
  have htr : (RepositoryCall.submitFeedback id request subject now).transition none =
      some (id, .feedback request subject now) := rfl
  have hagrees := h.opened id
  have hdecodes := h.decodes row (List.mem_of_find?_eq_some hfind)
  have hsubmission := hagrees.submission id request.submissionId
  rw [hfind, Option.map_some] at hsubmission
  cases hduplicate : duplicateFeedback row.feedback request with
  | error e =>
    refine failing_alike h htr hc (.thrown e) ?_ (m.opened id) ?_ hagrees
    · simp only [action, hfind, hdecodes, bind, Except.bind, hduplicate]
    · rw [call_submitFeedback_again hc hsubmission]
      simp only [hduplicate, InMemoryRunRepository.thrown]
  | ok existing =>
    have haction : action limits t none current (.submitFeedback id request subject now) =
        .ok ⟨current, none, false, .feedback existing⟩ := by
      simp only [action, hfind, hdecodes, bind, Except.bind, hduplicate]
    obtain ⟨found, hfound, hfid, -, hversion, hselect, hread⟩ := h.found hc
    have hupdate : update limits t (.submitFeedback id request subject now) current
        ⟨current, none, false, .feedback existing⟩ =
          .ready (.write id current ⟨current, none, false, .feedback existing⟩) (.feedback existing) :=
      update_ready (.inl rfl) hfound hfid hversion
    rw [Alike, solo_found htr hselect hread, haction, call_submitFeedback_again hc hsubmission]
    dsimp only
    rw [hupdate, hduplicate]
    refine ⟨rfl, ?_⟩
    have hsame : (Effect.write id current ⟨current, none, false, .feedback existing⟩).apply t = t := by
      simp [Effect.apply]
    show Agrees ((Effect.write id current ⟨current, none, false, .feedback existing⟩).apply t) (m.opened id)
    rw [hsame]
    exact hagrees

/-- A first submission is one row more and one entry more of the dictionary. -/
theorem submitFeedback_first_alike (h : Agrees t m) (hc : m.stored id = some current)
    (hfind : (t.feedback.find? fun row => row.runId = id ∧ row.submissionId = request.submissionId) = none)
    (hok : ∀ run item, feedback current request subject now = .ok (run, item) → StoredRunCodec.run run = .ok run ∧
      limits.run run = true ∧ StoredRunCodec.feedback item = .ok item ∧ limits.feedback item = true) :
    Alike limits t m (.submitFeedback id request subject now) := by
  have htr : (RepositoryCall.submitFeedback id request subject now).transition none =
      some (id, .feedback request subject now) := rfl
  have hagrees := h.opened id
  have hsubmission := hagrees.submission id request.submissionId
  rw [hfind, Option.map_none] at hsubmission
  cases hfeedback : feedback current request subject now with
  | error e =>
    refine failing_alike h htr hc (.thrown (.transition e)) ?_ (m.opened id) ?_ hagrees
    · simp only [action, hfind, show subjectOf none subject = subject from rfl, hfeedback]
    · rw [call_submitFeedback_first hc hsubmission]
      simp only [hfeedback, Except.mapError, InMemoryRunRepository.thrown]
  | ok result =>
    obtain ⟨run, item⟩ := result
    obtain ⟨hcodec, hlimit, hitem, hitemLimit⟩ := hok run item hfeedback
    have happly : (Transition.feedback request subject now).apply current = .ok run := by
      simp [Transition.apply, hfeedback]
    obtain ⟨found, hfound, hfid, hfcurrent, hversion, hselect, hread⟩ := h.found hc
    have hid : run.id = id := by
      rw [apply_id happly, ← hfcurrent, (h.rows found hfound).2.1, hfid]
    have hupdate : update limits t (.submitFeedback id request subject now) current
        ⟨run, some item, false, .feedback item⟩ =
          .ready (.write id current ⟨run, some item, false, .feedback item⟩) (.feedback item) :=
      update_ready (.inr ⟨hcodec, hlimit⟩) hfound hfid hversion
    have haction : action limits t none current (.submitFeedback id request subject now) =
        .ok ⟨run, some item, false, .feedback item⟩ := by
      simp only [action, hfind, show subjectOf none subject = subject from rfl, hfeedback, hitem, hitemLimit, if_true]
    have hwrite : Agrees ((Effect.write id current ⟨run, some item, false, .feedback item⟩).apply t) { m.opened id with
        runs := InMemoryRunRepository.set (m.opened id).runs id run
        feedback := InMemoryRunRepository.set (m.opened id).feedback id
          ((m.opened id).submissions id ++ [(item.submissionId, item)]) } := by
      have hstored : (m.opened id).stored id = some current := by
        rw [InMemory.stored, InMemory.opened_runs]
        exact hc
      refine hagrees.write (w := ⟨run, some item, false, .feedback item⟩) hstored hid hcodec rfl ?_ rfl rfl ?_
      · intro item' he
        obtain rfl := Option.some.inj he
        exact hitem
      · intro id'
        show ((InMemoryRunRepository.set (m.opened id).feedback id _).lookup id').getD [] = _
        rw [InMemoryRunRepository.lookup_set]
        by_cases he : id' = id
        · subst he
          obtain ⟨x, hx⟩ := Option.isSome_iff_exists.mp (m.opened_lookup id')
          simp [hx]
        · rw [if_neg he, if_neg he, List.append_nil]
          rfl
    rw [Alike, solo_found htr hselect hread, haction, call_submitFeedback_first hc hsubmission]
    dsimp only
    rw [hupdate, hfeedback]
    exact ⟨rfl, hwrite⟩

end

theorem submitFeedback_alike (h : Agrees t m) {id : String} {request : SubmitFeedbackRequest} {subject : String}
    {now : DateTimeOffset}
    (hok : ∀ current run item, m.stored id = some current → (m.submissions id).lookup request.submissionId = none →
      feedback current request subject now = .ok (run, item) → StoredRunCodec.run run = .ok run ∧ limits.run run = true ∧
        StoredRunCodec.feedback item = .ok item ∧ limits.feedback item = true) :
    Alike limits t m (.submitFeedback id request subject now) := by
  cases hc : m.stored id with
  | none =>
    refine missing_alike h rfl hc ?_
    rw [InMemory.stored] at hc
    simp only [InMemoryRunRepository.call, hc]
  | some current =>
    cases hfind : t.feedback.find? fun row => row.runId = id ∧ row.submissionId = request.submissionId with
    | some row => exact submitFeedback_again_alike h hc hfind
    | none =>
      refine submitFeedback_first_alike h hc hfind fun run item hfeedback => hok current run item hc ?_ hfeedback
      rw [h.submission, hfind, Option.map_none]

/-- A submission that the check of its table does not take. -/
theorem submitFeedback_refused (h : Agrees t m) {id : String} {request : SubmitFeedbackRequest} {subject : String}
    {now : DateTimeOffset} {current run : RunMetadata} {item : RunFeedback} (hc : m.stored id = some current)
    (hnew : (m.submissions id).lookup request.submissionId = none)
    (hfeedback : feedback current request subject now = .ok (run, item)) (hitem : StoredRunCodec.feedback item = .ok item)
    (hlimit : limits.feedback item = false) :
    solo limits none t (.submitFeedback id request subject now) = (t, .error .checkViolation) := by
  obtain ⟨found, -, -, -, -, hselect, hread⟩ := h.found hc
  have hfind : (t.feedback.find? fun row => row.runId = id ∧ row.submissionId = request.submissionId) = none := by
    rw [h.submission] at hnew
    exact Option.map_eq_none_iff.mp hnew
  have haction : action limits t none current (.submitFeedback id request subject now) = .error .checkViolation := by
    simp only [action, hfind, show subjectOf none subject = subject from rfl, hfeedback, hitem, hlimit, Bool.false_eq_true,
      if_false]
  have htr : (RepositoryCall.submitFeedback id request subject now).transition none =
      some (id, .feedback request subject now) := rfl
  rw [solo_found htr hselect hread, haction]

/-- Every call of both repositories. -/
theorem call_agrees (h : Agrees t m) (call : RepositoryCall) (hplain : call.plain = true) (hdecodes : Decodes m call)
    (hfits : Fits limits m call) (hfresh : ∀ id, call.draws = some id → m.stored id = none) :
    Alike limits t m call := by
  have hmutate : ∀ id tr, call.transition none = some (id, tr) → (∀ current run, m.stored id = some current →
      tr.apply current = .ok run → run ∈ (encodes m call).1) → ∀ current run, m.stored id = some current →
        tr.apply current = .ok run → StoredRunCodec.run run = .ok run ∧ limits.run run = true := by
    intro id tr _ hencodes current run hc happly
    exact ⟨hdecodes.1 run (hencodes current run hc happly), hfits.1 run (hencodes current run hc happly)⟩
  cases call with
  | create request subject id now =>
    exact create_alike h (hdecodes.1 _ (List.mem_singleton_self _)) (hfits.1 _ (List.mem_singleton_self _)) (hfresh id rfl)
  | get id => exact get_alike h id
  | applySemanticStatus id expected status now =>
    refine mutate_alike h rfl rfl (fun _ => rfl) (hmutate id _ rfl fun current run hc happly => ?_)
    simp [encodes, RepositoryCall.transition, hc, happly]
  | markFailed id code message now =>
    refine mutate_alike h rfl rfl (fun _ => rfl) (hmutate id _ rfl fun current run hc happly => ?_)
    simp [encodes, RepositoryCall.transition, hc, happly]
  | markStartDispatchUnknown id code now =>
    refine mutate_alike h rfl rfl (fun _ => rfl) (hmutate id _ rfl fun current run hc happly => ?_)
    simp [encodes, RepositoryCall.transition, hc, happly]
  | markCancellationDelivered id generation now =>
    refine mutate_alike h rfl rfl (fun _ => rfl) (hmutate id _ rfl fun current run hc happly => ?_)
    simp [encodes, RepositoryCall.transition, hc, happly]
  | finalizeCancellationWithoutBackend id version generation now =>
    refine mutate_alike h rfl rfl (fun current => ?_) (hmutate id _ rfl fun current run hc happly => ?_)
    · simp [action, h.dispatch]
    · simp [encodes, RepositoryCall.transition, hc, happly]
  | requestCancellation id expected now =>
    refine requestCancellation_alike h (hmutate id _ rfl fun current run hc happly => ?_)
    simp [encodes, RepositoryCall.transition, hc, happly]
  | submitFeedback id request subject now =>
    refine submitFeedback_alike h fun current run item hc hnew hfeedback => ?_
    have hencodes : encodes m (.submitFeedback id request subject now) = ([run], [item]) := by
      simp only [encodes, hc, hnew, hfeedback, Option.isSome_none, Bool.false_eq_true, if_false]
    rw [Decodes, hencodes] at hdecodes
    rw [Fits, hencodes] at hfits
    exact ⟨hdecodes.1 run (List.mem_singleton_self _), hfits.1 run (List.mem_singleton_self _),
      hdecodes.2 item (List.mem_singleton_self _), hfits.2 item (List.mem_singleton_self _)⟩
  | list limit => cases hplain
  | claimStart id now => cases hplain
  | getFeedback id => cases hplain
  | getStatistics => cases hplain

/-- A call leaves every id free that it has not drawn. -/
theorem call_leaves_free (m : InMemory) (call : RepositoryCall) {id : String} (h : m.stored id = none)
    (hdraws : call.draws ≠ some id) : (InMemoryRunRepository.call m call).1.stored id = none := by
  rcases InMemoryRunRepository.call_did m call with ⟨hruns, -⟩ | ⟨request, subject, new, now, rfl, -, hruns, -⟩ |
      ⟨moved, tr, current, next, item, -, hfound, -, -, hruns, -⟩
  · exact (hruns id).trans h
  · rw [InMemory.stored, hruns, if_neg fun he => hdraws (congrArg some he.symm)]
    exact h
  · have hne : id ≠ moved := by
      rintro rfl
      rw [InMemory.stored, hfound] at h
      cases h
    rw [InMemory.stored, hruns, if_neg hne]
    exact h

theorem calls_agree {calls : List RepositoryCall} (h : Agrees t m) (hplain : ∀ call ∈ calls, call.plain = true)
    (hids : (calls.filterMap RepositoryCall.draws).Nodup)
    (hfree : ∀ id ∈ calls.filterMap RepositoryCall.draws, m.stored id = none) (hdecodes : Along Decodes m calls)
    (hfits : Along (Fits limits) m calls) :
    (postgresCalls limits t calls).2 = (memoryCalls m calls).2 ∧
      Agrees (postgresCalls limits t calls).1 (memoryCalls m calls).1 := by
  induction calls generalizing t m with
  | nil => exact ⟨rfl, h⟩
  | cons call calls ih =>
    obtain ⟨hdecode, hdecodes⟩ := hdecodes
    obtain ⟨hfit, hfits⟩ := hfits
    have hmine : ∀ id, call.draws = some id → id ∈ (call :: calls).filterMap RepositoryCall.draws := by
      intro id hid
      rw [List.filterMap_cons, hid]
      exact List.mem_cons_self
    have hlater : ∀ id ∈ calls.filterMap RepositoryCall.draws,
        id ∈ (call :: calls).filterMap RepositoryCall.draws ∧ call.draws ≠ some id := by
      intro id hid
      cases hdraws : call.draws with
      | none =>
        rw [List.filterMap_cons, hdraws]
        exact ⟨hid, by simp⟩
      | some own =>
        rw [List.filterMap_cons, hdraws] at hids ⊢
        refine ⟨List.mem_cons_of_mem _ hid, ?_⟩
        intro he
        obtain rfl := Option.some.inj he
        exact (List.nodup_cons.mp hids).1 hid
    obtain ⟨hanswer, hagrees⟩ := call_agrees h call (hplain call List.mem_cons_self) hdecode hfit
      fun id hid => hfree id (hmine id hid)
    have hrest := ih hagrees (fun c hc => hplain c (List.mem_cons_of_mem _ hc))
      (hids.sublist ((List.sublist_cons_self call calls).filterMap _))
      (fun id hid => call_leaves_free m call (hfree id (hlater id hid).1) (hlater id hid).2) hdecodes hfits
    obtain ⟨hanswers, hend⟩ := hrest
    refine ⟨?_, hend⟩
    simp only [postgresCalls, memoryCalls, hanswer, hanswers]

end

theorem agrees_empty : Agrees Tables.empty InMemory.empty where
  runs := rfl
  keys := rfl
  rowIds := List.nodup_nil
  rows row hrow := by cases hrow
  dispatch := rfl
  submissions _ := rfl
  decodes row hrow := by cases hrow

/-- A sequence of calls without identity context, each create drawing an id of its own: if what
    they encode decodes and fits the checks of the tables, the two repositories return and throw
    the same at every call and hold the same runs and feedback in the end. -/
theorem repositories_agree (limits : Limits) (calls : List RepositoryCall) (hplain : ∀ call ∈ calls, call.plain = true)
    (hids : (calls.filterMap RepositoryCall.draws).Nodup) (hdecodes : Along Decodes InMemory.empty calls)
    (hfits : Along (Fits limits) InMemory.empty calls) :
    let postgres := postgresCalls limits Tables.empty calls
    let memory := memoryCalls InMemory.empty calls
    postgres.2 = memory.2 ∧ postgres.1.runs.map (fun row => (row.runId, row.metadata)) = memory.1.runs ∧
      ∀ id, postgres.1.submissions id = memory.1.submissions id := by
  intro postgres memory
  have hagree : postgres.2 = memory.2 ∧ Agrees postgres.1 memory.1 :=
    calls_agree agrees_empty hplain hids (fun _ _ => rfl) hdecodes hfits
  obtain ⟨hanswers, hend⟩ := hagree
  exact ⟨hanswers, hend.runs, hend.submissions⟩

/-! ## The checks of the tables -/

/-- The octets of a string in the text of a `jsonb`. -/
def jsonbString (s : String) : Nat :=
  2 + (s.toList.map fun c =>
    if c.toNat ∈ [8, 9, 10, 12, 13, 34, 92] then 2 else if c.toNat < 32 then 6 else c.utf8Size).sum

/-- Of an instant in UTC, its fraction without trailing zeros. -/
def jsonbInstant (t : DateTimeOffset) : Nat :=
  27 + if t % 10000000 = 0 then 0
    else 8 - ((List.range 7).filter fun (k : Nat) => t % (10 : Int) ^ (k + 1) = 0).length

/-- `octet_length(feedback::text)`: the eight keys with their quotes, colons, commas and the braces
    are 121 octets. -/
def feedbackOctets (item : RunFeedback) : Nat :=
  121 + jsonbString item.runId + (toString item.rating).length + 1 + (toString item.runVersion).length +
    (2 + (item.reasonCodes.map jsonbString).sum + 2 * (item.reasonCodes.length - 1)) + jsonbInstant item.submittedAt +
    jsonbString item.submittedBy + jsonbString item.submissionId

/-- `CHECK (octet_length(feedback::text) <= 16384)`; a run has sixteen megabytes. -/
def tableLimits : Limits where
  run _ := true
  feedback item := decide (feedbackOctets item ≤ 16384)

def goodFeedback : SubmitFeedbackRequest := ⟨"submission-1", 5, .helpful, ["clear"], 1⟩

/-- A create, feedback twice, and a cancellation that comes too late for its version. -/
def reviewCalls (subject : String) : List RepositoryCall :=
  let id := RunId.new fun _ => Fin.last 15
  [.create quarterlyRequest subject id 10, .submitFeedback id goodFeedback subject 20,
    .submitFeedback id goodFeedback subject 30, .requestCancellation id (some 1) 40]

instance (m : InMemory) (call : RepositoryCall) : Decidable (Decodes m call) := inferInstanceAs (Decidable (_ ∧ _))

instance (limits : Limits) (m : InMemory) (call : RepositoryCall) : Decidable (Fits limits m call) :=
  inferInstanceAs (Decidable (_ ∧ _))

instance decidableAlong (P : InMemory → RepositoryCall → Prop) [∀ m call, Decidable (P m call)] :
    (m : InMemory) → (calls : List RepositoryCall) → Decidable (Along P m calls)
  | _, [] => .isTrue trivial
  | m, call :: calls =>
    have := decidableAlong P (InMemoryRunRepository.call m call).1 calls
    inferInstanceAs (Decidable (_ ∧ _))

theorem reviewCalls_agree :
    (postgresCalls tableLimits Tables.empty (reviewCalls "analyst")).2 = (memoryCalls InMemory.empty (reviewCalls "analyst")).2 ∧
    (memoryCalls InMemory.empty (reviewCalls "analyst")).1.feedback.length = 1 :=
  ⟨(repositories_agree tableLimits (reviewCalls "analyst") (by decide) (by decide) (by decide +kernel)
    (by decide +kernel)).1, by decide +kernel⟩

def letters (n : Nat) : String := String.ofList (List.replicate n 'a')

theorem jsonbString_letters (n : Nat) : jsonbString (letters n) = 2 + n := by
  rw [jsonbString, letters, String.toList_ofList, List.map_replicate, List.sum_replicate]
  show 2 + n * 1 = 2 + n
  omega

theorem letters_not_blank (n : Nat) : isNullOrWhiteSpace (letters (n + 1)) = false := by
  refine isNullOrWhiteSpace_of_head (p := Char.isAlpha) (fun c hc => by simp [Char.isAlphanum, hc]) ?_
  rw [letters, String.toList_ofList, List.replicate_succ]
  rfl

/-- The first two of the calls, by a subject with a name of that length. -/
def longNameCalls (n : Nat) : List RepositoryCall := (reviewCalls (letters n)).take 2

section

variable (n : Nat)

def longNameRun : RunMetadata := create (RunId.new fun _ => Fin.last 15) quarterlyRequest (letters (n + 1)) 10

def longNameFeedback : RunFeedback :=
  ⟨"submission-1", RunId.new fun _ => Fin.last 15, 5, .helpful, ["clear"], letters (n + 1), 20, 2⟩

theorem longNameRun_reviewed : feedback (longNameRun n) goodFeedback (letters (n + 1)) 20 =
    .ok ({ longNameRun n with updatedAt := 20, version := 2 }, longNameFeedback n) := rfl

theorem longNameRun_decodes : StoredRunCodec.run (longNameRun n) = .ok (longNameRun n) ∧
    StoredRunCodec.run { longNameRun n with updatedAt := 20, version := 2 } =
      .ok { longNameRun n with updatedAt := 20, version := 2 } := by
  have hstorable : Storable 10 (longNameRun n) :=
    storable_create _ (show ControlApiEndpoints.validate (fun _ => false) quarterlyRequest = .ok () by decide +kernel)
      (letters_not_blank n) (by decide)
  have happly : (Transition.feedback goodFeedback (letters (n + 1)) 20).apply (longNameRun n) =
      .ok { longNameRun n with updatedAt := 20, version := 2 } := by
    simp only [Transition.apply, longNameRun_reviewed]
    rfl
  exact ⟨hstorable.accepted, (apply_storable (t := .feedback goodFeedback (letters (n + 1)) 20) hstorable
    (show (10 : Int) ≤ 20 by decide) trivial happly).accepted⟩

theorem longNameFeedback_decodes : StoredRunCodec.feedback (longNameFeedback n) = .ok (longNameFeedback n) := by
  have hblank := letters_not_blank n
  have hsubmission : isNullOrWhiteSpace "submission-1" = false ∧ utf16Length "submission-1" = 12 := by decide +kernel
  have hcode : isNullOrWhiteSpace "clear" = false ∧ utf16Length "clear" = 5 ∧
      "clear".toList.all identifierCharacter = true := by decide +kernel
  simp [StoredRunCodec.feedback, longNameFeedback, hblank, hsubmission, hcode]
  decide

theorem longNameFeedback_refused (hn : 16384 ≤ n) : tableLimits.feedback (longNameFeedback n) = false := by
  have hname : jsonbString (longNameFeedback n).submittedBy = 2 + (n + 1) := jsonbString_letters (n + 1)
  have hpart : jsonbString (longNameFeedback n).submittedBy ≤ feedbackOctets (longNameFeedback n) := by
    unfold feedbackOctets
    omega
  simp only [tableLimits, decide_eq_false_iff_not]
  omega

/-- The dictionaries once the run is there. -/
def longNameStore : InMemory :=
  ⟨[(RunId.new fun _ => Fin.last 15, longNameRun n)], [((letters (n + 1), "request-1"), RunId.new fun _ => Fin.last 15)], []⟩

theorem longNameStore_eq : (InMemoryRunRepository.call InMemory.empty
    (.create quarterlyRequest (letters (n + 1)) (RunId.new fun _ => Fin.last 15) 10)).1 = longNameStore n := rfl

theorem longNameStore_stored : (longNameStore n).stored (RunId.new fun _ => Fin.last 15) = some (longNameRun n) := by
  simp [InMemory.stored, longNameStore]

theorem longNameCalls_decode : Along Decodes InMemory.empty (longNameCalls (n + 1)) := by
  refine ⟨⟨?_, fun item hitem => by cases hitem⟩, ?_, trivial⟩
  · intro run hrun
    obtain rfl : run = longNameRun n := List.mem_singleton.mp hrun
    exact (longNameRun_decodes n).1
  · have hencodes : encodes (longNameStore n)
        (.submitFeedback (RunId.new fun _ => Fin.last 15) goodFeedback (letters (n + 1)) 20) =
          ([{ longNameRun n with updatedAt := 20, version := 2 }], [longNameFeedback n]) := by
      simp only [encodes, longNameStore_stored, longNameRun_reviewed]
      rfl
    rw [longNameStore_eq, Decodes, hencodes]
    refine ⟨fun run hrun => ?_, fun item hitem => ?_⟩
    · obtain rfl := List.mem_singleton.mp hrun
      exact (longNameRun_decodes n).2
    · obtain rfl := List.mem_singleton.mp hitem
      exact longNameFeedback_decodes n

theorem longNameCalls_apart (hn : 16384 ≤ n) :
    (∀ call ∈ longNameCalls (n + 1), call.plain = true) ∧
    ((longNameCalls (n + 1)).filterMap RepositoryCall.draws).Nodup ∧ Along Decodes InMemory.empty (longNameCalls (n + 1)) ∧
    (postgresCalls tableLimits Tables.empty (longNameCalls (n + 1))).2 ≠
      (memoryCalls InMemory.empty (longNameCalls (n + 1))).2 := by
  refine ⟨?_, List.nodup_singleton _, longNameCalls_decode n, ?_⟩
  · intro call hcall
    rcases List.mem_cons.mp hcall with rfl | hcall
    · rfl
    · obtain rfl := List.mem_singleton.mp hcall
      rfl
  · have hfirst : Alike tableLimits _ _ _ := create_alike agrees_empty (longNameRun_decodes n).1 rfl rfl
    have hagrees := hfirst.2
    rw [longNameStore_eq] at hagrees
    have hsecond : solo tableLimits _ _ _ = _ := submitFeedback_refused hagrees (longNameStore_stored n) rfl
      (longNameRun_reviewed n) (longNameFeedback_decodes n) (longNameFeedback_refused n hn)
    have hmemory : (InMemoryRunRepository.call (longNameStore n)
        (.submitFeedback (RunId.new fun _ => Fin.last 15) goodFeedback (letters (n + 1)) 20)).2 =
          .ok (.feedback (longNameFeedback n)) := by
      have hlookup : (longNameStore n).runs.lookup (RunId.new fun _ => Fin.last 15) = some (longNameRun n) := longNameStore_stored n
      simp only [InMemoryRunRepository.call, hlookup, longNameRun_reviewed]
      rfl
    intro he
    have htwo := congrArg (fun outcomes => outcomes[1]?) he
    simp only [longNameCalls, reviewCalls, List.take_succ_cons, List.take_zero, postgresCalls, memoryCalls, longNameStore_eq,
      hsecond, hmemory, List.getElem?_cons_succ, List.getElem?_cons_zero] at htwo
    cases htwo

end

/-- A submission by a subject with a name of 16385 letters: the dictionaries take it, the table
    does not. -/
theorem long_name_apart :
    (∀ call ∈ longNameCalls 16385, call.plain = true) ∧ ((longNameCalls 16385).filterMap RepositoryCall.draws).Nodup ∧
    Along Decodes InMemory.empty (longNameCalls 16385) ∧
    (postgresCalls tableLimits Tables.empty (longNameCalls 16385)).2 ≠ (memoryCalls InMemory.empty (longNameCalls 16385)).2 :=
  longNameCalls_apart 16384 le_rfl

end DataNexus.Control
