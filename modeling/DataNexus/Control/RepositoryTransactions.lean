/-
  DataNexus.Control.RepositoryTransactions — many calls of the Postgres repository at once.

  A session is one call in its transaction, named by its scope and a number. A statement runs
  on the committed tables, or waits: a `FOR UPDATE` for the session that has its row locked, an
  insert for the session that has inserted a row with its run id or its request key. A commit
  writes what the transaction holds. A session can fail at any point; a commit can go through
  and its answer be lost. `log` lists the commits that changed a run's record.

  What a session holds is true of the tables as long as it holds it (`Session.Holds`): the
  record it has read is the committed one, and nobody else has its row locked (`Sound`).
-/

import DataNexus.Control.Repositories

namespace DataNexus.Control

open Lib RunTransitions PostgresRunRepository

/-! ## Sessions -/

abbrev CallKey := Scope × Nat

structure Session where
  number : Nat
  access : Option TrustedAccess
  call : RepositoryCall
  phase : CallPhase

namespace Session

def key (s : Session) : CallKey := (scopeOf s.access, s.number)

/-- The row it has locked. -/
def lock (s : Session) : Option String :=
  match s.phase with
  | .locked _ | .acted _ _ => some (lockId s.call)
  | .ready (.held id) _ | .ready (.write id _ _) _ => some id
  | _ => none

/-- The row it has inserted. -/
def inserted (s : Session) : Option RunRow :=
  match s.phase with
  | .ready (.insert row) _ => some row
  | _ => none

/-- The row that its next statement finds and locks. -/
def wanted (s : Session) (t : Tables) : Option String :=
  match s.phase, s.call with
  | .conflicted, .create request subject _ _ =>
    (t.selectKey (scopeOf s.access) (subjectOf s.access subject) request.clientRequestId).map (·.runId)
  | .authorized, call => (call.transition s.access).bind fun x => (t.selectRun (scopeOf s.access) x.1).map (·.runId)
  | _, _ => none

/-- The row that its next statement inserts. -/
def inserting (s : Session) : Option RunRow :=
  match s.phase, s.call with
  | .authorized, .create request subject id now => some (newRow s.access (newRun s.access request subject id now))
  | _, _ => none

def finished (s : Session) : Bool :=
  match s.phase with
  | .ended _ => true
  | _ => false

end Session

/-- Two rows that one of the unique indexes of `control_runs` takes for the same. -/
def sameKey (a b : RunRow) : Bool :=
  decide (a.runId = b.runId ∨ (a.scope = b.scope ∧ a.subject = b.subject ∧ a.clientRequestId = b.clientRequestId))

def waits (t : Tables) (sessions : List Session) (s : Session) : Bool :=
  ((s.wanted t).any fun id => sessions.any fun other => other.lock == some id) ||
    (s.inserting.any fun row => sessions.any fun other => other.inserted.any (sameKey row))

/-! ## Commits -/

/-- A commit that changed the record of a run. -/
structure Commit where
  author : CallKey
  access : Option TrustedAccess
  call : RepositoryCall
  runId : String
  run : RunMetadata
  feedback : Option RunFeedback

def Effect.runId : Effect → Option String
  | .none | .held _ => Option.none
  | .insert row => some row.runId
  | .write id _ _ => some id

def RepositoryValue.submitted : RepositoryValue → Option RunFeedback
  | .feedback item => some item
  | _ => none

/-- One entry more, if the record of the run is not what it was. -/
def record (log : List Commit) (author : CallKey) (access : Option TrustedAccess) (call : RepositoryCall) (id : String)
    (before after : Option RunMetadata) (feedback : Option RunFeedback) : List Commit :=
  match after with
  | none => log
  | some run => if before = some run then log else log ++ [⟨author, access, call, id, run, feedback⟩]

def Tables.stored (t : Tables) (id : String) : Option RunMetadata := (t.runs.find? (·.runId = id)).map (·.metadata)

def Tables.submissions (t : Tables) (id : String) : List (String × RunFeedback) :=
  (t.feedback.filter (·.runId = id)).map fun row => (row.submissionId, row.feedback)

/-! ## Steps -/

structure Cluster where
  tables : Tables
  sessions : List Session
  log : List Commit

def Cluster.empty : Cluster := ⟨Tables.empty, [], []⟩

inductive TransactionEvent where
  | start (number : Nat) (access : Option TrustedAccess) (call : RepositoryCall)
  | statement (key : CallKey) (authorized : Bool)
  | commit (key : CallKey) (unexpired answered : Bool)
  | fail (key : CallKey)
  deriving DecidableEq

namespace Cluster

variable (limits : Limits)

def find (c : Cluster) (key : CallKey) : Option Session := c.sessions.find? (·.key = key)

def move (sessions : List Session) (key : CallKey) (phase : CallPhase) : List Session :=
  sessions.map fun s => if s.key = key then { s with phase := phase } else s

def commit (c : Cluster) (s : Session) (effect : Effect) (value : RepositoryValue) (answered : Bool) : Cluster where
  tables := effect.apply c.tables
  sessions := move c.sessions s.key (.ended (if answered then .ok value else .error .infrastructure))
  log := match effect.runId with
    | none => c.log
    | some id => record c.log s.key s.access s.call id (c.tables.stored id) ((effect.apply c.tables).stored id)
      value.submitted

def step (c : Cluster) : TransactionEvent → Cluster
  | .start number access call =>
    if c.sessions.any (·.key = (scopeOf access, number)) then c
    else { c with sessions := c.sessions ++ [⟨number, access, call, begin access call⟩] }
  | .statement key authorized =>
    match c.find key with
    | none => c
    | some s =>
      if waits c.tables c.sessions s then c
      else { c with sessions := move c.sessions key (advance limits c.tables s.access s.call authorized s.phase) }
  | .commit key unexpired answered =>
    match c.find key with
    | none => c
    | some s =>
      match s.phase with
      | .ready effect value =>
        -- `EnsureUnexpired` before the commit.
        if s.access.isSome && !unexpired then { c with sessions := move c.sessions key (.ended (.error .accessDenied)) }
        else c.commit s effect value answered
      | _ => c
  | .fail key =>
    match c.find key with
    | none => c
    | some s =>
      if s.finished then c else { c with sessions := move c.sessions key (.ended (.error .infrastructure)) }

def run (events : List TransactionEvent) : Cluster := events.foldl (step limits) empty

theorem run_concat (events : List TransactionEvent) (event : TransactionEvent) :
    run limits (events ++ [event]) = step limits (run limits events) event := by
  rw [run, List.foldl_append]
  rfl

end Cluster

/-! ## What a session holds -/

/-- The row of the run is committed with this record, in the session's scope. -/
def Session.Read (t : Tables) (s : Session) (id : String) (current : RunMetadata) : Prop :=
  ∃ row ∈ t.runs, row.runId = id ∧ row.scope = scopeOf s.access ∧ row.metadata = current

/-- What the action of a call can have made of the record: nothing, or the result of the call's
    transition, with a new submission if it is a feedback call. -/
def Made (t : Tables) (access : Option TrustedAccess) (call : RepositoryCall) (current : RunMetadata) (w : Write) : Prop :=
  (w.run = current ∧ w.feedback = none) ∨
  (∃ transition, call.transition access = some (lockId call, transition) ∧ transition.apply current = .ok w.run ∧
    w.run.version = current.version + 1 ∧ w.value.submitted = w.feedback ∧
    ∀ item, w.feedback = some item → item.runId = current.id ∧ item.runVersion = w.run.version ∧
      item.submissionId ∉ (t.submissions (lockId call)).map (·.1))

def Session.Holds (t : Tables) (s : Session) : Prop :=
  match s.phase with
  | .locked current => s.Read t (lockId s.call) current
  | .acted current w => s.Read t (lockId s.call) current ∧ Made t s.access s.call current w
  | .ready (.write id current w) value =>
    id = lockId s.call ∧ value = w.value ∧ s.Read t (lockId s.call) current ∧ Made t s.access s.call current w
  | .ready (.held id) _ => ∃ current, s.Read t id current
  | .ready (.insert row) value =>
    (∃ request subject id now, s.call = .create request subject id now ∧
      row = newRow s.access (newRun s.access request subject id now) ∧
      value = .created ⟨newRun s.access request subject id now, true⟩) ∧ row.runId ∉ t.runs.map (·.runId)
  | _ => True

structure Sound (c : Cluster) : Prop where
  keys : (c.sessions.map Session.key).Nodup
  rowIds : (c.tables.runs.map (·.runId)).Nodup
  rows : ∀ row ∈ c.tables.runs, row.metadata.id = row.runId ∧ row.metadata.version = row.version
  holds : ∀ s ∈ c.sessions, s.Holds c.tables
  locks : ∀ s ∈ c.sessions, ∀ s' ∈ c.sessions, ∀ id, s.lock = some id → s'.lock = some id → s.key = s'.key
  inserts : ∀ s ∈ c.sessions, ∀ s' ∈ c.sessions, ∀ row row', s.inserted = some row → s'.inserted = some row' →
    row.runId = row'.runId → s.key = s'.key

/-! ## The tables after a commit -/

namespace Tables

/-- With one row a run, the row of a run is the one that is found. -/
theorem stored_of_mem {t : Tables} (h : (t.runs.map (·.runId)).Nodup) {row : RunRow} (hrow : row ∈ t.runs) :
    t.stored row.runId = some row.metadata := by
  obtain ⟨found, hfound⟩ : ∃ found, t.runs.find? (·.runId = row.runId) = some found := by
    rw [← Option.isSome_iff_exists, List.find?_isSome]
    exact ⟨row, hrow, by simp⟩
  have hid : found.runId = row.runId := by simpa using List.find?_some hfound
  have he : found = row := List.inj_on_of_nodup_map h (List.mem_of_find?_eq_some hfound) hrow hid
  rw [stored, hfound, he]
  rfl

theorem stored_eq_none {t : Tables} {id : String} : t.stored id = none ↔ id ∉ t.runs.map (·.runId) := by
  simp only [stored, Option.map_eq_none_iff, List.find?_eq_none, List.mem_map, not_exists, not_and, decide_eq_true_eq]

end Tables

namespace Effect

variable {t : Tables}

theorem runIds_write (id : String) (current : RunMetadata) (w : Write) :
    ((Effect.write id current w).apply t).runs.map (·.runId) = t.runs.map (·.runId) := by
  simp only [Effect.apply]
  split
  · rfl
  · rw [List.map_map]
    refine List.map_congr_left fun row _ => ?_
    simp only [Function.comp_apply]
    split <;> rfl

theorem stored_insert {row : RunRow} (h : row.runId ∉ t.runs.map (·.runId)) (id : String) :
    ((Effect.insert row).apply t).stored id = if id = row.runId then some row.metadata else t.stored id := by
  simp only [Effect.apply, Tables.stored, List.find?_append]
  by_cases hid : id = row.runId
  · subst hid
    have hnone : t.runs.find? (·.runId = row.runId) = Option.none := by
      simpa [Tables.stored] using Tables.stored_eq_none.mpr h
    rw [hnone]
    simp
  · have hne : ¬ row.runId = id := fun e => hid e.symm
    simp [hid, hne]

theorem stored_write (hrows : ∀ row ∈ t.runs, row.metadata.version = row.version) {id : String} {current : RunMetadata}
    (h : t.stored id = some current) (w : Write) (id' : String) :
    ((Effect.write id current w).apply t).stored id' = if id' = id then some w.run else t.stored id' := by
  by_cases hsame : w.run = current
  · have hruns : ((Effect.write id current w).apply t).runs = t.runs := by simp [Effect.apply, hsame]
    rw [Tables.stored, hruns, ← Tables.stored]
    split
    · rename_i he
      rw [he, h, hsame]
    · rfl
  simp only [Effect.apply, hsame, if_false, Tables.stored, List.find?_map, Option.map_map]
  have hpred : ((fun row : RunRow => decide (row.runId = id')) ∘ fun row : RunRow =>
      if row.runId = id ∧ row.version = current.version then { row with version := w.run.version, metadata := w.run }
      else row) = fun row => decide (row.runId = id') := by
    funext row
    simp only [Function.comp_apply]
    split <;> rfl
  rw [hpred]
  cases hfind : t.runs.find? (·.runId = id') with
  | none =>
    have hne : ¬ id' = id := by
      intro he
      rw [← he, Tables.stored, hfind] at h
      cases h
    simp [hne]
  | some row =>
    have hid : row.runId = id' := by simpa using List.find?_some hfind
    by_cases he : id' = id
    · subst he
      have hcurrent : row.metadata = current := by simpa [Tables.stored, hfind] using h
      have hversion : row.version = current.version := by
        rw [← hcurrent, hrows row (List.mem_of_find?_eq_some hfind)]
      simp [hid, hversion]
    · simp [hid, he]

theorem submissions_insert (row : RunRow) (id : String) :
    ((Effect.insert row).apply t).submissions id = t.submissions id := rfl

theorem submissions_write (id : String) (current : RunMetadata) (w : Write) (id' : String) :
    ((Effect.write id current w).apply t).submissions id' =
      t.submissions id' ++ if id' = id then (w.feedback.map fun item => (item.submissionId, item)).toList else [] := by
  simp only [Effect.apply, Tables.submissions, List.filter_append, List.map_append]
  congr 1
  cases w.feedback with
  | none => simp
  | some item =>
    by_cases he : id' = id
    · simp [he]
    · have hne : ¬ id = id' := fun e => he e.symm
      simp [he, hne]

end Effect

/-! ## What a statement does -/

theorem selectRun_mem {t : Tables} {scope : Scope} {id : String} {row : RunRow} (h : t.selectRun scope id = some row) :
    row ∈ t.runs ∧ row.runId = id ∧ row.scope = scope := by
  have hmatch := List.find?_some h
  simp only [decide_eq_true_eq] at hmatch
  exact ⟨List.mem_of_find?_eq_some h, hmatch⟩

theorem selectKey_mem {t : Tables} {scope : Scope} {subject request : String} {row : RunRow}
    (h : t.selectKey scope subject request = some row) :
    row ∈ t.runs ∧ row.subject = subject ∧ row.clientRequestId = request ∧ row.scope = scope := by
  have hmatch := List.find?_some h
  simp only [decide_eq_true_eq] at hmatch
  exact ⟨List.mem_of_find?_eq_some h, hmatch⟩

theorem transition_lockId {access : Option TrustedAccess} {call : RepositoryCall} {id : String} {tr : Transition}
    (h : call.transition access = some (id, tr)) : id = lockId call := by
  cases call <;> simp_all [RepositoryCall.transition, lockId]

/-- The version a call was told is the one its transition was told. -/
theorem transition_expected {access : Option TrustedAccess} {call : RepositoryCall} {id : String} {tr : Transition}
    (h : call.transition access = some (id, tr)) : tr.expected = call.expectedVersion := by
  cases call <;> simp only [RepositoryCall.transition, Option.some.injEq, Prod.mk.injEq, reduceCtorEq] at h
  all_goals
    obtain ⟨rfl, rfl⟩ := h
    rfl

theorem transit_made {t : Tables} {access : Option TrustedAccess} {call : RepositoryCall} {current : RunMetadata}
    {transition : Transition} {w : Write} (h : transit current transition = .ok w)
    (ht : call.transition access = some (lockId call, transition)) : Made t access call current w := by
  simp only [transit] at h
  split at h
  · rename_i run hrun
    obtain rfl : w = _ := (Except.ok.inj h).symm
    rcases apply_changes hrun with he | ⟨hv, -⟩
    · exact .inl ⟨he, rfl⟩
    · exact .inr ⟨transition, ht, hrun, hv, rfl, fun item hitem => by cases hitem⟩
  · cases h

theorem submissions_find_none {t : Tables} {id submission : String}
    (h : (t.feedback.find? fun row => row.runId = id ∧ row.submissionId = submission) = none) :
    submission ∉ (t.submissions id).map (·.1) := by
  intro hmem
  simp only [Tables.submissions, List.map_map, List.mem_map, List.mem_filter, decide_eq_true_eq, Function.comp_apply] at hmem
  obtain ⟨row, ⟨hrow, hid⟩, hsub⟩ := hmem
  have hno := List.find?_eq_none.mp h row hrow
  simp [hid, hsub] at hno

theorem action_made {limits : Limits} {t : Tables} {access : Option TrustedAccess} {call : RepositoryCall}
    {current : RunMetadata} {w : Write} (h : action limits t access current call = .ok w) :
    Made t access call current w := by
  cases call with
  | applySemanticStatus id expected status now => exact transit_made h rfl
  | markFailed id code message now => exact transit_made h rfl
  | markStartDispatchUnknown id code now => exact transit_made h rfl
  | markCancellationDelivered id generation now => exact transit_made h rfl
  | requestCancellation id expected now =>
    simp only [action] at h
    split at h
    · rename_i result hresult
      obtain rfl : w = _ := (Except.ok.inj h).symm
      have happly : (Transition.cancel expected now).apply current = .ok result.run := by
        simp [Transition.apply, hresult]
      rcases apply_changes happly with he | ⟨hv, -⟩
      · exact .inl ⟨he, rfl⟩
      · exact .inr ⟨_, rfl, happly, hv, rfl, fun item hitem => by cases hitem⟩
    · cases h
  | finalizeCancellationWithoutBackend id version generation now =>
    simp only [action] at h
    split at h
    · cases h
    · exact transit_made h rfl
  | claimStart id now =>
    simp only [action] at h
    split at h
    · obtain rfl : w = _ := (Except.ok.inj h).symm
      exact .inl ⟨rfl, rfl⟩
    · split at h
      · rename_i updated hupdated
        obtain rfl : w = _ := (Except.ok.inj h).symm
        have happly : (Transition.dispatchUnknown "durable_start_dispatch_claimed" now).apply current = .ok updated := hupdated
        rcases apply_changes happly with he | ⟨hv, -⟩
        · exact .inl ⟨he, rfl⟩
        · exact .inr ⟨_, rfl, happly, hv, rfl, fun item hitem => by cases hitem⟩
      · cases h
  | submitFeedback id request subject now =>
    simp only [action] at h
    split at h
    · split at h
      · obtain rfl : w = _ := (Except.ok.inj h).symm
        exact .inl ⟨rfl, rfl⟩
      · cases h
    · rename_i hnone
      split at h
      · cases h
      · rename_i run item hfeedback
        split at h
        · cases h
        · split at h
          · obtain rfl : w = _ := (Except.ok.inj h).symm
            have happly : (Transition.feedback request (subjectOf access subject) now).apply current = .ok run := by
              simp [Transition.apply, hfeedback]
            simp only [RunTransitions.feedback, bind_eq_ok, checkedSucc_eq_ok, pure_eq_ok, Prod.mk.injEq] at hfeedback
            obtain ⟨_, -, _, ⟨-, rfl⟩, rfl, rfl⟩ := hfeedback
            refine .inr ⟨_, rfl, happly, rfl, rfl, ?_⟩
            intro item' hitem
            obtain rfl := Option.some.inj hitem
            exact ⟨rfl, rfl, submissions_find_none hnone⟩
          · cases h
  | create request subject id now => cases h
  | get id => cases h
  | list limit => cases h
  | getFeedback id => cases h
  | getStatistics => cases h

/-- A phase in which a session has locked and inserted nothing. -/
def CallPhase.idle : CallPhase → Bool
  | .locked _ | .acted _ _ | .ready (.held _) _ | .ready (.insert _) _ | .ready (.write _ _ _) _ => false
  | _ => true

theorem answer_idle {T : Type} (value : T → RepositoryValue) (x : Except RepositoryError T) :
    (answer value x).idle = true := by
  cases x <;> rfl

theorem first_transition (limits : Limits) (t : Tables) {access : Option TrustedAccess} {call : RepositoryCall} {id : String}
    {tr : Transition} (h : call.transition access = some (id, tr)) :
    first limits t access call = (match t.selectRun (scopeOf access) id with
      | none => .ended (.error (.thrown .runNotFound))
      | some row =>
        match readRun row.metadata id with
        | .ok current => .locked current
        | .error error => .ended (.error (.thrown error))) := by
  cases call <;> simp only [RepositoryCall.transition, Option.some.injEq, Prod.mk.injEq, reduceCtorEq] at h
  all_goals
    obtain ⟨rfl, -⟩ := h
    rfl

/-- The first statement locks the row it finds, inserts the row of a create, or does neither. -/
theorem first_cases (limits : Limits) (t : Tables) (access : Option TrustedAccess) (call : RepositoryCall) :
    (first limits t access call).idle = true ∨
    (∃ current row transition, first limits t access call = .locked current ∧
      call.transition access = some (lockId call, transition) ∧
      t.selectRun (scopeOf access) (lockId call) = some row ∧ row.metadata = current) ∨
    (∃ request subject id now, call = .create request subject id now ∧ id ∉ t.runs.map (·.runId) ∧
      first limits t access call = .ready (.insert (newRow access (newRun access request subject id now)))
        (.created ⟨newRun access request subject id now, true⟩)) := by
  cases htr : call.transition access with
  | some x =>
    obtain ⟨id, tr⟩ := x
    obtain rfl := transition_lockId htr
    rw [first_transition limits t htr]
    cases hrow : t.selectRun (scopeOf access) (lockId call) with
    | none => exact .inl rfl
    | some row =>
      dsimp only
      cases hread : readRun row.metadata (lockId call) with
      | error e => exact .inl rfl
      | ok current =>
        exact .inr (.inl ⟨current, row, tr, rfl, rfl, rfl, (readRun_eq_ok hread).symm⟩)
  | none =>
    cases call <;> simp only [RepositoryCall.transition, reduceCtorEq] at htr
    case create request subject id now =>
      simp only [first]
      split
      · exact .inl rfl
      split
      · exact .inl rfl
      split
      · exact .inl rfl
      · rename_i hfresh
        refine .inr (.inr ⟨request, subject, id, now, rfl, ?_, rfl⟩)
        intro hmem
        obtain ⟨row, hrow, he⟩ := List.mem_map.mp hmem
        exact hfresh (List.any_eq_true.mpr ⟨row, hrow, by simpa using he⟩)
    case get id => exact .inl (answer_idle _ _)
    case list limit => exact .inl (answer_idle _ _)
    case getFeedback id =>
      simp only [first]
      split <;> exact .inl rfl
    case getStatistics => exact .inl (answer_idle _ _)

/-- The row that a session's next statement leaves locked, the row it leaves inserted, and that
    what it then holds is true of the tables. -/
structure Advances (t : Tables) (s s' : Session) : Prop where
  same : s'.key = s.key ∧ s'.access = s.access ∧ s'.call = s.call
  holds : s'.Holds t
  lock : ∀ id, s'.lock = some id → s.lock = some id ∨ s.wanted t = some id
  inserted : ∀ row, s'.inserted = some row → s.inserted = some row ∨ s.inserting = some row

theorem idle_holds {t : Tables} {s : Session} (h : s.phase.idle = true) : s.Holds t := by
  unfold Session.Holds
  split <;> simp_all [CallPhase.idle]

theorem idle_lock {s : Session} (h : s.phase.idle = true) : s.lock = none := by
  unfold Session.lock
  split <;> simp_all [CallPhase.idle]

theorem idle_inserted {s : Session} (h : s.phase.idle = true) : s.inserted = none := by
  unfold Session.inserted
  split <;> simp_all [CallPhase.idle]

theorem advances_of_idle {t : Tables} {s : Session} {phase : CallPhase} (h : phase.idle = true) :
    Advances t s { s with phase := phase } := by
  refine ⟨⟨rfl, rfl, rfl⟩, idle_holds h, ?_, ?_⟩
  · intro id hid
    rw [idle_lock h] at hid
    cases hid
  · intro row hrow
    rw [idle_inserted h] at hrow
    cases hrow

theorem advances_first (limits : Limits) (t : Tables) (s : Session) (h : s.phase = .authorized) :
    Advances t s { s with phase := first limits t s.access s.call } := by
  rcases first_cases limits t s.access s.call with hidle | ⟨current, row, tr, hp, htr, hrow, hcur⟩ |
      ⟨request, subject, id, now, hcall, hfresh, hp⟩
  · exact advances_of_idle hidle
  · obtain ⟨hmem, hid, hscope⟩ := selectRun_mem hrow
    rw [hp]
    refine ⟨⟨rfl, rfl, rfl⟩, ⟨row, hmem, hid, hscope, hcur⟩, ?_, fun row h => nomatch h⟩
    intro id' hid'
    have hwanted : s.wanted t = some (lockId s.call) := by
      simp only [Session.wanted, h, htr]
      simp [hrow, hid]
    exact .inr (hwanted.trans hid')
  · rw [hp]
    refine ⟨⟨rfl, rfl, rfl⟩, ⟨⟨request, subject, id, now, hcall, rfl, rfl⟩, hfresh⟩, fun id h => (nomatch h), ?_⟩
    intro row hrow
    have hinserting : s.inserting = some (newRow s.access (newRun s.access request subject id now)) := by
      simp only [Session.inserting, h, hcall]
    exact .inr (hinserting.trans hrow)

theorem advances (limits : Limits) (t : Tables) (s : Session) (authorized : Bool) (h : s.Holds t) :
    Advances t s { s with phase := advance limits t s.access s.call authorized s.phase } := by
  obtain ⟨number, access, call, phase⟩ := s
  cases phase with
  | opened =>
    simp only [advance]
    split <;> exact advances_of_idle rfl
  | authorized => exact advances_first limits t _ rfl
  | conflicted =>
    cases call <;> try exact advances_of_idle rfl
    rename_i request subject id now
    simp only [advance]
    cases hrow : t.selectKey (scopeOf access) (subjectOf access subject) request.clientRequestId with
    | none => exact advances_of_idle rfl
    | some row =>
      obtain ⟨hmem, -, -, hscope⟩ := selectKey_mem hrow
      dsimp only
      split
      · refine ⟨⟨rfl, rfl, rfl⟩, ⟨row.metadata, row, hmem, rfl, hscope, rfl⟩, ?_, fun row h => nomatch h⟩
        intro id' hid'
        have hwanted : Session.wanted ⟨number, access, .create request subject id now, .conflicted⟩ t = some row.runId := by
          simp [Session.wanted, hrow]
        exact .inr (hwanted.trans hid')
      · exact advances_of_idle rfl
  | checked =>
    cases call <;> try exact advances_of_idle rfl
    exact advances_of_idle (answer_idle _ _)
  | locked current =>
    simp only [advance]
    split
    · exact advances_of_idle rfl
    split
    · rename_i w hw
      exact ⟨⟨rfl, rfl, rfl⟩, ⟨h, action_made hw⟩, fun id hid => .inl hid, fun row h => nomatch h⟩
    · exact advances_of_idle rfl
  | acted current w =>
    simp only [advance, update]
    have hready : Advances t ⟨number, access, call, .acted current w⟩
        ⟨number, access, call, .ready (.write (lockId call) current w) w.value⟩ :=
      ⟨⟨rfl, rfl, rfl⟩, ⟨rfl, rfl, h⟩, fun id hid => .inl hid, fun row h => nomatch h⟩
    split
    · exact hready
    split
    · exact advances_of_idle rfl
    split
    · exact advances_of_idle rfl
    split
    · exact hready
    · exact advances_of_idle rfl
  | ready effect value => exact ⟨⟨rfl, rfl, rfl⟩, h, fun id hid => .inl hid, fun row hrow => .inl hrow⟩
  | ended outcome => exact ⟨⟨rfl, rfl, rfl⟩, h, fun id hid => .inl hid, fun row hrow => .inl hrow⟩

/-! ## A commit beside an open session -/

theorem Made.frame {t t' : Tables} {access : Option TrustedAccess} {call : RepositoryCall} {current : RunMetadata}
    {w : Write} (h : Made t access call current w) (hs : t'.submissions (lockId call) = t.submissions (lockId call)) :
    Made t' access call current w := by
  rcases h with h | ⟨tr, htr, happly, hv, hvalue, hitem⟩
  · exact .inl h
  · exact .inr ⟨tr, htr, happly, hv, hvalue, by rw [hs]; exact hitem⟩

theorem Session.Read.insert {t : Tables} {s : Session} {id : String} {current : RunMetadata} (h : s.Read t id current)
    (row : RunRow) : s.Read ((Effect.insert row).apply t) id current := by
  obtain ⟨old, hold, hrest⟩ := h
  exact ⟨old, List.mem_append_left _ hold, hrest⟩

theorem Session.Read.write {t : Tables} {s : Session} {id id' : String} {current : RunMetadata}
    (h : s.Read t id current) (hne : id ≠ id') (before : RunMetadata) (w : Write) :
    s.Read ((Effect.write id' before w).apply t) id current := by
  obtain ⟨old, hold, hid, hrest⟩ := h
  refine ⟨old, ?_, hid, hrest⟩
  simp only [Effect.apply]
  split
  · exact hold
  · refine List.mem_map.mpr ⟨old, hold, if_neg ?_⟩
    intro he
    exact hne (hid.symm.trans he.1)

theorem Session.Holds.insert {t : Tables} {s : Session} (h : s.Holds t) {row : RunRow}
    (hne : ∀ row', s.inserted = some row' → row'.runId ≠ row.runId) : s.Holds ((Effect.insert row).apply t) := by
  obtain ⟨number, access, call, phase⟩ := s
  cases phase with
  | locked current => exact Session.Read.insert h row
  | acted current w => exact ⟨h.1.insert row, h.2.frame rfl⟩
  | ready effect value =>
    cases effect with
    | none => trivial
    | held id =>
      obtain ⟨current, hread⟩ := h
      exact ⟨current, hread.insert row⟩
    | insert mine =>
      refine ⟨h.1, ?_⟩
      intro hmem
      rcases List.mem_append.mp (List.map_append ▸ hmem) with hmem | hmem
      · exact h.2 hmem
      · exact hne mine rfl (by simpa using hmem)
    | write id current w => exact ⟨h.1, h.2.1, h.2.2.1.insert row, h.2.2.2.frame rfl⟩
  | _ => trivial

theorem Session.Holds.write {t : Tables} {s : Session} (h : s.Holds t) {id : String} (hne : s.lock ≠ some id)
    (before : RunMetadata) (w : Write) : s.Holds ((Effect.write id before w).apply t) := by
  obtain ⟨number, access, call, phase⟩ := s
  have hsub : ∀ id', id' ≠ id → ((Effect.write id before w).apply t).submissions id' = t.submissions id' := by
    intro id' hid'
    rw [Effect.submissions_write, if_neg hid', List.append_nil]
  cases phase with
  | locked current => exact Session.Read.write h (fun he => hne (congrArg some he)) before w
  | acted current mine =>
    have hid : lockId call ≠ id := fun he => hne (congrArg some he)
    exact ⟨h.1.write hid before w, h.2.frame (hsub _ hid)⟩
  | ready effect value =>
    cases effect with
    | none => trivial
    | held id' =>
      obtain ⟨current, hread⟩ := h
      exact ⟨current, hread.write (fun he => hne (congrArg some he)) before w⟩
    | insert mine => exact ⟨h.1, by rw [Effect.runIds_write]; exact h.2⟩
    | write id' current mine =>
      obtain ⟨he, hvalue, hread, hmade⟩ := h
      have hid : lockId call ≠ id := fun e => hne (congrArg some (he.trans e))
      exact ⟨he, hvalue, hread.write hid before w, hmade.frame (hsub _ hid)⟩
  | _ => trivial

/-! ## Every reachable state is sound -/

namespace Cluster

variable {limits : Limits} {c : Cluster} {key : CallKey} {s : Session}

theorem find_mem (h : c.find key = some s) : s ∈ c.sessions ∧ s.key = key :=
  ⟨List.mem_of_find?_eq_some h, by simpa using List.find?_some h⟩

theorem move_keys (sessions : List Session) (key : CallKey) (phase : CallPhase) :
    (move sessions key phase).map Session.key = sessions.map Session.key := by
  rw [move, List.map_map]
  refine List.map_congr_left fun s _ => ?_
  simp only [Function.comp_apply]
  split <;> rfl

/-- A session after a move is the moved one or another one as it was. -/
theorem mem_move (hkeys : (c.sessions.map Session.key).Nodup) (h : c.find key = some s) {phase : CallPhase} {s' : Session}
    (hs : s' ∈ move c.sessions key phase) : s' = { s with phase := phase } ∨ (s' ∈ c.sessions ∧ s'.key ≠ key) := by
  obtain ⟨old, hold, rfl⟩ := List.mem_map.mp hs
  obtain ⟨hmem, hkey⟩ := find_mem h
  by_cases he : old.key = key
  · obtain rfl : old = s := List.inj_on_of_nodup_map hkeys hold hmem (he.trans hkey.symm)
    exact .inl (if_pos he)
  · refine .inr ⟨?_, ?_⟩
    · rw [if_neg he]
      exact hold
    · rw [if_neg he]
      exact he

theorem moved_mem (h : c.find key = some s) (phase : CallPhase) :
    { s with phase := phase } ∈ move c.sessions key phase := by
  obtain ⟨hmem, hkey⟩ := find_mem h
  exact List.mem_map.mpr ⟨s, hmem, if_pos hkey⟩

theorem mem_move_of_ne {s' : Session} (hs : s' ∈ c.sessions) (hne : s'.key ≠ key) (phase : CallPhase) :
    s' ∈ move c.sessions key phase :=
  List.mem_map.mpr ⟨s', hs, if_neg hne⟩

theorem not_waits (h : waits c.tables c.sessions s = false) :
    (∀ id, s.wanted c.tables = some id → ∀ other ∈ c.sessions, other.lock ≠ some id) ∧
    (∀ row, s.inserting = some row → ∀ other ∈ c.sessions, ∀ row', other.inserted = some row' → row.runId ≠ row'.runId) := by
  simp only [waits, Bool.or_eq_false_iff] at h
  refine ⟨?_, ?_⟩
  · intro id hid other hother he
    have hno := h.1
    rw [hid] at hno
    simp only [Option.any_some, List.any_eq_false] at hno
    exact hno other hother (by simp [he])
  · intro row hrow other hother row' hrow' he
    have hno := h.2
    rw [hrow] at hno
    simp only [Option.any_some, List.any_eq_false] at hno
    exact hno other hother (by simp [hrow', sameKey, he])

/-- A session goes on, with the tables as they are. -/
theorem sound_move (h : Sound c) (hfind : c.find key = some s) {phase : CallPhase}
    (hholds : Session.Holds c.tables { s with phase := phase })
    (hlock : ∀ id, Session.lock { s with phase := phase } = some id →
      s.lock = some id ∨ ∀ other ∈ c.sessions, other.lock ≠ some id)
    (hins : ∀ row, Session.inserted { s with phase := phase } = some row →
      s.inserted = some row ∨ ∀ other ∈ c.sessions, ∀ row', other.inserted = some row' → row.runId ≠ row'.runId) :
    Sound { c with sessions := move c.sessions key phase } := by
  obtain ⟨hmem, hkey⟩ := find_mem hfind
  have hfree : ∀ other ∈ c.sessions, ∀ id, other.lock = some id → Session.lock { s with phase := phase } = some id →
      other.key = s.key := by
    intro other hother id ho hl
    rcases hlock id hl with hl | hl
    · exact h.locks other hother s hmem id ho hl
    · exact absurd ho (hl other hother)
  have hfree' : ∀ other ∈ c.sessions, ∀ row row', other.inserted = some row →
      Session.inserted { s with phase := phase } = some row' → row.runId = row'.runId → other.key = s.key := by
    intro other hother row row' ho hi he
    rcases hins row' hi with hi | hi
    · exact h.inserts other hother s hmem row row' ho hi he
    · exact absurd he.symm (hi other hother row ho)
  refine ⟨by rw [move_keys]; exact h.keys, h.rowIds, h.rows, ?_, ?_, ?_⟩
  · intro s' hs'
    rcases mem_move h.keys hfind hs' with rfl | ⟨hold, -⟩
    · exact hholds
    · exact h.holds s' hold
  · intro a ha b hb id hla hlb
    rcases mem_move h.keys hfind ha with rfl | ⟨hola, hna⟩ <;> rcases mem_move h.keys hfind hb with rfl | ⟨holb, hnb⟩
    · rfl
    · exact absurd ((hfree b holb id hlb hla).trans hkey) hnb
    · exact absurd ((hfree a hola id hla hlb).trans hkey) hna
    · exact h.locks a hola b holb id hla hlb
  · intro a ha b hb row row' hia hib he
    rcases mem_move h.keys hfind ha with rfl | ⟨hola, hna⟩ <;> rcases mem_move h.keys hfind hb with rfl | ⟨holb, hnb⟩
    · rfl
    · exact absurd ((hfree' b holb row' row hib hia he.symm).trans hkey) hnb
    · exact absurd ((hfree' a hola row row' hia hib he).trans hkey) hna
    · exact h.inserts a hola b holb row row' hia hib he

theorem sound_idle (h : Sound c) (hfind : c.find key = some s) {phase : CallPhase} (hidle : phase.idle = true) :
    Sound { c with sessions := move c.sessions key phase } := by
  refine sound_move h hfind (idle_holds hidle) ?_ ?_
  · intro id hid
    rw [idle_lock (s := { s with phase := phase }) hidle] at hid
    cases hid
  · intro row hrow
    rw [idle_inserted (s := { s with phase := phase }) hidle] at hrow
    cases hrow

theorem sound_statement (h : Sound c) (hfind : c.find key = some s) (authorized : Bool)
    (hfree : waits c.tables c.sessions s = false) :
    Sound { c with sessions := move c.sessions key (advance limits c.tables s.access s.call authorized s.phase) } := by
  obtain ⟨hlock, hins⟩ := not_waits hfree
  have ha := advances limits c.tables s authorized (h.holds s (find_mem hfind).1)
  refine sound_move h hfind ha.holds ?_ ?_
  · intro id hid
    exact (ha.lock id hid).imp_right (hlock id)
  · intro row hrow
    exact (ha.inserted row hrow).imp_right (hins row)

theorem begin_idle (access : Option TrustedAccess) (call : RepositoryCall) : (begin access call).idle = true := by
  unfold begin
  split
  · split <;> simp only [CallPhase.idle]
  · split <;> simp only [CallPhase.idle]
  · simp only [CallPhase.idle]

theorem sound_start (h : Sound c) (number : Nat) (access : Option TrustedAccess) (call : RepositoryCall)
    (hnew : (scopeOf access, number) ∉ c.sessions.map Session.key) :
    Sound { c with sessions := c.sessions ++ [⟨number, access, call, begin access call⟩] } := by
  have hidle : (Session.mk number access call (begin access call)).phase.idle = true := begin_idle access call
  have hmem : ∀ s' ∈ c.sessions ++ [⟨number, access, call, begin access call⟩],
      s' ∈ c.sessions ∨ s' = ⟨number, access, call, begin access call⟩ := by
    intro s' hs'
    simpa using hs'
  refine ⟨?_, h.rowIds, h.rows, ?_, ?_, ?_⟩
  · rw [List.map_append, List.nodup_append]
    refine ⟨h.keys, by simp, ?_⟩
    intro a ha b hb he
    obtain rfl : b = (scopeOf access, number) := by simpa [Session.key] using hb
    exact hnew (he ▸ ha)
  · intro s' hs'
    rcases hmem s' hs' with hs' | rfl
    · exact h.holds s' hs'
    · exact idle_holds hidle
  · intro a ha b hb id hla hlb
    rcases hmem a ha with ha | rfl
    · rcases hmem b hb with hb | rfl
      · exact h.locks a ha b hb id hla hlb
      · rw [idle_lock hidle] at hlb
        cases hlb
    · rw [idle_lock hidle] at hla
      cases hla
  · intro a ha b hb row row' hia hib he
    rcases hmem a ha with ha | rfl
    · rcases hmem b hb with hb | rfl
      · exact h.inserts a ha b hb row row' hia hib he
      · rw [idle_inserted hidle] at hib
        cases hib
    · rw [idle_inserted hidle] at hia
      cases hia

/-- A commit ends its session; the others keep what they hold. -/
theorem sound_commit (h : Sound c) (hfind : c.find key = some s) {effect : Effect} {value : RepositoryValue}
    (hphase : s.phase = .ready effect value) (answered : Bool) : Sound (c.commit s effect value answered) := by
  obtain ⟨hmem, rfl⟩ := find_mem hfind
  have hended : Sound { c with
      sessions := move c.sessions s.key (.ended (if answered then .ok value else .error .infrastructure)) } :=
    sound_idle h hfind rfl
  have hholds := h.holds s hmem
  have hothers : ∀ s' ∈ move c.sessions s.key (.ended (if answered then .ok value else .error .infrastructure)),
      s'.phase.idle = true ∨ (s' ∈ c.sessions ∧ s'.key ≠ s.key) := by
    intro s' hs'
    rcases mem_move h.keys hfind hs' with rfl | hold
    · exact .inl rfl
    · exact .inr hold
  cases effect with
  | none => exact ⟨hended.keys, h.rowIds, h.rows, hended.holds, hended.locks, hended.inserts⟩
  | held id => exact ⟨hended.keys, h.rowIds, h.rows, hended.holds, hended.locks, hended.inserts⟩
  | insert row =>
    simp only [Session.Holds, hphase] at hholds
    obtain ⟨⟨request, subject, id, now, hcall, hrow, -⟩, hfresh⟩ := hholds
    have hinserted : s.inserted = some row := by simp only [Session.inserted, hphase]
    refine ⟨hended.keys, ?_, ?_, ?_, hended.locks, hended.inserts⟩
    · show ((c.tables.runs ++ [row]).map (·.runId)).Nodup
      rw [List.map_append, List.nodup_append]
      refine ⟨h.rowIds, by simp, ?_⟩
      intro a ha b hb he
      obtain rfl : b = row.runId := by simpa using hb
      exact hfresh (he ▸ ha)
    · intro row' hrow'
      rcases List.mem_append.mp hrow' with hold | hnew
      · exact h.rows row' hold
      · obtain rfl : row' = row := by simpa using hnew
        rw [hrow]
        exact ⟨rfl, rfl⟩
    · intro s' hs'
      rcases hothers s' hs' with hidle | ⟨hold, hne⟩
      · exact idle_holds hidle
      · refine (h.holds s' hold).insert ?_
        intro row' hrow' he
        exact hne (h.inserts s' hold s hmem row' row hrow' hinserted he)
  | write id current w =>
    simp only [Session.Holds, hphase] at hholds
    obtain ⟨rfl, -, ⟨found, hfound, hfid, -, rfl⟩, hmade⟩ := hholds
    have hlock : s.lock = some (lockId s.call) := by simp only [Session.lock, hphase]
    refine ⟨hended.keys, ?_, ?_, ?_, hended.locks, hended.inserts⟩
    · show (((Effect.write _ _ _).apply c.tables).runs.map (·.runId)).Nodup
      rw [Effect.runIds_write]
      exact h.rowIds
    · intro row hrow
      have hid : w.run.id = found.runId := by
        rcases hmade with ⟨hsame, -⟩ | ⟨tr, -, happly, -⟩
        · rw [hsame, (h.rows found hfound).1]
        · rw [apply_id happly, (h.rows found hfound).1]
      simp only [commit, Effect.apply] at hrow
      split at hrow
      · exact h.rows row hrow
      obtain ⟨old, hold, rfl⟩ := List.mem_map.mp hrow
      split
      · rename_i hmatch
        exact ⟨hid.trans (hfid.trans hmatch.1.symm), rfl⟩
      · exact h.rows old hold
    · intro s' hs'
      rcases hothers s' hs' with hidle | ⟨hold, hne⟩
      · exact idle_holds hidle
      · refine (h.holds s' hold).write ?_ _ w
        intro he
        exact hne (h.locks s' hold s hmem _ he hlock)

theorem sound_step (h : Sound c) (event : TransactionEvent) : Sound (step limits c event) := by
  cases event with
  | start number access call =>
    simp only [step]
    split
    · exact h
    · rename_i hnew
      refine sound_start h number access call ?_
      intro hmem
      obtain ⟨s, hs, hkey⟩ := List.mem_map.mp hmem
      exact hnew (List.any_eq_true.mpr ⟨s, hs, by simpa using hkey⟩)
  | statement key authorized =>
    simp only [step]
    cases hfind : c.find key with
    | none => exact h
    | some s =>
      dsimp only
      split
      · exact h
      · rename_i hfree
        exact sound_statement h hfind authorized (by simpa using hfree)
  | commit key unexpired answered =>
    simp only [step]
    cases hfind : c.find key with
    | none => exact h
    | some s =>
      dsimp only
      split
      · rename_i effect value hphase
        split
        · exact sound_idle h hfind rfl
        · exact sound_commit h hfind hphase answered
      · exact h
  | fail key =>
    simp only [step]
    cases hfind : c.find key with
    | none => exact h
    | some s =>
      dsimp only
      split
      · exact h
      · exact sound_idle h hfind rfl

theorem finished_advance (t : Tables) (authorized : Bool) (h : s.finished = true) :
    Session.finished { s with phase := advance limits t s.access s.call authorized s.phase } = true := by
  obtain ⟨number, access, call, phase⟩ := s
  cases phase <;> simp_all [Session.finished, advance]

theorem sound_empty : Sound empty := by
  refine ⟨List.nodup_nil, List.nodup_nil, ?_, ?_, ?_, ?_⟩
  · intro row hrow
    cases hrow
  · intro s hs
    cases hs
  · intro s hs
    cases hs
  · intro s hs
    cases hs

theorem sound_run (events : List TransactionEvent) : Sound (run limits events) := by
  induction events using List.reverseRecOn with
  | nil => exact sound_empty
  | append_singleton events event ih =>
    rw [run_concat]
    exact sound_step ih event

end Cluster

end DataNexus.Control
