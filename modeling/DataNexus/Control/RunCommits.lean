/-
  DataNexus.Control.RunCommits — no update of a run is lost.

  The log of a store lists the commits that changed a run's record, each with the call that
  made it. `NoLostUpdate` says what a log can be: the first record of a run is what `Create`
  made, every other one is what the transition of one call made of the record before it, the
  versions of a run count up from one without a gap, no call is in the log twice, and the store
  holds the last record of each run and the feedback of its commits, each submission once.

  It holds of the Postgres repository, whatever its sessions do and however their statements
  interleave, and of the in-memory repository, whatever its calls.
-/

import DataNexus.Control.RepositoryTransactions
import DataNexus.Lib.Chronicle

namespace DataNexus.Control

open Lib RunTransitions PostgresRunRepository

/-! ## Logs -/

def commitsOf (log : List Commit) (id : String) : List Commit := log.filter (·.runId = id)

/-- The last record of a run in a log. -/
def latest (log : List Commit) (id : String) : Option RunMetadata := (commitsOf log id).getLast?.map (·.run)

def submissionOf (c : Commit) : Option (String × RunFeedback) := c.feedback.map fun item => (item.submissionId, item)

/-- 1, 2, …, n. -/
def counting (n : Nat) : List Int := (List.range n).map fun (i : Nat) => (i : Int) + 1

theorem counting_succ (n : Nat) : counting (n + 1) = counting n ++ [(n : Int) + 1] := by
  rw [counting, List.range_succ, List.map_append]
  rfl

/-- A commit on top of the record before it. -/
def Continues (before : Option RunMetadata) (c : Commit) : Prop :=
  match before with
  | none => c.feedback = none ∧ ∃ request subject now, c.call = .create request subject c.runId now ∧
      c.run = create c.runId request (subjectOf c.access subject) now
  | some current => ∃ transition, c.call.transition c.access = some (c.runId, transition) ∧
      transition.apply current = .ok c.run ∧ c.run.version = current.version + 1 ∧
      (∀ v, c.call.expectedVersion = some v → v = current.version) ∧
      ∀ item, c.feedback = some item → item.runId = c.runId ∧ item.runVersion = c.run.version

structure NoLostUpdate (made : CallKey → Option TrustedAccess → RepositoryCall → Prop) (log : List Commit)
    (stored : String → Option RunMetadata) (submissions : String → List (String × RunFeedback)) : Prop where
  chain : Chronicle.Lawful (fun past c => Continues (latest past c.runId) c) log
  versions : ∀ id, (commitsOf log id).map (·.run.version) = counting (commitsOf log id).length
  once : (log.map (·.author)).Nodup
  authors : ∀ c ∈ log, made c.author c.access c.call
  holds : ∀ id, stored id = latest log id
  submitted : ∀ id, submissions id = (commitsOf log id).filterMap submissionOf
  submittedOnce : ∀ id, ((submissions id).map (·.1)).Nodup

/-! ## One step of a store -/

theorem noLostUpdate_nil (made : CallKey → Option TrustedAccess → RepositoryCall → Prop) :
    NoLostUpdate made [] (fun _ => none) fun _ => [] :=
  ⟨Chronicle.lawful_nil, fun _ => rfl, List.nodup_nil, (fun _ hc => nomatch hc), fun _ => rfl, fun _ => rfl,
    fun _ => List.nodup_nil⟩

section

variable {made made' : CallKey → Option TrustedAccess → RepositoryCall → Prop} {log : List Commit}
  {stored stored' : String → Option RunMetadata} {submissions submissions' : String → List (String × RunFeedback)}

theorem noLostUpdate_same (h : NoLostUpdate made log stored submissions)
    (hmade : ∀ key access call, made key access call → made' key access call) (hstored : ∀ id, stored' id = stored id)
    (hsubmissions : ∀ id, submissions' id = submissions id) : NoLostUpdate made' log stored' submissions' := by
  obtain rfl : stored' = stored := funext hstored
  obtain rfl : submissions' = submissions := funext hsubmissions
  exact ⟨h.chain, h.versions, h.once, fun c hc => hmade _ _ _ (h.authors c hc), h.holds, h.submitted, h.submittedOnce⟩

theorem commitsOf_append (log : List Commit) (c : Commit) (id : String) :
    commitsOf (log ++ [c]) id = commitsOf log id ++ if id = c.runId then [c] else [] := by
  rw [commitsOf, List.filter_append, ← commitsOf]
  congr 1
  by_cases h : id = c.runId
  · simp [h]
  · have hne : ¬ c.runId = id := fun e => h e.symm
    simp [h, hne]

theorem latest_append (log : List Commit) (c : Commit) (id : String) :
    latest (log ++ [c]) id = if id = c.runId then some c.run else latest log id := by
  rw [latest, commitsOf_append]
  by_cases h : id = c.runId
  · simp [h]
  · simp [h, latest]

/-- The version of the last record is the number of records. -/
theorem latest_version (hversions : ∀ id, (commitsOf log id).map (·.run.version) = counting (commitsOf log id).length)
    {id : String} {r : RunMetadata} (h : latest log id = some r) : r.version = (commitsOf log id).length := by
  obtain ⟨c, hc, rfl⟩ := Option.map_eq_some_iff.mp h
  have hlast : ((commitsOf log id).map (·.run.version)).getLast? = some c.run.version := by
    rw [List.getLast?_map, hc]
    rfl
  have hpos : 0 < (commitsOf log id).length := by
    rw [List.length_pos_iff]
    intro hnil
    rw [hnil] at hc
    cases hc
  obtain ⟨n, hn⟩ := Nat.exists_eq_succ_of_ne_zero (Nat.pos_iff_ne_zero.mp hpos)
  rw [hversions id, hn, counting_succ, List.getLast?_concat, Option.some.injEq] at hlast
  rw [hn]
  push_cast
  exact hlast.symm

/-- A new entry that continues the stored record, by a call that is not in the log yet. -/
theorem noLostUpdate_commit (h : NoLostUpdate made log stored submissions)
    (hmade : ∀ key access call, made key access call → made' key access call) (c : Commit)
    (hauthor : c.author ∉ log.map (·.author)) (hcall : made' c.author c.access c.call)
    (hcontinues : Continues (stored c.runId) c)
    (hstored : ∀ id, stored' id = if id = c.runId then some c.run else stored id)
    (hsubmissions : ∀ id, submissions' id = submissions id ++ if id = c.runId then (submissionOf c).toList else [])
    (hfresh : ∀ item, c.feedback = some item → item.submissionId ∉ (submissions c.runId).map (·.1)) :
    NoLostUpdate made' (log ++ [c]) stored' submissions' := by
  rw [h.holds] at hcontinues
  refine ⟨Chronicle.lawful_append h.chain hcontinues, ?_, ?_, ?_, ?_, ?_, ?_⟩
  · intro id
    rw [commitsOf_append]
    by_cases hid : id = c.runId
    · subst hid
      have hversion : c.run.version = ((commitsOf log c.runId).length : Int) + 1 := by
        cases hlatest : latest log c.runId with
        | none =>
          rw [hlatest] at hcontinues
          obtain ⟨-, request, subject, now, -, hrun⟩ := hcontinues
          have hnil : commitsOf log c.runId = [] := by
            simpa [latest] using hlatest
          rw [hrun, hnil]
          rfl
        | some current =>
          rw [hlatest] at hcontinues
          obtain ⟨tr, -, -, hv, -⟩ := hcontinues
          rw [hv, latest_version h.versions hlatest]
      simp only [if_true, List.map_append, List.length_append, List.map_cons, List.map_nil, List.length_singleton,
        counting_succ, h.versions c.runId, hversion]
    · simp only [hid, if_false, List.append_nil, h.versions id]
  · rw [List.map_append, List.nodup_append]
    refine ⟨h.once, by simp, ?_⟩
    intro a ha b hb he
    obtain rfl : b = c.author := by simpa using hb
    exact hauthor (he ▸ ha)
  · intro c' hc'
    rcases List.mem_append.mp hc' with hc' | hc'
    · exact hmade _ _ _ (h.authors c' hc')
    · obtain rfl : c' = c := by simpa using hc'
      exact hcall
  · intro id
    rw [hstored, latest_append, h.holds]
  · intro id
    rw [hsubmissions, h.submitted, commitsOf_append, List.filterMap_append]
    congr 1
    by_cases hid : id = c.runId
    · simp only [hid, if_true, List.filterMap_cons, List.filterMap_nil]
      cases submissionOf c <;> rfl
    · simp [hid]
  · intro id
    rw [hsubmissions]
    by_cases hid : id = c.runId
    · subst hid
      cases hitem : c.feedback with
      | none => simpa [submissionOf, hitem] using h.submittedOnce c.runId
      | some item =>
        simp only [submissionOf, hitem, if_true, Option.map_some, Option.toList_some, List.map_append, List.nodup_append]
        refine ⟨h.submittedOnce c.runId, by simp, ?_⟩
        intro a ha b hb he
        obtain rfl : b = item.submissionId := by simpa using hb
        exact hfresh item hitem (he ▸ ha)
    · simpa [hid] using h.submittedOnce id

end

/-! ## The Postgres repository -/

namespace Cluster

variable {limits : Limits} {c : Cluster} {key : CallKey} {s : Session}

/-- The call of a session that is over. -/
def Over (c : Cluster) (key : CallKey) (access : Option TrustedAccess) (call : RepositoryCall) : Prop :=
  ∃ s ∈ c.sessions, s.key = key ∧ s.access = access ∧ s.call = call ∧ s.finished = true

def Kept (c : Cluster) : Prop := NoLostUpdate c.Over c.log c.tables.stored c.tables.submissions

theorem over_move (hfind : c.find key = some s) (hkeys : (c.sessions.map Session.key).Nodup) {c' : Cluster}
    {phase : CallPhase} (hc' : c'.sessions = move c.sessions key phase)
    (hphase : s.finished = true → Session.finished { s with phase := phase } = true) :
    ∀ k access call, c.Over k access call → c'.Over k access call := by
  intro k access call hover
  obtain ⟨s', hs', hk, ha, hcall, hfinished⟩ := hover
  obtain ⟨hmem, hkey⟩ := find_mem hfind
  by_cases he : s'.key = key
  · obtain rfl : s' = s := List.inj_on_of_nodup_map hkeys hs' hmem (he.trans hkey.symm)
    exact ⟨{ s' with phase := phase }, by rw [hc']; exact moved_mem hfind phase, hk, ha, hcall, hphase hfinished⟩
  · exact ⟨s', by rw [hc']; exact mem_move_of_ne hs' he phase, hk, ha, hcall, hfinished⟩

theorem kept_move (hs : Sound c) (h : c.Kept) (hfind : c.find key = some s) {phase : CallPhase}
    (hphase : s.finished = true → Session.finished { s with phase := phase } = true) :
    Kept { c with sessions := move c.sessions key phase } :=
  noLostUpdate_same h (over_move hfind hs.keys rfl hphase) (fun _ => rfl) fun _ => rfl

theorem stored_of_read (hs : Sound c) {id : String} {current : RunMetadata} (h : s.Read c.tables id current) :
    c.tables.stored id = some current := by
  obtain ⟨row, hrow, rfl, -, rfl⟩ := h
  exact Tables.stored_of_mem hs.rowIds hrow

theorem kept_commit (hs : Sound c) (h : c.Kept) (hfind : c.find key = some s) {effect : Effect} {value : RepositoryValue}
    (hphase : s.phase = .ready effect value) (answered : Bool) : (c.commit s effect value answered).Kept := by
  obtain ⟨hmem, rfl⟩ := find_mem hfind
  have hopen : s.finished = false := by simp [Session.finished, hphase]
  have hover : ∀ k access call, c.Over k access call → (c.commit s effect value answered).Over k access call := by
    refine over_move hfind hs.keys rfl fun hf => ?_
    rw [hopen] at hf
    cases hf
  -- Its own call is over now, and was not before.
  have hnow : (c.commit s effect value answered).Over s.key s.access s.call :=
    ⟨_, moved_mem hfind _, rfl, rfl, rfl, rfl⟩
  have hnew : s.key ∉ c.log.map (·.author) := by
    intro hauthor
    obtain ⟨entry, hentry, hkey⟩ := List.mem_map.mp hauthor
    obtain ⟨s', hs', hk, -, -, hfinished⟩ := h.authors entry hentry
    obtain rfl : s' = s := List.inj_on_of_nodup_map hs.keys hs' hmem (hk.trans hkey)
    rw [hopen] at hfinished
    cases hfinished
  have hholds := hs.holds s hmem
  cases effect with
  | none => exact noLostUpdate_same h hover (fun _ => rfl) fun _ => rfl
  | held id => exact noLostUpdate_same h hover (fun _ => rfl) fun _ => rfl
  | insert row =>
    simp only [Session.Holds, hphase] at hholds
    obtain ⟨⟨request, subject, id, now, hcall, hrow, hvalue⟩, hfresh⟩ := hholds
    have hbefore : c.tables.stored row.runId = none := Tables.stored_eq_none.mpr hfresh
    have hsubmitted : value.submitted = none := by rw [hvalue]; rfl
    have hlog : (c.commit s (.insert row) value answered).log =
        c.log ++ [⟨s.key, s.access, s.call, row.runId, row.metadata, none⟩] := by
      simp [commit, Effect.runId, record, Effect.stored_insert hfresh, hbefore, hsubmitted]
    rw [Kept, hlog]
    refine noLostUpdate_commit h hover _ hnew hnow ?_ (Effect.stored_insert hfresh) ?_ (fun item hitem => by cases hitem)
    · rw [hbefore]
      refine ⟨rfl, request, subject, now, ?_, ?_⟩
      · rw [hrow]
        exact hcall
      · rw [hrow]
        rfl
    · intro id'
      simp [submissionOf, commit, Effect.submissions_insert]
  | write id current w =>
    simp only [Session.Holds, hphase] at hholds
    obtain ⟨rfl, rfl, hread, hmade⟩ := hholds
    have hbefore := stored_of_read hs hread
    have hstored := Effect.stored_write (fun row hrow => (hs.rows row hrow).2) hbefore w
    rcases hmade with ⟨hsame, hfeedback⟩ | ⟨tr, htr, happly, hv, hvalue, hitem⟩
    · -- Nothing has changed, and nothing is logged.
      have hkeeps : ∀ id', ((Effect.write (lockId s.call) current w).apply c.tables).stored id' = c.tables.stored id' := by
        intro id'
        rw [hstored]
        split
        · rename_i he
          rw [he, hbefore, hsame]
        · rfl
      have hlog : (c.commit s (.write (lockId s.call) current w) w.value answered).log = c.log := by
        simp [commit, Effect.runId, record, hkeeps, hbefore]
      rw [Kept, hlog]
      refine noLostUpdate_same h hover hkeeps ?_
      intro id'
      rw [commit, Effect.submissions_write, hfeedback]
      simp
    · have hne : current ≠ w.run := by
        intro he
        rw [he] at hv
        omega
      have hlog : (c.commit s (.write (lockId s.call) current w) w.value answered).log =
          c.log ++ [⟨s.key, s.access, s.call, lockId s.call, w.run, w.feedback⟩] := by
        simp [commit, Effect.runId, record, hstored, hbefore, hne, hvalue]
      have hexpected : ∀ v, s.call.expectedVersion = some v → v = current.version := by
        rw [← transition_expected htr]
        rcases apply_changes happly with he | ⟨-, hexp⟩
        · exact absurd he.symm hne
        · exact hexp
      have hid : current.id = lockId s.call := by
        obtain ⟨row, hrow, hrid, -, hrm⟩ := hread
        rw [← hrm, (hs.rows row hrow).1, hrid]
      rw [Kept, hlog]
      refine noLostUpdate_commit h hover _ hnew hnow ?_ hstored ?_ (fun item hi => (hitem item hi).2.2)
      · rw [hbefore]
        refine ⟨tr, htr, happly, hv, hexpected, ?_⟩
        intro item hi
        obtain ⟨h1, h2, -⟩ := hitem item hi
        exact ⟨h1.trans hid, h2⟩
      · intro id'
        rw [commit, Effect.submissions_write]
        rfl

theorem kept_step (hs : Sound c) (h : c.Kept) (event : TransactionEvent) : (step limits c event).Kept := by
  cases event with
  | start number access call =>
    simp only [step]
    split
    · exact h
    · refine noLostUpdate_same h ?_ (fun _ => rfl) fun _ => rfl
      intro key access call hover
      obtain ⟨s, hmem, hrest⟩ := hover
      exact ⟨s, List.mem_append_left _ hmem, hrest⟩
  | statement key authorized =>
    simp only [step]
    cases hfind : c.find key with
    | none => exact h
    | some s =>
      dsimp only
      split
      · exact h
      · exact kept_move hs h hfind (finished_advance c.tables authorized)
  | commit key unexpired answered =>
    simp only [step]
    cases hfind : c.find key with
    | none => exact h
    | some s =>
      dsimp only
      split
      · rename_i effect value hphase
        split
        · exact kept_move hs h hfind fun _ => rfl
        · exact kept_commit hs h hfind hphase answered
      · exact h
  | fail key =>
    simp only [step]
    cases hfind : c.find key with
    | none => exact h
    | some s =>
      dsimp only
      split
      · exact h
      · exact kept_move hs h hfind fun _ => rfl

theorem kept_run (events : List TransactionEvent) : (run limits events).Kept := by
  induction events using List.reverseRecOn with
  | nil => exact noLostUpdate_nil _
  | append_singleton events event ih =>
    rw [run_concat]
    exact kept_step (sound_run events) ih event

end Cluster

/-! ## The in-memory repository -/

/-- The run a call writes. -/
def RepositoryCall.runId : RepositoryCall → Option String
  | .create _ _ id _ => some id
  | call => (call.transition none).map (·.1)

def Outcome.submitted : Outcome → Option RunFeedback
  | .ok value => value.submitted
  | .error _ => none

def InMemory.stored (m : InMemory) (id : String) : Option RunMetadata := m.runs.lookup id

def InMemory.submissions (m : InMemory) (id : String) : List (String × RunFeedback) := (m.feedback.lookup id).getD []

/-- The dictionaries, the number of calls so far and the log. -/
structure MemoryStore where
  memory : InMemory
  calls : Nat
  log : List Commit

namespace MemoryStore

def empty : MemoryStore := ⟨InMemory.empty, 0, []⟩

def step (s : MemoryStore) (call : RepositoryCall) : MemoryStore where
  memory := (InMemoryRunRepository.call s.memory call).1
  calls := s.calls + 1
  log := match call.runId with
    | none => s.log
    | some id => record s.log (none, s.calls) none call id (s.memory.runs.lookup id)
        ((InMemoryRunRepository.call s.memory call).1.runs.lookup id) (Outcome.submitted (InMemoryRunRepository.call s.memory call).2)

def run (calls : List RepositoryCall) : MemoryStore := calls.foldl step empty

end MemoryStore

namespace InMemoryRunRepository

theorem lookup_set {β : Type} (d : List (String × β)) (key : String) (value : β) (key' : String) :
    (set d key value).lookup key' = if key' = key then (d.lookup key).map fun _ => value else d.lookup key' := by
  induction d with
  | nil => simp [set]
  | cons entry d ih =>
    obtain ⟨k, v⟩ := entry
    have hcons : set ((k, v) :: d) key value = (if k = key then (key, value) else (k, v)) :: set d key value := rfl
    rw [hcons]
    by_cases hk : k = key
    · subst hk
      by_cases h' : key' = k
      · subst h'
        simp
      · have hb : (key' == k) = false := by simpa using h'
        simp [List.lookup_cons, hb, h', ih]
    · have hb : (key == k) = false := by simpa using fun e : key = k => hk e.symm
      by_cases h' : key' = k
      · subst h'
        simp [hk]
      · have hb' : (key' == k) = false := by simpa using h'
        simp [List.lookup_cons, hk, hb, hb', ih]

theorem lookup_append {β : Type} (d : List (String × β)) (key : String) (value : β) (key' : String) :
    (d ++ [(key, value)]).lookup key' = (d.lookup key').or (if key' = key then some value else none) := by
  rw [List.lookup_append]
  congr 1
  by_cases h : key' = key
  · simp [h]
  · have hb : (key' == key) = false := by simpa using h
    simp [h, List.lookup_cons, hb]

/-- What a call does to the records and the feedback: nothing, a new run, or one transition of
    one run, with a new submission if it is a feedback call. -/
inductive Did (m : InMemory) (call : RepositoryCall) (m' : InMemory) (outcome : Outcome) : Prop where
  | nothing (runs : ∀ id, m'.runs.lookup id = m.runs.lookup id) (feedback : ∀ id, m'.submissions id = m.submissions id)
  | created (request : CreateRunRequest) (subject id : String) (now : DateTimeOffset)
      (call_eq : call = .create request subject id now) (fresh : m.runs.lookup id = none)
      (runs : ∀ id', m'.runs.lookup id' = if id' = id then some (RunTransitions.create id request subject now)
        else m.runs.lookup id')
      (feedback : ∀ id, m'.submissions id = m.submissions id) (submitted : outcome.submitted = none)
  | moved (id : String) (transition : Transition) (current next : RunMetadata) (item : Option RunFeedback)
      (call_eq : call.transition none = some (id, transition)) (found : m.runs.lookup id = some current)
      (apply : transition.apply current = .ok next) (version : next.version = current.version + 1)
      (runs : ∀ id', m'.runs.lookup id' = if id' = id then some next else m.runs.lookup id')
      (feedback : ∀ id', m'.submissions id' = m.submissions id' ++
        if id' = id then (item.map fun f => (f.submissionId, f)).toList else [])
      (submitted : outcome.submitted = item)
      (fresh : ∀ f, item = some f → f.runId = current.id ∧ f.runVersion = next.version ∧
        f.submissionId ∉ (m.submissions id).map (·.1))

variable {m : InMemory} {call : RepositoryCall}

theorem lookup_set_found {id : String} {current : RunMetadata} (hfound : m.runs.lookup id = some current)
    (next : RunMetadata) (id' : String) :
    (set m.runs id next).lookup id' = if id' = id then some next else m.runs.lookup id' := by
  rw [lookup_set, hfound]
  rfl

theorem did_set {id : String} {t : Transition} {current next : RunMetadata} {outcome : Outcome}
    (ht : call.transition none = some (id, t)) (hfound : m.runs.lookup id = some current) (happly : t.apply current = .ok next)
    (hout : outcome.submitted = none) : Did m call { m with runs := set m.runs id next } outcome := by
  have hruns := lookup_set_found hfound next
  rcases apply_changes happly with rfl | ⟨hv, -⟩
  · refine .nothing ?_ fun _ => rfl
    intro id'
    rw [hruns]
    split
    · rename_i he
      rw [he, hfound]
    · rfl
  · refine .moved id t current next none ht hfound happly hv hruns ?_ hout fun f hf => nomatch hf
    intro id'
    simp [InMemory.submissions]

theorem mutate_did {id : String} {t : Transition} (ht : call.transition none = some (id, t)) :
    Did m call (mutate m id t).1 (mutate m id t).2 := by
  simp only [mutate]
  cases hfound : m.runs.lookup id with
  | none => exact .nothing (fun _ => rfl) fun _ => rfl
  | some current =>
    dsimp only
    cases happly : t.apply current with
    | error e => exact .nothing (fun _ => rfl) fun _ => rfl
    | ok next => exact did_set ht hfound happly rfl

theorem submitFeedback_did {id : String} {request : SubmitFeedbackRequest} {subject : String} {now : DateTimeOffset} :
    Did m (.submitFeedback id request subject now) (InMemoryRunRepository.call m (.submitFeedback id request subject now)).1
      (InMemoryRunRepository.call m (.submitFeedback id request subject now)).2 := by
  simp only [InMemoryRunRepository.call]
  cases hfound : m.runs.lookup id with
  | none => exact .nothing (fun _ => rfl) fun _ => rfl
  | some current =>
    dsimp only
    -- The run's own dictionary is there from here on.
    generalize hm : (if (m.feedback.lookup id).isSome = true then m else { m with feedback := m.feedback ++ [(id, [])] }) = m₁
    have hruns : m₁.runs = m.runs := by
      rw [← hm]
      split <;> rfl
    have hsub : ∀ id', m₁.submissions id' = m.submissions id' := by
      intro id'
      rw [← hm]
      split
      · rfl
      · rename_i hnone
        simp only [InMemory.submissions, lookup_append]
        by_cases he : id' = id
        · subst he
          cases hl : m.feedback.lookup id' with
          | none => simp
          | some x => simp [hl] at hnone
        · simp [he]
    have hthere : (m₁.feedback.lookup id).isSome = true := by
      rw [← hm]
      split
      · assumption
      · simp [lookup_append]
    have hsame : (m.feedback.lookup id).getD [] = m₁.submissions id := (hsub id).symm
    have hnothing : ∀ outcome, Did m (.submitFeedback id request subject now) m₁ outcome :=
      fun outcome => .nothing (fun id' => by rw [hruns]) hsub
    have hsubs : (m₁.feedback.lookup id).getD [] = m.submissions id := hsub id
    rw [hsubs]
    cases hold : (m.submissions id).lookup request.submissionId with
    | some existing =>
      dsimp only
      cases duplicateFeedback existing request with
      | error e => exact hnothing _
      | ok item => exact hnothing _
    | none =>
      dsimp only
      cases happly : feedback current request subject now with
      | error e => exact hnothing _
      | ok result =>
        obtain ⟨next, item⟩ := result
        have htransition : (Transition.feedback request subject now).apply current = .ok next := by
          simp [Transition.apply, happly]
        simp only [RunTransitions.feedback, bind_eq_ok, checkedSucc_eq_ok, pure_eq_ok, Prod.mk.injEq] at happly
        obtain ⟨_, -, _, ⟨-, rfl⟩, rfl, rfl⟩ := happly
        refine .moved id _ current _ (some _) rfl hfound htransition rfl ?_ ?_ rfl ?_
        · intro id'
          show (set m₁.runs id _).lookup id' = _
          rw [hruns, lookup_set_found hfound]
        · intro id'
          show ((set m₁.feedback id _).lookup id').getD [] = _
          rw [lookup_set]
          by_cases he : id' = id
          · subst he
            obtain ⟨x, hx⟩ := Option.isSome_iff_exists.mp hthere
            simp [hx]
          · rw [if_neg he, if_neg he, List.append_nil]
            exact hsub id'
        · intro f hf
          obtain rfl := Option.some.inj hf
          refine ⟨rfl, rfl, ?_⟩
          intro hmem
          obtain ⟨⟨k, v⟩, hkv, hk⟩ := List.mem_map.mp hmem
          have hkeys := List.lookup_eq_none_iff.mp hold (k, v) hkv
          simp at hkeys
          exact hkeys hk.symm

theorem call_did (m : InMemory) (c : RepositoryCall) : Did m c (InMemoryRunRepository.call m c).1 (InMemoryRunRepository.call m c).2 := by
  cases c with
  | create request subject id now =>
    simp only [InMemoryRunRepository.call]
    cases m.createKeys.lookup (subject, request.clientRequestId) with
    | some existing =>
      dsimp only
      cases m.runs.lookup existing with
      | none => exact .nothing (fun _ => rfl) fun _ => rfl
      | some run =>
        dsimp only
        cases PostgresRunRepository.duplicate run request with
        | error e => exact .nothing (fun _ => rfl) fun _ => rfl
        | ok result => exact .nothing (fun _ => rfl) fun _ => rfl
    | none =>
      dsimp only
      split
      · exact .nothing (fun _ => rfl) fun _ => rfl
      · rename_i hfresh
        have hnone : m.runs.lookup id = none := Option.not_isSome_iff_eq_none.mp hfresh
        refine .created request subject id now rfl hnone ?_ (fun _ => rfl) rfl
        intro id'
        show (m.runs ++ [(id, _)]).lookup id' = _
        rw [lookup_append]
        by_cases he : id' = id
        · subst he
          simp [hnone]
        · simp [he]
  | requestCancellation id expected now =>
    simp only [InMemoryRunRepository.call]
    cases hfound : m.runs.lookup id with
    | none => exact .nothing (fun _ => rfl) fun _ => rfl
    | some current =>
      dsimp only
      cases hcancel : cancel current expected now with
      | error e => exact .nothing (fun _ => rfl) fun _ => rfl
      | ok result =>
        refine did_set (t := .cancel expected now) rfl hfound ?_ rfl
        simp [Transition.apply, hcancel]
  | applySemanticStatus id expected status now => exact mutate_did rfl
  | markFailed id code message now => exact mutate_did rfl
  | markStartDispatchUnknown id code now => exact mutate_did rfl
  | markCancellationDelivered id generation now => exact mutate_did rfl
  | finalizeCancellationWithoutBackend id version generation now => exact mutate_did rfl
  | submitFeedback id request subject now => exact submitFeedback_did
  | claimStart id now => exact .nothing (fun _ => rfl) fun _ => rfl
  | get id => exact .nothing (fun _ => rfl) fun _ => rfl
  | list limit => exact .nothing (fun _ => rfl) fun _ => rfl
  | getFeedback id =>
    simp only [InMemoryRunRepository.call]
    split <;> exact .nothing (fun _ => rfl) fun _ => rfl
  | getStatistics =>
    simp only [InMemoryRunRepository.call, thrown]
    split <;> exact .nothing (fun _ => rfl) fun _ => rfl

end InMemoryRunRepository

namespace MemoryStore

/-- The call is the one at this place of the sequence. -/
def Called (calls : List RepositoryCall) (key : CallKey) (access : Option TrustedAccess) (call : RepositoryCall) : Prop :=
  access = none ∧ ∃ i, key = (none, i) ∧ calls[i]? = some call

/-- What the calls so far have left behind. -/
structure Kept (s : MemoryStore) (calls : List RepositoryCall) : Prop where
  count : s.calls = calls.length
  ids : ∀ id r, s.memory.runs.lookup id = some r → r.id = id
  log : NoLostUpdate (Called calls) s.log s.memory.stored s.memory.submissions

theorem kept_step {s : MemoryStore} {calls : List RepositoryCall} (h : s.Kept calls) (call : RepositoryCall) :
    (s.step call).Kept (calls ++ [call]) := by
  have hcount : (s.step call).calls = (calls ++ [call]).length := by
    simp [step, h.count]
  have hcalled : ∀ key access c, Called calls key access c → Called (calls ++ [call]) key access c := by
    intro key access c hc
    obtain ⟨ha, i, hk, hi⟩ := hc
    exact ⟨ha, i, hk, by rw [List.getElem?_append_left (List.getElem?_eq_some_iff.mp hi).1]; exact hi⟩
  have hnow : Called (calls ++ [call]) (none, s.calls) none call := by
    refine ⟨rfl, s.calls, rfl, ?_⟩
    rw [h.count, List.getElem?_concat_length]
  have hnew : ((none, s.calls) : CallKey) ∉ s.log.map (·.author) := by
    intro hmem
    obtain ⟨entry, hentry, hkey⟩ := List.mem_map.mp hmem
    obtain ⟨-, i, hk, hi⟩ := h.log.authors entry hentry
    have hlt := (List.getElem?_eq_some_iff.mp hi).1
    have hi' : i = s.calls := (Prod.mk.inj (hk.symm.trans hkey)).2
    rw [hi', h.count] at hlt
    omega
  rcases InMemoryRunRepository.call_did s.memory call with ⟨hruns, hsubs⟩ |
      ⟨request, subject, id, now, rfl, hfresh, hruns, hsubs, hitem⟩ |
      ⟨id, tr, current, next, item, htr, hfound, happly, hv, hruns, hsubs, hitem, hfreshItem⟩
  · have hlog : (s.step call).log = s.log := by
      simp only [step]
      split
      · rfl
      · simp only [record, hruns]
        split
        · rfl
        · rename_i run hrun
          rw [if_pos hrun]
    refine ⟨hcount, fun id r hr => h.ids id r (by rw [← hruns]; exact hr), ?_⟩
    rw [hlog]
    exact noLostUpdate_same h.log hcalled hruns hsubs
  · have hlog : (s.step (.create request subject id now)).log =
        s.log ++ [⟨(none, s.calls), none, .create request subject id now, id,
          RunTransitions.create id request subject now, none⟩] := by
      simp [step, RepositoryCall.runId, record, hruns, hfresh, hitem]
    refine ⟨hcount, ?_, ?_⟩
    · intro id' r hr
      rw [step, hruns] at hr
      split at hr
      · rename_i he
        obtain rfl := Option.some.inj hr
        exact he.symm
      · exact h.ids id' r hr
    · rw [hlog]
      refine noLostUpdate_commit h.log hcalled _ hnew hnow ?_ hruns ?_ fun f hf => nomatch hf
      · show Continues (s.memory.runs.lookup id) _
        rw [hfresh]
        exact ⟨rfl, request, subject, now, rfl, rfl⟩
      · intro id'
        rw [step, hsubs]
        simp [submissionOf]
  · have hne : current ≠ next := by
      intro he
      rw [he] at hv
      omega
    have hrun : call.runId = some id := by
      cases call <;> simp_all [RepositoryCall.runId, RepositoryCall.transition]
    have hlog : (s.step call).log = s.log ++ [⟨(none, s.calls), none, call, id, next, item⟩] := by
      simp [step, hrun, record, hruns, hfound, hne, hitem]
    refine ⟨hcount, ?_, ?_⟩
    · intro id' r hr
      rw [step, hruns] at hr
      split at hr
      · rename_i he
        obtain rfl := Option.some.inj hr
        rw [he, apply_id happly]
        exact h.ids id current hfound
      · exact h.ids id' r hr
    · have hexpected : ∀ v, call.expectedVersion = some v → v = current.version := by
        rw [← transition_expected htr]
        rcases apply_changes happly with he | ⟨-, hexp⟩
        · exact absurd he.symm hne
        · exact hexp
      rw [hlog]
      refine noLostUpdate_commit h.log hcalled _ hnew hnow ?_ hruns hsubs fun f hf => (hfreshItem f hf).2.2
      show Continues (s.memory.runs.lookup id) _
      rw [hfound]
      refine ⟨tr, htr, happly, hv, hexpected, ?_⟩
      intro f hf
      obtain ⟨h1, h2, -⟩ := hfreshItem f hf
      exact ⟨h1.trans (h.ids id current hfound), h2⟩

theorem kept_run (calls : List RepositoryCall) : (run calls).Kept calls := by
  induction calls using List.reverseRecOn with
  | nil => exact ⟨rfl, (fun _ _ h => nomatch h), noLostUpdate_nil _⟩
  | append_singleton calls call ih =>
    rw [run, List.foldl_append]
    exact kept_step ih call

end MemoryStore

/-- Neither repository loses an update: of Postgres after any statements, commits and failures of
    any sessions, of the dictionaries after any calls. -/
theorem no_lost_update (limits : Limits) (events : List TransactionEvent) (calls : List RepositoryCall) :
    (let c := Cluster.run limits events
     NoLostUpdate c.Over c.log c.tables.stored c.tables.submissions) ∧
    (let s := MemoryStore.run calls
     NoLostUpdate (MemoryStore.Called calls) s.log s.memory.stored s.memory.submissions) :=
  ⟨Cluster.kept_run events, (MemoryStore.kept_run calls).log⟩

end DataNexus.Control
