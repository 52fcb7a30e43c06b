/-
  DataNexus.Control.RevocationFence — repository transactions against identity changes
  (`IdentityStore.ReauthorizeAsync`, `IdentityAdministration.Change`,
  `IdentityMaintenance.ExecuteAsync`, `Commit` and `Authorize` of
  `Persistence/PostgresRunRepository.cs`).

  Beside the repository's sessions there are the committed identity tables, the sessions that
  hold the authorization lock shared, and at most one identity change that holds it alone. A
  session with a context takes the lock, and only then asks the committed tables for its
  permission; the lock goes with its transaction. A change writes to its own snapshot, which
  nobody else sees before it commits. Contexts are resolved without the lock.

  What a session has been cleared for is still given when it commits (`Guarded`): the tables move
  only when nobody holds the lock shared. A change that alters what someone may do in a workspace
  gives it a new revision (`Changed`), and revisions never come back, so nobody commits with a
  context from before it.
-/

import DataNexus.Control.IdentityAccess
import DataNexus.Control.RepositoryTransactions
import DataNexus.Lib.Chronicle

namespace DataNexus.Control

open Lib PostgresRunRepository IdentityTables

/-! ## What a call asks for -/

/-- `Policies`. -/
def RepositoryCall.permission : RepositoryCall → String
  | .create .. | .requestCancellation .. | .claimStart .. => "run.contributor"
  | .getStatistics => "run.admin"
  | _ => "run.reader"

/-- With the second authorization of `SubmitFeedbackAsync`. -/
def RepositoryCall.required (call : RepositoryCall) : List String :=
  call.permission :: if isFeedback call then ["run.contributor"] else []

def TrustedContext.access (context : TrustedContext) : TrustedAccess :=
  ⟨context.tenantId, context.workspaceId, context.principalId⟩

namespace Session

/-- The permission that the next statement asks the identity tables for. -/
def authorizes (s : Session) : Option String :=
  match s.access, s.phase with
  | some _, .opened => some s.call.permission
  | some _, .locked _ => if isFeedback s.call then some "run.contributor" else none
  | _, _ => none

/-- The permissions that the transaction has been given so far. -/
def cleared (s : Session) : List String :=
  match s.phase with
  | .opened | .ended _ => []
  | .acted _ _ | .ready _ _ => s.call.required
  | _ => [s.call.permission]

end Session

/-! ## The system -/

structure OpenChange where
  change : IdentityChange
  /-- Its own snapshot, and whether it is not a replay. -/
  written : Option (IdentityTables × Bool)

inductive FenceEntry where
  | resolved (context : TrustedContext) (identity : IdentityTables)
  | changed (change : IdentityChange) (before after : IdentityTables)
  | committed (context : TrustedContext) (call : RepositoryCall) (identity : IdentityTables)

structure Fence where
  identity : IdentityTables
  cluster : Cluster
  contexts : List (CallKey × TrustedContext)
  /-- `pg_advisory_xact_lock_shared`. -/
  shared : List CallKey
  /-- `pg_advisory_xact_lock`. -/
  change : Option OpenChange
  log : List FenceEntry

inductive FenceEvent where
  | resolve (issuer subject identityTenant workspaceId : String)
  | start (number : Nat) (context : Option TrustedContext) (call : RepositoryCall)
  | gate (key : CallKey)
  | statement (key : CallKey) (unexpired : Bool)
  | commit (key : CallKey) (unexpired answered : Bool)
  | fail (key : CallKey)
  | lock (change : IdentityChange)
  | runChange
  | commitChange (unexpired : Bool)
  | failChange
  deriving DecidableEq

namespace Fence

def empty : Fence := ⟨IdentityTables.empty, Cluster.empty, [], [], none, []⟩

/-- A transaction that is over holds no lock. -/
def release (c : Cluster) (shared : List CallKey) : List CallKey :=
  shared.filter fun key => (c.find key).any fun s => !s.finished

variable (limits : Limits) (providers : List IdentityProvider) (digest : ChangePayload → String)

/-- A step of the repository's, and the locks after it. -/
def advance (f : Fence) (event : TransactionEvent) : Fence :=
  let cluster := f.cluster.step limits event
  { f with cluster := cluster, shared := release cluster f.shared }

def statement (f : Fence) (key : CallKey) (unexpired : Bool) : Fence :=
  match f.cluster.find key with
  | none => f
  | some s =>
    match s.authorizes with
    | none => f.advance limits (.statement key true)
    | some permission =>
      -- First the lock, then the question.
      if f.shared.contains key then
        f.advance limits (.statement key (unexpired && (f.contexts.lookup key).any fun context =>
          IdentityStore.gives f.identity context permission))
      else f

def commit (f : Fence) (key : CallKey) (unexpired answered : Bool) : Fence :=
  match f.cluster.find key with
  | none => f
  | some s =>
    let next := f.advance limits (.commit key unexpired answered)
    match s.phase, f.contexts.lookup key with
    | .ready _ _, some context =>
      if s.access.isSome && unexpired then { next with log := f.log ++ [FenceEntry.committed context s.call f.identity] } else next
    | _, _ => next

def step (f : Fence) : FenceEvent → Fence
  | .resolve issuer subject identityTenant workspaceId =>
    match IdentityStore.resolve f.identity issuer subject identityTenant workspaceId with
    | none => f
    | some context => { f with log := f.log ++ [FenceEntry.resolved context f.identity] }
  | .start number context call =>
    let key : CallKey := (scopeOf (context.map (·.access)), number)
    if (f.cluster.find key).isSome then f
    else { f with
      cluster := f.cluster.step limits (.start number (context.map (·.access)) call)
      contexts := (context.map fun context => (key, context)).toList ++ f.contexts }
  | .gate key =>
    if f.change.isSome || f.shared.contains key then f
    else
      match f.cluster.find key with
      | none => f
      | some s => if s.finished then f else { f with shared := f.shared ++ [key] }
  | .statement key unexpired => f.statement limits key unexpired
  | .commit key unexpired answered => f.commit limits key unexpired answered
  | .fail key => f.advance limits (.fail key)
  | .lock change =>
    if f.change.isSome || !f.shared.isEmpty || !IdentityAdministration.valid providers change then f
    else { f with change := some ⟨change, none⟩ }
  | .runChange =>
    match f.change with
    | some ⟨change, none⟩ =>
      match Control.runChange providers digest f.identity change with
      | .ok result => { f with change := some ⟨change, some result⟩ }
      | .error _ => { f with change := none }
    | _ => f
  | .commitChange unexpired =>
    match f.change with
    | some ⟨change, some (written, applied)⟩ =>
      if change.context.isSome && !unexpired then { f with change := none }
      else { f with
        identity := written
        change := none
        log := if applied then f.log ++ [FenceEntry.changed change f.identity written] else f.log }
    | _ => f
  | .failChange => { f with change := none }

def run (events : List FenceEvent) : Fence := events.foldl (step limits providers digest) empty

end Fence

/-! ## What a session has been cleared for -/

theorem required_of_not_feedback {call : RepositoryCall} (h : isFeedback call = false) : call.required = [call.permission] := by
  simp [RepositoryCall.required, h]

theorem permission_mem_required (call : RepositoryCall) : call.permission ∈ call.required := List.mem_cons_self

/-- A call that is not feedback asks for one permission. -/
theorem cleared_of_not_feedback {s : Session} (h : isFeedback s.call = false) : ∀ p ∈ s.cleared, p = s.call.permission := by
  intro p hp
  unfold Session.cleared at hp
  split at hp
  · cases hp
  · cases hp
  · rw [required_of_not_feedback h] at hp
    exact List.mem_singleton.mp hp
  · rw [required_of_not_feedback h] at hp
    exact List.mem_singleton.mp hp
  · exact List.mem_singleton.mp hp

/-- The first statement of a feedback call locks its row. -/
theorem cleared_first {limits : Limits} {t : Tables} {s : Session} :
    ∀ p ∈ Session.cleared { s with phase := first limits t s.access s.call }, p = s.call.permission := by
  intro p hp
  by_cases hfeedback : isFeedback s.call = true
  · obtain ⟨number, access, call, phase⟩ := s
    cases call <;> simp only [isFeedback, Bool.false_eq_true] at hfeedback
    rename_i id request subject now
    have htr : RepositoryCall.transition access (.submitFeedback id request subject now) =
        some (id, .feedback request (subjectOf access subject) now) := rfl
    have hfirst := first_transition limits t htr
    simp only [Session.cleared, hfirst] at hp
    cases hrow : t.selectRun (scopeOf access) id with
    | none => simp [hrow] at hp
    | some row =>
      simp only [hrow] at hp
      cases hread : readRun row.metadata id with
      | ok current => simpa [hread] using hp
      | error e => simp [hread] at hp
  · have hnot : isFeedback s.call = false := by simpa using hfeedback
    exact cleared_of_not_feedback (s := { s with phase := first limits t s.access s.call }) hnot p hp

/-- A statement clears a session for what it has asked for, if the answer is yes. -/
theorem cleared_advance {limits : Limits} {t : Tables} {s : Session} {authorized : Bool} (haccess : s.access.isSome = true) :
    ∀ p ∈ Session.cleared { s with phase := advance limits t s.access s.call authorized s.phase },
      p ∈ s.cleared ∨ (s.authorizes = some p ∧ authorized = true) := by
  intro p hp
  obtain ⟨number, access, call, phase⟩ := s
  obtain ⟨a, rfl⟩ := Option.isSome_iff_exists.mp haccess
  cases phase with
  | opened =>
    simp only [advance, Option.isSome_some, Bool.true_and] at hp
    cases authorized with
    | false => simp [Session.cleared] at hp
    | true =>
      have he : p = call.permission := by simpa [Session.cleared] using hp
      exact .inr ⟨by rw [he]; rfl, rfl⟩
  | authorized =>
    have he := cleared_first (s := ⟨number, some a, call, .authorized⟩) p hp
    exact .inl (by rw [he]; exact List.mem_singleton_self _)
  | conflicted =>
    by_cases hfeedback : isFeedback call = true
    · cases call <;> simp only [isFeedback, Bool.false_eq_true] at hfeedback
      cases hp
    · have he := cleared_of_not_feedback (by simpa using hfeedback) p hp
      exact .inl (by rw [he]; exact List.mem_singleton_self _)
  | checked =>
    by_cases hfeedback : isFeedback call = true
    · cases call <;> simp only [isFeedback, Bool.false_eq_true] at hfeedback
      cases hp
    · have he := cleared_of_not_feedback (by simpa using hfeedback) p hp
      exact .inl (by rw [he]; exact List.mem_singleton_self _)
  | locked current =>
    simp only [advance, Option.isSome_some, Bool.and_true] at hp
    split at hp
    · cases hp
    rename_i hanswer
    split at hp
    · rcases List.mem_cons.mp hp with rfl | hp
      · exact .inl (List.mem_singleton_self _)
      · by_cases hfeedback : isFeedback call = true
        · rw [if_pos hfeedback] at hp
          refine .inr ⟨?_, by simpa [hfeedback] using hanswer⟩
          rw [List.mem_singleton.mp hp]
          exact if_pos hfeedback
        · rw [if_neg hfeedback] at hp
          cases hp
    · cases hp
  | acted current w =>
    simp only [advance, update] at hp
    split at hp
    · exact .inl hp
    split at hp
    · cases hp
    split at hp
    · cases hp
    split at hp
    · exact .inl hp
    · cases hp
  | ready effect value => exact .inl hp
  | ended outcome => exact .inl hp

theorem cleared_ended (s : Session) (outcome : Outcome) : Session.cleared { s with phase := .ended outcome } = [] := rfl

theorem cleared_begin (number : Nat) (access : Option TrustedAccess) (call : RepositoryCall) :
    Session.cleared ⟨number, access, call, begin access call⟩ = [] := by
  unfold begin
  split
  · split <;> rfl
  · split <;> rfl
  · rfl

theorem unfinished_of_cleared {s : Session} {p : String} (h : p ∈ s.cleared) : s.finished = false := by
  obtain ⟨number, access, call, phase⟩ := s
  cases phase <;> first | rfl | cases h

namespace Cluster

/-- After a step a session is as it was, new, over, or one statement further. -/
theorem step_cases {limits : Limits} {c : Cluster} (h : Sound c) {event : TransactionEvent} {s' : Session}
    (hs' : s' ∈ (c.step limits event).sessions) : s' ∈ c.sessions ∨
    (∃ number access call, event = .start number access call ∧ s' = ⟨number, access, call, begin access call⟩) ∨
    ∃ s ∈ c.sessions, (∃ outcome, s' = { s with phase := .ended outcome }) ∨
      ∃ authorized, event = .statement s.key authorized ∧
        s' = { s with phase := advance limits c.tables s.access s.call authorized s.phase } := by
  cases event with
  | start number access call =>
    simp only [step] at hs'
    split at hs'
    · exact .inl hs'
    · rcases List.mem_append.mp hs' with hs' | hs'
      · exact .inl hs'
      · exact .inr (.inl ⟨number, access, call, rfl, List.mem_singleton.mp hs'⟩)
  | statement key authorized =>
    simp only [step] at hs'
    cases hfind : c.find key with
    | none =>
      rw [hfind] at hs'
      exact .inl hs'
    | some s =>
      obtain ⟨hmem, hkey⟩ := find_mem hfind
      simp only [hfind] at hs'
      split at hs'
      · exact .inl hs'
      · rcases mem_move h.keys hfind hs' with he | ⟨hold, -⟩
        · exact .inr (.inr ⟨s, hmem, .inr ⟨authorized, by rw [hkey], he⟩⟩)
        · exact .inl hold
  | commit key unexpired answered =>
    simp only [step] at hs'
    cases hfind : c.find key with
    | none =>
      rw [hfind] at hs'
      exact .inl hs'
    | some s =>
      obtain ⟨hmem, hkey⟩ := find_mem hfind
      simp only [hfind] at hs'
      split at hs'
      · split at hs'
        · rcases mem_move h.keys hfind hs' with he | ⟨hold, -⟩
          · exact .inr (.inr ⟨s, hmem, .inl ⟨_, he⟩⟩)
          · exact .inl hold
        · simp only [commit, hkey] at hs'
          rcases mem_move h.keys hfind hs' with he | ⟨hold, -⟩
          · exact .inr (.inr ⟨s, hmem, .inl ⟨_, he⟩⟩)
          · exact .inl hold
      · exact .inl hs'
  | fail key =>
    simp only [step] at hs'
    cases hfind : c.find key with
    | none =>
      rw [hfind] at hs'
      exact .inl hs'
    | some s =>
      obtain ⟨hmem, hkey⟩ := find_mem hfind
      simp only [hfind] at hs'
      split at hs'
      · exact .inl hs'
      · rcases mem_move h.keys hfind hs' with he | ⟨hold, -⟩
        · exact .inr (.inr ⟨s, hmem, .inl ⟨_, he⟩⟩)
        · exact .inl hold

theorem find_of_mem {c : Cluster} (h : Sound c) {s : Session} (hs : s ∈ c.sessions) : c.find s.key = some s := by
  obtain ⟨found, hfound⟩ : ∃ found, c.find s.key = some found := by
    rw [← Option.isSome_iff_exists, find, List.find?_isSome]
    exact ⟨s, hs, by simp⟩
  obtain ⟨hmem, hkey⟩ := find_mem hfound
  rw [hfound, List.inj_on_of_nodup_map h.keys hmem hs hkey]

end Cluster

/-! ## The log -/

namespace IdentityTables

/-- No workspace has gone, and no revision has come back. -/
def Later (t t' : IdentityTables) : Prop := ∀ id r, t.revision id = some r → ∃ r', t'.revision id = some r' ∧ r ≤ r'

theorem Later.refl (t : IdentityTables) : Later t t := fun _ r hr => ⟨r, hr, le_rfl⟩

theorem Later.trans {t t' t'' : IdentityTables} (h : Later t t') (h' : Later t' t'') : Later t t'' := by
  intro id r hr
  obtain ⟨r', hr', hle⟩ := h id r hr
  obtain ⟨r'', hr'', hle'⟩ := h' id r' hr'
  exact ⟨r'', hr'', hle.trans hle'⟩

end IdentityTables

namespace FenceEntry

/-- The identity tables on both sides of an entry. -/
def before : FenceEntry → IdentityTables
  | .resolved _ identity | .committed _ _ identity => identity
  | .changed _ before _ => before

def after : FenceEntry → IdentityTables
  | .resolved _ identity | .committed _ _ identity => identity
  | .changed _ _ after => after

def changedKey : FenceEntry → Option ChangeKey
  | .changed change _ _ => some change.key
  | _ => none

/-- What is true of an entry by itself. -/
def Right : FenceEntry → Prop
  | .resolved context identity => identity.revision context.workspaceId = some context.revision
  | .changed change before after => Changed before after change.key
  | .committed context call identity =>
    identity.revision context.workspaceId = some context.revision ∧
      ∀ p ∈ call.required, IdentityStore.gives identity context p = true

/-- The tables have only moved on since the entries before. -/
def Follows (past : List FenceEntry) (e : FenceEntry) : Prop := ∀ e' ∈ past, Later e'.after e.before

end FenceEntry

structure Recorded (identity : IdentityTables) (log : List FenceEntry) : Prop where
  right : ∀ e ∈ log, e.Right
  follows : Chronicle.Lawful FenceEntry.Follows log
  present : ∀ e ∈ log, Later e.after identity
  keys : log.filterMap FenceEntry.changedKey = identity.changes.map (·.key)

theorem Recorded.append {identity : IdentityTables} {log : List FenceEntry} (h : Recorded identity log) {e : FenceEntry}
    {identity' : IdentityTables} (hright : e.Right) (hbefore : e.before = identity) (hafter : e.after = identity')
    (hlater : Later identity identity') (hkeys : identity'.changes.map (·.key) = identity.changes.map (·.key) ++ e.changedKey.toList) :
    Recorded identity' (log ++ [e]) := by
  refine ⟨?_, Chronicle.lawful_append h.follows ?_, ?_, ?_⟩
  · intro e' he'
    rcases List.mem_append.mp he' with hold | hnew
    · exact h.right e' hold
    · rw [List.mem_singleton.mp hnew]
      exact hright
  · intro e' he'
    rw [hbefore]
    exact h.present e' he'
  · intro e' he'
    rcases List.mem_append.mp he' with hold | hnew
    · exact (h.present e' hold).trans hlater
    · rw [List.mem_singleton.mp hnew, hafter]
      exact Later.refl identity'
  · rw [List.filterMap_append, h.keys, hkeys]
    congr 1

/-! ## Guarded states -/

namespace Fence

variable {limits : Limits} {providers : List IdentityProvider} {digest : ChangePayload → String} {f : Fence}

/-- Whoever has been cleared for a permission has the lock, and is still given the permission. -/
structure Guarded (providers : List IdentityProvider) (digest : ChangePayload → String) (f : Fence) : Prop where
  wellFormed : f.identity.WellFormed
  sound : Sound f.cluster
  exclusive : f.change.isSome = true → f.shared = []
  written : ∀ change result, f.change = some ⟨change, some result⟩ →
    Control.runChange providers digest f.identity change = .ok result
  contexts : ∀ s ∈ f.cluster.sessions, s.access.isSome = true →
    ∃ context, f.contexts.lookup s.key = some context ∧ s.access = some context.access
  cleared : ∀ s ∈ f.cluster.sessions, s.access.isSome = true → ∀ p ∈ s.cleared,
    s.key ∈ f.shared ∧ ∀ context, f.contexts.lookup s.key = some context → IdentityStore.gives f.identity context p = true
  recorded : Recorded f.identity f.log

theorem guarded_empty : Guarded providers digest empty := by
  refine ⟨⟨List.nodup_nil, ?_, List.nodup_nil⟩, Cluster.sound_empty, fun _ => rfl, ?_, ?_, ?_, ⟨?_, Chronicle.lawful_nil, ?_, rfl⟩⟩
  · intro m hm
    cases hm
  · intro change result h
    cases h
  · intro s hs
    cases hs
  · intro s hs
    cases hs
  · intro e he
    cases he
  · intro e he
    cases he

theorem mem_release {c : Cluster} (h : Sound c) {s : Session} (hs : s ∈ c.sessions) (hopen : s.finished = false)
    {shared : List CallKey} (hshared : s.key ∈ shared) : s.key ∈ release c shared := by
  refine List.mem_filter.mpr ⟨hshared, ?_⟩
  rw [Cluster.find_of_mem h hs]
  simp [hopen]

/-- A step of the repository's, if the answers it gives are those of the identity tables. -/
theorem guarded_advance (h : Guarded providers digest f) {event : TransactionEvent}
    (hstart : ∀ number access call, event ≠ .start number access call)
    (hanswer : ∀ s ∈ f.cluster.sessions, s.access.isSome = true → event = .statement s.key true → ∀ p, s.authorizes = some p →
      s.key ∈ f.shared ∧ ∀ context, f.contexts.lookup s.key = some context → IdentityStore.gives f.identity context p = true) :
    Guarded providers digest (f.advance limits event) := by
  have hsound : Sound (f.cluster.step limits event) := Cluster.sound_step h.sound event
  refine ⟨h.wellFormed, hsound, ?_, h.written, ?_, ?_, h.recorded⟩
  · intro hchange
    show release _ f.shared = []
    rw [h.exclusive hchange]
    rfl
  · intro s' hs' haccess
    rcases Cluster.step_cases h.sound hs' with hold | ⟨number, access, call, he, -⟩ | ⟨s, hs, ⟨outcome, rfl⟩ | ⟨authorized, -, rfl⟩⟩
    · exact h.contexts s' hold haccess
    · exact absurd he (hstart number access call)
    · exact h.contexts s hs haccess
    · exact h.contexts s hs haccess
  · intro s' hs' haccess p hp
    have hgiven : s'.key ∈ f.shared ∧
        ∀ context, f.contexts.lookup s'.key = some context → IdentityStore.gives f.identity context p = true := by
      rcases Cluster.step_cases h.sound hs' with hold | ⟨number, access, call, he, -⟩ | ⟨s, hs, ⟨outcome, rfl⟩ | ⟨authorized, he, rfl⟩⟩
      · exact h.cleared s' hold haccess p hp
      · exact absurd he (hstart number access call)
      · rw [cleared_ended] at hp
        cases hp
      · rcases cleared_advance (s := s) haccess p hp with hp | ⟨hasks, rfl⟩
        · exact h.cleared s hs haccess p hp
        · exact hanswer s hs haccess he p hasks
    exact ⟨mem_release hsound hs' (unfinished_of_cleared hp) hgiven.1, hgiven.2⟩

theorem guarded_statement (h : Guarded providers digest f) (key : CallKey) (unexpired : Bool) :
    Guarded providers digest (f.statement limits key unexpired) := by
  simp only [statement]
  split
  · exact h
  rename_i s hfind
  obtain ⟨hmem, rfl⟩ := Cluster.find_mem hfind
  have hsame : ∀ s' ∈ f.cluster.sessions, s'.key = s.key → s' = s := fun s' hs' he =>
    List.inj_on_of_nodup_map h.sound.keys hs' hmem he
  split
  · rename_i hnone
    refine guarded_advance h (fun _ _ _ => by simp) ?_
    intro s' hs' _ he p hp
    obtain rfl : s' = s := hsame s' hs' (by simpa using he.symm)
    rw [hnone] at hp
    cases hp
  · rename_i permission hasks
    split
    · rename_i hshared
      refine guarded_advance h (fun _ _ _ => by simp) ?_
      intro s' hs' _ he p hp
      simp only [TransactionEvent.statement.injEq] at he
      obtain ⟨hkey, hanswer⟩ := he
      obtain rfl : s' = s := hsame s' hs' hkey.symm
      rw [hasks] at hp
      obtain rfl := Option.some.inj hp
      refine ⟨by simpa using hshared, ?_⟩
      intro context hcontext
      rw [hcontext, Option.any_some, Bool.and_eq_true] at hanswer
      exact hanswer.2
    · exact h

/-- The context of an open session is given all that its call asks for. -/
theorem ready_given (h : Guarded providers digest f) {key : CallKey} {s : Session} (hfind : f.cluster.find key = some s)
    {effect : Effect} {value : RepositoryValue} (hphase : s.phase = .ready effect value) (haccess : s.access.isSome = true) :
    ∃ context, f.contexts.lookup key = some context ∧ s.access = some context.access ∧
      ∀ p ∈ s.call.required, IdentityStore.gives f.identity context p = true := by
  obtain ⟨hmem, rfl⟩ := Cluster.find_mem hfind
  obtain ⟨context, hcontext, he⟩ := h.contexts s hmem haccess
  refine ⟨context, hcontext, he, ?_⟩
  intro p hp
  have hcleared : p ∈ s.cleared := by
    unfold Session.cleared
    rw [hphase]
    exact hp
  exact (h.cleared s hmem haccess p hcleared).2 context hcontext

theorem guarded_commit (h : Guarded providers digest f) (key : CallKey) (unexpired answered : Bool) :
    Guarded providers digest (f.commit limits key unexpired answered) := by
  simp only [commit]
  split
  · exact h
  rename_i s hfind
  have hnext : Guarded providers digest (f.advance limits (.commit key unexpired answered)) :=
    guarded_advance h (fun _ _ _ => by simp) (fun _ _ _ he => by cases he)
  split
  · rename_i effect value context hphase hcontext
    split
    · rename_i hcommits
      rw [Bool.and_eq_true] at hcommits
      obtain ⟨context', hcontext', -, hgiven⟩ := ready_given h hfind hphase hcommits.1
      obtain rfl : context' = context := Option.some.inj (hcontext'.symm.trans hcontext)
      refine ⟨hnext.wellFormed, hnext.sound, hnext.exclusive, hnext.written, hnext.contexts, hnext.cleared, ?_⟩
      refine h.recorded.append (e := .committed context' s.call f.identity) ⟨?_, hgiven⟩ rfl rfl (Later.refl _) ?_
      · exact revision_of_gives h.wellFormed (hgiven _ (permission_mem_required s.call))
      · exact (List.append_nil _).symm
    · exact hnext
  · exact hnext

theorem run_concat (events : List FenceEvent) (event : FenceEvent) :
    run limits providers digest (events ++ [event]) = step limits providers digest (run limits providers digest events) event := by
  rw [run, List.foldl_append]
  rfl

theorem Guarded.drop (h : Guarded providers digest f) : Guarded providers digest { f with change := none } :=
  ⟨h.wellFormed, h.sound, (nomatch ·), fun _ _ he => (nomatch he), h.contexts, h.cleared, h.recorded⟩

theorem lookup_opened {key key' : CallKey} (hne : key' ≠ key) (context : Option TrustedContext)
    (contexts : List (CallKey × TrustedContext)) :
    ((context.map fun context => (key, context)).toList ++ contexts).lookup key' = contexts.lookup key' := by
  cases context with
  | none => rfl
  | some context =>
    have hbeq : (key' == key) = false := by simpa using hne
    simp [List.lookup_cons, hbeq]

theorem guarded_start (h : Guarded providers digest f) (number : Nat) (context : Option TrustedContext) (call : RepositoryCall) :
    Guarded providers digest (step limits providers digest f (.start number context call)) := by
  simp only [step]
  split
  · exact h
  rename_i hfree
  have hnew : ∀ s ∈ f.cluster.sessions, s.key ≠ (scopeOf (context.map (·.access)), number) := by
    intro s hs he
    rw [← he, Cluster.find_of_mem h.sound hs] at hfree
    exact hfree rfl
  have hsound : Sound (f.cluster.step limits (.start number (context.map (·.access)) call)) := Cluster.sound_step h.sound _
  refine ⟨h.wellFormed, hsound, h.exclusive, h.written, ?_, ?_, h.recorded⟩
  · intro s' hs' haccess
    rcases Cluster.step_cases h.sound hs' with hold | ⟨_, _, _, he, rfl⟩ | ⟨s, hs, ⟨outcome, rfl⟩ | ⟨authorized, he, -⟩⟩
    · rw [lookup_opened (hnew s' hold)]
      exact h.contexts s' hold haccess
    · cases he
      cases context with
      | none => cases haccess
      | some context => exact ⟨context, by simp [Session.key], rfl⟩
    · show ∃ ctx, List.lookup s.key _ = some ctx ∧ _
      rw [lookup_opened (hnew s hs)]
      exact h.contexts s hs haccess
    · cases he
  · intro s' hs' haccess p hp
    rcases Cluster.step_cases h.sound hs' with hold | ⟨_, _, _, he, rfl⟩ | ⟨s, hs, ⟨outcome, rfl⟩ | ⟨authorized, he, -⟩⟩
    · rw [lookup_opened (hnew s' hold)]
      exact h.cleared s' hold haccess p hp
    · rw [cleared_begin] at hp
      cases hp
    · rw [cleared_ended] at hp
      cases hp
    · cases he

theorem guarded_step (h : Guarded providers digest f) (event : FenceEvent) :
    Guarded providers digest (step limits providers digest f event) := by
  cases event with
  | resolve issuer subject identityTenant workspaceId =>
    simp only [step]
    split
    · exact h
    · rename_i context hresolve
      refine ⟨h.wellFormed, h.sound, h.exclusive, h.written, h.contexts, h.cleared, ?_⟩
      refine h.recorded.append (e := .resolved context f.identity) ?_ rfl rfl (Later.refl _) ?_
      · exact revision_of_resolve h.wellFormed hresolve
      · exact (List.append_nil _).symm
  | start number context call => exact guarded_start h number context call
  | gate key =>
    simp only [step]
    split
    · exact h
    rename_i hfree
    split
    · exact h
    split
    · exact h
    · refine ⟨h.wellFormed, h.sound, ?_, h.written, h.contexts, ?_, h.recorded⟩
      · intro hchange
        rw [show f.change.isSome = true from hchange, Bool.true_or] at hfree
        exact absurd rfl hfree
      · intro s hs haccess p hp
        obtain ⟨hshared, hgiven⟩ := h.cleared s hs haccess p hp
        exact ⟨List.mem_append_left _ hshared, hgiven⟩
  | statement key unexpired => exact guarded_statement h key unexpired
  | commit key unexpired answered => exact guarded_commit h key unexpired answered
  | fail key => exact guarded_advance h (fun _ _ _ => by simp) (fun _ _ _ he => by cases he)
  | lock change =>
    simp only [step]
    split
    · exact h
    rename_i hfree
    simp only [Bool.or_eq_true, not_or, Bool.not_eq_true, Bool.not_eq_false'] at hfree
    refine ⟨h.wellFormed, h.sound, fun _ => ?_, ?_, h.contexts, h.cleared, h.recorded⟩
    · exact List.isEmpty_iff.mp hfree.1.2
    · intro change' result he
      cases he
  | runChange =>
    simp only [step]
    split
    · rename_i change hchange
      split
      · rename_i result hresult
        refine ⟨h.wellFormed, h.sound, fun _ => h.exclusive (by rw [hchange]; rfl), ?_, h.contexts, h.cleared, h.recorded⟩
        intro change' result' he
        obtain ⟨rfl, rfl⟩ : change = change' ∧ result = result' := by simpa using he
        exact hresult
      · exact h.drop
    · exact h
  | commitChange unexpired =>
    simp only [step]
    split
    · rename_i change written applied hchange
      split
      · exact h.drop
      -- Nobody holds the lock shared, so nobody has been cleared for anything.
      have hnobody : ∀ s ∈ f.cluster.sessions, s.access.isSome = true → ∀ p ∈ s.cleared, False := by
        intro s hs haccess p hp
        have hshared := (h.cleared s hs haccess p hp).1
        rw [h.exclusive (by rw [hchange]; rfl)] at hshared
        cases hshared
      have hcleared : ∀ s ∈ f.cluster.sessions, s.access.isSome = true → ∀ p ∈ s.cleared, s.key ∈ f.shared ∧
          ∀ context, f.contexts.lookup s.key = some context → IdentityStore.gives written context p = true :=
        fun s hs haccess p hp => (hnobody s hs haccess p hp).elim
      rcases runChange_ok h.wellFormed (h.written _ _ hchange) with ⟨rfl, rfl⟩ | ⟨rfl, hchanged⟩
      · exact h.drop
      · refine ⟨hchanged.wellFormed, h.sound, (nomatch ·), fun _ _ he => (nomatch he), h.contexts, hcleared, ?_⟩
        exact h.recorded.append (e := .changed change f.identity written) hchanged rfl rfl hchanged.later hchanged.keys
    · exact h
  | failChange => exact h.drop

theorem guarded_run (events : List FenceEvent) : Guarded providers digest (run limits providers digest events) := by
  induction events using List.reverseRecOn with
  | nil => exact guarded_empty
  | append_singleton events event ih =>
    rw [run_concat]
    exact guarded_step ih event

/-- The identity tables move by committed changes only. -/
theorem moved_logged (f : Fence) (event : FenceEvent)
    (hne : (step limits providers digest f event).identity ≠ f.identity) (h : Guarded providers digest f) :
    ∃ change, (step limits providers digest f event).log =
      f.log ++ [FenceEntry.changed change f.identity (step limits providers digest f event).identity] := by
  cases event with
  | commitChange unexpired =>
    simp only [step] at hne ⊢
    split at hne
    · rename_i change written applied hchange
      split at hne
      · exact absurd rfl hne
      · rename_i hexpired
        rcases runChange_ok h.wellFormed (h.written _ _ hchange) with ⟨-, he⟩ | ⟨rfl, -⟩
        · exact absurd he hne
        · refine ⟨change, ?_⟩
          simp only [if_neg hexpired, if_true]
    · exact absurd rfl hne
  | resolve issuer subject identityTenant workspaceId =>
    simp only [step] at hne
    split at hne <;> exact absurd rfl hne
  | start number context call =>
    simp only [step] at hne
    split at hne <;> exact absurd rfl hne
  | gate key =>
    simp only [step] at hne
    split at hne
    · exact absurd rfl hne
    split at hne
    · exact absurd rfl hne
    split at hne <;> exact absurd rfl hne
  | statement key unexpired =>
    simp only [step, statement] at hne
    split at hne
    · exact absurd rfl hne
    split at hne
    · exact absurd rfl hne
    split at hne <;> exact absurd rfl hne
  | commit key unexpired answered =>
    simp only [step, commit] at hne
    split at hne
    · exact absurd rfl hne
    split at hne
    · split at hne <;> exact absurd rfl hne
    · exact absurd rfl hne
  | fail key => exact absurd rfl hne
  | lock change =>
    simp only [step] at hne
    split at hne <;> exact absurd rfl hne
  | runChange =>
    simp only [step] at hne
    split at hne
    · split at hne <;> exact absurd rfl hne
    · exact absurd rfl hne
  | failChange => exact absurd rfl hne

/-- A context from before an alteration of its workspace is at an old revision ever after. -/
theorem no_commit_after (h : Recorded f.identity f.log) {l₁ l₂ l₃ : List FenceEntry} {context : TrustedContext}
    {resolvedAt before after : IdentityTables} {change : IdentityChange}
    (hlog : f.log = l₁ ++ FenceEntry.resolved context resolvedAt :: (l₂ ++ FenceEntry.changed change before after :: l₃))
    (haltered : ∃ principalId e,
      ¬ (before.Effective principalId context.workspaceId e ↔ after.Effective principalId context.workspaceId e))
    (call : RepositoryCall) (identity : IdentityTables) : .committed context call identity ∉ l₃ := by
  intro hmem
  obtain ⟨m₁, m₂, rfl⟩ := List.append_of_mem hmem
  have hresolved : FenceEntry.Right (.resolved context resolvedAt) := h.right _ (by simp [hlog])
  have hchanged : FenceEntry.Right (.changed change before after) := h.right _ (by simp [hlog])
  have hcommitted : FenceEntry.Right (.committed context call identity) := h.right _ (by simp [hlog])
  have hbefore : Later resolvedAt before := by
    refine h.follows (l₁ ++ FenceEntry.resolved context resolvedAt :: l₂) (.changed change before after)
      (m₁ ++ FenceEntry.committed context call identity :: m₂) ?_
      (.resolved context resolvedAt) (by simp)
    simp only [hlog, List.append_assoc, List.cons_append]
  have hafter : Later after identity := by
    refine h.follows (l₁ ++ FenceEntry.resolved context resolvedAt :: (l₂ ++ FenceEntry.changed change before after :: m₁))
      (.committed context call identity) m₂ ?_ (.changed change before after) (by simp)
    simp only [hlog, List.append_assoc, List.cons_append]
  obtain ⟨r, hr, hle⟩ := hbefore _ _ hresolved
  obtain ⟨r', hr', hle'⟩ := hafter _ _ (hchanged.revised _ _ hr haltered)
  have he : context.revision = r' := Option.some.inj (hcommitted.1.symm.trans hr')
  omega

end Fence

/-- In every interleaving of transactions and identity changes: whoever can commit with a context
    is given the required permissions by the committed tables, and so was everyone who did; a
    change that alters what anyone may do in an existing workspace gives it a new revision, and no
    context resolved before commits after it; and no request is applied twice. -/
theorem revocation_fence (limits : Limits) (providers : List IdentityProvider) (digest : ChangePayload → String)
    (events : List FenceEvent) :
    let f := Fence.run limits providers digest events
    (∀ key s effect value answered, f.cluster.find key = some s → s.phase = .ready effect value → s.access.isSome = true →
      ∃ context, f.contexts.lookup key = some context ∧ s.access = some context.access ∧
        (∀ p ∈ s.call.required, IdentityStore.gives f.identity context p = true) ∧
        (f.step limits providers digest (.commit key true answered)).log = f.log ++ [FenceEntry.committed context s.call f.identity]) ∧
    (∀ context call identity, .committed context call identity ∈ f.log →
      ∀ p ∈ call.required, IdentityStore.gives identity context p = true) ∧
    (∀ event, (f.step limits providers digest event).identity ≠ f.identity → ∃ change,
      (f.step limits providers digest event).log =
        f.log ++ [FenceEntry.changed change f.identity (f.step limits providers digest event).identity]) ∧
    (∀ change before after, .changed change before after ∈ f.log → ∀ id r, before.revision id = some r →
      (∃ principalId e, ¬ (before.Effective principalId id e ↔ after.Effective principalId id e)) →
      after.revision id = some (r + 1)) ∧
    (∀ l₁ l₂ l₃ context resolvedAt change before after,
      f.log = l₁ ++ FenceEntry.resolved context resolvedAt :: (l₂ ++ FenceEntry.changed change before after :: l₃) →
      (∃ principalId e,
        ¬ (before.Effective principalId context.workspaceId e ↔ after.Effective principalId context.workspaceId e)) →
      ∀ call identity, .committed context call identity ∉ l₃) ∧
    (f.log.filterMap FenceEntry.changedKey).Nodup := by
  intro f
  have h : Fence.Guarded providers digest f := Fence.guarded_run events
  refine ⟨?_, ?_, ?_, ?_, ?_, ?_⟩
  · intro key s effect value answered hfind hphase haccess
    obtain ⟨context, hcontext, he, hgiven⟩ := Fence.ready_given h hfind hphase haccess
    refine ⟨context, hcontext, he, hgiven, ?_⟩
    simp only [Fence.step, Fence.commit, hfind, hphase, hcontext, haccess, Bool.and_self, if_true]
  · intro context call identity hmem
    exact (h.recorded.right _ hmem).2
  · intro event hne
    exact Fence.moved_logged f event hne h
  · intro change before after hmem
    exact (h.recorded.right _ hmem).revised
  · intro l₁ l₂ l₃ context resolvedAt change before after hlog haltered
    exact Fence.no_commit_after h.recorded hlog haltered
  · rw [h.recorded.keys]
    exact h.wellFormed.changeKeys

end DataNexus.Control
