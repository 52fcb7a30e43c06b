/-
  DataNexus.Runtime.RunClaim — who owns a run id (`QueryCoordinator._claim_run`,
  `_settle_claim`, `_owns_run`, `run`'s except and finally; `InMemoryEventStore.claim`).

  Any number of coordinators share one event store, any number of calls of `run` are made
  on each. A call claims its id in three phases: a marker in its coordinator's
  `_claiming_run_ids`, the shared store's claim (a task of its own, which may fail or be
  cancelled), and the registration (or only the marker's removal), again a task. The caller
  can be cancelled in each of them: `_wait_for_task_completion` notes it and goes on
  waiting. A section under `_run_lock` never suspends, so the lock is free whenever a task
  is scheduled and the section is one step. Each call makes its own `cancel_event`; the
  event's identity is the call.

  What the owner does between registration and its finally block is not modelled here,
  except that it appends events, may be interrupted (it then appends the events of
  `_finalize_outer_cancellation`), and that tasks it leaves behind may still append.

  Proved: `run_id_ownership`.
-/

import Mathlib

namespace DataNexus.Runtime.RunClaim

/-- How a call of `run` ends. -/
inductive Outcome (Err : Type) where
  | conflict
  | claimError (e : Err)
  | cancelled
  /-- The run's own return or exception. -/
  | ran
  deriving DecidableEq

/-- What the claim task ended with. -/
inductive ClaimResult (Err : Type) where
  | answered (claimed : Bool)
  | failed (e : Err)
  | cancelled
  deriving DecidableEq

inductive Phase (Err : Type) where
  | idle
  /-- Awaiting the store's claim. -/
  | claiming (claim : Option (ClaimResult Err)) (wasCancelled : Bool)
  /-- Awaiting `_settle_claim`: `register=True` when no error is pending. -/
  | settling (pendingError : Option (Outcome Err)) (settled wasCancelled : Bool)
  /-- In the run's body, or in the finalizer of its cancellation. -/
  | owning (finalizing : Bool)
  | left (owned : Bool) (outcome : Outcome Err)
  deriving DecidableEq

section Model

variable {Coord Run Call Err : Type} [DecidableEq Coord] [DecidableEq Run] [DecidableEq Call]

/-- Write one coordinator's entry for one run id. -/
def put {β : Type} (table : Coord → Run → β) (k : Coord) (r : Run) (v : β) : Coord → Run → β :=
  fun k' r' => if k' = k ∧ r' = r then v else table k' r'

@[simp] theorem put_self {β : Type} (table : Coord → Run → β) (k : Coord) (r : Run) (v : β) :
    put table k r v k r = v := by simp [put]

theorem put_of_ne {β : Type} (table : Coord → Run → β) {k k' : Coord} {r r' : Run} (v : β) (h : ¬ (k' = k ∧ r' = r)) :
    put table k r v k' r' = table k' r' := by rw [put, if_neg h]

structure St (Coord Run Call Err : Type) where
  /-- The coordinators' `_known_run_ids`, `_claiming_run_ids`, `_accepting_cancellation` and
      `_cancellations`. -/
  known : Coord → Run → Bool
  claiming : Coord → Run → Bool
  accepting : Coord → Run → Bool
  cancellations : Coord → Run → Option Call
  /-- The store's `_claimed_run_ids` and the ids with events from before. -/
  claimed : Run → Bool
  earlier : Run → Bool
  /-- The events appended by these calls, and their `release_run`s. -/
  events : List (Run × Call)
  releases : List (Run × Call)
  /-- Every `_register_run` so far. -/
  registered : List (Run × Call)
  /-- The calls' `cancel_event`s. -/
  flag : Call → Bool
  coord : Call → Coord
  run : Call → Run
  phase : Call → Phase Err

def init (claimed earlier : Run → Bool) (coord : Call → Coord) (run : Call → Run) : St Coord Run Call Err where
  known _ _ := false
  claiming _ _ := false
  accepting _ _ := false
  cancellations _ _ := none
  claimed := claimed
  earlier := earlier
  events := []
  releases := []
  registered := []
  flag _ := false
  coord := coord
  run := run
  phase _ := .idle

inductive Ev (Coord Run Call Err : Type) where
  | call (c : Call)
  /-- The claim task runs: it answers, or fails or is cancelled before or after marking the id. -/
  | claim (c : Call) (failure : Option (Bool × Option Err))
  | settle (c : Call)
  /-- The call resumes once the task it awaits is done. -/
  | wake (c : Call)
  /-- The caller's task is cancelled. -/
  | cancel (c : Call)
  | append (c : Call)
  | finish (c : Call)
  /-- `QueryCoordinator.cancel`. -/
  | cancelRun (k : Coord) (r : Run)

def Ev.actor : Ev Coord Run Call Err → Option Call
  | .call c | .claim c _ | .settle c | .wake c | .cancel c | .append c | .finish c => some c
  | .cancelRun _ _ => none

namespace St

variable (s : St Coord Run Call Err) (c : Call)

def setPhase (p : Phase Err) : St Coord Run Call Err := { s with phase := Function.update s.phase c p }

/-- `_owns_run`. -/
def owns : Bool := s.cancellations (s.coord c) (s.run c) = some c

/-- The `finally` block, and the call is over. -/
def leave (owned : Bool) (outcome : Outcome Err) : St Coord Run Call Err :=
  if s.owns c then
    { s with
      releases := s.releases ++ [(s.run c, c)]
      accepting := put s.accepting (s.coord c) (s.run c) false
      cancellations := put s.cancellations (s.coord c) (s.run c) none
      phase := Function.update s.phase c (.left owned outcome) }
  else s.setPhase c (.left owned outcome)

/-- `except asyncio.CancelledError`: the owner goes on to the finalizer, any other call leaves. -/
def exceptCancelled (owned : Bool) : St Coord Run Call Err :=
  if s.owns c then
    { s with
      flag := Function.update s.flag c true
      accepting := put s.accepting (s.coord c) (s.run c) false }.setPhase c (.owning true)
  else { s with flag := Function.update s.flag c true }.leave c owned .cancelled

/-- An exception leaves `_claim_run`. -/
def raised (outcome : Outcome Err) : St Coord Run Call Err :=
  match outcome with
  | .cancelled => s.exceptCancelled c false
  | outcome => s.leave c false outcome

/-- `_settle_claim` with `register=False`. -/
def unmark : St Coord Run Call Err := { s with claiming := put s.claiming (s.coord c) (s.run c) false }

/-- `_register_run`. -/
def register : St Coord Run Call Err :=
  { s with
    known := put s.known (s.coord c) (s.run c) true
    cancellations := put s.cancellations (s.coord c) (s.run c) (some c)
    accepting := put s.accepting (s.coord c) (s.run c) true
    registered := s.registered ++ [(s.run c, c)] }

/-- `InMemoryEventStore.claim` answers whether the id is new. -/
def claimAnswer : Bool := !s.claimed (s.run c) && !s.earlier (s.run c) && !s.events.any (·.1 = s.run c)

def mark : St Coord Run Call Err := { s with claimed := Function.update s.claimed (s.run c) true }

end St

/-- What follows the claim: the error it leads to, or none and the id is registered. -/
def pendingError (wasCancelled : Bool) : ClaimResult Err → Option (Outcome Err)
  | .answered true => none
  | .answered false => some (if wasCancelled then .cancelled else .conflict)
  | .failed e => some (if wasCancelled then .cancelled else .claimError e)
  | .cancelled => some .cancelled

/-- A cancelled claim looks to `_wait_for_task_completion` like a cancelled caller. -/
def noticed (wasCancelled : Bool) : ClaimResult Err → Bool
  | .cancelled => true
  | _ => wasCancelled

def step (s : St Coord Run Call Err) : Ev Coord Run Call Err → St Coord Run Call Err
  | .call c =>
    match s.phase c with
    | .idle =>
      if s.known (s.coord c) (s.run c) || s.claiming (s.coord c) (s.run c) then s.leave c false .conflict
      else { s with claiming := put s.claiming (s.coord c) (s.run c) true }.setPhase c (.claiming none false)
    | _ => s
  | .claim c failure =>
    match s.phase c, failure with
    | .claiming none wasCancelled, none =>
      (if s.claimAnswer c then s.mark c else s).setPhase c (.claiming (some (.answered (s.claimAnswer c))) wasCancelled)
    | .claiming none wasCancelled, some (marked, some e) =>
      (if marked then s.mark c else s).setPhase c (.claiming (some (.failed e)) wasCancelled)
    | .claiming none wasCancelled, some (marked, none) =>
      (if marked then s.mark c else s).setPhase c (.claiming (some .cancelled) wasCancelled)
    | _, _ => s
  | .settle c =>
    match s.phase c with
    | .settling none false wasCancelled => ((s.unmark c).register c).setPhase c (.settling none true wasCancelled)
    | .settling (some e) false wasCancelled => (s.unmark c).setPhase c (.settling (some e) true wasCancelled)
    | _ => s
  | .wake c =>
    match s.phase c with
    | .claiming (some result) wasCancelled =>
      let wasCancelled := noticed wasCancelled result
      s.setPhase c (.settling (pendingError wasCancelled result) false wasCancelled)
    | .settling none true true => s.exceptCancelled c true
    | .settling none true false => s.setPhase c (.owning false)
    | .settling (some e) true wasCancelled => s.raised c (if wasCancelled then .cancelled else e)
    | _ => s
  | .cancel c =>
    match s.phase c with
    | .claiming claim _ => s.setPhase c (.claiming claim true)
    | .settling e settled _ => s.setPhase c (.settling e settled true)
    | .owning false => s.exceptCancelled c true
    | _ => s
  | .append c =>
    match s.phase c with
    | .owning _ | .left true _ => { s with events := s.events ++ [(s.run c, c)] }
    | _ => s
  | .finish c =>
    match s.phase c with
    | .owning finalizing => s.leave c true (if finalizing then .cancelled else .ran)
    | _ => s
  | .cancelRun k r =>
    match s.cancellations k r with
    | some c => if s.accepting k r then { s with flag := Function.update s.flag c true } else s
    | none => s

inductive Reach : St Coord Run Call Err → Prop
  | init (claimed earlier : Run → Bool) (coord : Call → Coord) (run : Call → Run) : Reach (init claimed earlier coord run)
  | step {s : St Coord Run Call Err} (e : Ev Coord Run Call Err) : Reach s → Reach (step s e)

/-! ## The invariant -/

/-- The store has answered that the id is the call's. -/
@[simp] def Phase.won : Phase Err → Prop
  | .claiming (some (.answered true)) _ | .settling none _ _ | .owning _ | .left true _ => True
  | _ => False

/-- The call has registered its id. -/
@[simp] def Phase.registered : Phase Err → Prop
  | .settling none true _ | .owning _ | .left true _ => True
  | _ => False

/-- The call's event is its coordinator's entry for the id. -/
@[simp] def Phase.live : Phase Err → Prop
  | .settling none true _ | .owning _ => True
  | _ => False

/-- The call's marker is in `_claiming_run_ids`. -/
@[simp] def Phase.marking : Phase Err → Prop
  | .claiming _ _ | .settling _ false _ => True
  | _ => False

/-- A call that does not register never ends as a run. -/
@[simp] def Phase.sound : Phase Err → Prop
  | .settling (some e) _ _ | .left false e => e ≠ .ran
  | _ => True

@[simp] def Phase.gone : Phase Err → Prop
  | .idle | .left _ _ => True
  | _ => False

theorem Phase.won_of_registered {p : Phase Err} (h : p.registered) : p.won := by
  unfold Phase.registered at h
  split at h <;> trivial

theorem Phase.registered_of_live {p : Phase Err} (h : p.live) : p.registered := by
  unfold Phase.live at h
  split at h <;> trivial

structure Inv (s : St Coord Run Call Err) : Prop where
  once : (s.registered.map (·.1)).Nodup
  registered : ∀ r c, (r, c) ∈ s.registered ↔ s.run c = r ∧ (s.phase c).registered
  claimed : ∀ c, (s.phase c).won → s.claimed (s.run c) = true
  unique : ∀ c d, (s.phase c).won → (s.phase d).won → s.run c = s.run d → c = d
  entry : ∀ k r c, s.cancellations k r = some c ↔ s.coord c = k ∧ s.run c = r ∧ (s.phase c).live
  marker : ∀ k r, s.claiming k r = true → ∃ c, s.coord c = k ∧ s.run c = r ∧ (s.phase c).marking
  sound : ∀ c, (s.phase c).sound
  events : ∀ r c, (r, c) ∈ s.events → (r, c) ∈ s.registered
  releases : ∀ r c, (r, c) ∈ s.releases → (r, c) ∈ s.registered

variable {s : St Coord Run Call Err} {c : Call}

omit [DecidableEq Coord] [DecidableEq Run] [DecidableEq Call] in
theorem init_inv (claimed earlier : Run → Bool) (coord : Call → Coord) (run : Call → Run) :
    Inv (init claimed earlier coord run : St Coord Run Call Err) := by
  constructor <;> simp [init]

omit [DecidableEq Coord] [DecidableEq Run] in
theorem owns_iff (hi : Inv s) : s.owns c = true ↔ (s.phase c).live := by
  rw [St.owns, decide_eq_true_iff, hi.entry]
  simp

omit [DecidableEq Coord] [DecidableEq Run] [DecidableEq Call] in
/-- Only the parts the invariant speaks of matter. -/
theorem Inv.congr (hi : Inv s) {s' : St Coord Run Call Err} (hreg : s'.registered = s.registered)
    (hrun : s'.run = s.run) (hcoord : s'.coord = s.coord) (hclaimed : ∀ r, s.claimed r = true → s'.claimed r = true)
    (hcan : s'.cancellations = s.cancellations) (hmark : s'.claiming = s.claiming) (hphase : s'.phase = s.phase)
    (hev : ∀ r c, (r, c) ∈ s'.events → (r, c) ∈ s.registered)
    (hrel : s'.releases = s.releases) : Inv s' := by
  constructor
  · rw [hreg]; exact hi.once
  · rw [hreg, hrun, hphase]; exact hi.registered
  · rw [hphase, hrun]; exact fun d hd => hclaimed _ (hi.claimed d hd)
  · rw [hphase, hrun]; exact hi.unique
  · rw [hcan, hcoord, hrun, hphase]; exact hi.entry
  · rw [hmark, hcoord, hrun, hphase]; exact hi.marker
  · rw [hphase]; exact hi.sound
  · rw [hreg]; exact hev
  · rw [hreg, hrel]; exact hi.releases

/-- Two phases the invariant does not tell apart. -/
structure SameClass (p q : Phase Err) : Prop where
  won : q.won ↔ p.won
  registered : q.registered ↔ p.registered
  live : q.live ↔ p.live
  marking : q.marking ↔ p.marking
  sound : p.sound → q.sound

omit [DecidableEq Coord] [DecidableEq Run] in
theorem setPhase_inv (hi : Inv s) {p : Phase Err} (hp : SameClass (s.phase c) p) : Inv (s.setPhase c p) := by
  have hphase : ∀ d, SameClass (s.phase d) ((s.setPhase c p).phase d) := by
    intro d
    by_cases e : d = c
    · subst e
      simpa [St.setPhase] using hp
    · simpa [St.setPhase, e] using ⟨.rfl, .rfl, .rfl, .rfl, id⟩
  refine ⟨hi.once, fun r d => ?_, fun d hd => ?_, fun d d' hd hd' => ?_, fun k r d => ?_, fun k r hk => ?_,
    fun d => (hphase d).sound (hi.sound d), hi.events, hi.releases⟩
  · rw [(hphase d).registered]
    exact hi.registered r d
  · exact hi.claimed d ((hphase d).won.mp hd)
  · exact hi.unique d d' ((hphase d).won.mp hd) ((hphase d').won.mp hd')
  · rw [(hphase d).live]
    exact hi.entry k r d
  · obtain ⟨d, h1, h2, h3⟩ := hi.marker k r hk
    exact ⟨d, h1, h2, (hphase d).marking.mpr h3⟩

omit [DecidableEq Coord] [DecidableEq Call] in
theorem mark_inv (hi : Inv s) : Inv (s.mark c) := by
  refine hi.congr rfl rfl rfl (fun r hr => ?_) rfl rfl rfl hi.events rfl
  simp only [St.mark, Function.update_apply]
  split
  · rfl
  · exact hr

omit [DecidableEq Coord] [DecidableEq Run] [DecidableEq Call] in
theorem append_inv (hi : Inv s) (hr : (s.phase c).registered) : Inv { s with events := s.events ++ [(s.run c, c)] } := by
  refine hi.congr rfl rfl rfl (fun _ h => h) rfl rfl rfl (fun r d hd => ?_) rfl
  rcases List.mem_append.mp hd with hd | hd
  · exact hi.events r d hd
  · obtain ⟨rfl, rfl⟩ := by simpa using hd
    exact (hi.registered _ _).mpr ⟨rfl, hr⟩

/-- A call that owns nothing leaves without touching anything. -/
theorem leave_of_not_live (hi : Inv s) (hl : ¬ (s.phase c).live) (owned : Bool) (outcome : Outcome Err) :
    s.leave c owned outcome = s.setPhase c (.left owned outcome) := by
  rw [St.leave, if_neg (fun h => hl ((owns_iff hi).mp h))]

theorem leave_inv_of_live (hi : Inv s) (hl : (s.phase c).live) (outcome : Outcome Err) :
    Inv (s.leave c true outcome) := by
  have hr := Phase.registered_of_live hl
  have hw := Phase.won_of_registered hr
  rw [St.leave, if_pos ((owns_iff hi).mpr hl)]
  have hreg : ∀ d, (Function.update s.phase c (.left true outcome) d).registered ↔ (s.phase d).registered := by
    intro d
    by_cases e : d = c
    · subst e; rw [Function.update_self]; exact iff_of_true trivial hr
    · simp [e]
  have hwon : ∀ d, (Function.update s.phase c (.left true outcome) d).won ↔ (s.phase d).won := by
    intro d
    by_cases e : d = c
    · subst e; rw [Function.update_self]; exact iff_of_true trivial hw
    · simp [e]
  refine ⟨hi.once, fun r d => (hi.registered r d).trans (and_congr_right fun _ => (hreg d).symm),
    fun d hd => hi.claimed d ((hwon d).mp hd), fun d d' hd hd' => hi.unique d d' ((hwon d).mp hd) ((hwon d').mp hd'),
    fun k r d => ?_, fun k r hk => ?_, fun d => ?_, hi.events, fun r d hd => ?_⟩
  · show put s.cancellations (s.coord c) (s.run c) none k r = some d ↔
      s.coord d = k ∧ s.run d = r ∧ (Function.update s.phase c (.left true outcome) d).live
    by_cases e : k = s.coord c ∧ r = s.run c
    · -- Its entry is gone, and no other call with this id is live.
      obtain ⟨rfl, rfl⟩ := e
      simp only [put_self, reduceCtorEq, false_iff]
      rintro ⟨-, hrun, hlive⟩
      by_cases e : d = c
      · simp [e] at hlive
      · rw [Function.update_of_ne e] at hlive
        exact e (hi.unique d c (Phase.won_of_registered (Phase.registered_of_live hlive)) hw hrun)
    · rw [put_of_ne _ _ e, hi.entry]
      by_cases ed : d = c
      · subst ed
        refine ⟨fun ⟨hk, hrun, _⟩ => absurd ⟨hk.symm, hrun.symm⟩ e, fun ⟨hk, hrun, _⟩ => absurd ⟨hk.symm, hrun.symm⟩ e⟩
      · rw [Function.update_of_ne ed]
  · obtain ⟨d, h1, h2, h3⟩ := hi.marker k r hk
    refine ⟨d, h1, h2, ?_⟩
    by_cases e : d = c
    · subst e
      exfalso
      revert hl h3
      cases s.phase d with
      | settling e settled w => cases e <;> cases settled <;> simp
      | _ => simp
    · simpa [e] using h3
  · by_cases e : d = c
    · subst e; simp
    · simpa [e] using hi.sound d
  · rcases List.mem_append.mp hd with hd | hd
    · exact hi.releases r d hd
    · obtain ⟨rfl, rfl⟩ := by simpa using hd
      exact (hi.registered _ _).mpr ⟨rfl, hr⟩

/-- The owner that is cancelled goes on to its finalizer. -/
theorem exceptCancelled_of_live (hi : Inv s) (hl : (s.phase c).live) (owned : Bool) :
    s.exceptCancelled c owned =
      { s with flag := Function.update s.flag c true, accepting := put s.accepting (s.coord c) (s.run c) false }.setPhase
        c (.owning true) := by
  rw [St.exceptCancelled, if_pos ((owns_iff hi).mpr hl)]

theorem exceptCancelled_of_not_live (hi : Inv s) (hl : ¬ (s.phase c).live) (owned : Bool) :
    s.exceptCancelled c owned =
      { s with flag := Function.update s.flag c true }.setPhase c (.left owned .cancelled) := by
  have hi' : Inv { s with flag := Function.update s.flag c true } :=
    hi.congr rfl rfl rfl (fun _ h => h) rfl rfl rfl hi.events rfl
  rw [St.exceptCancelled, if_neg (fun h => hl ((owns_iff hi).mp h)), leave_of_not_live hi' hl]

theorem exceptCancelled_inv_of_live (hi : Inv s) (hl : (s.phase c).live) (owned : Bool) :
    Inv (s.exceptCancelled c owned) := by
  have hi' : Inv { s with flag := Function.update s.flag c true, accepting := put s.accepting (s.coord c) (s.run c) false } :=
    hi.congr rfl rfl rfl (fun _ h => h) rfl rfl rfl hi.events rfl
  rw [exceptCancelled_of_live hi hl]
  refine setPhase_inv hi' ?_
  revert hl
  show (s.phase c).live → SameClass (s.phase c) (.owning true)
  cases s.phase c with
  | settling e settled w =>
    cases e <;> cases settled <;> simp
    constructor <;> simp
  | owning f => intro _; constructor <;> simp
  | _ => simp

/-- The marker goes in with the call that waits for the claim. -/
theorem call_inv (hi : Inv s) (hp : s.phase c = .idle) :
    Inv ({ s with claiming := put s.claiming (s.coord c) (s.run c) true }.setPhase c (.claiming none false)) := by
  have hphase : ∀ d, (Function.update s.phase c (.claiming none false) d).won = (s.phase d).won ∧
      (Function.update s.phase c (.claiming none false) d).registered = (s.phase d).registered ∧
      (Function.update s.phase c (.claiming none false) d).live = (s.phase d).live ∧
      ((s.phase d).sound → (Function.update s.phase c (.claiming none false) d).sound) := by
    intro d
    by_cases e : d = c
    · subst e; simp [hp]
    · simp [e]
  refine ⟨hi.once, fun r d => ?_, fun d hd => ?_, fun d d' hd hd' => ?_, fun k r d => ?_, fun k r hk => ?_,
    fun d => (hphase d).2.2.2 (hi.sound d), hi.events, hi.releases⟩
  · simp only [St.setPhase, (hphase d).2.1]
    exact hi.registered r d
  · simp only [St.setPhase, (hphase d).1] at hd
    exact hi.claimed d hd
  · simp only [St.setPhase, (hphase d).1, (hphase d').1] at hd hd'
    exact hi.unique d d' hd hd'
  · simp only [St.setPhase, (hphase d).2.2.1]
    exact hi.entry k r d
  · by_cases e : k = s.coord c ∧ r = s.run c
    · obtain ⟨rfl, rfl⟩ := e
      exact ⟨c, rfl, rfl, by simp [St.setPhase]⟩
    · obtain ⟨d, h1, h2, h3⟩ := hi.marker k r (by simpa [St.setPhase, put_of_ne _ _ e] using hk)
      refine ⟨d, h1, h2, ?_⟩
      have : d ≠ c := by rintro rfl; exact e ⟨h1.symm, h2.symm⟩
      simpa [St.setPhase, this] using h3

omit [DecidableEq Coord] in
/-- The store answers yes to one call only. -/
theorem answered_inv (hi : Inv s) {w : Bool} (hp : s.phase c = .claiming none w) (ha : s.claimAnswer c = true) :
    Inv ((s.mark c).setPhase c (.claiming (some (.answered true)) w)) := by
  have hnew : s.claimed (s.run c) = false := by
    simp only [St.claimAnswer, Bool.and_eq_true, Bool.not_eq_true'] at ha
    exact ha.1.1
  have hother : ∀ d, d ≠ c → (s.phase d).won → s.run d ≠ s.run c := by
    intro d _ hd e
    have := hi.claimed d hd
    rw [e, hnew] at this
    cases this
  have hphase : ∀ d, d ≠ c → Function.update s.phase c (.claiming (some (.answered true)) w) d = s.phase d :=
    fun d e => Function.update_of_ne e ..
  refine ⟨hi.once, fun r d => ?_, fun d hd => ?_, fun d d' hd hd' hr => ?_, fun k r d => ?_, fun k r hk => ?_,
    fun d => ?_, hi.events, hi.releases⟩
  · by_cases e : d = c
    · subst e; simpa [St.setPhase, St.mark, hp] using hi.registered r d
    · simpa [St.setPhase, St.mark, hphase d e] using hi.registered r d
  · by_cases e : d = c
    · subst e; simp [St.setPhase, St.mark]
    · simp only [St.setPhase, St.mark, hphase d e] at hd
      simp [St.setPhase, St.mark, Function.update_apply, hi.claimed d hd]
  · simp only [St.setPhase, St.mark] at hd hd' hr
    by_cases e : d = c <;> by_cases e' : d' = c
    · rw [e, e']
    · rw [hphase d' e'] at hd'
      exact absurd (e ▸ hr.symm) (hother d' e' hd')
    · rw [hphase d e] at hd
      exact absurd (e' ▸ hr) (hother d e hd)
    · rw [hphase d e] at hd
      rw [hphase d' e'] at hd'
      exact hi.unique d d' hd hd' hr
  · by_cases e : d = c
    · subst e; simpa [St.setPhase, St.mark, hp] using hi.entry k r d
    · simpa [St.setPhase, St.mark, hphase d e] using hi.entry k r d
  · obtain ⟨d, h1, h2, h3⟩ := hi.marker k r hk
    refine ⟨d, h1, h2, ?_⟩
    by_cases e : d = c
    · subst e; simp [St.setPhase]
    · simpa [St.setPhase, St.mark, hphase d e] using h3
  · by_cases e : d = c
    · subst e; simp [St.setPhase]
    · simpa [St.setPhase, St.mark, hphase d e] using hi.sound d

/-- Taking the marker away from the call that put it there. -/
theorem unmark_marker (hi : Inv s) {p : Phase Err} (k : Coord) (r : Run)
    (hk : put s.claiming (s.coord c) (s.run c) false k r = true) :
    ∃ d, s.coord d = k ∧ s.run d = r ∧ (Function.update s.phase c p d).marking := by
  by_cases e : k = s.coord c ∧ r = s.run c
  · obtain ⟨rfl, rfl⟩ := e
    simp at hk
  · rw [put_of_ne _ _ e] at hk
    obtain ⟨d, h1, h2, h3⟩ := hi.marker k r hk
    have hd : d ≠ c := fun h => e ⟨h ▸ h1.symm, h ▸ h2.symm⟩
    exact ⟨d, h1, h2, by rwa [Function.update_of_ne hd]⟩

theorem unmark_inv (hi : Inv s) {e : Outcome Err} {w : Bool} (hp : s.phase c = .settling (some e) false w) :
    Inv ((s.unmark c).setPhase c (.settling (some e) true w)) := by
  have hphase : ∀ d, (Function.update s.phase c (.settling (some e) true w) d).won = (s.phase d).won ∧
      (Function.update s.phase c (.settling (some e) true w) d).registered = (s.phase d).registered ∧
      (Function.update s.phase c (.settling (some e) true w) d).live = (s.phase d).live ∧
      (Function.update s.phase c (.settling (some e) true w) d).sound = (s.phase d).sound := by
    intro d
    by_cases h : d = c
    · subst h; simp [hp]
    · simp [h]
  refine ⟨hi.once, fun r d => ?_, fun d hd => ?_, fun d d' hd hd' => ?_, fun k r d => ?_,
    fun k r hk => unmark_marker hi k r hk, fun d => ?_, hi.events, hi.releases⟩
  · simp only [St.setPhase, St.unmark, (hphase d).2.1]
    exact hi.registered r d
  · simp only [St.setPhase, St.unmark, (hphase d).1] at hd
    exact hi.claimed d hd
  · simp only [St.setPhase, St.unmark, (hphase d).1, (hphase d').1] at hd hd'
    exact hi.unique d d' hd hd'
  · simp only [St.setPhase, St.unmark, (hphase d).2.2.1]
    exact hi.entry k r d
  · simp only [St.setPhase, St.unmark, (hphase d).2.2.2]
    exact hi.sound d

theorem register_inv (hi : Inv s) {w : Bool} (hp : s.phase c = .settling none false w) :
    Inv (((s.unmark c).register c).setPhase c (.settling none true w)) := by
  have hwc : (s.phase c).won := by simp [hp]
  have hphase : ∀ d, d ≠ c → Function.update s.phase c (.settling none true w) d = s.phase d :=
    fun d e => Function.update_of_ne e ..
  have hwon : ∀ d, (Function.update s.phase c (.settling none true w) d).won ↔ (s.phase d).won := by
    intro d
    by_cases e : d = c
    · subst e; rw [Function.update_self]; exact iff_of_true trivial hwc
    · rw [hphase d e]
  -- No call has registered this id: it would have won the claim too.
  have hnew : ∀ d, (s.run c, d) ∉ s.registered := by
    intro d hd
    obtain ⟨hr, hreg⟩ := (hi.registered _ d).mp hd
    obtain rfl := hi.unique d c (Phase.won_of_registered hreg) hwc hr
    simp [hp] at hreg
  refine ⟨?_, fun r d => ?_, fun d hd => hi.claimed d ((hwon d).mp hd),
    fun d d' hd hd' => hi.unique d d' ((hwon d).mp hd) ((hwon d').mp hd'), fun k r d => ?_,
    fun k r hk => unmark_marker hi k r hk, fun d => ?_, fun r d hd => List.mem_append_left _ (hi.events r d hd),
    fun r d hd => List.mem_append_left _ (hi.releases r d hd)⟩
  · show ((s.registered ++ [(s.run c, c)]).map (·.1)).Nodup
    rw [List.map_append, List.nodup_append]
    refine ⟨hi.once, by simp, fun r hr r' hr' => ?_⟩
    obtain ⟨⟨r, d⟩, hd, rfl⟩ := List.mem_map.mp hr
    obtain rfl : r' = s.run c := by simpa using hr'
    exact fun e => hnew d (e ▸ hd)
  · show (r, d) ∈ s.registered ++ [(s.run c, c)] ↔
      s.run d = r ∧ (Function.update s.phase c (.settling none true w) d).registered
    by_cases e : d = c
    · subst e
      have : (r, d) ∉ s.registered := fun h => by
        have := ((hi.registered r d).mp h).2
        simp [hp] at this
      simp [this, eq_comm]
    · rw [hphase d e, ← hi.registered r d]
      simp [e]
  · show put s.cancellations (s.coord c) (s.run c) (some c) k r = some d ↔
      s.coord d = k ∧ s.run d = r ∧ (Function.update s.phase c (.settling none true w) d).live
    by_cases h : k = s.coord c ∧ r = s.run c
    · obtain ⟨rfl, rfl⟩ := h
      rw [put_self]
      by_cases e : d = c
      · subst e; simp
      · rw [hphase d e]
        refine ⟨fun h => absurd (Option.some.inj h).symm e, fun ⟨_, hr, hl⟩ => ?_⟩
        exact absurd (hi.unique d c (Phase.won_of_registered (Phase.registered_of_live hl)) hwc hr) e
    · rw [put_of_ne _ _ h, hi.entry]
      by_cases e : d = c
      · subst e
        exact ⟨fun ⟨hk, hr, _⟩ => absurd ⟨hk.symm, hr.symm⟩ h, fun ⟨hk, hr, _⟩ => absurd ⟨hk.symm, hr.symm⟩ h⟩
      · rw [hphase d e]
  · show (Function.update s.phase c (.settling none true w) d).sound
    by_cases e : d = c
    · subst e; simp
    · rw [hphase d e]; exact hi.sound d

theorem raised_inv (hi : Inv s) {e : Outcome Err} {w : Bool} (hp : s.phase c = .settling (some e) true w)
    {outcome : Outcome Err} (ho : outcome ≠ .ran) : Inv (s.raised c outcome) := by
  have hl : ¬ (s.phase c).live := by simp [hp]
  have hleft : ∀ t : St Coord Run Call Err, Inv t → t.phase c = s.phase c → Inv (t.setPhase c (.left false outcome)) :=
    fun t ht e => setPhase_inv ht (by rw [e, hp]; constructor <;> simp [ho])
  unfold St.raised
  split
  · rw [exceptCancelled_of_not_live hi hl]
    exact hleft _ (hi.congr rfl rfl rfl (fun _ h => h) rfl rfl rfl hi.events rfl) rfl
  · rw [leave_of_not_live hi hl]
    exact hleft s hi rfl

-- The equations of `step` are made here, once for its events.
attribute [local simp] step in
/-- The claim task answers, or ends without an answer with the id marked or not. -/
theorem claimed_inv (hi : Inv s) (c : Call) (failure : Option (Bool × Option Err)) : Inv (step s (.claim c failure)) := by
  simp only [step]
  split
  · rename_i w hp
    split
    · rename_i ha
      rw [ha]
      exact answered_inv hi hp ha
    · rename_i ha
      rw [Bool.not_eq_true] at ha
      rw [ha]
      exact setPhase_inv hi (by rw [hp]; constructor <;> simp)
  · rename_i w marked e hp
    split
    · exact setPhase_inv (mark_inv hi) (by rw [St.mark, hp]; constructor <;> simp)
    · exact setPhase_inv hi (by rw [hp]; constructor <;> simp)
  · rename_i w marked hp
    split
    · exact setPhase_inv (mark_inv hi) (by rw [St.mark, hp]; constructor <;> simp)
    · exact setPhase_inv hi (by rw [hp]; constructor <;> simp)
  · exact hi

theorem woken_inv (hi : Inv s) (c : Call) : Inv (step s (.wake c)) := by
  simp only [step]
  split
  · rename_i result w hp
    refine setPhase_inv hi ?_
    rw [hp]
    cases result with
    | answered claimed =>
      cases claimed
      · constructor <;> simp [pendingError, noticed]
        cases w <;> simp
      · constructor <;> simp [pendingError, noticed]
    | failed e =>
      constructor <;> simp [pendingError, noticed]
      cases w <;> simp
    | cancelled => constructor <;> simp [pendingError, noticed]
  · rename_i hp
    exact exceptCancelled_inv_of_live hi (by simp [hp]) true
  · rename_i hp
    exact setPhase_inv hi (by rw [hp]; constructor <;> simp)
  · rename_i e w hp
    have hs := hi.sound c
    rw [hp] at hs
    refine raised_inv hi hp ?_
    cases w
    · exact hs
    · simp
  · exact hi

theorem cancelled_inv (hi : Inv s) (c : Call) : Inv (step s (.cancel c)) := by
  simp only [step]
  split
  · rename_i claim w hp
    refine setPhase_inv hi ?_
    rw [hp]
    rcases claim with _ | ⟨_ | _⟩ | _ | _ <;> constructor <;> simp
  · rename_i e settled w hp
    refine setPhase_inv hi ?_
    rw [hp]
    cases e <;> cases settled <;> constructor <;> simp
  · rename_i hp
    exact exceptCancelled_inv_of_live hi (by simp [hp]) true
  · exact hi

theorem step_inv (hi : Inv s) (e : Ev Coord Run Call Err) : Inv (step s e) := by
  cases e with
  | call c =>
    simp only [step]
    split
    · rename_i hp
      split
      · rw [leave_of_not_live hi (by simp [hp])]
        exact setPhase_inv hi (by rw [hp]; constructor <;> simp)
      · exact call_inv hi hp
    · exact hi
  | claim c failure => exact claimed_inv hi c failure
  | settle c =>
    simp only [step]
    split
    · exact register_inv hi ‹_›
    · exact unmark_inv hi ‹_›
    · exact hi
  | wake c => exact woken_inv hi c
  | cancel c => exact cancelled_inv hi c
  | append c =>
    simp only [step]
    split
    · exact append_inv hi (by simp [*])
    · exact append_inv hi (by simp [*])
    · exact hi
  | finish c =>
    simp only [step]
    split
    · exact leave_inv_of_live hi (by simp [*]) _
    · exact hi
  | cancelRun k r =>
    simp only [step]
    split
    · split
      · exact hi.congr rfl rfl rfl (fun _ h => h) rfl rfl rfl hi.events rfl
      · exact hi
    · exact hi

theorem reach_inv (h : Reach s) : Inv s := by
  induction h with
  | init claimed earlier coord run => exact init_inv claimed earlier coord run
  | step e _ ih => exact step_inv ih e

/-! ## Ownership -/

/-- What a call may change as long as it has not registered its id: not the entries, not
    what is accepted, no event, no memory, and no other call's `cancel_event`. -/
structure Quiet (c : Call) (s s' : St Coord Run Call Err) : Prop where
  cancellations : s'.cancellations = s.cancellations
  accepting : s'.accepting = s.accepting
  events : s'.events = s.events
  releases : s'.releases = s.releases
  flag : ∀ d, d ≠ c → s'.flag d = s.flag d

omit [DecidableEq Coord] [DecidableEq Run] in
theorem setPhase_quiet (p : Phase Err) : Quiet c s (s.setPhase c p) := ⟨rfl, rfl, rfl, rfl, fun _ _ => rfl⟩

theorem raised_quiet (hi : Inv s) (hl : ¬ (s.phase c).live) (outcome : Outcome Err) : Quiet c s (s.raised c outcome) := by
  unfold St.raised
  split
  · rw [exceptCancelled_of_not_live hi hl]
    exact ⟨rfl, rfl, rfl, rfl, fun d hd => Function.update_of_ne hd ..⟩
  · rw [leave_of_not_live hi hl]
    exact setPhase_quiet _

theorem step_quiet (hi : Inv s) (e : Ev Coord Run Call Err) (ha : e.actor = some c)
    (hn : (s.run c, c) ∉ (step s e).registered) : Quiet c s (step s e) := by
  have hsame : Quiet c s s := ⟨rfl, rfl, rfl, rfl, fun _ _ => rfl⟩
  -- A registered call stays registered, so its steps are not meant here.
  have hreg : ∀ t : St Coord Run Call Err, t.registered = s.registered → (s.run c, c) ∉ t.registered →
      (s.phase c).registered → Quiet c s t :=
    fun t ht h hp => absurd (ht ▸ (hi.registered _ _).mpr ⟨rfl, hp⟩) h
  have hleave : ∀ owned outcome, (s.leave c owned outcome).registered = s.registered := by
    intro owned outcome
    unfold St.leave
    split <;> rfl
  have hexcept : ∀ owned, (s.phase c).live → (s.exceptCancelled c owned).registered = s.registered := by
    intro owned hl
    rw [exceptCancelled_of_live hi hl]
    rfl
  cases e with
  | cancelRun => cases ha
  | call d =>
    obtain rfl := Option.some.inj ha
    simp only [step] at hn ⊢
    split
    · rename_i hp
      split
      · rw [leave_of_not_live hi (by simp [hp])]
        exact setPhase_quiet _
      · exact ⟨rfl, rfl, rfl, rfl, fun _ _ => rfl⟩
    · exact hsame
  | claim d failure =>
    obtain rfl := Option.some.inj ha
    simp only [step]
    split
    · split <;> exact ⟨rfl, rfl, rfl, rfl, fun _ _ => rfl⟩
    · split <;> exact ⟨rfl, rfl, rfl, rfl, fun _ _ => rfl⟩
    · split <;> exact ⟨rfl, rfl, rfl, rfl, fun _ _ => rfl⟩
    · exact hsame
  | settle d =>
    obtain rfl := Option.some.inj ha
    simp only [step] at hn ⊢
    split
    · rename_i w hp
      rw [hp] at hn
      exact absurd (List.mem_append_right _ (List.mem_singleton.mpr rfl)) hn
    · exact ⟨rfl, rfl, rfl, rfl, fun _ _ => rfl⟩
    · exact hsame
  | wake d =>
    obtain rfl := Option.some.inj ha
    simp only [step] at hn ⊢
    split
    · exact setPhase_quiet _
    · rename_i hp
      rw [hp] at hn
      exact hreg _ (hexcept true (by simp [hp])) hn (by simp [hp])
    · rename_i hp
      rw [hp] at hn
      exact hreg _ rfl hn (by simp [hp])
    · rename_i hp
      exact raised_quiet hi (by simp [hp]) _
    · exact hsame
  | cancel d =>
    obtain rfl := Option.some.inj ha
    simp only [step] at hn ⊢
    split
    · exact setPhase_quiet _
    · exact setPhase_quiet _
    · rename_i hp
      rw [hp] at hn
      exact hreg _ (hexcept true (by simp [hp])) hn (by simp [hp])
    · exact hsame
  | append d =>
    obtain rfl := Option.some.inj ha
    simp only [step] at hn ⊢
    split
    · rename_i hp
      rw [hp] at hn
      exact hreg _ rfl hn (by simp [hp])
    · rename_i hp
      rw [hp] at hn
      exact hreg _ rfl hn (by simp [hp])
    · exact hsame
  | finish d =>
    obtain rfl := Option.some.inj ha
    simp only [step] at hn ⊢
    split
    · rename_i hp
      rw [hp] at hn
      exact hreg _ (hleave ..) hn (by simp [hp])
    · exact hsame

/-- In every state any calls on any coordinators reach: an id is registered at most once; a
    call that has left without registering its id ended in a conflict, the claim's error or
    its cancellation and appended and released nothing; no step of a call that has not
    registered touches the owner's entry, events, memory or `cancel_event`; and when every
    call has left, no marker and no entry remains. -/
theorem run_id_ownership (h : Reach s) :
    (s.registered.map (·.1)).Nodup ∧
    (∀ c owned outcome, s.phase c = .left owned outcome → (s.run c, c) ∉ s.registered →
      (outcome = .conflict ∨ (∃ e, outcome = .claimError e) ∨ outcome = .cancelled) ∧
        (∀ r, (r, c) ∉ s.events) ∧ ∀ r, (r, c) ∉ s.releases) ∧
    (∀ e c, e.actor = some c → (s.run c, c) ∉ (step s e).registered → Quiet c s (step s e)) ∧
    ((∀ c, (s.phase c).gone) → ∀ k r, s.claiming k r = false ∧ s.cancellations k r = none) := by
  have hi := reach_inv h
  refine ⟨hi.once, fun c owned outcome hp hn => ?_, fun e c ha hn => step_quiet hi e ha hn, fun hgone k r => ?_⟩
  · have hother : ∀ r, (r, c) ∉ s.registered := fun r hr => hn (((hi.registered r c).mp hr).1 ▸ hr)
    refine ⟨?_, fun r hr => hother r (hi.events r c hr), fun r hr => hother r (hi.releases r c hr)⟩
    have hs := hi.sound c
    cases owned with
    | true => exact absurd ((hi.registered _ c).mpr ⟨rfl, by simp [hp]⟩) hn
    | false =>
      rw [hp] at hs
      cases outcome with
      | conflict => exact .inl rfl
      | claimError e => exact .inr (.inl ⟨e, rfl⟩)
      | cancelled => exact .inr (.inr rfl)
      | ran => exact absurd rfl hs
  · constructor
    · by_contra hc
      obtain ⟨c, -, -, hm⟩ := hi.marker k r (by simpa using hc)
      have := hgone c
      revert hm this
      cases s.phase c <;> simp
    · by_contra hc
      obtain ⟨c, hc⟩ := Option.ne_none_iff_exists'.mp hc
      have hl := ((hi.entry k r c).mp hc).2.2
      have := hgone c
      revert hl this
      cases s.phase c <;> simp

theorem reach_foldl (h : Reach s) (es : List (Ev Coord Run Call Err)) : Reach (es.foldl step s) := by
  induction es generalizing s with
  | nil => exact h
  | cons e es ih => exact ih (.step e h)

end Model

/-- Two coordinators, one id: both calls mark it, the store answers the first, the second
    caller is cancelled while it waits, and the first runs to its end. -/
def contested : St Bool Unit Bool Unit :=
  [.call false, .call true, .claim true none, .claim false none, .cancel false, .wake true, .settle true, .wake false,
    .settle false, .wake true, .append true, .wake false, .finish true].foldl step
    (init (fun _ => false) (fun _ => false) id fun _ => ())

theorem contested_ownership :
    contested.registered = [((), true)] ∧ contested.phase true = .left true .ran ∧
      contested.phase false = .left false .cancelled ∧
      (∀ r, (r, false) ∉ contested.events) ∧ contested.claiming false () = false := by
  have h : Reach contested := reach_foldl (.init _ _ _ _) _
  have hgone : ∀ c, (contested.phase c).gone := by
    rintro (_ | _)
    · exact trivial
    · exact trivial
  exact ⟨rfl, rfl, rfl, ((run_id_ownership h).2.1 false false .cancelled rfl (by decide)).2.1,
    ((run_id_ownership h).2.2.2 hgone false ()).1⟩

end DataNexus.Runtime.RunClaim
