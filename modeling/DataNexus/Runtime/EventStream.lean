/-
  DataNexus.Runtime.EventStream — `InMemoryEventStore.append` and `.subscribe` of events.py.

  An append writes the log and offers its event to every subscriber of the run; where the
  queue is full it empties it instead. It then marks the overflowed queues, and after a
  terminal event of the run all of them, as closing: a second section under the lock, and
  the next append of the run comes after it. An iterator enters by one section under the
  lock and then loops: a section that looks at the marks, a wait for its queue with a
  heartbeat time-out, a yield. Every section under the lock is a move of its own, so
  another task may run before each of them.

  A time-out may come at any wait, also with events in the queue; a consumer may stop an
  iterator wherever it is suspended.

  Proved, for every sequence of moves:
  - `run_inv`: what an iterator has yielded and what is in its queue are together the
    run's log since it subscribed, up to and including the first terminal event, as long
    as its queue has not overflowed.
  - `stream_contiguous`: it yields a contiguous run of that log from its start, overflowed
    or not; without an overflow an iterator that ended by itself ended with the terminal
    event; and after an overflow or the terminal event it does end.
-/

import DataNexus.Runtime.Emitter

namespace DataNexus.Runtime

/-! ## Lists up to a mark -/

section UpTo

variable {α : Type} (p : α → Bool)

/-- The list up to and including the first element that satisfies `p`. -/
def upTo : List α → List α
  | [] => []
  | x :: xs => if p x then [x] else x :: upTo xs

variable {p} {l : List α}

-- The equations of `upTo` are made here, once for the lemmas about it.
attribute [local simp] upTo in
theorem upTo_append (h : l.any p = true) (m : List α) : upTo p (l ++ m) = upTo p l := by
  induction l with
  | nil => cases h
  | cons x xs ih =>
    rw [List.cons_append, upTo, upTo]
    by_cases hx : p x = true
    · rw [if_pos hx, if_pos hx]
    · rw [if_neg hx, if_neg hx, ih (by simpa [hx] using h)]

theorem upTo_snoc (h : l.any p = false) (x : α) : upTo p (l ++ [x]) = l ++ [x] := by
  induction l with
  | nil => by_cases hx : p x = true <;> simp [upTo, hx]
  | cons y ys ih =>
    rw [List.any_cons, Bool.or_eq_false_iff] at h
    rw [List.cons_append, upTo, if_neg (by simp [h.1]), ih h.2]

theorem upTo_eq_self (h : l.any p = false) : upTo p l = l := by
  induction l with
  | nil => rfl
  | cons y ys ih =>
    rw [List.any_cons, Bool.or_eq_false_iff] at h
    rw [upTo, if_neg (by simp [h.1]), ih h.2]

theorem upTo_isPrefix (l : List α) : upTo p l <+: l := by
  induction l with
  | nil => exact List.prefix_rfl
  | cons x xs ih =>
    rw [upTo]
    split
    · exact ⟨xs, rfl⟩
    · exact (List.prefix_cons_inj x).mpr ih

theorem getLast?_upTo (h : l.any p = true) : ∃ x, (upTo p l).getLast? = some x ∧ p x = true := by
  induction l with
  | nil => cases h
  | cons x xs ih =>
    rw [upTo]
    by_cases hx : p x = true
    · rw [if_pos hx]
      exact ⟨x, rfl, hx⟩
    · rw [if_neg hx]
      obtain ⟨y, hy, hp⟩ := ih (by simpa [hx] using h)
      exact ⟨y, by rw [List.getLast?_cons, hy]; rfl, hp⟩

end UpTo

/-! ## Subscriptions -/

/-- `event.scope == "run" and event.state in TERMINAL_STATES`. -/
def DiagnosticEvent.endsRun (event : DiagnosticEvent) : Bool :=
  event.draft.scope == .run && event.draft.state.isTerminal

/-- Where an iterator is suspended: before the section that registers its queue, before
    the one at the head of the loop, in the wait for its queue, before the one after a
    time-out, at a yield, before the one of the `finally`. -/
inductive StreamPc where
  | created
  | entering
  | atHead
  | waiting
  | timedOut
  | paused
  | leaving
  | ended
  deriving DecidableEq

inductive Yielded where
  | event (event : DiagnosticEvent)
  | heartbeat (sequence : Nat)
  deriving DecidableEq

structure Subscription where
  runId : String
  pc : StreamPc := .created
  queue : List DiagnosticEvent := []
  /-- In `_subscribers[run_id]`. -/
  active : Bool := false
  /-- In `_closing_subscribers`. -/
  closing : Bool := false
  /-- In the `closing` list of an append that has yet to take the lock again. -/
  marked : Bool := false
  yields : List Yielded := []
  /-- How long the run's log was when the queue was registered. -/
  since : Option Nat := none
  overflowed : Bool := false
  stopped : Bool := false

/-- `asyncio.Queue(maxsize=256)`. -/
def maxQueued : Nat := 256

namespace Subscription

/-- The yielded events that are not heartbeats. -/
def taken (sub : Subscription) : List DiagnosticEvent :=
  sub.yields.filterMap fun
    | .event event => some event
    | .heartbeat _ => none

/-- `put_nowait`, or the queue emptied where it is full. -/
def offer (sub : Subscription) (event : DiagnosticEvent) : Subscription :=
  if sub.queue.length ≥ maxQueued then { sub with queue := [], marked := true, overflowed := true }
  else { sub with queue := sub.queue ++ [event], marked := event.endsRun }

/-- A yield of the next event in the queue. -/
def yieldNext (sub : Subscription) : Subscription :=
  match sub.queue with
  | [] => sub
  | event :: queue => { sub with queue, yields := sub.yields ++ [.event event], pc := .paused }

/-- The section under the lock that the iterator is suspended before. -/
def locked (events : List DiagnosticEvent) (sub : Subscription) : Subscription :=
  match sub.pc with
  | .entering =>
    if events.any (·.endsRun) then { sub with pc := .ended }
    else { sub with active := true, since := some events.length, pc := .atHead }
  | .atHead =>
    if sub.closing && sub.queue.isEmpty then { sub with closing := false, pc := .leaving }
    else if !sub.closing && !sub.active then { sub with pc := .leaving }
    else if sub.closing then sub.yieldNext
    else { sub with pc := .waiting }
  | .timedOut =>
    if sub.closing && sub.queue.isEmpty then { sub with closing := false, pc := .leaving }
    else if sub.closing then { sub with pc := .atHead }
    else if !sub.active then { sub with pc := .leaving }
    else { sub with yields := sub.yields ++ [.heartbeat events.length], pc := .paused }
  | .leaving => { sub with active := false, closing := false, pc := .ended }
  | .created | .waiting | .paused | .ended => sub

/-- The next event is in the queue. -/
def got (sub : Subscription) : Subscription := if sub.pc = .waiting then sub.yieldNext else sub

def timeout (sub : Subscription) : Subscription := if sub.pc = .waiting then { sub with pc := .timedOut } else sub

/-- The consumer asks for the next item. -/
def resume (sub : Subscription) : Subscription :=
  match sub.pc with
  | .created => { sub with pc := .entering }
  | .paused => { sub with pc := .atHead }
  | _ => sub

/-- The consumer closes the iterator, or its task is cancelled at an await. -/
def stop (sub : Subscription) : Subscription :=
  match sub.pc with
  | .created | .entering => { sub with pc := .ended, stopped := true }
  | .atHead | .waiting | .timedOut | .paused => { sub with pc := .leaving, stopped := true }
  | .leaving | .ended => sub

/-- The second section of an append. -/
def close (sub : Subscription) : Subscription :=
  if sub.marked then { sub with active := false, closing := true, marked := false } else sub

end Subscription

/-! ## The store -/

structure EventStore where
  events : String → List DiagnosticEvent := fun _ => []
  subs : List Subscription := []

namespace EventStore

inductive Move where
  | subscribe (runId : String)
  | append (event : DiagnosticEvent)
  /-- The second section of an append to the run. -/
  | finishAppend (runId : String)
  | locked (i : Nat)
  | got (i : Nat)
  | timeout (i : Nat)
  | resume (i : Nat)
  | stop (i : Nat)

/-- An append to the run is between its two sections. -/
def appending (s : EventStore) (runId : String) : Bool := s.subs.any fun sub => sub.runId == runId && sub.marked

def step (s : EventStore) : Move → EventStore
  | .subscribe runId => { s with subs := s.subs ++ [{ runId }] }
  | .append event =>
    if s.appending event.runId then s
    else
      { events := Function.update s.events event.runId (s.events event.runId ++ [event])
        subs := s.subs.map fun sub => if sub.runId = event.runId ∧ sub.active = true then sub.offer event else sub }
  | .finishAppend runId => { s with subs := s.subs.map fun sub => if sub.runId = runId then sub.close else sub }
  | .locked i => { s with subs := s.subs.modify i fun sub => sub.locked (s.events sub.runId) }
  | .got i => { s with subs := s.subs.modify i Subscription.got }
  | .timeout i => { s with subs := s.subs.modify i Subscription.timeout }
  | .resume i => { s with subs := s.subs.modify i Subscription.resume }
  | .stop i => { s with subs := s.subs.modify i Subscription.stop }

def run (s : EventStore) (moves : List Move) : EventStore := moves.foldl step s

end EventStore

/-! ## The invariant of one subscription -/

namespace Subscription

/-- While it streams: yielded and queued are the log since it subscribed, up to its
    terminal event, or the queue was emptied for good. -/
structure Streaming (log : List DiagnosticEvent) (sub : Subscription) : Prop where
  complete : sub.overflowed = false → sub.taken ++ sub.queue = upTo (·.endsRun) log
  emptied : sub.overflowed = true → sub.queue = [] ∧ sub.taken <+: log
  closed : (sub.marked || sub.closing) = (sub.overflowed || log.any (·.endsRun))
  attached : sub.closing = !sub.active
  mark : sub.marked = true → sub.active = true

/-- Once it has left the loop. -/
structure Left (log : List DiagnosticEvent) (sub : Subscription) : Prop where
  taken : sub.taken <+: log
  whole : sub.stopped = false → sub.overflowed = false →
    sub.taken = upTo (·.endsRun) log ∧ log.any (·.endsRun) = true

def isLeft (sub : Subscription) : Bool := sub.pc == .leaving || sub.pc == .ended

structure Inv (events : List DiagnosticEvent) (sub : Subscription) : Prop where
  early : sub.pc = .created ∨ sub.pc = .entering → sub.since = none
  fresh : sub.since = none → sub.yields = [] ∧ sub.queue = [] ∧ sub.active = false ∧ sub.marked = false ∧
    sub.overflowed = false ∧ sub.closing = false ∧ (sub.pc = .created ∨ sub.pc = .entering ∨ sub.pc = .ended)
  streaming : ∀ n, sub.since = some n → n ≤ events.length ∧
    if sub.isLeft then Left (events.drop n) sub else Streaming (events.drop n) sub

variable {events : List DiagnosticEvent} {sub : Subscription}

theorem Inv.streaming_of {n : Nat} (h : Inv events sub) (hsince : sub.since = some n) (hpc : sub.isLeft = false) :
    n ≤ events.length ∧ Streaming (events.drop n) sub := by
  have := h.streaming n hsince
  rw [hpc] at this
  exact this

theorem since_cases (sub : Subscription) : sub.since = none ∨ ∃ n, sub.since = some n := by
  cases sub.since with
  | none => exact .inl rfl
  | some n => exact .inr ⟨n, rfl⟩

/-- A subscription that keeps its place in the log and goes on streaming. -/
theorem Inv.stream {sub' : Subscription} {n : Nat} (hsince : sub'.since = some n) (hn : n ≤ events.length)
    (hpc : sub'.isLeft = false) (hearly : sub'.pc ≠ .created ∧ sub'.pc ≠ .entering)
    (h : Streaming (events.drop n) sub') : Inv events sub' := by
  refine ⟨fun hpc' => ?_, fun hnone => ?_, fun m hm => ?_⟩
  · obtain e | e := hpc'
    · exact absurd e hearly.1
    · exact absurd e hearly.2
  · rw [hsince] at hnone
    cases hnone
  · rw [hsince] at hm
    cases hm
    rw [hpc]
    exact ⟨hn, h⟩

theorem Inv.leave {sub' : Subscription} {n : Nat} (hsince : sub'.since = some n) (hn : n ≤ events.length)
    (hpc : sub'.isLeft = true) (h : Left (events.drop n) sub') : Inv events sub' := by
  refine ⟨fun hpc' => ?_, fun hnone => ?_, fun m hm => ?_⟩
  · obtain e | e := hpc'
    · rw [isLeft, e] at hpc
      cases hpc
    · rw [isLeft, e] at hpc
      cases hpc
  · rw [hsince] at hnone
    cases hnone
  · rw [hsince] at hm
    cases hm
    rw [hpc]
    exact ⟨hn, h⟩

theorem Inv.not_early {n : Nat} (h : Inv events sub) (hsince : sub.since = some n) :
    sub.pc ≠ .created ∧ sub.pc ≠ .entering := by
  refine ⟨fun e => ?_, fun e => ?_⟩
  · rw [h.early (.inl e)] at hsince
    cases hsince
  · rw [h.early (.inr e)] at hsince
    cases hsince

/-- What an iterator in its loop has: it is past its subscription. -/
theorem Inv.looping (h : Inv events sub) (hpc : sub.pc = .atHead ∨ sub.pc = .waiting ∨ sub.pc = .timedOut ∨ sub.pc = .paused) :
    ∃ n, sub.since = some n ∧ n ≤ events.length ∧ Streaming (events.drop n) sub := by
  have hleft : sub.isLeft = false := by
    obtain e | e | e | e := hpc <;> rw [isLeft, e] <;> rfl
  cases hsince : sub.since with
  | none =>
    obtain ⟨-, -, -, -, -, -, hfresh⟩ := h.fresh hsince
    obtain e | e | e | e := hpc <;> rw [e] at hfresh <;> simp at hfresh
  | some n => exact ⟨n, rfl, h.streaming_of hsince hleft⟩

/-- Leaving by itself: closing, with an empty queue. -/
theorem Streaming.left {log : List DiagnosticEvent} (h : Streaming log sub) (hclosing : sub.closing = true)
    (hqueue : sub.queue = []) : Left log { sub with closing := false, pc := .leaving } := by
  have hclosed := h.closed
  rw [hclosing, Bool.or_true] at hclosed
  refine ⟨?_, fun _ hfit => ?_⟩
  · show sub.taken <+: log
    cases hover : sub.overflowed with
    | true => exact (h.emptied hover).2
    | false =>
      have := h.complete hover
      rw [hqueue, List.append_nil] at this
      rw [this]
      exact upTo_isPrefix log
  · have hfit : sub.overflowed = false := hfit
    have hcomplete := h.complete hfit
    rw [hqueue, List.append_nil] at hcomplete
    rw [hfit, Bool.false_or] at hclosed
    exact ⟨hcomplete, hclosed.symm⟩

/-- Leaving because the consumer stops it. -/
theorem Streaming.stop {log : List DiagnosticEvent} (h : Streaming log sub) :
    Left log { sub with pc := .leaving, stopped := true } := by
  refine ⟨?_, nofun⟩
  show sub.taken <+: log
  cases hover : sub.overflowed with
  | true => exact (h.emptied hover).2
  | false => exact (List.prefix_append _ _).trans (h.complete hover ▸ upTo_isPrefix log)

theorem Streaming.yieldNext {log : List DiagnosticEvent} {event : DiagnosticEvent} {queue : List DiagnosticEvent}
    (h : Streaming log sub) (hqueue : sub.queue = event :: queue) :
    Streaming log { sub with queue, yields := sub.yields ++ [.event event], pc := .paused } := by
  refine ⟨fun hfit => ?_, fun hover => ?_, h.closed, h.attached, h.mark⟩
  · show (sub.yields ++ [Yielded.event event]).filterMap _ ++ queue = _
    have hcomplete := h.complete hfit
    rw [hqueue] at hcomplete
    rw [← hcomplete]
    simp [taken, List.filterMap_append]
  · have := (h.emptied hover).1
    rw [hqueue] at this
    cases this

theorem inv_yieldNext (h : Inv events sub) (hpc : sub.pc = .atHead ∨ sub.pc = .waiting ∨ sub.pc = .timedOut ∨ sub.pc = .paused) :
    Inv events sub.yieldNext := by
  obtain ⟨n, hsince, hn, hstreaming⟩ := h.looping hpc
  unfold yieldNext
  split
  · exact h
  · rename_i event queue hqueue
    exact .stream hsince hn rfl ⟨nofun, nofun⟩ (hstreaming.yieldNext hqueue)

/-- The marks and the queue say the same of an iterator at another place of its loop. -/
theorem Streaming.at {log : List DiagnosticEvent} (h : Streaming log sub) (pc : StreamPc) :
    Streaming log { sub with pc } :=
  ⟨h.complete, h.emptied, h.closed, h.attached, h.mark⟩

theorem inv_locked (h : Inv events sub) : Inv events (sub.locked events) := by
  unfold locked
  split
  case h_1 hpc =>
    have hnone := h.early (.inr hpc)
    obtain ⟨hyields, hqueue, hactive, hmarked, hover, hclosing, -⟩ := h.fresh hnone
    split
    case isTrue =>
      refine ⟨?_, fun _ => ⟨hyields, hqueue, hactive, hmarked, hover, hclosing, .inr (.inr rfl)⟩, fun n hn => ?_⟩
      · intro e
        exact hnone
      · rw [hnone] at hn
        cases hn
    case isFalse =>
      refine .stream rfl le_rfl rfl ⟨nofun, nofun⟩ ?_
      rw [List.drop_length]
      refine ⟨fun _ => ?_, fun hover' => ?_, ?_, ?_, fun hmarked' => ?_⟩
      · show taken _ ++ sub.queue = []
        rw [hqueue, taken, hyields]
        rfl
      · rw [hover] at hover'
        cases hover'
      · show (sub.marked || sub.closing) = _
        rw [hmarked, hclosing, hover]
        rfl
      · show sub.closing = _
        rw [hclosing]
        rfl
      · rfl
  case h_2 hpc =>
    obtain ⟨n, hsince, hn, hstreaming⟩ := h.looping (.inl hpc)
    split
    case isTrue hclosing =>
      rw [Bool.and_eq_true, List.isEmpty_iff] at hclosing
      exact .leave hsince hn rfl (hstreaming.left hclosing.1 hclosing.2)
    case isFalse =>
      split
      case isTrue hgone =>
        rw [hstreaming.attached] at hgone
        simp at hgone
      case isFalse =>
        split
        · exact inv_yieldNext h (.inl hpc)
        · exact .stream hsince hn rfl ⟨nofun, nofun⟩ (hstreaming.at .waiting)
  case h_3 hpc =>
    obtain ⟨n, hsince, hn, hstreaming⟩ := h.looping (.inr (.inr (.inl hpc)))
    split
    case isTrue hclosing =>
      rw [Bool.and_eq_true, List.isEmpty_iff] at hclosing
      exact .leave hsince hn rfl (hstreaming.left hclosing.1 hclosing.2)
    case isFalse =>
      split
      · exact .stream hsince hn rfl ⟨nofun, nofun⟩ (hstreaming.at .atHead)
      case isFalse hclosing =>
        split
        case isTrue hgone =>
          rw [hstreaming.attached] at hclosing
          exact absurd hgone hclosing
        case isFalse =>
          refine .stream hsince hn rfl ⟨nofun, nofun⟩ ⟨fun hfit => ?_, fun hover => ?_, hstreaming.closed,
            hstreaming.attached, hstreaming.mark⟩
          · rw [← hstreaming.complete hfit]
            simp [taken, List.filterMap_append]
          · have := hstreaming.emptied hover
            simpa [taken, List.filterMap_append] using this
  case h_4 hpc =>
    obtain hsince | ⟨n, hsince⟩ := since_cases sub
    · obtain ⟨-, -, -, -, -, -, hfresh⟩ := h.fresh hsince
      rw [hpc] at hfresh
      simp at hfresh
    · have hleft := h.streaming n hsince
      rw [isLeft, hpc] at hleft
      exact .leave hsince hleft.1 rfl ⟨hleft.2.taken, hleft.2.whole⟩
  all_goals exact h

theorem inv_got (h : Inv events sub) : Inv events sub.got := by
  unfold got
  split
  case isTrue hpc => exact inv_yieldNext h (.inr (.inl hpc))
  case isFalse => exact h

theorem inv_timeout (h : Inv events sub) : Inv events sub.timeout := by
  unfold timeout
  split
  case isTrue hpc =>
    obtain ⟨n, hsince, hn, hstreaming⟩ := h.looping (.inr (.inl hpc))
    exact .stream hsince hn rfl ⟨nofun, nofun⟩ (hstreaming.at .timedOut)
  case isFalse => exact h

theorem inv_resume (h : Inv events sub) : Inv events sub.resume := by
  unfold resume
  split
  case h_1 hpc =>
    have hnone := h.early (.inl hpc)
    obtain ⟨hyields, hqueue, hactive, hmarked, hover, hclosing, -⟩ := h.fresh hnone
    refine ⟨fun _ => hnone, fun _ => ⟨hyields, hqueue, hactive, hmarked, hover, hclosing, .inr (.inl rfl)⟩, fun n hn => ?_⟩
    rw [hnone] at hn
    cases hn
  case h_2 hpc =>
    obtain ⟨n, hsince, hn, hstreaming⟩ := h.looping (.inr (.inr (.inr hpc)))
    exact .stream hsince hn rfl ⟨nofun, nofun⟩ (hstreaming.at .atHead)
  case h_3 => exact h

theorem inv_stop (h : Inv events sub) : Inv events sub.stop := by
  have hearly : sub.pc = .created ∨ sub.pc = .entering → Inv events { sub with pc := .ended, stopped := true } := by
    intro hpc
    have hnone := h.early hpc
    obtain ⟨hyields, hqueue, hactive, hmarked, hover, hclosing, -⟩ := h.fresh hnone
    refine ⟨fun _ => hnone, fun _ => ⟨hyields, hqueue, hactive, hmarked, hover, hclosing, .inr (.inr rfl)⟩, fun n hn => ?_⟩
    rw [hnone] at hn
    cases hn
  have hloop : sub.pc = .atHead ∨ sub.pc = .waiting ∨ sub.pc = .timedOut ∨ sub.pc = .paused →
      Inv events { sub with pc := .leaving, stopped := true } := by
    intro hpc
    obtain ⟨n, hsince, hn, hstreaming⟩ := h.looping hpc
    exact .leave hsince hn rfl hstreaming.stop
  unfold stop
  split
  · exact hearly (.inl ‹_›)
  · exact hearly (.inr ‹_›)
  · exact hloop (.inl ‹_›)
  · exact hloop (.inr (.inl ‹_›))
  · exact hloop (.inr (.inr (.inl ‹_›)))
  · exact hloop (.inr (.inr (.inr ‹_›)))
  all_goals exact h

theorem inv_close (h : Inv events sub) : Inv events sub.close := by
  unfold close
  split
  case isFalse => exact h
  case isTrue hmarked =>
    obtain hsince | ⟨n, hsince⟩ := since_cases sub
    · have := (h.fresh hsince).2.2.2.1
      rw [hmarked] at this
      cases this
    · have hstreaming := h.streaming n hsince
      by_cases hleft : sub.isLeft = true
      · rw [hleft] at hstreaming
        exact .leave hsince hstreaming.1 hleft ⟨hstreaming.2.taken, hstreaming.2.whole⟩
      · rw [Bool.not_eq_true] at hleft
        rw [hleft] at hstreaming
        obtain ⟨hn, hstreaming⟩ := hstreaming
        refine .stream hsince hn hleft (h.not_early hsince) ⟨hstreaming.complete, hstreaming.emptied, ?_, rfl, nofun⟩
        have hclosed := hstreaming.closed
        rw [hmarked, Bool.true_or] at hclosed
        exact hclosed

/-! ### A longer log -/

theorem Left.grow {log : List DiagnosticEvent} (h : Left log sub) (event : DiagnosticEvent) : Left (log ++ [event]) sub := by
  refine ⟨h.taken.trans (List.prefix_append _ _), fun hstopped hfit => ?_⟩
  obtain ⟨htaken, hany⟩ := h.whole hstopped hfit
  refine ⟨?_, ?_⟩
  · rw [upTo_append hany]
    exact htaken
  · rw [List.any_append, hany, Bool.true_or]

/-- An append that the queue is not offered: it is closing already. -/
theorem Streaming.grow {log : List DiagnosticEvent} (h : Streaming log sub) (hinactive : sub.active = false)
    (event : DiagnosticEvent) : Streaming (log ++ [event]) sub := by
  have hclosing : sub.closing = true := by rw [h.attached, hinactive]; rfl
  have hclosed := h.closed
  rw [hclosing, Bool.or_true] at hclosed
  refine ⟨fun hfit => ?_, fun hover => ?_, ?_, h.attached, h.mark⟩
  · rw [hfit, Bool.false_or] at hclosed
    rw [upTo_append hclosed.symm]
    exact h.complete hfit
  · exact ⟨(h.emptied hover).1, (h.emptied hover).2.trans (List.prefix_append _ _)⟩
  · rw [hclosing, Bool.or_true, List.any_append, ← Bool.or_assoc, ← hclosed, Bool.true_or]

theorem Streaming.offer {log : List DiagnosticEvent} (h : Streaming log sub) (hactive : sub.active = true)
    (hmarked : sub.marked = false) (event : DiagnosticEvent) : Streaming (log ++ [event]) (sub.offer event) := by
  have hclosing : sub.closing = false := by rw [h.attached, hactive]; rfl
  have hclosed := h.closed
  rw [hclosing, hmarked] at hclosed
  obtain ⟨hfit, hany⟩ := Bool.or_eq_false_iff.mp hclosed.symm
  have hlog : sub.taken ++ sub.queue = log := by rw [h.complete hfit, upTo_eq_self hany]
  unfold Subscription.offer
  split
  · refine ⟨nofun, fun _ => ⟨rfl, ?_⟩, rfl, h.attached, fun _ => hactive⟩
    show sub.taken <+: log ++ [event]
    rw [← hlog, List.append_assoc]
    exact List.prefix_append _ _
  · refine ⟨fun _ => ?_, fun hover => ?_, ?_, h.attached, fun _ => hactive⟩
    · show sub.taken ++ (sub.queue ++ [event]) = _
      rw [← List.append_assoc, hlog, upTo_snoc hany]
    · rw [hfit] at hover
      cases hover
    · show (event.endsRun || sub.closing) = (sub.overflowed || _)
      rw [hclosing, hfit, List.any_append, hany]
      simp

theorem drop_snoc {n : Nat} (hn : n ≤ events.length) (event : DiagnosticEvent) :
    (events ++ [event]).drop n = events.drop n ++ [event] := List.drop_append_of_le_length hn

theorem inv_grow (h : Inv events sub) (hinactive : sub.active = false) (event : DiagnosticEvent) :
    Inv (events ++ [event]) sub := by
  refine ⟨h.early, h.fresh, fun n hsince => ?_⟩
  obtain ⟨hn, hrest⟩ := h.streaming n hsince
  refine ⟨?_, ?_⟩
  · rw [List.length_append]
    exact Nat.le_add_right_of_le hn
  · rw [drop_snoc hn]
    by_cases hleft : sub.isLeft = true
    · rw [if_pos hleft] at hrest ⊢
      exact hrest.grow event
    · rw [if_neg hleft] at hrest ⊢
      exact hrest.grow hinactive event

theorem inv_offer (h : Inv events sub) (hactive : sub.active = true) (hmarked : sub.marked = false)
    (event : DiagnosticEvent) : Inv (events ++ [event]) (sub.offer event) := by
  have hpc : (sub.offer event).pc = sub.pc ∧ (sub.offer event).since = sub.since ∧ (sub.offer event).yields = sub.yields ∧
      (sub.offer event).stopped = sub.stopped := by
    unfold offer
    split <;> exact ⟨rfl, rfl, rfl, rfl⟩
  obtain ⟨hpc, hsince', hyields, hstopped⟩ := hpc
  have hsub : ∃ n, sub.since = some n := by
    obtain hsince | hsince := since_cases sub
    · have := (h.fresh hsince).2.2.1
      rw [hactive] at this
      cases this
    · exact hsince
  obtain ⟨n, hsince⟩ := hsub
  obtain ⟨hn, hrest⟩ := h.streaming n hsince
  have hn' : n ≤ (events ++ [event]).length := by
    rw [List.length_append]
    exact Nat.le_add_right_of_le hn
  by_cases hleft : sub.isLeft = true
  · rw [if_pos hleft] at hrest
    refine .leave (hsince'.trans hsince) hn' (by rw [isLeft, hpc]; exact hleft) ?_
    rw [drop_snoc hn]
    have hgrown := hrest.grow event
    refine ⟨?_, fun hnot hfit => ?_⟩
    · rw [taken, hyields]
      exact hgrown.taken
    · rw [taken, hyields]
      refine hgrown.whole (hstopped ▸ hnot) ?_
      unfold offer at hfit
      split at hfit
      · cases hfit
      · exact hfit
  · rw [if_neg hleft] at hrest
    rw [Bool.not_eq_true] at hleft
    refine .stream (hsince'.trans hsince) hn' (by rw [isLeft, hpc]; exact hleft) (hpc ▸ h.not_early hsince) ?_
    rw [drop_snoc hn]
    exact hrest.offer hactive hmarked event

/-! ### Ending -/

/-- One turn of the iterator driven on its own; `early` has a wait time out though there is
    an event in the queue. -/
def turn (events : List DiagnosticEvent) (early : Bool) (sub : Subscription) : Subscription :=
  match sub.pc with
  | .created | .paused => sub.resume
  | .waiting => if early || sub.queue.isEmpty then sub.timeout else sub.got
  | .entering | .atHead | .timedOut | .leaving | .ended => sub.locked events

/-- How many turns a closing iterator has left at most. -/
def rank (sub : Subscription) : Nat :=
  match sub.pc with
  | .created | .entering | .ended => 0
  | .leaving => 1
  | .atHead => 2 * sub.queue.length + 2
  | .timedOut | .paused => 2 * sub.queue.length + 3
  | .waiting => 2 * sub.queue.length + 4

/-- On its way out: closing, or past the loop. -/
def Ending (sub : Subscription) : Prop :=
  sub.pc = .ended ∨ sub.pc = .leaving ∨
    (sub.closing = true ∧ (sub.pc = .atHead ∨ sub.pc = .waiting ∨ sub.pc = .timedOut ∨ sub.pc = .paused))

/-- The same subscription, some turns later. -/
structure Later (sub sub' : Subscription) : Prop where
  runId : sub'.runId = sub.runId
  since : sub'.since = sub.since
  overflowed : sub'.overflowed = sub.overflowed
  stopped : sub'.stopped = sub.stopped

theorem yieldNext_ending (hclosing : sub.closing = true) (hqueue : sub.queue ≠ []) :
    Ending sub.yieldNext ∧ Later sub sub.yieldNext ∧ sub.yieldNext.rank + 2 = 2 * sub.queue.length + 3 := by
  unfold yieldNext
  split
  · exact absurd ‹_› hqueue
  · rename_i event queue heq
    refine ⟨.inr (.inr ⟨hclosing, .inr (.inr (.inr rfl))⟩), ⟨rfl, rfl, rfl, rfl⟩, ?_⟩
    show 2 * queue.length + 3 + 2 = 2 * sub.queue.length + 3
    rw [heq, List.length_cons]
    omega

theorem turn_ending (h : Ending sub) (early : Bool) :
    Ending (sub.turn events early) ∧ Later sub (sub.turn events early) ∧ (sub.turn events early).rank ≤ sub.rank - 1 := by
  obtain hpc | hpc | ⟨hclosing, hpc⟩ := h
  · have : sub.turn events early = sub := by rw [turn, hpc]; dsimp only; rw [locked, hpc]
    rw [this, rank, hpc]
    exact ⟨.inl hpc, ⟨rfl, rfl, rfl, rfl⟩, le_rfl⟩
  · have : sub.turn events early = { sub with active := false, closing := false, pc := .ended } := by
      rw [turn, hpc]; dsimp only; rw [locked, hpc]
    rw [this]
    exact ⟨.inl rfl, ⟨rfl, rfl, rfl, rfl⟩, Nat.zero_le _⟩
  · by_cases hqueue : sub.queue = []
    · obtain hpc | hpc | hpc | hpc := hpc
      · have : sub.turn events early = { sub with closing := false, pc := .leaving } := by
          rw [turn, hpc]; dsimp only; rw [locked, hpc]; simp [hclosing, hqueue]
        rw [this, rank, rank, hpc, hqueue]
        exact ⟨.inr (.inl rfl), ⟨rfl, rfl, rfl, rfl⟩, le_rfl⟩
      · have : sub.turn events early = { sub with pc := .timedOut } := by
          rw [turn, hpc]; dsimp only; rw [timeout, hpc]; simp [hqueue]
        rw [this, rank, rank, hpc]
        exact ⟨.inr (.inr ⟨hclosing, .inr (.inr (.inl rfl))⟩), ⟨rfl, rfl, rfl, rfl⟩, le_rfl⟩
      · have : sub.turn events early = { sub with closing := false, pc := .leaving } := by
          rw [turn, hpc]; dsimp only; rw [locked, hpc]; simp [hclosing, hqueue]
        rw [this, rank, rank, hpc, hqueue]
        exact ⟨.inr (.inl rfl), ⟨rfl, rfl, rfl, rfl⟩, by simp⟩
      · have : sub.turn events early = { sub with pc := .atHead } := by
          rw [turn, hpc]; dsimp only; rw [resume, hpc]
        rw [this, rank, rank, hpc]
        exact ⟨.inr (.inr ⟨hclosing, .inl rfl⟩), ⟨rfl, rfl, rfl, rfl⟩, le_rfl⟩
    · obtain ⟨hyield, hlater, hrank⟩ := yieldNext_ending hclosing hqueue
      have hempty : sub.queue.isEmpty = false := by simpa using hqueue
      obtain hpc | hpc | hpc | hpc := hpc
      · have : sub.turn events early = sub.yieldNext := by
          rw [turn, hpc]; dsimp only; rw [locked, hpc]; simp [hclosing, hempty]
        rw [this]
        refine ⟨hyield, hlater, ?_⟩
        have : sub.rank = 2 * sub.queue.length + 2 := by rw [rank, hpc]
        omega
      · have hsub : sub.rank = 2 * sub.queue.length + 4 := by rw [rank, hpc]
        by_cases hearly : early = true
        · have : sub.turn events early = { sub with pc := .timedOut } := by
            rw [turn, hpc]; dsimp only; rw [timeout, hpc]; simp [hearly]
          rw [this]
          refine ⟨.inr (.inr ⟨hclosing, .inr (.inr (.inl rfl))⟩), ⟨rfl, rfl, rfl, rfl⟩, ?_⟩
          rw [hsub]
          exact le_rfl
        · have : sub.turn events early = sub.yieldNext := by
            rw [turn, hpc]; dsimp only; rw [got, hpc]; simp [hearly, hempty]
          rw [this]
          exact ⟨hyield, hlater, by omega⟩
      · have : sub.turn events early = { sub with pc := .atHead } := by
          rw [turn, hpc]; dsimp only; rw [locked, hpc]; simp [hclosing, hempty]
        rw [this, rank, rank, hpc]
        exact ⟨.inr (.inr ⟨hclosing, .inl rfl⟩), ⟨rfl, rfl, rfl, rfl⟩, le_rfl⟩
      · have : sub.turn events early = { sub with pc := .atHead } := by
          rw [turn, hpc]; dsimp only; rw [resume, hpc]
        rw [this, rank, rank, hpc]
        exact ⟨.inr (.inr ⟨hclosing, .inl rfl⟩), ⟨rfl, rfl, rfl, rfl⟩, le_rfl⟩

theorem ended_of_rank (h : Ending sub) (hrank : sub.rank = 0) : sub.pc = .ended := by
  obtain hpc | hpc | ⟨-, hpc⟩ := h
  · exact hpc
  · rw [rank, hpc] at hrank
    cases hrank
  · obtain hpc | hpc | hpc | hpc := hpc <;> rw [rank, hpc] at hrank <;> simp at hrank

end Subscription

/-! ## Runs of the store -/

namespace EventStore

def Inv (s : EventStore) : Prop := ∀ sub ∈ s.subs, sub.Inv (s.events sub.runId)

theorem mem_modify {α : Type} {l : List α} {i : Nat} {f : α → α} {x : α} (h : x ∈ l.modify i f) :
    x ∈ l ∨ ∃ y ∈ l, x = f y := by
  obtain ⟨j, hj⟩ := List.mem_iff_getElem?.mp h
  rw [List.getElem?_modify] at hj
  cases hget : l[j]? with
  | none => simp [hget] at hj
  | some y =>
    have hy := List.mem_of_getElem? hget
    rw [hget] at hj
    have hx : (if i = j then f y else y) = x := Option.some.inj hj
    by_cases hij : i = j
    · rw [if_pos hij] at hx
      exact .inr ⟨y, hy, hx.symm⟩
    · rw [if_neg hij] at hx
      exact .inl (hx ▸ hy)

/-- A move of one subscription that keeps its own invariant. -/
theorem modify_inv {s : EventStore} (h : Inv s) (i : Nat) {f : Subscription → Subscription}
    (hrun : ∀ sub, (f sub).runId = sub.runId)
    (hf : ∀ sub : Subscription, sub.Inv (s.events sub.runId) → (f sub).Inv (s.events sub.runId)) :
    Inv { s with subs := s.subs.modify i f } := by
  intro sub hsub
  obtain hsub | ⟨sub, hmem, rfl⟩ := mem_modify hsub
  · exact h sub hsub
  · rw [hrun]
    exact hf sub (h sub hmem)

theorem runId_yieldNext (sub : Subscription) : sub.yieldNext.runId = sub.runId := by
  unfold Subscription.yieldNext
  split <;> rfl

theorem runId_locked (events : List DiagnosticEvent) (sub : Subscription) : (sub.locked events).runId = sub.runId := by
  unfold Subscription.locked
  split
  · split <;> rfl
  · split
    · rfl
    · split
      · rfl
      · split
        · exact runId_yieldNext sub
        · rfl
  · split
    · rfl
    · split
      · rfl
      · split <;> rfl
  all_goals rfl

theorem runId_got (sub : Subscription) : sub.got.runId = sub.runId := by
  unfold Subscription.got
  split
  · exact runId_yieldNext sub
  · rfl

theorem runId_timeout (sub : Subscription) : sub.timeout.runId = sub.runId := by
  unfold Subscription.timeout
  split <;> rfl

theorem runId_resume (sub : Subscription) : sub.resume.runId = sub.runId := by
  unfold Subscription.resume
  split <;> rfl

theorem runId_stop (sub : Subscription) : sub.stop.runId = sub.runId := by
  unfold Subscription.stop
  split <;> rfl

theorem runId_close (sub : Subscription) : sub.close.runId = sub.runId := by
  unfold Subscription.close
  split <;> rfl

theorem runId_offer (event : DiagnosticEvent) (sub : Subscription) : (sub.offer event).runId = sub.runId := by
  unfold Subscription.offer
  split <;> rfl

theorem append_inv {s : EventStore} (h : Inv s) {event : DiagnosticEvent} (hidle : s.appending event.runId = false) :
    Inv { events := Function.update s.events event.runId (s.events event.runId ++ [event])
          subs := s.subs.map fun sub => if sub.runId = event.runId ∧ sub.active = true then sub.offer event else sub } := by
  intro sub' hsub'
  obtain ⟨sub, hsub, rfl⟩ := List.mem_map.mp hsub'
  have hinv := h sub hsub
  by_cases hrun : sub.runId = event.runId
  · rw [hrun] at hinv
    have hlog : Function.update s.events event.runId (s.events event.runId ++ [event]) event.runId =
        s.events event.runId ++ [event] := Function.update_self _ _ _
    by_cases hactive : sub.active = true
    · rw [if_pos ⟨hrun, hactive⟩, runId_offer, hrun]
      have hmarked : sub.marked = false := by
        have := List.any_eq_false.mp hidle sub hsub
        simpa [hrun] using this
      show (sub.offer event).Inv (Function.update s.events event.runId (s.events event.runId ++ [event]) event.runId)
      rw [hlog]
      exact Subscription.inv_offer hinv hactive hmarked event
    · rw [if_neg (fun hc => hactive hc.2), hrun]
      show sub.Inv (Function.update s.events event.runId (s.events event.runId ++ [event]) event.runId)
      rw [hlog]
      exact Subscription.inv_grow hinv (by simpa using hactive) event
  · rw [if_neg (fun hc => hrun hc.1)]
    show sub.Inv (Function.update s.events event.runId (s.events event.runId ++ [event]) sub.runId)
    rw [Function.update_of_ne hrun]
    exact hinv

theorem step_inv {s : EventStore} (h : Inv s) (move : Move) : Inv (s.step move) := by
  cases move with
  | subscribe runId =>
    intro sub hsub
    obtain hsub | hsub := List.mem_append.mp hsub
    · exact h sub hsub
    · rw [List.mem_singleton.mp hsub]
      exact ⟨fun _ => rfl, fun _ => ⟨rfl, rfl, rfl, rfl, rfl, rfl, .inl rfl⟩, nofun⟩
  | append event =>
    rw [step]
    split
    · exact h
    · rename_i hidle
      exact append_inv h (by simpa using hidle)
  | finishAppend runId =>
    intro sub' hsub'
    obtain ⟨sub, hsub, rfl⟩ := List.mem_map.mp hsub'
    split
    · rw [runId_close]
      exact Subscription.inv_close (h sub hsub)
    · exact h sub hsub
  | locked i => exact modify_inv h i (fun sub => runId_locked _ sub) fun sub hsub => Subscription.inv_locked hsub
  | got i => exact modify_inv h i runId_got fun sub hsub => Subscription.inv_got hsub
  | timeout i => exact modify_inv h i runId_timeout fun sub hsub => Subscription.inv_timeout hsub
  | resume i => exact modify_inv h i runId_resume fun sub hsub => Subscription.inv_resume hsub
  | stop i => exact modify_inv h i runId_stop fun sub hsub => Subscription.inv_stop hsub

theorem run_inv {s : EventStore} (h : Inv s) (moves : List Move) : Inv (s.run moves) := by
  induction moves generalizing s with
  | nil => exact h
  | cons move moves ih => exact ih (step_inv h move)

/-- The move of iterator `i` when only it runs. -/
def turn (s : EventStore) (i : Nat) (early : Bool) : Move :=
  match s.subs[i]? with
  | none => .locked i
  | some sub =>
    match sub.pc with
    | .created | .paused => .resume i
    | .waiting => if early || sub.queue.isEmpty then .timeout i else .got i
    | .entering | .atHead | .timedOut | .leaving | .ended => .locked i

/-- Iterator `i` driven on its own, with a choice for each wait. -/
def drive (s : EventStore) (i : Nat) (choices : List Bool) : EventStore :=
  choices.foldl (fun s early => s.step (s.turn i early)) s

theorem step_turn {s : EventStore} {i : Nat} {sub : Subscription} (h : s.subs[i]? = some sub) (early : Bool) :
    (s.step (s.turn i early)).subs[i]? = some (sub.turn (s.events sub.runId) early) ∧
      (s.step (s.turn i early)).events = s.events := by
  rw [turn, h]
  dsimp only
  unfold Subscription.turn
  split
  all_goals first
    | exact ⟨by simp [step, h], rfl⟩
    | skip
  split
  · exact ⟨by simp [step, h], rfl⟩
  · exact ⟨by simp [step, h], rfl⟩

/-- An iterator on its way out ends, however its waits go. -/
theorem drive_ended {s : EventStore} {i : Nat} {sub : Subscription} (h : s.subs[i]? = some sub) (hending : sub.Ending)
    {choices : List Bool} (hlong : sub.rank ≤ choices.length) :
    ∃ sub', (s.drive i choices).subs[i]? = some sub' ∧ sub'.pc = .ended ∧ sub.Later sub' ∧
      (s.drive i choices).events = s.events := by
  induction choices generalizing s sub with
  | nil =>
    refine ⟨sub, h, Subscription.ended_of_rank hending (Nat.le_zero.mp hlong), ⟨rfl, rfl, rfl, rfl⟩, rfl⟩
  | cons early choices ih =>
    obtain ⟨hget, hevents⟩ := step_turn h early
    obtain ⟨hending', hlater, hrank⟩ := @Subscription.turn_ending (s.events sub.runId) sub hending early
    rw [List.length_cons] at hlong
    obtain ⟨sub', hsub', hended, hlater', hevents'⟩ := ih hget hending' (by omega)
    refine ⟨sub', hsub', hended, ⟨hlater'.runId.trans hlater.runId, hlater'.since.trans hlater.since,
      hlater'.overflowed.trans hlater.overflowed, hlater'.stopped.trans hlater.stopped⟩, hevents'.trans hevents⟩

theorem drive_inv {s : EventStore} (h : Inv s) (i : Nat) (choices : List Bool) : Inv (s.drive i choices) := by
  induction choices generalizing s with
  | nil => exact h
  | cons early choices ih => exact ih (step_inv h _)

/-- An iterator whose queue has overflowed or whose run has ended is on its way out once
    no append is under way. -/
theorem ending_of_closed {s : EventStore} (h : Inv s) {i n : Nat} {sub : Subscription} (hsub : s.subs[i]? = some sub)
    (hsince : sub.since = some n) (hidle : s.appending sub.runId = false)
    (hclosed : sub.overflowed = true ∨ ((s.events sub.runId).drop n).any (·.endsRun) = true) : sub.Ending := by
  have hmem := List.mem_of_getElem? hsub
  have hinv := h sub hmem
  by_cases hleft : sub.isLeft = true
  · rw [Subscription.isLeft, Bool.or_eq_true, beq_iff_eq, beq_iff_eq] at hleft
    obtain hpc | hpc := hleft
    · exact .inr (.inl hpc)
    · exact .inl hpc
  · rw [Bool.not_eq_true] at hleft
    obtain ⟨-, hstreaming⟩ := hinv.streaming_of hsince hleft
    have hmarked : sub.marked = false := by
      have := List.any_eq_false.mp hidle sub hmem
      simpa using this
    have hclosing : sub.closing = true := by
      have hstate := hstreaming.closed
      rw [hmarked, Bool.false_or] at hstate
      rw [hstate, Bool.or_eq_true]
      exact hclosed
    obtain ⟨hcreated, hentering⟩ := hinv.not_early hsince
    refine .inr (.inr ⟨hclosing, ?_⟩)
    cases hpc : sub.pc with
    | created => exact absurd hpc hcreated
    | entering => exact absurd hpc hentering
    | atHead => exact .inl rfl
    | waiting => exact .inr (.inl rfl)
    | timedOut => exact .inr (.inr (.inl rfl))
    | paused => exact .inr (.inr (.inr rfl))
    | leaving => rw [Subscription.isLeft, hpc] at hleft; cases hleft
    | ended => rw [Subscription.isLeft, hpc] at hleft; cases hleft

theorem taken_isPrefix {events : List DiagnosticEvent} {n : Nat} {sub : Subscription} (h : sub.Inv events)
    (hsince : sub.since = some n) : sub.taken <+: events.drop n := by
  obtain ⟨-, hrest⟩ := h.streaming n hsince
  split at hrest
  · exact hrest.taken
  · cases hover : sub.overflowed with
    | true => exact (hrest.emptied hover).2
    | false => exact (List.prefix_append _ _).trans (hrest.complete hover ▸ upTo_isPrefix _)

theorem taken_of_ended {events : List DiagnosticEvent} {n : Nat} {sub : Subscription} (h : sub.Inv events)
    (hsince : sub.since = some n) (hpc : sub.pc = .ended) (hstopped : sub.stopped = false)
    (hfit : sub.overflowed = false) :
    sub.taken = upTo (·.endsRun) (events.drop n) ∧ ∃ event, sub.taken.getLast? = some event ∧ event.endsRun = true := by
  obtain ⟨-, hrest⟩ := h.streaming n hsince
  rw [Subscription.isLeft, hpc] at hrest
  obtain ⟨htaken, hany⟩ := hrest.whole hstopped hfit
  refine ⟨htaken, ?_⟩
  rw [htaken]
  exact getLast?_upTo hany

/-- For every sequence of moves and every iterator that has subscribed: what it yields is a
    contiguous run of the log from the first event after it subscribed; without an overflow
    an iterator that ended by itself yielded up to the terminal event; and after an overflow
    or the terminal event it ends within a bounded number of its turns, without an overflow
    having yielded the terminal event last. -/
theorem stream_contiguous (moves : List Move) (i n : Nat) (sub : Subscription)
    (hsub : (run {} moves).subs[i]? = some sub) (hsince : sub.since = some n) :
    let s := run {} moves
    let log := (s.events sub.runId).drop n
    sub.taken <+: log ∧
    (sub.pc = .ended → sub.stopped = false → sub.overflowed = false →
      sub.taken = upTo (·.endsRun) log ∧ ∃ event, sub.taken.getLast? = some event ∧ event.endsRun = true) ∧
    (sub.overflowed = true ∨ log.any (·.endsRun) = true → s.appending sub.runId = false → sub.stopped = false →
      ∃ k, ∀ choices : List Bool, k ≤ choices.length →
        ∃ sub', (s.drive i choices).subs[i]? = some sub' ∧ sub'.pc = .ended ∧ sub'.taken <+: log ∧
          (sub.overflowed = false →
            sub'.taken = upTo (·.endsRun) log ∧ ∃ event, sub'.taken.getLast? = some event ∧ event.endsRun = true)) := by
  intro s log
  have h : Inv s := run_inv (fun sub hsub => by cases hsub) moves
  have hinv := h sub (List.mem_of_getElem? hsub)
  refine ⟨taken_isPrefix hinv hsince, fun hpc hstopped hfit => taken_of_ended hinv hsince hpc hstopped hfit,
    fun hclosed hidle hstopped => ⟨sub.rank, fun choices hlong => ?_⟩⟩
  have hending := ending_of_closed h hsub hsince hidle hclosed
  obtain ⟨sub', hsub', hended, hlater, hevents⟩ := drive_ended hsub hending hlong
  have hinv' := drive_inv h i choices sub' (List.mem_of_getElem? hsub')
  rw [hlater.runId, hevents] at hinv'
  have hsince' : sub'.since = some n := hlater.since.trans hsince
  refine ⟨sub', hsub', hended, taken_isPrefix hinv' hsince', fun hfit => ?_⟩
  exact taken_of_ended hinv' hsince' hended (hlater.stopped.trans hstopped) (hlater.overflowed.trans hfit)

def readyEvent : DiagnosticEvent := ⟨0, "run", ⟨.run, "run", .ready, "RUN_READY", "ready", none, []⟩⟩

def succeededEvent : DiagnosticEvent := ⟨1, "run", ⟨.run, "run", .succeeded, "RUN_SUCCEEDED", "done", none, []⟩⟩

/-- An iterator that subscribes, times out once, and reads two events to the end. -/
def readToEnd : List Move :=
  [.subscribe "run", .resume 0, .locked 0, .locked 0, .timeout 0, .locked 0, .append readyEvent, .resume 0, .locked 0, .got 0,
    .append succeededEvent, .finishAppend "run", .resume 0, .locked 0, .resume 0, .locked 0, .locked 0]

theorem readToEnd_contiguous :
    ∃ sub, (run {} readToEnd).subs[0]? = some sub ∧ sub.taken <+: ((run {} readToEnd).events "run").drop 0 ∧
      sub.pc = .ended ∧ sub.taken = [readyEvent, succeededEvent] := by
  refine ⟨_, rfl, (stream_contiguous readToEnd 0 0 _ rfl rfl).1, ?_, ?_⟩
  · rfl
  · rfl

end EventStore

end DataNexus.Runtime
