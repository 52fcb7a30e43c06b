/-
  DataNexus.Control.RunDispatchCoordinator — the in-process dispatch leases
  (`Infrastructure/RunDispatchCoordinator.cs`).

  Actors. A call of `AcquireAsync` looks its run's gate up or makes one and counts itself in,
  under the lock (`acquire`); then calls the gate's `WaitAsync` (`wait`), which throws on a
  cancelled token or a disposed semaphore, takes the semaphore's one slot when it is free and
  queues otherwise. A queued call's token may be cancelled: that takes it out of the queue
  unless it has been granted already (`cancel`). A granted call resumes and returns a `Lease`
  (`resume`). `DisposeAsync` exchanges the lease's flag (`disposeAsync`); the call that found
  it clear releases the semaphore (`release`), which serves the head of the queue, counts the
  gate down under the lock (`countDown`), and disposes the semaphore when it took the gate out
  of the table (`disposeSemaphore`). A call whose wait threw counts down without a release.

  A gate is named by its place in `entries`, so two gates made for one run id are two
  entries. `ReferenceCount` is an unbounded integer. It is the number of calls alive at once
  (`Counted.holders`), and a C# `int` says the same while these are fewer than 2^31.

  Proved: `lease_discipline`.
-/

import DataNexus.Lib.Roster

namespace DataNexus.Control.RunDispatchCoordinator

open Lib

/-- A `GateEntry` with what its `SemaphoreSlim(1, 1)` holds. -/
structure GateEntry where
  referenceCount : Int
  currentCount : Nat
  waiters : List Nat
  disposed : Bool
  deriving DecidableEq

def GateEntry.new : GateEntry := ⟨0, 1, [], false⟩

/-- `SemaphoreSlim(1, 1)`. -/
def maxCount : Nat := 1

inductive Phase where
  /-- Counted in; `WaitAsync` not called yet. -/
  | entered (entry : Nat)
  | waiting (entry : Nat)
  /-- `WaitAsync` has completed; the lease is not made yet. -/
  | granted (entry : Nat)
  | leased (entry : Nat)
  /-- In `Release(acquired: true)`, before the semaphore's release. -/
  | releasing (entry : Nat)
  /-- In `Release`, before its locked section. -/
  | counting (entry : Nat)
  /-- In `Release`, after its locked section removed the gate. -/
  | closing (entry : Nat)
  /-- The semaphore's release threw: `Release` is left there. -/
  | faulted (entry : Nat)
  | ended
  deriving DecidableEq

def Phase.entry? : Phase → Option Nat
  | .entered e | .waiting e | .granted e | .leased e | .releasing e | .counting e | .closing e | .faulted e => some e
  | .ended => none

structure Call (Run : Type) where
  runId : Run
  phase : Phase
  /-- The lease's `released`, once there is a lease. -/
  released : Option Bool

structure St (Run : Type) where
  gates : Run → Option Nat
  entries : List GateEntry
  calls : List (Call Run)

inductive Ev (Run : Type) where
  | acquire (runId : Run)
  | wait (call : Nat) (cancelled : Bool)
  | cancel (call : Nat)
  | resume (call : Nat)
  | disposeAsync (call : Nat)
  | release (call : Nat)
  | countDown (call : Nat)
  | disposeSemaphore (call : Nat)

variable {Run : Type}

def init : St Run := ⟨fun _ => none, [], []⟩

namespace St

variable (s : St Run)

/-- Call `i` goes on to phase `p`. -/
def move (i : Nat) (c : Call Run) (p : Phase) : St Run := { s with calls := s.calls.set i { c with phase := p } }

def put (e : Nat) (x : GateEntry) : St Run := { s with entries := s.entries.set e x }

/-- Do `f` with call `i` and the gate it is about. -/
def on (i : Nat) (f : Call Run → Nat → GateEntry → St Run) : St Run :=
  match s.calls[i]? with
  | none => s
  | some c =>
    match c.phase.entry? with
    | none => s
    | some e =>
      match s.entries[e]? with
      | none => s
      | some x => f c e x

/-- The loop at the end of `SemaphoreSlim.Release`: the free slot goes to the head of the queue. -/
def serve (e : Nat) : St Run :=
  match s.entries[e]? with
  | none => s
  | some x =>
    match x.waiters with
    | [] => s
    | j :: rest =>
      match s.calls[j]? with
      | none => s
      | some d => (s.put e { x with currentCount := x.currentCount - 1, waiters := rest }).move j d (.granted e)

end St

/-- The locked section of `AcquireAsync`. -/
def acquire [DecidableEq Run] (s : St Run) (r : Run) : St Run :=
  match s.gates r with
  | some e =>
    match s.entries[e]? with
    | none => s
    | some x =>
      { s with
        entries := s.entries.set e { x with referenceCount := x.referenceCount + 1 }
        calls := s.calls ++ [⟨r, .entered e, none⟩] }
  | none =>
    { gates := Function.update s.gates r (some s.entries.length)
      entries := s.entries ++ [{ GateEntry.new with referenceCount := GateEntry.new.referenceCount + 1 }]
      calls := s.calls ++ [⟨r, .entered s.entries.length, none⟩] }

def waitAsync (s : St Run) (i : Nat) (cancelled : Bool) : St Run :=
  s.on i fun c e x =>
    if c.phase = .entered e then
      if x.disposed || cancelled then s.move i c (.counting e)
      else if 0 < x.currentCount then
        (s.put e { x with currentCount := x.currentCount - 1 }).move i c (.granted e)
      else (s.put e { x with waiters := x.waiters ++ [i] }).move i c (.waiting e)
    else s

def cancel (s : St Run) (i : Nat) : St Run :=
  s.on i fun c e x =>
    if c.phase = .waiting e then
      (s.put e { x with waiters := x.waiters.erase i }).move i c (.counting e)
    else s

def resume (s : St Run) (i : Nat) : St Run :=
  s.on i fun c e _ =>
    if c.phase = .granted e then s.move i { c with released := some false } (.leased e) else s

/-- `Lease.DisposeAsync`: `Interlocked.Exchange(ref released, 1)`, and into `Release` if it was 0. -/
def disposeAsync (s : St Run) (i : Nat) : St Run :=
  match s.calls[i]? with
  | none => s
  | some c =>
    match c.released with
    | none => s
    | some old =>
      let c' := { c with released := some true }
      match old, c.phase with
      | false, .leased e => s.move i c' (.releasing e)
      | _, p => s.move i c' p

/-- `entry.Semaphore.Release()`. -/
def release (s : St Run) (i : Nat) : St Run :=
  s.on i fun c e x =>
    if c.phase = .releasing e then
      if x.disposed || maxCount ≤ x.currentCount then s.move i c (.faulted e)
      else ((s.put e { x with currentCount := x.currentCount + 1 }).move i c (.counting e)).serve e
    else s

/-- The locked section of `Release`. -/
def countDown [DecidableEq Run] (s : St Run) (i : Nat) : St Run :=
  s.on i fun c e x =>
    if c.phase = .counting e then
      let s' := s.put e { x with referenceCount := x.referenceCount - 1 }
      if x.referenceCount - 1 = 0 ∧ s.gates c.runId = some e then
        { s'.move i c (.closing e) with gates := Function.update s.gates c.runId none }
      else s'.move i c .ended
    else s

def disposeSemaphore (s : St Run) (i : Nat) : St Run :=
  s.on i fun c e x =>
    if c.phase = .closing e then (s.put e { x with disposed := true }).move i c .ended else s

def step [DecidableEq Run] (s : St Run) : Ev Run → St Run
  | .acquire r => acquire s r
  | .wait i cancelled => waitAsync s i cancelled
  | .cancel i => cancel s i
  | .resume i => resume s i
  | .disposeAsync i => disposeAsync s i
  | .release i => release s i
  | .countDown i => countDown s i
  | .disposeSemaphore i => disposeSemaphore s i

def run [DecidableEq Run] (s : St Run) (events : List (Ev Run)) : St Run := events.foldl step s

/-! ## Who a gate counts -/

/-- The call is between its locked increment and its locked decrement at gate `e`. -/
def Call.holds (e : Nat) (c : Call Run) : Bool :=
  match c.phase with
  | .entered e' | .waiting e' | .granted e' | .leased e' | .releasing e' | .counting e' | .faulted e' => e' == e
  | .closing _ | .ended => false

/-- The call has gate `e`'s semaphore. -/
def Call.owns (e : Nat) (c : Call Run) : Bool :=
  match c.phase with
  | .granted e' | .leased e' | .releasing e' => e' == e
  | _ => false

/-- A lease that is not disposed, a call between its increment and its lease, or a release
    not yet counted down. -/
def Call.counted (c : Call Run) : Bool :=
  match c.phase with
  | .closing _ | .ended => false
  | _ => true

/-- The references to run id `r`. -/
def St.references [DecidableEq Run] (s : St Run) (r : Run) : Nat := s.calls.countP fun c => c.runId = r ∧ c.counted

/-- The lease's flag agrees with where the call is, and no release has thrown. -/
def Call.Good (c : Call Run) : Prop :=
  match c.phase with
  | .entered _ | .waiting _ | .granted _ => c.released = none
  | .leased _ => c.released = some false
  | .releasing _ => c.released = some true
  | .counting _ | .closing _ | .ended => c.released ≠ some false
  | .faulted _ => False

/-- What each gate counts, without the table. -/
structure Counted (s : St Run) : Prop where
  holders : ∀ (e : Nat) (x : GateEntry), s.entries[e]? = some x → x.referenceCount = (s.calls.countP (·.holds e) : Nat)
  owners : ∀ (e : Nat) (x : GateEntry), s.entries[e]? = some x → x.currentCount + s.calls.countP (·.owns e) = 1
  queue : ∀ (e : Nat) (x : GateEntry), s.entries[e]? = some x → x.waiters.Nodup
  queued : ∀ (e : Nat) (x : GateEntry), s.entries[e]? = some x →
    ∀ j : Nat, j ∈ x.waiters ↔ ∃ d : Call Run, s.calls[j]? = some d ∧ d.phase = .waiting e
  known : ∀ (i : Nat) (c : Call Run) (e : Nat), s.calls[i]? = some c → c.phase.entry? = some e → e < s.entries.length
  good : ∀ (i : Nat) (c : Call Run), s.calls[i]? = some c → c.Good

/-- What the table says of the gates. -/
structure Tabled (s : St Run) : Prop where
  gated : ∀ (r : Run) (e : Nat), s.gates r = some e →
    ∃ x : GateEntry, s.entries[e]? = some x ∧ 0 < x.referenceCount ∧ x.disposed = false
  once : ∀ (r r' : Run) (e : Nat), s.gates r = some e → s.gates r' = some e → r = r'
  holding : ∀ (i : Nat) (c : Call Run) (e : Nat), s.calls[i]? = some c → c.holds e = true → s.gates c.runId = some e
  closed : ∀ (i : Nat) (c : Call Run) (e : Nat), s.calls[i]? = some c → c.phase = .closing e → ∀ r, s.gates r ≠ some e

theorem counted_init : Counted (init : St Run) := by
  constructor <;> simp [init]

theorem tabled_init : Tabled (init : St Run) := by
  constructor <;> simp [init]

/-! ## One call moves at its gate -/

theorem Call.holds_other {c : Call Run} {e e' : Nat} (h : c.phase.entry? = some e ∨ c.phase = .ended) (hne : e' ≠ e) :
    c.holds e' = false := by
  unfold Call.holds
  cases hp : c.phase <;> rw [hp] at h <;> simp_all [Phase.entry?]
  all_goals exact fun e => hne e.symm

theorem Call.owns_other {c : Call Run} {e e' : Nat} (h : c.phase.entry? = some e ∨ c.phase = .ended) (hne : e' ≠ e) :
    c.owns e' = false := by
  unfold Call.owns
  cases hp : c.phase <;> rw [hp] at h <;> simp_all [Phase.entry?]
  all_goals exact fun e => hne e.symm

/-- Call `i` becomes `c'` and its gate becomes `x'`: enough to look at that call and that gate. -/
theorem Counted.update {s : St Run} (h : Counted s) {i e : Nat} {c : Call Run} {x : GateEntry}
    (hc : s.calls[i]? = some c) (hx : s.entries[e]? = some x) (hentry : c.phase.entry? = some e) {c' : Call Run}
    {x' : GateEntry} (hentry' : c'.phase.entry? = some e ∨ c'.phase = .ended)
    (hrefs : x'.referenceCount + (if c.holds e then 1 else 0) = x.referenceCount + if c'.holds e then 1 else 0)
    (hcount : x'.currentCount + (if c'.owns e then 1 else 0) = x.currentCount + if c.owns e then 1 else 0)
    (hnodup : x'.waiters.Nodup) (hothers : ∀ j, j ≠ i → (j ∈ x'.waiters ↔ j ∈ x.waiters))
    (hself : i ∈ x'.waiters ↔ c'.phase = .waiting e) (hgood : c'.Good) (gates : Run → Option Nat) :
    Counted ⟨gates, s.entries.set e x', s.calls.set i c'⟩ := by
  constructor
  · intro e' y hy
    show y.referenceCount = ((s.calls.set i c').countP (·.holds e') : Nat)
    rcases Roster.getElem?_set_cases hy with ⟨rfl, rfl⟩ | ⟨hne, hy⟩
    · have hset := Roster.countP_set (p := (·.holds e')) hc c'
      have hold := h.holders e' x hx
      split_ifs at hset hrefs <;> omega
    · have hsame : c'.holds e' = c.holds e' := by
        rw [Call.holds_other hentry' hne, Call.holds_other (.inl hentry) hne]
      rw [Roster.countP_set_same hc hsame]
      exact h.holders e' y hy
  · intro e' y hy
    show y.currentCount + (s.calls.set i c').countP (·.owns e') = 1
    rcases Roster.getElem?_set_cases hy with ⟨rfl, rfl⟩ | ⟨hne, hy⟩
    · have hset := Roster.countP_set (p := (·.owns e')) hc c'
      have hold := h.owners e' x hx
      split_ifs at hset hcount <;> omega
    · have hsame : c'.owns e' = c.owns e' := by
        rw [Call.owns_other hentry' hne, Call.owns_other (.inl hentry) hne]
      rw [Roster.countP_set_same hc hsame]
      exact h.owners e' y hy
  · intro e' y hy
    rcases Roster.getElem?_set_cases hy with ⟨rfl, rfl⟩ | ⟨-, hy⟩
    · exact hnodup
    · exact h.queue e' y hy
  · intro e' y hy j
    show j ∈ y.waiters ↔ ∃ d, (s.calls.set i c')[j]? = some d ∧ d.phase = .waiting e'
    by_cases hj : j = i
    · subst hj
      rw [Roster.getElem?_set_self hc]
      rcases Roster.getElem?_set_cases hy with ⟨rfl, rfl⟩ | ⟨hne, hy⟩
      · simpa using hself
      · rw [h.queued e' y hy, hc]
        have hno : ∀ d : Call Run, d.phase.entry? = some e ∨ d.phase = .ended → d.phase ≠ .waiting e' := by
          intro d hd hw
          rw [hw] at hd
          rcases hd with hd | hd
          · exact hne (by simpa [Phase.entry?] using hd)
          · cases hd
        simp [hno c' hentry', hno c (.inl hentry)]
    · rw [List.getElem?_set_ne (fun e => hj e.symm)]
      rcases Roster.getElem?_set_cases hy with ⟨rfl, rfl⟩ | ⟨-, hy⟩
      · rw [hothers j hj]
        exact h.queued e' x hx j
      · exact h.queued e' y hy j
  · intro j d e' hd he'
    rw [List.length_set]
    rcases Roster.getElem?_set_cases hd with ⟨rfl, rfl⟩ | ⟨-, hd⟩
    · rcases hentry' with hentry' | hended
      · rw [hentry'] at he'
        obtain rfl : e = e' := by simpa using he'
        exact h.known j c e hc hentry
      · rw [hended] at he'
        cases he'
    · exact h.known j d e' hd he'
  · intro j d hd
    rcases Roster.getElem?_set_cases hd with ⟨rfl, rfl⟩ | ⟨-, hd⟩
    · exact hgood
    · exact h.good j d hd

/-- The same for the table, when the table stays and the gate stays positive and undisposed. -/
theorem Tabled.update {s : St Run} (h : Tabled s) {i e : Nat} {c : Call Run} {x : GateEntry}
    (hc : s.calls[i]? = some c) (hx : s.entries[e]? = some x) {c' : Call Run} {x' : GateEntry}
    (hheld : c.holds e = true) (hentry' : c'.phase.entry? = some e ∨ c'.phase = .ended) (hrun : c'.runId = c.runId)
    (hclosing : c'.phase ≠ .closing e) (hpos : 0 < x.referenceCount → 0 < x'.referenceCount)
    (hdisposed : x'.disposed = x.disposed) : Tabled ⟨s.gates, s.entries.set e x', s.calls.set i c'⟩ := by
  constructor
  · intro r e' hr
    obtain ⟨y, hy, hypos, hyd⟩ := h.gated r e' hr
    by_cases he : e' = e
    · subst he
      obtain rfl : y = x := by rw [hx] at hy; simpa using hy.symm
      exact ⟨x', Roster.getElem?_set_self hx x', hpos hypos, by rw [hdisposed, hyd]⟩
    · exact ⟨y, by rw [List.getElem?_set_ne (fun h => he h.symm)]; exact hy, hypos, hyd⟩
  · exact h.once
  · intro j d e' hd hh
    rcases Roster.getElem?_set_cases hd with ⟨rfl, rfl⟩ | ⟨-, hd⟩
    · by_cases he : e' = e
      · subst he
        rw [hrun]
        exact h.holding j c e' hc hheld
      · rw [Call.holds_other hentry' he] at hh
        cases hh
    · exact h.holding j d e' hd hh
  · intro j d e' hd hp
    rcases Roster.getElem?_set_cases hd with ⟨rfl, rfl⟩ | ⟨-, hd⟩
    · rw [hp] at hentry'
      rcases hentry' with hentry' | hended
      · obtain rfl : e' = e := by simpa [Phase.entry?] using hentry'
        exact absurd hp hclosing
      · cases hended
    · exact h.closed j d e' hd hp

/-! ## Each step -/

structure Inv (s : St Run) : Prop where
  counted : Counted s
  tabled : Tabled s

theorem on_cases (s : St Run) (i : Nat) (f : Call Run → Nat → GateEntry → St Run) :
    s.on i f = s ∨ ∃ c e x, s.calls[i]? = some c ∧ c.phase.entry? = some e ∧ s.entries[e]? = some x ∧
      s.on i f = f c e x := by
  unfold St.on
  split
  · exact .inl rfl
  · rename_i c hc
    split
    · exact .inl rfl
    · rename_i e he
      split
      · exact .inl rfl
      · rename_i x hx
        exact .inr ⟨c, e, x, hc, he, hx, rfl⟩

/-- Both halves at once, for a step that leaves the table and keeps the call counted. -/
theorem Inv.update {s : St Run} (h : Inv s) {i e : Nat} {c : Call Run} {x : GateEntry} (hc : s.calls[i]? = some c)
    (hx : s.entries[e]? = some x) (hentry : c.phase.entry? = some e) (hheld : c.holds e = true) {c' : Call Run}
    {x' : GateEntry} (hentry' : c'.phase.entry? = some e) (hheld' : c'.holds e = true) (hrun : c'.runId = c.runId)
    (hrefs : x'.referenceCount = x.referenceCount) (hdisposed : x'.disposed = x.disposed)
    (hcount : x'.currentCount + (if c'.owns e then 1 else 0) = x.currentCount + if c.owns e then 1 else 0)
    (hnodup : x'.waiters.Nodup) (hothers : ∀ j, j ≠ i → (j ∈ x'.waiters ↔ j ∈ x.waiters))
    (hself : i ∈ x'.waiters ↔ c'.phase = .waiting e) (hgood : c'.Good) :
    Inv ⟨s.gates, s.entries.set e x', s.calls.set i c'⟩ := by
  refine ⟨h.counted.update hc hx hentry (.inl hentry') ?_ hcount hnodup hothers hself hgood s.gates,
    h.tabled.update hc hx hheld (.inl hentry') hrun ?_ ?_ hdisposed⟩
  · rw [hrefs, hheld, hheld']
  · intro hclosing
    simp [Call.holds, hclosing] at hheld'
  · intro hpos
    rw [hrefs]
    exact hpos

/-- A call that only changes its own phase. -/
theorem Inv.move {s : St Run} (h : Inv s) {i e : Nat} {c : Call Run} {x : GateEntry} (hc : s.calls[i]? = some c)
    (hx : s.entries[e]? = some x) (hentry : c.phase.entry? = some e) (hheld : c.holds e = true) {c' : Call Run}
    (hentry' : c'.phase.entry? = some e) (hheld' : c'.holds e = true) (hrun : c'.runId = c.runId)
    (howns : c'.owns e = c.owns e) (hout : c.phase ≠ .waiting e) (hout' : c'.phase ≠ .waiting e) (hgood : c'.Good) :
    Inv { s with calls := s.calls.set i c' } := by
  have hset : s.entries.set e x = s.entries := by
    obtain ⟨he, rfl⟩ := List.getElem?_eq_some_iff.mp hx
    exact List.set_getElem_self he
  have hq := h.counted.queued e x hx i
  have hnot : i ∉ x.waiters := by
    intro hi
    obtain ⟨d, hd, hp⟩ := hq.mp hi
    obtain rfl : c = d := by rw [hc] at hd; simpa using hd
    exact hout hp
  have hnew : Inv ⟨s.gates, s.entries.set e x, s.calls.set i c'⟩ := h.update hc hx hentry hheld hentry' hheld' hrun rfl rfl
    (by rw [howns]) (h.counted.queue e x hx) (fun _ _ => Iff.rfl) (by simp [hnot, hout']) hgood
  rwa [hset] at hnew

/-- A call that is not waiting is in no queue. -/
theorem Counted.not_queued {s : St Run} (h : Counted s) {i e : Nat} {c : Call Run} {x : GateEntry}
    (hc : s.calls[i]? = some c) (hx : s.entries[e]? = some x) (hout : c.phase ≠ .waiting e) : i ∉ x.waiters := by
  intro hi
  obtain ⟨d, hd, hp⟩ := (h.queued e x hx i).mp hi
  obtain rfl : c = d := by rw [hc] at hd; simpa using hd
  exact hout hp

@[simp] theorem Call.holds_entered (r : Run) (e e' : Nat) (b : Option Bool) :
    Call.holds e ⟨r, .entered e', b⟩ = (e' == e) := rfl

@[simp] theorem Call.owns_entered (r : Run) (e e' : Nat) (b : Option Bool) :
    Call.owns e ⟨r, .entered e', b⟩ = false := rfl

/-- A gate nobody refers to yet. -/
theorem Counted.allocate {s : St Run} (h : Counted s) (gates : Run → Option Nat) :
    Counted ⟨gates, s.entries ++ [GateEntry.new], s.calls⟩ := by
  have hfresh : ∀ c ∈ s.calls, c.phase.entry? ≠ some s.entries.length := by
    intro c hc he
    obtain ⟨i, hi⟩ := List.getElem?_of_mem hc
    exact absurd (h.known i c _ hi he) (Nat.lt_irrefl _)
  constructor
  · intro e x hx
    rcases Roster.getElem?_append_cases hx with ⟨rfl, rfl⟩ | hx
    · have hzero : s.calls.countP (·.holds s.entries.length) = 0 := by
        rw [List.countP_eq_zero]
        intro c hc hh
        refine hfresh c hc ?_
        unfold Call.holds at hh
        cases hp : c.phase <;> simp_all [Phase.entry?]
      show (0 : Int) = (s.calls.countP (·.holds s.entries.length) : Nat)
      rw [hzero]
      rfl
    · exact h.holders e x hx
  · intro e x hx
    rcases Roster.getElem?_append_cases hx with ⟨rfl, rfl⟩ | hx
    · have hzero : s.calls.countP (·.owns s.entries.length) = 0 := by
        rw [List.countP_eq_zero]
        intro c hc hh
        refine hfresh c hc ?_
        unfold Call.owns at hh
        cases hp : c.phase <;> simp_all [Phase.entry?]
      show 1 + s.calls.countP (·.owns s.entries.length) = 1
      rw [hzero]
    · exact h.owners e x hx
  · intro e x hx
    rcases Roster.getElem?_append_cases hx with ⟨-, rfl⟩ | hx
    · exact List.nodup_nil
    · exact h.queue e x hx
  · intro e x hx j
    rcases Roster.getElem?_append_cases hx with ⟨rfl, rfl⟩ | hx
    · refine ⟨fun hj => absurd hj List.not_mem_nil, ?_⟩
      rintro ⟨d, hd, hp⟩
      exact absurd (by rw [hp]; rfl) (hfresh d (List.mem_of_getElem? hd))
    · exact h.queued e x hx j
  · intro i c e hc he
    have hlt := h.known i c e hc he
    show e < (s.entries ++ [GateEntry.new]).length
    rw [List.length_append]
    omega
  · exact h.good

/-- A call counts itself in. -/
theorem Counted.arrive {s : St Run} (h : Counted s) {e : Nat} {x : GateEntry} (hx : s.entries[e]? = some x) (r : Run) :
    Counted ⟨s.gates, s.entries.set e { x with referenceCount := x.referenceCount + 1 },
      s.calls ++ [⟨r, .entered e, none⟩]⟩ := by
  have hnew : ∀ {j : Nat} {d : Call Run}, (s.calls ++ [⟨r, .entered e, none⟩])[j]? = some d →
      d = ⟨r, .entered e, none⟩ ∨ s.calls[j]? = some d := by
    intro j d hd
    exact (Roster.getElem?_append_cases hd).imp (·.2) id
  have hqueue : ∀ e' j : Nat, (∃ d : Call Run, (s.calls ++ [⟨r, .entered e, none⟩])[j]? = some d ∧ d.phase = .waiting e') ↔
      ∃ d : Call Run, s.calls[j]? = some d ∧ d.phase = .waiting e' := by
    intro e' j
    constructor
    · rintro ⟨d, hd, hp⟩
      rcases hnew hd with rfl | hd
      · cases hp
      · exact ⟨d, hd, hp⟩
    · rintro ⟨d, hd, hp⟩
      refine ⟨d, ?_, hp⟩
      rw [List.getElem?_append_left (List.getElem?_eq_some_iff.mp hd).1]
      exact hd
  constructor
  · intro e' y hy
    rw [List.countP_append, List.countP_singleton, Call.holds_entered]
    rcases Roster.getElem?_set_cases hy with ⟨rfl, rfl⟩ | ⟨hne, hy⟩
    · have hold := h.holders e' x hx
      simp only [beq_self_eq_true, if_true]
      omega
    · have hold := h.holders e' y hy
      simp only [beq_eq_false_iff_ne.mpr (Ne.symm hne), Bool.false_eq_true, if_false]
      omega
  · intro e' y hy
    rw [List.countP_append, List.countP_singleton, Call.owns_entered]
    rcases Roster.getElem?_set_cases hy with ⟨rfl, rfl⟩ | ⟨-, hy⟩
    · exact h.owners e' x hx
    · exact h.owners e' y hy
  · intro e' y hy
    rcases Roster.getElem?_set_cases hy with ⟨rfl, rfl⟩ | ⟨-, hy⟩
    · exact h.queue e' x hx
    · exact h.queue e' y hy
  · intro e' y hy j
    rw [hqueue]
    rcases Roster.getElem?_set_cases hy with ⟨rfl, rfl⟩ | ⟨-, hy⟩
    · exact h.queued e' x hx j
    · exact h.queued e' y hy j
  · intro j d e' hd he'
    rw [List.length_set]
    rcases hnew hd with rfl | hd
    · obtain rfl : e = e' := by simpa [Phase.entry?] using he'
      exact (List.getElem?_eq_some_iff.mp hx).1
    · exact h.known j d e' hd he'
  · intro j d hd
    rcases hnew hd with rfl | hd
    · exact rfl
    · exact h.good j d hd

/-- The table after a call for `r` has counted itself in at `r`'s gate. -/
theorem Tabled.arrive {s : St Run} {e : Nat} {x : GateEntry} (hx : s.entries[e]? = some x) {r : Run}
    (hr : s.gates r = some e) (hlive : x.disposed = false) (hpos : 0 ≤ x.referenceCount)
    (gated : ∀ r' e', s.gates r' = some e' → e' ≠ e →
      ∃ y : GateEntry, s.entries[e']? = some y ∧ 0 < y.referenceCount ∧ y.disposed = false)
    (once : ∀ r r' e, s.gates r = some e → s.gates r' = some e → r = r')
    (holding : ∀ (i : Nat) (c : Call Run) (e : Nat), s.calls[i]? = some c → c.holds e = true → s.gates c.runId = some e)
    (closed : ∀ (i : Nat) (c : Call Run) (e : Nat), s.calls[i]? = some c → c.phase = .closing e → ∀ r, s.gates r ≠ some e) :
    Tabled ⟨s.gates, s.entries.set e { x with referenceCount := x.referenceCount + 1 },
      s.calls ++ [⟨r, .entered e, none⟩]⟩ := by
  constructor
  · intro r' e' hr'
    by_cases he : e' = e
    · subst he
      exact ⟨_, Roster.getElem?_set_self hx _, by show 0 < x.referenceCount + 1; omega, hlive⟩
    · obtain ⟨y, hy, hypos, hyd⟩ := gated r' e' hr' he
      exact ⟨y, by rw [List.getElem?_set_ne (fun h => he h.symm)]; exact hy, hypos, hyd⟩
  · exact once
  · intro j d e' hd hh
    rcases Roster.getElem?_append_cases hd with ⟨-, rfl⟩ | hd
    · rw [Call.holds_entered] at hh
      obtain rfl : e = e' := by simpa using hh
      exact hr
    · exact holding j d e' hd hh
  · intro j d e' hd hp
    rcases Roster.getElem?_append_cases hd with ⟨-, rfl⟩ | hd
    · cases hp
    · exact closed j d e' hd hp

theorem inv_acquire [DecidableEq Run] {s : St Run} (h : Inv s) (r : Run) : Inv (acquire s r) := by
  unfold acquire
  cases hg : s.gates r with
  | some e =>
    obtain ⟨x, hx, hpos, hlive⟩ := h.tabled.gated r e hg
    simp only [hx]
    exact ⟨h.counted.arrive hx r, Tabled.arrive hx hg hlive hpos.le (fun r' e' hr' _ => h.tabled.gated r' e' hr')
      h.tabled.once h.tabled.holding h.tabled.closed⟩
  | none =>
    -- The gate is made first, with nobody counted, and the call then counts itself in at it.
    let s' : St Run := ⟨Function.update s.gates r (some s.entries.length), s.entries ++ [GateEntry.new], s.calls⟩
    have hx : s'.entries[s.entries.length]? = some GateEntry.new := by simp [s']
    have hold : ∀ r' e', s.gates r' = some e' → e' < s.entries.length := by
      intro r' e' hr'
      obtain ⟨x, hx, -⟩ := h.tabled.gated r' e' hr'
      exact (List.getElem?_eq_some_iff.mp hx).1
    have hgates : ∀ r' e', s'.gates r' = some e' →
        (r' = r ∧ e' = s.entries.length) ∨ (r' ≠ r ∧ s.gates r' = some e') := by
      intro r' e' hr'
      by_cases he : r' = r
      · subst he
        exact .inl ⟨rfl, by simpa [s'] using hr'.symm⟩
      · exact .inr ⟨he, by simpa [s', Function.update_of_ne he] using hr'⟩
    have hkept : ∀ r' e', s.gates r' = some e' → s'.gates r' = some e' := by
      intro r' e' hr'
      have hne : r' ≠ r := by
        intro he
        rw [he, hg] at hr'
        cases hr'
      simpa [s', Function.update_of_ne hne] using hr'
    have hcounted : Counted s' := h.counted.allocate _
    have harrive := hcounted.arrive hx r
    have htabled := Tabled.arrive (s := s') hx (r := r) (by simp [s']) rfl (le_refl _) ?_ ?_ ?_ ?_
    · have hset : s'.entries.set s.entries.length
          { GateEntry.new with referenceCount := GateEntry.new.referenceCount + 1 } =
          s.entries ++ [{ GateEntry.new with referenceCount := GateEntry.new.referenceCount + 1 }] := by
        simp [s']
      rw [hset] at harrive htabled
      exact ⟨harrive, htabled⟩
    · intro r' e' hr' hne
      rcases hgates r' e' hr' with ⟨-, he⟩ | ⟨-, hr'⟩
      · exact absurd he hne
      · obtain ⟨x, hx, hpos, hlive⟩ := h.tabled.gated r' e' hr'
        refine ⟨x, ?_, hpos, hlive⟩
        rw [List.getElem?_append_left (hold r' e' hr')]
        exact hx
    · intro r₁ r₂ e' h₁ h₂
      rcases hgates r₁ e' h₁ with ⟨rfl, rfl⟩ | ⟨-, h₁⟩
      · rcases hgates r₂ _ h₂ with ⟨rfl, -⟩ | ⟨-, h₂⟩
        · rfl
        · exact absurd (hold r₂ _ h₂) (Nat.lt_irrefl _)
      · rcases hgates r₂ e' h₂ with ⟨-, rfl⟩ | ⟨-, h₂⟩
        · exact absurd (hold r₁ _ h₁) (Nat.lt_irrefl _)
        · exact h.tabled.once r₁ r₂ e' h₁ h₂
    · intro i c e' hc hh
      exact hkept _ _ (h.tabled.holding i c e' hc hh)
    · intro i c e' hc hp r' hr'
      rcases hgates r' e' hr' with ⟨-, rfl⟩ | ⟨-, hr'⟩
      · exact absurd (h.counted.known i c _ hc (by rw [hp]; rfl)) (Nat.lt_irrefl _)
      · exact h.tabled.closed i c e' hc hp r' hr'

theorem inv_waitAsync {s : St Run} (h : Inv s) (i : Nat) (cancelled : Bool) : Inv (waitAsync s i cancelled) := by
  unfold waitAsync
  rcases on_cases s i _ with heq | ⟨c, e, x, hc, hentry, hx, heq⟩
  · rw [heq]; exact h
  rw [heq]
  by_cases hp : c.phase = .entered e
  swap
  · rw [if_neg hp]; exact h
  rw [if_pos hp]
  have hgood := h.counted.good i c hc
  rw [Call.Good, hp] at hgood
  have hheld : c.holds e = true := by simp [Call.holds, hp]
  have hout : c.phase ≠ .waiting e := by simp [hp]
  have hnot := h.counted.not_queued hc hx hout
  split_ifs with hthrow hfree
  · refine h.move hc hx hentry hheld (e := e) rfl ?_ rfl ?_ hout ?_ ?_
    · simp [Call.holds]
    · simp [Call.owns, hp]
    · simp
    · simp [Call.Good, hgood]
  · refine h.update hc hx hentry hheld (e := e) rfl ?_ rfl rfl rfl ?_ (h.counted.queue e x hx) ?_ ?_ ?_
    · simp [Call.holds]
    · simp only [Call.owns, hp, beq_self_eq_true, if_true, Bool.false_eq_true, if_false]
      omega
    · intro j _
      exact Iff.rfl
    · simp [hnot]
    · exact hgood
  · refine h.update hc hx hentry hheld (e := e) rfl ?_ rfl rfl rfl ?_ ?_ ?_ ?_ ?_
    · simp [Call.holds]
    · simp [Call.owns, hp]
    · exact List.nodup_append.mpr ⟨h.counted.queue e x hx, by simp, by
        intro a ha b hb
        rw [List.mem_singleton.mp hb]
        intro he
        exact hnot (he ▸ ha)⟩
    · intro j hj
      simp [hj]
    · simp
    · exact hgood

theorem inv_cancel {s : St Run} (h : Inv s) (i : Nat) : Inv (cancel s i) := by
  unfold cancel
  rcases on_cases s i _ with heq | ⟨c, e, x, hc, hentry, hx, heq⟩
  · rw [heq]; exact h
  rw [heq]
  by_cases hp : c.phase = .waiting e
  swap
  · rw [if_neg hp]; exact h
  rw [if_pos hp]
  have hgood := h.counted.good i c hc
  rw [Call.Good, hp] at hgood
  have hnodup := h.counted.queue e x hx
  refine h.update hc hx hentry ?_ (e := e) rfl ?_ rfl rfl rfl ?_ (hnodup.erase i) ?_ ?_ ?_
  · simp [Call.holds, hp]
  · simp [Call.holds]
  · simp [Call.owns, hp]
  · intro j hj
    exact List.mem_erase_of_ne hj
  · simp [hnodup.mem_erase_iff]
  · simp [Call.Good, hgood]

theorem inv_resume {s : St Run} (h : Inv s) (i : Nat) : Inv (resume s i) := by
  unfold resume
  rcases on_cases s i _ with heq | ⟨c, e, x, hc, hentry, hx, heq⟩
  · rw [heq]; exact h
  rw [heq]
  by_cases hp : c.phase = .granted e
  swap
  · rw [if_neg hp]; exact h
  rw [if_pos hp]
  refine h.move hc hx hentry ?_ (e := e) rfl ?_ rfl ?_ ?_ ?_ ?_
  · simp [Call.holds, hp]
  · simp [Call.holds]
  · simp [Call.owns, hp]
  · simp [hp]
  · simp
  · simp [Call.Good]

/-- A call's gate exists. -/
theorem Counted.gate {s : St Run} (h : Counted s) {i e : Nat} {c : Call Run} (hc : s.calls[i]? = some c)
    (hentry : c.phase.entry? = some e) : ∃ x, s.entries[e]? = some x :=
  ⟨_, List.getElem?_eq_getElem (h.known i c e hc hentry)⟩

/-- The exchange found the flag set: it writes what was there. -/
theorem disposeAsync_released {s : St Run} {i : Nat} {c : Call Run} (hc : s.calls[i]? = some c)
    (hreleased : c.released = some true) : disposeAsync s i = s := by
  have hsame : ({ c with released := some true, phase := c.phase } : Call Run) = c := by
    rw [← hreleased]
  have hset : s.calls.set i c = s.calls := by
    obtain ⟨hi, rfl⟩ := List.getElem?_eq_some_iff.mp hc
    exact List.set_getElem_self hi
  simp only [disposeAsync, hc, hreleased, St.move, hsame, hset]

/-- The exchange found the flag clear: the lease goes into `Release`. -/
theorem disposeAsync_live {s : St Run} {i e : Nat} {c : Call Run} (hc : s.calls[i]? = some c)
    (hreleased : c.released = some false) (hp : c.phase = .leased e) :
    disposeAsync s i = s.move i { c with released := some true } (.releasing e) := by
  simp only [disposeAsync, hc, hreleased, hp]

theorem inv_disposeAsync {s : St Run} (h : Inv s) (i : Nat) : Inv (disposeAsync s i) := by
  cases hc : s.calls[i]? with
  | none => simpa only [disposeAsync, hc] using h
  | some c =>
    have hgood := h.counted.good i c hc
    cases hr : c.released with
    | none => simpa only [disposeAsync, hc, hr] using h
    | some released =>
      cases released with
      | true => rwa [disposeAsync_released hc hr]
      | false =>
        have hleased : ∃ e, c.phase = .leased e := by
          unfold Call.Good at hgood
          rw [hr] at hgood
          cases hp : c.phase <;> simp_all
        obtain ⟨e, hp⟩ := hleased
        have hentry : c.phase.entry? = some e := by rw [hp]; rfl
        obtain ⟨x, hx⟩ := h.counted.gate hc hentry
        rw [disposeAsync_live hc hr hp]
        refine h.move hc hx hentry ?_ (e := e) rfl ?_ rfl ?_ ?_ ?_ ?_
        · simp [Call.holds, hp]
        · simp [Call.holds]
        · simp [Call.owns, hp]
        · simp [hp]
        · simp
        · simp [Call.Good]

/-- The free slot of a gate goes to the head of its queue. -/
theorem inv_serve {s : St Run} (h : Inv s) {e : Nat} {x : GateEntry} (hx : s.entries[e]? = some x)
    (hfree : 0 < x.currentCount) : Inv (s.serve e) := by
  unfold St.serve
  simp only [hx]
  cases hw : x.waiters with
  | nil => exact h
  | cons j rest =>
    obtain ⟨d, hd, hp⟩ := (h.counted.queued e x hx j).mp (by simp [hw])
    simp only [hd]
    have hgood := h.counted.good j d hd
    rw [Call.Good, hp] at hgood
    have hnodup := h.counted.queue e x hx
    rw [hw, List.nodup_cons] at hnodup
    refine h.update hd hx (by rw [hp]; rfl) ?_ (e := e) rfl ?_ rfl rfl rfl ?_ hnodup.2 ?_ ?_ hgood
    · simp [Call.holds, hp]
    · simp [Call.holds]
    · simp only [Call.owns, hp, beq_self_eq_true, if_true, Bool.false_eq_true, if_false]
      omega
    · intro k hk
      simp [hw, hk]
    · simp [hnodup.1]

/-- A call that has the semaphore finds it taken and, being counted, undisposed. -/
theorem Inv.owner_gate {s : St Run} (h : Inv s) {i e : Nat} {c : Call Run} {x : GateEntry} (hc : s.calls[i]? = some c)
    (hx : s.entries[e]? = some x) (howns : c.owns e = true) (hheld : c.holds e = true) :
    x.currentCount = 0 ∧ x.disposed = false := by
  have hpos : 0 < s.calls.countP (·.owns e) := List.countP_pos_iff.mpr ⟨c, List.mem_of_getElem? hc, howns⟩
  have hone := h.counted.owners e x hx
  obtain ⟨y, hy, -, hlive⟩ := h.tabled.gated _ _ (h.tabled.holding i c e hc hheld)
  obtain rfl : y = x := by rw [hx] at hy; simpa using hy.symm
  exact ⟨by omega, hlive⟩

theorem inv_release {s : St Run} (h : Inv s) (i : Nat) : Inv (release s i) := by
  unfold release
  rcases on_cases s i _ with heq | ⟨c, e, x, hc, hentry, hx, heq⟩
  · rw [heq]; exact h
  rw [heq]
  by_cases hp : c.phase = .releasing e
  swap
  · rw [if_neg hp]; exact h
  rw [if_pos hp]
  have hgood := h.counted.good i c hc
  rw [Call.Good, hp] at hgood
  have hheld : c.holds e = true := by simp [Call.holds, hp]
  have howns : c.owns e = true := by simp [Call.owns, hp]
  obtain ⟨htaken, hlive⟩ := h.owner_gate hc hx howns hheld
  have hnot := h.counted.not_queued hc hx (by simp [hp])
  have hok : ¬ ((x.disposed || decide (maxCount ≤ x.currentCount)) = true) := by
    simp [hlive, htaken, maxCount]
  rw [if_neg hok]
  refine inv_serve (e := e) (x := { x with currentCount := x.currentCount + 1 }) ?_ ?_ (Nat.succ_pos _)
  · refine h.update hc hx hentry hheld (e := e) rfl ?_ rfl rfl rfl ?_ (h.counted.queue e x hx) ?_ ?_ ?_
    · simp [Call.holds]
    · simp [Call.owns, hp]
    · intro j _
      exact Iff.rfl
    · simp [hnot]
    · simp [Call.Good, hgood]
  · exact Roster.getElem?_set_self hx _

theorem inv_countDown [DecidableEq Run] {s : St Run} (h : Inv s) (i : Nat) : Inv (countDown s i) := by
  unfold countDown
  rcases on_cases s i _ with heq | ⟨c, e, x, hc, hentry, hx, heq⟩
  · rw [heq]; exact h
  rw [heq]
  by_cases hp : c.phase = .counting e
  swap
  · rw [if_neg hp]; exact h
  rw [if_pos hp]
  have hgood := h.counted.good i c hc
  rw [Call.Good, hp] at hgood
  have hheld : c.holds e = true := by simp [Call.holds, hp]
  have hgate := h.tabled.holding i c e hc hheld
  have hnot := h.counted.not_queued hc hx (by simp [hp])
  have hcounted : ∀ p gates, (p = .closing e ∨ p = .ended) →
      Counted ⟨gates, s.entries.set e { x with referenceCount := x.referenceCount - 1 },
        s.calls.set i { c with phase := p }⟩ := by
    intro p gates hcase
    refine h.counted.update hc hx hentry ?_ ?_ ?_ ?_ ?_ ?_ ?_ gates
    · rcases hcase with rfl | rfl
      · exact .inl rfl
      · exact .inr rfl
    · rcases hcase with rfl | rfl <;> simp [Call.holds, hp]
    · rcases hcase with rfl | rfl <;> simp [Call.owns, hp]
    · exact h.counted.queue e x hx
    · intro j _
      exact Iff.rfl
    · rcases hcase with rfl | rfl <;> simp [hnot]
    · rcases hcase with rfl | rfl <;> simpa [Call.Good] using hgood
  by_cases hzero : x.referenceCount - 1 = 0
  · -- The last reference: the gate leaves the table with it, so no call is left that it could miss.
    rw [if_pos ⟨hzero, hgate⟩]
    refine ⟨hcounted (.closing e) _ (.inl rfl), ?_⟩
    have hgates : ∀ r e', Function.update s.gates c.runId none r = some e' →
        r ≠ c.runId ∧ s.gates r = some e' ∧ e' ≠ e := by
      intro r e' hr
      by_cases hrc : r = c.runId
      · rw [hrc, Function.update_self] at hr
        cases hr
      · rw [Function.update_of_ne hrc] at hr
        refine ⟨hrc, hr, ?_⟩
        rintro rfl
        exact hrc (h.tabled.once r c.runId e' hr hgate)
    have hlast : ∀ (j : Nat) (d : Call Run), s.calls[j]? = some d → d.holds e = true → j = i := by
      intro j d hd hh
      by_contra hne
      have htwo := Roster.two_le_countP (p := (·.holds e)) hd hc hne hh hheld
      have hcount := h.counted.holders e x hx
      omega
    constructor
    · intro r e' hr
      obtain ⟨-, hr, hne⟩ := hgates r e' hr
      obtain ⟨y, hy, hypos, hyd⟩ := h.tabled.gated r e' hr
      exact ⟨y, (List.getElem?_set_ne (fun h => hne h.symm)).trans hy, hypos, hyd⟩
    · intro r r' e' hr hr'
      exact h.tabled.once r r' e' (hgates r e' hr).2.1 (hgates r' e' hr').2.1
    · intro j d e' hd hh
      rcases Roster.getElem?_set_cases hd with ⟨-, rfl⟩ | ⟨hne, hd⟩
      · cases hh
      · have hkeep := h.tabled.holding j d e' hd hh
        have hother : d.runId ≠ c.runId := by
          intro hrun
          rw [hrun, hgate] at hkeep
          obtain rfl : e = e' := by simpa using hkeep
          exact hne (hlast j d hd hh)
        show Function.update s.gates c.runId none d.runId = some e'
        rw [Function.update_of_ne hother]
        exact hkeep
    · intro j d e' hd hcl r hr
      obtain ⟨-, hr, hne⟩ := hgates r e' hr
      rcases Roster.getElem?_set_cases hd with ⟨-, rfl⟩ | ⟨-, hd⟩
      · exact hne (by simpa using hcl.symm)
      · exact h.tabled.closed j d e' hd hcl r hr
  · rw [if_neg (fun hboth => hzero hboth.1)]
    refine ⟨hcounted .ended s.gates (.inr rfl), h.tabled.update hc hx hheld (.inr rfl) rfl ?_ ?_ rfl⟩
    · simp
    · intro hpos
      show 0 < x.referenceCount - 1
      omega

theorem inv_disposeSemaphore {s : St Run} (h : Inv s) (i : Nat) : Inv (disposeSemaphore s i) := by
  unfold disposeSemaphore
  rcases on_cases s i _ with heq | ⟨c, e, x, hc, hentry, hx, heq⟩
  · rw [heq]; exact h
  rw [heq]
  by_cases hp : c.phase = .closing e
  swap
  · rw [if_neg hp]; exact h
  rw [if_pos hp]
  have hgood := h.counted.good i c hc
  rw [Call.Good, hp] at hgood
  have hnot := h.counted.not_queued hc hx (by simp [hp])
  have hclosed := h.tabled.closed i c e hc hp
  refine ⟨h.counted.update hc hx hentry ?_ ?_ ?_ ?_ ?_ ?_ ?_ s.gates, ?_⟩
  · exact .inr rfl
  · simp [Call.holds, hp]
  · simp [Call.owns, hp]
  · exact h.counted.queue e x hx
  · intro j _
    exact Iff.rfl
  · simp [hnot]
  · simpa [Call.Good] using hgood
  · constructor
    · intro r e' hr
      have hne : e ≠ e' := by
        rintro rfl
        exact hclosed r hr
      obtain ⟨y, hy, hypos, hyd⟩ := h.tabled.gated r e' hr
      exact ⟨y, (List.getElem?_set_ne hne).trans hy, hypos, hyd⟩
    · exact h.tabled.once
    · intro j d e' hd hh
      rcases Roster.getElem?_set_cases hd with ⟨-, rfl⟩ | ⟨-, hd⟩
      · cases hh
      · exact h.tabled.holding j d e' hd hh
    · intro j d e' hd hcl
      rcases Roster.getElem?_set_cases hd with ⟨-, rfl⟩ | ⟨-, hd⟩
      · cases hcl
      · exact h.tabled.closed j d e' hd hcl

theorem inv_step [DecidableEq Run] {s : St Run} (h : Inv s) (ev : Ev Run) : Inv (step s ev) := by
  cases ev with
  | acquire r => exact inv_acquire h r
  | wait i cancelled => exact inv_waitAsync h i cancelled
  | cancel i => exact inv_cancel h i
  | resume i => exact inv_resume h i
  | disposeAsync i => exact inv_disposeAsync h i
  | release i => exact inv_release h i
  | countDown i => exact inv_countDown h i
  | disposeSemaphore i => exact inv_disposeSemaphore h i

theorem inv_run [DecidableEq Run] (events : List (Ev Run)) : Inv (run init events) :=
  events.foldlRecOn (motive := Inv) step ⟨counted_init, tabled_init⟩ fun _ h ev _ => inv_step h ev

/-! ## What callers rely on -/

theorem Call.holds_of_counted {c : Call Run} (h : c.counted = true) : ∃ e, c.phase.entry? = some e ∧ c.holds e = true := by
  unfold Call.counted at h
  cases hp : c.phase <;> simp_all [Phase.entry?, Call.holds]

theorem Call.counted_of_holds {c : Call Run} {e : Nat} (h : c.holds e = true) : c.counted = true := by
  unfold Call.holds at h
  unfold Call.counted
  cases hp : c.phase <;> simp_all

/-- The references to a run id are the calls its gate counts. -/
theorem Inv.references_eq [DecidableEq Run] {s : St Run} (h : Inv s) {r : Run} {e : Nat} (hr : s.gates r = some e) :
    s.references r = s.calls.countP (·.holds e) := by
  refine List.countP_congr fun c hc => ?_
  obtain ⟨i, hi⟩ := List.getElem?_of_mem hc
  simp only [decide_eq_true_eq]
  constructor
  · rintro ⟨hrun, hcounted⟩
    obtain ⟨e', -, hh⟩ := Call.holds_of_counted hcounted
    have hgate := h.tabled.holding i c e' hi hh
    rw [hrun, hr] at hgate
    obtain rfl : e = e' := by simpa using hgate
    exact hh
  · intro hh
    exact ⟨h.tabled.once _ _ e (h.tabled.holding i c e hi hh) hr, Call.counted_of_holds hh⟩

theorem Inv.gate_iff [DecidableEq Run] {s : St Run} (h : Inv s) (r : Run) : (∃ e, s.gates r = some e) ↔ 0 < s.references r := by
  constructor
  · rintro ⟨e, hr⟩
    obtain ⟨x, hx, hpos, -⟩ := h.tabled.gated r e hr
    have hcount := h.counted.holders e x hx
    rw [h.references_eq hr]
    omega
  · intro hpos
    obtain ⟨c, hc, hboth⟩ := List.countP_pos_iff.mp hpos
    obtain ⟨hrun, hcounted⟩ : c.runId = r ∧ c.counted = true := by simpa using hboth
    obtain ⟨i, hi⟩ := List.getElem?_of_mem hc
    obtain ⟨e, -, hh⟩ := Call.holds_of_counted hcounted
    exact ⟨e, hrun ▸ h.tabled.holding i c e hi hh⟩

/-- Two calls that have the semaphore for one run id are one call. -/
theorem Inv.owner_unique {s : St Run} (h : Inv s) {i j e e' : Nat} {c d : Call Run} (hc : s.calls[i]? = some c)
    (hd : s.calls[j]? = some d) (hrun : c.runId = d.runId) (howns : c.owns e = true) (howns' : d.owns e' = true) :
    i = j := by
  have hholds : ∀ {c : Call Run} {e : Nat}, c.owns e = true → c.holds e = true := by
    intro c e ho
    unfold Call.owns at ho
    unfold Call.holds
    cases hp : c.phase <;> simp_all
  have hgate := h.tabled.holding i c e hc (hholds howns)
  have hgate' := h.tabled.holding j d e' hd (hholds howns')
  rw [hrun, hgate'] at hgate
  obtain rfl : e' = e := by simpa using hgate
  obtain ⟨x, hx, -⟩ := h.tabled.gated _ _ hgate'
  by_contra hne
  have htwo := Roster.two_le_countP (p := (·.owns e')) hc hd hne howns howns'
  have hone := h.counted.owners e' x hx
  omega

/-- A lease that is not disposed has its gate's semaphore. -/
theorem Call.Good.owns_of_live {c : Call Run} (h : c.Good) (hlive : c.released = some false) : ∃ e, c.owns e = true := by
  unfold Call.Good at h
  unfold Call.owns
  cases hp : c.phase <;> simp_all

/-- In every interleaving of the calls' atomic steps: leases exclude each other, a gate is in
    the table exactly while it has references and counts just these, no semaphore is disposed
    under a call or throws at a release, a second dispose changes nothing, and nothing is left
    when everyone is gone. -/
theorem lease_discipline [DecidableEq Run] (events : List (Ev Run)) :
    let s := run init events
    (∀ (i j : Nat) (c d : Call Run), s.calls[i]? = some c → s.calls[j]? = some d → c.runId = d.runId →
      c.released = some false → d.released = some false → i = j) ∧
    (∀ r, (∃ e, s.gates r = some e) ↔ 0 < s.references r) ∧
    (∀ r e, s.gates r = some e →
      ∃ x : GateEntry, s.entries[e]? = some x ∧ x.referenceCount = s.references r ∧ x.disposed = false) ∧
    (∀ (e : Nat) (x : GateEntry), s.entries[e]? = some x → x.disposed = true → ∀ c ∈ s.calls, c.holds e = false) ∧
    (∀ c ∈ s.calls, ∀ e, c.phase ≠ .faulted e) ∧
    (∀ (i : Nat) (c : Call Run), s.calls[i]? = some c → c.released = some true →
      ∀ later, run s (.disposeAsync i :: later) = run s later) ∧
    ((∀ c ∈ s.calls, c.phase = .ended) → ∀ r, s.gates r = none) := by
  intro s
  have h : Inv s := inv_run events
  refine ⟨?_, h.gate_iff, ?_, ?_, ?_, ?_, ?_⟩
  · intro i j c d hc hd hrun hlive hlive'
    obtain ⟨e, howns⟩ := (h.counted.good i c hc).owns_of_live hlive
    obtain ⟨e', howns'⟩ := (h.counted.good j d hd).owns_of_live hlive'
    exact h.owner_unique hc hd hrun howns howns'
  · intro r e hr
    obtain ⟨x, hx, -, hlive⟩ := h.tabled.gated r e hr
    refine ⟨x, hx, ?_, hlive⟩
    rw [h.references_eq hr]
    exact h.counted.holders e x hx
  · intro e x hx hdisposed c hc
    by_contra hheld
    obtain ⟨i, hi⟩ := List.getElem?_of_mem hc
    obtain ⟨y, hy, -, hlive⟩ := h.tabled.gated _ _ (h.tabled.holding i c e hi (by simpa using hheld))
    obtain rfl : y = x := by rw [hx] at hy; simpa using hy.symm
    rw [hlive] at hdisposed
    cases hdisposed
  · intro c hc e hp
    obtain ⟨i, hi⟩ := List.getElem?_of_mem hc
    have hgood := h.counted.good i c hi
    rw [Call.Good, hp] at hgood
    exact hgood
  · intro i c hc hreleased later
    show (step s (.disposeAsync i) :: []).foldl (fun _ t => run t later) s = run s later
    simp only [List.foldl_cons, List.foldl_nil]
    rw [show step s (.disposeAsync i) = s from disposeAsync_released hc hreleased]
  · intro hgone r
    cases hr : s.gates r with
    | none => rfl
    | some e =>
      have hpos := (h.gate_iff r).mp ⟨e, hr⟩
      obtain ⟨c, hc, hboth⟩ := List.countP_pos_iff.mp hpos
      obtain ⟨-, hcounted⟩ : c.runId = r ∧ c.counted = true := by simpa using hboth
      rw [Call.counted, hgone c hc] at hcounted
      cases hcounted

end DataNexus.Control.RunDispatchCoordinator
