/-
  DataNexus.Lib.Process — any number of programs over one shared store.

  A program runs atomic operations one after another and reads each one's result. A `World`
  is the store, the programs in flight and what has been executed. It moves when a program
  is spawned, runs its next operation, or is dropped where it stands. What an operation does
  depends on the store and on the environment's choice `ε` (a clock, a fault, a reply).

  Some operations spend what others grant. `Within n p`: started with `n` grants in hand,
  `p` never spends more than it has been granted. If every program is within no grants and
  every grant shows in the store, no interleaving spends more than the store has granted
  (`spent_le_granted`).
-/

import Mathlib

namespace DataNexus.Lib.Process

inductive Proc (Op : Type) (Res : Op → Type) where
  | done
  | call (op : Op) (next : Res op → Proc Op Res)

structure Entry (Op σ : Type) where
  op : Op
  before : σ
  after : σ

structure World (Op σ : Type) (Res : Op → Type) where
  store : σ
  procs : List (Proc Op Res)
  trace : List (Entry Op σ)

inductive Move (Op ε : Type) (Res : Op → Type) where
  | spawn (p : Proc Op Res)
  | step (i : Nat) (e : ε)
  | drop (i : Nat)

variable {Op σ ε : Type} {Res : Op → Type} (exec : (op : Op) → ε → σ → σ × Res op)

namespace World

def move (w : World Op σ Res) : Move Op ε Res → World Op σ Res
  | .spawn p => { w with procs := w.procs ++ [p] }
  | .drop i => { w with procs := w.procs.set i .done }
  | .step i e =>
    match w.procs[i]? with
    | some (.call op next) =>
      let (after, result) := exec op e w.store
      ⟨after, w.procs.set i (next result), w.trace ++ [⟨op, w.store, after⟩]⟩
    | _ => w

def run (w : World Op σ Res) (moves : List (Move Op ε Res)) : World Op σ Res := moves.foldl (move exec) w

/-- The only programs spawned are the given ones. -/
def Spawns (programs : Proc Op Res → Prop) (moves : List (Move Op ε Res)) : Prop :=
  ∀ p, Move.spawn p ∈ moves → programs p

variable {exec}

/-- What one move does: nothing to the store, or one operation of one program. -/
theorem move_cases (w : World Op σ Res) (m : Move Op ε Res) :
    ((move exec w m).store = w.store ∧ (move exec w m).trace = w.trace) ∨
    ∃ i e op next, m = .step i e ∧ w.procs[i]? = some (.call op next) ∧
      move exec w m = ⟨(exec op e w.store).1, w.procs.set i (next (exec op e w.store).2),
        w.trace ++ [⟨op, w.store, (exec op e w.store).1⟩]⟩ := by
  cases m with
  | spawn p => exact .inl ⟨rfl, rfl⟩
  | drop i => exact .inl ⟨rfl, rfl⟩
  | step i e =>
    cases h : w.procs[i]? with
    | none => exact .inl (by simp [move, h])
    | some p =>
      cases p with
      | done => exact .inl (by simp [move, h])
      | call op next => exact .inr ⟨i, e, op, next, rfl, h, by simp [move, h]⟩

/-- The rule for a property of the store and the trace: it holds at the start, and every
    operation keeps it. -/
theorem run_invariant {P : σ → List (Entry Op σ) → Prop} {w : World Op σ Res} (h0 : P w.store w.trace)
    (hop : ∀ op e s trace, P s trace → P (exec op e s).1 (trace ++ [⟨op, s, (exec op e s).1⟩]))
    (moves : List (Move Op ε Res)) : P (run exec w moves).store (run exec w moves).trace := by
  refine moves.foldlRecOn (motive := fun w => P w.store w.trace) (move exec) h0 ?_
  intro w' hw m _
  rcases move_cases w' m with ⟨hs, ht⟩ | ⟨i, e, op, next, -, -, h⟩
  · rwa [hs, ht]
  · rw [h]
    exact hop op e w'.store w'.trace hw

end World

/-! ## Spending what was granted -/

section Grants

variable (grants : (op : Op) → Res op → Bool) (spends : Op → Bool)

def Within : Nat → Proc Op Res → Prop
  | _, .done => True
  | n, .call op next =>
    (spends op = true → 0 < n) ∧
      ∀ r, Within (n - (if spends op then 1 else 0) + if grants op r then 1 else 0) (next r)

def spent (trace : List (Entry Op σ)) : Nat := trace.countP fun entry => spends entry.op

variable {grants spends exec}

/-- More grants in hand never hurt. -/
theorem Within.mono {p : Proc Op Res} {m n : Nat} (h : Within grants spends m p) (hle : m ≤ n) :
    Within grants spends n p := by
  induction p generalizing m n with
  | done => trivial
  | call op next ih =>
    refine ⟨fun hs => (h.1 hs).trans_le hle, fun r => ih r (h.2 r) ?_⟩
    omega

theorem sum_set {ns : List Nat} {i n m : Nat} (h : ns[i]? = some n) : (ns.set i m).sum + n = ns.sum + m := by
  induction ns generalizing i with
  | nil => simp at h
  | cons a ns ih =>
    cases i with
    | zero =>
      obtain rfl : a = n := by simpa using h
      simp only [List.set_cons_zero, List.sum_cons]
      omega
    | succ i =>
      have := ih (i := i) (by simpa using h)
      simp only [List.set_cons_succ, List.sum_cons]
      omega

theorem forall₂_set {α β : Type} {R : α → β → Prop} {xs : List α} {ys : List β} (h : List.Forall₂ R xs ys)
    {x : α} {y : β} (hxy : R x y) (i : Nat) : List.Forall₂ R (xs.set i x) (ys.set i y) := by
  induction h generalizing i with
  | nil => simp
  | cons hab _ ih =>
    cases i with
    | zero => exact .cons hxy ‹_›
    | succ i => exact .cons hab (ih i)

theorem exists_of_forall₂ {α β : Type} {R : α → β → Prop} {xs : List α} {ys : List β} (h : List.Forall₂ R xs ys)
    {i : Nat} {y : β} (hy : ys[i]? = some y) : ∃ x, xs[i]? = some x ∧ R x y := by
  induction h generalizing i with
  | nil => simp at hy
  | cons hab _ ih =>
    cases i with
    | zero =>
      obtain rfl := by simpa using hy
      exact ⟨_, rfl, hab⟩
    | succ i => exact ih (by simpa using hy)

/-- The grants in hand, program by program, and what the trace has spent fit in what the
    store has granted. -/
def Balanced (grants : (op : Op) → Res op → Bool) (spends : Op → Bool) (granted : σ → Nat) (w : World Op σ Res) :
    Prop :=
  ∃ hands : List Nat, List.Forall₂ (Within grants spends) hands w.procs ∧
    spent spends w.trace + hands.sum ≤ granted w.store

theorem balanced_move {granted : σ → Nat}
    (hgrant : ∀ op e s, granted s + (if grants op (exec op e s).2 then 1 else 0) ≤ granted (exec op e s).1)
    {w : World Op σ Res} (hw : Balanced grants spends granted w) {m : Move Op ε Res}
    (hm : ∀ p, m = .spawn p → Within grants spends 0 p) : Balanced grants spends granted (w.move exec m) := by
  obtain ⟨hands, hin, hsum⟩ := hw
  cases m with
  | spawn p =>
    refine ⟨hands ++ [0], List.rel_append hin (.cons (hm p rfl) .nil), ?_⟩
    simpa [World.move] using hsum
  | drop i =>
    have hdone : Within grants spends 0 (.done : Proc Op Res) := trivial
    refine ⟨hands.set i 0, forall₂_set hin hdone i, ?_⟩
    show spent spends w.trace + (hands.set i 0).sum ≤ granted w.store
    cases h : hands[i]? with
    | none => rwa [List.set_eq_of_length_le (List.getElem?_eq_none_iff.mp h)]
    | some n =>
      have := sum_set (m := 0) h
      omega
  | step i e =>
    cases hp : w.procs[i]? with
    | none => exact ⟨hands, by simpa [World.move, hp] using hin, by simpa [World.move, hp] using hsum⟩
    | some p =>
      cases p with
      | done => exact ⟨hands, by simpa [World.move, hp] using hin, by simpa [World.move, hp] using hsum⟩
      | call op next =>
        obtain ⟨n, hn, hpos, hnext⟩ := exists_of_forall₂ hin hp
        have hsum' := sum_set
          (m := n - (if spends op then 1 else 0) + if grants op (exec op e w.store).2 then 1 else 0) hn
        have hspent : spent spends (w.trace ++ [⟨op, w.store, (exec op e w.store).1⟩]) =
            spent spends w.trace + if spends op then 1 else 0 := by
          simp [spent, List.countP_append, List.countP_cons]
        have hgrant' := hgrant op e w.store
        refine ⟨_, by simpa [World.move, hp] using forall₂_set hin (hnext (exec op e w.store).2) i, ?_⟩
        simp only [World.move, hp]
        rw [hspent]
        by_cases hs : spends op = true
        · have := hpos hs
          simp only [hs, if_true] at hsum' ⊢
          omega
        · simp only [hs, Bool.false_eq_true, if_false] at hsum' ⊢
          omega

/-- From an empty world, no interleaving of programs that spend only what they are granted
    spends more than the store has granted. -/
theorem spent_le_granted {granted : σ → Nat}
    (hgrant : ∀ op e s, granted s + (if grants op (exec op e s).2 then 1 else 0) ≤ granted (exec op e s).1)
    {programs : Proc Op Res → Prop} (hprograms : ∀ p, programs p → Within grants spends 0 p) (s : σ)
    {moves : List (Move Op ε Res)} (hspawns : World.Spawns programs moves) :
    spent spends ((World.mk s [] []).run exec moves).trace ≤ granted ((World.mk s [] []).run exec moves).store := by
  have hbalanced : Balanced grants spends granted ((World.mk s [] []).run exec moves) := by
    refine moves.foldlRecOn (motive := Balanced grants spends granted) (World.move exec)
      ⟨[], .nil, by simp [spent]⟩ ?_
    intro w hw m hm
    exact balanced_move hgrant hw fun p e => hprograms p (hspawns p (e ▸ hm))
  obtain ⟨hands, -, hsum⟩ := hbalanced
  omega

end Grants

end DataNexus.Lib.Process
