/-
  DataNexus.Lib.SideBySide — two computations that may throw, run on two inputs side by side.

  `SideBySide R x y`: both throw the same, or both return and the results are related. One rule
  for each way a computation is put together: a sequence, a pass over a list. A relation that
  never holds says that both throw.
-/

import Mathlib

namespace DataNexus.Lib

variable {ε α β γ δ ι : Type}

inductive SideBySide (R : α → β → Prop) : Except ε α → Except ε β → Prop where
  | ok {a : α} {b : β} (h : R a b) : SideBySide R (.ok a) (.ok b)
  | error (e : ε) : SideBySide R (.error e) (.error e)

namespace SideBySide

variable {R : α → β → Prop} {S : γ → δ → Prop}

theorem of_self {R : α → α → Prop} (hrefl : ∀ a, R a a) (x : Except ε α) : SideBySide R x x := by
  cases x with
  | ok a => exact .ok (hrefl a)
  | error e => exact .error e

theorem mono {R' : α → β → Prop} {x : Except ε α} {y : Except ε β} (h : SideBySide R x y) (hR : ∀ a b, R a b → R' a b) :
    SideBySide R' x y := by
  cases h with
  | ok hab => exact .ok (hR _ _ hab)
  | error e => exact .error e

theorem bind {x : Except ε α} {y : Except ε β} {f : α → Except ε γ} {g : β → Except ε δ} (h : SideBySide R x y)
    (hrest : ∀ a b, R a b → SideBySide S (f a) (g b)) : SideBySide S (x >>= f) (y >>= g) := by
  cases h with
  | ok hab => exact hrest _ _ hab
  | error e => exact .error e

/-- A sequence that begins with one computation. -/
theorem bind_self {x : Except ε α} {f : α → Except ε γ} {g : α → Except ε δ}
    (hrest : ∀ a, SideBySide S (f a) (g a)) : SideBySide S (x >>= f) (x >>= g) :=
  (of_self (fun (a : α) => Eq.refl a) x).bind fun a _ hab => hab ▸ hrest a

theorem mapM {f : ι → Except ε α} {g : ι → Except ε β} {l : List ι} (h : ∀ i ∈ l, SideBySide R (f i) (g i)) :
    SideBySide (List.Forall₂ R) (l.mapM f) (l.mapM g) := by
  induction l with
  | nil => exact .ok .nil
  | cons i l ih =>
    rw [List.mapM_cons, List.mapM_cons]
    refine (h i List.mem_cons_self).bind fun a b hab => ?_
    refine (ih fun j hj => h j (List.mem_cons_of_mem _ hj)).bind fun as bs habs => ?_
    exact .ok (.cons hab habs)

/-- A pass that throws at one element on both sides, if not before. -/
theorem mapM_throws {T : List α → List β → Prop} {f : ι → Except ε α} {g : ι → Except ε β} {before after : List ι} {i : ι}
    (hbefore : ∀ j ∈ before, SideBySide (fun _ _ => True) (f j) (g j)) (hi : SideBySide (fun _ _ => False) (f i) (g i)) :
    SideBySide T ((before ++ i :: after).mapM f) ((before ++ i :: after).mapM g) := by
  have hthrows : SideBySide (fun _ _ => False) ((before ++ i :: after).mapM f) ((before ++ i :: after).mapM g) := by
    induction before with
    | nil =>
      rw [List.nil_append, List.mapM_cons, List.mapM_cons]
      exact hi.bind fun _ _ hfalse => hfalse.elim
    | cons j before ih =>
      rw [List.cons_append, List.mapM_cons, List.mapM_cons]
      refine (hbefore j List.mem_cons_self).bind fun _ _ _ => ?_
      exact (ih fun k hk => hbefore k (List.mem_cons_of_mem _ hk)).bind fun _ _ hfalse => hfalse.elim
  exact hthrows.mono fun _ _ hfalse => hfalse.elim

/-- What both say is one. -/
theorem map_eq {f : α → γ} {g : β → γ} {x : Except ε α} {y : Except ε β} (h : SideBySide (fun a b => f a = g b) x y) :
    x.map f = y.map g := by
  cases h with
  | ok hab => exact congrArg Except.ok hab
  | error e => rfl

end SideBySide

end DataNexus.Lib
