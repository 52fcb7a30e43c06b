/-
  DataNexus.Lib.Chronicle — what a growing log says about its own past.

  A log only grows at its end. A law relates an entry to the entries before it; a log is
  `Lawful` if every entry obeys the law. Appending an entry that obeys it keeps the log
  lawful (`lawful_append`), and an occurrence in a grown log is an old one or the new one
  (`split_append`).
-/

import Mathlib

namespace DataNexus.Lib.Chronicle

variable {α : Type} {law : List α → α → Prop} {log : List α} {e : α}

def Lawful (law : List α → α → Prop) (log : List α) : Prop := ∀ pre e post, log = pre ++ e :: post → law pre e

theorem lawful_nil : Lawful law [] := by
  intro pre e post h
  simp at h

theorem split_append {x : α} {pre post : List α} (h : log ++ [e] = pre ++ x :: post) :
    (post = [] ∧ x = e ∧ pre = log) ∨ ∃ post', post = post' ++ [e] ∧ log = pre ++ x :: post' := by
  rcases List.eq_nil_or_concat post with rfl | ⟨post', y, rfl⟩
  · obtain ⟨rfl, hx⟩ := List.append_inj' h rfl
    exact .inl ⟨rfl, (List.singleton_inj.mp hx).symm, rfl⟩
  · rw [List.concat_eq_append, ← List.cons_append, ← List.append_assoc] at h
    obtain ⟨rfl, hy⟩ := List.append_inj' h rfl
    obtain rfl := List.singleton_inj.mp hy
    exact .inr ⟨post', List.concat_eq_append, rfl⟩

theorem lawful_append (h : Lawful law log) (he : law log e) : Lawful law (log ++ [e]) := by
  intro pre x post hsplit
  rcases split_append hsplit with ⟨-, rfl, rfl⟩ | ⟨post', -, hlog⟩
  · exact he
  · exact h pre x post' hlog

end DataNexus.Lib.Chronicle
