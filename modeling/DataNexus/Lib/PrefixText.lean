/-
  DataNexus.Lib.PrefixText — texts that can be told apart although others are written after them.

  - `append_class`: a word ends where the signs that it is made of end.
  - `PrefixFree.sequence`: codes one after another, up to a sign that no code starts with.
  - `lt_of_split`: the order of two texts is decided where they first differ.
-/

import Mathlib

namespace DataNexus.Lib

variable {α β : Type}

/-- A value and what is written after it are recovered from the text. -/
def PrefixFree (code : α → List β) : Prop := ∀ x y f g, code x ++ f = code y ++ g → x = y ∧ f = g

/-- The text does not start with a sign of this kind. -/
def NotBefore (P : β → Prop) (text : List β) : Prop := ∀ b ∈ text.head?, ¬ P b

theorem notBefore_nil (P : β → Prop) : NotBefore P [] := by simp [NotBefore]

theorem notBefore_cons {P : β → Prop} {b : β} (h : ¬ P b) (text : List β) : NotBefore P (b :: text) := by
  simpa [NotBefore] using h

theorem NotBefore.head {P : β → Prop} {b : β} {text : List β} (h : NotBefore P (b :: text)) : ¬ P b :=
  h b rfl

/-- A word ends where its signs end. -/
theorem append_class {P : β → Prop} {us vs f g : List β} (hu : ∀ b ∈ us, P b) (hv : ∀ b ∈ vs, P b)
    (hf : NotBefore P f) (hg : NotBefore P g) (h : us ++ f = vs ++ g) : us = vs ∧ f = g := by
  induction us generalizing vs with
  | nil =>
    cases vs with
    | nil => exact ⟨rfl, h⟩
    | cons v vs =>
      rw [List.nil_append, List.cons_append] at h
      subst h
      exact absurd (hv v List.mem_cons_self) hf.head
  | cons u us ih =>
    cases vs with
    | nil =>
      rw [List.nil_append, List.cons_append] at h
      subst h
      exact absurd (hu u List.mem_cons_self) hg.head
    | cons v vs =>
      rw [List.cons_append, List.cons_append, List.cons.injEq] at h
      obtain ⟨rfl, h⟩ := h
      obtain ⟨rfl, rfl⟩ := ih (fun b hb => hu b (List.mem_cons_of_mem _ hb))
        (fun b hb => hv b (List.mem_cons_of_mem _ hb)) h
      exact ⟨rfl, rfl⟩

theorem PrefixFree.sequence {code : α → List β} (hcode : PrefixFree code) {close : β}
    (hstart : ∀ x, (code x).head? ≠ some close ∧ code x ≠ []) {xs ys : List α} {f g : List β}
    (h : xs.flatMap code ++ close :: f = ys.flatMap code ++ close :: g) : xs = ys ∧ f = g := by
  have hopen : ∀ x r s, code x ++ r ≠ close :: s := by
    intro x r s heq
    obtain ⟨hhead, hne⟩ := hstart x
    obtain ⟨b, rest, hx⟩ := List.exists_cons_of_ne_nil hne
    rw [hx, List.cons_append, List.cons.injEq] at heq
    rw [hx, List.head?_cons, heq.1] at hhead
    exact hhead rfl
  induction xs generalizing ys with
  | nil =>
    cases ys with
    | nil => exact ⟨rfl, (List.cons.inj h).2⟩
    | cons y ys =>
      rw [List.flatMap_cons, List.append_assoc] at h
      exact absurd h.symm (hopen y _ _)
  | cons x xs ih =>
    cases ys with
    | nil =>
      rw [List.flatMap_cons, List.append_assoc] at h
      exact absurd h (hopen x _ _)
    | cons y ys =>
      rw [List.flatMap_cons, List.flatMap_cons, List.append_assoc, List.append_assoc] at h
      obtain ⟨rfl, hrest⟩ := hcode x y _ _ h
      obtain ⟨rfl, rfl⟩ := ih hrest
      exact ⟨rfl, rfl⟩

/-- The order of two texts is decided by the signs where they first differ. -/
theorem lt_of_split {before after after' : List Char} {c d : Char} (h : c < d) :
    String.ofList (before ++ c :: after) < String.ofList (before ++ d :: after') := by
  rw [String.lt_iff_toList_lt, String.toList_ofList, String.toList_ofList]
  induction before with
  | nil => exact List.Lex.rel h
  | cons b before ih => exact List.Lex.cons ih

end DataNexus.Lib
