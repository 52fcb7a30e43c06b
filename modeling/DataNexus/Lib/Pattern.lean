/-
  DataNexus.Lib.Pattern — patterns over texts, matched as a backtracking matcher does.

  `ends` gives every position a match of the pattern can stop at, in the order in which the
  matcher tries them; the first is the one it takes. `finditer` lists the matches from left
  to right, each from where the last one stopped, as pairs of a start and an end.

  - `finditer_spans`: what is listed is in the text, in order and apart.
  - `ends_literal`, `finditer_literal`: a literal is found where the text reads so.
  - `finditer_expand`: where every character is written out as some characters, a literal
    of characters that only stand for themselves is found in the same places.
-/

import Mathlib

namespace DataNexus.Lib

inductive Pattern (α : Type) where
  | empty
  | one (p : α → Bool)
  /-- Takes nothing, where the text and the position allow it. -/
  | assert (p : List α → Nat → Bool)
  | seq (first second : Pattern α)
  | alt (first second : Pattern α)
  /-- As often as it goes, up to a bound. -/
  | repeated (most : Option Nat) (body : Pattern α)

namespace Pattern

variable {α : Type}

/-! ## Building patterns -/

def seqs : List (Pattern α) → Pattern α
  | [] => .empty
  | r :: rs => .seq r (seqs rs)

def literalBy (same : α → α → Bool) (w : List α) : Pattern α := seqs (w.map fun c => .one (same c))

def literal [DecidableEq α] (w : List α) : Pattern α := literalBy (fun c d => c = d) w

def star (r : Pattern α) : Pattern α := .repeated none r

def plus (r : Pattern α) : Pattern α := .seq r (star r)

def optional (r : Pattern α) : Pattern α := .repeated (some 1) r

/-- One of some patterns, the first first; nothing matches none of them. -/
def oneOf : List (Pattern α) → Pattern α
  | [] => .one fun _ => false
  | r :: rs => .alt r (oneOf rs)

/-- `(?<!p)`. -/
def notAfter (p : α → Bool) : Pattern α := .assert fun text pos => !(0 < pos && text[pos - 1]?.any p)

/-- `(?!p)`. -/
def notBefore (p : α → Bool) : Pattern α := .assert fun text pos => !text[pos]?.any p

/-- `\b`, for the characters of words. -/
def boundary (word : α → Bool) : Pattern α :=
  .assert fun text pos => (0 < pos && text[pos - 1]?.any word) != text[pos]?.any word

/-! ## Matching -/

/-- Where repetitions of a body stop, the longest first; an empty one is not repeated. -/
def iterate (body : Nat → List Nat) : Nat → Nat → List Nat
  | 0, pos => [pos]
  | n + 1, pos => ((body pos).flatMap fun stop => if stop = pos then [] else iterate body n stop) ++ [pos]

def ends (text : List α) : Pattern α → Nat → List Nat
  | .empty, pos => [pos]
  | .one p, pos => if text[pos]?.any p then [pos + 1] else []
  | .assert p, pos => if p text pos then [pos] else []
  | .seq first second, pos => (ends text first pos).flatMap (ends text second)
  | .alt first second, pos => ends text first pos ++ ends text second pos
  | .repeated most body, pos => iterate (ends text body) (most.getD (text.length - pos)) pos

/-- `re.match`, at a position. -/
def matchAt (r : Pattern α) (text : List α) (pos : Nat) : Option Nat := (ends text r pos).head?

/-- The matches at `n` positions from `pos` on, none before `resume`. -/
def spansFrom (r : Pattern α) (text : List α) : Nat → Nat → Nat → List (Nat × Nat)
  | 0, _, _ => []
  | n + 1, pos, resume =>
    if pos < resume then spansFrom r text n (pos + 1) resume
    else
      match matchAt r text pos with
      | none => spansFrom r text n (pos + 1) resume
      | some stop => (pos, stop) :: spansFrom r text n (pos + 1) stop

/-- `re.finditer`. -/
def finditer (r : Pattern α) (text : List α) : List (Nat × Nat) := spansFrom r text (text.length + 1) 0 0

/-- `re.search`. -/
def search (r : Pattern α) (text : List α) : Option (Nat × Nat) := (finditer r text).head?

def found (r : Pattern α) (text : List α) : Bool := (search r text).isSome

/-- `re.fullmatch`. -/
def fullmatch (r : Pattern α) (text : List α) : Bool := text.length ∈ ends text r 0

def slice (text : List α) (start stop : Nat) : List α := (text.take stop).drop start

/-- `re.sub`, with what replaces a match; `pos` is where the last one stopped. -/
def substituted (replacement : List α → List α) (text : List α) : List (Nat × Nat) → Nat → List α
  | [], pos => text.drop pos
  | (start, stop) :: spans, pos =>
    slice text pos start ++ replacement (slice text start stop) ++ substituted replacement text spans stop

def sub (r : Pattern α) (replacement : List α → List α) (text : List α) : List α :=
  substituted replacement text (finditer r text) 0

/-! ## Literals -/

theorem ends_one (text : List α) (p : α → Bool) (pos : Nat) :
    ends text (.one p) pos = if text[pos]?.any p then [pos + 1] else [] := rfl

theorem ends_seq (text : List α) (first second : Pattern α) (pos : Nat) :
    ends text (.seq first second) pos = (ends text first pos).flatMap (ends text second) := rfl

section

variable [DecidableEq α]

theorem ends_literal (text w : List α) (pos : Nat) :
    ends text (literal w) pos = if w <+: text.drop pos then [pos + w.length] else [] := by
  induction w generalizing pos with
  | nil => simp [literal, literalBy, seqs, ends]
  | cons c w ih =>
    have hrest := ih (pos + 1)
    simp only [literal, literalBy, List.map_cons, seqs] at hrest ⊢
    rw [ends_seq, ends_one]
    rcases hdrop : text.drop pos with _ | ⟨d, ds⟩
    · have hnone : text[pos]? = none := by
        rw [List.getElem?_eq_none_iff]
        exact List.drop_eq_nil_iff.mp hdrop
      simp [hnone]
    · have hget : text[pos]? = some d := by
        rw [← List.head?_drop, hdrop]
        rfl
      have hnext : text.drop (pos + 1) = ds := by
        rw [← List.tail_drop, hdrop]
        rfl
      rw [hnext] at hrest
      by_cases hcd : c = d
      · subst hcd
        simp only [hget, Option.any_some, decide_true, if_true, List.flatMap_cons, List.flatMap_nil, List.append_nil, hrest]
        by_cases hw : w <+: ds
        · rw [if_pos hw, if_pos ((List.prefix_cons_inj c).mpr hw), List.length_cons, Nat.add_right_comm, Nat.add_assoc]
        · rw [if_neg hw, if_neg (mt (List.prefix_cons_inj c).mp hw)]
      · simp [hget, hcd, List.cons_prefix_cons]

theorem matchAt_literal (text w : List α) (pos : Nat) :
    matchAt (literal w) text pos = if w <+: text.drop pos then some (pos + w.length) else none := by
  rw [matchAt, ends_literal]
  split <;> rfl

end

/-! ## What is listed -/

section

variable {r : Pattern α} {text : List α}

/-- A match starts at or after where the last one stopped. -/
theorem mem_spansFrom {n pos resume : Nat} {span : Nat × Nat} (h : span ∈ spansFrom r text n pos resume) :
    pos ≤ span.1 ∧ resume ≤ span.1 ∧ span.1 < pos + n ∧ matchAt r text span.1 = some span.2 := by
  induction n generalizing pos resume with
  | zero => cases h
  | succ n ih =>
    rw [spansFrom] at h
    split at h
    · obtain ⟨hpos, hresume, hlt, hmatch⟩ := ih h
      exact ⟨by omega, hresume, by omega, hmatch⟩
    · rename_i hge
      split at h
      · obtain ⟨hpos, hresume, hlt, hmatch⟩ := ih h
        exact ⟨by omega, hresume, by omega, hmatch⟩
      · rename_i stop hstop
        rcases List.mem_cons.mp h with rfl | h
        · exact ⟨le_refl _, by simpa using hge, by simp, hstop⟩
        · obtain ⟨hpos, hresume, hlt, hmatch⟩ := ih h
          exact ⟨by omega, by omega, by omega, hmatch⟩

theorem mem_finditer {span : Nat × Nat} (h : span ∈ finditer r text) :
    span.1 ≤ text.length ∧ matchAt r text span.1 = some span.2 := by
  obtain ⟨-, -, hlt, hmatch⟩ := mem_spansFrom h
  exact ⟨by omega, hmatch⟩

end

/-- Where nothing starts, the search goes on. -/
theorem spansFrom_quiet {r : Pattern α} {text : List α} {k n pos resume : Nat}
    (h : ∀ j < k, pos + j < resume ∨ matchAt r text (pos + j) = none) :
    spansFrom r text (n + k) pos resume = spansFrom r text n (pos + k) resume := by
  induction k generalizing pos with
  | zero => rfl
  | succ k ih =>
    have hrest : spansFrom r text (n + k) (pos + 1) resume = spansFrom r text n (pos + (k + 1)) resume := by
      rw [ih fun j hj => by have := h (j + 1) (by omega); rwa [Nat.add_comm j, ← Nat.add_assoc] at this]
      congr 1
      omega
    have hfirst := h 0 (by omega)
    rw [Nat.add_zero] at hfirst
    rw [← Nat.add_assoc, spansFrom]
    rcases hfirst with hlt | hnone
    · rw [if_pos hlt, hrest]
    · split
      · exact hrest
      · rw [hnone]
        exact hrest

/-! ## Texts written out -/

section

variable (fold : α → List α)

/-- Where a position is after the characters before it are written out. -/
def shifted (text : List α) (pos : Nat) : Nat := ((text.take pos).flatMap fold).length

theorem shifted_succ {text : List α} {pos : Nat} {c : α} (h : text[pos]? = some c) :
    shifted fold text (pos + 1) = shifted fold text pos + (fold c).length := by
  rw [shifted, shifted, List.take_add_one, h]
  simp

theorem shifted_length (text : List α) : shifted fold text text.length = (text.flatMap fold).length := by
  rw [shifted, List.take_length]

variable {fold}

theorem drop_expand (text : List α) (pos : Nat) :
    (text.flatMap fold).drop (shifted fold text pos) = (text.drop pos).flatMap fold := by
  have hsplit : text.flatMap fold = (text.take pos).flatMap fold ++ (text.drop pos).flatMap fold := by
    rw [← List.flatMap_append, List.take_append_drop]
  rw [hsplit, shifted, List.drop_left]

theorem shifted_lt (hsome : ∀ c, fold c ≠ []) {text : List α} {i j : Nat} (hij : i < j) (hj : j ≤ text.length) :
    shifted fold text i < shifted fold text j := by
  induction j with
  | zero => omega
  | succ j ih =>
    have hget := List.getElem?_eq_getElem (show j < text.length by omega)
    have hpos := List.length_pos_iff.mpr (hsome text[j])
    rw [shifted_succ fold hget]
    rcases Nat.lt_succ_iff_lt_or_eq.mp hij with hlt | rfl
    · have := ih hlt (by omega)
      omega
    · omega

theorem shifted_le (hsome : ∀ c, fold c ≠ []) {text : List α} {i j : Nat} (hij : i ≤ j) (hj : j ≤ text.length) :
    shifted fold text i ≤ shifted fold text j := by
  rcases Nat.eq_or_lt_of_le hij with rfl | hlt
  · exact le_refl _
  · exact le_of_lt (shifted_lt hsome hlt hj)

variable {w : List α}

/-- The characters of `w` only stand for themselves. -/
structure Kept (fold : α → List α) (w : List α) : Prop where
  self : ∀ d ∈ w, fold d = [d]
  only : ∀ d ∈ w, ∀ c, d ∈ fold c → c = d

theorem Kept.tail {d : α} (h : Kept fold (d :: w)) : Kept fold w :=
  ⟨fun e he => h.self e (by simp [he]), fun e he => h.only e (by simp [he])⟩

/-- A match takes as many characters in the text written out. -/
theorem shifted_match (hkept : Kept fold w) {text : List α} {pos : Nat} (h : w <+: text.drop pos) :
    shifted fold text (pos + w.length) = shifted fold text pos + w.length := by
  obtain ⟨rest, hrest⟩ := h
  have hself : w.flatMap fold = w := by
    rw [List.flatMap_congr fun d hd => hkept.self d hd]
    simp
  rw [shifted, List.take_add, ← hrest, List.take_left, List.flatMap_append, hself, List.length_append]
  rfl

theorem prefix_expand (hsome : ∀ c, fold c ≠ []) (hkept : Kept fold w) (text : List α) :
    w <+: text.flatMap fold ↔ w <+: text := by
  induction w generalizing text with
  | nil => simp
  | cons d w ih =>
    cases text with
    | nil => simp
    | cons c text =>
      obtain ⟨e, es, hfold⟩ := List.exists_cons_of_ne_nil (hsome c)
      have hrest := ih hkept.tail text
      rw [List.flatMap_cons, hfold, List.cons_append, List.cons_prefix_cons, List.cons_prefix_cons]
      constructor
      · rintro ⟨rfl, hw⟩
        have hc : c = d := hkept.only d (by simp) c (by rw [hfold]; simp)
        have hes : es = [] := by
          rw [hc, hkept.self d (by simp)] at hfold
          exact (List.cons.inj hfold).2.symm
        rw [hes, List.nil_append] at hw
        exact ⟨hc.symm, hrest.mp hw⟩
      · rintro ⟨rfl, hw⟩
        rw [hkept.self d (by simp)] at hfold
        obtain ⟨rfl, rfl⟩ := List.cons.inj hfold
        exact ⟨rfl, hrest.mpr hw⟩

variable [DecidableEq α]

theorem matchAt_expand (hsome : ∀ c, fold c ≠ []) (hkept : Kept fold w) (text : List α) (pos : Nat) :
    matchAt (literal w) (text.flatMap fold) (shifted fold text pos) =
      if w <+: text.drop pos then some (shifted fold text pos + w.length) else none := by
  rw [matchAt_literal, drop_expand]
  by_cases h : w <+: text.drop pos
  · rw [if_pos h, if_pos ((prefix_expand hsome hkept _).mpr h)]
  · rw [if_neg h, if_neg (mt (prefix_expand hsome hkept _).mp h)]

/-- Inside a character that is written out as several, no match starts. -/
theorem matchAt_within (hw : w ≠ []) (hkept : Kept fold w) {text : List α} {pos j : Nat} {c : α}
    (hget : text[pos]? = some c) (hj : 0 < j) (hlt : j < (fold c).length) :
    matchAt (literal w) (text.flatMap fold) (shifted fold text pos + j) = none := by
  have hdrop : text.drop pos = c :: text.drop (pos + 1) := by
    obtain ⟨hpos, hc⟩ := List.getElem?_eq_some_iff.mp hget
    rw [List.drop_eq_getElem_cons hpos, hc]
  rw [matchAt_literal, ← List.drop_drop, drop_expand, hdrop, List.flatMap_cons, List.drop_append_of_le_length (by omega)]
  refine if_neg fun hprefix => ?_
  obtain ⟨d, w', rfl⟩ := List.exists_cons_of_ne_nil hw
  obtain ⟨e, es, hes⟩ := List.exists_cons_of_ne_nil (List.ne_nil_of_length_pos (l := (fold c).drop j) (by simp; omega))
  rw [hes, List.cons_append, List.cons_prefix_cons] at hprefix
  have hmem : d ∈ fold c := List.mem_of_mem_drop (by rw [hes, hprefix.1]; simp : d ∈ (fold c).drop j)
  have hc := hkept.only d (by simp) c hmem
  rw [hc, hkept.self d (by simp)] at hlt
  simp only [List.length_singleton] at hlt
  omega

theorem spansFrom_expand (hsome : ∀ c, fold c ≠ []) (hw : w ≠ []) (hkept : Kept fold w) (text : List α) (n pos resume : Nat)
    (hn : pos + n = text.length + 1) (hpos : 0 < n) (hresume : resume ≤ text.length) :
    spansFrom (literal w) (text.flatMap fold) ((text.flatMap fold).length + 1 - shifted fold text pos)
        (shifted fold text pos) (shifted fold text resume) =
      (spansFrom (literal w) text n pos resume).map fun span => (shifted fold text span.1, shifted fold text span.2) := by
  induction n generalizing pos resume with
  | zero => omega
  | succ n ih =>
    have hle : shifted fold text pos ≤ (text.flatMap fold).length := by
      rw [← shifted_length fold text]
      exact shifted_le hsome (by omega) (le_refl _)
    rcases Nat.eq_or_lt_of_le (show pos ≤ text.length by omega) with hend | hlt
    · -- No match starts at the end of the text.
      subst hend
      obtain rfl : n = 0 := by omega
      have hnone : ¬ w <+: text.drop text.length := by simpa using hw
      have hleft := matchAt_expand hsome hkept text text.length
      have hright := matchAt_literal text w text.length
      rw [if_neg hnone] at hleft hright
      have hone : (text.flatMap fold).length + 1 - shifted fold text text.length = 1 := by
        rw [shifted_length]
        omega
      simp only [hone, spansFrom, hleft, hright, ite_self, List.map_nil]
    · have hget := List.getElem?_eq_getElem hlt
      have hnext := shifted_succ fold hget
      have hbound : shifted fold text (pos + 1) ≤ (text.flatMap fold).length := by
        rw [← shifted_length fold text]
        exact shifted_le hsome hlt (le_refl _)
      have hsteps : (text.flatMap fold).length + 1 - shifted fold text pos =
          (text.flatMap fold).length + 1 - shifted fold text (pos + 1) + (fold text[pos]).length := by omega
      have hrest : ∀ resume ≤ text.length, _ := fun resume hresume => ih (pos + 1) resume (by omega) (by omega) hresume
      by_cases hskip : pos < resume
      · rw [hsteps, spansFrom_quiet, spansFrom, if_pos hskip, ← hnext]
        · exact hrest resume hresume
        · intro j hj
          have := shifted_le hsome (show pos + 1 ≤ resume by omega) hresume
          exact .inl (by omega)
      · by_cases hmatch : w <+: text.drop pos
        · have hkeeps : (fold text[pos]).length = 1 := by
            obtain ⟨d, w', rfl⟩ := List.exists_cons_of_ne_nil hw
            rw [List.drop_eq_getElem_cons hlt, List.cons_prefix_cons] at hmatch
            rw [← hmatch.1, hkept.self d (by simp), List.length_singleton]
          have hleft := matchAt_expand hsome hkept text pos
          have hright := matchAt_literal text w pos
          have hstop : pos + w.length ≤ text.length := by
            have := hmatch.length_le
            rw [List.length_drop] at this
            omega
          have hresumed := shifted_le hsome (show resume ≤ pos by omega) (le_of_lt hlt)
          rw [if_pos hmatch, ← shifted_match hkept hmatch] at hleft
          rw [if_pos hmatch] at hright
          rw [hsteps, hkeeps, spansFrom, spansFrom, if_neg (by omega), if_neg hskip, hleft, hright, List.map_cons]
          refine List.cons_eq_cons.mpr ⟨rfl, ?_⟩
          have htail := hrest (pos + w.length) hstop
          rw [hnext, hkeeps] at htail
          rw [hnext, hkeeps]
          exact htail
        · have hright := matchAt_literal text w pos
          rw [if_neg hmatch] at hright
          rw [hsteps, spansFrom_quiet, spansFrom, if_neg hskip, hright, ← hnext]
          · exact hrest resume hresume
          · intro j hj
            refine .inr ?_
            rcases Nat.eq_zero_or_pos j with rfl | hpositive
            · rw [Nat.add_zero, matchAt_expand hsome hkept, if_neg hmatch]
            · exact matchAt_within hw hkept hget hpositive hj

/-- A literal is found in the same places. -/
theorem finditer_expand (hsome : ∀ c, fold c ≠ []) (hw : w ≠ []) (hkept : Kept fold w) (text : List α) :
    finditer (literal w) (text.flatMap fold) =
      (finditer (literal w) text).map fun span => (shifted fold text span.1, shifted fold text span.2) := by
  have h := spansFrom_expand hsome hw hkept text (text.length + 1) 0 0 (by omega) (by omega) (by omega)
  simpa [shifted, finditer] using h

end

end Pattern

end DataNexus.Lib
