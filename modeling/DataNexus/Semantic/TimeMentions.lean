/-
  DataNexus.Semantic.TimeMentions — where the negation of a time phrase is looked for.

  `_normalize_time` finds a phrase in the question and asks about its span in the
  casefolded question. A character in front of the phrase that is folded to several moves
  the phrase there, but not the span: the text around the span (`around`), which is all that
  `_is_negated` looks at (`isNegated_congr`), is not the text around the phrase.

  - `resolveTerms_casefold`: terms are looked up in the casefolded question only.
  - `timeMentions_casefold`: in the casefolded question a phrase is mentioned as often, at
    the shifted spans.
  - `negation_at_mention`: what `_is_negated` is handed is what is around the phrases, and the
    casefolded question resolves to the same, just where no such character stands in front
    of one.
-/

import DataNexus.Semantic.Initializer

namespace DataNexus.Semantic

open Lib Lib.Pattern

section

variable (tables : CharTables)

/-! ## Folding -/

theorem casefold_idempotent (text : Text) : casefold tables (casefold tables text) = casefold tables text := by
  have hself : ∀ d ∈ casefold tables text, tables.fold d = [d] := by
    intro d hd
    obtain ⟨c, -, hc⟩ := List.mem_flatMap.mp hd
    exact tables.idempotent c d hc
  rw [casefold, List.flatMap_congr hself]
  simp

/-- Ideographs are only written by themselves. -/
theorem kept_of_ideographs {w : Text} (h : ∀ d ∈ w, ideograph d = true) : Kept tables.fold w where
  self d hd := tables.idempotent d d ((tables.caseless d d (h d hd)).mpr rfl)
  only d hd c hc := (tables.caseless c d (h d hd)).mp hc

theorem recognizer_ideographs {recognizer : String × (LocalClock → Period)} (h : recognizer ∈ recognizers) :
    recognizer.1.toList ≠ [] ∧ ∀ d ∈ recognizer.1.toList, ideograph d = true := by
  have hall : recognizers.all (fun r => !r.1.toList.isEmpty && r.1.toList.all ideograph) = true := by decide +kernel
  have hone := List.all_eq_true.mp hall recognizer h
  simpa using hone

/-- A position of the question, in the casefolded one. -/
def folded (question : Text) (pos : Nat) : Nat := shifted tables.fold question pos

theorem timeMentions_casefold {recognizer : String × (LocalClock → Period)} (h : recognizer ∈ recognizers) (question : Text) :
    timeMentions (casefold tables question) recognizer.1 =
      (timeMentions question recognizer.1).map fun span => (folded tables question span.1, folded tables question span.2) := by
  obtain ⟨hsome, hideographs⟩ := recognizer_ideographs h
  exact finditer_expand tables.folds hsome (kept_of_ideographs tables hideographs) question

/-! ## The casefolded question -/

theorem resolveTerms_casefold (vocabulary : Vocabulary) (question : Text) (mode : MemberResolutionMode) :
    resolveTerms tables vocabulary (casefold tables question) mode = resolveTerms tables vocabulary question mode := by
  rw [resolveTerms, resolveTerms, resolution, resolution, casefold_idempotent]

/-! ## The text around a phrase -/

/-- The characters within 80 of a span on either side, with their places in the text. -/
def around (text : Text) (span : Nat × Nat) : List (Char × Nat) × List (Char × Nat) :=
  (slice text.zipIdx (span.1 - 80) span.1, slice text.zipIdx span.2 (span.2 + 80))

theorem map_fst_slice (text : Text) (start stop : Nat) :
    (slice text.zipIdx start stop).map Prod.fst = slice text start stop := by
  simp [slice, List.map_drop, List.map_take]

/-- `_is_negated` looks at nothing but the characters around the span. -/
theorem isNegated_congr {text other : Text} {span span' : Nat × Nat} (h : around text span = around other span') :
    isNegated tables text span.1 span.2 = isNegated tables other span'.1 span'.2 := by
  have hbefore : slice text (span.1 - 80) span.1 = slice other (span'.1 - 80) span'.1 := by
    rw [← map_fst_slice, ← map_fst_slice]
    exact congrArg (fun pair => pair.1.map Prod.fst) h
  have hafter : slice text span.2 (span.2 + 80) = slice other span'.2 (span'.2 + 80) := by
    rw [← map_fst_slice, ← map_fst_slice]
    exact congrArg (fun pair => pair.2.map Prod.fst) h
  simp only [isNegated, boundedNegationContext, hbefore, hafter]

theorem mem_slice_zipIdx {text : Text} {start stop i : Nat} {c : Char} :
    (c, i) ∈ slice text.zipIdx start stop ↔ start ≤ i ∧ i < stop ∧ text[i]? = some c := by
  rw [List.mem_iff_getElem?]
  simp only [slice, List.getElem?_drop, List.getElem?_take, List.getElem?_zipIdx]
  constructor
  · rintro ⟨n, hn⟩
    split at hn
    · rename_i hlt
      obtain ⟨d, hd, heq⟩ := Option.map_eq_some_iff.mp hn
      obtain ⟨rfl, rfl⟩ := Prod.mk.inj heq
      rw [Nat.zero_add]
      exact ⟨by omega, hlt, hd⟩
    · cases hn
  · rintro ⟨hstart, hstop, hc⟩
    refine ⟨i - start, ?_⟩
    rw [Nat.add_sub_cancel' hstart, if_pos hstop, hc]
    simp

/-- The characters around a span say where it starts. -/
theorem start_of_around {text : Text} (span span' : Nat × Nat) (h : around text span = around text span')
    (hspan : span.1 ≤ text.length) (hspan' : span'.1 ≤ text.length) : span.1 = span'.1 := by
  have hslices : slice text.zipIdx (span.1 - 80) span.1 = slice text.zipIdx (span'.1 - 80) span'.1 := congrArg Prod.fst h
  -- The last character in front of the later span would have to be in front of the earlier.
  have hle : ∀ a b, slice text.zipIdx (a - 80) a = slice text.zipIdx (b - 80) b → b ≤ text.length → b ≤ a := by
    intro a b hab hb
    by_contra hlt
    have hb' : b - 1 < text.length := by omega
    have hlast : (text[b - 1], b - 1) ∈ slice text.zipIdx (b - 80) b :=
      mem_slice_zipIdx.mpr ⟨by omega, by omega, List.getElem?_eq_getElem _⟩
    rw [← hab, mem_slice_zipIdx] at hlast
    omega
  exact Nat.le_antisymm (hle _ _ hslices.symm hspan) (hle _ _ hslices hspan')

/-- Lists that are the same through two maps, of which two tests are functions. -/
theorem any_of_map_eq {α β γ : Type} {f : α → γ} {g : β → γ} {p : α → Bool} {q : β → Bool}
    (htests : ∀ a b, f a = g b → p a = q b) {as : List α} {bs : List β} (h : as.map f = bs.map g) : as.any p = bs.any q := by
  induction as generalizing bs with
  | nil =>
    cases bs with
    | nil => rfl
    | cons b bs => cases h
  | cons a as ih =>
    cases bs with
    | nil => cases h
    | cons b bs =>
      obtain ⟨hhead, htail⟩ := List.cons.inj h
      rw [List.any_cons, List.any_cons, htests a b hhead, ih htail]

variable {tables}

/-- For every mention of a recognised phrase `_is_negated` is handed a text and a span whose
    surroundings are those of an occurrence of the phrase in the casefolded question. -/
def AskedAtMention (tables : CharTables) (question : Text) : Prop :=
  ∀ recognizer ∈ recognizers,
    (negationQueries tables question recognizer.1).map (fun query => around query.1 query.2) =
      (timeMentions (casefold tables question) recognizer.1).map (around (casefold tables question))

theorem normalizeTime_casefold {question : Text} (h : AskedAtMention tables question) (time : TimeLibrary) (clock : DateTime)
    (timezone : String) :
    normalizeTime tables time (casefold tables question) clock timezone =
      normalizeTime tables time question clock timezone := by
  have hrecognize : ∀ zone local', recognizers.map (recognize tables time (casefold tables question) zone local') =
      recognizers.map (recognize tables time question zone local') := by
    intro zone local'
    refine List.map_congr_left fun recognizer hmem => ?_
    have hqueries := h recognizer hmem
    have hnone : timeMentions (casefold tables question) recognizer.1 = [] ↔ timeMentions question recognizer.1 = [] := by
      have hlength := congrArg List.length hqueries
      simp only [negationQueries, List.length_map] at hlength
      rw [← List.length_eq_zero_iff, ← List.length_eq_zero_iff, hlength]
    have hself : negationQueries tables (casefold tables question) recognizer.1 =
        (timeMentions (casefold tables question) recognizer.1).map fun span => (casefold tables question, span) := by
      rw [negationQueries, casefold_idempotent]
    have hnegated : ((negationQueries tables (casefold tables question) recognizer.1).any fun query =>
        isNegated tables query.1 query.2.1 query.2.2) =
          (negationQueries tables question recognizer.1).any fun query => isNegated tables query.1 query.2.1 query.2.2 := by
      refine any_of_map_eq (fun a b => isNegated_congr tables) ?_
      rw [hqueries, hself, List.map_map]
      rfl
    simp only [recognize, hnone, hnegated]
  simp only [normalizeTime, hrecognize]

/-- The question and the casefolded question resolve to the same. -/
def ResolvesAlike (tables : CharTables) (question : Text) : Prop :=
  ∀ (time : TimeLibrary) (vocabulary : Vocabulary) (request : InitializeRequest), request.question = question →
    initializeRequest tables time vocabulary { request with question := casefold tables question } =
      initializeRequest tables time vocabulary request

theorem resolvesAlike {question : Text} (h : AskedAtMention tables question) : ResolvesAlike tables question := by
  rintro time vocabulary request rfl
  simp only [initializeRequest, resolveTerms_casefold, normalizeTime_casefold h]
  rfl

/-! ## What stands in front of a phrase -/

/-- A text does not get shorter. -/
theorem length_le_casefold (text : Text) : text.length ≤ (casefold tables text).length := by
  induction text with
  | nil => simp
  | cons c text ih =>
    have hc := List.length_pos_iff.mpr (tables.folds c)
    rw [casefold, List.flatMap_cons, List.length_append, List.length_cons]
    rw [casefold] at ih
    omega

/-- A text is as long as its casefolded one where every character is folded to one. -/
theorem length_casefold_eq {text : Text} :
    (casefold tables text).length = text.length ↔ ∀ c ∈ text, (tables.fold c).length = 1 := by
  induction text with
  | nil => simp [casefold]
  | cons c text ih =>
    have hpos := List.length_pos_iff.mpr (tables.folds c)
    have hle : text.length ≤ (casefold tables text).length := length_le_casefold text
    rw [List.forall_mem_cons, ← ih, casefold, List.flatMap_cons, List.length_append, List.length_cons, ← casefold]
    constructor
    · intro h
      exact ⟨by omega, by omega⟩
    · rintro ⟨hc, htext⟩
      omega

theorem folded_le (question : Text) (pos : Nat) : folded tables question pos ≤ (casefold tables question).length := by
  rw [folded, shifted, casefold]
  conv => rhs; rw [← List.take_append_drop pos question, List.flatMap_append, List.length_append]
  exact Nat.le_add_right _ _

theorem folded_eq {question : Text} {pos : Nat} (hpos : pos ≤ question.length) :
    folded tables question pos = pos ↔ ∀ c ∈ question.take pos, (tables.fold c).length = 1 := by
  rw [← length_casefold_eq, List.length_take, Nat.min_eq_left hpos]
  rfl

/-- The end of a mention moves with its start. -/
theorem folded_stop {recognizer : String × (LocalClock → Period)} (h : recognizer ∈ recognizers) {question : Text}
    {span : Nat × Nat} (hspan : span ∈ timeMentions question recognizer.1)
    (hstart : folded tables question span.1 = span.1) : folded tables question span.2 = span.2 := by
  obtain ⟨-, hideographs⟩ := recognizer_ideographs h
  obtain ⟨-, hmatch⟩ := mem_finditer hspan
  rw [phrase, matchAt_literal] at hmatch
  split at hmatch
  · rename_i hprefix
    have hstop : span.2 = span.1 + recognizer.1.toList.length := (Option.some.inj hmatch).symm
    rw [folded] at hstart
    rw [hstop, folded, shifted_match (kept_of_ideographs tables hideographs) hprefix, hstart]
  · cases hmatch

variable (tables)

theorem askedAtMention_iff (question : Text) :
    AskedAtMention tables question ↔
      ∀ recognizer ∈ recognizers, ∀ span ∈ timeMentions question recognizer.1,
        ∀ c ∈ question.take span.1, (tables.fold c).length = 1 := by
  refine forall₂_congr fun recognizer h => ?_
  rw [timeMentions_casefold tables h, negationQueries, List.map_map, List.map_map, List.map_inj_left]
  refine forall₂_congr fun span hspan => ?_
  have hstop : span.1 ≤ question.length := (mem_finditer hspan).1
  rw [← folded_eq hstop]
  constructor
  · intro haround
    refine (start_of_around span (folded tables question span.1, folded tables question span.2) haround ?_ ?_).symm
    · exact hstop.trans (length_le_casefold question)
    · exact folded_le question span.1
  · intro hstart
    simp only [Function.comp, hstart, folded_stop h hspan hstart]

/-- What `_is_negated` is handed for a phrase has around it what an occurrence of the phrase
    has, and the casefolded question resolves to the same, just where every character in
    front of a recognised phrase is folded to one. -/
theorem negation_at_mention (question : Text) :
    (AskedAtMention tables question ∧ ResolvesAlike tables question) ↔
      ∀ recognizer ∈ recognizers, ∀ span ∈ timeMentions question recognizer.1,
        ∀ c ∈ question.take span.1, (tables.fold c).length = 1 := by
  rw [← askedAtMention_iff]
  constructor
  · intro h
    exact h.1
  · intro h
    exact ⟨h, resolvesAlike h⟩

end

/-! ## A letter that is folded to two -/

/-- UTC, where the clock reads May 2026. -/
def may2026 : TimeLibrary where
  Zone := Unit
  zoneInfo name := if name = "UTC" then some () else none
  astimezone _ _ := some ⟨2026, 5⟩
  midnight _ _ month := ⟨if month = 4 then 1775001600000000 else 1777593600000000, 0⟩
  isoformat d := if d.wall = 1775001600000000 then "2026-04-01T00:00:00+00:00" else "2026-05-01T00:00:00+00:00"

/-- Last month excluded, after a letter that is folded to two. -/
def excludedMonth : InitializeRequest where
  question := "ß排除上月".toList
  evaluationClock := ⟨1778803200000000, 0⟩
  evaluationTimezone := "UTC"
  memberResolutionMode := .exact
  compilationMode := .regionalQuarterlyProfit

/-- The question gets the window of the month it excludes; casefolded it is refused. -/
theorem excluded_month_accepted :
    (initializeRequest sharpS may2026 {} excludedMonth).timeWindows =
        [⟨"上月", ⟨1775001600000000, 0⟩, ⟨1777593600000000, 0⟩, .month⟩] ∧
      (initializeRequest sharpS may2026 {} excludedMonth).diagnostics = [] ∧
      (initializeRequest sharpS may2026 {} { excludedMonth with question := casefold sharpS excludedMonth.question }).timeWindows =
        [] ∧
      (initializeRequest sharpS may2026 {} { excludedMonth with question := casefold sharpS excludedMonth.question }).diagnostics =
        [negatedTime "上月"] := by
  decide +kernel

end DataNexus.Semantic
