/-
  DataNexus.Semantic.MemberMentions — which members a question's mentions resolve to.

  The matches of a span are ranked together, the spans chosen greedily by length. What is
  chosen depends on the matches as a set only: a span is brought down to its place, its
  rank and the member ids it may mean (`Brief`), and the briefs of two listings of one
  vocabulary are equal, in order.

  - `chosen_apart`, `chosen_longer`: chosen spans are apart; any other span overlaps a
    chosen one that is at least as long.
  - `briefs_eq`: the chosen briefs do not depend on the order of the matches.
  - `member_mentions`: the members and the refused mentions do not depend on how the
    vocabulary is listed; no member comes from a mention inside a longer chosen one.
-/

import DataNexus.Semantic.Initializer

namespace DataNexus.Semantic

open Lib Lib.Pattern

/-! ## Spans -/

theorem span_mentionPattern {tables : CharTables} {text folded : Text} {pos stop : Nat}
    (h : stop ∈ ends text (mentionPattern tables folded) pos) : folded <+: text.drop pos ∧ stop = pos + folded.length := by
  have hliteral : stop ∈ ends text (literal folded) pos := by
    unfold mentionPattern at h
    split at h
    · simp only [seqs, notAfter, notBefore, ends, List.mem_flatMap] at h
      obtain ⟨start, hstart, middle, hmiddle, last, hlast, hstop⟩ := h
      obtain rfl : start = pos := by
        split at hstart
        · exact List.mem_singleton.mp hstart
        · cases hstart
      obtain rfl : last = middle := by
        split at hlast
        · exact List.mem_singleton.mp hlast
        · cases hlast
      rw [List.mem_singleton.mp hstop]
      exact hmiddle
    · exact h
  rw [ends_literal] at hliteral
  split at hliteral
  · rename_i hstart
    exact ⟨hstart, List.mem_singleton.mp hliteral⟩
  · cases hliteral

theorem casefold_ne_nil (tables : CharTables) {text : Text} (h : text ≠ []) : casefold tables text ≠ [] := by
  obtain ⟨c, rest, rfl⟩ := List.exists_cons_of_ne_nil h
  rw [casefold, List.flatMap_cons]
  simp [tables.folds c]

/-- A match is not empty, and the question reads there as its form does. -/
structure Reads (tables : CharTables) (question : Text) (m : MemberMatch) : Prop where
  nonempty : m.start < m.stop
  reads : slice question m.start m.stop = casefold tables m.candidate.sourceText.toList

section

variable {tables : CharTables} {question : Text} {kind : ResolvedTermKind} {mode : MemberResolutionMode} {named : Named}
  {m : MemberMatch}

theorem mem_formMatches :
    m ∈ formMatches tables question kind mode named ↔
      (m.candidate.sourceText, m.candidate.source) ∈ named.forms mode ∧ m.candidate.sourceText ≠ "" ∧
        m.candidate.kind = kind ∧ m.candidate.machineId = named.id ∧
        (m.start, m.stop) ∈ mentionSpans tables question m.candidate.sourceText.toList := by
  rw [formMatches, List.mem_flatMap]
  constructor
  · rintro ⟨⟨text, source⟩, hform, hm⟩
    simp only at hm
    split at hm
    · cases hm
    · rename_i htext
      obtain ⟨⟨start, stop⟩, hspan, rfl⟩ := List.mem_map.mp hm
      exact ⟨hform, htext, rfl, rfl, hspan⟩
  · rintro ⟨hform, htext, rfl, hid, hspan⟩
    refine ⟨_, hform, ?_⟩
    simp only
    rw [if_neg htext]
    refine List.mem_map.mpr ⟨_, hspan, ?_⟩
    rw [← hid]

theorem reads_of_mem (h : m ∈ formMatches tables question kind mode named) : Reads tables question m := by
  obtain ⟨-, htext, -, -, hspan⟩ := mem_formMatches.mp h
  obtain ⟨-, hmatch⟩ := mem_finditer hspan
  obtain ⟨⟨rest, hrest⟩, hstop⟩ := span_mentionPattern (List.mem_of_mem_head? hmatch)
  simp only at hstop hrest
  have hsome : m.candidate.sourceText.toList ≠ [] := by
    intro hnil
    exact htext (String.toList_inj.mp hnil)
  have hlength := List.length_pos_iff.mpr (casefold_ne_nil tables hsome)
  refine ⟨by omega, ?_⟩
  rw [slice, List.drop_take, ← hrest, hstop, Nat.add_sub_cancel_left, List.take_left]

end

/-! ## Matches by span -/

def MemberMatch.span (m : MemberMatch) : Nat × Nat := (m.start, m.stop)

theorem get?_bySpan (found : List MemberMatch) (span : Nat × Nat) :
    (bySpan found).get? span =
      if span ∈ found.map MemberMatch.span then some (found.filter fun m => m.span = span) else none := by
  induction found using List.reverseRecOn with
  | nil => simp [bySpan]
  | append_singleton found m ih =>
    have hstep : bySpan (found ++ [m]) = (bySpan found).set m.span (((bySpan found).get? m.span).getD [] ++ [m]) := by
      rw [bySpan, List.foldl_append]
      rfl
    rw [hstep, Dict.get?_set]
    by_cases hspan : span = m.span
    · subst hspan
      rw [if_pos rfl]
      by_cases hbefore : m.span ∈ found.map MemberMatch.span
      · rw [ih, if_pos hbefore]
        simp
      · have hnone : found.filter (fun m' => m'.span = m.span) = [] := by
          refine List.filter_eq_nil_iff.mpr fun m' hm' => ?_
          simpa using fun heq => hbefore (List.mem_map.mpr ⟨m', hm', heq⟩)
        rw [ih, if_neg hbefore, List.filter_append, hnone]
        simp
    · rw [if_neg hspan, ih, List.filter_append, List.map_append]
      have hother : [m].filter (fun m' => m'.span = span) = [] := by simp [Ne.symm hspan]
      rw [hother, List.append_nil]
      simp [hspan]

theorem mem_bySpan {found : List MemberMatch} {span : Nat × Nat} {group : List MemberMatch} :
    (span, group) ∈ (bySpan found).entries ↔
      span ∈ found.map MemberMatch.span ∧ group = found.filter fun m => m.span = span := by
  constructor
  · intro h
    have hget := Dict.get?_of_mem_entries h
    rw [get?_bySpan] at hget
    split at hget
    · rename_i hspan
      exact ⟨hspan, (Option.some.inj hget).symm⟩
    · cases hget
  · rintro ⟨hspan, rfl⟩
    have hkey : span ∈ (bySpan found).keys := by
      rw [Dict.mem_keys, get?_bySpan, if_pos hspan]
      rfl
    obtain ⟨⟨key, group⟩, hentry, rfl⟩ := List.mem_map.mp hkey
    have hget := Dict.get?_of_mem_entries hentry
    rw [get?_bySpan, if_pos hspan] at hget
    rw [Option.some.inj hget]
    exact hentry

theorem mem_rankedSpans {found : List MemberMatch} {s : RankedSpan} :
    s ∈ rankedSpans found ↔
      ∃ span ∈ found.map MemberMatch.span, s = rankedSpan (span, found.filter fun m => m.span = span) := by
  rw [rankedSpans, List.mem_insertionSort, List.mem_map]
  constructor
  · rintro ⟨⟨span, group⟩, hentry, rfl⟩
    obtain ⟨hspan, rfl⟩ := mem_bySpan.mp hentry
    exact ⟨span, hspan, rfl⟩
  · rintro ⟨span, hspan, rfl⟩
    exact ⟨_, mem_bySpan.mpr ⟨hspan, rfl⟩, rfl⟩

/-! ## Chosen spans -/

theorem overlaps_symm (a b : RankedSpan) : a.overlaps b = b.overlaps a := Bool.and_comm _ _

instance : IsTrans RankedSpan fun a b => a.precedes b = true where
  trans a b c hab hbc := by
    simp only [RankedSpan.precedes, Bool.or_eq_true, Bool.and_eq_true, decide_eq_true_eq] at *
    omega

instance : Std.Total fun a b : RankedSpan => a.precedes b = true where
  total a b := by
    simp only [RankedSpan.precedes, Bool.or_eq_true, Bool.and_eq_true, decide_eq_true_eq]
    omega

theorem precedes_length {a b : RankedSpan} (h : a.precedes b = true) : b.length ≤ a.length := by
  simp only [RankedSpan.precedes, Bool.or_eq_true, Bool.and_eq_true, decide_eq_true_eq] at h
  omega

theorem rankedSpans_sorted (found : List MemberMatch) : (rankedSpans found).Pairwise fun a b => a.precedes b = true :=
  List.pairwise_insertionSort _ _

theorem mem_chosenSpans {found : List MemberMatch} {s : RankedSpan} :
    s ∈ chosenSpans found ↔ s ∈ Greedy.select RankedSpan.overlaps (rankedSpans found) := List.mem_insertionSort _

/-- Chosen spans are apart. -/
theorem chosen_apart (found : List MemberMatch) :
    (chosenSpans found).Pairwise fun a b => a.stop ≤ b.start ∨ b.stop ≤ a.start := by
  have happart : (chosenSpans found).Pairwise fun a b => a.overlaps b = false := by
    refine (Greedy.select_apart overlaps_symm (rankedSpans found)).perm (List.perm_insertionSort _ _).symm ?_
    intro a b h
    rw [overlaps_symm]
    exact h
  refine happart.imp fun {a b} h => ?_
  simp only [RankedSpan.overlaps, Bool.and_eq_false_iff, decide_eq_false_iff_not] at h
  omega

/-- A span that is not chosen overlaps a chosen one that is at least as long. -/
theorem chosen_longer {found : List MemberMatch} {m : MemberMatch} (hm : m ∈ found)
    (hnot : ∀ s ∈ chosenSpans found, (s.start, s.stop) ≠ m.span) :
    ∃ s ∈ chosenSpans found, m.start < s.stop ∧ s.start < m.stop ∧ m.stop - m.start ≤ s.stop - s.start := by
  set own := rankedSpan (m.span, found.filter fun m' => m'.span = m.span) with hown
  have hranked : own ∈ rankedSpans found := mem_rankedSpans.mpr ⟨m.span, List.mem_map_of_mem hm, rfl⟩
  have hnotSelected : own ∉ Greedy.select RankedSpan.overlaps (rankedSpans found) := by
    intro hselected
    exact hnot own (mem_chosenSpans.mpr hselected) rfl
  obtain ⟨s, hs, hoverlap, hprecedes⟩ := Greedy.exists_conflict (rankedSpans_sorted found) hranked hnotSelected
  refine ⟨s, mem_chosenSpans.mpr hs, ?_⟩
  have hlength := precedes_length hprecedes
  simp only [RankedSpan.overlaps, Bool.and_eq_true, decide_eq_true_eq] at hoverlap
  exact ⟨hoverlap.1, hoverlap.2, hlength⟩

/-! ## Briefs -/

/-- A span without its matches, and the member ids it may mean. -/
def brief (s : RankedSpan) : RankedSpan × List String := ({ s with preferred := [] }, machineIds s.preferred)

/-- The same matches, in whatever order. -/
def SameMatches (found found' : List MemberMatch) : Prop := ∀ m, m ∈ found ↔ m ∈ found'

theorem min?_eq_of_mem_iff {xs ys : List Nat} (h : ∀ x, x ∈ xs ↔ x ∈ ys) : xs.min? = ys.min? := by
  rcases hx : xs.min? with _ | x
  · obtain rfl := List.min?_eq_none_iff.mp hx
    have hnil : ys = [] := List.eq_nil_iff_forall_not_mem.mpr fun y hy => by simpa using (h y).mpr hy
    rw [hnil]
    rfl
  · obtain ⟨hmem, hle⟩ := List.min?_eq_some_iff.mp hx
    exact (List.min?_eq_some_iff.mpr ⟨(h x).mp hmem, fun y hy => hle y ((h y).mpr hy)⟩).symm

theorem mem_machineIds {found : List MemberMatch} {id : String} :
    id ∈ machineIds found ↔ ∃ m ∈ found, m.candidate.machineId = id := by
  rw [machineIds, List.mem_insertionSort, List.mem_dedup, List.mem_map]

theorem machineIds_eq {found found' : List MemberMatch} (h : SameMatches found found') : machineIds found = machineIds found' := by
  have hmem : ∀ id, id ∈ machineIds found ↔ id ∈ machineIds found' := fun id => by
    rw [mem_machineIds, mem_machineIds]
    exact exists_congr fun m => and_congr_left fun _ => h m
  have hnodup : ∀ found, (machineIds found).Nodup := fun found =>
    (List.perm_insertionSort _ _).nodup_iff.mpr (List.nodup_dedup _)
  have hsorted : ∀ found, (machineIds found).Pairwise (· ≤ ·) := fun found => List.pairwise_insertionSort _ _
  exact List.Perm.eq_of_pairwise' (hsorted _) (hsorted _) ((List.perm_ext_iff_of_nodup (hnodup _) (hnodup _)).mpr hmem)

theorem SameMatches.filter {found found' : List MemberMatch} (h : SameMatches found found') (p : MemberMatch → Bool) :
    SameMatches (found.filter p) (found'.filter p) := fun m => by
  rw [List.mem_filter, List.mem_filter, h m]

theorem brief_rankedSpan {found found' : List MemberMatch} (h : SameMatches found found') (span : Nat × Nat) :
    brief (rankedSpan (span, found)) = brief (rankedSpan (span, found')) := by
  have hrank : bestRank found = bestRank found' := by
    rw [bestRank, bestRank, min?_eq_of_mem_iff]
    intro rank
    rw [List.mem_map, List.mem_map]
    exact exists_congr fun m => and_congr_left fun _ => h m
  simp only [brief, rankedSpan, hrank, machineIds_eq (h.filter _)]

theorem mem_briefs {found : List MemberMatch} {b : RankedSpan × List String} :
    b ∈ (rankedSpans found).map brief ↔
      ∃ span ∈ found.map MemberMatch.span, b = brief (rankedSpan (span, found.filter fun m => m.span = span)) := by
  rw [List.mem_map]
  constructor
  · rintro ⟨s, hs, rfl⟩
    obtain ⟨span, hspan, rfl⟩ := mem_rankedSpans.mp hs
    exact ⟨span, hspan, rfl⟩
  · rintro ⟨span, hspan, rfl⟩
    exact ⟨_, mem_rankedSpans.mpr ⟨span, hspan, rfl⟩, rfl⟩

theorem briefs_nodup (found : List MemberMatch) : ((rankedSpans found).map brief).Nodup := by
  have hplaces : ((rankedSpans found).map fun s => (s.start, s.stop)).Nodup := by
    have hperm := (List.perm_insertionSort (fun a b => a.precedes b = true) ((bySpan found).entries.map rankedSpan)).map
      fun s : RankedSpan => (s.start, s.stop)
    refine hperm.nodup_iff.mpr ?_
    rw [List.map_map]
    exact (bySpan found).nodup
  refine List.Nodup.of_map (fun b : RankedSpan × List String => (b.1.start, b.1.stop)) ?_
  rw [List.map_map]
  exact hplaces

theorem rankedBriefs_eq {found found' : List MemberMatch} (hmatches : ∀ m ∈ found, m.start < m.stop)
    (h : SameMatches found found') : (rankedSpans found).map brief = (rankedSpans found').map brief := by
  have hmatches' : ∀ m ∈ found', m.start < m.stop := fun m hm => hmatches m ((h m).mpr hm)
  have hspans : ∀ span, span ∈ found.map MemberMatch.span ↔ span ∈ found'.map MemberMatch.span := fun span => by
    rw [List.mem_map, List.mem_map]
    exact exists_congr fun m => and_congr_left fun _ => h m
  have hsame : ∀ span, brief (rankedSpan (span, found.filter fun m => m.span = span)) =
      brief (rankedSpan (span, found'.filter fun m => m.span = span)) := fun span => brief_rankedSpan (h.filter _) span
  have hsorted : ∀ found, ((rankedSpans found).map brief).Pairwise fun a b => a.1.precedes b.1 = true := by
    intro found
    rw [List.pairwise_map]
    exact rankedSpans_sorted found
  refine List.Perm.eq_of_pairwise ?_ (hsorted found) (hsorted found') ?_
  · -- Two spans of one length that start at one place are one.
    intro a b ha hb hab hba
    obtain ⟨span, hspan, rfl⟩ := mem_briefs.mp ha
    obtain ⟨span', hspan', rfl⟩ := mem_briefs.mp hb
    obtain ⟨m, hm, rfl⟩ := List.mem_map.mp hspan
    obtain ⟨m', hm', rfl⟩ := List.mem_map.mp hspan'
    have hlength := Nat.le_antisymm (precedes_length hba) (precedes_length hab)
    have hstart : m.start = m'.start := by
      simp only [RankedSpan.precedes, Bool.or_eq_true, Bool.and_eq_true, decide_eq_true_eq] at hab hba
      have hstarts : (brief (rankedSpan (m.span, found.filter fun x => x.span = m.span))).1.start = m.start := rfl
      have hstarts' : (brief (rankedSpan (m'.span, found'.filter fun x => x.span = m'.span))).1.start = m'.start := rfl
      omega
    have hwide := hmatches m hm
    have hwide' := hmatches' m' hm'
    have hspan : m.span = m'.span := by
      have hlengths : m.stop - m.start = m'.stop - m'.start := hlength
      exact Prod.ext hstart (show m.stop = m'.stop by omega)
    rw [hsame, hspan]
  · refine (List.perm_ext_iff_of_nodup (briefs_nodup _) (briefs_nodup _)).mpr fun b => ?_
    rw [mem_briefs, mem_briefs]
    refine exists_congr fun span => ?_
    rw [hspans, hsame]

/-- What is chosen of the same matches is the same, in order. -/
theorem briefs_eq {found found' : List MemberMatch} (hmatches : ∀ m ∈ found, m.start < m.stop)
    (h : SameMatches found found') : (chosenSpans found).map brief = (chosenSpans found').map brief := by
  have hselect : ∀ found, (chosenSpans found).map brief =
      (Greedy.select (fun a b : RankedSpan × List String => a.1.overlaps b.1) ((rankedSpans found).map brief)).insertionSort
        fun a b => a.1.start ≤ b.1.start := by
    intro found
    have hsort := List.map_insertionSort (fun a b => a.start ≤ b.start) (fun a b => a.1.start ≤ b.1.start) brief
      (Greedy.select RankedSpan.overlaps (rankedSpans found)) (fun _ _ _ _ => Iff.rfl)
    have hchosen := Greedy.map_select RankedSpan.overlaps (fun a b : RankedSpan × List String => a.1.overlaps b.1) brief
      (fun _ _ => rfl) (rankedSpans found)
    rw [chosenSpans, hsort, hchosen]
  rw [hselect, hselect, rankedBriefs_eq hmatches h]

/-! ## What a brief resolves to -/

section

variable (tables : CharTables) (question : Text)

/-- What a chosen span is refused for. -/
def diagnosis (b : RankedSpan × List String) : List Diagnostic :=
  let mention := String.ofList (slice question b.1.start b.1.stop)
  if isNegated tables question b.1.start b.1.stop then [negatedMember mention]
  else if b.2.length > 1 then [ambiguousMember mention b.2]
  else []

/-- The member a chosen span resolves to. -/
def accepted (b : RankedSpan × List String) : Option String :=
  if isNegated tables question b.1.start b.1.stop then none
  else if b.2.length > 1 then none
  else b.2.head?

/-- The candidate a chosen span adds. -/
def picked (s : RankedSpan) : List ResolutionCandidate :=
  if (accepted tables question (brief s)).isSome then s.preferred.head?.toList.map (·.candidate) else []

variable {tables question}

/-- The matches of a chosen span are matches at it, of one rank. -/
theorem mem_preferred {found : List MemberMatch} {s : RankedSpan} (hs : s ∈ chosenSpans found) :
    s.preferred ≠ [] ∧ ∀ m ∈ s.preferred, m ∈ found ∧ m.span = (s.start, s.stop) := by
  obtain ⟨span, hspan, rfl⟩ := mem_rankedSpans.mp (Greedy.mem_of_mem_select (mem_chosenSpans.mp hs))
  set group := found.filter fun m => m.span = span with hgroup
  constructor
  · obtain ⟨m, hm, rfl⟩ := List.mem_map.mp hspan
    have hmem : m ∈ group := List.mem_filter.mpr ⟨hm, by simp⟩
    rcases hbest : (group.map fun m => m.candidate.source.rank).min? with _ | rank
    · rw [List.min?_eq_none_iff, List.map_eq_nil_iff] at hbest
      rw [hbest] at hmem
      cases hmem
    · obtain ⟨hrank, -⟩ := List.min?_eq_some_iff.mp hbest
      obtain ⟨best, hbestMem, hbestRank⟩ := List.mem_map.mp hrank
      refine List.ne_nil_of_mem (a := best) (List.mem_filter.mpr ⟨hbestMem, ?_⟩)
      simp only [bestRank, hbest, hbestRank, Option.getD_some, decide_true]
  · intro m hm
    have hmem := (List.mem_filter.mp hm).1
    rw [hgroup, List.mem_filter] at hmem
    exact ⟨hmem.1, of_decide_eq_true hmem.2⟩

theorem resolveMember_chosen {found : List MemberMatch} (hreads : ∀ m ∈ found, Reads tables question m) {s : RankedSpan}
    (hs : s ∈ chosenSpans found) (st : Resolution) :
    resolveMember tables question st s.preferred =
      { st with
        candidates := st.candidates ++ picked tables question s
        diagnostics := st.diagnostics ++ diagnosis tables question (brief s) } := by
  obtain ⟨hsome, hall⟩ := mem_preferred hs
  rcases hpreferred : s.preferred with _ | ⟨m, rest⟩
  · exact absurd hpreferred hsome
  · obtain ⟨hmem, hspan⟩ := hall m (by simp [hpreferred])
    have hread := (hreads m hmem).reads
    have hstart : m.start = s.start := congrArg Prod.fst hspan
    have hstop : m.stop = s.stop := congrArg Prod.snd hspan
    have hmention : mention tables m.candidate = String.ofList (slice question s.start s.stop) := by
      rw [mention, ← hread, hstart, hstop]
    have hids : (machineIds (m :: rest)).head?.isSome = true := by
      have hid : m.candidate.machineId ∈ machineIds (m :: rest) := mem_machineIds.mpr ⟨m, by simp, rfl⟩
      rcases hlist : machineIds (m :: rest) with _ | ⟨id, ids⟩
      · rw [hlist] at hid
        cases hid
      · rfl
    simp only [resolveMember, picked, accepted, diagnosis, brief, hpreferred, hmention, hstart, hstop]
    by_cases hnegated : isNegated tables question s.start s.stop = true
    · simp [hnegated]
    · by_cases hseveral : (machineIds (m :: rest)).length > 1
      · simp [hnegated, hseveral]
      · simp only [hnegated, hseveral, if_false, hids, if_true, Bool.false_eq_true]
        simp

theorem resolveMembers_chosen {found : List MemberMatch} (hreads : ∀ m ∈ found, Reads tables question m)
    {spans : List RankedSpan} (hspans : ∀ s ∈ spans, s ∈ chosenSpans found) (st : Resolution) :
    (spans.map (·.preferred)).foldl (resolveMember tables question) st =
      { st with
        candidates := st.candidates ++ spans.flatMap (picked tables question)
        diagnostics := st.diagnostics ++ (spans.map brief).flatMap (diagnosis tables question) } := by
  induction spans generalizing st with
  | nil => simp
  | cons s spans ih =>
    rw [List.map_cons, List.foldl_cons, resolveMember_chosen hreads (hspans s (by simp)), ih fun s' hs' => hspans s' (by simp [hs'])]
    simp

/-- What a chosen span adds is a member, and the one it resolves to. -/
theorem mem_picked {s : RankedSpan} {c : ResolutionCandidate} (hc : c ∈ picked tables question s) :
    accepted tables question (brief s) = some c.machineId ∧ ∃ m ∈ s.preferred, m.candidate = c := by
  unfold picked at hc
  split at hc
  · rename_i hsome
    rcases hpreferred : s.preferred with _ | ⟨m, rest⟩
    · rw [hpreferred] at hc
      cases hc
    · rw [hpreferred] at hc
      have hcm : c = m.candidate := by simpa using hc
      refine ⟨?_, m, by simp, hcm.symm⟩
      have hid : m.candidate.machineId ∈ machineIds s.preferred :=
        mem_machineIds.mpr ⟨m, by rw [hpreferred]; simp, rfl⟩
      unfold accepted at hsome ⊢
      split at hsome
      · cases hsome
      · rename_i hnegated
        rw [if_neg hnegated]
        split at hsome
        · cases hsome
        · rename_i hseveral
          rw [if_neg hseveral, hcm]
          rcases hlist : machineIds s.preferred with _ | ⟨id, ids⟩
          · rw [hlist] at hid
            cases hid
          · have hone : ids = [] := by
              simp only [brief, hlist, List.length_cons] at hseveral
              exact List.length_eq_zero_iff.mp (by omega)
            rw [hlist, hone, List.mem_singleton] at hid
            simp only [brief, hlist, List.head?_cons, hid]
  · cases hc

theorem exists_picked {found : List MemberMatch} {s : RankedSpan} (hs : s ∈ chosenSpans found) {id : String}
    (h : accepted tables question (brief s) = some id) : ∃ c ∈ picked tables question s, c.machineId = id := by
  obtain ⟨hsome, -⟩ := mem_preferred hs
  obtain ⟨m, rest, hpreferred⟩ := List.exists_cons_of_ne_nil hsome
  have hmem : m.candidate ∈ picked tables question s := by
    rw [picked, h, hpreferred]
    simp
  refine ⟨m.candidate, hmem, ?_⟩
  obtain ⟨haccepted, -⟩ := mem_picked hmem
  exact (Option.some.inj (h.symm.trans haccepted)).symm

end

/-! ## Terms -/

theorem get?_preferred (unique : Dict (ResolvedTermKind × String) ResolutionCandidate) (candidate : ResolutionCandidate)
    (key : ResolvedTermKind × String) :
    (preferred unique candidate).get? key = unique.get? key ∨
      key = (candidate.kind, candidate.machineId) ∧ (preferred unique candidate).get? key = some candidate := by
  have hset : (unique.set (candidate.kind, candidate.machineId) candidate).get? key = unique.get? key ∨
      key = (candidate.kind, candidate.machineId) ∧
        (unique.set (candidate.kind, candidate.machineId) candidate).get? key = some candidate := by
    rw [Dict.get?_set]
    by_cases hkey : key = (candidate.kind, candidate.machineId)
    · exact .inr ⟨hkey, if_pos hkey⟩
    · exact .inl (if_neg hkey)
  unfold preferred
  split
  · exact hset
  · split
    · exact hset
    · exact .inl rfl

theorem preferred_some (unique : Dict (ResolvedTermKind × String) ResolutionCandidate) (candidate : ResolutionCandidate) :
    ((preferred unique candidate).get? (candidate.kind, candidate.machineId)).isSome = true := by
  unfold preferred
  split
  · simp
  · rename_i hexisting
    split
    · simp
    · rw [hexisting]
      rfl

/-- Each key of the candidates is kept, and nothing else, with a candidate of that key. -/
theorem get?_unique (candidates : List ResolutionCandidate) (key : ResolvedTermKind × String) :
    (∀ c, (candidates.foldl preferred Dict.empty).get? key = some c → c ∈ candidates ∧ key = (c.kind, c.machineId)) ∧
      ((∃ c ∈ candidates, key = (c.kind, c.machineId)) → ((candidates.foldl preferred Dict.empty).get? key).isSome = true) := by
  induction candidates using List.reverseRecOn with
  | nil => simp
  | append_singleton candidates last ih =>
    rw [List.foldl_append, List.foldl_cons, List.foldl_nil]
    obtain ⟨hholds, hkept⟩ := ih
    rcases get?_preferred (candidates.foldl preferred Dict.empty) last key with hsame | ⟨hkey, hlast⟩
    · rw [hsame]
      refine ⟨fun c hc => ⟨List.mem_append_left _ (hholds c hc).1, (hholds c hc).2⟩, ?_⟩
      rintro ⟨c, hc, hkey⟩
      rcases List.mem_append.mp hc with hc | hc
      · exact hkept ⟨c, hc, hkey⟩
      · rw [List.mem_singleton] at hc
        rw [← hsame, hkey, hc]
        exact preferred_some _ _
    · rw [hlast]
      refine ⟨fun c hc => ?_, fun _ => rfl⟩
      obtain rfl := Option.some.inj hc
      exact ⟨by simp, hkey⟩

/-- The resolved terms are those of the candidates. -/
theorem mem_resolved {candidates : List ResolutionCandidate} {kind : ResolvedTermKind} {id : String} :
    (∃ t ∈ resolved candidates, t.kind = kind ∧ t.machineId = id) ↔ ∃ c ∈ candidates, c.kind = kind ∧ c.machineId = id := by
  constructor
  · rintro ⟨t, ht, rfl, rfl⟩
    obtain ⟨c, hc, rfl⟩ := List.mem_map.mp ht
    rw [List.mem_insertionSort] at hc
    obtain ⟨⟨key, c⟩, hentry, rfl⟩ := List.mem_map.mp hc
    exact ⟨c, ((get?_unique candidates key).1 c (Dict.get?_of_mem_entries hentry)).1, rfl, rfl⟩
  · rintro ⟨c, hc, rfl, rfl⟩
    have hkept := (get?_unique candidates (c.kind, c.machineId)).2 ⟨c, hc, rfl⟩
    rw [← Dict.mem_keys] at hkept
    obtain ⟨⟨key, item⟩, hentry, hkey⟩ := List.mem_map.mp hkept
    simp only at hkey
    subst hkey
    obtain ⟨-, hitem⟩ := (get?_unique candidates _).1 item (Dict.get?_of_mem_entries hentry)
    obtain ⟨hkind, hid⟩ := Prod.mk.inj hitem
    refine ⟨⟨item.sourceText, item.kind, item.machineId, .form item.source⟩, List.mem_map.mpr ⟨item, ?_, rfl⟩, hkind.symm, hid.symm⟩
    rw [List.mem_insertionSort]
    exact List.mem_map.mpr ⟨_, hentry, rfl⟩

section

variable {tables : CharTables} {question : Text} {vocabulary : Vocabulary} {mode : MemberResolutionMode}

theorem concept_kind {m : MemberMatch} (h : m ∈ conceptMatches tables vocabulary question mode) : m.candidate.kind ≠ .member := by
  simp only [conceptMatches, List.mem_append, List.mem_flatMap] at h
  rcases h with (⟨_, -, h⟩ | ⟨_, -, h⟩) | ⟨_, -, h⟩ <;>
    (rw [(mem_formMatches.mp h).2.2.1]; decide)

/-- Concepts add no member and no diagnostic of a member. -/
structure ConceptsOnly (st : Resolution) : Prop where
  candidates : ∀ c ∈ st.candidates, c.kind ≠ .member
  diagnostics : ∀ d ∈ st.diagnostics, d.code = "NEGATED_CONCEPT_UNSUPPORTED"

theorem resolveConcept_only {st : Resolution} (h : ConceptsOnly st) {m : MemberMatch} (hm : m.candidate.kind ≠ .member) :
    ConceptsOnly (resolveConcept tables question st m) := by
  unfold resolveConcept
  simp only
  split
  · split
    · exact h
    · refine ⟨h.candidates, fun d hd => ?_⟩
      rcases List.mem_append.mp hd with hd | hd
      · exact h.diagnostics d hd
      · rw [List.mem_singleton.mp hd]
        rfl
  · refine ⟨fun c hc => ?_, h.diagnostics⟩
    rcases List.mem_append.mp hc with hc | hc
    · exact h.candidates c hc
    · rw [List.mem_singleton.mp hc]
      exact hm

theorem resolveConcepts_only {found : List MemberMatch} (hfound : ∀ m ∈ found, m.candidate.kind ≠ .member)
    {st : Resolution} (h : ConceptsOnly st) : ConceptsOnly (found.foldl (resolveConcept tables question) st) := by
  induction found generalizing st with
  | nil => exact h
  | cons m found ih =>
    rw [List.foldl_cons]
    exact ih (fun m' hm' => hfound m' (List.mem_cons_of_mem m hm')) (resolveConcept_only h (hfound m List.mem_cons_self))

variable (tables question vocabulary mode)

/-- The matches of members in a question. -/
def questionMatches : List MemberMatch := memberMatches tables vocabulary (casefold tables question) mode

theorem questionMatches_reads : ∀ m ∈ questionMatches tables question vocabulary mode, Reads tables (casefold tables question) m := by
  intro m hm
  obtain ⟨field, -, hm⟩ := List.mem_flatMap.mp hm
  obtain ⟨member, -, hm⟩ := List.mem_flatMap.mp hm
  exact reads_of_mem hm

theorem questionMatches_kind : ∀ m ∈ questionMatches tables question vocabulary mode, m.candidate.kind = .member := by
  intro m hm
  obtain ⟨field, -, hm⟩ := List.mem_flatMap.mp hm
  obtain ⟨member, -, hm⟩ := List.mem_flatMap.mp hm
  exact (mem_formMatches.mp hm).2.2.1

/-- Concepts first, then what the chosen spans add. -/
theorem resolution_eq : ∃ st, ConceptsOnly st ∧
    resolution tables vocabulary question mode =
      { st with
        candidates := st.candidates ++
          (chosenSpans (questionMatches tables question vocabulary mode)).flatMap (picked tables (casefold tables question))
        diagnostics := st.diagnostics ++
          ((chosenSpans (questionMatches tables question vocabulary mode)).map brief).flatMap
            (diagnosis tables (casefold tables question)) } := by
  have honly : ConceptsOnly ((conceptMatches tables vocabulary (casefold tables question) mode).foldl
      (resolveConcept tables (casefold tables question)) {}) :=
    resolveConcepts_only (fun m hm => concept_kind hm) { candidates := by simp, diagnostics := by simp }
  exact ⟨_, honly, resolveMembers_chosen (questionMatches_reads tables question vocabulary mode) (fun s hs => hs) _⟩

theorem mem_resolvedMembers (id : String) :
    (∃ t ∈ (resolveTerms tables vocabulary question mode).1, t.kind = .member ∧ t.machineId = id) ↔
      ∃ b ∈ (chosenSpans (questionMatches tables question vocabulary mode)).map brief,
        accepted tables (casefold tables question) b = some id := by
  obtain ⟨st, honly, hresolution⟩ := resolution_eq tables question vocabulary mode
  rw [resolveTerms]
  simp only
  rw [mem_resolved, hresolution]
  constructor
  · rintro ⟨c, hc, hkind, rfl⟩
    rcases List.mem_append.mp hc with hc | hc
    · exact absurd hkind (honly.candidates c hc)
    · obtain ⟨s, hs, hc⟩ := List.mem_flatMap.mp hc
      exact ⟨brief s, List.mem_map_of_mem hs, (mem_picked hc).1⟩
  · rintro ⟨b, hb, haccepted⟩
    obtain ⟨s, hs, rfl⟩ := List.mem_map.mp hb
    obtain ⟨c, hc, rfl⟩ := exists_picked hs haccepted
    refine ⟨c, List.mem_append_right _ (List.mem_flatMap.mpr ⟨s, hs, hc⟩), ?_, rfl⟩
    obtain ⟨-, m, hm, rfl⟩ := mem_picked hc
    exact questionMatches_kind tables question vocabulary mode m ((mem_preferred hs).2 m hm).1

/-- The diagnostics of members. -/
def memberDiagnostics : List Diagnostic :=
  (resolveTerms tables vocabulary question mode).2.filter fun d =>
    d.code = "AMBIGUOUS_MEMBER" ∨ d.code = "NEGATED_MEMBER_UNSUPPORTED"

theorem memberDiagnostics_eq :
    memberDiagnostics tables question vocabulary mode =
      ((chosenSpans (questionMatches tables question vocabulary mode)).map brief).flatMap
        (diagnosis tables (casefold tables question)) := by
  obtain ⟨st, honly, hresolution⟩ := resolution_eq tables question vocabulary mode
  rw [memberDiagnostics, resolveTerms]
  simp only
  rw [hresolution, List.filter_append]
  have hnone : st.diagnostics.filter (fun d => d.code = "AMBIGUOUS_MEMBER" ∨ d.code = "NEGATED_MEMBER_UNSUPPORTED") = [] := by
    refine List.filter_eq_nil_iff.mpr fun d hd => ?_
    rw [honly.diagnostics d hd]
    decide
  rw [hnone, List.nil_append]
  refine List.filter_eq_self.mpr fun d hd => ?_
  obtain ⟨b, -, hd⟩ := List.mem_flatMap.mp hd
  simp only [diagnosis] at hd
  split at hd
  · rw [List.mem_singleton.mp hd]
    rfl
  · split at hd
    · rw [List.mem_singleton.mp hd]
      rfl
    · cases hd

end

/-! ## Listings of one vocabulary -/

/-- The entries of one list, each changed as `R` has it, in some order. -/
def Reordered {α : Type} (R : α → α → Prop) (xs ys : List α) : Prop := ∃ zs, xs.Perm zs ∧ List.Forall₂ R zs ys

structure SameForms (a b : Named) : Prop where
  id : a.id = b.id
  label : a.label = b.label
  synonyms : a.synonyms.Perm b.synonyms

structure SameField (a b : NamedField) : Prop where
  forms : SameForms a.toNamed b.toNamed
  members : Reordered SameForms a.members b.members

/-- One vocabulary, with its entries, their members and their synonyms in another order. -/
structure Relisted (a b : Vocabulary) : Prop where
  entities : Reordered SameForms a.entities b.entities
  fields : Reordered SameField a.fields b.fields
  metrics : Reordered SameForms a.metrics b.metrics

theorem Reordered.exists_iff {α : Type} {R : α → α → Prop} {xs ys : List α} (h : Reordered R xs ys) {p : α → Prop}
    (hp : ∀ x y, R x y → (p x ↔ p y)) : (∃ x ∈ xs, p x) ↔ ∃ y ∈ ys, p y := by
  obtain ⟨zs, hperm, hall⟩ := h
  have hfirst : (∃ x ∈ xs, p x) ↔ ∃ z ∈ zs, p z := exists_congr fun x => and_congr_left fun _ => hperm.mem_iff
  rw [hfirst]
  clear hfirst hperm
  induction hall with
  | nil => rfl
  | cons hR _ ih =>
    rw [List.exists_mem_cons_iff, List.exists_mem_cons_iff, hp _ _ hR]
    exact or_congr_right ih

theorem SameForms.mem_formMatches {a b : Named} (h : SameForms a b) {tables : CharTables} {question : Text}
    {kind : ResolvedTermKind} {mode : MemberResolutionMode} (m : MemberMatch) :
    m ∈ formMatches tables question kind mode a ↔ m ∈ formMatches tables question kind mode b := by
  have hforms : ∀ form, form ∈ a.forms mode ↔ form ∈ b.forms mode := by
    intro form
    cases mode with
    | exact => rw [Named.forms, Named.forms, h.id, h.label]
    | exactAndSynonym =>
      rw [Named.forms, Named.forms, h.id, h.label, List.mem_append, List.mem_append]
      exact or_congr_right (h.synonyms.map (·, FormSource.synonym)).mem_iff
  rw [DataNexus.Semantic.mem_formMatches, DataNexus.Semantic.mem_formMatches, hforms, h.id]

theorem Relisted.sameMatches {a b : Vocabulary} (h : Relisted a b) (tables : CharTables) (question : Text)
    (mode : MemberResolutionMode) :
    SameMatches (questionMatches tables question a mode) (questionMatches tables question b mode) := by
  intro m
  simp only [questionMatches, memberMatches, List.mem_flatMap]
  exact h.fields.exists_iff fun x y hfield => hfield.members.exists_iff fun _ _ hmember => hmember.mem_formMatches m

/-! ## The members of a question -/

/-- Chosen spans are apart and any other span overlaps one at least as long; the resolved
    members and the mentions that are ambiguous or negated do not depend on how the
    vocabulary is listed; a member comes from a chosen span that lies inside no other. -/
theorem member_mentions (tables : CharTables) (question : Text) (vocabulary : Vocabulary) (mode : MemberResolutionMode) :
    let found := questionMatches tables question vocabulary mode
    ((chosenSpans found).Pairwise fun a b => a.stop ≤ b.start ∨ b.stop ≤ a.start) ∧
    (∀ m ∈ found, (∀ s ∈ chosenSpans found, (s.start, s.stop) ≠ (m.start, m.stop)) →
      ∃ s ∈ chosenSpans found, m.start < s.stop ∧ s.start < m.stop ∧ m.stop - m.start ≤ s.stop - s.start) ∧
    (∀ vocabulary', Relisted vocabulary vocabulary' →
      (∀ id, (∃ t ∈ (resolveTerms tables vocabulary question mode).1, t.kind = .member ∧ t.machineId = id) ↔
        ∃ t ∈ (resolveTerms tables vocabulary' question mode).1, t.kind = .member ∧ t.machineId = id) ∧
      memberDiagnostics tables question vocabulary mode = memberDiagnostics tables question vocabulary' mode) ∧
    (∀ t ∈ (resolveTerms tables vocabulary question mode).1, t.kind = .member →
      ∃ s ∈ chosenSpans found, (∃ m ∈ s.preferred, m.candidate.machineId = t.machineId ∧ m.start = s.start ∧ m.stop = s.stop) ∧
        ∀ s' ∈ chosenSpans found, s'.start ≤ s.start → s.stop ≤ s'.stop → s'.start = s.start ∧ s'.stop = s.stop) := by
  intro found
  have hwide : ∀ m ∈ found, m.start < m.stop := fun m hm => (questionMatches_reads tables question vocabulary mode m hm).nonempty
  refine ⟨chosen_apart found, fun m hm hnot => chosen_longer hm hnot, fun vocabulary' hlisted => ⟨fun id => ?_, ?_⟩, fun t ht hkind => ?_⟩
  · rw [mem_resolvedMembers, mem_resolvedMembers, briefs_eq hwide (hlisted.sameMatches tables question mode)]
  · rw [memberDiagnostics_eq, memberDiagnostics_eq, briefs_eq hwide (hlisted.sameMatches tables question mode)]
  · obtain ⟨b, hb, haccepted⟩ := (mem_resolvedMembers tables question vocabulary mode t.machineId).mp ⟨t, ht, hkind, rfl⟩
    obtain ⟨s, hs, rfl⟩ := List.mem_map.mp hb
    obtain ⟨c, hc, hid⟩ := exists_picked hs haccepted
    obtain ⟨-, m, hm, rfl⟩ := mem_picked hc
    obtain ⟨hmem, hspan⟩ := (mem_preferred hs).2 m hm
    obtain ⟨hstart, hstop⟩ := Prod.mk.inj hspan
    refine ⟨s, hs, ⟨m, hm, hid, hstart, hstop⟩, fun s' hs' hbefore hafter => ?_⟩
    have hnonempty := hwide m hmem
    by_contra hother
    have hne : s' ≠ s := by
      rintro rfl
      exact hother ⟨rfl, rfl⟩
    have hsymm : Std.Symm fun a b : RankedSpan => a.stop ≤ b.start ∨ b.stop ≤ a.start := ⟨fun _ _ h => h.symm⟩
    have hapart := (chosen_apart found).forall hs' hs hne
    omega

/-- Two regions, the name of one in the name of the other. -/
def regions : Vocabulary where
  fields := [⟨⟨"region", "地区", []⟩, [⟨"region.east", "华东", []⟩, ⟨"region.east_coast", "华东沿海", ["东部沿海"]⟩]⟩]

def regionsReversed : Vocabulary where
  fields := [⟨⟨"region", "地区", []⟩, [⟨"region.east_coast", "华东沿海", ["东部沿海"]⟩, ⟨"region.east", "华东", []⟩]⟩]

theorem regions_relisted : Relisted regions regionsReversed where
  entities := ⟨[], .refl _, .nil⟩
  fields := ⟨_, .refl _, .cons ⟨⟨rfl, rfl, .refl _⟩, ⟨_, .swap _ _ _,
    .cons ⟨rfl, rfl, .refl _⟩ (.cons ⟨rfl, rfl, .refl _⟩ .nil)⟩⟩ .nil⟩
  metrics := ⟨[], .refl _, .nil⟩

/-- The longer name is the one that is resolved, in either listing. -/
theorem east_coast_resolved :
    (∃ t ∈ (resolveTerms sharpS regionsReversed "华东沿海".toList .exact).1,
        t.kind = .member ∧ t.machineId = "region.east_coast") ∧
      ¬ ∃ t ∈ (resolveTerms sharpS regionsReversed "华东沿海".toList .exact).1,
        t.kind = .member ∧ t.machineId = "region.east" := by
  have hids := ((member_mentions sharpS "华东沿海".toList regions .exact).2.2.1 regionsReversed regions_relisted).1
  rw [← hids, ← hids]
  decide +kernel

end DataNexus.Semantic
