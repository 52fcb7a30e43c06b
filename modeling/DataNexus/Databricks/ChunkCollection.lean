/-
  DataNexus.Databricks.ChunkCollection — what a collected result holds, whatever the
  service answers.

  A round reads one response; `readChunk_spec` says all it does to the chunk indexes: those
  of the response are new and distinct, and the next request is for the highest announced
  index not read yet, if there is one. Over the rounds of a collection that returns:
  - `visitsFrom_nodup`: no chunk index is noted twice. A chunk is handed over twice only by
    one response that has rows of its own beside a link of the same index (`count_consumed`).
  - `visitsFrom_announced`: an announced index was read, or asked for, or passed over for a
    higher one that the same response announced.
  A service that numbers its chunks, announces each one's successor and answers a request
  with the chunks from there on, however many links it puts into a response, has all its
  chunks collected in order (`collect_numbered`).
-/

import DataNexus.Databricks.ResultChunks

namespace DataNexus.Databricks

open Lib

/-! ## Reading values -/

theorem optionalInt_eq_ok {fields : Fields} {key : String} {value : Option Int}
    (h : optionalInt (get fields key) = .ok value) : intField fields key = value := by
  unfold intField
  cases hget : get fields key <;> simp_all [optionalInt]

theorem externalLinks_eq_ok {chunk : Fields} {links : List Json} (h : externalLinks chunk = .ok links) :
    linksOf chunk = links.filterMap Json.object? := by
  unfold externalLinks at h
  unfold linksOf
  cases hget : get chunk "external_links" <;> simp_all

theorem filterMap_cons_toList {α β : Type} (f : α → Option β) (x : α) (xs : List α) :
    (x :: xs).filterMap f = (f x).toList ++ xs.filterMap f := by
  cases hx : f x <;> simp [hx]

/-! ## One response -/

theorem fetchExternalLink_spec {codec : Codec} {server : Server} {round place : Nat} {link : Fields}
    {fetched : Bytes × Continuation} (h : fetchExternalLink codec server round place link = .ok fetched) :
    fetched.2.nextIndex = intField link "next_chunk_index" ∧
      fetched.2.sourceChunkIndex = intField link "chunk_index" := by
  simp only [fetchExternalLink, bind_eq_ok, pure_eq_ok] at h
  obtain ⟨_, _, _, _, _, _, payload, _, next, hnext, path, _, source, hsource, rfl⟩ := h
  exact ⟨(optionalInt_eq_ok hnext).symm, (optionalInt_eq_ok hsource).symm⟩

/-- What one link adds to what was gathered, as far as indexes go. -/
structure AddsLink (consumed : List Int) (link : Fields) (before after : Consumed) : Prop where
  indexes : after.chunkIndexes = before.chunkIndexes ++ (intField link "chunk_index").toList
  fresh : ∀ i ∈ intField link "chunk_index", i ∉ consumed ∧ i ∉ before.chunkIndexes
  announces : after.continuations.filterMap (·.nextIndex) =
    before.continuations.filterMap (·.nextIndex) ++ (intField link "next_chunk_index").toList

theorem addIndex_chunkIndexes (gathered : Consumed) (index : Option Int) :
    (gathered.addIndex index).chunkIndexes = gathered.chunkIndexes ++ index.toList := by
  cases index <;> simp [Consumed.addIndex]

theorem addIndex_continuations (gathered : Consumed) (index : Option Int) :
    (gathered.addIndex index).continuations = gathered.continuations := by
  cases index <;> rfl

theorem consumeLink_spec {codec : Codec} {server : Server} {format : ResultFormat} {round place : Nat}
    {consumed : List Int} {gathered after : Consumed} {json : Json}
    (h : consumeLink codec server format round consumed gathered (json, place) = .ok after) :
    ∃ link, json = .obj link ∧ AddsLink consumed link gathered after := by
  cases json with
  | obj link =>
    simp only [consumeLink, bind_eq_ok, refuseIf_eq_ok] at h
    obtain ⟨index, hindex, _, hfresh, fetched, hfetched, h⟩ := h
    obtain ⟨hnext, hsource⟩ := fetchExternalLink_spec hfetched
    have hindex := optionalInt_eq_ok hindex
    refine ⟨link, rfl, ?_⟩
    -- Both formats add the same indexes and continuations; only the data goes elsewhere.
    have hafter : after.chunkIndexes = (gathered.addIndex fetched.2.sourceChunkIndex).chunkIndexes ∧
        after.continuations = gathered.continuations ++ [fetched.2] := by
      split at h
      · simp only [bind_eq_ok, pure_eq_ok] at h
        obtain ⟨_, _, rfl⟩ := h
        exact ⟨rfl, by simp [addIndex_continuations]⟩
      · simp only [pure_eq_ok] at h
        subst h
        exact ⟨rfl, by simp [addIndex_continuations]⟩
    constructor
    · rw [hafter.1, addIndex_chunkIndexes, hsource]
    · intro i hi
      rw [hindex] at hi
      rw [Option.mem_def.mp hi] at hfresh
      simpa using hfresh
    · rw [hafter.2, List.filterMap_append, ← hnext]
      cases hn : fetched.2.nextIndex <;> simp [hn]
  | null | bool | int | number | str | arr => simp [consumeLink] at h

/-- The links of a response, by what they add to the indexes and the continuations. -/
theorem consumeLinks_spec {codec : Codec} {server : Server} {format : ResultFormat} {round : Nat}
    {consumed : List Int} {links : List (Json × Nat)} {before after : Consumed}
    (h : links.foldlM (consumeLink codec server format round consumed) before = .ok after)
    (hnodup : before.chunkIndexes.Nodup) (hdisjoint : ∀ i ∈ before.chunkIndexes, i ∉ consumed) :
    ∃ objects : List Fields, links.map (·.1) = objects.map Json.obj ∧
      after.chunkIndexes = before.chunkIndexes ++ objects.filterMap (intField · "chunk_index") ∧
      after.chunkIndexes.Nodup ∧ (∀ i ∈ after.chunkIndexes, i ∉ consumed) ∧
      after.continuations.filterMap (·.nextIndex) =
        before.continuations.filterMap (·.nextIndex) ++ objects.filterMap (intField · "next_chunk_index") := by
  induction links generalizing before with
  | nil =>
    have : before = after := by simpa using h
    subst this
    exact ⟨[], rfl, by simp, hnodup, hdisjoint, by simp⟩
  | cons x links ih =>
    obtain ⟨json, place⟩ := x
    rw [List.foldlM_cons, bind_eq_ok] at h
    obtain ⟨between, hx, h⟩ := h
    obtain ⟨link, rfl, hadds⟩ := consumeLink_spec hx
    have hfresh := hadds.fresh
    have hn : between.chunkIndexes.Nodup := by
      rw [hadds.indexes]
      cases hi : intField link "chunk_index" with
      | none => simpa using hnodup
      | some i =>
        simp only [Option.toList_some]
        exact List.nodup_append.mpr ⟨hnodup, List.nodup_singleton i,
          fun a ha b hb hab => (hfresh i hi).2 (by rw [← List.mem_singleton.mp hb, ← hab]; exact ha)⟩
    have hd : ∀ i ∈ between.chunkIndexes, i ∉ consumed := by
      intro i hi
      rw [hadds.indexes, List.mem_append] at hi
      rcases hi with hi | hi
      · exact hdisjoint i hi
      · exact (hfresh i (by simpa using hi)).1
    obtain ⟨objects, hobjects, hindexes, hnodup', hdisjoint', hannounced⟩ := ih h hn hd
    refine ⟨link :: objects, by simp [hobjects], ?_, hnodup', hdisjoint', ?_⟩
    · rw [hindexes, hadds.indexes, filterMap_cons_toList, List.append_assoc]
    · rw [hannounced, hadds.announces, filterMap_cons_toList, List.append_assoc]

theorem consumeChunk_spec {codec : Codec} {server : Server} {format : ResultFormat} {round : Nat}
    {consumed : List Int} {chunk : Fields} {result : Consumed}
    (h : consumeChunk codec server format round consumed chunk = .ok result) :
    result.chunkIndexes = (linksOf chunk).filterMap (intField · "chunk_index") ∧
      result.chunkIndexes.Nodup ∧ (∀ i ∈ result.chunkIndexes, i ∉ consumed) ∧
      result.continuations.filterMap (·.nextIndex) = (linksOf chunk).filterMap (intField · "next_chunk_index") := by
  simp only [consumeChunk, bind_eq_ok] at h
  obtain ⟨rows, _, links, hlinks, h⟩ := h
  obtain ⟨objects, hobjects, hindexes, hnodup, hdisjoint, hannounced⟩ := consumeLinks_spec h (by simp) (by simp)
  have hlinksOf : linksOf chunk = objects := by
    have : links = objects.map Json.obj := by simpa using hobjects
    rw [externalLinks_eq_ok hlinks, this, List.filterMap_map]
    simp [Function.comp_def, Json.object?]
  rw [hlinksOf]
  exact ⟨by simpa using hindexes, hnodup, hdisjoint, by simpa using hannounced⟩

/-! ## Where to go on -/

theorem mem_remaining_nextIndex {candidates : List Continuation} {consumed : List Int} {a : Int} :
    a ∈ (remaining candidates consumed).filterMap (·.nextIndex) ↔
      a ∈ candidates.filterMap (·.nextIndex) ∧ a ∉ consumed := by
  simp only [remaining, List.mem_filterMap, List.mem_filter]
  constructor
  · rintro ⟨c, ⟨hc, hall⟩, hn⟩
    rw [hn] at hall
    exact ⟨⟨c, hc, hn⟩, by simpa using hall⟩
  · rintro ⟨⟨c, hc, hn⟩, ha⟩
    exact ⟨c, ⟨hc, by rw [hn]; simpa using ha⟩, hn⟩

/-- What a request says about the announced indexes and the ones already read. -/
def Request.Follows (request : Request) (announced consumed : List Int) : Prop :=
  match request with
  | .chunk b => b ∈ announced ∧ b ∉ consumed ∧ ∀ a ∈ announced, a ∈ consumed ∨ a ≤ b
  | .path _ | .stop => ∀ a ∈ announced, a ∈ consumed

theorem selectContinuation_follows {result : Continuation} {external : List Continuation} {consumed : List Int}
    {next : Option Int × Option String} (h : selectContinuation result external consumed = .ok next) :
    (Request.of next).Follows ((result :: external).filterMap (·.nextIndex)) consumed := by
  simp only [selectContinuation] at h
  cases hmax : ((remaining (result :: external) consumed).filterMap (·.nextIndex)).max? with
  | none =>
    have hall : ∀ a ∈ (result :: external).filterMap (·.nextIndex), a ∈ consumed := by
      intro a ha
      by_contra hn
      have := mem_remaining_nextIndex.mpr ⟨ha, hn⟩
      rw [List.max?_eq_none_iff.mp hmax] at this
      cases this
    rw [hmax] at h
    cases h
    cases selectPath result external consumed <;> exact hall
  | some highest =>
    obtain ⟨path, rfl⟩ : ∃ path, next = (some highest, path) := by
      simp only [hmax] at h
      split at h
      · exact ⟨none, by cases h; rfl⟩
      · exact ⟨_, by cases h; rfl⟩
      · cases h
    obtain ⟨hmem, hle⟩ := List.max?_eq_some_iff.mp hmax
    rw [mem_remaining_nextIndex] at hmem
    refine ⟨hmem.1, hmem.2, ?_⟩
    intro a ha
    by_cases hc : a ∈ consumed
    · exact .inl hc
    · exact .inr (hle a (mem_remaining_nextIndex.mpr ⟨ha, hc⟩))

/-! ## One round -/

theorem mem_noteIndex {indexes : List Int} {index : Option Int} {i : Int} :
    i ∈ noteIndex indexes index ↔ i ∈ indexes ∨ index = some i := by
  cases index with
  | none => simp [noteIndex]
  | some j =>
    by_cases hj : j ∈ indexes
    · simp only [noteIndex, hj, if_true, Option.some.injEq]
      exact ⟨.inl, fun h => h.elim id fun h => h ▸ hj⟩
    · simp only [noteIndex, hj, if_false, List.mem_cons, Option.some.injEq]
      exact ⟨fun h => h.elim (fun h => .inr h.symm) .inl, fun h => h.elim .inr fun h => .inl h.symm⟩

theorem nodup_noteIndex {indexes : List Int} (h : indexes.Nodup) (index : Option Int) :
    (noteIndex indexes index).Nodup := by
  cases index with
  | none => exact h
  | some j =>
    by_cases hj : j ∈ indexes
    · simpa [noteIndex, hj] using h
    · simpa [noteIndex, hj] using h

/-- A round reads indexes that are new and distinct, and asks for the highest announced one
    that is left. -/
theorem readChunk_spec {codec : Codec} {server : Server} {config : ResolverConfig} {statementId : String}
    {format : ResultFormat} {round : Nat} {state state' : Collection} {current : Fields} {request : Request}
    (h : readChunk codec server config statementId format round state current = .ok (state', request)) :
    let visit : Visit := { response := current, request := request }
    visit.noted.Nodup ∧ (∀ i ∈ visit.noted, i ∉ state.seenChunks) ∧
      state'.seenChunks = state.seenChunks ++ visit.noted ∧
      request.Follows visit.announced state'.seenChunks := by
  simp only [readChunk, bind_eq_ok, refuseIf_eq_ok, pure_eq_ok, Prod.mk.injEq] at h
  obtain ⟨index, hindex, _, hcycle, chunk, hchunk, _, _, _, _, continuation, hcontinuation, next, hnext, rfl, rfl⟩ := h
  obtain ⟨hindexes, hnodup, hdisjoint, hannounced⟩ := consumeChunk_spec hchunk
  have hindex := optionalInt_eq_ok hindex
  intro visit
  have hnoted : visit.noted = noteIndex chunk.chunkIndexes index := by
    simp only [visit, Visit.noted, Visit.linked, hindexes, hindex]
  have hnextIndex : continuation.nextIndex = intField current "next_chunk_index" := by
    simp only [continuationOf, bind_eq_ok, pure_eq_ok] at hcontinuation
    obtain ⟨next, hn, path, _, rfl⟩ := hcontinuation
    exact (optionalInt_eq_ok hn).symm
  have hvisit : visit.announced = (continuation :: chunk.continuations).filterMap (·.nextIndex) := by
    simp only [visit, Visit.announced, List.filterMap_cons, hannounced, hnextIndex]
  refine ⟨?_, ?_, ?_, ?_⟩
  · rw [hnoted]
    exact nodup_noteIndex hnodup index
  · intro i hi
    rw [hnoted, mem_noteIndex] at hi
    rcases hi with hi | rfl
    · exact hdisjoint i hi
    · simpa using hcycle
  · rw [hnoted]
  · rw [hvisit]
    exact selectContinuation_follows hnext

/-! ## Every round -/

section Loop

variable {codec : Codec} {server : Server} {config : ResolverConfig} {statementId : String} {format : ResultFormat}

theorem visitsFrom_nodup (fuel round : Nat) (state : Collection) (current : Option Fields) :
    ((visitsFrom codec server config statementId format fuel round state current).flatMap Visit.noted).Nodup ∧
      ∀ i ∈ (visitsFrom codec server config statementId format fuel round state current).flatMap Visit.noted,
        i ∉ state.seenChunks := by
  induction fuel generalizing round state current with
  | zero => cases current <;> simp [visitsFrom]
  | succ fuel ih =>
    cases current with
    | none => simp [visitsFrom]
    | some current =>
      simp only [visitsFrom]
      cases hread : readChunk codec server config statementId format round state current with
      | error e => simp
      | ok next =>
        obtain ⟨state', request⟩ := next
        obtain ⟨hnodup, hfresh, hseen, _⟩ := readChunk_spec hread
        cases hanswer : answer codec server round request with
        | error e => simpa [hanswer] using ⟨hnodup, hfresh⟩
        | ok next =>
          obtain ⟨hn, hd⟩ := ih (round + 1) state' next
          simp only [hanswer, List.flatMap_cons]
          refine ⟨List.nodup_append.mpr ⟨hnodup, hn, ?_⟩, ?_⟩
          · rintro a ha b hb rfl
            apply hd a hb
            rw [hseen]
            exact List.mem_append_right _ ha
          · intro i hi
            rcases List.mem_append.mp hi with hi | hi
            · exact hfresh i hi
            · intro hs
              apply hd i hi
              rw [hseen]
              exact List.mem_append_left _ hs

/-- Every announced index was read before or is read in the collection, is asked for, or
    lies below one the same response announced and that is asked for. -/
theorem visitsFrom_announced (fuel round : Nat) (state : Collection) (current : Option Fields) :
    ∀ visit ∈ visitsFrom codec server config statementId format fuel round state current, ∀ a ∈ visit.announced,
      a ∈ state.seenChunks ∨
        a ∈ (visitsFrom codec server config statementId format fuel round state current).flatMap Visit.noted ∨
        visit.request = .chunk a ∨ ∃ b ∈ visit.announced, a < b ∧ visit.request = .chunk b := by
  induction fuel generalizing round state current with
  | zero => cases current <;> simp [visitsFrom]
  | succ fuel ih =>
    cases current with
    | none => simp [visitsFrom]
    | some current =>
      simp only [visitsFrom]
      cases hread : readChunk codec server config statementId format round state current with
      | error e => simp
      | ok next =>
        obtain ⟨state', request⟩ := next
        obtain ⟨_, _, hseen, hfollows⟩ := readChunk_spec hread
        intro visit hvisit a ha
        have hmem : ∀ i ∈ state'.seenChunks, i ∈ state.seenChunks ∨
            i ∈ ({ response := current, request := request } : Visit).noted := by
          intro i hi
          rwa [hseen, List.mem_append] at hi
        simp only [List.flatMap_cons, List.mem_append]
        rcases List.mem_cons.mp hvisit with rfl | hvisit
        · -- The round's own response: the request follows the highest index left.
          cases request with
          | chunk b =>
            obtain ⟨hb, _, hall⟩ := hfollows
            rcases hall a ha with hs | hle
            · exact (hmem a hs).imp id fun h => .inl (.inl h)
            · rcases lt_or_eq_of_le hle with hlt | rfl
              · exact .inr (.inr (.inr ⟨b, hb, hlt, rfl⟩))
              · exact .inr (.inr (.inl rfl))
          | path link => exact (hmem a (hfollows a ha)).imp id fun h => .inl (.inl h)
          | stop => exact (hmem a (hfollows a ha)).imp id fun h => .inl (.inl h)
        · -- A later response.
          cases hanswer : answer codec server round request with
          | error e => simp [hanswer] at hvisit
          | ok next =>
            simp only [hanswer] at hvisit ⊢
            rcases ih (round + 1) state' next visit hvisit a ha with h | h | h
            · exact (hmem a h).imp id fun h => .inl (.inl h)
            · exact .inr (.inl (.inr h))
            · exact .inr (.inr h)

end Loop

/-! ## Chunks handed over twice -/

/-- The index of a response that repeats it. -/
def Visit.repeated (visit : Visit) : List Int :=
  ((intField visit.response "chunk_index").filter fun index => visit.hasRows && index ∈ visit.linked).toList

theorem Visit.mem_repeated {visit : Visit} {i : Int} : i ∈ visit.repeated ↔ visit.Repeats i := by
  unfold Visit.repeated Visit.Repeats
  cases hown : intField visit.response "chunk_index" with
  | none => simp
  | some own =>
    simp only [Option.mem_toList, Option.filter_eq_some_iff, Option.some.injEq, Bool.and_eq_true, decide_eq_true_eq]
    constructor
    · rintro ⟨rfl, hrows, hlinked⟩
      exact ⟨hrows, rfl, hlinked⟩
    · rintro ⟨hrows, rfl, hlinked⟩
      exact ⟨rfl, hrows, hlinked⟩

/-- A response hands over what it notes, and once more the index it repeats. -/
theorem Visit.count_consumed (visit : Visit) (i : Int) :
    visit.consumed.count i = visit.noted.count i + visit.repeated.count i := by
  unfold Visit.consumed Visit.noted Visit.repeated
  cases hown : intField visit.response "chunk_index" with
  | none => simp [noteIndex]
  | some own =>
    by_cases hlinked : own ∈ visit.linked
    · cases hrows : visit.hasRows with
      | true => simp [noteIndex, hlinked, Option.filter]
      | false => simp [noteIndex, hlinked, Option.filter]
    · simp [noteIndex, hlinked, Option.filter, List.count_cons, List.count_append]

theorem Visit.repeated_sublist (visit : Visit) : visit.repeated.Sublist visit.noted := by
  unfold Visit.repeated
  cases hown : intField visit.response "chunk_index" with
  | none => simp
  | some own =>
    by_cases hrepeats : (visit.hasRows && decide (own ∈ visit.linked)) = true
    · have hmem : own ∈ visit.noted := mem_noteIndex.mpr (.inr hown)
      simpa [Option.filter, hrepeats] using hmem
    · simp [Option.filter, hrepeats]

theorem Visit.mem_consumed {visit : Visit} {i : Int} : i ∈ visit.consumed ↔ i ∈ visit.noted := by
  rw [← List.count_pos_iff, ← List.count_pos_iff, visit.count_consumed]
  have hle := visit.repeated_sublist.count_le i
  omega

theorem mem_flatMap_consumed {visits : List Visit} {i : Int} :
    i ∈ visits.flatMap Visit.consumed ↔ i ∈ visits.flatMap Visit.noted := by
  simp only [List.mem_flatMap, Visit.mem_consumed]

theorem count_flatMap_consumed (visits : List Visit) (i : Int) :
    (visits.flatMap Visit.consumed).count i =
      (visits.flatMap Visit.noted).count i + (visits.flatMap Visit.repeated).count i := by
  induction visits with
  | nil => rfl
  | cons visit visits ih =>
    simp only [List.flatMap_cons, List.count_append, ih, visit.count_consumed]
    omega

theorem flatMap_repeated_sublist (visits : List Visit) :
    (visits.flatMap Visit.repeated).Sublist (visits.flatMap Visit.noted) := by
  induction visits with
  | nil => exact .slnil
  | cons visit visits ih =>
    rw [List.flatMap_cons, List.flatMap_cons]
    exact visit.repeated_sublist.append ih

/-- Where no index is noted twice, a chunk is handed over twice at the most, and that just
    by a response that repeats its index. -/
theorem count_consumed {visits : List Visit} (hnoted : (visits.flatMap Visit.noted).Nodup) (i : Int) :
    (visits.flatMap Visit.consumed).count i ≤ 2 ∧
      ((visits.flatMap Visit.consumed).count i = 2 ↔ ∃ visit ∈ visits, visit.Repeats i) := by
  have honce : (visits.flatMap Visit.noted).count i ≤ 1 := List.nodup_iff_count_le_one.mp hnoted i
  have hle := (flatMap_repeated_sublist visits).count_le i
  have hrepeats : 0 < (visits.flatMap Visit.repeated).count i ↔ ∃ visit ∈ visits, visit.Repeats i := by
    simp only [List.count_pos_iff, List.mem_flatMap, Visit.mem_repeated]
  rw [count_flatMap_consumed, ← hrepeats]
  omega

/-! ## A service that numbers its chunks -/

/-- What one chunk adds to a result. -/
structure ChunkContent where
  rows : List Row
  payloads : List Bytes
  byteCount : Nat

/-- The rows of the `count` chunks from `first` on, and likewise their payloads and sizes. -/
def rowsOf (content : Nat → ChunkContent) (first count : Nat) : List Row :=
  (List.range' first count).flatMap fun k => (content k).rows

def payloadsOf (content : Nat → ChunkContent) (first count : Nat) : List Bytes :=
  (List.range' first count).flatMap fun k => (content k).payloads

def bytesOf (content : Nat → ChunkContent) (first count : Nat) : Nat :=
  ((List.range' first count).map fun k => (content k).byteCount).sum

/-- A service with `n` chunks: what each holds, and a path under which each may be asked
    for besides its index. -/
structure Numbering where
  n : Nat
  content : Nat → ChunkContent
  path : Nat → String

/-- A response or a link names the chunk after chunk `k`, and none after the last. -/
def Numbering.Announces (numbering : Numbering) (k : Nat) (fields : Fields) : Prop :=
  if k + 1 < numbering.n then
    get fields "next_chunk_index" = .int ((k + 1 : Nat) : Int) ∧
      (get fields "next_chunk_internal_link" = .null ∨
        get fields "next_chunk_internal_link" = .str (numbering.path (k + 1)))
  else get fields "next_chunk_index" = .null ∧ get fields "next_chunk_internal_link" = .null

/-- An external link to chunk `k`, whose download is the chunk's content. -/
structure Numbering.ServesLink (numbering : Numbering) (codec : Codec) (server : Server) (format : ResultFormat)
    (k : Nat) (link : Fields) : Prop where
  index : get link "chunk_index" = .int (k : Int)
  announces : numbering.Announces k link
  data : ∃ url headers payload, linkUrl codec link = .ok url ∧ linkHeaders link = .ok headers ∧
    (headers.any fun header => header.1.toLower = "authorization") = false ∧
    (∀ round place, server.download round place url headers = .ok payload) ∧
    payload.length = (numbering.content k).byteCount ∧
    if format = .jsonArray then
      decodeExternalJson codec payload = .ok (numbering.content k).rows ∧ (numbering.content k).payloads = []
    else (numbering.content k).rows = [] ∧ (numbering.content k).payloads = [payload]

def Numbering.ServesLinks (numbering : Numbering) (codec : Codec) (server : Server) (format : ResultFormat) :
    Nat → List Fields → Prop
  | _, [] => True
  | k, link :: rest =>
    numbering.ServesLink codec server format k link ∧ numbering.ServesLinks codec server format (k + 1) rest

/-- A response that hands over the `count` chunks from `first` on: one chunk's rows inline,
    or external links to any number of consecutive chunks. Over links the response may repeat
    the index and the successor of one of its chunks. -/
inductive Numbering.Serves (numbering : Numbering) (codec : Codec) (server : Server) (format : ResultFormat)
    (first count : Nat) (response : Fields) : Prop
  | inline (hcount : count = 1) (hindex : get response "chunk_index" = .int (first : Int))
      (hlinks : get response "external_links" = .null)
      (hrows : parseRows (get response "data_array") = .ok (numbering.content first).rows)
      (hpayloads : (numbering.content first).payloads = [])
      (hbytes : (numbering.content first).byteCount = dumpedRows (numbering.content first).rows)
      (hannounces : numbering.Announces first response)
  | external (links : List Fields) (hcount : links.length = count) (hpos : 0 < count)
      (hdata : get response "data_array" = .null)
      (hlinks : get response "external_links" = .arr (links.map .obj))
      (hserves : numbering.ServesLinks codec server format first links)
      (hindex : get response "chunk_index" = .null ∨
        ∃ k : Nat, (first ≤ k ∧ k < first + count) ∧ get response "chunk_index" = .int (k : Int))
      (hannounces : (get response "next_chunk_index" = .null ∧ get response "next_chunk_internal_link" = .null) ∨
        ∃ k : Nat, (first ≤ k ∧ k < first + count) ∧ numbering.Announces k response)

/-- The service answers a request for a chunk with chunks from there on. -/
structure Numbering.ServedBy (numbering : Numbering) (codec : Codec) (server : Server) (format : ResultFormat)
    (result : Option Fields) : Prop where
  empty : numbering.n = 0 → result = none
  first : 0 < numbering.n → ∃ response count, result = some response ∧ count ≤ numbering.n ∧
    numbering.Serves codec server format 0 count response
  answers : ∀ round i, i < numbering.n → ∃ response count, server.getChunk round (i : Int) = .ok response ∧
    i + count ≤ numbering.n ∧ numbering.Serves codec server format i count response

section Numbered

variable {numbering : Numbering} {codec : Codec} {server : Server} {config : ResolverConfig} {statementId : String}
  {format : ResultFormat}

theorem rowsOf_add (content : Nat → ChunkContent) (first a b : Nat) :
    rowsOf content first (a + b) = rowsOf content first a ++ rowsOf content (first + a) b := by
  simp only [rowsOf, ← List.range'_append_1, List.flatMap_append]

theorem payloadsOf_add (content : Nat → ChunkContent) (first a b : Nat) :
    payloadsOf content first (a + b) = payloadsOf content first a ++ payloadsOf content (first + a) b := by
  simp only [payloadsOf, ← List.range'_append_1, List.flatMap_append]

theorem bytesOf_add (content : Nat → ChunkContent) (first a b : Nat) :
    bytesOf content first (a + b) = bytesOf content first a + bytesOf content (first + a) b := by
  simp only [bytesOf, ← List.range'_append_1, List.map_append, List.sum_append]

/-- The continuation read off a response or link that announces chunk `k`'s successor. -/
def Numbering.Continues (numbering : Numbering) (k : Nat) (c : Continuation) : Prop :=
  if k + 1 < numbering.n then
    c.nextIndex = some ((k + 1 : Nat) : Int) ∧
      (c.internalLink = none ∨ c.internalLink = some (numbering.path (k + 1)))
  else c.nextIndex = none ∧ c.internalLink = none

/-- Fields that announce chunk `k`'s successor are read without an error. -/
theorem Numbering.Announces.read {k : Nat} {fields : Fields} (h : numbering.Announces k fields) :
    ∃ next path, optionalInt (get fields "next_chunk_index") = .ok next ∧
      optionalStr (get fields "next_chunk_internal_link") = .ok path ∧
      ∀ source, numbering.Continues k { nextIndex := next, internalLink := path, sourceChunkIndex := source } := by
  unfold Numbering.Announces at h
  unfold Numbering.Continues
  by_cases hk : k + 1 < numbering.n
  · simp only [hk, if_true] at h ⊢
    obtain ⟨hnext, hpath | hpath⟩ := h
    · exact ⟨_, _, by rw [hnext]; rfl, by rw [hpath]; rfl, fun _ => ⟨rfl, .inl rfl⟩⟩
    · exact ⟨_, _, by rw [hnext]; rfl, by rw [hpath]; rfl, fun _ => ⟨rfl, .inr rfl⟩⟩
  · simp only [hk, if_false] at h ⊢
    exact ⟨_, _, by rw [h.1]; rfl, by rw [h.2]; rfl, fun _ => ⟨rfl, rfl⟩⟩

/-- What was gathered, and the `count` chunks from `first` on after it. -/
def Consumed.extend (gathered : Consumed) (content : Nat → ChunkContent) (first count : Nat)
    (continuations : List Continuation) : Consumed where
  rows := gathered.rows ++ rowsOf content first count
  payloads := gathered.payloads ++ payloadsOf content first count
  byteCount := gathered.byteCount + bytesOf content first count
  chunkIndexes := gathered.chunkIndexes ++ (List.range' first count).map Int.ofNat
  continuations := gathered.continuations ++ continuations

theorem extend_extend (gathered : Consumed) (content : Nat → ChunkContent) (first a b : Nat)
    (cs ds : List Continuation) :
    (gathered.extend content first a cs).extend content (first + a) b ds =
      gathered.extend content first (a + b) (cs ++ ds) := by
  simp only [Consumed.extend, rowsOf_add, payloadsOf_add, bytesOf_add, ← List.range'_append_1, List.map_append,
    List.append_assoc, Nat.add_assoc]

theorem extend_one (gathered : Consumed) (content : Nat → ChunkContent) (k : Nat) (c : Continuation) :
    gathered.extend content k 1 [c] =
      { rows := gathered.rows ++ (content k).rows, payloads := gathered.payloads ++ (content k).payloads,
        byteCount := gathered.byteCount + (content k).byteCount, chunkIndexes := gathered.chunkIndexes ++ [(k : Int)],
        continuations := gathered.continuations ++ [c] } := by
  simp [Consumed.extend, rowsOf, payloadsOf, bytesOf]

theorem consumeLink_serves {k : Nat} (round place : Nat) {consumed : List Int} {link : Fields} {before : Consumed}
    (h : numbering.ServesLink codec server format k link) (hconsumed : (k : Int) ∉ consumed)
    (hindexes : (k : Int) ∉ before.chunkIndexes) :
    ∃ c, numbering.Continues k c ∧ consumeLink codec server format round consumed before (.obj link, place) =
      .ok (before.extend numbering.content k 1 [c]) := by
  obtain ⟨url, headers, payload, hurl, hheaders, hauth, hdownload, hlength, hdata⟩ := h.data
  obtain ⟨next, path, hnext, hpath, hcontinues⟩ := h.announces.read
  have hindex : optionalInt (get link "chunk_index") = .ok (some (k : Int)) := by rw [h.index]; rfl
  refine ⟨_, hcontinues (some (k : Int)), ?_⟩
  have hfetch : fetchExternalLink codec server round place link =
      .ok (payload, { nextIndex := next, internalLink := path, sourceChunkIndex := some (k : Int) }) := by
    simp only [fetchExternalLink, bind_eq_ok, refuseIf_eq_ok, pure_eq_ok]
    exact ⟨url, hurl, headers, hheaders, (), hauth, payload, hdownload _ _, next, hnext, path, hpath, _, hindex, rfl⟩
  have hfresh : ((some (k : Int)).any fun index => index ∈ consumed || index ∈ before.chunkIndexes) = false := by
    simp [hconsumed, hindexes]
  rw [extend_one]
  simp only [consumeLink, bind_eq_ok, refuseIf_eq_ok]
  refine ⟨_, hindex, (), hfresh, _, hfetch, ?_⟩
  by_cases hf : format = .jsonArray
  · simp only [hf, if_true] at hdata ⊢
    simp only [bind_eq_ok, pure_eq_ok]
    exact ⟨_, hdata.1, by simp [Consumed.addIndex, hdata.2, hlength]⟩
  · simp only [hf, if_false] at hdata ⊢
    simp [Consumed.addIndex, hdata.1, hdata.2, hlength, pure, Except.pure]

/-- All links of a response, each read for its chunk. -/
theorem consumeLinks_serves {links : List Fields} {k : Nat} (round place : Nat) {consumed : List Int}
    {before : Consumed} (h : numbering.ServesLinks codec server format k links)
    (hconsumed : ∀ i ∈ consumed, i < (k : Int)) (hindexes : ∀ i ∈ before.chunkIndexes, i < (k : Int)) :
    ∃ continuations,
      (∀ c ∈ continuations, ∃ i : Nat, (k ≤ i ∧ i < k + links.length) ∧ numbering.Continues i c) ∧
      (0 < links.length → ∃ c ∈ continuations, numbering.Continues (k + links.length - 1) c) ∧
      ((links.map Json.obj).zipIdx place).foldlM (consumeLink codec server format round consumed) before =
        .ok (before.extend numbering.content k links.length continuations) := by
  induction links generalizing k place before with
  | nil => exact ⟨[], by simp, by simp, by simp [Consumed.extend, rowsOf, payloadsOf, bytesOf, pure, Except.pure]⟩
  | cons link links ih =>
    obtain ⟨hlink, hrest⟩ := h
    have hk : (k : Int) ∉ consumed := fun hk => lt_irrefl _ (hconsumed _ hk)
    have hk' : (k : Int) ∉ before.chunkIndexes := fun hk => lt_irrefl _ (hindexes _ hk)
    obtain ⟨c, hc, hstep⟩ := consumeLink_serves round place hlink hk hk'
    have hconsumed' : ∀ i ∈ consumed, i < ((k + 1 : Nat) : Int) := by
      intro i hi
      have := hconsumed i hi
      omega
    have hindexes' : ∀ i ∈ (before.extend numbering.content k 1 [c]).chunkIndexes, i < ((k + 1 : Nat) : Int) := by
      intro i hi
      rw [extend_one] at hi
      rcases List.mem_append.mp hi with hi | hi
      · have := hindexes i hi
        omega
      · rw [List.mem_singleton.mp hi]
        omega
    obtain ⟨continuations, hall, hlast, hfold⟩ := ih (place + 1) hrest hconsumed' hindexes'
    refine ⟨c :: continuations, ?_, ?_, ?_⟩
    · intro d hd
      rcases List.mem_cons.mp hd with rfl | hd
      · exact ⟨k, by simp, hc⟩
      · obtain ⟨i, hi, hcont⟩ := hall d hd
        exact ⟨i, by simp only [List.length_cons]; omega, hcont⟩
    · intro _
      by_cases hlinks : 0 < links.length
      · obtain ⟨d, hd, hcont⟩ := hlast hlinks
        refine ⟨d, List.mem_cons_of_mem _ hd, ?_⟩
        rwa [show k + (link :: links).length - 1 = k + 1 + links.length - 1 by simp only [List.length_cons]; omega]
      · refine ⟨c, List.mem_cons_self, ?_⟩
        rwa [show k + (link :: links).length - 1 = k by simp only [List.length_cons]; omega]
    · rw [List.map_cons, List.zipIdx_cons, List.foldlM_cons, bind_eq_ok]
      refine ⟨_, hstep, ?_⟩
      rw [hfold, extend_extend, List.length_cons, Nat.add_comm 1, List.singleton_append]

/-- A response read to the content of the `count` chunks from `first` on: its own index and
    every continuation name its chunks, and one continuation is that of the last. -/
structure Numbering.Reads (numbering : Numbering) (first count : Nat) (index : Option Int) (chunk : Consumed)
    (continuation : Continuation) : Prop where
  rows : chunk.rows = rowsOf numbering.content first count
  payloads : chunk.payloads = payloadsOf numbering.content first count
  bytes : chunk.byteCount = bytesOf numbering.content first count
  index_mem : ∀ i ∈ index, ∃ k : Nat, (first ≤ k ∧ k < first + count) ∧ i = k
  noted : ∀ k : Nat, first ≤ k ∧ k < first + count → (k : Int) ∈ noteIndex chunk.chunkIndexes index
  bounded : ∀ i ∈ noteIndex chunk.chunkIndexes index, i < ((first + count : Nat) : Int)
  continues : ∀ c ∈ continuation :: chunk.continuations, (c.nextIndex = none ∧ c.internalLink = none) ∨
    ∃ k : Nat, (first ≤ k ∧ k < first + count) ∧ numbering.Continues k c
  last : ∃ c ∈ continuation :: chunk.continuations, numbering.Continues (first + count - 1) c

theorem Numbering.Serves.pos {first count : Nat} {response : Fields}
    (h : numbering.Serves codec server format first count response) : 0 < count := by
  cases h <;> omega

theorem Numbering.Serves.consume {first count : Nat} (round : Nat) {consumed : List Int} {response : Fields}
    (h : numbering.Serves codec server format first count response)
    (hconsumed : ∀ i ∈ consumed, i < (first : Int)) :
    ∃ index chunk continuation, optionalInt (get response "chunk_index") = .ok index ∧
      consumeChunk codec server format round consumed response = .ok chunk ∧
      continuationOf response index = .ok continuation ∧ numbering.Reads first count index chunk continuation := by
  cases h with
  | inline hcount hindex hlinks hrows hpayloads hbytes hannounces =>
    subst hcount
    obtain ⟨next, path, hnext, hpath, hcontinues⟩ := hannounces.read
    refine ⟨some (first : Int),
      { rows := (numbering.content first).rows, payloads := []
        byteCount := dumpedRows (numbering.content first).rows, chunkIndexes := [], continuations := [] },
      { nextIndex := next, internalLink := path, sourceChunkIndex := some (first : Int) },
      by rw [hindex]; rfl, ?_, ?_, ?_⟩
    · simp only [consumeChunk, bind_eq_ok]
      exact ⟨_, hrows, [], by simp [externalLinks, hlinks], by simp [pure, Except.pure]⟩
    · simp only [continuationOf, bind_eq_ok, pure_eq_ok]
      exact ⟨next, hnext, path, hpath, rfl⟩
    · have hnote : noteIndex [] (some (first : Int)) = [(first : Int)] := by simp [noteIndex]
      constructor
      · simp [rowsOf]
      · simp [payloadsOf, hpayloads]
      · simp [bytesOf, hbytes]
      · intro i hi
        exact ⟨first, by omega, (Option.mem_some_iff.mp hi).symm⟩
      · intro k hk
        rw [hnote, List.mem_singleton]
        omega
      · intro i hi
        rw [hnote, List.mem_singleton] at hi
        omega
      · intro c hc
        rw [List.mem_singleton.mp hc]
        exact .inr ⟨first, by omega, hcontinues _⟩
      · exact ⟨_, List.mem_cons_self, hcontinues _⟩
  | external links hcount hpos hdata hlinks hserves hindex hannounces =>
    subst hcount
    let before : Consumed := { rows := [], payloads := [], byteCount := 0, chunkIndexes := [], continuations := [] }
    have hbefore : ∀ i ∈ before.chunkIndexes, i < (first : Int) := by simp [before]
    obtain ⟨continuations, hall, hlast, hfold⟩ := consumeLinks_serves round 0 hserves hconsumed hbefore
    obtain ⟨index, hread, hmem⟩ : ∃ index, optionalInt (get response "chunk_index") = .ok index ∧
        ∀ i ∈ index, ∃ k : Nat, (first ≤ k ∧ k < first + links.length) ∧ i = k := by
      rcases hindex with hindex | ⟨k, hk, hindex⟩
      · exact ⟨none, by rw [hindex]; rfl, by simp⟩
      · exact ⟨some (k : Int), by rw [hindex]; rfl, fun i hi => ⟨k, hk, (Option.mem_some_iff.mp hi).symm⟩⟩
    obtain ⟨continuation, hcontinuation, hcont⟩ : ∃ continuation, continuationOf response index = .ok continuation ∧
        ((continuation.nextIndex = none ∧ continuation.internalLink = none) ∨
          ∃ k : Nat, (first ≤ k ∧ k < first + links.length) ∧ numbering.Continues k continuation) := by
      simp only [continuationOf, bind_eq_ok, pure_eq_ok]
      rcases hannounces with ⟨hnext, hpath⟩ | ⟨k, hk, hannounces⟩
      · exact ⟨_, ⟨none, by rw [hnext]; rfl, none, by rw [hpath]; rfl, rfl⟩, .inl ⟨rfl, rfl⟩⟩
      · obtain ⟨next, path, hnext, hpath, hcontinues⟩ := hannounces.read
        exact ⟨_, ⟨next, hnext, path, hpath, rfl⟩, .inr ⟨k, hk, hcontinues _⟩⟩
    refine ⟨index, before.extend numbering.content first links.length continuations, continuation, hread, ?_,
      hcontinuation, ?_⟩
    · simp only [consumeChunk, bind_eq_ok]
      exact ⟨[], by rw [hdata]; rfl, links.map Json.obj, by simp [externalLinks, hlinks], hfold⟩
    · have hindexes : (before.extend numbering.content first links.length continuations).chunkIndexes =
          (List.range' first links.length).map Int.ofNat := by simp [Consumed.extend, before]
      constructor
      · simp [Consumed.extend, before]
      · simp [Consumed.extend, before]
      · simp [Consumed.extend, before]
      · exact hmem
      · intro k hk
        rw [mem_noteIndex, hindexes]
        exact .inl (List.mem_map.mpr ⟨k, by rw [List.mem_range'_1]; exact hk, rfl⟩)
      · intro i hi
        rw [mem_noteIndex, hindexes] at hi
        rcases hi with hi | rfl
        · obtain ⟨k, hk, rfl⟩ := List.mem_map.mp hi
          rw [List.mem_range'_1] at hk
          show (k : Int) < _
          omega
        · obtain ⟨k, hk, rfl⟩ := hmem i rfl
          omega
      · intro c hc
        rcases List.mem_cons.mp hc with rfl | hc
        · exact hcont
        · exact .inr (hall c (by simpa [Consumed.extend, before] using hc))
      · obtain ⟨c, hc, hcontinues⟩ := hlast hpos
        exact ⟨c, List.mem_cons_of_mem _ (by simpa [Consumed.extend, before] using hc), hcontinues⟩

/-- Distinct values that are all the same are at most one. -/
theorem length_le_one_of_nodup {α : Type} {xs : List α} {x : α} (hnodup : xs.Nodup) (h : ∀ y ∈ xs, y = x) :
    xs = [] ∨ xs = [x] := by
  cases xs with
  | nil => exact .inl rfl
  | cons y ys =>
    right
    obtain rfl := h y List.mem_cons_self
    cases ys with
    | nil => rfl
    | cons z zs =>
      obtain rfl := h z (by simp)
      simp at hnodup

section

variable {first count : Nat} {index : Option Int} {chunk : Consumed} {continuation : Continuation} {seen : List Int}

/-- What a response adds stays below the chunk after its last. -/
theorem Numbering.Reads.below (h : numbering.Reads first count index chunk continuation) (hseen : ∀ i ∈ seen, i < (first : Int)) :
    ∀ i ∈ seen ++ noteIndex chunk.chunkIndexes index, i < ((first + count : Nat) : Int) := by
  intro i hi
  rcases List.mem_append.mp hi with hi | hi
  · have := hseen i hi
    omega
  · exact h.bounded i hi

/-- A candidate that is left announces the chunk after the response's last, or nothing. -/
theorem Numbering.Reads.left (h : numbering.Reads first count index chunk continuation) (seen : List Int) :
    ∀ c ∈ remaining (continuation :: chunk.continuations) (seen ++ noteIndex chunk.chunkIndexes index),
      (c.nextIndex = none ∧ c.internalLink = none) ∨
        (first + count < numbering.n ∧ c.nextIndex = some ((first + count : Nat) : Int) ∧
          (c.internalLink = none ∨ c.internalLink = some (numbering.path (first + count)))) := by
  set consumed := seen ++ noteIndex chunk.chunkIndexes index
  intro c hc
  obtain ⟨hc, hall⟩ := List.mem_filter.mp hc
  rcases h.continues c hc with hnone | ⟨k, hk, hcontinues⟩
  · exact .inl hnone
  unfold Numbering.Continues at hcontinues
  by_cases hk' : k + 1 < numbering.n
  · simp only [hk', if_true] at hcontinues
    rw [hcontinues.1] at hall
    have hnew : ((k + 1 : Nat) : Int) ∉ consumed := by simpa using hall
    have hlast : k + 1 = first + count := by
      by_contra hne
      exact hnew (List.mem_append_right _ (h.noted (k + 1) (by omega)))
    rw [hlast] at hcontinues hk'
    exact .inr ⟨hk', hcontinues⟩
  · simp only [hk', if_false] at hcontinues
    exact .inl hcontinues

theorem Numbering.Reads.select_next (h : numbering.Reads first count index chunk continuation) (hpos : 0 < count)
    (hseen : ∀ i ∈ seen, i < (first : Int)) (hn : first + count < numbering.n) :
    ∃ next, selectContinuation continuation chunk.continuations (seen ++ noteIndex chunk.chunkIndexes index) = .ok next ∧
      Request.of next = .chunk ((first + count : Nat) : Int) := by
  have hleft := h.left seen
  have hbelow := h.below hseen
  set consumed := seen ++ noteIndex chunk.chunkIndexes index
  have hmax : ((remaining (continuation :: chunk.continuations) consumed).filterMap (·.nextIndex)).max? =
      some ((first + count : Nat) : Int) := by
    rw [List.max?_eq_some_iff]
    constructor
    · obtain ⟨c, hc, hcontinues⟩ := h.last
      unfold Numbering.Continues at hcontinues
      rw [show first + count - 1 + 1 = first + count by omega] at hcontinues
      simp only [hn, if_true] at hcontinues
      rw [mem_remaining_nextIndex]
      exact ⟨List.mem_filterMap.mpr ⟨c, hc, hcontinues.1⟩, fun hm => lt_irrefl _ (hbelow _ hm)⟩
    · intro i hi
      obtain ⟨c, hc, hi⟩ := List.mem_filterMap.mp hi
      rcases hleft c hc with ⟨hnone, _⟩ | ⟨_, hsome, _⟩
      · rw [hnone] at hi
        cases hi
      · rw [hsome] at hi
        exact le_of_eq (Option.some.inj hi).symm
  have hpaths : ∀ path ∈ pathsTo ((first + count : Nat) : Int) (remaining (continuation :: chunk.continuations) consumed),
      path = numbering.path (first + count) := by
    intro path hp
    obtain ⟨c, hc, hpath⟩ := List.mem_filterMap.mp (List.mem_dedup.mp hp)
    rcases hleft c (List.mem_filter.mp hc).1 with ⟨_, hnone⟩ | ⟨_, _, hnone | hsome⟩
    · rw [hnone] at hpath
      cases hpath
    · rw [hnone] at hpath
      cases hpath
    · rw [hsome] at hpath
      exact (Option.some.inj hpath).symm
  have hnodup : (pathsTo ((first + count : Nat) : Int)
      (remaining (continuation :: chunk.continuations) consumed)).Nodup := List.nodup_dedup _
  simp only [selectContinuation, hmax]
  rcases length_le_one_of_nodup hnodup hpaths with hp | hp <;> rw [hp] <;> exact ⟨_, rfl, rfl⟩

theorem Numbering.Reads.select_end (h : numbering.Reads first count index chunk continuation)
    (hn : ¬ first + count < numbering.n) :
    ∃ next, selectContinuation continuation chunk.continuations (seen ++ noteIndex chunk.chunkIndexes index) = .ok next ∧
      Request.of next = .stop := by
  have hleft := h.left seen
  set consumed := seen ++ noteIndex chunk.chunkIndexes index
  have hnone : ∀ c ∈ remaining (continuation :: chunk.continuations) consumed,
      c.nextIndex = none ∧ c.internalLink = none := by
    intro c hc
    rcases hleft c hc with hnone | ⟨hlt, _⟩
    · exact hnone
    · exact absurd hlt hn
  have hmax : ((remaining (continuation :: chunk.continuations) consumed).filterMap (·.nextIndex)).max? = none := by
    rw [List.max?_eq_none_iff, List.filterMap_eq_nil_iff]
    exact fun c hc => (hnone c hc).1
  have hpath : selectPath continuation chunk.continuations consumed = none := by
    unfold selectPath
    by_cases hc : continuation.nextIndex.all (· ∉ consumed) ∧ continuation.internalLink.isSome
    · have := (hnone continuation (List.mem_filter.mpr ⟨List.mem_cons_self, hc.1⟩)).2
      rw [this] at hc
      cases hc.2
    · rw [if_neg hc]
      have : (remaining chunk.continuations consumed).filter (·.internalLink.isSome) = [] := by
        rw [List.filter_eq_nil_iff]
        intro c hc
        have hc' := List.mem_filter.mp hc
        rw [(hnone c (List.mem_filter.mpr ⟨List.mem_cons_of_mem _ hc'.1, hc'.2⟩)).2]
        simp
      rw [this]
  simp only [selectContinuation, hmax, hpath]
  exact ⟨_, rfl, rfl⟩

/-- After a numbered response the loop goes on with the chunk after its last, and stops
    after the last of all. -/
theorem Numbering.Reads.select (h : numbering.Reads first count index chunk continuation) (hpos : 0 < count)
    (hseen : ∀ i ∈ seen, i < (first : Int)) :
    ∃ next, selectContinuation continuation chunk.continuations (seen ++ noteIndex chunk.chunkIndexes index) =
        .ok next ∧
      Request.of next = if first + count < numbering.n then .chunk ((first + count : Nat) : Int) else .stop := by
  by_cases hn : first + count < numbering.n
  · rw [if_pos hn]
    exact h.select_next hpos hseen hn
  · rw [if_neg hn]
    exact h.select_end hn

end

/-- A round over a numbered response, up to the deadline and the limits. -/
theorem readChunk_serves (config : ResolverConfig) (statementId : String) {first count : Nat} (round : Nat)
    {state : Collection} {response : Fields}
    (h : numbering.Serves codec server format first count response)
    (hseen : ∀ i ∈ state.seenChunks, i < (first : Int)) :
    ∃ state' : Collection, (∀ i ∈ state'.seenChunks, i < ((first + count : Nat) : Int)) ∧
      state'.rows = state.rows ++ rowsOf numbering.content first count ∧
      state'.payloads = state.payloads ++ payloadsOf numbering.content first count ∧
      state'.byteCount = state.byteCount + bytesOf numbering.content first count ∧
      readChunk codec server config statementId format round state response = (do
        refuseIf (server.late round) (.statementTimeout statementId)
        refuseIf (config.rowLimit < state'.rows.length || config.byteLimit < state'.byteCount)
          (.resultLimitExceeded "Downloaded result exceeds the configured boundary")
        pure (state', if first + count < numbering.n then .chunk ((first + count : Nat) : Int) else .stop)) := by
  obtain ⟨index, chunk, continuation, hindex, hchunk, hcontinuation, hreads⟩ := h.consume round hseen
  obtain ⟨next, hnext, hrequest⟩ := hreads.select h.pos hseen
  have hcycle : (index.any fun i => decide (i ∈ state.seenChunks)) = false := by
    cases index with
    | none => rfl
    | some i =>
      obtain ⟨k, hk, rfl⟩ := hreads.index_mem i rfl
      have : (k : Int) ∉ state.seenChunks := by
        intro hm
        have := hseen _ hm
        omega
      simpa using this
  refine ⟨{ rows := state.rows ++ chunk.rows, payloads := state.payloads ++ chunk.payloads
            byteCount := state.byteCount + chunk.byteCount
            seenChunks := state.seenChunks ++ noteIndex chunk.chunkIndexes index }, ?_, ?_, ?_, ?_, ?_⟩
  · intro i hi
    rcases List.mem_append.mp hi with hi | hi
    · have := hseen i hi
      omega
    · exact hreads.bounded i hi
  · exact congrArg _ hreads.rows
  · exact congrArg _ hreads.payloads
  · exact congrArg _ hreads.bytes
  · simp only [readChunk, hindex, hcycle, hchunk, hcontinuation, hnext, hrequest, refuseIf, bind, Except.bind,
      Bool.false_eq_true, if_false]

/-- A collection that returns from a numbered service holds the chunks that were left. -/
theorem collect_serves {result : Option Fields} (hserver : numbering.ServedBy codec server format result)
    (fuel round : Nat) {first count : Nat} {state state' : Collection} {response : Fields}
    (hserves : numbering.Serves codec server format first count response) (hle : first + count ≤ numbering.n)
    (hseen : ∀ i ∈ state.seenChunks, i < (first : Int))
    (h : collect codec server config statementId format fuel round state (some response) = .returned state') :
    state'.rows = state.rows ++ rowsOf numbering.content first (numbering.n - first) ∧
      state'.payloads = state.payloads ++ payloadsOf numbering.content first (numbering.n - first) := by
  induction fuel generalizing round first count state response with
  | zero => cases h
  | succ fuel ih =>
    obtain ⟨next, hseen', hrows, hpayloads, _, hread⟩ :=
      readChunk_serves config statementId round hserves hseen
    simp only [collect, hread] at h
    split at h
    · cases h
    · rename_i state'' request hok
      simp only [bind_eq_ok, refuseIf_eq_ok, pure_eq_ok, Prod.mk.injEq] at hok
      obtain ⟨_, _, _, _, rfl, rfl⟩ := hok
      have hsplit : numbering.n - first = count + (numbering.n - (first + count)) := by omega
      rw [hsplit, rowsOf_add, payloadsOf_add, ← List.append_assoc, ← List.append_assoc, ← hrows, ← hpayloads]
      by_cases hn : first + count < numbering.n
      · obtain ⟨response', count', hget, hle', hserves'⟩ := hserver.answers round _ hn
        simp only [hn, if_true, answer, hget, Functor.map, Except.map] at h
        exact ih (round + 1) hserves' hle' hseen' h
      · have hzero : numbering.n - (first + count) = 0 := by omega
        simp only [hn, if_false, answer, collect, Collected.returned.injEq] at h
        subst h
        simp [hzero, rowsOf, payloadsOf]

/-- Within the limits and before the deadline the collection does return, after at most one
    round for each chunk. -/
theorem collect_serves_returns {result : Option Fields} (hserver : numbering.ServedBy codec server format result)
    (hlate : ∀ round, server.late round = false) (fuel round : Nat) {first count : Nat} {state : Collection}
    {response : Fields} (hserves : numbering.Serves codec server format first count response)
    (hle : first + count ≤ numbering.n) (hseen : ∀ i ∈ state.seenChunks, i < (first : Int))
    (hrows : (state.rows ++ rowsOf numbering.content first (numbering.n - first)).length ≤ config.rowLimit)
    (hbytes : state.byteCount + bytesOf numbering.content first (numbering.n - first) ≤ config.byteLimit)
    (hfuel : numbering.n - first ≤ fuel) :
    ∃ state', collect codec server config statementId format fuel round state (some response) = .returned state' := by
  induction fuel generalizing round first count state response with
  | zero =>
    have := hserves.pos
    omega
  | succ fuel ih =>
    obtain ⟨next, hseen', hrows', _, hbytes', hread⟩ :=
      readChunk_serves config statementId round hserves hseen
    have hsplit : numbering.n - first = count + (numbering.n - (first + count)) := by omega
    rw [hsplit, rowsOf_add, ← List.append_assoc, ← hrows'] at hrows
    rw [hsplit, bytesOf_add, ← Nat.add_assoc, ← hbytes'] at hbytes
    have hlimit : (decide (config.rowLimit < next.rows.length) || decide (config.byteLimit < next.byteCount)) = false := by
      rw [List.length_append] at hrows
      simp only [Bool.or_eq_false_iff, decide_eq_false_iff_not]
      omega
    simp only [collect, hread, hlate, hlimit, refuseIf, bind, Except.bind, pure, Except.pure, Bool.false_eq_true,
      if_false]
    by_cases hn : first + count < numbering.n
    · obtain ⟨response', count', hget, hle', hserves'⟩ := hserver.answers round _ hn
      simp only [hn, if_true, answer, hget, Functor.map, Except.map]
      have := hserves.pos
      exact ih (round + 1) hserves' hle' hseen' hrows hbytes (by omega)
    · simp only [hn, if_false, answer, collect]
      exact ⟨_, rfl⟩

end Numbered

/-! ## A whole result -/

theorem collectResult_eq_returned {codec : Codec} {server : Server} {config : ResolverConfig}
    {response : StatementResponse} {fuel : Nat} {result : StatementExecutionResult}
    (h : collectResult codec server config response fuel = .returned result) :
    ∃ manifest state, response.manifest = some manifest ∧
      collect codec server config response.statementId manifest.resultFormat fuel 0 .empty response.result =
        .returned state ∧
      result.rows = state.rows ∧ result.payloads = state.payloads := by
  unfold collectResult at h
  cases hmanifest : response.manifest with
  | none => simp [hmanifest] at h
  | some manifest =>
    simp only [hmanifest] at h
    split at h
    · cases h
    · split at h
      · cases h
      · cases h
      · rename_i state hcollect
        cases h
        exact ⟨manifest, state, rfl, hcollect, rfl, rfl⟩

/-- The chunks a numbered service holds are the result, in their order. -/
theorem collect_numbered {codec : Codec} {server : Server} {config : ResolverConfig} {statementId : String}
    {format : ResultFormat} {numbering : Numbering} {fuel : Nat} {result : Option Fields} {state : Collection}
    (hserved : numbering.ServedBy codec server format result)
    (h : collect codec server config statementId format fuel 0 .empty result = .returned state) :
    state.rows = rowsOf numbering.content 0 numbering.n ∧
      state.payloads = payloadsOf numbering.content 0 numbering.n := by
  by_cases hn : numbering.n = 0
  · rw [hserved.empty hn] at h
    simp only [collect, Collected.returned.injEq] at h
    subst h
    simp [Collection.empty, hn, rowsOf, payloadsOf]
  · obtain ⟨response, count, rfl, hle, hserves⟩ := hserved.first (by omega)
    have hseen : ∀ i ∈ Collection.empty.seenChunks, i < ((0 : Nat) : Int) := by simp [Collection.empty]
    simpa [Collection.empty] using collect_serves hserved fuel 0 hserves (by omega) hseen h

/-- And it is returned, once the limits allow the whole result and the deadline is not
    reached. -/
theorem collectResult_returns {codec : Codec} {server : Server} {config : ResolverConfig}
    {response : StatementResponse} {fuel : Nat} {manifest : ResultManifest} {numbering : Numbering}
    (hmanifest : response.manifest = some manifest) (htruncated : manifest.truncated = false)
    (hserved : numbering.ServedBy codec server manifest.resultFormat response.result)
    (hlate : ∀ round, server.late round = false)
    (hrows : (rowsOf numbering.content 0 numbering.n).length ≤ config.rowLimit)
    (hbytes : bytesOf numbering.content 0 numbering.n ≤ config.byteLimit) (hfuel : numbering.n ≤ fuel) :
    ∃ result, collectResult codec server config response fuel = .returned result := by
  obtain ⟨state, hstate⟩ : ∃ state, collect codec server config response.statementId manifest.resultFormat fuel 0
      .empty response.result = .returned state := by
    by_cases hn : numbering.n = 0
    · rw [hserved.empty hn]
      exact ⟨.empty, by simp only [collect]⟩
    · obtain ⟨first, count, hresult, hle, hserves⟩ := hserved.first (by omega)
      rw [hresult]
      have hseen : ∀ i ∈ Collection.empty.seenChunks, i < ((0 : Nat) : Int) := by simp [Collection.empty]
      exact collect_serves_returns hserved hlate fuel 0 hserves (by omega) hseen (by simpa [Collection.empty] using hrows)
        (by simpa [Collection.empty] using hbytes) (by omega)
  simp only [collectResult, hmanifest, htruncated, hstate, Bool.false_eq_true, if_false]
  exact ⟨_, rfl⟩

/-- Whatever the service answers, a collection that returns has consumed no chunk index more
    than once, or than twice where one response has rows under it beside a link to it; and
    every announced index it has not read was asked for or passed over for a higher one of
    the same response. From a service that numbers its chunks it returns all of them in
    their order, however it groups the links. -/
theorem collectResult_complete (codec : Codec) (server : Server) (config : ResolverConfig)
    (response : StatementResponse) (fuel : Nat) :
    (∀ result, collectResult codec server config response fuel = .returned result →
      (∀ i, ((visits codec server config response fuel).flatMap Visit.consumed).count i ≤ 2 ∧
        (((visits codec server config response fuel).flatMap Visit.consumed).count i = 2 ↔
          ∃ visit ∈ visits codec server config response fuel, visit.Repeats i)) ∧
      ∀ visit ∈ visits codec server config response fuel, ∀ a ∈ visit.announced,
        a ∈ (visits codec server config response fuel).flatMap Visit.consumed ∨ visit.request = .chunk a ∨
          ∃ b ∈ visit.announced, a < b ∧ visit.request = .chunk b) ∧
    ∀ (manifest : ResultManifest) (numbering : Numbering), response.manifest = some manifest →
      numbering.ServedBy codec server manifest.resultFormat response.result →
      (∀ result, collectResult codec server config response fuel = .returned result →
        result.rows = rowsOf numbering.content 0 numbering.n ∧
          result.payloads = payloadsOf numbering.content 0 numbering.n) ∧
      (manifest.truncated = false → (∀ round, server.late round = false) →
        (rowsOf numbering.content 0 numbering.n).length ≤ config.rowLimit →
        bytesOf numbering.content 0 numbering.n ≤ config.byteLimit → numbering.n ≤ fuel →
        ∃ result, collectResult codec server config response fuel = .returned result) := by
  constructor
  · intro result h
    obtain ⟨manifest, state, hmanifest, _, _, _⟩ := collectResult_eq_returned h
    simp only [visits, hmanifest]
    refine ⟨count_consumed (visitsFrom_nodup _ _ _ _).1, ?_⟩
    intro visit hvisit a ha
    rw [mem_flatMap_consumed]
    rcases visitsFrom_announced _ _ _ _ visit hvisit a ha with hseen | h
    · simp [Collection.empty] at hseen
    · exact h
  · intro manifest numbering hmanifest hserved
    constructor
    · intro result h
      obtain ⟨manifest', state, hmanifest', hcollect, hrows, hpayloads⟩ := collectResult_eq_returned h
      obtain rfl : manifest' = manifest := Option.some.inj (hmanifest'.symm.trans hmanifest)
      rw [hrows, hpayloads]
      exact collect_numbered hserved hcollect
    · intro htruncated hlate hrows hbytes hfuel
      exact collectResult_returns hmanifest htruncated hserved hlate hrows hbytes hfuel

/-! ## A service with three chunks, and one that leaves a gap -/

def sampleManifest : ResultManifest := { columns := [], resultFormat := .jsonArray, truncated := false }

/-- Decodes `[["0"]]` and `[["1"]]`; every URL it is asked about is one of the result host. -/
def sampleCodec : Codec where
  loads payload :=
    if payload = [91, 91, 34, 48, 34, 93, 93] then some (.arr [.arr [.str "0"]])
    else if payload = [91, 91, 34, 49, 34, 93, 93] then some (.arr [.arr [.str "1"]])
    else none
  urlsplit _ := { scheme := "https", netloc := "results.example.invalid", path := "/chunk", query := "" }

def sampleLink (index : Int) (url : String) (next : Int) : Fields :=
  [("chunk_index", .int index), ("external_link", .str url), ("next_chunk_index", .int next)]

def linkedResponse (links : List Fields) : StatementResponse where
  statementId := "statement-test"
  manifest := some sampleManifest
  result := some [("chunk_index", .int 0), ("external_links", .arr (links.map .obj))]

def inlineChunk (index : Int) (text : String) (next : Json) : Fields :=
  [("chunk_index", .int index), ("data_array", .arr [.arr [.str text]]), ("next_chunk_index", next)]

def sampleServer : Server where
  getChunk _ index :=
    if index = 0 then .ok (inlineChunk 0 "0" (.int 1))
    else if index = 1 then .ok (inlineChunk 1 "1" (.int 2))
    else .ok (inlineChunk index "2" .null)
  getPath _ _ := .error (.transport "not served")
  download _ _ url _ :=
    if url = "https://results.example.invalid/0" then .ok [91, 91, 34, 48, 34, 93, 93]
    else .ok [91, 91, 34, 49, 34, 93, 93]
  late _ := false

/-- Chunks 0 and 1 as links of the first response; chunk 2 has to be asked for. -/
def groupedLinks : List Fields :=
  [sampleLink 0 "https://results.example.invalid/0" 1, sampleLink 1 "https://results.example.invalid/1" 2]

/-- The first response links chunks 0 and 2 and announces 1 and 3. -/
def gapLinks : List Fields :=
  [sampleLink 0 "https://results.example.invalid/0" 1, sampleLink 2 "https://results.example.invalid/1" 3]

def sampleConfig : ResolverConfig := { rowLimit := 10, byteLimit := 1000 }

/-- Chunk 1 is announced and the collection returns without it: the client goes on with the
    highest announced index, 3. -/
theorem gap_dropped :
    collectResult sampleCodec sampleServer sampleConfig (linkedResponse gapLinks) 2 =
        .returned { statementId := "statement-test", columns := [], rows := [[some "0"], [some "1"], [some "2"]],
                    payloads := [], resultFormat := .jsonArray } ∧
      1 ∈ (visits sampleCodec sampleServer sampleConfig (linkedResponse gapLinks) 2).flatMap Visit.announced ∧
      1 ∉ (visits sampleCodec sampleServer sampleConfig (linkedResponse gapLinks) 2).flatMap Visit.consumed := by
  refine ⟨by decide +kernel, by decide +kernel, by decide +kernel⟩

/-- One response holds chunk 0 as rows and as a link. -/
def doubledResponse : StatementResponse where
  statementId := "statement-test"
  manifest := some sampleManifest
  result := some (("data_array", .arr [.arr [.str "0"]]) :: ("chunk_index", .int 0) ::
    [("external_links", .arr [.obj [("chunk_index", .int 0), ("external_link", .str "https://results.example.invalid/0")]])])

/-- The duplicate check of a link looks at earlier responses and at the links before it, not
    at the response's own index: chunk 0 is returned twice. -/
theorem doubled_returned :
    collectResult sampleCodec sampleServer sampleConfig doubledResponse 1 =
        .returned { statementId := "statement-test", columns := [], rows := [[some "0"], [some "0"]], payloads := []
                    resultFormat := .jsonArray } ∧
      (visits sampleCodec sampleServer sampleConfig doubledResponse 1).flatMap Visit.consumed = [0, 0] := by
  refine ⟨by decide +kernel, by decide +kernel⟩

def sampleNumbering : Numbering where
  n := 3
  content k := { rows := [[some (if k = 0 then "0" else if k = 1 then "1" else "2")]], payloads := [], byteCount := 7 }
  path _ := ""

theorem inlineChunk_serves (k : Nat) (text : String) (next : Json)
    (hrows : (sampleNumbering.content k).rows = [[some text]]) (hbytes : dumpedRows [[some text]] = 7)
    (hnext : next = if k + 1 < sampleNumbering.n then .int ((k + 1 : Nat) : Int) else .null) :
    sampleNumbering.Serves sampleCodec sampleServer .jsonArray k 1 (inlineChunk k text next) := by
  refine .inline rfl rfl rfl (by rw [hrows]; rfl) rfl (by rw [hrows, hbytes]; rfl) ?_
  subst hnext
  unfold Numbering.Announces
  by_cases hk : k + 1 < sampleNumbering.n
  · rw [if_pos hk, if_pos hk]
    exact ⟨rfl, .inl rfl⟩
  · rw [if_neg hk, if_neg hk]
    exact ⟨rfl, rfl⟩

theorem sampleLink_serves (k : Nat) (url : String) (payload : Bytes) (hk : k + 1 < sampleNumbering.n)
    (hdownload : ∀ round place, sampleServer.download round place url [] = .ok payload) (hlength : payload.length = 7)
    (hdecode : decodeExternalJson sampleCodec payload = .ok (sampleNumbering.content k).rows) :
    sampleNumbering.ServesLink sampleCodec sampleServer .jsonArray k (sampleLink k url ((k + 1 : Nat) : Int)) := by
  have hlower : "https".toLower = "https" := by decide +kernel
  refine ⟨rfl, ?_, url, [], payload, if_pos hlower, rfl, rfl, hdownload, hlength, hdecode, rfl⟩
  unfold Numbering.Announces
  rw [if_pos hk]
  exact ⟨rfl, .inl rfl⟩

theorem sample_served :
    sampleNumbering.ServedBy sampleCodec sampleServer .jsonArray (linkedResponse groupedLinks).result := by
  constructor
  · intro h
    cases h
  · intro _
    refine ⟨_, 2, rfl, by decide, ?_⟩
    have h0 := sampleLink_serves 0 "https://results.example.invalid/0" _ (by decide) (fun _ _ => rfl) rfl rfl
    have h1 := sampleLink_serves 1 "https://results.example.invalid/1" _ (by decide) (fun _ _ => rfl) rfl rfl
    exact .external groupedLinks rfl (by omega) rfl rfl ⟨h0, h1, trivial⟩ (.inr ⟨0, by omega, rfl⟩) (.inl ⟨rfl, rfl⟩)
  · intro round i hi
    have hn : sampleNumbering.n = 3 := rfl
    rw [hn] at hi
    interval_cases i
    · exact ⟨_, 1, rfl, by decide, inlineChunk_serves 0 "0" _ rfl (by decide) rfl⟩
    · exact ⟨_, 1, rfl, by decide, inlineChunk_serves 1 "1" _ rfl (by decide) rfl⟩
    · exact ⟨_, 1, rfl, by decide, inlineChunk_serves 2 "2" _ rfl (by decide) rfl⟩

theorem grouped_collected : ∃ result,
    collectResult sampleCodec sampleServer sampleConfig (linkedResponse groupedLinks) 3 = .returned result ∧
      result.rows = [[some "0"], [some "1"], [some "2"]] := by
  obtain ⟨hrows, hreturns⟩ := (collectResult_complete sampleCodec sampleServer sampleConfig (linkedResponse groupedLinks) 3).2
    sampleManifest sampleNumbering rfl sample_served
  obtain ⟨result, hresult⟩ := hreturns rfl (fun _ => rfl) (by decide) (by decide) (by decide)
  exact ⟨result, hresult, (hrows result hresult).1⟩

end DataNexus.Databricks
