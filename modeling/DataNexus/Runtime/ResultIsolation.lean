/-
  DataNexus.Runtime.ResultIsolation — what a result store hands out, over every interleaving
  of commits, their threads and their cleanups.

  `Slot.Ok` is the invariant of one Parquet commit and its two directories: a commit that
  waits has its temporary directory, with what the thread has written so far, and no final
  one; a commit that returned has the whole directory at its final path; every other commit
  has nothing there. Each step is one of a single slot (`write_ok`, `resume_ok`, `cancel_ok`,
  `clean_ok`), and the paths of different commits are different (`slot_store_ne`), so `Inv`
  holds in every state of a run (`run_inv`). `readGroups_flatten` is the loop that cuts a
  page out of the row groups.
-/

import DataNexus.Runtime.ResultStore
import DataNexus.Lib.Outcome

namespace DataNexus.Runtime.ResultStore

open Lib

variable {S R : Type} {p : Platform S R}

/-! ## Paths -/

variable (p) in
/-- The path hash is injective on ids. -/
def InjectiveDigest : Prop :=
  ∀ a b, isSafeId a = true → isSafeId b = true → p.digest a = p.digest b → a = b

theorem encode_inj (hp : InjectiveDigest p) {a b : String} (ha : isSafeId a = true) (hb : isSafeId b = true)
    (h : p.encodePathComponent a = p.encodePathComponent b) : a = b := by
  apply hp a b ha hb
  simpa [Platform.encodePathComponent] using h

theorem tmp_ne_id (a b : String) : ".tmp-" ++ a ≠ "id-" ++ b := by
  intro h
  have := congrArg (fun s => s.toList.head?) h
  simp [String.toList_append] at this

theorem temporaryPath_inj {r n i r' n' i' : String}
    (h : p.temporaryPath r n i = p.temporaryPath r' n' i') : i = i' := by
  simp only [Platform.temporaryPath, List.cons.injEq] at h
  simpa using h.2.2.1

theorem finalPath_inj (hp : InjectiveDigest p) {r n i r' n' i' : String} (hr : isSafeId r = true)
    (hn : isSafeId n = true) (hi : isSafeId i = true) (hr' : isSafeId r' = true) (hn' : isSafeId n' = true)
    (hi' : isSafeId i' = true) (h : p.finalPath r n i = p.finalPath r' n' i') : r = r' ∧ n = n' ∧ i = i' := by
  simp only [Platform.finalPath, List.cons.injEq, and_true] at h
  exact ⟨encode_inj hp hr hr' h.1, encode_inj hp hn hn' h.2.1, encode_inj hp hi hi' h.2.2⟩

theorem temporaryPath_ne_finalPath (r n i r' n' i' : String) : p.temporaryPath r n i ≠ p.finalPath r' n' i' := by
  intro h
  simp only [Platform.temporaryPath, Platform.finalPath, List.cons.injEq] at h
  exact tmp_ne_id i _ h.2.2.1

/-! ## One commit -/

variable (p) in
/-- A manifest names its commit's own handle and its one part. -/
structure ManifestOk (resultId : String) (commit : Commit S R) (manifest : CommittedManifest S) : Prop where
  result : manifest.result = p.parquetHandle commit.runId commit.nodeId resultId
  parts : ∃ bytes, manifest.parts = [⟨partName, commit.table.rows.length, bytes⟩]

variable (p) in
/-- The part and the manifest of a finished write. -/
structure Complete (resultId : String) (commit : Commit S R) (manifest : CommittedManifest S) (dir : Dir S R) :
    Prop where
  part : dir partName = some (.parquet (p.written commit.table))
  file : dir manifestName = some (.manifest manifest)
  ok : ManifestOk p resultId commit manifest

variable (p) in
/-- What the thread has left in the temporary directory. -/
def WriterOk (resultId : String) (commit : Commit S R) (dir : Dir S R) : Prop :=
  match commit.writer with
  | .running 0 => True
  | .running _ => dir partName = some (.parquet (p.written commit.table))
  | .done manifest => Complete p resultId commit manifest dir
  | .failed => True

variable (p) in
structure Slot.Ok (resultId : String) (slot : Slot S R) : Prop where
  writing : slot.commit.phase = .writing → slot.commit.cleanup = .none ∧
    ∃ dir, slot.temporary = some dir ∧ WriterOk p resultId slot.commit dir
  returned : ∀ manifest, slot.commit.phase = .returned manifest →
    ∃ dir, slot.final = some dir ∧ Complete p resultId slot.commit manifest dir ∧ (dir markerName).isSome
  unpublished : (∀ manifest, slot.commit.phase ≠ .returned manifest) → slot.final = none
  raised : slot.commit.phase = .raised true → slot.temporary = none
  cleaned : slot.commit.cleanup = .finished → slot.temporary = none
  cleaning : slot.commit.cleanup ≠ .none → slot.commit.phase = .cancelled

theorem markerName_ne : partName ≠ markerName ∧ manifestName ≠ markerName ∧ partName ≠ manifestName := by
  decide

theorem Complete.update_marker {resultId : String} {commit : Commit S R} {manifest : CommittedManifest S}
    {dir : Dir S R} (h : Complete p resultId commit manifest dir) (content : Content S R) :
    Complete p resultId commit manifest (Function.update dir markerName (some content)) := by
  refine ⟨?_, ?_, h.ok⟩
  · rw [Function.update_of_ne markerName_ne.1]
    exact h.part
  · rw [Function.update_of_ne markerName_ne.2.1]
    exact h.file

theorem cancelled_ok {resultId : String} {slot : Slot S R} (h : slot.Ok p resultId)
    (hw : slot.commit.phase = .writing) : slot.cancelled.Ok p resultId := by
  constructor
  · intro hp
    cases hp
  · intro manifest hp
    cases hp
  · intro _
    exact h.unpublished fun manifest hp => by rw [hw] at hp; cases hp
  · intro hp
    cases hp
  · intro hc
    cases hc
  · intro _
    rfl

theorem raised_ok {resultId : String} {slot : Slot S R} (h : slot.Ok p resultId)
    (hw : slot.commit.phase = .writing) (leftover : Option (Dir S R)) : (slot.raised leftover).Ok p resultId := by
  have hfinal : slot.final = none := h.unpublished fun manifest hp => by rw [hw] at hp; cases hp
  have hnone := (h.writing hw).1
  unfold Slot.raised
  cases ht : slot.temporary with
  | none =>
    constructor
    · intro hp
      cases hp
    · intro manifest hp
      cases hp
    · intro _
      exact hfinal
    · intro _
      rfl
    · intro _
      rfl
    · intro hc
      exact absurd hnone hc
  | some dir =>
    constructor
    · intro hp
      cases hp
    · intro manifest hp
      cases hp
    · intro _
      exact hfinal
    · intro hp
      simp only [Phase.raised.injEq] at hp
      simpa using hp
    · intro hc
      simp [hnone] at hc
    · intro hc
      exact absurd hnone hc

theorem resume_ok {resultId : String} {slot : Slot S R} (h : slot.Ok p resultId)
    (cancelSet markerFails renameFails : Bool) (leftover : Option (Dir S R)) :
    (slot.resume cancelSet markerFails renameFails leftover).Ok p resultId := by
  unfold Slot.resume
  split
  · next manifest hphase hwriter =>
    unfold Slot.publish
    by_cases hcancel : cancelSet = true
    · rw [if_pos hcancel]
      exact cancelled_ok h hphase
    rw [if_neg hcancel]
    by_cases hmarker : markerFails = true
    · rw [if_pos hmarker]
      exact raised_ok h hphase leftover
    rw [if_neg hmarker]
    split
    · next dir ht hf =>
      by_cases hrename : renameFails = true
      · rw [if_pos hrename]
        exact raised_ok h hphase leftover
      rw [if_neg hrename]
      -- The directory the thread completed is renamed with the marker in it.
      obtain ⟨hnone, dir', ht', hok⟩ := h.writing hphase
      obtain rfl : dir = dir' := Option.some.inj (ht.symm.trans ht')
      unfold WriterOk at hok
      rw [hwriter] at hok
      constructor
      · intro hp
        cases hp
      · intro m hp
        simp only [Phase.returned.injEq] at hp
        subst hp
        refine ⟨_, rfl, ⟨?_, ?_, ?_⟩, by simp⟩
        · exact (hok.update_marker .marker).part
        · exact (hok.update_marker .marker).file
        · exact ⟨hok.ok.result, hok.ok.parts⟩
      · intro hne
        exact absurd rfl (hne manifest)
      · intro hp
        cases hp
      · intro _
        rfl
      · intro hc
        exact absurd hnone hc
    · exact raised_ok h hphase leftover
  · next hphase hwriter => exact raised_ok h hphase leftover
  · exact h

theorem cancel_ok {resultId : String} {slot : Slot S R} (h : slot.Ok p resultId) : slot.cancel.Ok p resultId := by
  unfold Slot.cancel
  split
  · next hphase => exact cancelled_ok h hphase
  · exact h

/-- The thread touches the temporary directory and nothing else of the commit. -/
theorem ok_of_writer {resultId : String} {slot : Slot S R} (h : slot.Ok p resultId) {writer : Writer S}
    {temporary : Option (Dir S R)} (hnone : slot.temporary = none → temporary = none)
    (hwriter : slot.commit.phase = .writing → ∃ dir, temporary = some dir ∧
      WriterOk p resultId { slot.commit with writer := writer } dir) :
    Slot.Ok p resultId
      { slot with temporary := temporary, commit := { slot.commit with writer := writer } } := by
  constructor
  · intro hp
    exact ⟨(h.writing hp).1, hwriter hp⟩
  · intro manifest hp
    obtain ⟨dir, hfinal, hcomplete, hmarker⟩ := h.returned manifest hp
    exact ⟨dir, hfinal, ⟨hcomplete.part, hcomplete.file, hcomplete.ok.result, hcomplete.ok.parts⟩, hmarker⟩
  · exact h.unpublished
  · intro hp
    exact hnone (h.raised hp)
  · intro hc
    exact hnone (h.cleaned hc)
  · exact h.cleaning

theorem write_ok {resultId : String} {slot : Slot S R} (h : slot.Ok p resultId) (fails : Bool) (now : Int) :
    (p.write resultId slot fails now).Ok p resultId := by
  unfold Platform.write
  split
  · next dir hwriter ht =>
    by_cases hf : fails = true
    · rw [if_pos hf]
      exact ok_of_writer h (fun hn => by rw [ht] at hn; cases hn) fun _ => ⟨_, rfl, trivial⟩
    · rw [if_neg hf]
      refine ok_of_writer h (fun hn => by rw [ht] at hn; cases hn) fun _ => ⟨_, rfl, ?_⟩
      show Function.update dir partName _ partName = _
      rw [Function.update_self]
  · next k dir hk hwriter ht =>
    by_cases hf : fails = true
    · rw [if_pos hf]
      exact ok_of_writer h (fun hn => by rw [ht] at hn; cases hn) fun _ => ⟨_, rfl, trivial⟩
    · rw [if_neg hf]
      refine ok_of_writer h (fun hn => by rw [ht] at hn; cases hn) fun hw => ⟨_, rfl, ?_⟩
      obtain ⟨-, dir', ht', hok⟩ := h.writing hw
      obtain rfl : dir = dir' := Option.some.inj (ht.symm.trans ht')
      have hpart : dir partName = some (.parquet (p.written slot.commit.table)) := by
        cases k with
        | zero => exact absurd rfl hk
        | succ k =>
          unfold WriterOk at hok
          rw [hwriter] at hok
          exact hok
      refine ⟨?_, ?_, ⟨rfl, _, rfl⟩⟩
      · rw [Function.update_of_ne markerName_ne.2.2]
        exact hpart
      · rw [Function.update_self]
  · next k hwriter ht =>
    have hsame : ({ slot with commit := { slot.commit with writer := .failed } } : Slot S R) =
        { slot with temporary := slot.temporary, commit := { slot.commit with writer := .failed } } := rfl
    rw [hsame]
    refine ok_of_writer h (fun hn => hn) fun hw => ?_
    obtain ⟨-, dir, ht', -⟩ := h.writing hw
    exact ⟨dir, ht', trivial⟩
  · exact h

/-- A cleanup step: only the directory and the cleanup itself change. -/
theorem ok_of_cleanup {resultId : String} {slot : Slot S R} (h : slot.Ok p resultId)
    (hcleaning : slot.commit.cleanup ≠ .none) {cleanup : Cleanup} (temporary : Option (Dir S R))
    (hcleaned : cleanup = .finished → temporary = none) :
    Slot.Ok p resultId { slot.withCleanup cleanup with temporary := temporary } := by
  have hphase := h.cleaning hcleaning
  constructor
  · intro hp
    rw [show ({ slot.withCleanup cleanup with temporary := temporary } : Slot S R).commit.phase = slot.commit.phase from rfl,
      hphase] at hp
    cases hp
  · intro manifest hp
    obtain ⟨dir, hfinal, hcomplete, hmarker⟩ := h.returned manifest hp
    exact ⟨dir, hfinal, ⟨hcomplete.part, hcomplete.file, hcomplete.ok.result, hcomplete.ok.parts⟩, hmarker⟩
  · exact h.unpublished
  · intro hp
    rw [show ({ slot.withCleanup cleanup with temporary := temporary } : Slot S R).commit.phase = slot.commit.phase from rfl,
      hphase] at hp
    cases hp
  · exact hcleaned
  · intro _
    exact hphase

theorem clean_ok {resultId : String} {slot : Slot S R} (h : slot.Ok p resultId) (leftover : Option (Dir S R)) :
    (slot.clean leftover).Ok p resultId := by
  unfold Slot.clean
  split
  · exact h
  · next writer hcleanup _ =>
    refine ok_of_cleanup h (by rw [hcleanup]; simp) slot.temporary ?_
    intro hfinished
    by_cases ht : slot.temporary.isSome = true
    · rw [if_pos ht] at hfinished
      cases hfinished
    · simpa using ht
  · next attempts writer hcleanup _ =>
    have hne : slot.commit.cleanup ≠ .none := by rw [hcleanup]; simp
    split
    · next ht => exact ok_of_cleanup h hne slot.temporary fun _ => ht
    · exact ok_of_cleanup h hne none fun _ => rfl
    · next dir ht =>
      refine ok_of_cleanup h hne (some dir) ?_
      intro hfinished
      split at hfinished <;> cases hfinished
  · exact h

/-! ## Every commit -/

variable (p) in
/-- An inline commit is over at once: what it returned is in the store. -/
structure InlineOk (s : State S R) (resultId : String) (commit : Commit S R) : Prop where
  returned : ∀ manifest, commit.phase = .returned manifest →
    manifest.result = Platform.inlineHandle commit.runId commit.nodeId resultId ∧
      s.inlineManifests resultId = some manifest ∧ s.inlineTables resultId = some commit.table
  settled : commit.cleanup = .none ∧ commit.phase ≠ .raised true ∧ commit.phase ≠ .writing

variable (p) in
structure Inv (s : State S R) : Prop where
  safe : ∀ i commit, s.commits i = some commit →
    isSafeId commit.runId = true ∧ isSafeId commit.nodeId = true ∧ isSafeId i = true
  parquet : ∀ i commit, s.commits i = some commit → commit.storage = .parquet → (p.slot s i commit).Ok p i
  inline : ∀ i commit, s.commits i = some commit → commit.storage = .inline → InlineOk s i commit
  manifests : ∀ i manifest, s.inlineManifests i = some manifest →
    ∃ commit, s.commits i = some commit ∧ commit.storage = .inline ∧ commit.phase = .returned manifest
  owned : ∀ path dir, s.dirs path = some dir → ∃ i commit, s.commits i = some commit ∧ commit.storage = .parquet ∧
    (path = p.temporaryPath commit.runId commit.nodeId i ∨ path = p.finalPath commit.runId commit.nodeId i)

theorem empty_inv : Inv p (State.empty : State S R) := by
  constructor
  · intro i commit h
    cases h
  · intro i commit h
    cases h
  · intro i commit h
    cases h
  · intro i manifest h
    cases h
  · intro path dir h
    cases h

/-! ## A step of one slot -/

theorem slot_store {s : State S R} {i : String} (slot : Slot S R) :
    p.slot (p.store s i slot) i slot.commit = slot := by
  unfold Platform.slot Platform.store
  simp only [Function.update_self]
  rw [Function.update_of_ne (temporaryPath_ne_finalPath _ _ _ _ _ _), Function.update_self]

/-- Two commits share no path. -/
theorem slot_store_ne (hp : InjectiveDigest p) {s : State S R} {i j : String} (hij : j ≠ i) {slot : Slot S R}
    {commit : Commit S R}
    (hi : isSafeId slot.commit.runId = true ∧ isSafeId slot.commit.nodeId = true ∧ isSafeId i = true)
    (hj : isSafeId commit.runId = true ∧ isSafeId commit.nodeId = true ∧ isSafeId j = true) :
    p.slot (p.store s i slot) j commit = p.slot s j commit := by
  unfold Platform.slot Platform.store
  simp only
  rw [Function.update_of_ne (temporaryPath_ne_finalPath _ _ _ _ _ _),
    Function.update_of_ne (fun h => hij (temporaryPath_inj h)),
    Function.update_of_ne (fun h => hij (finalPath_inj hp hj.1 hj.2.1 hj.2.2 hi.1 hi.2.1 hi.2.2 h).2.2),
    Function.update_of_ne (temporaryPath_ne_finalPath _ _ _ _ _ _).symm]

/-- Storing the slot of a commit: a new one, or one that is about the same. -/
theorem store_inv (hp : InjectiveDigest p) {s : State S R} (h : Inv p s) {i : String} {slot : Slot S R}
    (hsafe : isSafeId slot.commit.runId = true ∧ isSafeId slot.commit.nodeId = true ∧ isSafeId i = true)
    (hparquet : slot.commit.storage = .parquet)
    (hsame : ∀ c, s.commits i = some c →
      c.runId = slot.commit.runId ∧ c.nodeId = slot.commit.nodeId ∧ c.storage = .parquet)
    (hok : slot.Ok p i) : Inv p (p.store s i slot) := by
  have hcommits : ∀ j c, (p.store s i slot).commits j = some c →
      (j = i ∧ c = slot.commit) ∨ (j ≠ i ∧ s.commits j = some c) := by
    intro j c hj
    by_cases hij : j = i
    · subst hij
      simp only [Platform.store, Function.update_self, Option.some.injEq] at hj
      exact .inl ⟨rfl, hj.symm⟩
    · simp only [Platform.store, Function.update_of_ne hij] at hj
      exact .inr ⟨hij, hj⟩
  constructor
  · intro j c hj
    rcases hcommits j c hj with ⟨rfl, rfl⟩ | ⟨_, hj⟩
    · exact hsafe
    · exact h.safe j c hj
  · intro j c hj hpq
    rcases hcommits j c hj with ⟨rfl, rfl⟩ | ⟨hij, hj⟩
    · rw [slot_store]
      exact hok
    · rw [slot_store_ne hp hij hsafe (h.safe j c hj)]
      exact h.parquet j c hj hpq
  · intro j c hj hin
    rcases hcommits j c hj with ⟨rfl, rfl⟩ | ⟨hij, hj⟩
    · rw [hparquet] at hin
      cases hin
    · exact ⟨(h.inline j c hj hin).returned, (h.inline j c hj hin).settled⟩
  · intro j manifest hj
    obtain ⟨c, hcj, hin, hphase⟩ := h.manifests j manifest hj
    refine ⟨c, ?_, hin, hphase⟩
    have hij : j ≠ i := by
      intro he
      subst he
      rw [(hsame c hcj).2.2] at hin
      cases hin
    simpa only [Platform.store, Function.update_of_ne hij] using hcj
  · intro path dir hd
    -- A directory that is there is one of the slot's two, or was there before.
    have hself : (p.store s i slot).commits i = some slot.commit := by simp [Platform.store]
    by_cases hf : path = p.finalPath slot.commit.runId slot.commit.nodeId i
    · exact ⟨i, slot.commit, hself, hparquet, .inr hf⟩
    by_cases ht : path = p.temporaryPath slot.commit.runId slot.commit.nodeId i
    · exact ⟨i, slot.commit, hself, hparquet, .inl ht⟩
    simp only [Platform.store, Function.update_of_ne hf, Function.update_of_ne ht] at hd
    obtain ⟨j, c, hcj, hpq, hpath⟩ := h.owned path dir hd
    by_cases hij : j = i
    · subst hij
      rw [(hsame c hcj).1, (hsame c hcj).2.1] at hpath
      exact absurd hpath (by simp [hf, ht])
    · exact ⟨j, c, by simpa only [Platform.store, Function.update_of_ne hij] using hcj, hpq, hpath⟩

/-- What a commit is about. -/
def Commit.subject (commit : Commit S R) : String × String × Storage × Table S R :=
  (commit.runId, commit.nodeId, commit.storage, commit.table)

theorem onSlot_inv (hp : InjectiveDigest p) {s : State S R} (h : Inv p s) (i : String) {f : Slot S R → Slot S R}
    (hsubject : ∀ slot, (f slot).commit.subject = slot.commit.subject)
    (hok : ∀ slot, Slot.Ok p i slot → (f slot).Ok p i) : Inv p (p.onSlot s i f) := by
  unfold Platform.onSlot
  split
  · next commit hc =>
    split
    · next hs =>
      have hsub := hsubject (p.slot s i commit)
      simp only [Commit.subject, Prod.mk.injEq] at hsub
      obtain ⟨hr, hn, hst, -⟩ := hsub
      refine store_inv hp h ?_ (hst.trans hs) ?_ (hok _ (h.parquet i commit hc hs))
      · rw [hr, hn]
        exact h.safe i commit hc
      · intro c hc'
        obtain rfl := Option.some.inj (hc.symm.trans hc')
        exact ⟨hr.symm, hn.symm, hs⟩
    · exact h
  · exact h

theorem write_subject (resultId : String) (fails : Bool) (now : Int) (slot : Slot S R) :
    (p.write resultId slot fails now).commit.subject = slot.commit.subject := by
  unfold Platform.write
  split
  · split <;> rfl
  · split <;> rfl
  · rfl
  · rfl

theorem raised_subject (leftover : Option (Dir S R)) (slot : Slot S R) :
    (slot.raised leftover).commit.subject = slot.commit.subject := by
  unfold Slot.raised
  split <;> rfl

theorem resume_subject (cancelSet markerFails renameFails : Bool) (leftover : Option (Dir S R)) (slot : Slot S R) :
    (slot.resume cancelSet markerFails renameFails leftover).commit.subject = slot.commit.subject := by
  unfold Slot.resume
  split
  · unfold Slot.publish
    split
    · rfl
    · split
      · exact raised_subject leftover slot
      · split
        · split
          · exact raised_subject leftover slot
          · rfl
        · exact raised_subject leftover slot
  · exact raised_subject leftover slot
  · rfl

theorem cancel_subject (slot : Slot S R) : slot.cancel.commit.subject = slot.commit.subject := by
  unfold Slot.cancel
  split <;> rfl

theorem clean_subject (leftover : Option (Dir S R)) (slot : Slot S R) :
    (slot.clean leftover).commit.subject = slot.commit.subject := by
  unfold Slot.clean
  split
  · rfl
  · rfl
  · split <;> rfl
  · rfl

/-! ## A new commit -/

/-- A result id that is not taken has no directory. -/
theorem Inv.no_temporary {s : State S R} (h : Inv p s) {i : String} (hi : s.commits i = none) (r n : String) :
    s.dirs (p.temporaryPath r n i) = none := by
  by_contra hne
  obtain ⟨dir, hdir⟩ := Option.ne_none_iff_exists'.mp hne
  obtain ⟨j, commit, hc, -, hpath | hpath⟩ := h.owned _ _ hdir
  · rw [temporaryPath_inj hpath] at hi
    rw [hi] at hc
    cases hc
  · exact temporaryPath_ne_finalPath _ _ _ _ _ _ hpath

theorem Inv.no_final (hp : InjectiveDigest p) {s : State S R} (h : Inv p s) {i r n : String} (hi : s.commits i = none)
    (hs : isSafeId r = true ∧ isSafeId n = true ∧ isSafeId i = true) : s.dirs (p.finalPath r n i) = none := by
  by_contra hne
  obtain ⟨dir, hdir⟩ := Option.ne_none_iff_exists'.mp hne
  obtain ⟨j, commit, hc, -, hpath | hpath⟩ := h.owned _ _ hdir
  · exact temporaryPath_ne_finalPath _ _ _ _ _ _ hpath.symm
  · obtain ⟨h1, h2, h3⟩ := h.safe j commit hc
    rw [(finalPath_inj hp hs.1 hs.2.1 hs.2.2 h1 h2 h3 hpath).2.2] at hi
    rw [hi] at hc
    cases hc

/-- Recording an inline commit. -/
theorem inline_inv {s s' : State S R} (h : Inv p s) {i : String} {commit : Commit S R} (hi : s.commits i = none)
    (hsafe : isSafeId commit.runId = true ∧ isSafeId commit.nodeId = true ∧ isSafeId i = true)
    (hinline : commit.storage = .inline) (hcommits : s'.commits = Function.update s.commits i (some commit))
    (hdirs : s'.dirs = s.dirs)
    (htables : ∀ j, j ≠ i → s'.inlineTables j = s.inlineTables j ∧ s'.inlineManifests j = s.inlineManifests j)
    (hmanifest : ∀ manifest, s'.inlineManifests i = some manifest → commit.phase = .returned manifest)
    (hok : InlineOk s' i commit) : Inv p s' := by
  have hold : ∀ j c, s'.commits j = some c → (j = i ∧ c = commit) ∨ (j ≠ i ∧ s.commits j = some c) := by
    intro j c hj
    rw [hcommits] at hj
    by_cases hij : j = i
    · subst hij
      rw [Function.update_self] at hj
      exact .inl ⟨rfl, (Option.some.inj hj).symm⟩
    · rw [Function.update_of_ne hij] at hj
      exact .inr ⟨hij, hj⟩
  have hkeep : ∀ j c, s.commits j = some c → s'.commits j = some c := by
    intro j c hj
    have hij : j ≠ i := by
      intro he
      rw [he, hi] at hj
      cases hj
    rw [hcommits, Function.update_of_ne hij]
    exact hj
  constructor
  · intro j c hj
    rcases hold j c hj with ⟨rfl, rfl⟩ | ⟨_, hj⟩
    · exact hsafe
    · exact h.safe j c hj
  · intro j c hj hs
    rcases hold j c hj with ⟨rfl, rfl⟩ | ⟨_, hj⟩
    · rw [hinline] at hs
      cases hs
    · have := h.parquet j c hj hs
      unfold Platform.slot at this ⊢
      rwa [hdirs]
  · intro j c hj hs
    rcases hold j c hj with ⟨rfl, rfl⟩ | ⟨hij, hj⟩
    · exact hok
    · have := h.inline j c hj hs
      refine ⟨?_, this.settled⟩
      rw [(htables j hij).1, (htables j hij).2]
      exact this.returned
  · intro j manifest hj
    by_cases hij : j = i
    · subst hij
      refine ⟨commit, ?_, hinline, hmanifest manifest hj⟩
      rw [hcommits, Function.update_self]
    · rw [(htables j hij).2] at hj
      obtain ⟨c, hc, hs, hphase⟩ := h.manifests j manifest hj
      exact ⟨c, hkeep j c hc, hs, hphase⟩
  · intro path dir hd
    rw [hdirs] at hd
    obtain ⟨j, c, hc, hs, hpath⟩ := h.owned path dir hd
    exact ⟨j, c, hkeep j c hc, hs, hpath⟩

theorem commitInline_inv {s : State S R} (h : Inv p s) {r n i : String} (hi : s.commits i = none)
    (hsafe : isSafeId r = true ∧ isSafeId n = true ∧ isSafeId i = true) (table : Table S R) (cancelSet : Bool)
    (now : Int) : Inv p (p.commitInline s r n i table cancelSet now) := by
  have hno : s.inlineManifests i = none := by
    by_contra hne
    obtain ⟨manifest, hm⟩ := Option.ne_none_iff_exists'.mp hne
    obtain ⟨c, hc, -, -⟩ := h.manifests i manifest hm
    rw [hi] at hc
    cases hc
  unfold Platform.commitInline
  by_cases hcancel : cancelSet = true
  · simp only [hcancel, if_true]
    refine inline_inv h hi hsafe rfl rfl rfl (fun j _ => ⟨rfl, rfl⟩) ?_ ⟨?_, rfl, ?_, ?_⟩
    · intro manifest hm
      rw [hno] at hm
      cases hm
    · intro manifest hp
      cases hp
    · simp
    · simp
  · simp only [hcancel, Bool.false_eq_true, if_false]
    refine inline_inv h hi hsafe rfl rfl rfl ?_ ?_ ⟨?_, rfl, ?_, ?_⟩
    · intro j hj
      exact ⟨Function.update_of_ne hj _ _, Function.update_of_ne hj _ _⟩
    · intro manifest hm
      simp only [Function.update_self, Option.some.injEq] at hm
      rw [hm]
    · intro manifest hp
      simp only [Phase.returned.injEq] at hp
      subst hp
      exact ⟨rfl, by simp, by simp⟩
    · simp
    · simp

theorem commitParquet_inv (hp : InjectiveDigest p) {s : State S R} (h : Inv p s) {r n i : String}
    (hi : s.commits i = none) (hsafe : isSafeId r = true ∧ isSafeId n = true ∧ isSafeId i = true) (table : Table S R)
    (mkdirFails : Bool) : Inv p (p.commitParquet s r n i table mkdirFails) := by
  have htemp := h.no_temporary hi r n
  have hfinal := h.no_final hp hi hsafe
  -- Either way the new commit's slot is stored: with no directory, or with an empty one.
  have hstore : ∀ (commit : Commit S R) (temporary : Option (Dir S R)), commit.runId = r → commit.nodeId = n →
      ({ s with commits := Function.update s.commits i (some commit)
                dirs := Function.update s.dirs (p.temporaryPath r n i) temporary } : State S R) =
        p.store s i ⟨commit, temporary, none⟩ := by
    intro commit temporary hr hn
    subst hr hn
    unfold Platform.store
    congr 1
    symm
    rw [Function.update_eq_self_iff]
    show none = Function.update s.dirs _ _ _
    rw [Function.update_of_ne (temporaryPath_ne_finalPath _ _ _ _ _ _).symm]
    exact hfinal.symm
  unfold Platform.commitParquet
  simp only [htemp, Option.isSome_none, Bool.false_eq_true, or_false, Option.isNone_none]
  by_cases hm : mkdirFails = true
  · simp only [hm, if_true]
    have hsame : s.dirs = Function.update s.dirs (p.temporaryPath r n i) none := by
      rw [← htemp]
      exact (Function.update_eq_self _ _).symm
    have hrecord := hstore
      { runId := r, nodeId := n, table := table, storage := .parquet, phase := .raised true, writer := .failed
        cleanup := .none } none rfl rfl
    rw [← hsame] at hrecord
    rw [hrecord]
    refine store_inv hp h hsafe rfl (fun c hc => by rw [hi] at hc; cases hc) ?_
    constructor
    · intro hphase
      cases hphase
    · intro manifest hphase
      cases hphase
    · intro _
      rfl
    · intro _
      rfl
    · intro _
      rfl
    · intro hc
      exact absurd rfl hc
  · simp only [hm, Bool.false_eq_true, if_false]
    rw [hstore _ _ rfl rfl]
    refine store_inv hp h hsafe rfl (fun c hc => by rw [hi] at hc; cases hc) ?_
    constructor
    · intro _
      exact ⟨rfl, _, rfl, trivial⟩
    · intro manifest hphase
      cases hphase
    · intro _
      rfl
    · intro hphase
      cases hphase
    · intro hc
      cases hc
    · intro hc
      exact absurd rfl hc

theorem step_inv (hp : InjectiveDigest p) {s : State S R} (h : Inv p s) (e : Event S R) : Inv p (p.step s e) := by
  cases e with
  | commit r n i table cancelSet mkdirFails now =>
    simp only [Platform.step, Platform.commit]
    split
    · next hc =>
      obtain ⟨hr, hn, hi, hnone⟩ := hc
      have hnone := Option.isNone_iff_eq_none.mp hnone
      split
      · exact commitInline_inv h hnone ⟨hr, hn, hi⟩ table cancelSet now
      · exact commitParquet_inv hp h hnone ⟨hr, hn, hi⟩ table mkdirFails
    · exact h
  | write i fails now =>
    show Inv p (p.onSlot s i fun slot => p.write i slot fails now)
    exact onSlot_inv hp h i (write_subject i fails now) fun _ hok => write_ok hok fails now
  | resume i cancelSet markerFails renameFails leftover =>
    show Inv p (p.onSlot s i fun slot => slot.resume cancelSet markerFails renameFails leftover)
    exact onSlot_inv hp h i (resume_subject _ _ _ _) fun _ hok => resume_ok hok _ _ _ _
  | cancel i =>
    show Inv p (p.onSlot s i Slot.cancel)
    exact onSlot_inv hp h i cancel_subject fun _ hok => cancel_ok hok
  | clean i leftover =>
    show Inv p (p.onSlot s i fun slot => slot.clean leftover)
    exact onSlot_inv hp h i (clean_subject leftover) fun _ hok => clean_ok hok leftover

theorem run_inv (hp : InjectiveDigest p) (events : List (Event S R)) : Inv p (p.run events) := by
  unfold Platform.run
  induction events using List.reverseRecOn with
  | nil => exact empty_inv
  | append_singleton events e ih =>
    rw [List.foldl_append]
    exact step_inv hp ih e

/-! ## What returned stays -/

theorem onSlot_returned {s : State S R} {i j : String} {c : Commit S R} {manifest : CommittedManifest S}
    {f : Slot S R → Slot S R} (hsubject : ∀ slot, (f slot).commit.subject = slot.commit.subject)
    (hphase : ∀ slot, slot.commit.phase = .returned manifest → (f slot).commit.phase = .returned manifest)
    (hc : s.commits j = some c) (hr : c.phase = .returned manifest) :
    ∃ c', (p.onSlot s i f).commits j = some c' ∧ c'.phase = .returned manifest ∧ c'.subject = c.subject := by
  unfold Platform.onSlot
  split
  · next commit hi =>
    split
    · by_cases hij : j = i
      · subst hij
        obtain rfl := Option.some.inj (hc.symm.trans hi)
        exact ⟨_, by simp [Platform.store]; rfl, hphase _ hr, hsubject _⟩
      · exact ⟨c, by simpa only [Platform.store, Function.update_of_ne hij] using hc, hr, rfl⟩
    · exact ⟨c, hc, hr, rfl⟩
  · exact ⟨c, hc, hr, rfl⟩

theorem step_returned {s : State S R} {j : String} {c : Commit S R} {manifest : CommittedManifest S} (e : Event S R)
    (hc : s.commits j = some c) (hr : c.phase = .returned manifest) :
    ∃ c', (p.step s e).commits j = some c' ∧ c'.phase = .returned manifest ∧ c'.subject = c.subject := by
  cases e with
  | commit r n i table cancelSet mkdirFails now =>
    simp only [Platform.step, Platform.commit]
    split
    · next hnew =>
      have hij : j ≠ i := by
        intro he
        rw [← he, hc] at hnew
        simp at hnew
      refine ⟨c, ?_, hr, rfl⟩
      split
      · simp only [Platform.commitInline]
        split <;> simp only [Function.update_of_ne hij, hc]
      · simp only [Platform.commitParquet]
        split <;> simp only [Function.update_of_ne hij, hc]
    · exact ⟨c, hc, hr, rfl⟩
  | write i fails now =>
    show ∃ c', (p.onSlot s i fun slot => p.write i slot fails now).commits j = some c' ∧ _
    refine onSlot_returned (write_subject i fails now) ?_ hc hr
    intro slot hs
    unfold Platform.write
    split
    · split <;> exact hs
    · split <;> exact hs
    · exact hs
    · exact hs
  | resume i cancelSet markerFails renameFails leftover =>
    show ∃ c', (p.onSlot s i fun slot => slot.resume cancelSet markerFails renameFails leftover).commits j = some c' ∧ _
    refine onSlot_returned (resume_subject _ _ _ _) ?_ hc hr
    intro slot hs
    unfold Slot.resume
    rw [hs]
    exact hs
  | cancel i =>
    show ∃ c', (p.onSlot s i Slot.cancel).commits j = some c' ∧ _
    refine onSlot_returned cancel_subject ?_ hc hr
    intro slot hs
    unfold Slot.cancel
    rw [hs]
    exact hs
  | clean i leftover =>
    show ∃ c', (p.onSlot s i fun slot => slot.clean leftover).commits j = some c' ∧ _
    refine onSlot_returned (clean_subject leftover) ?_ hc hr
    intro slot hs
    unfold Slot.clean
    split
    · exact hs
    · exact hs
    · split <;> exact hs
    · exact hs

theorem run_returned (events later : List (Event S R)) {j : String} {c : Commit S R} {manifest : CommittedManifest S}
    (hc : (p.run events).commits j = some c) (hr : c.phase = .returned manifest) :
    ∃ c', (p.run (events ++ later)).commits j = some c' ∧ c'.phase = .returned manifest ∧ c'.subject = c.subject := by
  induction later using List.reverseRecOn with
  | nil => exact ⟨c, by rwa [List.append_nil], hr, rfl⟩
  | append_singleton later e ih =>
    obtain ⟨c', hc', hr', hsub⟩ := ih
    obtain ⟨c'', hc'', hr'', hsub'⟩ := step_returned e hc' hr'
    refine ⟨c'', ?_, hr'', hsub'.trans hsub⟩
    rw [← List.append_assoc, Platform.run, List.foldl_append]
    exact hc''

/-! ## Pages -/

/-- The page cut out of the row groups is the page of the rows. -/
theorem readGroups_flatten (groups : List (List R)) (cursor : Platform.Cursor S R) (hpos : 0 < cursor.remaining) :
    (Platform.readGroups cursor groups).chunks.flatten =
        cursor.chunks.flatten ++ (groups.flatten.drop cursor.skip).take cursor.remaining ∧
      (Platform.readGroups cursor groups).schema = cursor.schema := by
  induction groups generalizing cursor with
  | nil => simp [Platform.readGroups]
  | cons group rest ih =>
    rw [Platform.readGroups, List.flatten_cons]
    by_cases hskip : group.length ≤ cursor.skip
    · rw [if_pos hskip]
      obtain ⟨hchunks, hschema⟩ := ih { cursor with skip := cursor.skip - group.length } hpos
      refine ⟨?_, hschema⟩
      rw [hchunks, List.drop_append, List.drop_eq_nil_of_le hskip, List.nil_append]
    · rw [if_neg hskip]
      have hlen : (group.drop cursor.skip).length = group.length - cursor.skip := List.length_drop
      have hdrop : (group ++ rest.flatten).drop cursor.skip = group.drop cursor.skip ++ rest.flatten := by
        rw [List.drop_append, show cursor.skip - group.length = 0 by omega, List.drop_zero]
      simp only
      by_cases hrest : cursor.remaining ≤ group.length - cursor.skip
      · -- The group holds all that is left to read.
        rw [if_pos (by omega), Nat.min_eq_left hrest, hdrop, List.take_append_of_le_length (by omega)]
        simp
      · rw [if_neg (by omega), Nat.min_eq_right (by omega)]
        obtain ⟨hchunks, hschema⟩ := ih
          { cursor with
            chunks := cursor.chunks ++ [(group.drop cursor.skip).take (group.length - cursor.skip)]
            remaining := cursor.remaining - (group.length - cursor.skip)
            skip := 0 } (by simp only; omega)
        have hwhole : (group.drop cursor.skip).take (group.length - cursor.skip) = group.drop cursor.skip :=
          List.take_of_length_le (by omega)
        have hall : (group.drop cursor.skip).take cursor.remaining = group.drop cursor.skip :=
          List.take_of_length_le (by omega)
        refine ⟨?_, hschema⟩
        rw [hchunks, hdrop, List.take_append, hlen, hwhole, hall]
        simp

/-- A committed directory is read to the page of the table that was committed. -/
theorem readPageSync_complete {resultId : String} {c : Commit S R} {manifest : CommittedManifest S} {dir : Dir S R}
    (hgroups : ∀ rows, (p.rowGroups rows).flatten = rows) (h : Complete p resultId c manifest dir) {offset limit : Nat}
    (hlimit : 0 < limit) :
    p.readPageSync (some dir) manifest offset limit = .ok (c.table.slice offset limit) := by
  obtain ⟨bytes, hparts⟩ := h.ok.parts
  have hfile : (some dir).bind (fun files => files partName) = some (.parquet (p.written c.table)) := h.part
  simp only [Platform.readPageSync, hparts, Platform.readParts, hfile, Option.getD_none, Nat.ne_of_gt hlimit,
    if_false]
  by_cases hskip : c.table.rows.length ≤ offset
  · -- The page starts after the last row.
    simp only [hskip, if_true, bind, Except.bind, Option.getD_some, List.flatten_nil, Table.slice,
      List.drop_eq_nil_of_le hskip, List.take_nil, Platform.written]
  · simp only [hskip, if_false]
    obtain ⟨hchunks, hschema⟩ := readGroups_flatten (p.written c.table).groups
      (⟨[], limit, offset, some (p.written c.table).schema⟩ : Platform.Cursor S R) hlimit
    simp only [bind, Except.bind, hchunks, hschema, Option.getD_some, List.flatten_nil, List.nil_append, Table.slice]
    rw [show (p.written c.table).groups.flatten = c.table.rows from hgroups c.table.rows]
    rfl

theorem validatePage_ok {offset limit : Int} {u : Unit} (h : Platform.validatePage offset limit = .ok u) :
    0 < limit.toNat := by
  unfold Platform.validatePage at h
  split at h
  · cases h
  · omega

theorem validateId_ok {value kind : String} {u : Unit} (h : validateId value kind = .ok u) : isSafeId value = true := by
  unfold validateId at h
  split at h
  · next hs => exact hs
  · cases h

theorem readManifest_ok {dir : Option (Dir S R)} {manifest : CommittedManifest S}
    (h : Platform.readManifest dir = .ok manifest) :
    ∃ files, dir = some files ∧ files manifestName = some (.manifest manifest) := by
  cases dir with
  | none => cases h
  | some files =>
    refine ⟨files, rfl, ?_⟩
    simp only [Platform.readManifest] at h
    split at h
    · next hm =>
      cases h
      exact hm
    · cases h
    · cases h

/-- What is found at the path of a handle is what its commit published there. -/
theorem Inv.committed_of_final (hp : InjectiveDigest p) {s : State S R} (h : Inv p s) {r n i : String}
    (hs : isSafeId r = true ∧ isSafeId n = true ∧ isSafeId i = true) {dir : Dir S R}
    (hd : s.dirs (p.finalPath r n i) = some dir) :
    ∃ c manifest, s.commits i = some c ∧ c.storage = .parquet ∧ c.phase = .returned manifest ∧
      Complete p i c manifest dir := by
  obtain ⟨j, c, hc, hst, hpath | hpath⟩ := h.owned _ _ hd
  · exact absurd hpath.symm (temporaryPath_ne_finalPath _ _ _ _ _ _)
  · have hsafe := h.safe j c hc
    obtain ⟨hr, hn, rfl⟩ := finalPath_inj hp hs.1 hs.2.1 hs.2.2 hsafe.1 hsafe.2.1 hsafe.2.2 hpath
    have hok := h.parquet i c hc hst
    have hfinal : (p.slot s i c).final = some dir := by
      rw [← hd, hr, hn]
      rfl
    cases hphase : c.phase with
    | returned manifest =>
      obtain ⟨dir', hdir', hcomplete, -⟩ := hok.returned manifest hphase
      obtain rfl := Option.some.inj (hfinal.symm.trans hdir')
      exact ⟨c, manifest, hc, hst, hphase, hcomplete⟩
    | writing | raised | cancelled =>
      have := hok.unpublished (by intro m hm; rw [show (p.slot s i c).commit.phase = c.phase from rfl, hphase] at hm; cases hm)
      rw [hfinal] at this
      cases this

/-- The directory of a commit that returned, in any later state. -/
theorem complete_later (hp : InjectiveDigest p) (events later : List (Event S R)) {i : String} {c : Commit S R}
    {manifest : CommittedManifest S} (hc : (p.run events).commits i = some c) (hst : c.storage = .parquet)
    (hr : c.phase = .returned manifest) :
    ∃ dir, (p.run (events ++ later)).dirs (p.finalPath c.runId c.nodeId i) = some dir ∧
      Complete p i c manifest dir ∧ (dir markerName).isSome := by
  obtain ⟨c', hc', hr', hsub⟩ := run_returned events later hc hr
  simp only [Commit.subject, Prod.mk.injEq] at hsub
  obtain ⟨hrun, hnode, hstorage, htable⟩ := hsub
  obtain ⟨dir, hdir, hcomplete, hmarker⟩ :=
    ((run_inv hp (events ++ later)).parquet i c' hc' (hstorage.trans hst)).returned manifest hr'
  have hfinal : (p.run (events ++ later)).dirs (p.finalPath c'.runId c'.nodeId i) = some dir := hdir
  rw [hrun, hnode] at hfinal
  refine ⟨dir, hfinal, ⟨?_, hcomplete.file, ?_, ?_⟩, hmarker⟩
  · rw [← htable]
    exact hcomplete.part
  · rw [← hrun, ← hnode]
    exact hcomplete.ok.result
  · rw [← htable]
    exact hcomplete.ok.parts

/-- A page that is read is a page of the table of a commit that returned this very handle. -/
theorem readPage_committed (hp : InjectiveDigest p) (hgroups : ∀ rows, (p.rowGroups rows).flatten = rows)
    (events later : List (Event S R)) {handle : ResultHandle} {offset limit : Int} {page : Table S R}
    (h : p.readPage (p.run events) (p.run (events ++ later)) handle offset limit = .ok page) :
    ∃ c manifest, (p.run events).commits handle.resultId = some c ∧ c.phase = .returned manifest ∧
      manifest.result = handle ∧ page = c.table.slice offset.toNat limit.toNat := by
  have hinv := run_inv hp events
  unfold Platform.readPage at h
  split at h
  · simp only [Platform.readInline, bind_eq_ok] at h
    obtain ⟨_, -, h⟩ := h
    split at h
    · cases h
    · next manifest hm =>
      split at h
      · cases h
      · next hhandle =>
        split at h
        · cases h
        · next table ht =>
          obtain ⟨c, hc, hst, hphase⟩ := hinv.manifests _ _ hm
          obtain ⟨-, -, htable⟩ := (hinv.inline _ c hc hst).returned manifest hphase
          rw [ht] at htable
          cases htable
          cases h
          exact ⟨c, manifest, hc, hphase, (not_not.mp hhandle).symm, rfl⟩
  · simp only [bind_eq_ok] at h
    obtain ⟨opened, hopen, hread⟩ := h
    simp only [Platform.openParquet, bind_eq_ok] at hopen
    obtain ⟨_, hpage, _, hrun, _, hnode, _, hid, hopen⟩ := hopen
    split at hopen
    · cases hopen
    · simp only [bind_eq_ok] at hopen
      obtain ⟨manifest, hmanifest, hopen⟩ := hopen
      split at hopen
      · cases hopen
      · next hhandle =>
        cases hopen
        obtain ⟨dir, hdir, hfile⟩ := readManifest_ok hmanifest
        have hsafe := And.intro (validateId_ok hrun) (And.intro (validateId_ok hnode) (validateId_ok hid))
        obtain ⟨c, manifest', hc, hst, hphase, hcomplete⟩ := hinv.committed_of_final hp hsafe hdir
        rw [hcomplete.file] at hfile
        cases hfile
        have hresult := (not_not.mp hhandle).symm
        refine ⟨c, manifest, hc, hphase, hresult, ?_⟩
        obtain ⟨dir', hdir', hcomplete', -⟩ := complete_later hp events later hc hst hphase
        have hids : c.runId = handle.runId ∧ c.nodeId = handle.nodeId := by
          rw [← hresult, hcomplete.ok.result]
          exact ⟨rfl, rfl⟩
        rw [hids.1, hids.2] at hdir'
        simp only [hdir', readPageSync_complete hgroups hcomplete' (validatePage_ok hpage), Except.ok.injEq] at hread
        exact hread.symm

/-- And the handle a commit returned reads that commit's table. -/
theorem readPage_returned (hp : InjectiveDigest p) (hgroups : ∀ rows, (p.rowGroups rows).flatten = rows)
    (events later : List (Event S R)) {i : String} {c : Commit S R} {manifest : CommittedManifest S}
    (hc : (p.run events).commits i = some c) (hr : c.phase = .returned manifest) {offset limit : Int}
    (hpage : Platform.validatePage offset limit = .ok ()) :
    p.readPage (p.run events) (p.run (events ++ later)) manifest.result offset limit =
      .ok (c.table.slice offset.toNat limit.toNat) := by
  have hinv := run_inv hp events
  have hsafe := hinv.safe i c hc
  cases hst : c.storage with
  | inline =>
    obtain ⟨hresult, hm, ht⟩ := (hinv.inline i c hc hst).returned manifest hr
    have hstorage : manifest.result.storage = .inline := by rw [hresult]; rfl
    have hid : manifest.result.resultId = i := by rw [hresult]; rfl
    simp only [Platform.readPage, hstorage, Platform.readInline, hpage, hid, hm, ht, bind, Except.bind, ne_eq,
      not_true, if_false]
  | parquet =>
    obtain ⟨dir, hdir, hcomplete, hmarker⟩ := (hinv.parquet i c hc hst).returned manifest hr
    obtain ⟨dir', hdir', hcomplete', -⟩ := complete_later hp events later hc hst hr
    have hresult := hcomplete.ok.result
    have hdir : (p.run events).dirs (p.finalPath c.runId c.nodeId i) = some dir := hdir
    have hfields : manifest.result.storage = .parquet ∧ manifest.result.runId = c.runId ∧
        manifest.result.nodeId = c.nodeId ∧ manifest.result.resultId = i ∧
        manifest.result.uri = p.pathText (p.finalPath c.runId c.nodeId i) := by
      rw [hresult]
      exact ⟨rfl, rfl, rfl, rfl, rfl⟩
    obtain ⟨_, hmarked⟩ := Option.isSome_iff_exists.mp hmarker
    have hmanifest : Platform.readManifest (some dir) = .ok manifest := by
      simp only [Platform.readManifest, hmarked, hcomplete.file]
    have hopen : p.openParquet (p.run events) manifest.result offset limit =
        .ok (p.finalPath c.runId c.nodeId i, manifest) := by
      simp only [Platform.openParquet, hfields.2.1, hfields.2.2.1, hfields.2.2.2.1, hfields.2.2.2.2, hpage, validateId,
        hsafe.1, hsafe.2.1, hsafe.2.2, if_true, bind, Except.bind, ne_eq, not_true, if_false, hdir, hmanifest]
    simp only [Platform.readPage, hfields.1, hopen, bind, Except.bind, hdir',
      readPageSync_complete hgroups hcomplete' (validatePage_ok hpage)]

/-- Isolation and atomicity, over every interleaving. A page is read only through the handle
    that some commit returned, and is a page of that commit's table; nothing of a commit that
    raised or was cancelled is readable; a cleanup that finished has left no directory. -/
theorem store_isolated (p : Platform S R) (hp : InjectiveDigest p)
    (hgroups : ∀ rows, (p.rowGroups rows).flatten = rows) (events later : List (Event S R)) :
    (∀ handle offset limit page,
      p.readPage (p.run events) (p.run (events ++ later)) handle offset limit = .ok page →
      ∃ c manifest, (p.run events).commits handle.resultId = some c ∧ c.phase = .returned manifest ∧
        manifest.result = handle ∧ page = c.table.slice offset.toNat limit.toNat) ∧
    (∀ i c, (p.run events).commits i = some c → (c.phase = .cancelled ∨ ∃ cleaned, c.phase = .raised cleaned) →
      ∀ handle offset limit page, handle.resultId = i →
        p.readPage (p.run events) (p.run (events ++ later)) handle offset limit ≠ .ok page) ∧
    ∀ i c, (p.run events).commits i = some c → (c.cleanup = .finished ∨ c.phase = .raised true) →
      (p.run events).dirs (p.temporaryPath c.runId c.nodeId i) = none := by
  refine ⟨?_, ?_, ?_⟩
  · intro handle offset limit page h
    exact readPage_committed hp hgroups events later h
  · intro i c hc hended handle offset limit page hid h
    obtain ⟨c', manifest, hc', hr, -, -⟩ := readPage_committed hp hgroups events later h
    rw [hid, hc] at hc'
    obtain rfl := Option.some.inj hc'
    rcases hended with hcancelled | ⟨cleaned, hraised⟩
    · rw [hcancelled] at hr
      cases hr
    · rw [hraised] at hr
      cases hr
  · intro i c hc hended
    have hinv := run_inv hp events
    cases hst : c.storage with
    | inline =>
      obtain ⟨hnone, hraised, -⟩ := (hinv.inline i c hc hst).settled
      rcases hended with hfinished | h
      · rw [hnone] at hfinished
        cases hfinished
      · exact absurd h hraised
    | parquet =>
      have hok := hinv.parquet i c hc hst
      rcases hended with hfinished | hraised
      · exact hok.cleaned hfinished
      · exact hok.raised hraised

/-- A platform with readable digests and one row group to a file. -/
def samplePlatform : Platform Unit Nat where
  root := "/results"
  digest value := value
  retainedTableSize table := table.rows.length
  rowGroups rows := [rows]
  fileSize _ := 0
  emptySchema := ()
  inlineMaxBytes := 0

/-- Commit `a` returns; commit `b` is cancelled while its thread writes, and cleaned up. -/
def sampleEvents : List (Event Unit Nat) :=
  [.commit "run" "node" "a" ⟨(), [1, 2, 3]⟩ false false 0, .write "a" false 0,
    .commit "run" "node" "b" ⟨(), [4]⟩ false false 0, .cancel "b", .write "a" false 1, .write "b" false 1,
    .resume "a" false false false none, .write "b" true 2, .clean "b" none, .clean "b" none]

theorem samplePlatform_ok : InjectiveDigest samplePlatform ∧ ∀ rows, (samplePlatform.rowGroups rows).flatten = rows :=
  ⟨fun _ _ _ _ h => h, fun rows => List.append_nil rows⟩

theorem sampleEvents_isolated :
    samplePlatform.readPage (samplePlatform.run sampleEvents) (samplePlatform.run (sampleEvents ++ []))
        (samplePlatform.parquetHandle "run" "node" "a") 1 2 = .ok ⟨(), [2, 3]⟩ ∧
      ((samplePlatform.run sampleEvents).commits "b").map (·.cleanup) = some .finished ∧
      (samplePlatform.run sampleEvents).dirs (samplePlatform.temporaryPath "run" "node" "b") = none := by
  have hb : ((samplePlatform.run sampleEvents).commits "b").map (fun c => (c.runId, c.nodeId, c.cleanup)) =
      some ("run", "node", .finished) := by decide +kernel
  obtain ⟨c, hc, hids⟩ := Option.map_eq_some_iff.mp hb
  simp only [Prod.mk.injEq] at hids
  refine ⟨by decide +kernel, by decide +kernel, ?_⟩
  have hgone := (store_isolated samplePlatform samplePlatform_ok.1 samplePlatform_ok.2 sampleEvents []).2.2 "b" c hc
    (.inl hids.2.2)
  rwa [hids.1, hids.2.1] at hgone

end DataNexus.Runtime.ResultStore
