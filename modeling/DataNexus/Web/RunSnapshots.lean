/-
  DataNexus.Web.RunSnapshots — the run snapshots of the web client
  (`apps/web/src/api/httpSemanticNexusClient.ts`, `acceptSummary`, `terminalSnapshot`).

  The client keeps one summary for each run id. Summaries come in from polls, lists, creates
  and cancellations, in any order and any number of times; `acceptSummary` decides whether one
  replaces the kept summary and returns what is kept. A summary is the record the control API
  serialised, so the summaries of one run are records of one history (`RunTransitions`).

  Acceptance has three rules: a terminal summary stays, a lower version is dropped, and at
  equal versions so is a state earlier in the list. Proved: whatever is delivered, the kept
  summary only moves on along the history, a terminal one stays for good, and the state shown
  at the end is the state of the delivered summary with the highest version
  (`snapshot_converges`). Versions go on growing after a terminal state, but the state does
  not change any more.
-/

import DataNexus.Control.RunTransitions

namespace DataNexus.Web

open DataNexus.Control
open DataNexus.Control.RunTransitions (Transition Recorded)

/-- `runStates`. -/
def runStates : List RunState :=
  [.startPending, .dispatchUnknown, .queued, .starting, .running, .cancelRequested, .cancelled, .succeeded, .failed]

def statePrecedence (state : RunState) : Nat := runStates.idxOf state

abbrev Snapshots := String → Option RunMetadata

/-- `acceptSummary`: the snapshots after it, and the summary it returns. -/
def acceptSummary (snapshots : Snapshots) (candidate : RunMetadata) : Snapshots × RunMetadata :=
  match snapshots candidate.id with
  | some current =>
    if current.state.isTerminal then (snapshots, current)
    else if candidate.version < current.version then (snapshots, current)
    else if candidate.version = current.version ∧ statePrecedence candidate.state < statePrecedence current.state then
      (snapshots, current)
    else (Function.update snapshots candidate.id (some candidate), candidate)
  | none => (Function.update snapshots candidate.id (some candidate), candidate)

def terminalSnapshot (snapshots : Snapshots) (runId : String) : Option RunMetadata :=
  (snapshots runId).filter (·.state.isTerminal)

/-- The snapshots after a list of deliveries. -/
def deliver (snapshots : Snapshots) (deliveries : List RunMetadata) : Snapshots :=
  deliveries.foldl (fun s candidate => (acceptSummary s candidate).1) snapshots

/-! ## One delivery -/

/-- What is kept for a run runId after one delivery: what was kept, or the delivered summary,
    whose version is then no lower and replaces no terminal one. -/
theorem acceptSummary_cases (snapshots : Snapshots) (candidate : RunMetadata) (runId : String) :
    (candidate.id ≠ runId ∧ (acceptSummary snapshots candidate).1 runId = snapshots runId) ∨
    (candidate.id = runId ∧ snapshots runId = none ∧ (acceptSummary snapshots candidate).1 runId = some candidate) ∨
    ∃ current, candidate.id = runId ∧ snapshots runId = some current ∧
      (((acceptSummary snapshots candidate).1 runId = some current ∧
          (current.state.isTerminal = true ∨ candidate.version ≤ current.version)) ∨
        ((acceptSummary snapshots candidate).1 runId = some candidate ∧ current.state.isTerminal = false ∧
          current.version ≤ candidate.version)) := by
  by_cases hid : candidate.id = runId
  · subst hid
    right
    unfold acceptSummary
    cases hs : snapshots candidate.id with
    | none => exact .inl ⟨rfl, rfl, Function.update_self _ _ _⟩
    | some current =>
      refine .inr ⟨current, rfl, rfl, ?_⟩
      dsimp only
      split_ifs with hterm hlow htie
      · exact .inl ⟨hs, .inl hterm⟩
      · exact .inl ⟨hs, .inr hlow.le⟩
      · exact .inl ⟨hs, .inr htie.1.le⟩
      · exact .inr ⟨Function.update_self _ _ _, by simpa using hterm, by omega⟩
  · left
    refine ⟨hid, ?_⟩
    unfold acceptSummary
    have hother : ∀ value, Function.update snapshots candidate.id value runId = snapshots runId := by
      intro value
      exact Function.update_of_ne (fun h => hid h.symm) value snapshots
    split
    · split_ifs
      · rfl
      · rfl
      · rfl
      · exact hother _
    · exact hother _

/-! ## Any deliveries -/

/-- What is kept of a run after the summaries `seen`: nothing if there were none, else one of
    them, terminal or of the highest version. -/
def Keeps (runId : String) (seen : List RunMetadata) (kept : Option RunMetadata) : Prop :=
  match kept with
  | none => ∀ d ∈ seen, d.id ≠ runId
  | some current => current ∈ seen ∧ current.id = runId ∧
      (current.state.isTerminal = true ∨ ∀ d ∈ seen, d.id = runId → d.version ≤ current.version)

theorem keeps_accept {runId : String} {seen : List RunMetadata} {snapshots : Snapshots} (h : Keeps runId seen (snapshots runId))
    (candidate : RunMetadata) : Keeps runId (seen ++ [candidate]) ((acceptSummary snapshots candidate).1 runId) := by
  have hmem : ∀ {d : RunMetadata}, d ∈ seen ++ [candidate] → d ∈ seen ∨ d = candidate := by
    intro d hd
    simpa using hd
  rcases acceptSummary_cases snapshots candidate runId with ⟨hne, heq⟩ | ⟨hid, hnone, heq⟩ | ⟨current, hid, hsome, hcase⟩
  · rw [heq]
    cases hs : snapshots runId with
    | none =>
      rw [hs] at h
      intro d hd
      rcases hmem hd with hd | rfl
      · exact h d hd
      · exact hne
    | some current =>
      rw [hs] at h
      refine ⟨List.mem_append_left _ h.1, h.2.1, h.2.2.imp id fun hmax d hd hdid => ?_⟩
      rcases hmem hd with hd | rfl
      · exact hmax d hd hdid
      · exact absurd hdid hne
  · rw [heq]
    rw [hnone] at h
    refine ⟨by simp, hid, .inr fun d hd hdid => ?_⟩
    rcases hmem hd with hd | rfl
    · exact absurd hdid (h d hd)
    · exact le_refl _
  · rw [hsome] at h
    rcases hcase with ⟨heq, hwhy⟩ | ⟨heq, hlive, hup⟩
    · rw [heq]
      refine ⟨List.mem_append_left _ h.1, h.2.1, ?_⟩
      rcases h.2.2 with hterm | hmax
      · exact .inl hterm
      · refine hwhy.imp id fun hlow d hd hdid => ?_
        rcases hmem hd with hd | rfl
        · exact hmax d hd hdid
        · exact hlow
    · rw [heq]
      refine ⟨by simp, hid, .inr fun d hd hdid => ?_⟩
      rcases hmem hd with hd | rfl
      · rcases h.2.2 with hterm | hmax
        · rw [hlive] at hterm
          cases hterm
        · exact (hmax d hd hdid).trans hup
      · exact le_refl _

theorem keeps_deliver {runId : String} {seen : List RunMetadata} {snapshots : Snapshots} (h : Keeps runId seen (snapshots runId))
    (deliveries : List RunMetadata) : Keeps runId (seen ++ deliveries) (deliver snapshots deliveries runId) := by
  induction deliveries generalizing seen snapshots with
  | nil => simpa [deliver] using h
  | cons d deliveries ih =>
    have hnext := ih (keeps_accept h d)
    rw [List.append_assoc] at hnext
    exact hnext

/-- A terminal summary is never replaced. -/
theorem deliver_terminal {runId : String} {snapshots : Snapshots} {current : RunMetadata} (hs : snapshots runId = some current)
    (hterm : current.state.isTerminal = true) (deliveries : List RunMetadata) :
    deliver snapshots deliveries runId = some current := by
  induction deliveries generalizing snapshots with
  | nil => exact hs
  | cons d deliveries ih =>
    refine ih ?_
    rcases acceptSummary_cases snapshots d runId with ⟨-, heq⟩ | ⟨-, hnone, -⟩ | ⟨current', -, hsome, hcase⟩
    · exact heq.trans hs
    · rw [hs] at hnone
      cases hnone
    · obtain rfl : current = current' := by rw [hs] at hsome; simpa using hsome
      rcases hcase with ⟨heq, -⟩ | ⟨-, hlive, -⟩
      · exact heq
      · rw [hterm] at hlive
        cases hlive

section History

variable {start : RunMetadata} {ts : List Transition} {runId : String} {deliveries : List RunMetadata}

/-- What is kept is a delivered record, and the history leads from it only forwards. -/
theorem deliver_forward (hfrom : ∀ d ∈ deliveries, d.id = runId → Recorded start ts d) {snapshots : Snapshots} {current : RunMetadata}
    (hs : snapshots runId = some current) (hcurrent : Recorded start ts current) :
    ∃ next, deliver snapshots deliveries runId = some next ∧ Recorded start ts next ∧
      current.version ≤ next.version := by
  induction deliveries generalizing snapshots current with
  | nil => exact ⟨current, hs, hcurrent, le_refl _⟩
  | cons d deliveries ih =>
    have hrest : ∀ d' ∈ deliveries, d'.id = runId → Recorded start ts d' := by
      intro d' hd'
      exact hfrom d' (List.mem_cons_of_mem _ hd')
    rcases acceptSummary_cases snapshots d runId with ⟨-, heq⟩ | ⟨-, hnone, -⟩ | ⟨current', hid, hsome, hcase⟩
    · exact ih hrest (heq.trans hs) hcurrent
    · rw [hs] at hnone
      cases hnone
    · obtain rfl : current = current' := by rw [hs] at hsome; simpa using hsome
      rcases hcase with ⟨heq, -⟩ | ⟨heq, -, hup⟩
      · exact ih hrest heq hcurrent
      · have hd : Recorded start ts d := hfrom d List.mem_cons_self hid
        obtain ⟨next, hnext, hrec, hle⟩ := ih hrest heq hd
        exact ⟨next, hnext, hrec, hup.trans hle⟩

/-- The state shown is the one of any delivered summary of the highest version. -/
theorem deliver_state (hi : RunTransitions.Inv start) (hfrom : ∀ d ∈ deliveries, d.id = runId → Recorded start ts d)
    {snapshots : Snapshots} (hs : snapshots runId = none) {top : RunMetadata} (htop : top ∈ deliveries) (hid : top.id = runId)
    (hmax : ∀ d ∈ deliveries, d.id = runId → d.version ≤ top.version) :
    (deliver snapshots deliveries runId).map (·.state) = some top.state := by
  have hkeeps : Keeps runId ([] ++ deliveries) (deliver snapshots deliveries runId) :=
    keeps_deliver (by rw [hs]; exact fun d hd => nomatch hd) deliveries
  rw [List.nil_append] at hkeeps
  cases hkept : deliver snapshots deliveries runId with
  | none =>
    rw [hkept] at hkeeps
    exact absurd hid (hkeeps top htop)
  | some current =>
    rw [hkept] at hkeeps
    obtain ⟨hmem, hcid, hwhy⟩ := hkeeps
    have hcurrent := hfrom current hmem hcid
    have htopRec := hfrom top htop hid
    have hle := hmax current hmem hcid
    rcases hwhy with hterm | hhigh
    · rw [Option.map_some, hcurrent.terminal hi htopRec hterm hle]
    · rw [Option.map_some, hcurrent.unique hi htopRec (le_antisymm hle (hhigh top htop hid))]

end History

/-- Of the summaries of a run, one has the highest version. -/
theorem exists_highest {runId : String} {deliveries : List RunMetadata} (h : ∃ d ∈ deliveries, d.id = runId) :
    ∃ top ∈ deliveries, top.id = runId ∧ ∀ d ∈ deliveries, d.id = runId → d.version ≤ top.version := by
  obtain ⟨d, hd, hdid⟩ := h
  obtain ⟨top, htop, hmax⟩ := Finset.exists_max_image (deliveries.toFinset.filter (·.id = runId)) (·.version)
    ⟨d, by simp [hd, hdid]⟩
  obtain ⟨hmem, hid⟩ : top ∈ deliveries ∧ top.id = runId := by simpa using htop
  exact ⟨top, hmem, hid, fun d hd hdid => hmax d (by simp [hd, hdid])⟩

/-- For every history of a run and every list of deliveries in which the run's summaries are
    records of it, in any order and number: the kept summary moves only forwards, a terminal
    one stays, the state shown is that of the delivered summary with the highest version, and
    two deliveries of the same set show the same state. -/
theorem snapshot_converges (runId : String) (request : CreateRunRequest) (subject : String) (now : DateTimeOffset)
    (ts : List Transition) (snapshots : Snapshots) (deliveries : List RunMetadata)
    (hfresh : snapshots runId = none)
    (hfrom : ∀ d ∈ deliveries, d.id = runId → Recorded (RunTransitions.create runId request subject now) ts d) :
    (∀ before after, deliveries = before ++ after → ∀ current, deliver snapshots before runId = some current →
      ∃ next, deliver snapshots deliveries runId = some next ∧
        Recorded (RunTransitions.create runId request subject now) ts next ∧ current.version ≤ next.version ∧
        (current.state.isTerminal = true → next = current)) ∧
    (∀ top ∈ deliveries, top.id = runId → (∀ d ∈ deliveries, d.id = runId → d.version ≤ top.version) →
      (deliver snapshots deliveries runId).map (·.state) = some top.state) ∧
    (∀ others : List RunMetadata, (∀ d, d ∈ others ↔ d ∈ deliveries) →
      (deliver snapshots others runId).map (·.state) = (deliver snapshots deliveries runId).map (·.state)) := by
  have hi := RunTransitions.create_inv runId request subject now
  refine ⟨?_, ?_, ?_⟩
  · rintro before after rfl current hcurrent
    have hkeeps : Keeps runId ([] ++ before) (deliver snapshots before runId) :=
      keeps_deliver (by rw [hfresh]; exact fun d hd => nomatch hd) before
    rw [List.nil_append, hcurrent] at hkeeps
    have hrec := hfrom current (List.mem_append_left _ hkeeps.1) hkeeps.2.1
    have hsplit : deliver snapshots (before ++ after) = deliver (deliver snapshots before) after := by
      simp [deliver]
    obtain ⟨next, hnext, hnextRec, hle⟩ := deliver_forward
      (fun d (hd : d ∈ after) => hfrom d (List.mem_append_right _ hd)) hcurrent hrec
    refine ⟨next, by rw [hsplit]; exact hnext, hnextRec, hle, fun hterm => ?_⟩
    have hstays := deliver_terminal hcurrent hterm after
    rw [hnext] at hstays
    simpa using hstays
  · intro top htop hid hmax
    exact deliver_state hi hfrom hfresh htop hid hmax
  · intro others hsame
    have hothers : ∀ d ∈ others, d.id = runId → Recorded (RunTransitions.create runId request subject now) ts d := by
      intro d hd
      exact hfrom d ((hsame d).mp hd)
    by_cases hany : ∃ d ∈ deliveries, d.id = runId
    · -- Some delivered summary of the run has the highest version; both lists contain it.
      obtain ⟨top, htop, hid, hmax⟩ := exists_highest hany
      have hshown := deliver_state hi hfrom hfresh htop hid hmax
      have hshown' := deliver_state hi hothers hfresh ((hsame top).mpr htop) hid
        (fun d hd hdid => hmax d ((hsame d).mp hd) hdid)
      rw [hshown, hshown']
    · have hnone : ∀ ds : List RunMetadata, (∀ d ∈ ds, d.id ≠ runId) → deliver snapshots ds runId = none := by
        intro ds hds
        have hkeeps : Keeps runId ([] ++ ds) (deliver snapshots ds runId) :=
          keeps_deliver (by rw [hfresh]; exact fun d hd => nomatch hd) ds
        rw [List.nil_append] at hkeeps
        cases hkept : deliver snapshots ds runId with
        | none => rfl
        | some current =>
          rw [hkept] at hkeeps
          exact absurd hkeeps.2.1 (hds current hkeeps.1)
      rw [hnone deliveries fun d hd hid => hany ⟨d, hd, hid⟩,
        hnone others fun d hd hid => hany ⟨d, (hsame d).mp hd, hid⟩]

def sampleRequest : CreateRunRequest :=
  ⟨"request-1", "regional-sales", "profit by region", 1, "Etc/UTC", .regionalQuarterlyProfit, .thread, .normal⟩

def sampleRunId : String := "run_0123456789abcdef0123456789abcdef"

def sampleCreated : RunMetadata := RunTransitions.create sampleRunId sampleRequest "user-a" 1

def sampleHistory : List Transition := [.fail "start_failed" "The run could not be started." 2]

/-- The failure overtakes the answer of the create. -/
theorem overtaken_create_shows_failed :
    (deliver (fun _ => none) [RunTransitions.run sampleCreated sampleHistory, sampleCreated] sampleRunId).map (·.state) =
      some .failed := by
  refine (snapshot_converges sampleRunId sampleRequest "user-a" 1 sampleHistory (fun _ => none)
    [RunTransitions.run sampleCreated sampleHistory, sampleCreated] rfl ?_).2.1
    (RunTransitions.run sampleCreated sampleHistory) List.mem_cons_self rfl ?_
  · intro d hd _
    rcases List.mem_cons.mp hd with rfl | hd
    · exact ⟨1, rfl⟩
    · rw [List.mem_singleton.mp hd]
      exact ⟨0, rfl⟩
  · intro d hd _
    rcases List.mem_cons.mp hd with rfl | hd
    · exact le_refl _
    · rw [List.mem_singleton.mp hd]
      decide +kernel

end DataNexus.Web
