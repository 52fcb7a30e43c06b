/-
  DataNexus.Runtime.ResultPages — the pages of a committed table
  (`ParquetResultStore._read_page_sync`, `InlineResultStore.read_page`).

  A table is divided into parts, and each part into row groups; a part records how many rows
  its groups have. `window` is what a page is: the rows after `skip`, `remaining` of them.
  The loop over the groups of a part moves a cursor that has read the window of the groups so
  far (`readGroups_reads`), a part is skipped when the window starts behind it, and the loop
  over the parts has read the window of the whole table (`readParts_reads`). Pages one after
  another, until a short one, are the table (`readPages_all`).
-/

import DataNexus.Runtime.ResultStore

namespace DataNexus.Runtime.ResultStore

variable {S R : Type}

/-- `files` are the parts of a table, with the row counts of their groups. -/
structure Divides (dir : Option (Dir S R)) (table : Table S R) (parts : List ResultPart) (files : List (ParquetFile S R)) :
    Prop where
  read : List.Forall₂ (fun part file => (dir.bind fun files => files part.path) = some (.parquet file) ∧
    part.rows = (file.groups.map List.length).sum ∧ file.schema = table.schema) parts files
  rows : table.rows = files.flatMap fun file => file.groups.flatten

/-- Pages at `offset`, `offset + limit`, …, until a short one. -/
def readPages (page : Nat → Except Failure (Table S R)) (limit : Nat) : Nat → Nat → Except Failure (List R)
  | 0, _ => .error .other
  | fuel + 1, offset => do
    let table ← page offset
    if table.rows.length < limit then return table.rows
    return table.rows ++ (← readPages page limit fuel (offset + limit))

/-! ## Windows -/

def window (skip remaining : Nat) (rows : List R) : List R := (rows.drop skip).take remaining

theorem window_append (skip remaining : Nat) (xs ys : List R) :
    window skip remaining (xs ++ ys) =
      window skip remaining xs ++ window (skip - xs.length) (remaining - (window skip remaining xs).length) ys := by
  simp only [window, List.drop_append, List.take_append, List.length_take, List.length_drop]
  congr 2
  omega

theorem window_of_le {skip : Nat} {rows : List R} (h : rows.length ≤ skip) (remaining : Nat) : window skip remaining rows = [] := by
  simp [window, List.drop_eq_nil_of_le h]

theorem window_zero (skip : Nat) (rows : List R) : window skip 0 rows = [] := by simp [window]

namespace Platform

/-- The cursor has read a window of these rows, and goes on behind them. -/
structure Reads (cursor next : Cursor S R) (rows : List R) : Prop where
  chunks : next.chunks.flatten = cursor.chunks.flatten ++ window cursor.skip cursor.remaining rows
  remaining : next.remaining = cursor.remaining - (window cursor.skip cursor.remaining rows).length
  skip : next.remaining ≠ 0 → next.skip = cursor.skip - rows.length
  schema : next.schema = cursor.schema

theorem Reads.trans {cursor middle next : Cursor S R} {xs ys : List R} (h : Reads cursor middle xs) (h' : Reads middle next ys)
    (hmore : middle.remaining ≠ 0) : Reads cursor next (xs ++ ys) := by
  have hskip := h.skip hmore
  have hwindow : window middle.skip middle.remaining ys =
      window (cursor.skip - xs.length) (cursor.remaining - (window cursor.skip cursor.remaining xs).length) ys := by
    rw [hskip, h.remaining]
  refine ⟨?_, ?_, ?_, h'.schema.trans h.schema⟩
  · rw [h'.chunks, h.chunks, window_append, hwindow, List.append_assoc]
  · rw [h'.remaining, hwindow, h.remaining, window_append, List.length_append]
    omega
  · intro hnext
    rw [h'.skip hnext, hskip, List.length_append]
    omega

/-- A cursor that wants nothing more has read the window of anything behind. -/
theorem Reads.stop {cursor next : Cursor S R} {xs : List R} (h : Reads cursor next xs) (hdone : next.remaining = 0)
    (ys : List R) : Reads cursor next (xs ++ ys) := by
  have hnone : cursor.remaining - (window cursor.skip cursor.remaining xs).length = 0 := by
    rw [← h.remaining, hdone]
  refine ⟨?_, ?_, fun hmore => absurd hdone hmore, h.schema⟩
  · rw [h.chunks, window_append, hnone, window_zero, List.append_nil]
  · rw [window_append, hnone, window_zero, List.append_nil]
    exact h.remaining

theorem readGroups_reads (cursor : Cursor S R) (groups : List (List R)) : Reads cursor (readGroups cursor groups) groups.flatten := by
  induction groups generalizing cursor with
  | nil => exact ⟨by simp [readGroups, window], by simp [readGroups, window], fun _ => by simp [readGroups], rfl⟩
  | cons group rest ih =>
    rw [readGroups, List.flatten_cons]
    split
    · rename_i hskip
      -- The window starts behind this group.
      have hpass : Reads cursor { cursor with skip := cursor.skip - group.length } group := by
        refine ⟨?_, ?_, fun _ => rfl, rfl⟩
        · rw [window_of_le hskip, List.append_nil]
        · rw [window_of_le hskip]
          rfl
      by_cases hdone : cursor.remaining = 0
      · have hrest := ih { cursor with skip := cursor.skip - group.length }
        refine ⟨?_, ?_, ?_, hrest.schema⟩
        · rw [hrest.chunks, hdone, window_zero, window_zero]
        · rw [hrest.remaining, hdone]
          omega
        · intro hmore
          rw [hrest.remaining, hdone] at hmore
          omega
      · exact hpass.trans (ih _) hdone
    · rename_i hskip
      dsimp only
      have htake : (group.drop cursor.skip).take (min cursor.remaining (group.length - cursor.skip)) =
          window cursor.skip cursor.remaining group := by
        rw [window, List.take_eq_take_iff, List.length_drop]
        omega
      have hlength : (window cursor.skip cursor.remaining group).length = min cursor.remaining (group.length - cursor.skip) := by
        rw [window, List.length_take, List.length_drop]
      have htaken : Reads cursor { cursor with
          chunks := cursor.chunks ++ [(group.drop cursor.skip).take (min cursor.remaining (group.length - cursor.skip))]
          remaining := cursor.remaining - min cursor.remaining (group.length - cursor.skip)
          skip := 0 } group := by
        refine ⟨?_, ?_, ?_, rfl⟩
        · simp only [List.flatten_append, List.flatten_singleton, htake]
        · rw [hlength]
        · intro _
          show 0 = cursor.skip - group.length
          omega
      split
      · rename_i hdone
        exact htaken.stop hdone rest.flatten
      · rename_i hmore
        exact htaken.trans (ih _) hmore

/-- The loop over the parts, for a window that starts anywhere. -/
theorem readParts_reads {dir : Option (Dir S R)} {schema : S} {parts : List ResultPart} {files : List (ParquetFile S R)}
    (h : List.Forall₂ (fun part file => (dir.bind fun files => files part.path) = some (.parquet file) ∧
      part.rows = (file.groups.map List.length).sum ∧ file.schema = schema) parts files)
    (cursor : Cursor S R) (hschema : cursor.schema = some schema ∨ cursor.schema = none) :
    ∃ next, readParts dir cursor parts = .ok next ∧
      next.chunks.flatten = cursor.chunks.flatten ++ window cursor.skip cursor.remaining (files.flatMap fun file => file.groups.flatten) ∧
      (next.schema = some schema ∨ next.schema = cursor.schema) ∧
      (parts ≠ [] → cursor.remaining ≠ 0 → next.schema = some schema) := by
  induction h generalizing cursor with
  | nil => exact ⟨cursor, rfl, by simp [window], .inr rfl, fun hne => absurd rfl hne⟩
  | @cons part file parts files hpart _ ih =>
    obtain ⟨hfile, hrows, hfileSchema⟩ := hpart
    have hlength : file.groups.flatten.length = part.rows := by
      rw [hrows, List.length_flatten]
    rw [readParts]
    split
    · rename_i hdone
      refine ⟨cursor, rfl, ?_, .inr rfl, fun _ hmore => absurd hdone hmore⟩
      rw [hdone, window_zero, List.append_nil]
    rename_i hmore
    rw [hfile]
    dsimp only
    have hopened : some (cursor.schema.getD file.schema) = some schema := by
      rcases hschema with hs | hs
      · rw [hs, Option.getD_some]
      · rw [hs, Option.getD_none, hfileSchema]
    rw [hopened, List.flatMap_cons]
    split
    · rename_i hskip
      obtain ⟨next, hnext, hchunks, hkept, -⟩ := ih ⟨cursor.chunks, cursor.remaining, cursor.skip - part.rows, some schema⟩ (.inl rfl)
      have hbehind : file.groups.flatten.length ≤ cursor.skip := by
        rw [hlength]
        exact hskip
      have hall : next.schema = some schema := by
        rcases hkept with hs | hs
        · exact hs
        · exact hs
      refine ⟨next, hnext, ?_, .inl hall, fun _ _ => hall⟩
      rw [hchunks, window_append, window_of_le hbehind, List.nil_append, hlength]
      rfl
    · rename_i hskip
      have hreads := readGroups_reads ⟨cursor.chunks, cursor.remaining, cursor.skip, some schema⟩ file.groups
      obtain ⟨next, hnext, hchunks, hkept, -⟩ := ih (readGroups ⟨cursor.chunks, cursor.remaining, cursor.skip, some schema⟩ file.groups)
        (.inl hreads.schema)
      have hall : next.schema = some schema := by
        rcases hkept with hs | hs
        · exact hs
        · rw [hs, hreads.schema]
      refine ⟨next, hnext, ?_, .inl hall, fun _ _ => hall⟩
      rw [hchunks, hreads.chunks, List.append_assoc, window_append]
      by_cases hdone : (readGroups ⟨cursor.chunks, cursor.remaining, cursor.skip, some schema⟩ file.groups).remaining = 0
      · have hnone : cursor.remaining - (window cursor.skip cursor.remaining file.groups.flatten).length = 0 :=
          hreads.remaining.symm.trans hdone
        rw [hdone, hnone, window_zero, window_zero]
      · rw [hreads.skip hdone, hreads.remaining]

end Platform

/-! ## Pages -/

open Platform

variable (p : Platform S R)

theorem readPageSync_eq {dir : Option (Dir S R)} {table : Table S R} {parts : List ResultPart} {files : List (ParquetFile S R)}
    (h : Divides dir table parts files) {manifest : CommittedManifest S} (hparts : manifest.parts = parts) (offset : Nat)
    {limit : Nat} (hlimit : limit ≠ 0) :
    ∃ schema, p.readPageSync dir manifest offset limit = .ok ⟨schema, window offset limit table.rows⟩ ∧
      (parts ≠ [] → schema = table.schema) := by
  obtain ⟨next, hnext, hchunks, -, hschema⟩ := readParts_reads h.read ⟨[], limit, offset, none⟩ (.inr rfl)
  refine ⟨next.schema.getD p.emptySchema, ?_, ?_⟩
  · rw [readPageSync, hparts, hnext, h.rows]
    show Except.ok _ = _
    rw [hchunks]
    rfl
  · intro hne
    rw [hschema hne hlimit]
    rfl

/-- A page that is short is the last one; a full one leaves less than before. -/
theorem readPages_all {page : Nat → Except Failure (Table S R)} {rows : List R} {limit : Nat} (hlimit : limit ≠ 0)
    (hpage : ∀ offset, ∃ schema, page offset = .ok ⟨schema, window offset limit rows⟩) {fuel offset : Nat}
    (hfuel : rows.length < offset + fuel * limit) : readPages page limit fuel offset = .ok (rows.drop offset) ∨ fuel = 0 := by
  induction fuel generalizing offset with
  | zero => exact .inr rfl
  | succ fuel ih =>
    obtain ⟨schema, hthis⟩ := hpage offset
    have hlength : (window offset limit rows).length = min limit (rows.length - offset) := by
      rw [window, List.length_take, List.length_drop]
    refine .inl ?_
    rw [readPages, hthis]
    show (if (window offset limit rows).length < limit then _ else _) = _
    split
    · rename_i hshort
      have hrest : window offset limit rows = rows.drop offset := by
        rw [window, List.take_of_length_le]
        rw [List.length_drop]
        omega
      rw [← hrest]
      rfl
    · rename_i hfull
      rw [Nat.succ_mul] at hfuel
      have hleft : rows.length < offset + limit + fuel * limit := by omega
      rcases ih hleft with hih | rfl
      · rw [hih]
        show Except.ok (window offset limit rows ++ rows.drop (offset + limit)) = _
        rw [window, ← List.drop_drop, List.take_append_drop]
      · omega

/-- A page of a divided table is a slice of it, whatever the parts and their groups, under the
    table's schema if there is a part to take it from; the inline store gives the same rows; and
    the pages of a fixed size, up to the first short one, are the table. -/
theorem pages_are_slices {dir : Option (Dir S R)} {table : Table S R} {parts : List ResultPart}
    {files : List (ParquetFile S R)} (h : Divides dir table parts files) {manifest : CommittedManifest S}
    (hparts : manifest.parts = parts) {limit : Nat} (hlimit : 1 ≤ limit ∧ limit ≤ 10000) :
    (∀ offset, ∃ schema,
      p.readPageSync dir manifest offset limit = .ok ⟨schema, (table.rows.drop offset).take limit⟩ ∧
        (parts ≠ [] → schema = table.schema)) ∧
    (∀ (offset : Nat) (s : State S R) (handle : ResultHandle) (inline : CommittedManifest S),
      s.inlineManifests handle.resultId = some inline → handle = inline.result →
      s.inlineTables handle.resultId = some table →
        readInline s handle offset limit = .ok ⟨table.schema, (table.rows.drop offset).take limit⟩) ∧
    readPages (fun offset => p.readPageSync dir manifest offset limit) limit (table.rows.length / limit + 1) 0 =
      .ok table.rows := by
  have hne : limit ≠ 0 := by omega
  refine ⟨fun offset => readPageSync_eq p h hparts offset hne, ?_, ?_⟩
  · intro offset s handle inline hmanifest hhandle htable
    have hvalid : validatePage offset limit = .ok () := by
      unfold validatePage
      rw [if_neg]
      omega
    simp only [readInline, hvalid, hmanifest]
    rw [if_neg (by simpa using hhandle), htable]
    rfl
  · have hfuel : table.rows.length < 0 + (table.rows.length / limit + 1) * limit := by
      rw [Nat.zero_add, Nat.succ_mul]
      have := Nat.div_add_mod' table.rows.length limit
      have := Nat.mod_lt table.rows.length (show 0 < limit by omega)
      omega
    have hpage : ∀ offset, ∃ schema,
        p.readPageSync dir manifest offset limit = .ok ⟨schema, window offset limit table.rows⟩ := by
      intro offset
      obtain ⟨schema, hschema, -⟩ := readPageSync_eq p h hparts offset hne
      exact ⟨schema, hschema⟩
    rcases readPages_all hne hpage hfuel with hall | hzero
    · exact hall
    · exact absurd hzero (Nat.succ_ne_zero _)

/-- Five rows in three parts, one of them empty, with empty groups. -/
def splitFiles : List (ParquetFile Unit Nat) := [⟨(), [[1, 2], [], [3]]⟩, ⟨(), []⟩, ⟨(), [[], [4, 5]]⟩]

def splitParts : List ResultPart := [⟨"a", 3, 0⟩, ⟨"b", 0, 0⟩, ⟨"c", 2, 0⟩]

def splitDir : Dir Unit Nat := fun path => ((["a", "b", "c"].zip splitFiles).lookup path).map Content.parquet

def splitPlatform : Platform Unit Nat where
  root := "/results"
  digest value := value
  retainedTableSize table := table.rows.length
  rowGroups rows := [rows]
  fileSize _ := 0
  emptySchema := ()
  inlineMaxBytes := 0

theorem split_pages :
    Divides (some splitDir) ⟨(), [1, 2, 3, 4, 5]⟩ splitParts splitFiles ∧
    readPages (fun offset => splitPlatform.readPageSync (some splitDir)
      ⟨⟨"r", "run", "node", .parquet, "/results"⟩, (), 5, 0, splitParts, 0⟩ offset 2) 2 3 0 = .ok [1, 2, 3, 4, 5] := by
  have hdivides : Divides (some splitDir) ⟨(), [1, 2, 3, 4, 5]⟩ splitParts splitFiles :=
    ⟨.cons ⟨rfl, rfl, rfl⟩ (.cons ⟨rfl, rfl, rfl⟩ (.cons ⟨rfl, rfl, rfl⟩ .nil)), rfl⟩
  exact ⟨hdivides, (pages_are_slices splitPlatform hdivides rfl ⟨by decide, by decide⟩).2.2⟩

end DataNexus.Runtime.ResultStore
