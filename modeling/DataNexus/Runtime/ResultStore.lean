/-
  DataNexus.Runtime.ResultStore — committing result tables and reading pages of them
  (`InlineResultStore`, `ParquetResultStore` and `HybridResultStore`, in `result_store.py`).

  Actors. A commit of a small table is one synchronous step. A larger one makes a temporary
  directory and has a thread write the Parquet part and the manifest into it; the coroutine
  waits for the thread, then writes the marker and renames the directory to its final path.
  The caller may cancel it while it waits, and it cancels itself when the run's cancel event
  is set after the write; either way a cleanup task waits for the thread and removes the
  temporary directory, in up to three attempts, and goes on when it is cancelled itself. An
  error on the way removes the directory in place. Each event is one of these steps, for the
  commit with the given result id; the events of different commits and of their threads
  and cleanups interleave freely, and a write, rename or removal fails where the event says
  so. `read_page` checks the handle in one step and reads the part in a later one.

  Directories are found by their path below the root; the hash in it, the sizes and the row
  groups of a written file are the `Platform`'s. Result ids come from `uuid4`: an id that is
  taken already starts nothing. A manifest is read back from its JSON as it was written.
  Parent directories, which hold no files, are left out.
-/

import Mathlib

namespace DataNexus.Runtime.ResultStore

variable {S R : Type}

/-! ## Data -/

/-- `pa.Table`. -/
structure Table (S R : Type) where
  schema : S
  rows : List R
  deriving DecidableEq

def Table.slice (table : Table S R) (offset limit : Nat) : Table S R :=
  ⟨table.schema, (table.rows.drop offset).take limit⟩

inductive Storage where
  | inline
  | parquet
  deriving DecidableEq

structure ResultHandle where
  resultId : String
  runId : String
  nodeId : String
  storage : Storage
  uri : String
  deriving DecidableEq

structure ResultPart where
  path : String
  rows : Nat
  bytes : Nat
  deriving DecidableEq

structure CommittedManifest (S : Type) where
  result : ResultHandle
  schema : S
  rowCount : Nat
  byteCount : Nat
  parts : List ResultPart
  committedAt : Int

/-- A Parquet file: its schema and its row groups. -/
structure ParquetFile (S R : Type) where
  schema : S
  groups : List (List R)

inductive Content (S R : Type) where
  /-- A write that failed on the way. -/
  | torn
  | marker
  | manifest (value : CommittedManifest S)
  | parquet (file : ParquetFile S R)

/-- A directory: the files in it. -/
abbrev Dir (S R : Type) := String → Option (Content S R)

abbrev Path := List String

structure Platform (S R : Type) where
  root : String
  /-- `hashlib.sha256(value).hexdigest()`. -/
  digest : String → String
  retainedTableSize : Table S R → Nat
  /-- The row groups `pq.write_table` splits the rows into. -/
  rowGroups : List R → List (List R)
  fileSize : ParquetFile S R → Nat
  /-- `pa.schema([])`. -/
  emptySchema : S
  inlineMaxBytes : Nat

/-- `ResultStoreFailure` with its code and message; `other` is any exception the store does
    not raise itself. -/
inductive Failure where
  | failure (code message : String)
  | other
  deriving DecidableEq

/-! ## Ids and paths -/

def isIdStart (c : Char) : Bool := ('A' ≤ c && c ≤ 'Z') || ('a' ≤ c && c ≤ 'z') || ('0' ≤ c && c ≤ '9')

def isIdChar (c : Char) : Bool := isIdStart c || c = '.' || c = '_' || c = '-'

/-- `_SAFE_ID.fullmatch`. -/
def isSafeId (value : String) : Bool :=
  match value.toList with
  | [] => false
  | first :: rest => isIdStart first && rest.all isIdChar && rest.length ≤ 159

def validateId (value kind : String) : Except Failure Unit :=
  if isSafeId value then .ok ()
  else .error (.failure "RESULT_PATH_INVALID" (kind ++ " contains characters that are unsafe for result storage"))

namespace Platform

variable (p : Platform S R)

def encodePathComponent (value : String) : String := "id-" ++ p.digest value

/-- `run_root / f".tmp-{result_id}"`. -/
def temporaryPath (runId nodeId resultId : String) : Path :=
  [p.encodePathComponent runId, p.encodePathComponent nodeId, ".tmp-" ++ resultId]

/-- `_safe_child(run_id, node_id, result_id)`. -/
def finalPath (runId nodeId resultId : String) : Path :=
  [p.encodePathComponent runId, p.encodePathComponent nodeId, p.encodePathComponent resultId]

/-- `str(path)`. -/
def pathText (path : Path) : String := p.root ++ String.join (path.map ("/" ++ ·))

def inlineHandle (runId nodeId resultId : String) : ResultHandle :=
  { resultId := resultId, runId := runId, nodeId := nodeId, storage := .inline
    uri := "inline://" ++ runId ++ "/" ++ nodeId ++ "/" ++ resultId }

def parquetHandle (runId nodeId resultId : String) : ResultHandle :=
  { resultId := resultId, runId := runId, nodeId := nodeId, storage := .parquet
    uri := p.pathText (p.finalPath runId nodeId resultId) }

end Platform

def partName : String := "part-00000.parquet"

def manifestName : String := "manifest.json"

def markerName : String := "_COMMITTED"

/-! ## Commits -/

/-- How a commit stands: still waiting for its writer, or how it ended. -/
inductive Phase (S : Type) where
  | writing
  | returned (manifest : CommittedManifest S)
  /-- An exception; whether the temporary directory is gone. -/
  | raised (cleaned : Bool)
  | cancelled

/-- The thread: how many files it has written, or how it ended. -/
inductive Writer (S : Type) where
  | running (written : Nat)
  | done (manifest : CommittedManifest S)
  | failed

/-- `_cleanup_cancelled_write`. -/
inductive Cleanup where
  | none
  | waiting
  | removing (attempts : Nat)
  | finished
  | failed
  deriving DecidableEq

structure Commit (S R : Type) where
  runId : String
  nodeId : String
  table : Table S R
  storage : Storage
  phase : Phase S
  writer : Writer S
  cleanup : Cleanup

structure State (S R : Type) where
  dirs : Path → Option (Dir S R)
  inlineTables : String → Option (Table S R)
  inlineManifests : String → Option (CommittedManifest S)
  commits : String → Option (Commit S R)

def State.empty : State S R :=
  { dirs := fun _ => none, inlineTables := fun _ => none, inlineManifests := fun _ => none, commits := fun _ => none }

/-- A Parquet commit with its two directories. -/
structure Slot (S R : Type) where
  commit : Commit S R
  temporary : Option (Dir S R)
  final : Option (Dir S R)

namespace Platform

variable (p : Platform S R)

def slot (s : State S R) (resultId : String) (commit : Commit S R) : Slot S R :=
  ⟨commit, s.dirs (p.temporaryPath commit.runId commit.nodeId resultId),
    s.dirs (p.finalPath commit.runId commit.nodeId resultId)⟩

def store (s : State S R) (resultId : String) (slot : Slot S R) : State S R :=
  { s with
    commits := Function.update s.commits resultId (some slot.commit)
    dirs := Function.update (Function.update s.dirs
      (p.temporaryPath slot.commit.runId slot.commit.nodeId resultId) slot.temporary)
      (p.finalPath slot.commit.runId slot.commit.nodeId resultId) slot.final }

/-! ## Starting a commit -/

def inlineManifest (runId nodeId resultId : String) (table : Table S R) (now : Int) : CommittedManifest S :=
  { result := inlineHandle runId nodeId resultId
    schema := table.schema
    rowCount := table.rows.length
    byteCount := p.retainedTableSize table
    parts := [⟨(inlineHandle runId nodeId resultId).uri, table.rows.length, p.retainedTableSize table⟩]
    committedAt := now }

/-- `InlineResultStore.commit` after its checks. -/
def commitInline (s : State S R) (runId nodeId resultId : String) (table : Table S R) (cancelSet : Bool) (now : Int) :
    State S R :=
  let commit (phase : Phase S) : Commit S R :=
    { runId := runId, nodeId := nodeId, table := table, storage := .inline, phase := phase, writer := .failed
      cleanup := .none }
  let manifest := p.inlineManifest runId nodeId resultId table now
  if cancelSet then { s with commits := Function.update s.commits resultId (some (commit .cancelled)) }
  else
    { s with
      inlineTables := Function.update s.inlineTables resultId (some table)
      inlineManifests := Function.update s.inlineManifests resultId (some manifest)
      commits := Function.update s.commits resultId (some (commit (.returned manifest))) }

/-- `ParquetResultStore.commit` up to its first wait. -/
def commitParquet (s : State S R) (runId nodeId resultId : String) (table : Table S R) (mkdirFails : Bool) : State S R :=
  let commit (phase : Phase S) (writer : Writer S) : Commit S R :=
    { runId := runId, nodeId := nodeId, table := table, storage := .parquet, phase := phase, writer := writer
      cleanup := .none }
  let temporary := p.temporaryPath runId nodeId resultId
  if mkdirFails ∨ (s.dirs temporary).isSome then
    { s with commits := Function.update s.commits resultId (some (commit (.raised (s.dirs temporary).isNone) .failed)) }
  else
    { s with
      commits := Function.update s.commits resultId (some (commit .writing (.running 0)))
      dirs := Function.update s.dirs temporary (some fun _ => none) }

/-- `HybridResultStore.commit`. An unsafe id raises before anything is done. -/
def commit (s : State S R) (runId nodeId resultId : String) (table : Table S R) (cancelSet mkdirFails : Bool)
    (now : Int) : State S R :=
  if isSafeId runId ∧ isSafeId nodeId ∧ isSafeId resultId ∧ (s.commits resultId).isNone then
    if p.retainedTableSize table ≤ p.inlineMaxBytes then p.commitInline s runId nodeId resultId table cancelSet now
    else p.commitParquet s runId nodeId resultId table mkdirFails
  else s

/-! ## The thread, the coroutine and the cleanup -/

def written (table : Table S R) : ParquetFile S R := ⟨table.schema, p.rowGroups table.rows⟩

/-- The manifest `_write_temporary` makes. -/
def manifest (commit : Commit S R) (resultId : String) (now : Int) : CommittedManifest S :=
  let size := p.fileSize (p.written commit.table)
  { result := p.parquetHandle commit.runId commit.nodeId resultId
    schema := commit.table.schema
    rowCount := commit.table.rows.length
    byteCount := size
    parts := [⟨partName, commit.table.rows.length, size⟩]
    committedAt := now }

/-- The next write of the thread. -/
def write (resultId : String) (slot : Slot S R) (fails : Bool) (now : Int) : Slot S R :=
  match slot.commit.writer, slot.temporary with
  | .running 0, some dir =>
    if fails then
      { slot with temporary := some (Function.update dir partName (some .torn))
                  commit := { slot.commit with writer := .failed } }
    else
      { slot with temporary := some (Function.update dir partName (some (.parquet (p.written slot.commit.table))))
                  commit := { slot.commit with writer := .running 1 } }
  | .running _, some dir =>
    if fails then
      { slot with temporary := some (Function.update dir manifestName (some .torn))
                  commit := { slot.commit with writer := .failed } }
    else
      let manifest := p.manifest slot.commit resultId now
      { slot with temporary := some (Function.update dir manifestName (some (.manifest manifest)))
                  commit := { slot.commit with writer := .done manifest } }
  | .running _, none => { slot with commit := { slot.commit with writer := .failed } }
  | _, _ => slot

end Platform

namespace Slot

/-- `raise DeferredCleanupCancellation(cleanup)`. -/
def cancelled (slot : Slot S R) : Slot S R :=
  { slot with commit := { slot.commit with phase := .cancelled, cleanup := .waiting } }

/-- `except Exception`: the directory is removed in place; a removal that fails leaves some
    files and raises. -/
def raised (slot : Slot S R) (leftover : Option (Dir S R)) : Slot S R :=
  match slot.temporary with
  | none => { slot with commit := { slot.commit with phase := .raised true } }
  | some _ => { slot with temporary := leftover, commit := { slot.commit with phase := .raised leftover.isNone } }

/-- The coroutine after the wait: marker, then rename. `os.replace` does not replace a
    directory that is there. -/
def publish (slot : Slot S R) (manifest : CommittedManifest S) (cancelSet markerFails renameFails : Bool)
    (leftover : Option (Dir S R)) : Slot S R :=
  if cancelSet then slot.cancelled
  else if markerFails then slot.raised leftover
  else
    match slot.temporary, slot.final with
    | some dir, none =>
      if renameFails then slot.raised leftover
      else
        { temporary := none, final := some (Function.update dir markerName (some .marker))
          commit := { slot.commit with phase := .returned manifest } }
    | _, _ => slot.raised leftover

def resume (slot : Slot S R) (cancelSet markerFails renameFails : Bool) (leftover : Option (Dir S R)) : Slot S R :=
  match slot.commit.phase, slot.commit.writer with
  | .writing, .done manifest => slot.publish manifest cancelSet markerFails renameFails leftover
  | .writing, .failed => slot.raised leftover
  | _, _ => slot

/-- The caller's cancellation, delivered where the coroutine waits. -/
def cancel (slot : Slot S R) : Slot S R :=
  match slot.commit.phase with
  | .writing => slot.cancelled
  | _ => slot

def withCleanup (slot : Slot S R) (cleanup : Cleanup) : Slot S R :=
  { slot with commit := { slot.commit with cleanup := cleanup } }

/-- A step of the cleanup, once the thread has ended. -/
def clean (slot : Slot S R) (leftover : Option (Dir S R)) : Slot S R :=
  match slot.commit.cleanup, slot.commit.writer with
  | _, .running _ => slot
  | .waiting, _ => slot.withCleanup (if slot.temporary.isSome then .removing 3 else .finished)
  | .removing attempts, _ =>
    match slot.temporary, leftover with
    | none, _ => slot.withCleanup .finished
    | some _, none => { slot.withCleanup .finished with temporary := none }
    | some _, some dir =>
      { slot.withCleanup (if attempts ≤ 1 then .failed else .removing (attempts - 1)) with temporary := some dir }
  | _, _ => slot

end Slot

/-! ## Runs -/

inductive Event (S R : Type) where
  | commit (runId nodeId resultId : String) (table : Table S R) (cancelSet mkdirFails : Bool) (now : Int)
  | write (resultId : String) (fails : Bool) (now : Int)
  | resume (resultId : String) (cancelSet markerFails renameFails : Bool) (leftover : Option (Dir S R))
  | cancel (resultId : String)
  | clean (resultId : String) (leftover : Option (Dir S R))

namespace Platform

variable (p : Platform S R)

/-- A step on the directories of one Parquet commit. -/
def onSlot (s : State S R) (resultId : String) (f : Slot S R → Slot S R) : State S R :=
  match s.commits resultId with
  | some commit => if commit.storage = .parquet then p.store s resultId (f (p.slot s resultId commit)) else s
  | none => s

def step (s : State S R) : Event S R → State S R
  | .commit runId nodeId resultId table cancelSet mkdirFails now =>
    p.commit s runId nodeId resultId table cancelSet mkdirFails now
  | .write resultId fails now => p.onSlot s resultId fun slot => p.write resultId slot fails now
  | .resume resultId cancelSet markerFails renameFails leftover =>
    p.onSlot s resultId fun slot => slot.resume cancelSet markerFails renameFails leftover
  | .cancel resultId => p.onSlot s resultId Slot.cancel
  | .clean resultId leftover => p.onSlot s resultId fun slot => slot.clean leftover

def run (events : List (Event S R)) : State S R := events.foldl p.step .empty

/-! ## Reading -/

def validatePage (offset limit : Int) : Except Failure Unit :=
  if offset < 0 ∨ limit ≤ 0 ∨ limit > 10000 then
    .error (.failure "RESULT_PAGE_INVALID"
      "Page offset must be non-negative and limit must be between 1 and 10000")
  else .ok ()

/-- `InlineResultStore.read_page` after the storage is known to be inline. -/
def readInline (s : State S R) (handle : ResultHandle) (offset limit : Int) : Except Failure (Table S R) := do
  validatePage offset limit
  match s.inlineManifests handle.resultId with
  | none => .error (.failure "RESULT_NOT_COMMITTED" "Inline result is not committed")
  | some manifest =>
    if handle ≠ manifest.result then
      .error (.failure "RESULT_HANDLE_INVALID" "Inline result handle does not match the committed manifest")
    else
      match s.inlineTables handle.resultId with
      | none => .error (.failure "RESULT_NOT_COMMITTED" "Inline result is not committed")
      | some table => .ok (table.slice offset.toNat limit.toNat)

/-- `marker.is_file()`, `manifest_path.is_file()` and the manifest's text. -/
def readManifest (dir : Option (Dir S R)) : Except Failure (CommittedManifest S) :=
  match dir with
  | none => .error (.failure "RESULT_NOT_COMMITTED" "Result is not committed")
  | some dir =>
    match dir markerName, dir manifestName with
    | some _, some (.manifest manifest) => .ok manifest
    | some _, some _ => .error .other
    | _, _ => .error (.failure "RESULT_NOT_COMMITTED" "Result is not committed")

/-- `ParquetResultStore.read_page` up to the thread that reads: the directory and the
    manifest to read from. -/
def openParquet (s : State S R) (handle : ResultHandle) (offset limit : Int) :
    Except Failure (Path × CommittedManifest S) := do
  validatePage offset limit
  validateId handle.runId "run_id"
  validateId handle.nodeId "node_id"
  validateId handle.resultId "result_id"
  let path := p.finalPath handle.runId handle.nodeId handle.resultId
  if p.pathText path ≠ handle.uri then
    .error (.failure "RESULT_HANDLE_INVALID" "Result handle URI does not match its isolated path")
  else
    let manifest ← readManifest (s.dirs path)
    if handle ≠ manifest.result then
      .error (.failure "RESULT_HANDLE_INVALID" "Parquet result handle does not match the committed manifest")
    else .ok (path, manifest)

/-- The variables of `_read_page_sync`. -/
structure Cursor (S R : Type) where
  chunks : List (List R)
  remaining : Nat
  skip : Nat
  schema : Option S

/-- The loop over the row groups of one part. -/
def readGroups (cursor : Cursor S R) : List (List R) → Cursor S R
  | [] => cursor
  | group :: rest =>
    if group.length ≤ cursor.skip then readGroups { cursor with skip := cursor.skip - group.length } rest
    else
      let take := min cursor.remaining (group.length - cursor.skip)
      let next := { cursor with
        chunks := cursor.chunks ++ [(group.drop cursor.skip).take take]
        remaining := cursor.remaining - take
        skip := 0 }
      if next.remaining = 0 then next else readGroups next rest

/-- The loop over the parts. -/
def readParts (dir : Option (Dir S R)) (cursor : Cursor S R) : List ResultPart → Except Failure (Cursor S R)
  | [] => .ok cursor
  | part :: rest =>
    if cursor.remaining = 0 then .ok cursor
    else
      match dir.bind fun files => files part.path with
      | some (.parquet file) =>
        let opened := { cursor with schema := some (cursor.schema.getD file.schema) }
        if part.rows ≤ opened.skip then readParts dir { opened with skip := opened.skip - part.rows } rest
        else readParts dir (readGroups opened file.groups) rest
      | _ => .error .other

/-- `_read_page_sync`. -/
def readPageSync (dir : Option (Dir S R)) (manifest : CommittedManifest S) (offset limit : Nat) :
    Except Failure (Table S R) := do
  let cursor ← readParts dir ⟨[], limit, offset, none⟩ manifest.parts
  .ok ⟨cursor.schema.getD p.emptySchema, cursor.chunks.flatten⟩

/-- `HybridResultStore.read_page`: checks in `s`, and reads the part in the later state. -/
def readPage (s later : State S R) (handle : ResultHandle) (offset limit : Int) : Except Failure (Table S R) :=
  match handle.storage with
  | .inline => readInline s handle offset limit
  | .parquet => do
    let opened ← p.openParquet s handle offset limit
    p.readPageSync (later.dirs opened.1) opened.2 offset.toNat limit.toNat

end Platform

end DataNexus.Runtime.ResultStore
