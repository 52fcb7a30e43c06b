/-
  DataNexus.Databricks.ResultChunks — collecting a statement's result, chunk by chunk
  (`StatementExecutionClient._collect_result`, `_consume_chunk`, `_select_continuation` and
  `_fetch_external_link`, in `client.py`).

  The service and the network are a `Server`: what each request of each round is answered
  with, and whether the deadline has passed once the round's chunk is read. A round reads
  one response, its inline rows and all its external links, and picks where to go on: the
  highest announced index not read yet, else a link without an index. URL splitting and
  JSON decoding are the standard library's, taken as they come (`Codec`).

  `visits` is the history of a collection: every response it read with the request that
  followed it.
-/

import DataNexus.Lib.Outcome

namespace DataNexus.Databricks

open Lib

/-! ## What the service sends -/

/-- A decoded JSON value. `number` is any number that is not an integer. -/
inductive Json where
  | null
  | bool (value : Bool)
  | int (value : Int)
  | number (text : String)
  | str (value : String)
  | arr (items : List Json)
  | obj (fields : List (String × Json))

/-- A JSON object: one response, or one external link of it. -/
abbrev Fields := List (String × Json)

/-- `mapping.get(key)`: an absent key reads as `None`, as `null` does. -/
def get (fields : Fields) (key : String) : Json := (fields.lookup key).getD .null

abbrev Bytes := List UInt8

abbrev Row := List (Option String)

inductive ClientError where
  | protocol (message : String)
  | resultDecode (message : String)
  | resultLimitExceeded (message : String)
  | statementTimeout (statementId : String)
  | deadlineExceeded
  | transport (message : String)
  deriving DecidableEq

inductive ResultFormat where
  | jsonArray
  | arrowStream
  | csv
  deriving DecidableEq

structure ResultColumn where
  name : String
  position : Int
  typeName : String
  typeText : String
  deriving DecidableEq

structure ResultManifest where
  columns : List ResultColumn
  resultFormat : ResultFormat
  truncated : Bool

structure StatementResponse where
  statementId : String
  manifest : Option ResultManifest
  result : Option Fields

structure StatementExecutionResult where
  statementId : String
  columns : List ResultColumn
  rows : List Row
  payloads : List Bytes
  resultFormat : ResultFormat
  deriving DecidableEq

structure ResolverConfig where
  rowLimit : Nat
  byteLimit : Nat

structure SplitResult where
  scheme : String
  netloc : String
  path : String
  query : String

/-- `json.loads` (`none` where it raises) and `urlsplit`. -/
structure Codec where
  loads : Bytes → Option Json
  urlsplit : String → SplitResult

/-- What the service answers: for a round, the request for a chunk by its index or by its
    internal path; for a round and a link's place in it, the download; and whether the
    deadline has passed when the round's response is read. -/
structure Server where
  getChunk : Nat → Int → Except ClientError Fields
  getPath : Nat → String → Except ClientError Fields
  download : Nat → Nat → String → List (String × String) → Except ClientError Bytes
  late : Nat → Bool

/-! ## Reading values -/

def optionalInt : Json → Except ClientError (Option Int)
  | .null => .ok none
  | .int value => .ok (some value)
  | _ => .error (.protocol "Expected an integer field")

def optionalStr : Json → Except ClientError (Option String)
  | .null => .ok none
  | .str value => .ok (some value)
  | _ => .error (.protocol "Expected a string field")

def parseCell : Json → Except ClientError (Option String)
  | .null => .ok none
  | .str value => .ok (some value)
  | _ => .error (.protocol "JSON_ARRAY rows must contain only strings or nulls")

def parseRow : Json → Except ClientError Row
  | .arr cells => cells.mapM parseCell
  | _ => .error (.protocol "JSON_ARRAY rows must contain only strings or nulls")

def parseRows : Json → Except ClientError (List Row)
  | .null => .ok []
  | .arr rows => rows.mapM parseRow
  | _ => .error (.protocol "JSON_ARRAY result data must be an array")

def decodeExternalJson (codec : Codec) (payload : Bytes) : Except ClientError (List Row) :=
  match codec.loads payload with
  | none => .error (.resultDecode "External JSON result could not be decoded")
  | some value => parseRows value

/-- How many bytes `json.dumps` writes for one character: it escapes everything outside
    printable ASCII, beyond the basic plane as two `\uXXXX` escapes. -/
def dumpedChar (c : Char) : Nat :=
  if c = '"' ∨ c = '\\' ∨ c = '\n' ∨ c = '\r' ∨ c = '\t' ∨ c.toNat = 8 ∨ c.toNat = 12 then 2
  else if 32 ≤ c.toNat ∧ c.toNat ≤ 126 then 1
  else if c.toNat < 65536 then 6
  else 12

def dumpedCell : Option String → Nat
  | none => 4
  | some text => 2 + (text.toList.map dumpedChar).sum

/-- A JSON array of values of the given sizes, with `,` between them. -/
def dumpedArray (sizes : List Nat) : Nat := 2 + sizes.sum + (sizes.length - 1)

/-- `len(json.dumps(rows, separators=(",", ":")).encode()) if rows else 0`. -/
def dumpedRows (rows : List Row) : Nat :=
  if rows.isEmpty then 0 else dumpedArray (rows.map fun row => dumpedArray (row.map dumpedCell))

/-! ## One response -/

structure Continuation where
  nextIndex : Option Int
  internalLink : Option String
  sourceChunkIndex : Option Int
  deriving DecidableEq

/-- `result_continuation`, of a response whose own index is read already. -/
def continuationOf (fields : Fields) (source : Option Int) : Except ClientError Continuation := do
  let nextIndex ← optionalInt (get fields "next_chunk_index")
  let internalLink ← optionalStr (get fields "next_chunk_internal_link")
  pure { nextIndex := nextIndex, internalLink := internalLink, sourceChunkIndex := source }

def headerPair : String × Json → Option (String × String)
  | (key, .str value) => some (key, value)
  | _ => none

/-- `raw_link.get("http_headers", {})`: only an absent key defaults to no headers. -/
def linkHeaders (link : Fields) : Except ClientError (List (String × String)) :=
  match (link.lookup "http_headers").getD (.obj []) with
  | .obj pairs =>
    match pairs.mapM headerPair with
    | some headers => .ok headers
    | none => .error (.protocol "external link headers must be string pairs")
  | _ => .error (.protocol "external link headers must be string pairs")

def linkUrl (codec : Codec) (link : Fields) : Except ClientError String :=
  match get link "external_link" with
  | .str url =>
    if (codec.urlsplit url).scheme.toLower = "https" then .ok url
    else .error (.protocol "external link must be an HTTPS URL")
  | _ => .error (.protocol "external link must be an HTTPS URL")

def fetchExternalLink (codec : Codec) (server : Server) (round place : Nat) (link : Fields) :
    Except ClientError (Bytes × Continuation) := do
  let url ← linkUrl codec link
  let headers ← linkHeaders link
  refuseIf (headers.any fun header => header.1.toLower = "authorization")
    (.protocol "external link must not receive an Authorization header")
  let payload ← server.download round place url headers
  let nextIndex ← optionalInt (get link "next_chunk_index")
  let internalLink ← optionalStr (get link "next_chunk_internal_link")
  let source ← optionalInt (get link "chunk_index")
  pure (payload, { nextIndex := nextIndex, internalLink := internalLink, sourceChunkIndex := source })

/-- What `_consume_chunk` has gathered so far. -/
structure Consumed where
  rows : List Row
  payloads : List Bytes
  byteCount : Nat
  chunkIndexes : List Int
  continuations : List Continuation
  deriving DecidableEq

def Consumed.addIndex (gathered : Consumed) : Option Int → Consumed
  | none => gathered
  | some index => { gathered with chunkIndexes := gathered.chunkIndexes ++ [index] }

/-- One iteration of the loop over `external_links`. -/
def consumeLink (codec : Codec) (server : Server) (format : ResultFormat) (round : Nat) (consumed : List Int)
    (gathered : Consumed) : Json × Nat → Except ClientError Consumed
  | (.obj link, place) => do
    let linkIndex ← optionalInt (get link "chunk_index")
    refuseIf (linkIndex.any fun index => index ∈ consumed || index ∈ gathered.chunkIndexes)
      (.protocol "External result contains a duplicate chunk index")
    let fetched ← fetchExternalLink codec server round place link
    let noted := gathered.addIndex fetched.2.sourceChunkIndex
    let counted := { noted with
      continuations := noted.continuations ++ [fetched.2], byteCount := noted.byteCount + fetched.1.length }
    if format = .jsonArray then
      let rows ← decodeExternalJson codec fetched.1
      pure { counted with rows := counted.rows ++ rows }
    else pure { counted with payloads := counted.payloads ++ [fetched.1] }
  | _ => .error (.protocol "external link must be an object")

def externalLinks (chunk : Fields) : Except ClientError (List Json) :=
  match get chunk "external_links" with
  | .null => .ok []
  | .arr links => .ok links
  | _ => .error (.protocol "external_links must be an array")

def consumeChunk (codec : Codec) (server : Server) (format : ResultFormat) (round : Nat) (consumed : List Int)
    (chunk : Fields) : Except ClientError Consumed := do
  let rows ← parseRows (get chunk "data_array")
  let links ← externalLinks chunk
  links.zipIdx.foldlM (consumeLink codec server format round consumed)
    { rows := rows, payloads := [], byteCount := dumpedRows rows, chunkIndexes := [], continuations := [] }

/-! ## Where to go on -/

/-- `max(items, key=…)`: the first of the greatest. -/
def firstMax {α : Type} (key : α → Int) : α → List α → α
  | best, [] => best
  | best, x :: rest => if key best < key x then firstMax key x rest else firstMax key best rest

/-- The candidates whose next chunk is not read yet. -/
def remaining (candidates : List Continuation) (consumed : List Int) : List Continuation :=
  candidates.filter fun candidate => candidate.nextIndex.all (· ∉ consumed)

/-- `internal_links` of the candidates for one index, as a set. -/
def pathsTo (index : Int) (candidates : List Continuation) : List String :=
  ((candidates.filter fun candidate => candidate.nextIndex = some index).filterMap (·.internalLink)).dedup

/-- Among paths without an index the response's own comes first, then the one of the link
    with the highest index (`-1` where it has none). -/
def selectPath (result : Continuation) (external : List Continuation) (consumed : List Int) : Option String :=
  if result.nextIndex.all (· ∉ consumed) ∧ result.internalLink.isSome then result.internalLink
  else
    match (remaining external consumed).filter (·.internalLink.isSome) with
    | [] => none
    | candidate :: rest => (firstMax (fun c => c.sourceChunkIndex.getD (-1)) candidate rest).internalLink

def selectContinuation (result : Continuation) (external : List Continuation) (consumed : List Int) :
    Except ClientError (Option Int × Option String) :=
  let candidates := remaining (result :: external) consumed
  match (candidates.filterMap (·.nextIndex)).max? with
  | none => .ok (none, selectPath result external consumed)
  | some highest =>
    match pathsTo highest candidates with
    | [] => .ok (some highest, none)
    | [path] => .ok (some highest, some path)
    | _ => .error (.protocol "Result continuation has conflicting paths")

/-! ## The loop -/

/-- The local variables of `_collect_result`. -/
structure Collection where
  rows : List Row
  payloads : List Bytes
  byteCount : Nat
  seenChunks : List Int

def Collection.empty : Collection := { rows := [], payloads := [], byteCount := 0, seenChunks := [] }

/-- What the loop asks for at the end of a round. -/
inductive Request where
  | chunk (index : Int)
  | path (link : String)
  | stop
  deriving DecidableEq

def Request.of : Option Int × Option String → Request
  | (some index, _) => .chunk index
  | (none, some link) => .path link
  | (none, none) => .stop

/-- `chunk_indexes.add(current_index)`. -/
def noteIndex (indexes : List Int) : Option Int → List Int
  | none => indexes
  | some index => if index ∈ indexes then indexes else index :: indexes

/-- One round: read `current` and choose the next request. -/
def readChunk (codec : Codec) (server : Server) (config : ResolverConfig) (statementId : String)
    (format : ResultFormat) (round : Nat) (state : Collection) (current : Fields) :
    Except ClientError (Collection × Request) := do
  let currentIndex ← optionalInt (get current "chunk_index")
  refuseIf (currentIndex.any (· ∈ state.seenChunks)) (.protocol "Result chunk sequence contains a cycle")
  let chunk ← consumeChunk codec server format round state.seenChunks current
  refuseIf (server.late round) (.statementTimeout statementId)
  let rows := state.rows ++ chunk.rows
  let byteCount := state.byteCount + chunk.byteCount
  refuseIf (config.rowLimit < rows.length || config.byteLimit < byteCount)
    (.resultLimitExceeded "Downloaded result exceeds the configured boundary")
  let seen := state.seenChunks ++ noteIndex chunk.chunkIndexes currentIndex
  let continuation ← continuationOf current currentIndex
  let next ← selectContinuation continuation chunk.continuations seen
  pure ({ rows := rows, payloads := state.payloads ++ chunk.payloads, byteCount := byteCount, seenChunks := seen },
    Request.of next)

/-- `_get_internal_chunk`: only a path of the workspace's own API is followed. -/
def getInternalChunk (codec : Codec) (server : Server) (round : Nat) (link : String) :
    Except ClientError Fields :=
  let parsed := codec.urlsplit link
  if parsed.scheme ≠ "" ∨ parsed.netloc ≠ "" ∨ ¬ "/api/2.0/sql/statements/".toList.isPrefixOf parsed.path.toList then
    .error (.protocol "next_chunk_internal_link is not a workspace API path")
  else server.getPath round (if parsed.query = "" then parsed.path else parsed.path ++ "?" ++ parsed.query)

def answer (codec : Codec) (server : Server) (round : Nat) : Request → Except ClientError (Option Fields)
  | .chunk index => some <$> server.getChunk round index
  | .path link => some <$> getInternalChunk codec server round link
  | .stop => .ok none

/-- How a collection stands after a number of rounds: `pending` while it is still asking. -/
inductive Collected (α : Type) where
  | returned (value : α)
  | raised (error : ClientError)
  | pending
  deriving DecidableEq

/-- The `while current is not None` loop, for at most `fuel` rounds. -/
def collect (codec : Codec) (server : Server) (config : ResolverConfig) (statementId : String)
    (format : ResultFormat) : Nat → Nat → Collection → Option Fields → Collected Collection
  | _, _, state, none => .returned state
  | 0, _, _, some _ => .pending
  | fuel + 1, round, state, some current =>
    match readChunk codec server config statementId format round state current with
    | .error error => .raised error
    | .ok (state', request) =>
      match answer codec server round request with
      | .error error => .raised error
      | .ok next => collect codec server config statementId format fuel (round + 1) state' next

def collectResult (codec : Codec) (server : Server) (config : ResolverConfig) (response : StatementResponse)
    (fuel : Nat) : Collected StatementExecutionResult :=
  match response.manifest with
  | none => .raised (.protocol "Successful statement response has no result manifest")
  | some manifest =>
    if manifest.truncated then
      .raised (.resultLimitExceeded "Databricks truncated the result at the configured row or byte limit")
    else
      match collect codec server config response.statementId manifest.resultFormat fuel 0 .empty response.result with
      | .pending => .pending
      | .raised error => .raised error
      | .returned state =>
        .returned { statementId := response.statementId, columns := manifest.columns, rows := state.rows,
                    payloads := state.payloads, resultFormat := manifest.resultFormat }

/-! ## The history of a collection -/

/-- A response that was read, and what was asked for next. -/
structure Visit where
  response : Fields
  request : Request

def visitsFrom (codec : Codec) (server : Server) (config : ResolverConfig) (statementId : String)
    (format : ResultFormat) : Nat → Nat → Collection → Option Fields → List Visit
  | _, _, _, none => []
  | 0, _, _, some _ => []
  | fuel + 1, round, state, some current =>
    match readChunk codec server config statementId format round state current with
    | .error _ => []
    | .ok (state', request) =>
      { response := current, request := request } ::
        match answer codec server round request with
        | .error _ => []
        | .ok next => visitsFrom codec server config statementId format fuel (round + 1) state' next

def visits (codec : Codec) (server : Server) (config : ResolverConfig) (response : StatementResponse)
    (fuel : Nat) : List Visit :=
  match response.manifest with
  | none => []
  | some manifest =>
    visitsFrom codec server config response.statementId manifest.resultFormat fuel 0 .empty response.result

def intField (fields : Fields) (key : String) : Option Int :=
  match get fields key with
  | .int value => some value
  | _ => none

def Json.object? : Json → Option Fields
  | .obj fields => some fields
  | _ => none

/-- The external links of a response that are objects. -/
def linksOf (fields : Fields) : List Fields :=
  match get fields "external_links" with
  | .arr links => links.filterMap Json.object?
  | _ => []

def Visit.linked (visit : Visit) : List Int := (linksOf visit.response).filterMap (intField · "chunk_index")

/-- What the round adds to `seen_chunks`, a set. -/
def Visit.noted (visit : Visit) : List Int := noteIndex visit.linked (intField visit.response "chunk_index")

/-- Whether `data_array` has rows. -/
def Visit.hasRows (visit : Visit) : Bool :=
  match get visit.response "data_array" with
  | .arr rows => !rows.isEmpty
  | _ => false

/-- The chunk indexes a response hands over, each as often as it does: those of its links,
    and its own, which beside a link of that index counts only where the response has rows
    of its own. -/
def Visit.consumed (visit : Visit) : List Int :=
  visit.linked ++
    ((intField visit.response "chunk_index").filter fun index => visit.hasRows || index ∉ visit.linked).toList

/-- The response has rows under the index, and a link to the chunk of that index. -/
def Visit.Repeats (visit : Visit) (index : Int) : Prop :=
  visit.hasRows = true ∧ intField visit.response "chunk_index" = some index ∧ index ∈ visit.linked

/-- The next indexes a response announces, itself or through a link. -/
def Visit.announced (visit : Visit) : List Int :=
  (visit.response :: linksOf visit.response).filterMap (intField · "next_chunk_index")

end DataNexus.Databricks
