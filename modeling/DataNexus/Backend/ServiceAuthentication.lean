/-
  DataNexus.Backend.ServiceAuthentication — one use of a service assertion
  (`auth_middleware.py` `ServiceAuthentication.dispatch`, `authorization.py` `guard`,
  `accept_assertion`, `auth_context.py`).

  Actors. A request arrives with a header. `dispatch` decodes the token (`enter`: the one
  place where its `exp` is looked at), awaits the body and checks what the assertion binds
  (`body`), then enters `guard`: connects and begins a transaction, whose `now()` is fixed
  there (`begin`); takes the shared lock and reads the access view (`check`); deletes the
  assertion uses that had expired by `now()` (`purge`); inserts its own (`insert`); and
  commits (`commit`). Between any two of them any time may pass (`tick`), and a request may be
  lost on an exception or a time-out (`fail`). The clock is the service's and the database's.

  The transactions are READ COMMITTED: a purge sees the committed rows, an insert waits for
  every other transaction that has inserted or is deleting its key. `jwt.decode_complete`,
  SHA-256 and the reading of `claims["ctx"]` are parameters; the identity tables are the
  environment's answer to `check`. The clock and the datetimes are in microseconds. What the application does with the request is left out.

  Proved: an id is accepted twice, and in a transaction begun after its `exp`
  (`replayed_assertion_accepted`); neither happens in a run whose inserts go in no later than
  the `exp` they store (`assertion_used_once`).
-/

import DataNexus.Lib.Roster

namespace DataNexus.Backend.ServiceAuthentication

open Lib

/-- A JSON value as far as `dispatch` tells them apart. -/
inductive Value where
  | int (n : Int)
  | str (s : String)
  | other
  deriving DecidableEq

structure TrustedContext where
  tenantId : String
  workspaceId : String
  principalId : String
  issuer : String
  subject : String
  authenticatedAt : Int
  expiresAt : Int
  membershipId : String
  revision : Nat
  authorizedAt : Int
  permissions : List String
  deriving DecidableEq

/-- `TrustedContext.ordered_times`. -/
def TrustedContext.orderedTimes (context : TrustedContext) (now : Int) : Bool :=
  !(!(decide (context.authenticatedAt ≤ context.authorizedAt) && decide (context.authorizedAt < context.expiresAt)) ||
    (decide (now < context.authorizedAt) || decide (context.expiresAt ≤ now) || !decide context.permissions.Nodup))

structure Claims where
  exp : Value
  iat : Value
  nbf : Value
  jti : Value
  htm : Value
  htu : Value
  bh : Value
  /-- `claims["ctx"]` where its fields are those of a `TrustedContext`. -/
  ctx : Option TrustedContext
  deriving DecidableEq

structure Decoded where
  typ : Value
  payload : Claims
  deriving DecidableEq

structure Request where
  path : String
  query : String
  method : String
  authorization : String
  deriving DecidableEq

/-- What `dispatch` passes to `accept_assertion`. -/
structure Assertion where
  context : TrustedContext
  permission : String
  jti : String
  expiresAt : Int
  deriving DecidableEq

inductive Phase where
  | arrived
  /-- Sent on without authentication. -/
  | passed
  /-- Decoded, awaiting the body. -/
  | reading (decoded : Decoded)
  /-- In `guard`, before the transaction. -/
  | connecting (a : Assertion)
  /-- In a transaction whose `now()` is `start`. -/
  | opened (a : Assertion) (start : Int)
  | checked (a : Assertion) (start : Int)
  | purged (a : Assertion) (start : Int) (deleted : List String)
  | inserted (a : Assertion) (start : Int) (deleted : List String)
  | accepted
  | answered (status : Nat)
  deriving DecidableEq

structure Acceptance where
  jti : String
  expiresAt : Int
  start : Int
  deriving DecidableEq

structure St where
  clock : Int
  /-- The committed rows of `identity_assertion_uses`. -/
  uses : List (String × Int)
  requests : List (Request × Phase)
  acceptances : List Acceptance

def init (clock : Int) : St := ⟨clock, [], [], []⟩

inductive Ev where
  | tick (dt : Nat)
  | arrive (request : Request)
  | enter (i : Nat)
  | body (i : Nat) (bytes : List UInt8)
  | begin (i : Nat)
  | check (i : Nat) (found : Bool)
  | purge (i : Nat)
  | insert (i : Nat)
  /-- The commit; `lost` when it went through but its reply did not. -/
  | commit (i : Nat) (expired lost : Bool)
  /-- An exception or the time-out, anywhere before the commit. -/
  | fail (i : Nat)

section Dispatch

variable (decodeComplete : String → Int → Option Decoded) (sha256 : List UInt8 → String)

/-- Up to `await request.body()`. -/
def enter (now : Int) (request : Request) : Phase :=
  if request.path = "/health/live" ∨ request.path = "/health/ready" then .passed
  else if !"Bearer ".toList.isPrefixOf request.authorization.toList || decide (16384 < request.authorization.length) then
    .answered 401
  else
    match decodeComplete (String.ofList (request.authorization.toList.drop 7)) now with
    | none => .answered 403
    | some decoded => .reading decoded

def isAssertionId (s : String) : Bool :=
  s.toList.length == 32 && s.toList.all fun c => ('a' ≤ c && c ≤ 'f') || ('0' ≤ c && c ≤ '9')

def Request.target (request : Request) : String :=
  request.path ++ if request.query = "" then "" else "?" ++ request.query

/-- From the body to the call of `accept_assertion`, and into `guard` up to its first wait. -/
def bindBody (now : Int) (request : Request) (decoded : Decoded) (bytes : List UInt8) : Phase :=
  if 65536 < bytes.length then .answered 413
  else
    match decoded.payload.exp, decoded.payload.iat, decoded.payload.nbf, decoded.payload.jti with
    | .int exp, .int iat, .int nbf, .str jti =>
      if decoded.typ ≠ .str "nexus-service+jwt" ∨ decoded.payload.htm ≠ .str request.method ∨
          decoded.payload.htu ≠ .str request.target ∨ decoded.payload.bh ≠ .str (sha256 bytes) ∨
          ¬ (0 < exp - iat ∧ exp - iat ≤ 30) ∨ nbf ≠ iat ∨ isAssertionId jti = false then
        .answered 403
      else
        match decoded.payload.ctx with
        | none => .answered 403
        | some context =>
          if context.orderedTimes now = false then .answered 403
          -- `remaining <= 0`
          else if context.expiresAt ≤ now then .answered 403
          else
            .connecting ⟨context, if request.method = "GET" then "run.reader" else "run.contributor", jti, exp * 1000000⟩
    | _, _, _, _ => .answered 403

namespace Phase

/-- A transaction in flight has inserted or is deleting this key. -/
def touches (jti : String) : Phase → Bool
  | .purged _ _ deleted => deleted.contains jti
  | .inserted a _ deleted => a.jti == jti || deleted.contains jti
  | _ => false

/-- A transaction in flight has inserted this key. -/
def hasInserted (jti : String) : Phase → Bool
  | .inserted a _ _ => a.jti == jti
  | _ => false

end Phase

namespace St

variable (s : St)

def move (i : Nat) (request : Request) (p : Phase) : St := { s with requests := s.requests.set i (request, p) }

/-- Some other request's transaction holds the key. -/
def locked (i : Nat) (jti : String) : Bool := (s.requests.eraseIdx i).any fun r => r.2.touches jti

/-- `DELETE … WHERE expires_at < now()`. -/
def expired (start : Int) : List String := (s.uses.filter fun use => decide (use.2 < start)).map (·.1)

/-- `INSERT … ON CONFLICT DO NOTHING` finds no row of this key. -/
def absent (jti : String) (deleted : List String) : Bool :=
  !(s.uses.map (·.1)).contains jti || deleted.contains jti

end St

def step (s : St) : Ev → St
  | .tick dt => { s with clock := s.clock + dt }
  | .arrive request => { s with requests := s.requests ++ [(request, .arrived)] }
  | .enter i =>
    match s.requests[i]? with
    | some (request, .arrived) => s.move i request (enter decodeComplete s.clock request)
    | _ => s
  | .body i bytes =>
    match s.requests[i]? with
    | some (request, .reading decoded) => s.move i request (bindBody sha256 s.clock request decoded bytes)
    | _ => s
  | .begin i =>
    match s.requests[i]? with
    | some (request, .connecting a) => s.move i request (.opened a s.clock)
    | _ => s
  | .check i found =>
    match s.requests[i]? with
    | some (request, .opened a start) =>
      if a.context.expiresAt ≤ s.clock ∨ found = false then s.move i request (.answered 403)
      else s.move i request (.checked a start)
    | _ => s
  | .purge i =>
    match s.requests[i]? with
    | some (request, .checked a start) =>
      if (s.expired start).any (s.locked i) then s else s.move i request (.purged a start (s.expired start))
    | _ => s
  | .insert i =>
    match s.requests[i]? with
    | some (request, .purged a start deleted) =>
      if s.locked i a.jti then s
      else if s.absent a.jti deleted then s.move i request (.inserted a start deleted)
      else s.move i request (.answered 403)
    | _ => s
  | .commit i expired lost =>
    match s.requests[i]? with
    | some (request, .inserted a start deleted) =>
      if a.context.expiresAt ≤ s.clock then s.move i request (.answered 403)
      else if expired then s.move i request (.answered 503)
      else
        let uses := (s.uses.filter fun use => !deleted.contains use.1) ++ [(a.jti, a.expiresAt)]
        if lost then { s.move i request (.answered 503) with uses := uses }
        else
          { s.move i request .accepted with
            uses := uses
            acceptances := s.acceptances ++ [⟨a.jti, a.expiresAt, start⟩] }
    | _ => s
  | .fail i =>
    match s.requests[i]? with
    | some (request, .connecting _) | some (request, .opened _ _) | some (request, .checked _ _)
    | some (request, .purged _ _ _) | some (request, .inserted _ _ _) => s.move i request (.answered 503)
    | _ => s

def run (s : St) (events : List Ev) : St := events.foldl (step decodeComplete sha256) s

/-- The id is accepted at most once, and never in a transaction begun after its `exp`. -/
def UsedOnceWhileValid (s : St) : Prop :=
  (∀ jti, s.acceptances.countP (·.jti == jti) ≤ 1) ∧ ∀ a ∈ s.acceptances, a.start ≤ a.expiresAt

end Dispatch

/-! ## Two uses of one assertion -/

def sampleContext : TrustedContext where
  tenantId := "tenant-a"
  workspaceId := "workspace-a"
  principalId := "principal-a"
  issuer := "https://login.example.test"
  subject := "user-a"
  authenticatedAt := 0
  expiresAt := 3600000000
  membershipId := "membership-a"
  revision := 1
  authorizedAt := 1000000
  permissions := ["run.reader"]

/-- An assertion for `GET /runs/r1` with no body, issued at 75 s for 25 s. -/
def sampleDecoded : Decoded where
  typ := .str "nexus-service+jwt"
  payload :=
    { exp := .int 100
      iat := .int 75
      nbf := .int 75
      jti := .str "aaaaaaaaaaaaaaaaaaaaaaaaaaaaaaaa"
      htm := .str "GET"
      htu := .str "/runs/r1"
      bh := .str "e3b0c44298fc1c149afbf4c8996fb92427ae41e4649b934ca495991b7852b855"
      ctx := some sampleContext }

/-- The one signed token, inside its `nbf` and `exp`. -/
def sampleDecode (token : String) (now : Int) : Option Decoded :=
  if token = "signed" ∧ 75000000 ≤ now ∧ now < 100000000 then some sampleDecoded else none

/-- SHA-256 of the empty body. -/
def sampleSha256 (bytes : List UInt8) : String :=
  if bytes = [] then "e3b0c44298fc1c149afbf4c8996fb92427ae41e4649b934ca495991b7852b855" else ""

def sampleRequest : Request := ⟨"/runs/r1", "", "GET", "Bearer signed"⟩

/-- One use of the assertion, from `guard` to the commit. -/
def useOf (i : Nat) : List Ev := [.body i [], .begin i, .check i true, .purge i, .insert i, .commit i false false]

/-- Both requests are decoded at 80 s; the second one's body arrives at 101 s. -/
def replay : List Ev :=
  [.arrive sampleRequest, .arrive sampleRequest, .enter 0, .enter 1] ++ useOf 0 ++ [.tick 21000000] ++ useOf 1

/-- A token is decoded only before its `exp`; still the second request is accepted, with the
    same id and in a transaction begun after the `exp`. -/
theorem replayed_assertion_accepted :
    (∀ token now d, sampleDecode token now = some d → ∃ n, d.payload.exp = .int n ∧ now < n * 1000000) ∧
    ¬ (∀ jti, (run sampleDecode sampleSha256 (init 80000000) replay).acceptances.countP (·.jti == jti) ≤ 1) ∧
    ¬ (∀ a ∈ (run sampleDecode sampleSha256 (init 80000000) replay).acceptances, a.start ≤ a.expiresAt) := by
  refine ⟨?_, ?_, ?_⟩
  · intro token now d hd
    unfold sampleDecode at hd
    split at hd
    · rename_i h
      obtain rfl : sampleDecoded = d := by simpa using hd
      exact ⟨100, rfl, by omega⟩
    · cases hd
  · intro h
    exact absurd (h "aaaaaaaaaaaaaaaaaaaaaaaaaaaaaaaa") (by decide +kernel)
  · decide +kernel

/-! ## One use, while inserts are in time -/

section Valid

variable {decodeComplete : String → Int → Option Decoded} {sha256 : List UInt8 → String}

@[simp] theorem Phase.hasInserted_inserted (jti : String) (a : Assertion) (start : Int) (deleted : List String) :
    Phase.hasInserted jti (.inserted a start deleted) = (a.jti == jti) := rfl

@[simp] theorem Phase.hasInserted_purged (jti : String) (a : Assertion) (start : Int) (deleted : List String) :
    Phase.hasInserted jti (.purged a start deleted) = false := rfl

/-- The issuer signs one assertion for each id. -/
def OneAssertionPerId (decodeComplete : String → Int → Option Decoded) : Prop :=
  ∀ token token' now now' d d', decodeComplete token now = some d → decodeComplete token' now' = some d' →
    d.payload.jti = d'.payload.jti → d.payload.exp = d'.payload.exp

/-- An insert that goes in runs no later than the `exp` it stores. -/
def insertsInTime (s : St) : Ev → Bool
  | .insert i =>
    match s.requests[i]? with
    | some (_, .purged a _ deleted) => !s.absent a.jti deleted || decide (s.clock ≤ a.expiresAt)
    | _ => true
  | _ => true

def inTime (decodeComplete : String → Int → Option Decoded) (sha256 : List UInt8 → String) : St → List Ev → Bool
  | _, [] => true
  | s, e :: events => insertsInTime s e && inTime decodeComplete sha256 (step decodeComplete sha256 s e) events

/-- An assertion with this id and `exp` has been signed. -/
def Signed (decodeComplete : String → Int → Option Decoded) (jti : String) (expiresAt : Int) : Prop :=
  ∃ token now d n, decodeComplete token now = some d ∧ d.payload.jti = .str jti ∧ d.payload.exp = .int n ∧
    expiresAt = n * 1000000

theorem Signed.unique (h : OneAssertionPerId decodeComplete) {jti : String} {e e' : Int}
    (hs : Signed decodeComplete jti e) (hs' : Signed decodeComplete jti e') : e = e' := by
  obtain ⟨token, now, d, n, hd, hj, hn, rfl⟩ := hs
  obtain ⟨token', now', d', n', hd', hj', hn', rfl⟩ := hs'
  have hsame := h token token' now now' d d' hd hd' (by rw [hj, hj'])
  rw [hn, hn'] at hsame
  obtain rfl : n = n' := by simpa using hsame
  rfl

/-- Everything a transaction begun at `start` deletes had expired by then. -/
def Old (decodeComplete : String → Int → Option Decoded) (start : Int) (deleted : List String) : Prop :=
  ∀ jti ∈ deleted, ∃ e, Signed decodeComplete jti e ∧ e < start

def Phase.Ok (decodeComplete : String → Int → Option Decoded) (now : Int) : Phase → Prop
  | .reading d => ∃ token at_, decodeComplete token at_ = some d
  | .connecting a => Signed decodeComplete a.jti a.expiresAt
  | .opened a start | .checked a start => Signed decodeComplete a.jti a.expiresAt ∧ start ≤ now
  | .purged a start deleted => Signed decodeComplete a.jti a.expiresAt ∧ start ≤ now ∧ Old decodeComplete start deleted
  | .inserted a start deleted =>
    Signed decodeComplete a.jti a.expiresAt ∧ start ≤ now ∧ Old decodeComplete start deleted ∧ start ≤ a.expiresAt
  | _ => True

theorem Phase.Ok.mono {p : Phase} {now now' : Int} (h : p.Ok decodeComplete now) (hle : now ≤ now') :
    p.Ok decodeComplete now' := by
  cases p with
  | opened a start => exact ⟨h.1, h.2.trans hle⟩
  | checked a start => exact ⟨h.1, h.2.trans hle⟩
  | purged a start deleted => exact ⟨h.1, h.2.1.trans hle, h.2.2⟩
  | inserted a start deleted => exact ⟨h.1, h.2.1.trans hle, h.2.2⟩
  | _ => exact h

structure Inv (decodeComplete : String → Int → Option Decoded) (s : St) : Prop where
  phases : ∀ r ∈ s.requests, r.2.Ok decodeComplete s.clock
  rows : ∀ use ∈ s.uses, Signed decodeComplete use.1 use.2
  signed : ∀ a ∈ s.acceptances, Signed decodeComplete a.jti a.expiresAt
  valid : ∀ a ∈ s.acceptances, a.start ≤ a.expiresAt
  /-- What was accepted is still noted, or has expired. -/
  kept : ∀ a ∈ s.acceptances, a.jti ∈ s.uses.map (·.1) ∨ a.expiresAt < s.clock
  once : ∀ jti, s.acceptances.countP (·.jti == jti) + s.requests.countP (·.2.hasInserted jti) ≤ 1

/-- A request goes on, without a row of its own in hand. -/
theorem Inv.move {s : St} (h : Inv decodeComplete s) {i : Nat} {request : Request} {p p' : Phase}
    (hr : s.requests[i]? = some (request, p)) (hok : p'.Ok decodeComplete s.clock)
    (hins : ∀ jti, p'.hasInserted jti = false) : Inv decodeComplete (s.move i request p') := by
  refine ⟨?_, h.rows, h.signed, h.valid, h.kept, ?_⟩
  · intro r hmem
    rcases List.mem_or_eq_of_mem_set hmem with hmem | rfl
    · exact h.phases r hmem
    · exact hok
  · intro jti
    have hset := Roster.countP_set (p := fun r : Request × Phase => r.2.hasInserted jti) hr (request, p')
    have hold := h.once jti
    show s.acceptances.countP (·.jti == jti) + (s.requests.set i (request, p')).countP (·.2.hasInserted jti) ≤ 1
    simp only [hins jti, Bool.false_eq_true, if_false] at hset
    omega

theorem Inv.phase {s : St} (h : Inv decodeComplete s) {i : Nat} {request : Request} {p : Phase}
    (hr : s.requests[i]? = some (request, p)) : p.Ok decodeComplete s.clock :=
  h.phases _ (List.mem_of_getElem? hr)

theorem signed_bindBody {now : Int} {request : Request} {d : Decoded} {bytes : List UInt8} {token : String} {at_ : Int}
    (hd : decodeComplete token at_ = some d) : (bindBody sha256 now request d bytes).Ok decodeComplete now := by
  unfold bindBody
  split
  · trivial
  · split
    · rename_i exp iat nbf jti hexp _ _ hjti
      split
      · trivial
      · split
        · trivial
        · split
          · trivial
          · split
            · trivial
            · exact ⟨token, at_, d, exp, hd, hjti, hexp, rfl⟩
    · trivial

theorem bindBody_hasInserted {now : Int} {request : Request} {d : Decoded} {bytes : List UInt8} (jti : String) :
    (bindBody sha256 now request d bytes).hasInserted jti = false := by
  unfold bindBody
  split
  · rfl
  · split
    · split
      · rfl
      · split
        · rfl
        · split
          · rfl
          · split <;> rfl
    · rfl

theorem ok_enter {now : Int} {request : Request} : (enter decodeComplete now request).Ok decodeComplete now := by
  unfold enter
  split
  · trivial
  · split
    · trivial
    · split
      · trivial
      · rename_i d hd
        exact ⟨_, now, hd⟩

theorem enter_hasInserted {now : Int} {request : Request} (jti : String) :
    (enter decodeComplete now request).hasInserted jti = false := by
  unfold enter
  split
  · rfl
  · split
    · rfl
    · split <;> rfl

theorem Inv.old_expired {s : St} (h : Inv decodeComplete s) (start : Int) : Old decodeComplete start (s.expired start) := by
  intro jti hjti
  obtain ⟨use, huse, rfl⟩ := List.mem_map.mp hjti
  obtain ⟨hmem, hlt⟩ := List.mem_filter.mp huse
  exact ⟨use.2, h.rows use hmem, of_decide_eq_true hlt⟩

/-- An insert that goes in in time stores an id that has not been accepted and that nobody
    else holds. -/
theorem Inv.insert {s : St} (h : Inv decodeComplete s) (hone : OneAssertionPerId decodeComplete) {i : Nat}
    {request : Request} {a : Assertion} {start : Int} {deleted : List String}
    (hr : s.requests[i]? = some (request, .purged a start deleted)) (hfree : s.locked i a.jti = false)
    (habsent : s.absent a.jti deleted = true) (htime : s.clock ≤ a.expiresAt) :
    Inv decodeComplete (s.move i request (.inserted a start deleted)) := by
  obtain ⟨hsigned, hbegun, hold⟩ := h.phase hr
  have hunaccepted : ∀ b ∈ s.acceptances, b.jti ≠ a.jti := by
    intro b hb hjti
    have hsame : b.expiresAt = a.expiresAt := Signed.unique hone (hjti ▸ h.signed b hb) hsigned
    rcases h.kept b hb with hkept | hpast
    · -- The row is there, so the insert went in only if its own transaction had purged it.
      have hdeleted : a.jti ∈ deleted := by
        rw [hjti] at hkept
        simpa [St.absent, List.contains_iff_mem, hkept] using habsent
      obtain ⟨e, he, hlt⟩ := hold a.jti hdeleted
      have := Signed.unique hone he hsigned
      omega
    · omega
  have hzero : s.acceptances.countP (·.jti == a.jti) = 0 := by
    rw [List.countP_eq_zero]
    intro b hb hjti
    exact hunaccepted b hb (by simpa using hjti)
  have hothers : (s.requests.eraseIdx i).countP (·.2.hasInserted a.jti) = 0 := by
    rw [List.countP_eq_zero]
    intro r hmem hins
    have htouch : r.2.touches a.jti = true := by
      cases hp : r.2 <;> rw [hp] at hins <;> simp_all [Phase.hasInserted, Phase.touches]
    have hlocked : s.locked i a.jti = true := List.any_eq_true.mpr ⟨r, hmem, htouch⟩
    rw [hfree] at hlocked
    cases hlocked
  refine ⟨?_, h.rows, h.signed, h.valid, h.kept, ?_⟩
  · intro r hmem
    rcases List.mem_or_eq_of_mem_set hmem with hmem | rfl
    · exact h.phases r hmem
    · exact ⟨hsigned, hbegun, hold, hbegun.trans htime⟩
  · intro jti
    have hset := Roster.countP_set (p := fun r : Request × Phase => r.2.hasInserted jti) hr
      (request, .inserted a start deleted)
    have hbefore := h.once jti
    show s.acceptances.countP (·.jti == jti) +
      (s.requests.set i (request, .inserted a start deleted)).countP (·.2.hasInserted jti) ≤ 1
    by_cases hjti : a.jti = jti
    · subst hjti
      have hnone := Roster.countP_eraseIdx (p := fun r : Request × Phase => r.2.hasInserted a.jti) hr
      simp only [Phase.hasInserted_inserted, Phase.hasInserted_purged, Bool.false_eq_true, if_false,
        beq_self_eq_true, if_true] at hset hnone
      omega
    · have hne : (a.jti == jti) = false := by simpa using hjti
      simp only [Phase.hasInserted_inserted, Phase.hasInserted_purged, hne, Bool.false_eq_true, if_false] at hset
      omega

/-- The rows a commit leaves: its own, and every one that has not expired. -/
theorem Inv.commit {s : St} (h : Inv decodeComplete s) (hone : OneAssertionPerId decodeComplete) {i : Nat}
    {request : Request} {a : Assertion} {start : Int} {deleted : List String}
    (hr : s.requests[i]? = some (request, .inserted a start deleted)) (lost : Bool) :
    Inv decodeComplete
      { s with
        requests := s.requests.set i (request, if lost then .answered 503 else .accepted)
        uses := (s.uses.filter fun use => !deleted.contains use.1) ++ [(a.jti, a.expiresAt)]
        acceptances := s.acceptances ++ if lost then [] else [⟨a.jti, a.expiresAt, start⟩] } := by
  obtain ⟨hsigned, hbegun, hold, hvalid⟩ := h.phase hr
  have hnew : ∀ b ∈ (if lost then [] else [(⟨a.jti, a.expiresAt, start⟩ : Acceptance)]), b = ⟨a.jti, a.expiresAt, start⟩ := by
    intro b hb
    cases lost
    · exact List.mem_singleton.mp hb
    · cases hb
  have hkeys : ∀ b ∈ s.acceptances, b.jti ∈ s.uses.map (·.1) →
      b.jti ∈ ((s.uses.filter fun use => !deleted.contains use.1) ++ [(a.jti, a.expiresAt)]).map (·.1) ∨
        b.expiresAt < s.clock := by
    intro b hb hmem
    by_cases hdel : b.jti ∈ deleted
    · obtain ⟨e, he, hlt⟩ := hold b.jti hdel
      have := Signed.unique hone he (h.signed b hb)
      exact .inr (by omega)
    · obtain ⟨use, huse, hkey⟩ := List.mem_map.mp hmem
      refine .inl (List.mem_map.mpr ⟨use, List.mem_append_left _ (List.mem_filter.mpr ⟨huse, ?_⟩), hkey⟩)
      rw [hkey]
      simpa using hdel
  refine ⟨?_, ?_, ?_, ?_, ?_, ?_⟩
  · intro r hmem
    rcases List.mem_or_eq_of_mem_set hmem with hmem | rfl
    · exact h.phases r hmem
    · cases lost <;> trivial
  · intro use huse
    rcases List.mem_append.mp huse with huse | huse
    · exact h.rows use (List.mem_filter.mp huse).1
    · rw [List.mem_singleton.mp huse]
      exact hsigned
  · intro b hb
    rcases List.mem_append.mp hb with hb | hb
    · exact h.signed b hb
    · rw [hnew b hb]
      exact hsigned
  · intro b hb
    rcases List.mem_append.mp hb with hb | hb
    · exact h.valid b hb
    · rw [hnew b hb]
      exact hvalid
  · intro b hb
    rcases List.mem_append.mp hb with hb | hb
    · rcases h.kept b hb with hmem | hpast
      · exact hkeys b hb hmem
      · exact .inr hpast
    · rw [hnew b hb]
      exact .inl (List.mem_map.mpr ⟨(a.jti, a.expiresAt), by simp, rfl⟩)
  · intro jti
    have hset := Roster.countP_set (p := fun r : Request × Phase => r.2.hasInserted jti) hr
      (request, if lost then .answered 503 else .accepted)
    have hdone : (if lost then Phase.answered 503 else .accepted).hasInserted jti = false := by cases lost <;> rfl
    have hbefore := h.once jti
    simp only [List.countP_append]
    by_cases hjti : (a.jti == jti) = true
    · have hadd : (if lost then [] else [(⟨a.jti, a.expiresAt, start⟩ : Acceptance)]).countP (·.jti == jti) ≤ 1 := by
        cases lost <;> simp [hjti]
      simp only [Phase.hasInserted_inserted, hdone, hjti, Bool.false_eq_true, if_false, if_true] at hset
      omega
    · have hadd : (if lost then [] else [(⟨a.jti, a.expiresAt, start⟩ : Acceptance)]).countP (·.jti == jti) = 0 := by
        cases lost <;> simp [hjti]
      simp only [Phase.hasInserted_inserted, hdone, hjti, Bool.false_eq_true, if_false] at hset
      omega

theorem inv_step (hone : OneAssertionPerId decodeComplete) {s : St} (h : Inv decodeComplete s) (e : Ev)
    (htime : insertsInTime s e = true) : Inv decodeComplete (step decodeComplete sha256 s e) := by
  cases e with
  | tick dt =>
    refine ⟨?_, h.rows, h.signed, h.valid, ?_, h.once⟩
    · intro r hr
      exact (h.phases r hr).mono (by show s.clock ≤ s.clock + dt; omega)
    · intro a ha
      refine (h.kept a ha).imp id fun hpast => ?_
      show a.expiresAt < s.clock + dt
      omega
  | arrive request =>
    refine ⟨?_, h.rows, h.signed, h.valid, h.kept, ?_⟩
    · intro r hr
      rcases List.mem_append.mp hr with hr | hr
      · exact h.phases r hr
      · rw [List.mem_singleton.mp hr]
        trivial
    · intro jti
      have hbefore := h.once jti
      simp only [step, List.countP_append]
      exact hbefore
  | enter i =>
    simp only [step]
    split
    · rename_i request hr
      exact h.move hr ok_enter enter_hasInserted
    · exact h
  | body i bytes =>
    simp only [step]
    split
    · rename_i request d hr
      obtain ⟨token, at_, hd⟩ := h.phase hr
      exact h.move hr (signed_bindBody hd) bindBody_hasInserted
    · exact h
  | begin i =>
    simp only [step]
    split
    · rename_i request a hr
      exact h.move hr ⟨h.phase hr, le_refl _⟩ fun _ => rfl
    · exact h
  | check i found =>
    simp only [step]
    split
    · rename_i request a start hr
      split
      · exact h.move hr trivial fun _ => rfl
      · obtain ⟨hsigned, hbegun⟩ := h.phase hr
        exact h.move hr ⟨hsigned, hbegun⟩ fun _ => rfl
    · exact h
  | purge i =>
    simp only [step]
    split
    · rename_i request a start hr
      split
      · exact h
      · obtain ⟨hsigned, hbegun⟩ := h.phase hr
        exact h.move hr ⟨hsigned, hbegun, h.old_expired start⟩ fun _ => rfl
    · exact h
  | insert i =>
    simp only [step]
    split
    · rename_i request a start deleted hr
      split
      · exact h
      · rename_i hfree
        split
        · rename_i habsent
          have hclock : s.clock ≤ a.expiresAt := by simpa [insertsInTime, hr, habsent] using htime
          exact h.insert hone hr (by simpa using hfree) habsent hclock
        · exact h.move hr trivial fun _ => rfl
    · exact h
  | commit i expired lost =>
    simp only [step]
    split
    · rename_i request a start deleted hr
      split
      · exact h.move hr trivial fun _ => rfl
      · split
        · exact h.move hr trivial fun _ => rfl
        · have hcommit := h.commit hone hr lost
          cases lost
          · exact hcommit
          · rw [if_pos rfl]
            simpa [St.move] using hcommit
    · exact h
  | fail i =>
    simp only [step]
    split
    all_goals first
      | exact h
      | exact h.move ‹_› trivial fun _ => rfl

theorem inv_run (hone : OneAssertionPerId decodeComplete) {s : St} (h : Inv decodeComplete s) (events : List Ev)
    (htime : inTime decodeComplete sha256 s events = true) : Inv decodeComplete (run decodeComplete sha256 s events) := by
  induction events generalizing s with
  | nil => exact h
  | cons e events ih =>
    rw [inTime, Bool.and_eq_true] at htime
    exact ih (inv_step hone h e htime.1) htime.2

/-- In every run whose inserts go in no later than the `exp` they store, each id is accepted
    at most once, and only in transactions begun by its `exp`. -/
theorem assertion_used_once (decodeComplete : String → Int → Option Decoded) (sha256 : List UInt8 → String)
    (hone : OneAssertionPerId decodeComplete) (clock : Int) (events : List Ev)
    (htime : inTime decodeComplete sha256 (init clock) events = true) :
    UsedOnceWhileValid (run decodeComplete sha256 (init clock) events) := by
  have hinit : Inv decodeComplete (init clock) := by
    constructor <;> simp [init]
  have h := inv_run hone hinit events htime
  refine ⟨fun jti => ?_, h.valid⟩
  have := h.once jti
  omega

theorem replay_in_time_used_once :
    UsedOnceWhileValid (run sampleDecode sampleSha256 (init 80000000)
      ([.arrive sampleRequest, .arrive sampleRequest, .enter 0, .enter 1] ++ useOf 0 ++ [.tick 19000000] ++ useOf 1)) := by
  refine assertion_used_once sampleDecode sampleSha256 ?_ 80000000 _ ?_
  · intro token token' now now' d d' hd hd' _
    unfold sampleDecode at hd hd'
    split at hd
    · split at hd'
      · obtain rfl : sampleDecoded = d := by simpa using hd
        obtain rfl : sampleDecoded = d' := by simpa using hd'
        rfl
      · cases hd'
    · cases hd
  · decide +kernel

end Valid

end DataNexus.Backend.ServiceAuthentication
