/-
  DataNexus.Control.IdentityAccess — who may do what in a workspace
  (`Persistence/Migrations/002_identity_workspace.sql`, `Authentication/IdentityStore.cs`,
  `Authentication/IdentityAdministration.cs`, `Authentication/IdentityMaintenance.cs`).

  `identityAccess` is the view: one row for an active principal's active membership of an active
  workspace, with the permissions of its role and of its active groups' roles. `runChange` is
  what an identity change does to the tables, between taking the authorization lock and the
  commit: the administrator's three changes, and the operator's bootstrap and revocation. The
  digest of a change and the id drawn for a new principal are arguments.

  A change writes rows of its own workspace only, or rows of a principal (`effective_elsewhere`),
  and every existing workspace whose permissions it can alter gets a new revision
  (`revision_of_altered`). No change ever takes a workspace away or a revision back
  (`runChange_later`).
-/

import DataNexus.Control.RunModels
import DataNexus.Lib.Outcome

namespace DataNexus.Control

open Lib SemanticRunStatusValidator

/-! ## The tables -/

inductive Role where
  | reader
  | contributor
  | admin
  deriving DecidableEq

structure IdentityPrincipal where
  principalId : String
  issuer : String
  subject : String
  identityTenant : String
  active : Bool
  deriving DecidableEq

structure IdentityWorkspace where
  workspaceId : String
  tenantId : String
  name : String
  active : Bool
  revision : Int
  deriving DecidableEq

structure IdentityMembership where
  membershipId : String
  workspaceId : String
  principalId : String
  role : Option Role
  active : Bool
  deriving DecidableEq

structure IdentityGroup where
  groupId : String
  workspaceId : String
  name : String
  role : Role
  active : Bool
  deriving DecidableEq

structure IdentityGroupMember where
  workspaceId : String
  groupId : String
  membershipId : String
  deriving DecidableEq

structure CatalogAccessIds where
  entityIds : List String
  fieldIds : List String
  metricIds : List String
  relationIds : List String
  memberIds : List String
  deriving DecidableEq

structure IdentityResourceGrant where
  grantId : String
  workspaceId : String
  membershipId : Option String
  groupId : Option String
  resourceKind : String
  resourceId : String
  revision : Int
  contentSha256 : String
  permission : String
  allowedIds : CatalogAccessIds
  active : Bool
  deriving DecidableEq

inductive ActorKind where
  | oidc
  | operator
  deriving DecidableEq

/-- The unique key of `identity_changes`. -/
structure ChangeKey where
  workspaceId : String
  actorKind : ActorKind
  actorId : String
  requestId : String
  deriving DecidableEq

structure IdentityChangeRow where
  key : ChangeKey
  action : String
  targetId : String
  payloadSha256 : String
  deriving DecidableEq

structure IdentityTables where
  principals : List IdentityPrincipal
  workspaces : List IdentityWorkspace
  memberships : List IdentityMembership
  groups : List IdentityGroup
  groupMembers : List IdentityGroupMember
  grants : List IdentityResourceGrant
  changes : List IdentityChangeRow
  deriving DecidableEq

def IdentityTables.empty : IdentityTables := ⟨[], [], [], [], [], [], []⟩

/-! ## The view -/

structure IdentityAccessRow where
  principalId : String
  issuer : String
  subject : String
  identityTenant : String
  tenantId : String
  workspaceId : String
  name : String
  revision : Int
  membershipId : String
  permissions : List String
  deriving DecidableEq

def Role.permissions : Role → List String
  | .admin => ["run.reader", "run.contributor", "run.admin", "workspace:admin", "compiler:query", "resource:read"]
  | .contributor => ["run.reader", "run.contributor", "compiler:query", "resource:read"]
  | .reader => ["run.reader", "resource:read"]

namespace IdentityTables

variable (t : IdentityTables)

/-- The roles of a membership: its own, and those of its active groups in the workspace. -/
def roles (m : IdentityMembership) : List Role :=
  m.role.toList ++ (t.groupMembers.filter fun gm => gm.membershipId = m.membershipId ∧ gm.workspaceId = m.workspaceId).flatMap
    fun gm => (t.groups.filter fun g => g.groupId = gm.groupId ∧ g.workspaceId = m.workspaceId ∧ g.active).map (·.role)

/-- `array_agg(DISTINCT permission ORDER BY permission)`. -/
def permissions (m : IdentityMembership) : List String :=
  ((t.roles m).flatMap Role.permissions).dedup.mergeSort fun a b => decide (a ≤ b)

def identityAccess : List IdentityAccessRow :=
  (t.principals.filter (·.active)).flatMap fun p =>
    (t.memberships.filter fun m => m.principalId = p.principalId ∧ m.active).flatMap fun m =>
      (t.workspaces.filter fun w => w.workspaceId = m.workspaceId ∧ w.active ∧ t.permissions m ≠ []).map fun w =>
        ⟨p.principalId, p.issuer, p.subject, p.identityTenant, w.tenantId, w.workspaceId, w.name, w.revision, m.membershipId,
          t.permissions m⟩

/-- The active grants of a membership and of its active groups, for the resources of a workspace. -/
def grantsOf (workspaceId membershipId : String) : List IdentityResourceGrant :=
  t.grants.filter fun r => r.workspaceId = workspaceId ∧ r.active ∧
    (r.membershipId = some membershipId ∨
      ∃ gm ∈ t.groupMembers, gm.membershipId = membershipId ∧ gm.workspaceId = workspaceId ∧ r.groupId = some gm.groupId ∧
        ∃ g ∈ t.groups, g.groupId = gm.groupId ∧ g.workspaceId = workspaceId ∧ g.active)

end IdentityTables

/-! ## Contexts -/

/-- A trusted context, without its times. -/
structure TrustedContext where
  tenantId : String
  workspaceId : String
  principalId : String
  issuer : String
  subject : String
  membershipId : String
  revision : Int
  permissions : List String
  deriving DecidableEq

namespace IdentityStore

/-- `ResolveAsync`. -/
def resolve (t : IdentityTables) (issuer subject identityTenant workspaceId : String) : Option TrustedContext :=
  (t.identityAccess.find? fun row => row.issuer = issuer ∧ row.subject = subject ∧ row.identityTenant = identityTenant ∧
    row.workspaceId = workspaceId).map fun row =>
      ⟨row.tenantId, workspaceId, row.principalId, issuer, subject, row.membershipId, row.revision, row.permissions⟩

/-- The query of `ReauthorizeAsync`. -/
def gives (t : IdentityTables) (context : TrustedContext) (permission : String) : Bool :=
  t.identityAccess.any fun row => row.principalId = context.principalId ∧ row.issuer = context.issuer ∧
    row.subject = context.subject ∧ row.tenantId = context.tenantId ∧ row.workspaceId = context.workspaceId ∧
    row.membershipId = context.membershipId ∧ row.revision = context.revision ∧ permission ∈ row.permissions

end IdentityStore

/-! ## Changes -/

structure IdentityProvider where
  name : String
  authority : String
  tenantId : Option String
  deriving DecidableEq

structure MembershipChange where
  requestId : String
  membershipId : String
  provider : String
  subject : String
  role : Option Role
  active : Bool
  deriving DecidableEq

structure GroupChange where
  requestId : String
  groupId : String
  name : String
  role : Role
  active : Bool
  membershipIds : List String
  deriving DecidableEq

structure GrantChange where
  requestId : String
  grantId : String
  membershipId : Option String
  groupId : Option String
  resourceKind : String
  resourceId : String
  revision : Int
  contentSha256 : String
  permission : String
  allowedIds : CatalogAccessIds
  active : Bool
  deriving DecidableEq

/-- `MaintenanceChange`, without what only the adoption of a legacy run reads. -/
structure MaintenanceChange where
  requestId : String
  workspaceId : String
  tenantId : String
  name : String
  principalId : String
  membershipId : String
  provider : String
  subject : String
  deriving DecidableEq

/-- A change with what it comes with: the administrator's context and the principal id drawn, or
    the database user of the operator. -/
inductive IdentityChange where
  | membership (context : TrustedContext) (change : MembershipChange) (drawn : String)
  | group (context : TrustedContext) (change : GroupChange)
  | grant (context : TrustedContext) (change : GrantChange)
  | bootstrap (user : String) (change : MaintenanceChange)
  | revokePrincipal (user : String) (change : MaintenanceChange)
  deriving DecidableEq

/-- What the digest is taken of. -/
inductive ChangePayload where
  | membership (change : MembershipChange)
  | group (change : GroupChange)
  | grant (change : GrantChange)
  | maintenance (operation : String) (change : MaintenanceChange)
  deriving DecidableEq

inductive IdentityFailure where
  | badRequest
  | access
  | idempotencyConflict
  | preconditions
  | database
  deriving DecidableEq

namespace IdentityAdministration

def validId (value : String) : Bool :=
  0 < utf16Length value && utf16Length value ≤ 128 && value.toList.head?.any Char.isAlphanum &&
    value.toList.all fun c => c.isAlphanum || c == '.' || c == '_' || c == ':' || c == '-'

def validSubject (subject : String) : Bool :=
  0 < utf16Length subject && utf16Length subject ≤ 255 && !subject.toList.any isWhiteSpace

def resourceKinds : List String :=
  ["ontology", "knowledge-base", "resolver", "credential-reference", "llm", "prompt-template", "compute-engine", "result-store",
    "run", "dataset", "user", "group", "workspace", "policy"]

def validIds (values : List String) (maximum : Nat) : Bool :=
  values.length ≤ maximum && values.all validId && decide values.Nodup

/-- `SingleOrDefault` by name; a name that is there twice throws. -/
def provider (providers : List IdentityProvider) (name : String) : Option IdentityProvider :=
  match providers.filter (·.name = name) with
  | [p] => some p
  | _ => none

/-- The checks before the transaction. -/
def valid (providers : List IdentityProvider) : IdentityChange → Bool
  | .membership _ change _ =>
    (provider providers change.provider).isSome && validId change.membershipId && validSubject change.subject &&
      validId change.requestId
  | .group _ change =>
    validId change.groupId && (0 < utf16Length change.name && utf16Length change.name ≤ 128) &&
      validIds change.membershipIds 1000 && validId change.requestId
  | .grant _ change =>
    validId change.grantId && validId change.resourceId && 0 < change.revision && resourceKinds.contains change.resourceKind &&
      change.membershipId.isNone != change.groupId.isNone && change.membershipId.all validId && change.groupId.all validId &&
      (change.contentSha256.toList.length == 64 && change.contentSha256.toList.all fun c => c.isDigit || ('a' ≤ c && c ≤ 'f')) &&
      (change.permission == "resource:read" || change.permission == "compiler:query") &&
      [change.allowedIds.entityIds, change.allowedIds.fieldIds, change.allowedIds.metricIds, change.allowedIds.relationIds,
        change.allowedIds.memberIds].all (validIds · 10000) && validId change.requestId
  | .bootstrap _ change | .revokePrincipal _ change =>
    validId change.requestId && validId change.workspaceId && validId change.tenantId && validId change.principalId &&
      validId change.membershipId && validSubject change.subject && (0 < utf16Length change.name && utf16Length change.name ≤ 128) &&
      (provider providers change.provider).any fun p => "https://".toList.isPrefixOf p.authority.toList

end IdentityAdministration

/-! ## What a change writes -/

namespace IdentityTables

open IdentityAdministration

variable (providers : List IdentityProvider) (t : IdentityTables)

/-- The check of `identity_principals` on a new row. -/
def principalAccepted (issuer subject : String) : Bool :=
  "https://".toList.isPrefixOf issuer.toList && 0 < subject.toList.length && subject.toList.length ≤ 255

/-- `INSERT … ON CONFLICT (issuer, subject, identity_tenant) DO UPDATE … RETURNING principal_id`. -/
def upsertPrincipal (drawn issuer subject identityTenant : String) :
    Except IdentityFailure (List IdentityPrincipal × String) := do
  refuseIf (!principalAccepted issuer subject) .database
  match t.principals.find? fun p => p.issuer = issuer ∧ p.subject = subject ∧ p.identityTenant = identityTenant with
  | some p => return (t.principals, p.principalId)
  | none =>
    refuseIf (t.principals.any (·.principalId = drawn)) .badRequest
    return (t.principals ++ [⟨drawn, issuer, subject, identityTenant, true⟩], drawn)

def upsertMembership (context : TrustedContext) (change : MembershipChange) (principalId : String) :
    Except IdentityFailure (List IdentityMembership) :=
  match t.memberships.find? (·.membershipId = change.membershipId) with
  | some m => do
    refuseIf (m.workspaceId != context.workspaceId || m.principalId != principalId) .badRequest
    return t.memberships.map fun m =>
      if m.membershipId = change.membershipId ∧ m.workspaceId = context.workspaceId ∧ m.principalId = principalId then
        { m with role := change.role, active := change.active }
      else m
  | none => do
    refuseIf (t.memberships.any fun m => m.workspaceId = context.workspaceId ∧ m.principalId = principalId) .badRequest
    return t.memberships ++ [⟨change.membershipId, context.workspaceId, principalId, change.role, change.active⟩]

def applyMembership (context : TrustedContext) (change : MembershipChange) (drawn : String) :
    Except IdentityFailure IdentityTables :=
  match provider providers change.provider with
  | none => .error .badRequest
  | some p => do
    let (principals, principalId) ← t.upsertPrincipal drawn p.authority change.subject (p.tenantId.getD "")
    let memberships ← t.upsertMembership context change principalId
    return { t with principals := principals, memberships := memberships }

def upsertGroup (context : TrustedContext) (change : GroupChange) : Except IdentityFailure (List IdentityGroup) :=
  match t.groups.find? (·.groupId = change.groupId) with
  | some g => do
    refuseIf (g.workspaceId != context.workspaceId) .badRequest
    return t.groups.map fun g =>
      if g.groupId = change.groupId ∧ g.workspaceId = context.workspaceId then
        { g with name := change.name, role := change.role, active := change.active }
      else g
  | none => return t.groups ++ [⟨change.groupId, context.workspaceId, change.name, change.role, change.active⟩]

def applyGroup (context : TrustedContext) (change : GroupChange) : Except IdentityFailure IdentityTables := do
  let groups ← t.upsertGroup context change
  refuseIf (!change.membershipIds.all fun id => t.memberships.any fun m =>
    m.workspaceId = context.workspaceId ∧ m.membershipId = id) .badRequest
  return { t with
    groups := groups
    groupMembers := (t.groupMembers.filter fun gm => ¬ (gm.workspaceId = context.workspaceId ∧ gm.groupId = change.groupId)) ++
      change.membershipIds.map fun id => ⟨context.workspaceId, change.groupId, id⟩ }

def applyGrant (context : TrustedContext) (change : GrantChange) : Except IdentityFailure IdentityTables := do
  let row : IdentityResourceGrant := ⟨change.grantId, context.workspaceId, change.membershipId, change.groupId,
    change.resourceKind, change.resourceId, change.revision, change.contentSha256, change.permission, change.allowedIds,
    change.active⟩
  refuseIf (change.membershipId.any fun id => !t.memberships.any fun m =>
    m.workspaceId = context.workspaceId ∧ m.membershipId = id) .badRequest
  refuseIf (change.groupId.any fun id => !t.groups.any fun g => g.workspaceId = context.workspaceId ∧ g.groupId = id) .badRequest
  match t.grants.find? (·.grantId = change.grantId) with
  | some g =>
    refuseIf (g.workspaceId != context.workspaceId) .badRequest
    return { t with grants := t.grants.map fun g =>
      if g.grantId = change.grantId ∧ g.workspaceId = context.workspaceId then row else g }
  | none => return { t with grants := t.grants ++ [row] }

/-- `INSERT … ON CONFLICT (principal_id) DO UPDATE … WHERE` it is the same active identity. -/
def bootstrapPrincipal (change : MaintenanceChange) (p : IdentityProvider) :
    Except IdentityFailure (List IdentityPrincipal) := do
  refuseIf (!principalAccepted p.authority change.subject) .database
  match t.principals.find? (·.principalId = change.principalId) with
  | some q =>
    refuseIf (q.issuer != p.authority || q.subject != change.subject || q.identityTenant != p.tenantId.getD "" || !q.active)
      .preconditions
    return t.principals
  | none =>
    refuseIf (t.principals.any fun q => q.issuer = p.authority ∧ q.subject = change.subject ∧
      q.identityTenant = p.tenantId.getD "") .database
    return t.principals ++ [⟨change.principalId, p.authority, change.subject, p.tenantId.getD "", true⟩]

def applyBootstrap (change : MaintenanceChange) : Except IdentityFailure IdentityTables :=
  match provider providers change.provider with
  | none => .error .preconditions
  | some p => do
    let principals ← t.bootstrapPrincipal change p
    refuseIf (t.workspaces.any (·.workspaceId = change.workspaceId)) .database
    refuseIf (t.memberships.any (·.membershipId = change.membershipId)) .database
    return { t with
      principals := principals
      workspaces := t.workspaces ++ [⟨change.workspaceId, change.tenantId, change.name, true, 1⟩]
      memberships := t.memberships ++ [⟨change.membershipId, change.workspaceId, change.principalId, some .admin, true⟩] }

/-- The workspaces of a principal's memberships. -/
def joined (principalId workspaceId : String) : Bool :=
  t.memberships.any fun m => m.principalId = principalId ∧ m.workspaceId = workspaceId

/-- The principal a revocation names. -/
def isTarget (change : MaintenanceChange) (p : IdentityProvider) (q : IdentityPrincipal) : Bool :=
  decide (q.principalId = change.principalId ∧ q.issuer = p.authority ∧ q.subject = change.subject)

def applyRevocation (change : MaintenanceChange) : Except IdentityFailure IdentityTables :=
  match provider providers change.provider with
  | none => .error .preconditions
  | some p => do
    refuseIf (!t.principals.any (isTarget change p) || !t.workspaces.any fun w => t.joined change.principalId w.workspaceId)
      .preconditions
    return { t with
      principals := t.principals.map fun q => if isTarget change p q then { q with active := false } else q
      workspaces := t.workspaces.map fun w =>
        if t.joined change.principalId w.workspaceId then { w with revision := w.revision + 1 } else w }

/-- `UPDATE identity_workspaces SET revision = revision + 1`. -/
def revise (workspaceId : String) : IdentityTables :=
  { t with workspaces := t.workspaces.map fun w =>
      if w.workspaceId = workspaceId then { w with revision := w.revision + 1 } else w }

end IdentityTables

namespace IdentityChange

def key : IdentityChange → ChangeKey
  | .membership context change _ => ⟨context.workspaceId, .oidc, context.principalId, change.requestId⟩
  | .group context change => ⟨context.workspaceId, .oidc, context.principalId, change.requestId⟩
  | .grant context change => ⟨context.workspaceId, .oidc, context.principalId, change.requestId⟩
  | .bootstrap user change => ⟨change.workspaceId, .operator, user, change.requestId⟩
  | .revokePrincipal user change => ⟨change.workspaceId, .operator, user, change.requestId⟩

/-- The action and the target that are recorded. -/
def action : IdentityChange → String × String
  | .membership _ change _ => ("membership", change.membershipId)
  | .group _ change => ("group", change.groupId)
  | .grant _ change => ("grant", change.grantId)
  | .bootstrap _ change => ("operator:bootstrap", change.principalId)
  | .revokePrincipal _ change => ("operator:revoke-principal", change.principalId)

def payload : IdentityChange → ChangePayload
  | .membership _ change _ => .membership change
  | .group _ change => .group change
  | .grant _ change => .grant change
  | .bootstrap _ change => .maintenance "bootstrap" change
  | .revokePrincipal _ change => .maintenance "revoke-principal" change

/-- The context of an administrator's change. -/
def context : IdentityChange → Option TrustedContext
  | .membership context _ _ | .group context _ | .grant context _ => some context
  | .bootstrap _ _ | .revokePrincipal _ _ => none

/-- What the change itself writes; an administrator's change is recorded with a new revision. -/
def apply (providers : List IdentityProvider) (t : IdentityTables) : IdentityChange → Except IdentityFailure IdentityTables
  | .membership context change drawn => do return (← t.applyMembership providers context change drawn).revise context.workspaceId
  | .group context change => do return (← t.applyGroup context change).revise context.workspaceId
  | .grant context change => do return (← t.applyGrant context change).revise context.workspaceId
  | .bootstrap _ change => t.applyBootstrap providers change
  | .revokePrincipal _ change => t.applyRevocation providers change

end IdentityChange

/-- A change under the authorization lock; `false` is a replay, which writes nothing. -/
def runChange (providers : List IdentityProvider) (digest : ChangePayload → String) (t : IdentityTables)
    (change : IdentityChange) : Except IdentityFailure (IdentityTables × Bool) := do
  refuseIf (change.context.any fun context => !IdentityStore.gives t context "workspace:admin") .access
  match t.changes.find? (·.key = change.key) with
  | some row =>
    refuseIf (row.payloadSha256 != digest change.payload) .idempotencyConflict
    return (t, false)
  | none =>
    let written ← change.apply providers t
    -- The foreign key of the record.
    refuseIf (!written.workspaces.any (·.workspaceId = change.key.workspaceId)) .database
    return ({ written with changes := written.changes ++ [⟨change.key, change.action.1, change.action.2, digest change.payload⟩] }, true)

/-! ## Effective permissions -/

/-- A permission of the view, or the use of a resource. -/
inductive Entitlement where
  | permission (name : String)
  | grant (row : IdentityResourceGrant)

namespace IdentityTables

def Effective (t : IdentityTables) (principalId workspaceId : String) (e : Entitlement) : Prop :=
  ∃ row ∈ t.identityAccess, row.principalId = principalId ∧ row.workspaceId = workspaceId ∧
    match e with
    | .permission name => name ∈ row.permissions
    | .grant r => r ∈ t.grantsOf workspaceId row.membershipId

def revision (t : IdentityTables) (workspaceId : String) : Option Int :=
  (t.workspaces.find? (·.workspaceId = workspaceId)).map (·.revision)

/-- The keys that the view relies on. -/
structure WellFormed (t : IdentityTables) : Prop where
  workspaceIds : (t.workspaces.map (·.workspaceId)).Nodup
  members : ∀ m ∈ t.memberships, ∃ p ∈ t.principals, p.principalId = m.principalId
  changeKeys : (t.changes.map (·.key)).Nodup

variable {t t' : IdentityTables}

theorem mem_identityAccess {row : IdentityAccessRow} : row ∈ t.identityAccess ↔
    ∃ p ∈ t.principals, p.active = true ∧ ∃ m ∈ t.memberships, m.principalId = p.principalId ∧ m.active = true ∧
      ∃ w ∈ t.workspaces, w.workspaceId = m.workspaceId ∧ w.active = true ∧ t.permissions m ≠ [] ∧
        row = ⟨p.principalId, p.issuer, p.subject, p.identityTenant, w.tenantId, w.workspaceId, w.name, w.revision,
          m.membershipId, t.permissions m⟩ := by
  simp only [identityAccess, List.mem_flatMap, List.mem_map, List.mem_filter, decide_eq_true_eq]
  constructor
  · intro h
    obtain ⟨p, ⟨hp, hpa⟩, m, ⟨hm, hmp, hma⟩, w, ⟨hw, hwm, hwa, hne⟩, rfl⟩ := h
    exact ⟨p, hp, hpa, m, hm, hmp, hma, w, hw, hwm, hwa, hne, rfl⟩
  · intro h
    obtain ⟨p, hp, hpa, m, hm, hmp, hma, w, hw, hwm, hwa, hne, rfl⟩ := h
    exact ⟨p, ⟨hp, hpa⟩, m, ⟨hm, hmp, hma⟩, w, ⟨hw, hwm, hwa, hne⟩, rfl⟩

/-- The two states have the same rows for a workspace. -/
structure SamePart (t t' : IdentityTables) (workspaceId : String) : Prop where
  principals : ∀ m ∈ t.memberships, m.workspaceId = workspaceId → ∀ p, p.principalId = m.principalId →
    (p ∈ t.principals ↔ p ∈ t'.principals)
  workspaces : ∀ w, w.workspaceId = workspaceId → (w ∈ t.workspaces ↔ w ∈ t'.workspaces)
  memberships : ∀ m, m.workspaceId = workspaceId → (m ∈ t.memberships ↔ m ∈ t'.memberships)
  groups : ∀ g, g.workspaceId = workspaceId → (g ∈ t.groups ↔ g ∈ t'.groups)
  groupMembers : ∀ gm, gm.workspaceId = workspaceId → (gm ∈ t.groupMembers ↔ gm ∈ t'.groupMembers)
  grants : ∀ r, r.workspaceId = workspaceId → (r ∈ t.grants ↔ r ∈ t'.grants)

theorem SamePart.refl (t : IdentityTables) (workspaceId : String) : SamePart t t workspaceId :=
  ⟨fun _ _ _ _ _ => Iff.rfl, fun _ _ => Iff.rfl, fun _ _ => Iff.rfl, fun _ _ => Iff.rfl, fun _ _ => Iff.rfl, fun _ _ => Iff.rfl⟩

theorem SamePart.symm {workspaceId : String} (h : SamePart t t' workspaceId) : SamePart t' t workspaceId where
  principals m hm hw p hp := (h.principals m ((h.memberships m hw).mpr hm) hw p hp).symm
  workspaces w hw := (h.workspaces w hw).symm
  memberships m hw := (h.memberships m hw).symm
  groups g hw := (h.groups g hw).symm
  groupMembers gm hw := (h.groupMembers gm hw).symm
  grants r hw := (h.grants r hw).symm

theorem mem_roles {m : IdentityMembership} {role : Role} : role ∈ t.roles m ↔ m.role = some role ∨
    ∃ gm ∈ t.groupMembers, gm.membershipId = m.membershipId ∧ gm.workspaceId = m.workspaceId ∧
      ∃ g ∈ t.groups, g.groupId = gm.groupId ∧ g.workspaceId = m.workspaceId ∧ g.active = true ∧ g.role = role := by
  simp only [roles, List.mem_append, Option.mem_toList, List.mem_flatMap, List.mem_filter, List.mem_map,
    decide_eq_true_eq, and_assoc]

theorem mem_permissions {m : IdentityMembership} {name : String} :
    name ∈ t.permissions m ↔ ∃ role ∈ t.roles m, name ∈ role.permissions := by
  simp only [permissions, List.mem_mergeSort, List.mem_dedup, List.mem_flatMap]

theorem permissions_of_same {m : IdentityMembership} (h : SamePart t t' m.workspaceId) {name : String}
    (hname : name ∈ t.permissions m) : name ∈ t'.permissions m := by
  obtain ⟨role, hrole, hname⟩ := mem_permissions.mp hname
  refine mem_permissions.mpr ⟨role, mem_roles.mpr ?_, hname⟩
  rcases mem_roles.mp hrole with hown | ⟨gm, hgm, hgmm, hgmw, g, hg, hgg, hgw, hga⟩
  · exact .inl hown
  · exact .inr ⟨gm, (h.groupMembers gm hgmw).mp hgm, hgmm, hgmw, g, (h.groups g hgw).mp hg, hgg, hgw, hga⟩

theorem grantsOf_of_same {workspaceId membershipId : String} (h : SamePart t t' workspaceId) {r : IdentityResourceGrant}
    (hr : r ∈ t.grantsOf workspaceId membershipId) : r ∈ t'.grantsOf workspaceId membershipId := by
  simp only [grantsOf, List.mem_filter, decide_eq_true_eq] at hr ⊢
  obtain ⟨hmem, hw, hactive, hwhom⟩ := hr
  refine ⟨(h.grants r hw).mp hmem, hw, hactive, ?_⟩
  rcases hwhom with hown | ⟨gm, hgm, hgmm, hgmw, hrg, g, hg, hgg, hgw, hga⟩
  · exact .inl hown
  · exact .inr ⟨gm, (h.groupMembers gm hgmw).mp hgm, hgmm, hgmw, hrg, g, (h.groups g hgw).mp hg, hgg, hgw, hga⟩

theorem effective_of_same {workspaceId : String} (h : SamePart t t' workspaceId) {principalId : String} {e : Entitlement}
    (he : t.Effective principalId workspaceId e) : t'.Effective principalId workspaceId e := by
  obtain ⟨row, hrow, hpid, hwid, hent⟩ := he
  obtain ⟨p, hp, hpa, m, hm, hmp, hma, w, hw, hwm, hwa, hne, rfl⟩ := mem_identityAccess.mp hrow
  have hmw : m.workspaceId = workspaceId := hwm.symm.trans hwid
  have hsame : SamePart t t' m.workspaceId := hmw ▸ h
  obtain ⟨name, hname⟩ := List.exists_mem_of_ne_nil _ hne
  have hne' : t'.permissions m ≠ [] := List.ne_nil_of_mem (permissions_of_same hsame hname)
  refine ⟨_, mem_identityAccess.mpr ⟨p, (h.principals m hm hmw p hmp.symm).mp hp, hpa, m, (h.memberships m hmw).mp hm, hmp, hma,
    w, (h.workspaces w hwid).mp hw, hwm, hwa, hne', rfl⟩, hpid, hwid, ?_⟩
  cases e with
  | permission name => exact permissions_of_same hsame hent
  | grant r => exact grantsOf_of_same h hent

/-- What a principal may do in a workspace depends on the rows of the workspace. -/
theorem effective_iff_of_same {workspaceId : String} (h : SamePart t t' workspaceId) (principalId : String) (e : Entitlement) :
    t.Effective principalId workspaceId e ↔ t'.Effective principalId workspaceId e :=
  ⟨effective_of_same h, effective_of_same h.symm⟩

theorem revision_of_mem (h : t.WellFormed) {w : IdentityWorkspace} (hw : w ∈ t.workspaces) :
    t.revision w.workspaceId = some w.revision := by
  obtain ⟨found, hfound⟩ : ∃ found, t.workspaces.find? (·.workspaceId = w.workspaceId) = some found := by
    rw [← Option.isSome_iff_exists, List.find?_isSome]
    exact ⟨w, hw, by simp⟩
  have hid : found.workspaceId = w.workspaceId := by simpa using List.find?_some hfound
  obtain rfl : found = w := List.inj_on_of_nodup_map h.workspaceIds (List.mem_of_find?_eq_some hfound) hw hid
  rw [revision, hfound]
  rfl

/-- A context that is given a permission is at the revision of its workspace. -/
theorem revision_of_gives (h : t.WellFormed) {context : TrustedContext} {permission : String}
    (hg : IdentityStore.gives t context permission = true) : t.revision context.workspaceId = some context.revision := by
  simp only [IdentityStore.gives, List.any_eq_true, decide_eq_true_eq] at hg
  obtain ⟨row, hrow, -, -, -, -, hwid, -, hrev, -⟩ := hg
  obtain ⟨p, -, -, m, -, -, -, w, hw, -, -, -, rfl⟩ := mem_identityAccess.mp hrow
  rw [← hwid, ← hrev]
  exact revision_of_mem h hw

theorem revision_of_resolve (h : t.WellFormed) {issuer subject identityTenant workspaceId : String} {context : TrustedContext}
    (hr : IdentityStore.resolve t issuer subject identityTenant workspaceId = some context) :
    t.revision context.workspaceId = some context.revision := by
  simp only [IdentityStore.resolve, Option.map_eq_some_iff] at hr
  obtain ⟨row, hrow, rfl⟩ := hr
  have hmatch := List.find?_some hrow
  simp only [decide_eq_true_eq] at hmatch
  obtain ⟨-, -, -, hwid⟩ := hmatch
  obtain ⟨p, -, -, m, -, -, -, w, hw, -, -, -, rfl⟩ := mem_identityAccess.mp (List.mem_of_find?_eq_some hrow)
  rw [← hwid]
  exact revision_of_mem h hw

/-! ## What a change leaves alone -/

theorem SamePart.trans {t'' : IdentityTables} {workspaceId : String} (h : SamePart t t' workspaceId)
    (h' : SamePart t' t'' workspaceId) : SamePart t t'' workspaceId where
  principals m hm hw p hp := (h.principals m hm hw p hp).trans (h'.principals m ((h.memberships m hw).mp hm) hw p hp)
  workspaces w hw := (h.workspaces w hw).trans (h'.workspaces w hw)
  memberships m hw := (h.memberships m hw).trans (h'.memberships m hw)
  groups g hw := (h.groups g hw).trans (h'.groups g hw)
  groupMembers gm hw := (h.groupMembers gm hw).trans (h'.groupMembers gm hw)
  grants r hw := (h.grants r hw).trans (h'.grants r hw)

/-- An update that touches rows of one workspace only, and leaves them there. -/
theorem mem_map_elsewhere {α : Type} (place : α → String) {here elsewhere : String} (hne : elsewhere ≠ here) {f : α → α}
    (hf : ∀ a, f a = a ∨ (place a = here ∧ place (f a) = here)) {l : List α} {a : α} (ha : place a = elsewhere) :
    a ∈ l ↔ a ∈ l.map f := by
  constructor
  · intro hmem
    refine List.mem_map.mpr ⟨a, hmem, ?_⟩
    rcases hf a with he | ⟨hp, -⟩
    · exact he
    · exact absurd (ha.symm.trans hp) hne
  · intro hmem
    obtain ⟨b, hb, rfl⟩ := List.mem_map.mp hmem
    rcases hf b with he | ⟨-, hp⟩
    · rw [he]
      exact hb
    · exact absurd (ha.symm.trans hp) hne

theorem mem_append_elsewhere {α : Type} (place : α → String) {here elsewhere : String} (hne : elsewhere ≠ here)
    {l new : List α} (hnew : ∀ a ∈ new, place a = here) {a : α} (ha : place a = elsewhere) : a ∈ l ↔ a ∈ l ++ new := by
  rw [List.mem_append]
  constructor
  · exact .inl
  · intro hmem
    rcases hmem with hmem | hmem
    · exact hmem
    · exact absurd (ha.symm.trans (hnew a hmem)) hne

/-- What an administrator's change does before its workspace is revised. -/
structure Local (t t' : IdentityTables) (workspaceId : String) : Prop where
  workspaces : t'.workspaces = t.workspaces
  changes : t'.changes = t.changes
  members : ∀ m ∈ t'.memberships, ∃ p ∈ t'.principals, p.principalId = m.principalId
  elsewhere : ∀ other, other ≠ workspaceId → SamePart t t' other

theorem upsertPrincipal_ok {drawn issuer subject identityTenant : String} {ps : List IdentityPrincipal} {principalId : String}
    (h : t.upsertPrincipal drawn issuer subject identityTenant = .ok (ps, principalId)) :
    (∃ p ∈ ps, p.principalId = principalId) ∧
    (ps = t.principals ∨ ∃ new, ps = t.principals ++ [new] ∧ ∀ p ∈ t.principals, p.principalId ≠ new.principalId) := by
  simp only [upsertPrincipal, bind_eq_ok] at h
  obtain ⟨_, -, h⟩ := h
  split at h
  · rename_i p hp
    simp only [pure_eq_ok, Prod.mk.injEq] at h
    obtain ⟨rfl, rfl⟩ := h
    exact ⟨⟨p, List.mem_of_find?_eq_some hp, rfl⟩, .inl rfl⟩
  · simp only [bind_eq_ok, refuseIf_eq_ok, pure_eq_ok, Prod.mk.injEq, List.any_eq_false, decide_eq_true_eq] at h
    obtain ⟨_, hfree, rfl, rfl⟩ := h
    exact ⟨⟨_, List.mem_append_right _ (List.mem_singleton_self _), rfl⟩, .inr ⟨_, rfl, hfree⟩⟩

/-- The principals that members have are the same after an upsert. -/
theorem principals_kept (hwf : t.WellFormed) {ps : List IdentityPrincipal}
    (h : ps = t.principals ∨ ∃ new, ps = t.principals ++ [new] ∧ ∀ p ∈ t.principals, p.principalId ≠ new.principalId) :
    (∀ p ∈ t.principals, p ∈ ps) ∧
    ∀ m ∈ t.memberships, ∀ p, p.principalId = m.principalId → (p ∈ t.principals ↔ p ∈ ps) := by
  rcases h with rfl | ⟨new, rfl, hnew⟩
  · exact ⟨fun p hp => hp, fun _ _ _ _ => Iff.rfl⟩
  · refine ⟨fun p hp => List.mem_append_left _ hp, fun m hm p hp => ?_⟩
    rw [List.mem_append, List.mem_singleton]
    constructor
    · exact .inl
    · intro hmem
      rcases hmem with hmem | rfl
      · exact hmem
      · obtain ⟨q, hq, hqm⟩ := hwf.members m hm
        exact absurd (hqm.trans hp.symm) (hnew q hq)

theorem upsertMembership_ok {context : TrustedContext} {change : MembershipChange} {principalId : String}
    {ms : List IdentityMembership} (h : t.upsertMembership context change principalId = .ok ms) :
    (∀ other, other ≠ context.workspaceId → ∀ m, m.workspaceId = other → (m ∈ t.memberships ↔ m ∈ ms)) ∧
    ∀ m ∈ ms, m.principalId = principalId ∨ ∃ old ∈ t.memberships, old.principalId = m.principalId := by
  simp only [upsertMembership] at h
  split at h
  · simp only [bind_eq_ok, pure_eq_ok] at h
    obtain ⟨_, -, rfl⟩ := h
    refine ⟨fun other hne m hm => mem_map_elsewhere (·.workspaceId) hne (fun m' => ?_) hm, fun m hm => ?_⟩
    · split
      · rename_i hmatch
        exact .inr ⟨hmatch.2.1, hmatch.2.1⟩
      · exact .inl rfl
    · obtain ⟨old, hold, rfl⟩ := List.mem_map.mp hm
      refine .inr ⟨old, hold, ?_⟩
      split <;> rfl
  · simp only [bind_eq_ok, pure_eq_ok] at h
    obtain ⟨_, -, rfl⟩ := h
    refine ⟨fun other hne m hm => mem_append_elsewhere (·.workspaceId) hne (fun m' hm' => ?_) hm, fun m hm => ?_⟩
    · obtain rfl := List.mem_singleton.mp hm'
      rfl
    · rcases List.mem_append.mp hm with hm | hm
      · exact .inr ⟨m, hm, rfl⟩
      · obtain rfl := List.mem_singleton.mp hm
        exact .inl rfl

theorem applyMembership_local (hwf : t.WellFormed) {providers : List IdentityProvider} {context : TrustedContext}
    {change : MembershipChange} {drawn : String} (h : t.applyMembership providers context change drawn = .ok t') :
    Local t t' context.workspaceId := by
  simp only [applyMembership] at h
  split at h
  · cases h
  · simp only [bind_eq_ok, pure_eq_ok] at h
    obtain ⟨⟨ps, principalId⟩, hps, ms, hms, rfl⟩ := h
    obtain ⟨⟨p, hp, hpid⟩, hcases⟩ := upsertPrincipal_ok hps
    obtain ⟨hgrown, hkept⟩ := principals_kept hwf hcases
    obtain ⟨helsewhere, hmembers⟩ := upsertMembership_ok hms
    refine ⟨rfl, rfl, ?_, fun other hne => ⟨fun m hm _ q hq => hkept m hm q hq, fun _ _ => Iff.rfl,
      fun m hm => helsewhere other hne m hm, fun _ _ => Iff.rfl, fun _ _ => Iff.rfl, fun _ _ => Iff.rfl⟩⟩
    intro m hm
    rcases hmembers m hm with he | ⟨old, hold, he⟩
    · exact ⟨p, hp, hpid.trans he.symm⟩
    · obtain ⟨q, hq, hqm⟩ := hwf.members old hold
      exact ⟨q, hgrown q hq, hqm.trans he⟩

theorem upsertGroup_ok {context : TrustedContext} {change : GroupChange} {gs : List IdentityGroup}
    (h : t.upsertGroup context change = .ok gs) :
    ∀ other, other ≠ context.workspaceId → ∀ g, g.workspaceId = other → (g ∈ t.groups ↔ g ∈ gs) := by
  simp only [upsertGroup] at h
  split at h
  · simp only [bind_eq_ok, pure_eq_ok] at h
    obtain ⟨_, -, rfl⟩ := h
    intro other hne g hg
    refine mem_map_elsewhere (·.workspaceId) hne (fun g' => ?_) hg
    split
    · rename_i hmatch
      exact .inr ⟨hmatch.2, hmatch.2⟩
    · exact .inl rfl
  · obtain rfl := pure_eq_ok.mp h
    intro other hne g hg
    refine mem_append_elsewhere (·.workspaceId) hne (fun g' hg' => ?_) hg
    obtain rfl := List.mem_singleton.mp hg'
    rfl

theorem applyGroup_local (hwf : t.WellFormed) {context : TrustedContext} {change : GroupChange}
    (h : t.applyGroup context change = .ok t') : Local t t' context.workspaceId := by
  simp only [applyGroup, bind_eq_ok, pure_eq_ok] at h
  obtain ⟨gs, hgs, _, -, rfl⟩ := h
  refine ⟨rfl, rfl, hwf.members, fun other hne => ⟨fun _ _ _ _ _ => Iff.rfl, fun _ _ => Iff.rfl, fun _ _ => Iff.rfl,
    fun g hg => upsertGroup_ok hgs other hne g hg, fun gm hgm => ?_, fun _ _ => Iff.rfl⟩⟩
  have hkept : gm ∈ t.groupMembers ↔
      gm ∈ t.groupMembers.filter fun gm => ¬ (gm.workspaceId = context.workspaceId ∧ gm.groupId = change.groupId) := by
    rw [List.mem_filter]
    refine ⟨fun hmem => ⟨hmem, ?_⟩, fun hmem => hmem.1⟩
    have hno : gm.workspaceId ≠ context.workspaceId := fun he => hne (hgm.symm.trans he)
    simp [hno]
  refine hkept.trans (mem_append_elsewhere (·.workspaceId) hne (fun new hnew => ?_) hgm)
  obtain ⟨id, -, rfl⟩ := List.mem_map.mp hnew
  rfl

theorem applyGrant_local (hwf : t.WellFormed) {context : TrustedContext} {change : GrantChange}
    (h : t.applyGrant context change = .ok t') : Local t t' context.workspaceId := by
  simp only [applyGrant, bind_eq_ok] at h
  obtain ⟨_, -, _, -, h⟩ := h
  split at h
  · simp only [bind_eq_ok, pure_eq_ok] at h
    obtain ⟨_, -, rfl⟩ := h
    refine ⟨rfl, rfl, hwf.members, fun other hne => ⟨fun _ _ _ _ _ => Iff.rfl, fun _ _ => Iff.rfl, fun _ _ => Iff.rfl,
      fun _ _ => Iff.rfl, fun _ _ => Iff.rfl, fun r hr => mem_map_elsewhere (·.workspaceId) hne (fun r' => ?_) hr⟩⟩
    split
    · rename_i hmatch
      exact .inr ⟨hmatch.2, rfl⟩
    · exact .inl rfl
  · obtain rfl := pure_eq_ok.mp h
    refine ⟨rfl, rfl, hwf.members, fun other hne => ⟨fun _ _ _ _ _ => Iff.rfl, fun _ _ => Iff.rfl, fun _ _ => Iff.rfl,
      fun _ _ => Iff.rfl, fun _ _ => Iff.rfl, fun r hr => mem_append_elsewhere (·.workspaceId) hne (fun r' hr' => ?_) hr⟩⟩
    obtain rfl := List.mem_singleton.mp hr'
    rfl

/-! ## New revisions -/

section

variable (p : String → Prop) [DecidablePred p]

/-- One revision up, where `p` says so. -/
def bump (w : IdentityWorkspace) : IdentityWorkspace :=
  if p w.workspaceId then { w with revision := w.revision + 1 } else w

theorem bump_workspaceId (w : IdentityWorkspace) : (bump p w).workspaceId = w.workspaceId := by
  unfold bump
  split <;> rfl

theorem bump_ids (l : List IdentityWorkspace) : (l.map (bump p)).map (·.workspaceId) = l.map (·.workspaceId) := by
  rw [List.map_map]
  exact List.map_congr_left fun w _ => bump_workspaceId p w

theorem revision_bump (t : IdentityTables) {u : IdentityTables} (h : u.workspaces = t.workspaces.map (bump p)) (id : String) :
    u.revision id = (t.revision id).map fun r => if p id then r + 1 else r := by
  have hpred : ((fun w : IdentityWorkspace => decide (w.workspaceId = id)) ∘ bump p) = fun w => decide (w.workspaceId = id) := by
    funext w
    simp only [Function.comp_apply, bump_workspaceId]
  rw [revision, revision, h, List.find?_map, hpred, Option.map_map, Option.map_map]
  cases hfind : t.workspaces.find? (·.workspaceId = id) with
  | none => rfl
  | some w =>
    have hid : w.workspaceId = id := by simpa using List.find?_some hfind
    simp only [Option.map_some, Function.comp_apply, bump, hid]
    split <;> rfl

theorem mem_bump {l : List IdentityWorkspace} {w : IdentityWorkspace} (hw : ¬ p w.workspaceId) :
    w ∈ l ↔ w ∈ l.map (bump p) := by
  constructor
  · intro hmem
    exact List.mem_map.mpr ⟨w, hmem, if_neg hw⟩
  · intro hmem
    obtain ⟨old, hold, rfl⟩ := List.mem_map.mp hmem
    rw [bump_workspaceId] at hw
    rw [bump, if_neg hw]
    exact hold

end

/-- Every workspace that is there stays as it is, or has a new revision. -/
structure Fenced (t t' : IdentityTables) : Prop where
  workspaceIds : (t'.workspaces.map (·.workspaceId)).Nodup
  members : ∀ m ∈ t'.memberships, ∃ p ∈ t'.principals, p.principalId = m.principalId
  changes : t'.changes = t.changes
  each : ∀ id r, t.revision id = some r → (SamePart t t' id ∧ t'.revision id = some r) ∨ t'.revision id = some (r + 1)

theorem Local.fenced (hwf : t.WellFormed) {id : String} (h : Local t t' id) : Fenced t (t'.revise id) := by
  have hworkspaces : (t'.revise id).workspaces = t.workspaces.map (bump (· = id)) := by
    rw [← h.workspaces]
    rfl
  refine ⟨by rw [hworkspaces, bump_ids]; exact hwf.workspaceIds, h.members, h.changes, fun other r hr => ?_⟩
  have hrevision := revision_bump (· = id) t hworkspaces other
  rw [hr, Option.map_some] at hrevision
  by_cases he : other = id
  · rw [if_pos he] at hrevision
    exact .inr hrevision
  · rw [if_neg he] at hrevision
    refine .inl ⟨(h.elsewhere other he).trans ⟨fun _ _ _ _ _ => Iff.rfl, fun w hw => ?_, fun _ _ => Iff.rfl,
      fun _ _ => Iff.rfl, fun _ _ => Iff.rfl, fun _ _ => Iff.rfl⟩, hrevision⟩
    exact mem_bump (· = id) (by rw [hw]; exact he)

theorem applyRevocation_fenced (hwf : t.WellFormed) {providers : List IdentityProvider} {change : MaintenanceChange}
    (h : t.applyRevocation providers change = .ok t') : Fenced t t' := by
  simp only [applyRevocation] at h
  split at h
  · cases h
  rename_i p _
  simp only [bind_eq_ok, pure_eq_ok] at h
  obtain ⟨_, -, rfl⟩ := h
  have hid : ∀ q : IdentityPrincipal, (if isTarget change p q = true then { q with active := false } else q).principalId =
      q.principalId := by
    intro q
    split <;> rfl
  have hrevision := revision_bump (fun id => t.joined change.principalId id = true) t
    (u := { t with
      principals := t.principals.map fun q => if isTarget change p q then { q with active := false } else q
      workspaces := t.workspaces.map fun w =>
        if t.joined change.principalId w.workspaceId then { w with revision := w.revision + 1 } else w }) rfl
  refine ⟨?_, ?_, rfl, fun id r hr => ?_⟩
  · have hids := bump_ids (fun id => t.joined change.principalId id = true) t.workspaces
    exact hids ▸ hwf.workspaceIds
  · intro m hm
    obtain ⟨q, hq, hqm⟩ := hwf.members m hm
    exact ⟨_, List.mem_map.mpr ⟨q, hq, rfl⟩, (hid q).trans hqm⟩
  · have hthis := hrevision id
    rw [hr, Option.map_some] at hthis
    by_cases hjoined : t.joined change.principalId id = true
    · rw [if_pos hjoined] at hthis
      exact .inr hthis
    · rw [if_neg hjoined] at hthis
      refine .inl ⟨⟨fun m hm hmw q hq => ?_, fun w hw => ?_, fun _ _ => Iff.rfl, fun _ _ => Iff.rfl, fun _ _ => Iff.rfl,
        fun _ _ => Iff.rfl⟩, hthis⟩
      · -- The revoked principal has no membership here.
        have hno : ∀ q' : IdentityPrincipal, q'.principalId = m.principalId → isTarget change p q' = false := by
          intro q' hq'
          by_contra htarget
          simp only [isTarget, Bool.not_eq_false, decide_eq_true_eq] at htarget
          refine hjoined (List.any_eq_true.mpr ⟨m, hm, ?_⟩)
          simp [hmw, ← hq', htarget.1]
        constructor
        · intro hmem
          exact List.mem_map.mpr ⟨q, hmem, by simp [hno q hq]⟩
        · intro hmem
          obtain ⟨old, hold, he⟩ := List.mem_map.mp hmem
          have hold' : isTarget change p old = false := hno old ((hid old).symm.trans (by rw [he, hq]))
          simp only [hold', Bool.false_eq_true, if_false] at he
          exact he ▸ hold
      · exact mem_bump (fun id => t.joined change.principalId id = true) (by rw [hw]; exact hjoined)

theorem bootstrapPrincipal_ok {change : MaintenanceChange} {p : IdentityProvider} {ps : List IdentityPrincipal}
    (h : t.bootstrapPrincipal change p = .ok ps) : (∃ q ∈ ps, q.principalId = change.principalId) ∧
    (ps = t.principals ∨ ∃ new, ps = t.principals ++ [new] ∧ ∀ q ∈ t.principals, q.principalId ≠ new.principalId) := by
  simp only [bootstrapPrincipal, bind_eq_ok] at h
  obtain ⟨_, -, h⟩ := h
  split at h
  · rename_i q hq
    simp only [bind_eq_ok, pure_eq_ok] at h
    obtain ⟨_, -, rfl⟩ := h
    exact ⟨⟨q, List.mem_of_find?_eq_some hq, by simpa using List.find?_some hq⟩, .inl rfl⟩
  · rename_i hnone
    simp only [bind_eq_ok, pure_eq_ok] at h
    obtain ⟨_, -, rfl⟩ := h
    refine ⟨⟨_, List.mem_append_right _ (List.mem_singleton_self _), rfl⟩, .inr ⟨_, rfl, fun q hq he => ?_⟩⟩
    have hno := List.find?_eq_none.mp hnone q hq
    simp [he] at hno

theorem applyBootstrap_fenced (hwf : t.WellFormed) {providers : List IdentityProvider} {change : MaintenanceChange}
    (h : t.applyBootstrap providers change = .ok t') : Fenced t t' := by
  simp only [applyBootstrap] at h
  split at h
  · cases h
  simp only [bind_eq_ok, pure_eq_ok, refuseIf_eq_ok, List.any_eq_false, decide_eq_true_eq] at h
  obtain ⟨ps, hps, _, hworkspace, _, -, rfl⟩ := h
  obtain ⟨⟨q, hq, hqid⟩, hcases⟩ := bootstrapPrincipal_ok hps
  obtain ⟨hgrown, hkept⟩ := principals_kept hwf hcases
  have hnew : ∀ id, t.revision id ≠ none → id ≠ change.workspaceId := by
    intro id hid he
    refine hid ?_
    rw [revision, Option.map_eq_none_iff, List.find?_eq_none]
    intro w hw hwid
    exact hworkspace w hw (by simpa [he] using hwid)
  refine ⟨?_, ?_, rfl, fun id r hr => .inl ?_⟩
  · rw [List.map_append, List.nodup_append]
    refine ⟨hwf.workspaceIds, by simp, ?_⟩
    intro a ha b hb he
    obtain ⟨w, hw, rfl⟩ := List.mem_map.mp ha
    obtain rfl : b = change.workspaceId := by simpa using hb
    exact hworkspace w hw he
  · intro m hm
    rcases List.mem_append.mp hm with hm | hm
    · obtain ⟨q', hq', hqm⟩ := hwf.members m hm
      exact ⟨q', hgrown q' hq', hqm⟩
    · obtain rfl := List.mem_singleton.mp hm
      exact ⟨q, hq, hqid⟩
  · have hne : id ≠ change.workspaceId := hnew id (by rw [hr]; simp)
    refine ⟨⟨fun m hm _ q' hq' => hkept m hm q' hq', fun w hw => ?_, fun m hm => ?_, fun _ _ => Iff.rfl, fun _ _ => Iff.rfl,
      fun _ _ => Iff.rfl⟩, ?_⟩
    · refine mem_append_elsewhere (·.workspaceId) hne (fun w' hw' => ?_) hw
      obtain rfl := List.mem_singleton.mp hw'
      rfl
    · refine mem_append_elsewhere (·.workspaceId) hne (fun m' hm' => ?_) hm
      obtain rfl := List.mem_singleton.mp hm'
      rfl
    · rw [revision, List.find?_append]
      rw [revision, Option.map_eq_some_iff] at hr
      obtain ⟨w, hw, rfl⟩ := hr
      rw [hw]
      rfl

theorem apply_fenced (hwf : t.WellFormed) {providers : List IdentityProvider} {change : IdentityChange}
    (h : change.apply providers t = .ok t') : Fenced t t' := by
  cases change with
  | membership context change drawn =>
    simp only [IdentityChange.apply, bind_eq_ok, pure_eq_ok] at h
    obtain ⟨written, hwritten, rfl⟩ := h
    exact (applyMembership_local hwf hwritten).fenced hwf
  | group context change =>
    simp only [IdentityChange.apply, bind_eq_ok, pure_eq_ok] at h
    obtain ⟨written, hwritten, rfl⟩ := h
    exact (applyGroup_local hwf hwritten).fenced hwf
  | grant context change =>
    simp only [IdentityChange.apply, bind_eq_ok, pure_eq_ok] at h
    obtain ⟨written, hwritten, rfl⟩ := h
    exact (applyGrant_local hwf hwritten).fenced hwf
  | bootstrap user change => exact applyBootstrap_fenced hwf h
  | revokePrincipal user change => exact applyRevocation_fenced hwf h

/-! ## A change -/

/-- An applied change of existing workspaces, its record, and the keys it keeps. -/
structure Changed (t t' : IdentityTables) (key : ChangeKey) : Prop where
  wellFormed : t'.WellFormed
  keys : t'.changes.map (·.key) = t.changes.map (·.key) ++ [key]
  revised : ∀ id r, t.revision id = some r →
    (∃ principalId e, ¬ (t.Effective principalId id e ↔ t'.Effective principalId id e)) → t'.revision id = some (r + 1)
  later : ∀ id r, t.revision id = some r → ∃ r', t'.revision id = some r' ∧ r ≤ r'

theorem runChange_ok (hwf : t.WellFormed) {providers : List IdentityProvider} {digest : ChangePayload → String}
    {change : IdentityChange} {applied : Bool} (h : runChange providers digest t change = .ok (t', applied)) :
    (applied = false ∧ t' = t) ∨ (applied = true ∧ Changed t t' change.key) := by
  simp only [runChange, bind_eq_ok] at h
  obtain ⟨_, -, h⟩ := h
  split at h
  · simp only [bind_eq_ok, pure_eq_ok, Prod.mk.injEq] at h
    obtain ⟨_, -, rfl, rfl⟩ := h
    exact .inl ⟨rfl, rfl⟩
  rename_i hnone
  simp only [bind_eq_ok, pure_eq_ok, Prod.mk.injEq] at h
  obtain ⟨written, hwritten, _, -, rfl, rfl⟩ := h
  have hf := apply_fenced hwf hwritten
  refine .inr ⟨rfl, ⟨hf.workspaceIds, hf.members, ?_⟩, ?_, ?_, ?_⟩
  · rw [List.map_append, List.nodup_append, hf.changes]
    refine ⟨hwf.changeKeys, by simp, ?_⟩
    intro a ha b hb he
    obtain ⟨row, hrow, rfl⟩ := List.mem_map.mp ha
    obtain rfl : b = change.key := by simpa using hb
    have hno := List.find?_eq_none.mp hnone row hrow
    simp [he] at hno
  · rw [List.map_append, hf.changes]
    rfl
  · intro id r hr haltered
    obtain ⟨principalId, e, haltered⟩ := haltered
    rcases hf.each id r hr with ⟨hsame, -⟩ | hrevised
    · refine absurd (effective_iff_of_same ?_ principalId e) haltered
      exact ⟨hsame.principals, hsame.workspaces, hsame.memberships, hsame.groups, hsame.groupMembers, hsame.grants⟩
    · exact hrevised
  · intro id r hr
    rcases hf.each id r hr with ⟨-, hkept⟩ | hrevised
    · exact ⟨r, hkept, le_rfl⟩
    · exact ⟨r + 1, hrevised, by omega⟩

end IdentityTables

end DataNexus.Control
