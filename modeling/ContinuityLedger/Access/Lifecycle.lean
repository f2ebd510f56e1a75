import ContinuityLedger.Foundations.PyStr
import ContinuityLedger.Foundations.RowLocks
import ContinuityLedger.Foundations.Sha256
import ContinuityLedger.Foundations.Calendar
import Mathlib.Data.Finset.Basic

/-! Tenants and their API keys: the token `jlk_<key id>_<secret>`, how it is read and the hash that is stored of it; the tables of
the control schema with their triggers, and the transactions that issue, revoke and look up keys. -/

namespace ContinuityLedger.Access

open Foundations Foundations.Sha256 Foundations.Calendar Foundations.RowLocks

def tokenPrefix : String := "jlk_"

def isHexDigit (c : Char) : Bool := ('0' ≤ c && c ≤ '9') || ('a' ≤ c && c ≤ 'f')

/-- `[A-Za-z0-9_-]`. -/
def isSecretChar (c : Char) : Bool :=
  ('A' ≤ c && c ≤ 'Z') || ('a' ≤ c && c ≤ 'z') || ('0' ≤ c && c ≤ '9') || c = '_' || c = '-'

def isKeyId (s : String) : Bool := s.toList.length = 16 && s.toList.all isHexDigit

def isSecret (s : String) : Bool := s.toList.length = 43 && s.toList.all isSecretChar

def makeToken (keyId secret : String) : String := tokenPrefix ++ keyId ++ "_" ++ secret

/-- The two parts of what is exactly a token. -/
def parseToken (token : String) : Option (String × String) :=
  let keyId := String.ofList ((token.toList.drop 4).take 16)
  let secret := String.ofList (token.toList.drop 21)
  if isKeyId keyId && isSecret secret && token = makeToken keyId secret then some (keyId, secret) else none

def isTenantText (cs : List Char) : Bool :=
  "t_".toList.isPrefixOf cs && (cs.drop 2).length = 32 && (cs.drop 2).all isHexDigit

/-- `^t_[0-9a-f]{32}$`, where the `$` lets a last newline pass. -/
def isTenantKey (s : String) : Bool :=
  isTenantText s.toList || (s.toList.getLast? = some '\n' && isTenantText s.toList.dropLast)

variable {keyId secret : String}

/-- The message under the HMAC: domain, key id and secret. -/
def keyMessage (keyId secret : String) : Bytes := utf8 ("jlk1" ++ String.singleton (Char.ofNat 0) ++ keyId ++
  String.singleton (Char.ofNat 0) ++ secret)

def keyHash (hmac : Bytes → Bytes → Hex64) (keyId secret : String) (pepper : Bytes) : Hex64 :=
  hmac pepper (keyMessage keyId secret)

lemma parseToken_eq_some {token keyId secret : String} (h : parseToken token = some (keyId, secret)) :
    token = makeToken keyId secret := by
  simp only [parseToken] at h
  split_ifs at h with hparts
  simp only [Bool.and_eq_true, decide_eq_true_eq] at hparts
  obtain ⟨rfl, rfl⟩ := Prod.mk.inj (Option.some.inj h)
  exact hparts.2

/-- Under one key id, different secrets are different messages. -/
lemma keyMessage_injective {secret' : String} (h : keyMessage keyId secret = keyMessage keyId secret') :
    secret = secret' := by
  have htext := congrArg String.toList (PyStr.utf8_injective h)
  simp only [String.toList_append, List.append_assoc, List.append_cancel_left_eq] at htext
  exact String.toList_inj.mp htext

/-! ### The control schema -/

inductive TenantStatus
  | active | suspended | quiesced | restoring | deleting | deleted
deriving DecidableEq

namespace TenantStatus

def ofText (s : String) : Option TenantStatus :=
  match s with
  | "active" => some active
  | "suspended" => some suspended
  | "quiesced" => some quiesced
  | "restoring" => some restoring
  | "deleting" => some deleting
  | "deleted" => some deleted
  | _ => none

/-- `IN ('deleting', 'deleted')`. -/
def ending : TenantStatus → Bool
  | deleting | deleted => true
  | _ => false

end TenantStatus

inductive KeyStatus
  | active | revoked
deriving DecidableEq

structure TenantRow where
  label : String
  status : TenantStatus
  createdAt : Instant
  deletedAt : Option Instant

/-- `guarded` is history: the trigger of the insert has found the tenant. -/
structure KeyRow where
  tenantKey : String
  keyHash : Hex64
  scopes : List String
  status : KeyStatus
  label : String
  createdAt : Instant
  expiresAt : Option Instant
  lastUsedAt : Option Instant
  revokedAt : Option Instant
  guarded : Bool

namespace KeyRow

def revoke (now : Instant) (row : KeyRow) : KeyRow := { row with status := .revoked, revokedAt := some now }

def expired (now : Instant) (row : KeyRow) : Bool := row.expiresAt.any (· ≤ now)

/-- The condition of `touch_key_last_used`. -/
def untouched (now : Instant) (row : KeyRow) : Bool :=
  row.status = .active && row.lastUsedAt.all (· < now - 60 * 1000000)

end KeyRow

structure ResolvedKey where
  keyId : String
  tenantKey : String
  scopes : Finset String
  tenantStatus : TenantStatus

/-- A key that `create_key` has made up, and for whom. -/
structure NewKey where
  keyId : String
  secret : String
  tenantKey : String
  scopes : List String
  label : String
  expiresAt : Option Instant

def NewKey.token (k : NewKey) : String := makeToken k.keyId k.secret

/-- Where a transaction is: between two statements, or inside of one. -/
inductive Point
  | ready
  | inserting (key : NewKey) (guarded : Bool)
  | referencing (key : NewKey)
  | updating (tenantKey : String) (status : TenantStatus)
  | revoking (tenantKey : String) (status : TenantStatus) (pending : List String)
  | touching (token : String) (found : ResolvedKey)

/-- An open transaction, and the database's clock when it began. -/
structure Session where
  now : Instant
  point : Point

/-- The two tables, the transactions, and what their calls have returned: the keys, and the answers of `resolve`. -/
structure Control (T : Type) where
  tenants : Table T String TenantRow
  keys : Table T String KeyRow
  sessions : T → Option Session
  issued : List NewKey
  answers : List (String × Option ResolvedKey)

inductive Action
  | begin (now : Instant)
  | createTenant (tenantKey label : String)
  | createKey (key : NewKey)
  | revokeKey (keyId : String)
  | setTenantStatus (tenantKey status : String)
  | resolve (token : String)
  | proceed
  | commit
  | rollback

namespace Control

def empty (T : Type) : Control T := ⟨.empty, .empty, fun _ => none, [], []⟩

variable {T : Type} [DecidableEq T] (hmac : Bytes → Bytes → Hex64) (pepper : Bytes) (t : T) (now : Instant) (c : Control T)

def goto (p : Point) : Control T := { c with sessions := Function.update c.sessions t (some ⟨now, p⟩) }

def rollback : Control T :=
  { c with tenants := c.tenants.rollback t, keys := c.keys.rollback t, sessions := Function.update c.sessions t none }

def commit : Control T :=
  { c with tenants := c.tenants.commit t, keys := c.keys.commit t, sessions := Function.update c.sessions t none }

variable [Fintype T]

def createTenant (tenantKey label : String) : Control T :=
  if !(isTenantText tenantKey.toList && decide (label.length ≤ 200)) then c.rollback t
  else if (c.tenants.view t tenantKey).isSome then c.rollback t
  else if c.tenants.Free t tenantKey then { c with tenants := c.tenants.write t tenantKey ⟨label, .active, now, none⟩ }
  else c

def allowedScopes : List String := ["memory.read", "memory.write"]

/-- `key_for_live_tenant_only`. -/
def guardKey (key : NewKey) : Control T :=
  match c.tenants.view t key.tenantKey with
  | none => c.goto t now (.inserting key false)
  | some tenant =>
    if c.tenants.Shareable t key.tenantKey then
      if tenant.status.ending then c.rollback t
      else { c with tenants := c.tenants.share t key.tenantKey }.goto t now (.inserting key true)
    else c

def createKey (key : NewKey) : Control T :=
  if !isTenantKey key.tenantKey then c
  else if !key.scopes.all (· ∈ allowedScopes) || key.scopes.isEmpty then c
  else c.guardKey t now key

def keyRow (key : NewKey) (guarded : Bool) : KeyRow where
  tenantKey := key.tenantKey
  keyHash := keyHash hmac key.keyId key.secret pepper
  scopes := key.scopes
  status := .active
  label := key.label
  createdAt := now
  expiresAt := key.expiresAt
  lastUsedAt := none
  revokedAt := none
  guarded := guarded

def insertKey (key : NewKey) (guarded : Bool) : Control T :=
  if !(isKeyId key.keyId && decide (key.label.length ≤ 200)) then c.rollback t
  else if (c.keys.view t key.keyId).isSome then c.rollback t
  else if c.keys.Free t key.keyId then
    { c with keys := c.keys.write t key.keyId (keyRow hmac pepper now key guarded) }.goto t now (.referencing key)
  else c

/-- The foreign key, after the row is there. -/
def checkReference (key : NewKey) : Control T :=
  if (c.tenants.view t key.tenantKey).isSome then { c with issued := key :: c.issued }.goto t now .ready else c.rollback t

def revokeKey (keyId : String) : Control T :=
  match c.keys.view t keyId with
  | none => c
  | some row =>
    if row.status = .revoked then c
    else if c.keys.Free t keyId then { c with keys := c.keys.write t keyId (row.revoke now) }
    else c

def setTenantStatus (tenantKey status : String) : Control T :=
  match TenantStatus.ofText status with
  | none => c
  | some status =>
    if (c.tenants.view t tenantKey).any (·.status = .deleted) && status ≠ .deleted then c
    else c.goto t now (.updating tenantKey status)

/-- `tenant_lifecycle_guard`, once the row is locked; the keys that it revokes are those that its statement sees. -/
def guardTenant (tenantKey : String) (status : TenantStatus) (old : TenantRow) : Control T :=
  if old.status = .deleted && status ≠ .deleted then c.rollback t
  else if status.ending && old.status ≠ status then
    { c with tenants := c.tenants.hold t tenantKey }.goto t now
      (.revoking tenantKey status (c.keys.scan t fun row : KeyRow => row.tenantKey = tenantKey && row.status = KeyStatus.active))
  else { c with tenants := c.tenants.hold t tenantKey }.goto t now (.revoking tenantKey status [])

def updateTenant (tenantKey : String) (status : TenantStatus) : Control T :=
  match c.tenants.view t tenantKey with
  | none => c.goto t now .ready
  | some old => if c.tenants.Free t tenantKey then c.guardTenant t now tenantKey status old else c

def withStatus (status : TenantStatus) (old : TenantRow) : TenantRow :=
  { old with status := status, deletedAt := if status = .deleted then old.deletedAt.or (some now) else old.deletedAt }

/-- The keys one by one, each waited for and looked at again; then the tenant's row. -/
def revokeNext (tenantKey : String) (status : TenantStatus) (pending : List String) : Control T :=
  match pending with
  | [] =>
    match c.tenants.view t tenantKey with
    | none => c.goto t now .ready
    | some old =>
      if c.tenants.Free t tenantKey then
        { c with tenants := c.tenants.write t tenantKey (withStatus now status old) }.goto t now .ready
      else c
  | keyId :: pending =>
    match c.keys.view t keyId with
    | none => c.goto t now (.revoking tenantKey status pending)
    | some row =>
      if row.tenantKey = tenantKey && row.status = .active then
        if c.keys.Free t keyId then
          { c with keys := c.keys.write t keyId (row.revoke now) }.goto t now (.revoking tenantKey status pending)
        else c
      else c.goto t now (.revoking tenantKey status pending)

/-- The row of `resolve_key`: the key and its tenant. -/
def resolveKey (keyId : String) : Option (KeyRow × TenantRow) := do
  let key ← c.keys.view t keyId
  let tenant ← c.tenants.view t key.tenantKey
  return (key, tenant)

def verified (token : String) : Option ResolvedKey := do
  let (keyId, secret) ← parseToken token
  let (key, tenant) ← c.resolveKey t keyId
  guard (keyHash hmac keyId secret pepper = key.keyHash)
  guard (key.status = .active && !key.expired now)
  return ⟨keyId, key.tenantKey, key.scopes.toFinset, tenant.status⟩

def resolve (token : String) : Control T :=
  match c.verified hmac pepper t now token with
  | none => { c with answers := (token, none) :: c.answers }
  | some found => c.goto t now (.touching token found)

def answer (token : String) (found : ResolvedKey) : Control T :=
  { c with answers := (token, some found) :: c.answers }.goto t now .ready

/-- `touch_key_last_used`, and the answer. -/
def touch (token : String) (found : ResolvedKey) : Control T :=
  match c.keys.view t found.keyId with
  | none => c.answer t now token found
  | some row =>
    if row.untouched now then
      if c.keys.Free t found.keyId then
        { c with keys := c.keys.write t found.keyId { row with lastUsedAt := some now } }.answer t now token found
      else c
    else c.answer t now token found

def proceed (p : Point) : Control T :=
  match p with
  | .ready => c
  | .inserting key guarded => c.insertKey hmac pepper t now key guarded
  | .referencing key => c.checkReference t now key
  | .updating tenantKey status => c.updateTenant t now tenantKey status
  | .revoking tenantKey status pending => c.revokeNext t now tenantKey status pending
  | .touching token found => c.touch t now token found

/-- The next statement of a transaction that is between two. -/
def start (a : Action) : Control T :=
  match a with
  | .createTenant tenantKey label => c.createTenant t now tenantKey label
  | .createKey key => c.createKey t now key
  | .revokeKey keyId => c.revokeKey t now keyId
  | .setTenantStatus tenantKey status => c.setTenantStatus t now tenantKey status
  | .resolve token => c.resolve hmac pepper t now token
  | .commit => c.commit t
  | _ => c

/-- An action that has to wait for a lock, or that is not the transaction's next one, changes nothing. -/
def step (ta : T × Action) : Control T :=
  match c.sessions ta.1, ta.2 with
  | none, .begin now => c.goto ta.1 now .ready
  | none, _ => c
  | some _, .rollback => c.rollback ta.1
  | some s, .proceed => c.proceed hmac pepper ta.1 s.now s.point
  | some ⟨now, .ready⟩, a => c.start hmac pepper ta.1 now a
  | some _, _ => c

def run (actions : List (T × Action)) : Control T := actions.foldl (fun c ta => c.step hmac pepper ta) c

end Control

end ContinuityLedger.Access
