import ContinuityLedger.Access.Lifecycle

/-! What one step of a transaction on the control schema does, and what holds in every interleaving: a tenant that is being
deleted has no active key, and deleted and revoked are for good. -/

namespace ContinuityLedger.Access

open Foundations Foundations.Sha256 Foundations.Calendar Foundations.RowLocks

/-- What a change of a tenant's row leaves as it is. -/
structure TenantRow.Later (old row : TenantRow) : Prop where
  label : row.label = old.label
  createdAt : row.createdAt = old.createdAt
  deleted : old.status = .deleted → row.status = .deleted

structure KeyRow.Later (old row : KeyRow) : Prop where
  tenantKey : row.tenantKey = old.tenantKey
  keyHash : row.keyHash = old.keyHash
  scopes : row.scopes = old.scopes
  label : row.label = old.label
  createdAt : row.createdAt = old.createdAt
  expiresAt : row.expiresAt = old.expiresAt
  guarded : row.guarded = old.guarded
  revoked : old.status = .revoked → row.status = .revoked

instance : Std.Refl TenantRow.Later := ⟨fun _ => ⟨rfl, rfl, id⟩⟩

instance : IsTrans TenantRow TenantRow.Later :=
  ⟨fun _ _ _ h g => ⟨g.1.trans h.1, g.2.trans h.2, fun hd => g.3 (h.3 hd)⟩⟩

instance : Std.Refl KeyRow.Later := ⟨fun _ => ⟨rfl, rfl, rfl, rfl, rfl, rfl, rfl, id⟩⟩

instance : IsTrans KeyRow KeyRow.Later :=
  ⟨fun _ _ _ h g => ⟨g.1.trans h.1, g.2.trans h.2, g.3.trans h.3, g.4.trans h.4, g.5.trans h.5, g.6.trans h.6, g.7.trans h.7,
    fun hr => g.8 (h.8 hr)⟩⟩

lemma KeyRow.later_revoke (now : Instant) (row : KeyRow) : row.Later (row.revoke now) :=
  ⟨rfl, rfl, rfl, rfl, rfl, rfl, rfl, fun _ => rfl⟩

lemma KeyRow.later_touch (now : Instant) (row : KeyRow) : row.Later { row with lastUsedAt := some now } :=
  ⟨rfl, rfl, rfl, rfl, rfl, rfl, rfl, id⟩

namespace Control

variable {T : Type} [DecidableEq T] [Fintype T]

/-- Everything that one step can do. -/
inductive Effect (hmac : Bytes → Bytes → Hex64) (pepper : Bytes) (t : T) (c : Control T) : Control T → Prop
  | stay : Effect hmac pepper t c c
  | began (now : Instant) (h : c.sessions t = none) : Effect hmac pepper t c (c.goto t now .ready)
  | rolledBack : Effect hmac pepper t c (c.rollback t)
  | committed (now : Instant) (h : c.sessions t = some ⟨now, .ready⟩) : Effect hmac pepper t c (c.commit t)
  | createdTenant (now : Instant) (k label : String) (h : c.sessions t = some ⟨now, .ready⟩) (hv : c.tenants.view t k = none)
      (hf : c.tenants.Free t k) :
      Effect hmac pepper t c { c with tenants := c.tenants.write t k ⟨label, .active, now, none⟩ }
  | unguarded (now : Instant) (key : NewKey) (h : c.sessions t = some ⟨now, .ready⟩)
      (hv : c.tenants.view t key.tenantKey = none) : Effect hmac pepper t c (c.goto t now (.inserting key false))
  | guarded (now : Instant) (key : NewKey) (tenant : TenantRow) (h : c.sessions t = some ⟨now, .ready⟩)
      (hv : c.tenants.view t key.tenantKey = some tenant)
      (hs : c.tenants.Shareable t key.tenantKey) (he : tenant.status.ending = false) :
      Effect hmac pepper t c ({ c with tenants := c.tenants.share t key.tenantKey }.goto t now (.inserting key true))
  | inserted (now : Instant) (key : NewKey) (g : Bool) (h : c.sessions t = some ⟨now, .inserting key g⟩)
      (hv : c.keys.view t key.keyId = none)
      (hf : c.keys.Free t key.keyId) :
      Effect hmac pepper t c
        ({ c with keys := c.keys.write t key.keyId (keyRow hmac pepper now key g) }.goto t now (.referencing key))
  | referenced (now : Instant) (key : NewKey) (h : c.sessions t = some ⟨now, .referencing key⟩)
      (hv : (c.tenants.view t key.tenantKey).isSome) :
      Effect hmac pepper t c ({ c with issued := key :: c.issued }.goto t now .ready)
  | revoked (now : Instant) (k : String) (row : KeyRow) (h : c.sessions t = some ⟨now, .ready⟩)
      (hv : c.keys.view t k = some row) (hf : c.keys.Free t k) :
      Effect hmac pepper t c { c with keys := c.keys.write t k (row.revoke now) }
  | selected (now : Instant) (k : String) (status : TenantStatus) (h : c.sessions t = some ⟨now, .ready⟩) :
      Effect hmac pepper t c (c.goto t now (.updating k status))
  | missing (now : Instant) (k : String) (status : TenantStatus) (p : Point) (h : c.sessions t = some ⟨now, p⟩)
      (hp : p = .updating k status ∨ p = .revoking k status []) : Effect hmac pepper t c (c.goto t now .ready)
  | held (now : Instant) (k : String) (status : TenantStatus) (old : TenantRow) (pending : List String)
      (h : c.sessions t = some ⟨now, .updating k status⟩) (hv : c.tenants.view t k = some old)
      (hf : c.tenants.Free t k) (hd : old.status = .deleted → status = .deleted)
      (hp : status.ending = true → old.status ≠ status →
        pending = c.keys.scan t fun row : KeyRow => row.tenantKey = k && row.status = KeyStatus.active) :
      Effect hmac pepper t c ({ c with tenants := c.tenants.hold t k }.goto t now (.revoking k status pending))
  | updated (now : Instant) (k : String) (status : TenantStatus) (old : TenantRow)
      (h : c.sessions t = some ⟨now, .revoking k status []⟩) (hv : c.tenants.view t k = some old)
      (hf : c.tenants.Free t k) :
      Effect hmac pepper t c ({ c with tenants := c.tenants.write t k (withStatus now status old) }.goto t now .ready)
  | passed (now : Instant) (k : String) (status : TenantStatus) (j : String) (pending : List String)
      (h : c.sessions t = some ⟨now, .revoking k status (j :: pending)⟩)
      (hv : ∀ row, c.keys.view t j = some row → row.status = .active → row.tenantKey ≠ k) :
      Effect hmac pepper t c (c.goto t now (.revoking k status pending))
  | revokedNext (now : Instant) (k : String) (status : TenantStatus) (j : String) (pending : List String) (row : KeyRow)
      (h : c.sessions t = some ⟨now, .revoking k status (j :: pending)⟩)
      (hv : c.keys.view t j = some row) (hf : c.keys.Free t j) :
      Effect hmac pepper t c
        ({ c with keys := c.keys.write t j (row.revoke now) }.goto t now (.revoking k status pending))
  | refused (token : String) : Effect hmac pepper t c { c with answers := (token, none) :: c.answers }
  | found (now : Instant) (token : String) (rk : ResolvedKey) (h : c.sessions t = some ⟨now, .ready⟩)
      (hv : c.verified hmac pepper t now token = some rk) :
      Effect hmac pepper t c (c.goto t now (.touching token rk))
  | answered (now : Instant) (token : String) (rk : ResolvedKey) (h : c.sessions t = some ⟨now, .touching token rk⟩) :
      Effect hmac pepper t c (c.answer t now token rk)
  | touched (now : Instant) (token : String) (rk : ResolvedKey) (row : KeyRow)
      (h : c.sessions t = some ⟨now, .touching token rk⟩) (hv : c.keys.view t rk.keyId = some row)
      (hf : c.keys.Free t rk.keyId) :
      Effect hmac pepper t c
        ({ c with keys := c.keys.write t rk.keyId { row with lastUsedAt := some now } }.answer t now token rk)

variable {hmac : Bytes → Bytes → Hex64} {pepper : Bytes} {t : T} {now : Instant} {c : Control T}

lemma effect_guardKey {key : NewKey} (h : c.sessions t = some ⟨now, .ready⟩) :
    Effect hmac pepper t c (c.guardKey t now key) := by
  unfold guardKey
  cases hv : c.tenants.view t key.tenantKey with
  | none => exact .unguarded now key h hv
  | some tenant =>
    dsimp only
    split_ifs with hs he
    · exact .rolledBack
    · exact .guarded now key tenant h hv hs (eq_false_of_ne_true he)
    · exact .stay

lemma effect_createKey {key : NewKey} (h : c.sessions t = some ⟨now, .ready⟩) :
    Effect hmac pepper t c (c.createKey t now key) := by
  unfold createKey
  split_ifs
  · exact .stay
  · exact .stay
  · exact effect_guardKey h

lemma effect_start (h : c.sessions t = some ⟨now, .ready⟩) (a : Action) :
    Effect hmac pepper t c (c.start hmac pepper t now a) := by
  cases a with
  | begin | proceed | rollback => exact .stay
  | commit => exact .committed now h
  | createKey key => exact effect_createKey h
  | createTenant k label =>
    change Effect hmac pepper t c (c.createTenant t now k label)
    unfold createTenant
    split_ifs with hc hv hf
    · exact .rolledBack
    · exact .rolledBack
    · exact .createdTenant now k label h (Option.not_isSome_iff_eq_none.mp hv) hf
    · exact .stay
  | revokeKey k =>
    change Effect hmac pepper t c (c.revokeKey t now k)
    unfold revokeKey
    cases hv : c.keys.view t k with
    | none => exact .stay
    | some row =>
      dsimp only
      split_ifs with hr hf
      · exact .stay
      · exact .revoked now k row h hv hf
      · exact .stay
  | setTenantStatus k status =>
    change Effect hmac pepper t c (c.setTenantStatus t now k status)
    unfold setTenantStatus
    cases TenantStatus.ofText status with
    | none => exact .stay
    | some status =>
      dsimp only
      split_ifs
      · exact .stay
      · exact .selected now k status h
  | resolve token =>
    change Effect hmac pepper t c (c.resolve hmac pepper t now token)
    unfold resolve
    cases hv : c.verified hmac pepper t now token with
    | none => exact .refused token
    | some rk => exact .found now token rk h hv

lemma effect_updateTenant {k : String} {status : TenantStatus} (h : c.sessions t = some ⟨now, .updating k status⟩) :
    Effect hmac pepper t c (c.updateTenant t now k status) := by
  unfold updateTenant guardTenant
  cases hv : c.tenants.view t k with
  | none => exact .missing now k status _ h (.inl rfl)
  | some old =>
    dsimp only
    split_ifs with hf hd he
    · exact .rolledBack
    · refine .held now k status old _ h hv hf (fun hold => ?_) fun _ _ => rfl
      simpa [hold] using hd
    · refine .held now k status old _ h hv hf (fun hold => ?_) fun hend hne => ?_
      · simpa [hold] using hd
      · exact absurd (by simp [hend, hne]) he
    · exact .stay

lemma effect_revokeNext {k : String} {status : TenantStatus} {pending : List String}
    (h : c.sessions t = some ⟨now, .revoking k status pending⟩) :
    Effect hmac pepper t c (c.revokeNext t now k status pending) := by
  unfold revokeNext
  cases pending with
  | nil =>
    cases hv : c.tenants.view t k with
    | none => exact .missing now k status _ h (.inr rfl)
    | some old =>
      dsimp only
      split_ifs with hf
      · exact .updated now k status old h hv hf
      · exact .stay
  | cons j pending =>
    dsimp only
    cases hv : c.keys.view t j with
    | none => exact .passed now k status j pending h fun row hrow => by rw [hv] at hrow; cases hrow
    | some row =>
      dsimp only
      split_ifs with hrow hf
      · exact .revokedNext now k status j pending row h hv hf
      · exact .stay
      · refine .passed now k status j pending h fun row' hrow' hactive hk => hrow ?_
        obtain rfl := Option.some.inj (hv.symm.trans hrow')
        simp [hactive, hk]

lemma effect_proceed {p : Point} (h : c.sessions t = some ⟨now, p⟩) :
    Effect hmac pepper t c (c.proceed hmac pepper t now p) := by
  cases p with
  | ready => exact .stay
  | updating k status => exact effect_updateTenant h
  | revoking k status pending => exact effect_revokeNext h
  | inserting key g =>
    change Effect hmac pepper t c (c.insertKey hmac pepper t now key g)
    unfold insertKey
    split_ifs with hc hv hf
    · exact .rolledBack
    · exact .rolledBack
    · exact .inserted now key g h (Option.not_isSome_iff_eq_none.mp hv) hf
    · exact .stay
  | referencing key =>
    change Effect hmac pepper t c (c.checkReference t now key)
    unfold checkReference
    split_ifs with hv
    · exact .referenced now key h hv
    · exact .rolledBack
  | touching token rk =>
    change Effect hmac pepper t c (c.touch t now token rk)
    unfold touch
    cases hv : c.keys.view t rk.keyId with
    | none => exact .answered now token rk h
    | some row =>
      dsimp only
      split_ifs with hu hf
      · exact .touched now token rk row h hv hf
      · exact .stay
      · exact .answered now token rk h

lemma step_effect (ta : T × Action) : Effect hmac pepper ta.1 c (c.step hmac pepper ta) := by
  obtain ⟨t, a⟩ := ta
  unfold step
  dsimp only
  cases hs : c.sessions t with
  | none =>
    cases a with
    | begin now => exact .began now hs
    | _ => exact .stay
  | some s =>
    obtain ⟨now, p⟩ := s
    cases a with
    | rollback => exact .rolledBack
    | proceed => exact effect_proceed hs
    | _ =>
      cases p with
      | ready => exact effect_start hs _
      | _ => exact .stay

end Control

/-! ### No active key of a tenant that is being deleted -/

/-- An active key whose insert has seen its tenant. -/
def KeyRow.Standing (row : KeyRow) : Prop := row.status = .active ∧ row.guarded = true

/-- The tenant is there, and it is not being deleted. -/
def Live (view : String → Option TenantRow) (k : String) : Prop :=
  ∃ tenant, view k = some tenant ∧ tenant.status.ending = false

section

variable {T : Type} {ts ts' : Table T String TenantRow} {ks ks' : Table T String KeyRow} {t u : T} {k j : String} {row : KeyRow}
  {tenant : TenantRow} {pending : List String}

/-- Of a tenant's keys the transaction sees only these standing. -/
def Cleared (ks : Table T String KeyRow) (t : T) (k : String) (pending : List String) : Prop :=
  ∀ j row, ks.view t j = some row → row.Standing → row.tenantKey = k → j ∈ pending

/-- A standing key that a transaction has written was committed before, or the transaction has locked the key's tenant and sees
it live; and the keys of a tenant whose end it has written are revoked. -/
structure Consistent (ts : Table T String TenantRow) (ks : Table T String KeyRow) (t : T) : Prop where
  written : ∀ j row, (ks.txn t).written j = some row → row.Standing →
    (∃ old, ks.committed j = some old ∧ old.Standing ∧ old.tenantKey = row.tenantKey) ∨
      ((ts.txn t).Locks row.tenantKey ∧ Live (ts.view t) row.tenantKey)
  ended : ∀ k tenant, (ts.txn t).written k = some tenant → tenant.status.ending = true → Cleared ks t k []

def PointOk (ts : Table T String TenantRow) (ks : Table T String KeyRow) (t : T) : Point → Prop
  | .inserting key true => (ts.txn t).Locks key.tenantKey ∧ Live (ts.view t) key.tenantKey
  | .revoking k status pending =>
    (ts.txn t).holds k = true ∧ (∀ old, ts.view t k = some old → old.status = .deleted → status = .deleted) ∧
      (status.ending = true → Cleared ks t k pending)
  | _ => True

def Committed (ts : Table T String TenantRow) (ks : Table T String KeyRow) : Prop :=
  ∀ j row, ks.committed j = some row → row.Standing → Live ts.committed row.tenantKey

/-- What a transaction sees is as it should be once it is committed. -/
lemma Consistent.view_live (h : Consistent ts ks t) (hc : Committed ts ks) (hv : ks.view t j = some row) (hs : row.Standing) :
    Live (ts.view t) row.tenantKey := by
  have hold : ∀ old : KeyRow, ks.committed j = some old → old.Standing → old.tenantKey = row.tenantKey →
      Live (ts.view t) row.tenantKey := by
    intro old hcj hold hk
    obtain ⟨tenant, htenant, hlive⟩ := hc j old hcj hold
    rw [hk] at htenant
    cases hw : (ts.txn t).written row.tenantKey with
    | none => exact ⟨tenant, (Table.view_of_not_written hw).trans htenant, hlive⟩
    | some tenant' =>
      refine ⟨tenant', Table.view_of_written hw, ?_⟩
      by_contra hend
      exact List.not_mem_nil (h.ended _ _ hw (eq_true_of_ne_false hend) j row hv hs rfl)
  rcases Table.view_cases hv with hw | ⟨-, hcj⟩
  · rcases h.written j row hw hs with ⟨old, hcj, hstands, hk⟩ | ⟨-, hlive⟩
    · exact hold old hcj hstands hk
    · exact hlive
  · exact hold row hcj hs rfl

variable (htx : ts'.txn u = ts.txn u) (hkx : ks'.txn u = ks.txn u)

include htx hkx in
/-- What holds of a transaction depends on itself and on what is committed. -/
lemma Consistent.congr (h : Consistent ts ks u) (htc : ts'.committed = ts.committed) (hkc : ks'.committed = ks.committed) :
    Consistent ts' ks' u := by
  have htv : ts'.view u = ts.view u := funext fun _ => Table.view_congr htx (by rw [htc])
  have hkv : ks'.view u = ks.view u := funext fun _ => Table.view_congr hkx (by rw [hkc])
  refine ⟨fun j row hw hs => ?_, fun k tenant hw hend => ?_⟩
  · rw [hkx] at hw
    rw [htx, htv, hkc]
    exact h.written j row hw hs
  · rw [htx] at hw
    rw [Cleared, hkv]
    exact h.ended k tenant hw hend

include htx hkx in
lemma PointOk.congr {p : Point} (h : PointOk ts ks u p) (htc : ts'.committed = ts.committed)
    (hkc : ks'.committed = ks.committed) : PointOk ts' ks' u p := by
  have htv : ts'.view u = ts.view u := funext fun _ => Table.view_congr htx (by rw [htc])
  have hkv : ks'.view u = ks.view u := funext fun _ => Table.view_congr hkx (by rw [hkc])
  unfold PointOk Cleared at h ⊢
  rw [htx, htv, hkv]
  exact h

lemma consistent_none (ht : ts.txn t = .none) (hk : ks.txn t = .none) : Consistent ts ks t := by
  refine ⟨fun j row hw => ?_, fun k tenant hw => ?_⟩
  · rw [hk] at hw
    cases hw
  · rw [ht] at hw
    cases hw

variable [DecidableEq T]

lemma Consistent.share (h : Consistent ts ks t) (k : String) : Consistent (ts.share t k) ks t := by
  refine ⟨fun j row hw hs => ?_, fun j tenant hw hend => ?_⟩
  · rw [Table.txn_share_self, Table.view_share]
    exact (h.written j row hw hs).imp id fun hl => ⟨hl.1.share, hl.2⟩
  · rw [Table.txn_share_self] at hw
    exact h.ended j tenant hw hend

lemma Consistent.hold (h : Consistent ts ks t) (k : String) : Consistent (ts.hold t k) ks t := by
  refine ⟨fun j row hw hs => ?_, fun j tenant hw hend => ?_⟩
  · rw [Table.txn_hold_self, Table.view_hold]
    exact (h.written j row hw hs).imp id fun hl => ⟨hl.1.hold, hl.2⟩
  · rw [Table.txn_hold_self] at hw
    exact h.ended j tenant hw hend

/-- A tenant's row may be written to its end where none of its keys stands. -/
lemma Consistent.writeTenant (h : Consistent ts ks t) (hnew : tenant.status.ending = true → Cleared ks t k []) :
    Consistent (ts.write t k tenant) ks t := by
  refine ⟨fun j row hw hs => ?_, fun j tenant' hw hend => ?_⟩
  · refine (h.written j row hw hs).imp id fun hl => ⟨?_, ?_⟩
    · rw [Table.txn_write_self]
      exact hl.1.write
    · by_cases hk : row.tenantKey = k
      · rw [hk]
        refine ⟨tenant, Table.view_write_self, ?_⟩
        by_contra hend
        exact List.not_mem_nil (hnew (eq_true_of_ne_false hend) j row (Table.view_of_written hw) hs hk)
      · obtain ⟨tenant', hv, hlive⟩ := hl.2
        exact ⟨tenant', (Table.view_write_other hk).trans hv, hlive⟩
  · rw [Table.txn_write_self] at hw
    by_cases hk : j = k
    · subst hk
      rw [Txn.written_write_self] at hw
      obtain rfl := Option.some.inj hw
      exact hnew hend
    · rw [Txn.written_write_other hk] at hw
      exact h.ended j tenant' hw hend

/-- A key that is written to stand has stood before, or its tenant is locked and live. -/
lemma Consistent.writeKey (h : Consistent ts ks t)
    (hrow : row.Standing → (∃ old, ks.view t k = some old ∧ old.Standing ∧ old.tenantKey = row.tenantKey) ∨
      ((ts.txn t).Locks row.tenantKey ∧ Live (ts.view t) row.tenantKey)) : Consistent ts (ks.write t k row) t := by
  refine ⟨fun j row' hw hs => ?_, fun j tenant hw hend => ?_⟩
  · rw [Table.txn_write_self] at hw
    by_cases hj : j = k
    · subst hj
      rw [Txn.written_write_self] at hw
      obtain rfl := Option.some.inj hw
      rcases hrow hs with ⟨old, hv, hold, hk⟩ | hlive
      · rcases Table.view_cases hv with hw | ⟨-, hc⟩
        · rw [← hk]
          exact h.written j old hw hold
        · exact .inl ⟨old, hc, hold, hk⟩
      · exact .inr hlive
    · rw [Txn.written_write_other hj] at hw
      exact h.written j row' hw hs
  · intro i row' hv hs hk
    by_cases hi : i = k
    · subst hi
      rw [Table.view_write_self] at hv
      obtain rfl := Option.some.inj hv
      rcases hrow hs with ⟨old, hv, hold, hkold⟩ | ⟨-, tenant', hlive, hnot⟩
      · exact h.ended j tenant hw hend i old hv hold (hkold.trans hk)
      · rw [hk, Table.view_of_written hw] at hlive
        obtain rfl := Option.some.inj hlive
        rw [hend] at hnot
        cases hnot
    · rw [Table.view_write_other hi] at hv
      exact h.ended j tenant hw hend i row' hv hs hk

/-- After another's commit a transaction sees a standing key that it has seen before, or one whose tenant the other had locked. -/
lemma standing_of_commit (h : Consistent ts ks t) (hu : u ≠ t)
    (hv : (ks.commit t).view u j = some row) (hs : row.Standing) :
    (∃ old, ks.view u j = some old ∧ old.Standing ∧ old.tenantKey = row.tenantKey) ∨ (ts.txn t).Locks row.tenantKey := by
  rcases Table.view_cases hv with hw | ⟨hw, hc⟩
  · rw [Table.txn_commit_other hu] at hw
    exact .inl ⟨row, Table.view_of_written hw, hs, rfl⟩
  · rw [Table.txn_commit_other hu] at hw
    rcases Table.view_cases hc with hwt | ⟨-, hold⟩
    · rcases h.written j row hwt hs with ⟨old, hold, hstands, hk⟩ | ⟨hlock, -⟩
      · exact .inl ⟨old, (Table.view_of_not_written hw).trans hold, hstands, hk⟩
      · exact .inr hlock
    · exact .inl ⟨row, (Table.view_of_not_written hw).trans hold, hs, rfl⟩

lemma Cleared.commit (hts : Sound TenantRow.Later ts) (hu : u ≠ t) (h : Consistent ts ks t)
    (hheld : (ts.txn u).holds k = true) (hclear : Cleared ks u k pending) :
    Cleared (ks.commit t) u k pending := by
  intro j row hv hs hk
  rcases standing_of_commit h hu hv hs with ⟨old, hold, hstands, hkold⟩ | hlock
  · exact hclear j old hold hstands (hkold.trans hk)
  · rw [hk] at hlock
    exact absurd (hts.apart hheld hlock).symm hu

lemma Live.commit (hts : Sound TenantRow.Later ts) (hu : u ≠ t) (hlock : (ts.txn u).Locks k) (h : Live (ts.view u) k) :
    Live ((ts.commit t).view u) k := by
  obtain ⟨tenant, hv, hlive⟩ := h
  exact ⟨tenant, (Table.view_congr (Table.txn_commit_other hu) (committed_of_locks hts hu hlock)).trans hv, hlive⟩

lemma Consistent.commit (hts : Sound TenantRow.Later ts) (hks : Sound KeyRow.Later ks) (hu : u ≠ t)
    (ht : Consistent ts ks t) (h : Consistent ts ks u) : Consistent (ts.commit t) (ks.commit t) u := by
  refine ⟨fun j row hw hs => ?_, fun k tenant hw hend => ?_⟩
  · rw [Table.txn_commit_other hu] at hw
    rcases h.written j row hw hs with ⟨old, hc, hstands, hk⟩ | ⟨hlock, hlive⟩
    · exact .inl ⟨old, (committed_of_locks hks hu (.inl (hks.held hw))).trans hc, hstands, hk⟩
    · refine .inr ⟨?_, hlive.commit hts hu hlock⟩
      rwa [Table.txn_commit_other hu]
  · rw [Table.txn_commit_other hu] at hw
    exact (h.ended k tenant hw hend).commit hts hu ht (hts.held hw)

lemma PointOk.commit {p : Point} (hts : Sound TenantRow.Later ts) (hu : u ≠ t) (ht : Consistent ts ks t) (h : PointOk ts ks u p) :
    PointOk (ts.commit t) (ks.commit t) u p := by
  cases p with
  | inserting key g =>
    cases g with
    | false => trivial
    | true =>
      refine ⟨?_, h.2.commit hts hu h.1⟩
      rw [Table.txn_commit_other hu]
      exact h.1
  | revoking k status pending =>
    obtain ⟨hheld, hdeleted, hclear⟩ := h
    refine ⟨?_, fun old hv => hdeleted old ?_, fun hend => (hclear hend).commit hts hu ht hheld⟩
    · rwa [Table.txn_commit_other hu]
    · rwa [Table.view_congr (Table.txn_commit_other hu) (committed_of_locks hts hu (.inl hheld))] at hv
  | _ => trivial

end

namespace Control

variable {T : Type} {hmac : Bytes → Bytes → Hex64} {pepper : Bytes} {t : T} {now : Instant} {c c' : Control T}

structure Lawful (c : Control T) : Prop where
  tenants : Sound TenantRow.Later c.tenants
  keys : Sound KeyRow.Later c.keys
  committed : Committed c.tenants c.keys
  consistent : ∀ t, Consistent c.tenants c.keys t
  points : ∀ t s, c.sessions t = some s → PointOk c.tenants c.keys t s.point

/-- The keys that are to be revoked are all that stand, also where the status stays as it is. -/
lemma cleared_of_guard (hl : Lawful c) {k : String} {status : TenantStatus} {old : TenantRow} {pending : List String}
    (hv : c.tenants.view t k = some old) (hend : status.ending = true)
    (hp : old.status ≠ status →
      pending = c.keys.scan t fun row : KeyRow => row.tenantKey = k && row.status = KeyStatus.active) :
    Cleared c.keys t k pending := by
  intro j row hrow hs hk
  by_cases hsame : old.status = status
  · obtain ⟨tenant, htenant, hlive⟩ := (hl.consistent t).view_live hl.committed hrow hs
    rw [hk, hv] at htenant
    obtain rfl := Option.some.inj htenant
    rw [hsame, hend] at hlive
    cases hlive
  · rw [hp hsame]
    exact hl.keys.mem_scan hrow (by simp [hk, hs.1])

lemma lawful_empty : Lawful (empty T) where
  tenants := sound_empty
  keys := sound_empty
  committed _ _ hc := nomatch hc
  consistent _ := consistent_none rfl rfl
  points _ _ hs := nomatch hs

variable [DecidableEq T]

lemma Effect.tenants (h : Effect hmac pepper t c c') (hl : Lawful c) : Move TenantRow.Later t c.tenants c'.tenants := by
  cases h with
  | rolledBack => exact .rollback _
  | committed => exact .commit _
  | createdTenant now k label h hv hf => exact .write _ k _ hf fun old hold => by rw [hv] at hold; cases hold
  | guarded now key tenant h hv hs he => exact .share _ _ hs
  | held now k status old pending h hv hf hd hp => exact .hold _ _ hf
  | updated now k status old h hv hf =>
    refine .write _ k _ hf fun old' hold => ?_
    obtain rfl := Option.some.inj (hv.symm.trans hold)
    exact ⟨rfl, rfl, (hl.points t _ h).2.1 old hv⟩
  | _ => exact .stay _

lemma Effect.keys (h : Effect hmac pepper t c c') : Move KeyRow.Later t c.keys c'.keys := by
  have hrevoke : ∀ {k : String} {row : KeyRow} (now : Instant), c.keys.view t k = some row →
      ∀ old, c.keys.view t k = some old → old.Later (row.revoke now) := by
    intro k row now hv old hold
    obtain rfl := Option.some.inj (hv.symm.trans hold)
    exact row.later_revoke now
  cases h with
  | rolledBack => exact .rollback _
  | committed => exact .commit _
  | inserted now key g h hv hf => exact .write _ _ _ hf fun old hold => by rw [hv] at hold; cases hold
  | revoked now k row h hv hf => exact .write _ _ _ hf (hrevoke now hv)
  | revokedNext now k status j pending row h hv hf => exact .write _ _ _ hf (hrevoke now hv)
  | touched now token rk row h hv hf =>
    refine .write _ _ _ hf fun old hold => ?_
    obtain rfl := Option.some.inj (hv.symm.trans hold)
    exact row.later_touch now
  | _ => exact .stay _

lemma Effect.sessions_other (h : Effect hmac pepper t c c') {u : T} (hu : u ≠ t) : c'.sessions u = c.sessions u := by
  cases h with
  | stay | createdTenant | revoked | refused => rfl
  | _ => exact Function.update_of_ne hu _ _

/-- Only a commit changes what is committed. -/
lemma Effect.committed_or (h : Effect hmac pepper t c c') :
    c' = c.commit t ∨ (c'.tenants.committed = c.tenants.committed ∧ c'.keys.committed = c.keys.committed) := by
  cases h with
  | committed => exact .inl rfl
  | _ => exact .inr ⟨rfl, rfl⟩

lemma Effect.consistent_other (h : Effect hmac pepper t c c') (hl : Lawful c) {u : T} (hu : u ≠ t) :
    Consistent c'.tenants c'.keys u := by
  rcases h.committed_or with rfl | ⟨htc, hkc⟩
  · exact (hl.consistent t).commit hl.tenants hl.keys hu (hl.consistent u)
  · exact (hl.consistent u).congr ((h.tenants hl).txn_other hu) (h.keys.txn_other hu) htc hkc

lemma Effect.points_other (h : Effect hmac pepper t c c') (hl : Lawful c) {u : T} (hu : u ≠ t) {s : Session}
    (hs : c'.sessions u = some s) : PointOk c'.tenants c'.keys u s.point := by
  rw [h.sessions_other hu] at hs
  have hp := hl.points u s hs
  rcases h.committed_or with rfl | ⟨htc, hkc⟩
  · exact hp.commit hl.tenants hu (hl.consistent t)
  · exact hp.congr ((h.tenants hl).txn_other hu) (h.keys.txn_other hu) htc hkc

lemma Effect.committed_live (h : Effect hmac pepper t c c') (hl : Lawful c) : Committed c'.tenants c'.keys := by
  rcases h.committed_or with rfl | ⟨htc, hkc⟩
  · exact fun j row hc hs => (hl.consistent t).view_live hl.committed hc hs
  · rw [Committed, htc, hkc]
    exact hl.committed

lemma not_standing_revoke {row : KeyRow} : ¬(row.revoke now).Standing := fun h => nomatch h.1

lemma Effect.consistent_self (h : Effect hmac pepper t c c') (hl : Lawful c) : Consistent c'.tenants c'.keys t := by
  have ht := hl.consistent t
  cases h with
  | stay | began | unguarded | referenced | selected | missing | passed | refused | found | answered => exact ht
  | rolledBack => exact consistent_none Table.txn_put_self Table.txn_put_self
  | committed => exact consistent_none Table.txn_commit_self Table.txn_commit_self
  | createdTenant now k label h hv hf => exact ht.writeTenant fun hend => nomatch hend
  | guarded now key tenant h hv hs he => exact ht.share _
  | held now k status old pending h hv hf hd hp => exact ht.hold _
  | updated now k status old h hv hf => exact ht.writeTenant (hl.points t _ h).2.2
  | inserted now key g h hv hf =>
    refine ht.writeKey fun hstands => .inr ?_
    have hp := hl.points t _ h
    obtain rfl : g = true := hstands.2
    exact hp
  | revoked now k row h hv hf => exact ht.writeKey fun hstands => absurd hstands not_standing_revoke
  | revokedNext now k status j pending row h hv hf => exact ht.writeKey fun hstands => absurd hstands not_standing_revoke
  | touched now token rk row h hv hf => exact ht.writeKey fun hstands => .inl ⟨row, hv, hstands, rfl⟩

lemma point_goto {s : Session} {p : Point} (h : (c.goto t now p).sessions t = some s) : s = ⟨now, p⟩ :=
  Option.some.inj (h.symm.trans (Function.update_self ..))

lemma Effect.points_self (h : Effect hmac pepper t c c') (hl : Lawful c) {s : Session} (hs : c'.sessions t = some s) :
    PointOk c'.tenants c'.keys t s.point := by
  cases h with
  | stay | refused => exact hl.points t s hs
  | rolledBack | committed => simp [rollback, commit] at hs
  | createdTenant now k label h hv hf =>
    have hready : s = ⟨now, .ready⟩ := Option.some.inj (hs.symm.trans h)
    rw [hready]
    trivial
  | revoked now k row h hv hf =>
    have hready : s = ⟨now, .ready⟩ := Option.some.inj (hs.symm.trans h)
    rw [hready]
    trivial
  | guarded now key tenant h hv hshare he =>
    obtain rfl := point_goto hs
    change ((c.tenants.share t key.tenantKey).txn t).Locks key.tenantKey ∧
      Live ((c.tenants.share t key.tenantKey).view t) key.tenantKey
    rw [Table.txn_share_self, Table.view_share]
    exact ⟨Txn.locks_share_self, tenant, hv, he⟩
  | held now k status old pending h hv hf hd hp =>
    obtain rfl := point_goto hs
    refine ⟨?_, fun old' hold => ?_, fun hend => cleared_of_guard hl hv hend (hp hend)⟩
    · change ((c.tenants.hold t k).txn t).holds k = true
      rw [Table.txn_hold_self]
      exact Txn.holds_hold_self
    · change (c.tenants.hold t k).view t k = some old' at hold
      rw [Table.view_hold, hv] at hold
      obtain rfl := Option.some.inj hold
      exact hd
  | passed now k status j pending h hv =>
    obtain ⟨hheld, hdeleted, hclear⟩ := hl.points t _ h
    obtain rfl := point_goto hs
    refine ⟨hheld, hdeleted, fun hend i row hrow hstands hk => ?_⟩
    refine List.mem_of_ne_of_mem ?_ (hclear hend i row hrow hstands hk)
    rintro rfl
    exact hv row hrow hstands.1 hk
  | revokedNext now k status j pending row h hv hf =>
    obtain ⟨hheld, hdeleted, hclear⟩ := hl.points t _ h
    obtain rfl := point_goto hs
    refine ⟨hheld, hdeleted, fun hend i row' hrow hstands hk => ?_⟩
    change (c.keys.write t j (row.revoke now)).view t i = some row' at hrow
    have hi : i ≠ j := by
      rintro rfl
      rw [Table.view_write_self] at hrow
      obtain rfl := Option.some.inj hrow
      exact not_standing_revoke hstands
    rw [Table.view_write_other hi] at hrow
    exact List.mem_of_ne_of_mem hi (hclear hend i row' hrow hstands hk)
  | _ =>
    obtain rfl := point_goto hs
    trivial

lemma Lawful.effect (hl : Lawful c) (h : Effect hmac pepper t c c') : Lawful c' where
  tenants := (h.tenants hl).sound hl.tenants
  keys := h.keys.sound hl.keys
  committed := h.committed_live hl
  consistent u := by
    by_cases hu : u = t
    · rw [hu]
      exact h.consistent_self hl
    · exact h.consistent_other hl hu
  points u s hs := by
    by_cases hu : u = t
    · subst hu
      exact h.points_self hl hs
    · exact h.points_other hl hu hs

variable [Fintype T]

lemma lawful_run (hl : Lawful c) (actions : List (T × Action)) : Lawful (c.run hmac pepper actions) := by
  induction actions generalizing c with
  | nil => exact hl
  | cons ta actions ih => exact ih (hl.effect (step_effect ta))

variable (hmac : Bytes → Bytes → Hex64) (pepper : Bytes)

theorem ending_has_no_active_key (actions : List (T × Action)) {k : String} {row : KeyRow} {tenant : TenantRow}
    (hrow : ((empty T).run hmac pepper actions).keys.committed k = some row)
    (htenant : ((empty T).run hmac pepper actions).tenants.committed row.tenantKey = some tenant)
    (hend : tenant.status.ending = true) : row.status = .revoked ∨ row.guarded = false := by
  by_contra hnot
  obtain ⟨hactive, hguarded⟩ := not_or.mp hnot
  have hstands : row.Standing := by
    refine ⟨?_, eq_true_of_ne_false hguarded⟩
    cases hs : row.status with
    | active => rfl
    | revoked => exact absurd hs hactive
  obtain ⟨tenant', htenant', hlive⟩ := (lawful_run lawful_empty actions).committed k row hrow hstands
  obtain rfl := Option.some.inj (htenant.symm.trans htenant')
  rw [hend] at hlive
  cases hlive

def acme : String := "t_00000000000000000000000000000000"

def acmeKey : NewKey := ⟨"0000000000000000", "s", acme, ["memory.read"], "", none⟩

/-- A key is on its way when its tenant is set to be deleted, which has to wait for it. -/
def race : List (Bool × Action) :=
  [(false, .begin 0), (false, .createTenant acme "acme"), (false, .commit),
    (false, .begin 1), (false, .createKey acmeKey), (false, .proceed),
    (true, .begin 2), (true, .setTenantStatus acme "deleting"), (true, .proceed),
    (false, .proceed), (false, .commit),
    (true, .proceed), (true, .proceed), (true, .proceed), (true, .commit)]

theorem ending_has_no_active_key_race :
    ∃ row, ((empty Bool).run (fun _ _ => genesis) [] race).keys.committed acmeKey.keyId = some row ∧
      (row.status = .revoked ∨ row.guarded = false) :=
  ⟨_, rfl, ending_has_no_active_key (fun _ _ => genesis) [] race (k := acmeKey.keyId) rfl rfl rfl⟩

/-- A key whose insert began before its tenant was there is not seen by the end of the tenant. -/
def blind : List (Bool × Action) :=
  [(false, .begin 0), (false, .createKey acmeKey),
    (true, .begin 1), (true, .createTenant acme "acme"), (true, .setTenantStatus acme "deleting"), (true, .proceed),
    (true, .proceed), (true, .commit),
    (false, .proceed), (false, .proceed), (false, .commit)]

example : (((empty Bool).run (fun _ _ => genesis) [] blind).keys.committed acmeKey.keyId).map (·.status) = some .active ∧
    (((empty Bool).run (fun _ _ => genesis) [] blind).tenants.committed acme).map (·.status) = some .deleting := by
  decide

/-- A committed row stays, and every later one comes out of it. -/
lemma committed_later (hl : Lawful c) (actions : List (T × Action)) :
    (∀ k old, c.tenants.committed k = some old →
      ∃ row, (c.run hmac pepper actions).tenants.committed k = some row ∧ old.Later row) ∧
    ∀ k old, c.keys.committed k = some old →
      ∃ row, (c.run hmac pepper actions).keys.committed k = some row ∧ old.Later row := by
  induction actions generalizing c with
  | nil => exact ⟨fun k old hc => ⟨old, hc, refl old⟩, fun k old hc => ⟨old, hc, refl old⟩⟩
  | cons ta actions ih =>
    have heffect : Effect hmac pepper ta.1 c (c.step hmac pepper ta) := step_effect ta
    obtain ⟨htenants, hkeys⟩ := ih (hl.effect heffect)
    refine ⟨fun k old hc => ?_, fun k old hc => ?_⟩
    · obtain ⟨mid, hmid, hlater⟩ := (heffect.tenants hl).evolves hl.tenants hc
      obtain ⟨row, hrow, hlater'⟩ := htenants k mid hmid
      exact ⟨row, hrow, IsTrans.trans _ _ _ hlater hlater'⟩
    · obtain ⟨mid, hmid, hlater⟩ := heffect.keys.evolves hl.keys hc
      obtain ⟨row, hrow, hlater'⟩ := hkeys k mid hmid
      exact ⟨row, hrow, IsTrans.trans _ _ _ hlater hlater'⟩

theorem deleted_and_revoked_stay (actions later : List (T × Action)) :
    (∀ k old, ((empty T).run hmac pepper actions).tenants.committed k = some old →
      ∃ row, ((empty T).run hmac pepper (actions ++ later)).tenants.committed k = some row ∧
        (old.status = .deleted → row.status = .deleted)) ∧
    ∀ k old, ((empty T).run hmac pepper actions).keys.committed k = some old →
      ∃ row, ((empty T).run hmac pepper (actions ++ later)).keys.committed k = some row ∧ row.tenantKey = old.tenantKey ∧
        row.keyHash = old.keyHash ∧ row.scopes = old.scopes ∧ row.expiresAt = old.expiresAt ∧
          (old.status = .revoked → row.status = .revoked) := by
  have hrun : (empty T).run hmac pepper (actions ++ later) = ((empty T).run hmac pepper actions).run hmac pepper later :=
    List.foldl_append
  obtain ⟨htenants, hkeys⟩ := committed_later hmac pepper (lawful_run lawful_empty actions) later
  rw [hrun]
  refine ⟨fun k old hc => ?_, fun k old hc => ?_⟩
  · obtain ⟨row, hrow, hlater⟩ := htenants k old hc
    exact ⟨row, hrow, hlater.deleted⟩
  · obtain ⟨row, hrow, hlater⟩ := hkeys k old hc
    exact ⟨row, hrow, hlater.tenantKey, hlater.keyHash, hlater.scopes, hlater.expiresAt, hlater.revoked⟩

end Control

end ContinuityLedger.Access
