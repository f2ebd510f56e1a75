import ContinuityLedger.Access.LifecycleLaws

/-! Which keys `resolve` answers with, in every interleaving: what it finds was issued for that token, and a key that is revoked or
expired is not found any more. -/

namespace ContinuityLedger.Access

open Foundations Foundations.Sha256 Foundations.Calendar Foundations.RowLocks

/-- The row is the one that was written for the key. -/
structure NewKey.Describes (hmac : Bytes → Bytes → Hex64) (pepper : Bytes) (key : NewKey) (k : String) (row : KeyRow) :
    Prop where
  keyId : key.keyId = k
  tenantKey : row.tenantKey = key.tenantKey
  scopes : row.scopes = key.scopes
  keyHash : row.keyHash = Access.keyHash hmac key.keyId key.secret pepper

/-- The answer is the key's, to a token with its id and a secret of the same hash. -/
structure NewKey.Answers (hmac : Bytes → Bytes → Hex64) (pepper : Bytes) (key : NewKey) (token : String) (found : ResolvedKey) :
    Prop where
  keyId : found.keyId = key.keyId
  tenantKey : found.tenantKey = key.tenantKey
  scopes : found.scopes = key.scopes.toFinset
  secret : ∃ secret, parseToken token = some (key.keyId, secret) ∧
    keyHash hmac key.keyId secret pepper = keyHash hmac key.keyId key.secret pepper

namespace Control

variable {T : Type} {hmac : Bytes → Bytes → Hex64} {pepper : Bytes} {t u : T} {now : Instant} {c c' : Control T}
  {token k : String} {found : ResolvedKey} {row : KeyRow} {tenant : TenantRow}

lemma verified_eq_some (h : c.verified hmac pepper t now token = some found) :
    ∃ secret row, parseToken token = some (found.keyId, secret) ∧ c.keys.view t found.keyId = some row ∧
      keyHash hmac found.keyId secret pepper = row.keyHash ∧ row.status = .active ∧ row.expired now = false ∧
      found.tenantKey = row.tenantKey ∧ found.scopes = row.scopes.toFinset := by
  simp only [verified, resolveKey, guard, Option.bind_eq_bind, Option.bind_eq_some_iff, Option.pure_def, Option.some.injEq,
    Option.failure_eq_none, Option.ite_none_right_eq_some, Prod.exists, Prod.mk.injEq, exists_and_left] at h
  obtain ⟨keyId, secret, hparse, row, tenant, ⟨row', hrow, tenant', htenant, rfl, rfl⟩, ⟨hhash, -⟩, ⟨hok, -⟩, -, -, rfl⟩ :=
    h
  simp only [Bool.and_eq_true, decide_eq_true_eq, Bool.not_eq_true'] at hok
  exact ⟨secret, row', hparse, hrow, hhash, hok.1, hok.2, rfl, rfl⟩

/-- The answers that were given, or that wait for nothing but the note that the key was used. -/
def Found (c : Control T) (token : String) (found : ResolvedKey) : Prop :=
  (token, some found) ∈ c.answers ∨ ∃ t now, c.sessions t = some ⟨now, .touching token found⟩

/-- Every row is that of a key that was issued, or that is about to be; and so is every answer. -/
structure Known (hmac : Bytes → Bytes → Hex64) (pepper : Bytes) (c : Control T) : Prop where
  committed : ∀ k row, c.keys.committed k = some row → ∃ key ∈ c.issued, key.Describes hmac pepper k row
  written : ∀ t k row, (c.keys.txn t).written k = some row →
    (∃ key ∈ c.issued, key.Describes hmac pepper k row) ∨
      ∃ now key, c.sessions t = some ⟨now, .referencing key⟩ ∧ key.Describes hmac pepper k row
  found : ∀ token found, Found c token found → ∃ key ∈ c.issued, key.Answers hmac pepper token found

lemma known_empty : Known hmac pepper (empty T) where
  committed _ _ h := nomatch h
  written _ _ _ h := nomatch h
  found _ _ h := by
    rcases h with h | ⟨t, now, h⟩
    · cases h
    · cases h

/-- Where a transaction is not about to issue a key, the rows that it sees are those of issued keys. -/
lemma Known.view (hk : Known hmac pepper c) (hs : ∀ now key, c.sessions t ≠ some ⟨now, .referencing key⟩)
    (hv : c.keys.view t k = some row) : ∃ key ∈ c.issued, key.Describes hmac pepper k row := by
  rcases Table.view_cases hv with hw | ⟨-, hc⟩
  · rcases hk.written t k row hw with hissued | ⟨now, key, hsession, -⟩
    · exact hissued
    · exact absurd hsession (hs now key)
  · exact hk.committed k row hc

lemma describes_answers {key : NewKey} {secret : String} (h : key.Describes hmac pepper found.keyId row)
    (hparse : parseToken token = some (found.keyId, secret)) (hhash : keyHash hmac found.keyId secret pepper = row.keyHash)
    (htenant : found.tenantKey = row.tenantKey) (hscopes : found.scopes = row.scopes.toFinset) :
    key.Answers hmac pepper token found := by
  refine ⟨h.keyId.symm, htenant.trans h.tenantKey, by rw [hscopes, h.scopes], secret, ?_, ?_⟩
  · rw [h.keyId]
    exact hparse
  · rw [h.keyId, hhash, h.keyHash, h.keyId]

/-- For whoever looks from now on the key is revoked, or it has expired by the clock. -/
def Spent (c : Control T) (later : List (T × Action)) (row : KeyRow) : Prop :=
  row.status = .revoked ∨ ∃ e, row.expiresAt = some e ∧ (∀ t s, c.sessions t = some s → e ≤ s.now) ∧
    ∀ t now, (t, Action.begin now) ∈ later → e ≤ now

lemma Spent.not_verified {later : List (T × Action)} {old : KeyRow} (hl : Lawful c) (hc : c.keys.committed found.keyId = some old)
    (hs : Spent c later old) {p : Point} (hsession : c.sessions t = some ⟨now, p⟩) :
    c.verified hmac pepper t now token ≠ some found := by
  intro hv
  obtain ⟨secret, row, -, hrow, -, hactive, hexpired, -⟩ := verified_eq_some hv
  have hlater := hl.keys.view_evolves hc hrow
  rcases hs with hrevoked | ⟨e, he, hclock, -⟩
  · rw [hlater.revoked hrevoked] at hactive
    cases hactive
  · rw [KeyRow.expired, hlater.expiresAt, he] at hexpired
    exact of_decide_eq_false hexpired (hclock t _ hsession)

/-- What a transaction has written is of issued keys, but for a key between its insert and the check of its reference. -/
def OwnKnown (hmac : Bytes → Bytes → Hex64) (pepper : Bytes) (c : Control T) (t : T) : Prop :=
  ∀ k row, (c.keys.txn t).written k = some row →
    (∃ key ∈ c.issued, key.Describes hmac pepper k row) ∨
      ∃ now key, c.sessions t = some ⟨now, .referencing key⟩ ∧ key.Describes hmac pepper k row

lemma OwnKnown.issued (ho : OwnKnown hmac pepper c t) (hs : ∀ now key, c.sessions t ≠ some ⟨now, .referencing key⟩)
    (hw : (c.keys.txn t).written k = some row) : ∃ key ∈ c.issued, key.Describes hmac pepper k row := by
  rcases ho k row hw with hissued | ⟨now, key, hsession, -⟩
  · exact hissued
  · exact absurd hsession (hs now key)

variable [DecidableEq T]

lemma Effect.issued (h : Effect hmac pepper t c c') : c.issued ⊆ c'.issued := by
  cases h with
  | referenced => exact List.subset_cons_self ..
  | _ => exact List.Subset.refl _

/-- A transaction that goes elsewhere has found nothing by that. -/
lemma Found.of_update {s : Option Session} (h : Found { c with sessions := Function.update c.sessions t s } token found)
    (hs : ∀ now, s ≠ some ⟨now, .touching token found⟩) : Found c token found := by
  rcases h with h | ⟨u, now, h⟩
  · exact .inl h
  · by_cases hu : u = t
    · subst hu
      exact absurd ((Function.update_self ..).symm.trans h) (hs now)
    · exact .inr ⟨u, now, (Function.update_of_ne hu _ _).symm.trans h⟩

lemma Found.of_answer {token' : String} {found' : ResolvedKey} (hs : c.sessions t = some ⟨now, .touching token' found'⟩)
    (h : Found (c.answer t now token' found') token found) : Found c token found := by
  have hfound : Found { c with answers := (token', some found') :: c.answers } token found :=
    Found.of_update h fun now' hp => nomatch hp
  rcases hfound with h | h
  · rcases List.mem_cons.mp h with h | h
    · cases h
      exact .inr ⟨t, now, hs⟩
    · exact .inl h
  · exact .inr h

/-- An answer is new where a key was verified. -/
lemma Effect.newly_found (h : Effect hmac pepper t c c') (hf : Found c' token found) :
    Found c token found ∨ ∃ now, c.sessions t = some ⟨now, .ready⟩ ∧ c.verified hmac pepper t now token = some found := by
  cases h with
  | stay | createdTenant | revoked => exact .inl hf
  | refused token' =>
    refine .inl (hf.imp (fun h => ?_) id)
    rcases List.mem_cons.mp h with h | h
    · cases h
    · exact h
  | found now token' found' h hv =>
    by_cases hsame : token = token' ∧ found = found'
    · obtain ⟨rfl, rfl⟩ := hsame
      exact .inr ⟨now, h, hv⟩
    · refine .inl (Found.of_update hf fun now' hp => hsame ?_)
      cases hp
      exact ⟨rfl, rfl⟩
  | answered now token' found' h => exact .inl (Found.of_answer h hf)
  | touched now token' found' row h hv hfree =>
    exact .inl (Found.of_answer (c := { c with keys := _ }) h hf)
  | _ => exact .inl (Found.of_update hf fun now' hp => nomatch hp)

lemma Known.effect_found (hk : Known hmac pepper c) (h : Effect hmac pepper t c c') (hf : Found c' token found) :
    ∃ key ∈ c'.issued, key.Answers hmac pepper token found := by
  rcases h.newly_found hf with hold | ⟨now, hready, hv⟩
  · obtain ⟨key, hmem, ha⟩ := hk.found token found hold
    exact ⟨key, h.issued hmem, ha⟩
  · obtain ⟨secret, row, hparse, hrow, hhash, -, -, htenant, hscopes⟩ := verified_eq_some hv
    obtain ⟨key, hmem, hd⟩ := hk.view (fun now key hs => nomatch hready.symm.trans hs) hrow
    exact ⟨key, h.issued hmem, describes_answers hd hparse hhash htenant hscopes⟩

lemma Known.effect_committed (hk : Known hmac pepper c) (h : Effect hmac pepper t c c') (hc : c'.keys.committed k = some row) :
    ∃ key ∈ c'.issued, key.Describes hmac pepper k row := by
  cases h with
  | committed now hready => exact hk.view (fun now key hs => nomatch hready.symm.trans hs) hc
  | referenced now key =>
    obtain ⟨key', hmem, hd⟩ := hk.committed k row hc
    exact ⟨key', List.mem_cons_of_mem _ hmem, hd⟩
  | _ => exact hk.committed k row hc

/-- A row that is written out of one that is seen is of the same key. -/
lemma Known.write_later (hk : Known hmac pepper c) (hs : ∀ now key, c.sessions t ≠ some ⟨now, .referencing key⟩)
    {j : String} {old new : KeyRow} (hv : c.keys.view t j = some old) (hlater : old.Later new)
    (hw : ((c.keys.write t j new).txn t).written k = some row) : ∃ key ∈ c.issued, key.Describes hmac pepper k row := by
  rw [Table.txn_write_self] at hw
  by_cases hkj : k = j
  · subst hkj
    rw [Txn.written_write_self] at hw
    obtain rfl := Option.some.inj hw
    obtain ⟨key, hmem, hd⟩ := hk.view hs hv
    exact ⟨key, hmem, hd.keyId, hlater.tenantKey.trans hd.tenantKey, hlater.scopes.trans hd.scopes,
      hlater.keyHash.trans hd.keyHash⟩
  · rw [Txn.written_write_other hkj] at hw
    exact hk.view hs (Table.view_of_written hw)

lemma Known.effect_own (hk : Known hmac pepper c) (h : Effect hmac pepper t c c') : OwnKnown hmac pepper c' t := by
  have ho : OwnKnown hmac pepper c t := hk.written t
  intro k row hw
  cases h with
  | stay | createdTenant | refused => exact ho k row hw
  | rolledBack =>
    have hnone : ((c.keys.rollback t).txn t).written k = none := congrArg (Txn.written · k) Table.txn_put_self
    cases hnone.symm.trans hw
  | committed =>
    have hnone : ((c.keys.commit t).txn t).written k = none := congrArg (Txn.written · k) Table.txn_commit_self
    cases hnone.symm.trans hw
  | inserted now key g hs hv hf =>
    change ((c.keys.write t key.keyId _).txn t).written k = some row at hw
    rw [Table.txn_write_self] at hw
    by_cases hkey : k = key.keyId
    · subst hkey
      rw [Txn.written_write_self] at hw
      obtain rfl := Option.some.inj hw
      exact .inr ⟨now, key, Function.update_self .., rfl, rfl, rfl, rfl⟩
    · rw [Txn.written_write_other hkey] at hw
      exact .inl (ho.issued (fun now key h => nomatch hs.symm.trans h) hw)
  | referenced now key hs hv =>
    rcases ho k row hw with ⟨key', hmem, hd⟩ | ⟨now', key', hs', hd⟩
    · exact .inl ⟨key', List.mem_cons_of_mem _ hmem, hd⟩
    · obtain ⟨-, rfl⟩ : now = now' ∧ key = key' := by
        have hsame := hs.symm.trans hs'
        cases hsame
        exact ⟨rfl, rfl⟩
      exact .inl ⟨key, List.mem_cons_self, hd⟩
  | revoked now j old hs hv hf =>
    exact .inl (hk.write_later (fun now key h => nomatch hs.symm.trans h) hv (old.later_revoke now) hw)
  | revokedNext now tk status j pending old hs hv hf =>
    exact .inl (hk.write_later (fun now key h => nomatch hs.symm.trans h) hv (old.later_revoke now) hw)
  | touched now token rk old hs hv hf =>
    exact .inl (hk.write_later (fun now key h => nomatch hs.symm.trans h) hv (old.later_touch now) hw)
  | missing now tk status p hs hp =>
    refine .inl (ho.issued (fun now key h => ?_) hw)
    obtain rfl | rfl := hp
    · cases hs.symm.trans h
    · cases hs.symm.trans h
  | began now hs | unguarded now key hs hv | guarded now key tenant hs | selected now tk status hs
  | held now tk status old pending hs | updated now tk status old hs | passed now tk status j pending hs
  | found now token rk hs | answered now token rk hs =>
    exact .inl (ho.issued (fun now key h => nomatch hs.symm.trans h) hw)

lemma Known.effect (hk : Known hmac pepper c) (h : Effect hmac pepper t c c') : Known hmac pepper c' where
  committed k row hc := hk.effect_committed h hc
  written u k row hw := by
    by_cases hu : u = t
    · subst hu
      exact hk.effect_own h k row hw
    · rw [h.keys.txn_other hu] at hw
      rw [h.sessions_other hu]
      exact (hk.written u k row hw).imp (fun ⟨key, hmem, hd⟩ => ⟨key, h.issued hmem, hd⟩) id
  found token found hf := hk.effect_found h hf

/-- A transaction keeps its clock. -/
lemma Effect.clock (h : Effect hmac pepper t c c') {s s' : Session} (hs : c.sessions t = some s) (hs' : c'.sessions t = some s') :
    s'.now = s.now := by
  cases h with
  | stay | createdTenant | revoked | refused => rw [Option.some.inj (hs.symm.trans hs')]
  | rolledBack | committed => cases (Function.update_self ..).symm.trans hs'
  | began now h => cases h.symm.trans hs
  | unguarded now key h | guarded now key tenant h | inserted now key g h | referenced now key h | selected now tk status h
  | missing now tk status p h | held now tk status old pending h | updated now tk status old h
  | passed now tk status j pending h | revokedNext now tk status j pending row h | found now token rk h
  | answered now token rk h | touched now token rk row h =>
    obtain rfl := point_goto hs'
    rw [← Option.some.inj (h.symm.trans hs)]

variable [Fintype T]

lemma known_run (hk : Known hmac pepper c) (actions : List (T × Action)) :
    Known hmac pepper (c.run hmac pepper actions) := by
  induction actions generalizing c with
  | nil => exact hk
  | cons ta actions ih => exact ih (hk.effect (step_effect ta))

/-- The clock of a transaction is that of its beginning. -/
lemma step_clock {ta : T × Action} {s : Session} (h : (c.step hmac pepper ta).sessions t = some s) :
    (∃ s', c.sessions t = some s' ∧ s.now = s'.now) ∨ ta = (t, .begin s.now) := by
  by_cases ht : t = ta.1
  · subst ht
    cases hs : c.sessions ta.1 with
    | some s' => exact .inl ⟨s', rfl, (step_effect ta).clock hs h⟩
    | none =>
      obtain ⟨t, a⟩ := ta
      unfold step at h
      rw [hs] at h
      cases a with
      | begin now =>
        obtain rfl := point_goto h
        exact .inr rfl
      | _ => cases hs.symm.trans h
  · rw [(step_effect ta).sessions_other ht] at h
    exact .inl ⟨s, h, rfl⟩

lemma Spent.step {ta : T × Action} {later : List (T × Action)} {old : KeyRow} (hs : Spent c (ta :: later) old)
    (hlater : old.Later row) : Spent (c.step hmac pepper ta) later row := by
  refine hs.imp hlater.revoked fun ⟨e, he, hclock, hbegin⟩ => ⟨e, hlater.expiresAt.trans he, fun t s hsession => ?_, ?_⟩
  · rcases step_clock hsession with ⟨s', hs', hnow⟩ | rfl
    · rw [hnow]
      exact hclock t s' hs'
    · exact hbegin t s.now List.mem_cons_self
  · exact fun t now hmem => hbegin t now (List.mem_cons_of_mem _ hmem)

lemma spent_run {later : List (T × Action)} {old : KeyRow} (hl : Lawful c) (hc : c.keys.committed found.keyId = some old)
    (hs : Spent c later old) (hf : Found (c.run hmac pepper later) token found) : Found c token found := by
  induction later generalizing c old with
  | nil => exact hf
  | cons ta later ih =>
    have heffect : Effect hmac pepper ta.1 c (c.step hmac pepper ta) := step_effect ta
    obtain ⟨row, hrow, hlater⟩ := heffect.keys.evolves hl.keys hc
    rcases heffect.newly_found (ih (hl.effect heffect) hrow (hs.step hlater) hf) with hold | ⟨now, hready, hv⟩
    · exact hold
    · exact absurd hv (hs.not_verified hl hc hready)

variable (hmac : Bytes → Bytes → Hex64) (pepper : Bytes)

def visitKey : NewKey :=
  ⟨"0123456789abcdef", "AAAAAAAAAAAAAAAAAAAAAAAAAAAAAAAAAAAAAAAAAAA", acme, ["memory.read"], "", none⟩

/-- A key is issued and found, and revoked while another lookup is about to note its use. -/
def visit : List (Bool × Action) :=
  [(false, .begin 0), (false, .createTenant acme "acme"), (false, .createKey visitKey), (false, .proceed), (false, .proceed),
    (false, .commit), (true, .begin 1), (true, .resolve visitKey.token), (true, .proceed), (true, .commit),
    (true, .begin 2), (true, .resolve visitKey.token), (false, .begin 3), (false, .revokeKey visitKey.keyId), (false, .commit)]

def visitor : ResolvedKey := ⟨visitKey.keyId, acme, {"memory.read"}, .active⟩

end Control

end ContinuityLedger.Access
