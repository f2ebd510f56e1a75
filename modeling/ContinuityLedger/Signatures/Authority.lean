import ContinuityLedger.Signatures.Levels
import ContinuityLedger.Signatures.TrustSteps

/-! Where authority comes from: everything the trust state holds was introduced by a statement that stood in its
place, signed by a root of that moment, and a longer log takes nothing of it back. -/

namespace ContinuityLedger.Signatures

open Foundations Foundations.Sha256

def byStmtSeq (statements : List Statement) : List Statement :=
  statements.mergeSort (fun a b => a.stmtSeq ≤ b.stmtSeq)

/-- More statements after those of a log, in the order of their numbers. -/
def Extends (statements longer : List Statement) : Prop :=
  ∃ more, byStmtSeq longer = byStmtSeq statements ++ more

section Log

variable (verify : Verifier) (tenant : String) (pinned : Dict String PublicKey)

def loopAfter (before : List Statement) : TrustLoop :=
  before.foldl (trustStep verify tenant) ⟨⟨pinned, [], [], [], [], 0, genesis.text⟩, 1, genesis.text⟩

/-- The statement comes next after `before`, names its last hash, recomputes to its own hash, is signed by a key
that is a root there, and applies. -/
structure Accepts (before : List Statement) (s : Statement) : Prop where
  position : s.stmtSeq = (before.getLast?.map Statement.stmtSeq).getD 0 + 1
  linked : s.prevHash = (before.getLast?.map Statement.statementHash).getD genesis.text
  signed : ∃ message, trustMessage s.kind tenant s.keyId s.arg s.subjectHash s.stmtSeq s.prevHash = .ok message ∧
    (statementHash message s.signedBy s.signature).text = s.statementHash ∧
    ∃ signer, verify s.signature (utf8 message) = .ok signer ∧ signer.keyId = s.signedBy
  root : (loopAfter verify tenant pinned before).st.roots.has s.signedBy = true
  applied : ∃ st, applyStatement (loopAfter verify tenant pinned before).st s = .ok st

def AcceptedIn (log : List Statement) (s : Statement) : Prop :=
  ∃ before later, log = before ++ s :: later ∧ Accepts verify tenant pinned before s

/-- Accepted in its place, and its root was pinned or was added by a statement accepted before it. -/
def Introduced (log : List Statement) (s : Statement) : Prop :=
  ∃ before later, log = before ++ s :: later ∧ Accepts verify tenant pinned before s ∧
    (pinned.has s.signedBy = true ∨
      ∃ r, AcceptedIn verify tenant pinned before r ∧ r.kind = "root_add" ∧ r.keyId = s.signedBy)

end Log

/-- Each part of a trust state goes back to a statement that fulfils `P`, or to the pinned roots. -/
structure Origins (pinned : Dict String PublicKey) (P : Statement → Prop) (st : TrustState) : Prop where
  roots : ∀ id key, st.roots.get id = some key → pinned.get id = some key ∨
    ∃ s, P s ∧ s.kind = "root_add" ∧ s.keyId = id ∧ requireKey s = .ok key
  keys : ∀ id auth, st.keys.get id = some auth →
    ∃ s, P s ∧ s.kind = "key" ∧ s.keyId = id ∧ requireKey s = .ok auth.key ∧ s.arg = some auth.fromSeq ∧
      s.stmtSeq = auth.stmtSeq
  cutoffs : ∀ id auth c, st.keys.get id = some auth → auth.cutoff = some c →
    ∃ s, P s ∧ s.kind = "revoke" ∧ s.keyId = id ∧ s.arg = some c
  cosigns : ∀ c ∈ st.cosigns, ∃ s, P s ∧ s.kind = "cosign" ∧ s.signedBy = c.rootId ∧ s.keyId = c.rootId ∧
    s.arg = some c.checkpointSeq ∧ s.subjectHash = some c.checkpointHash ∧ s.stmtSeq = c.stmtSeq
  voids : ∀ n named, st.voids.get n = some named →
    ∃ s, P s ∧ s.kind = "void" ∧ s.signedBy = s.keyId ∧ s.arg = some n ∧ s.subjectHash = some named

/-- What a state that comes later keeps. -/
structure Retains (st later : TrustState) : Prop where
  roots : ∀ id key, st.roots.get id = some key → later.roots.get id = some key
  keys : ∀ id auth, st.keys.get id = some auth → ∃ auth', later.keys.get id = some auth' ∧
    auth'.fromSeq = auth.fromSeq ∧ ∀ c, auth.cutoff = some c → ∃ c', auth'.cutoff = some c' ∧ c' ≤ c

variable {verify : Verifier} {tenant : String} {pinned : Dict String PublicKey} {P Q : Statement → Prop}

lemma Origins.mono {st : TrustState} (h : Origins pinned P st) (hpq : ∀ s, P s → Q s) : Origins pinned Q st := by
  refine ⟨fun id key hk => ?_, fun id auth hk => ?_, fun id auth c hk hc => ?_, fun c hc => ?_, fun n named hn => ?_⟩
  · rcases h.roots id key hk with hp | ⟨s, hs, hrest⟩
    · exact .inl hp
    · exact .inr ⟨s, hpq s hs, hrest⟩
  · obtain ⟨s, hs, hrest⟩ := h.keys id auth hk
    exact ⟨s, hpq s hs, hrest⟩
  · obtain ⟨s, hs, hrest⟩ := h.cutoffs id auth c hk hc
    exact ⟨s, hpq s hs, hrest⟩
  · obtain ⟨s, hs, hrest⟩ := h.cosigns c hc
    exact ⟨s, hpq s hs, hrest⟩
  · obtain ⟨s, hs, hrest⟩ := h.voids n named hn
    exact ⟨s, hpq s hs, hrest⟩

lemma Origins.same {st st' : TrustState} (h : Origins pinned P st) (hs : SameAuthority st st') :
    Origins pinned P st' := by
  refine ⟨?_, ?_, ?_, ?_, ?_⟩
  · rw [hs.roots]
    exact h.roots
  · rw [hs.keys]
    exact h.keys
  · rw [hs.keys]
    exact h.cutoffs
  · rw [hs.cosigns]
    exact h.cosigns
  · rw [hs.voids]
    exact h.voids

/-- An applied statement is the origin of what it adds. -/
lemma Origins.effect {st st' : TrustState} {s : Statement} (h : Origins pinned P st) (hp : P s)
    (he : Effect st s st') : Origins pinned P st' := by
  cases he with
  | @rootAdd key hkind hkey _ =>
    refine ⟨fun id k hk => ?_, h.keys, h.cutoffs, h.cosigns, h.voids⟩
    rw [Dict.get_set] at hk
    split_ifs at hk with hid
    · obtain rfl := Option.some.inj hk
      exact .inr ⟨s, hp, hkind, hid, hkey⟩
    · exact h.roots id k hk
  | @key key n hkind hkey _ harg =>
    refine ⟨h.roots, fun id auth hk => ?_, fun id auth c hk hc => ?_, h.cosigns, h.voids⟩
    · rw [Dict.get_set] at hk
      split_ifs at hk with hid
      · obtain rfl := Option.some.inj hk
        exact ⟨s, hp, hkind, hid, hkey, harg, rfl⟩
      · exact h.keys id auth hk
    · rw [Dict.get_set] at hk
      split_ifs at hk with hid
      · obtain rfl := Option.some.inj hk
        cases hc
      · exact h.cutoffs id auth c hk hc
  | @revoke auth n hkind hauth harg =>
    refine ⟨h.roots, fun id a hk => ?_, fun id a c hk hc => ?_, h.cosigns, h.voids⟩
    · rw [Dict.get_set] at hk
      split_ifs at hk with hid
      · obtain rfl := Option.some.inj hk
        exact h.keys id auth (hid ▸ hauth)
      · exact h.keys id a hk
    · rw [Dict.get_set] at hk
      split_ifs at hk with hid
      · obtain rfl := Option.some.inj hk
        cases hcut : auth.cutoff with
        | none =>
          simp only [hcut, Option.elim_none, Option.some.injEq] at hc
          exact ⟨s, hp, hkind, hid, hc ▸ harg⟩
        | some old =>
          simp only [hcut, Option.elim_some, Option.some.injEq] at hc
          rcases min_choice old n with hm | hm
          · exact h.cutoffs id auth c (hid ▸ hauth) (by rw [hcut, ← hc, hm])
          · exact ⟨s, hp, hkind, hid, by rw [harg, ← hc, hm]⟩
      · exact h.cutoffs id a c hk hc
  | void hkind hown harg hnamed =>
    refine ⟨h.roots, h.keys, h.cutoffs, h.cosigns, fun m t hm => ?_⟩
    rw [Dict.get_set] at hm
    split_ifs at hm with hid
    · obtain rfl := Option.some.inj hm
      exact ⟨s, hp, hkind, hown, hid ▸ harg, hnamed⟩
    · exact h.voids m t hm
  | cosign hkind hown harg hnamed =>
    refine ⟨h.roots, h.keys, h.cutoffs, fun c hc => ?_, h.voids⟩
    rcases List.mem_append.mp hc with hc | hc
    · exact h.cosigns c hc
    · obtain rfl := List.mem_singleton.mp hc
      exact ⟨s, hp, hkind, hown, rfl, harg, hnamed, rfl⟩

@[simp] lemma loopAfter_snoc (before : List Statement) (s : Statement) :
    loopAfter verify tenant pinned (before ++ [s]) = trustStep verify tenant (loopAfter verify tenant pinned before) s := by
  simp [loopAfter]

lemma loopAfter_expected (before : List Statement) : (loopAfter verify tenant pinned before).expected =
    (before.getLast?.map Statement.stmtSeq).getD 0 + 1 := by
  rcases List.eq_nil_or_concat before with rfl | ⟨pre, s, rfl⟩
  · rfl
  · simp

lemma loopAfter_last (before : List Statement) : (loopAfter verify tenant pinned before).last =
    (before.getLast?.map Statement.statementHash).getD genesis.text := by
  rcases List.eq_nil_or_concat before with rfl | ⟨pre, s, rfl⟩
  · rfl
  · simp

lemma accepts_of_vetted {before : List Statement} {s : Statement} {message : String} {st : TrustState}
    (h : Vetted verify tenant (loopAfter verify tenant pinned before) s message)
    (ha : applyStatement (loopAfter verify tenant pinned before).st s = .ok st) :
    Accepts verify tenant pinned before s where
  position := h.position.trans (loopAfter_expected before)
  linked := h.linked.trans (loopAfter_last before)
  signed := ⟨message, h.text, h.hash, h.signature⟩
  root := h.root
  applied := ⟨st, ha⟩

lemma AcceptedIn.append {log : List Statement} {s : Statement} (h : AcceptedIn verify tenant pinned log s)
    (more : List Statement) : AcceptedIn verify tenant pinned (log ++ more) s := by
  obtain ⟨before, later, rfl, ha⟩ := h
  exact ⟨before, later ++ more, by simp, ha⟩

/-- By induction along the log: every part of the state it leaves has its origin in it. -/
lemma loopAfter_origins (log : List Statement) :
    Origins pinned (AcceptedIn verify tenant pinned log) (loopAfter verify tenant pinned log).st := by
  induction log using List.reverseRecOn with
  | nil => exact ⟨fun id key hk => .inl hk, by simp [loopAfter], by simp [loopAfter], by simp [loopAfter],
      by simp [loopAfter]⟩
  | append_singleton log s ih =>
    have hmore := ih.mono fun r hr => AcceptedIn.append hr [s]
    rw [loopAfter_snoc]
    rcases trustStep_cases (loopAfter verify tenant pinned log) s with hsame | ⟨message, st, hv, he, ha, hsame⟩
    · exact hmore.same hsame
    · exact (hmore.effect ⟨log, [], rfl, accepts_of_vetted hv ha⟩ he).same hsame

lemma introduced_of_accepted {log : List Statement} {s : Statement} (h : AcceptedIn verify tenant pinned log s) :
    Introduced verify tenant pinned log s := by
  obtain ⟨before, later, rfl, ha⟩ := h
  refine ⟨before, later, rfl, ha, ?_⟩
  obtain ⟨key, hkey⟩ := Option.isSome_iff_exists.mp ha.root
  rcases (loopAfter_origins before).roots _ key hkey with hp | ⟨r, hr, hkind, hid, -⟩
  · exact .inl (by rw [Dict.has, hp]; rfl)
  · exact .inr ⟨r, hr, hkind, hid⟩

lemma Retains.refl (st : TrustState) : Retains st st :=
  ⟨fun _ _ h => h, fun _ auth h => ⟨auth, h, rfl, fun c hc => ⟨c, hc, le_refl c⟩⟩⟩

lemma Retains.trans {a b c : TrustState} (hab : Retains a b) (hbc : Retains b c) : Retains a c := by
  refine ⟨fun id key h => hbc.roots id key (hab.roots id key h), fun id auth h => ?_⟩
  obtain ⟨auth₁, h₁, hfrom₁, hcut₁⟩ := hab.keys id auth h
  obtain ⟨auth₂, h₂, hfrom₂, hcut₂⟩ := hbc.keys id auth₁ h₁
  refine ⟨auth₂, h₂, hfrom₂.trans hfrom₁, fun n hn => ?_⟩
  obtain ⟨n₁, hn₁, hle₁⟩ := hcut₁ n hn
  obtain ⟨n₂, hn₂, hle₂⟩ := hcut₂ n₁ hn₁
  exact ⟨n₂, hn₂, hle₂.trans hle₁⟩

lemma Retains.same {st st' : TrustState} (h : SameAuthority st st') : Retains st st' := by
  refine ⟨fun id key hk => by rw [h.roots, hk], fun id auth hk => ?_⟩
  exact ⟨auth, by rw [h.keys, hk], rfl, fun c hc => ⟨c, hc, le_refl c⟩⟩

/-- A new entry stands under an id that had none. -/
lemma get_set_fresh {V : Type} {d : Dict String V} {id fresh : String} {v w : V} (hn : d.has fresh = false)
    (h : d.get id = some v) : (d.set fresh w).get id = some v := by
  rw [Dict.get_set_ne _ (fun hid => ?_), h]
  subst hid
  simp [Dict.has, h] at hn

lemma Retains.effect {st st' : TrustState} {s : Statement} (he : Effect st s st') : Retains st st' := by
  have hkeys := (Retains.refl st).keys
  cases he with
  | rootAdd _ _ hnew => exact ⟨fun id key hk => get_set_fresh hnew hk, hkeys⟩
  | key _ _ hnew _ =>
    refine ⟨fun _ _ hk => hk, fun id auth hk => ?_⟩
    exact ⟨auth, get_set_fresh hnew hk, rfl, fun c hc => ⟨c, hc, le_refl c⟩⟩
  | @revoke auth n _ hauth _ =>
    refine ⟨fun _ _ hk => hk, fun id a hk => ?_⟩
    by_cases hid : s.keyId = id
    · subst hid
      obtain rfl := Option.some.inj (hauth.symm.trans hk)
      refine ⟨_, Dict.get_set_self _ _ _, rfl, fun c hc => ⟨min c n, ?_, min_le_left c n⟩⟩
      simp [hc]
    · exact ⟨a, by rw [Dict.get_set_ne _ hid, hk], rfl, fun c hc => ⟨c, hc, le_refl c⟩⟩
  | void => exact ⟨fun _ _ hk => hk, hkeys⟩
  | cosign => exact ⟨fun _ _ hk => hk, hkeys⟩

lemma Retains.step (loop : TrustLoop) (s : Statement) : Retains loop.st (trustStep verify tenant loop s).st := by
  rcases trustStep_cases loop s with hsame | ⟨message, st, -, he, -, hsame⟩
  · exact .same hsame
  · exact (Retains.effect he).trans (.same hsame)

lemma Retains.run (log more : List Statement) :
    Retains (loopAfter verify tenant pinned log).st (loopAfter verify tenant pinned (log ++ more)).st := by
  induction more using List.reverseRecOn with
  | nil =>
    rw [List.append_nil]
    exact .refl _
  | append_singleton more s ih =>
    rw [← List.append_assoc, loopAfter_snoc]
    exact ih.trans (.step _ s)

/-- A row that counts is signed inside the window of its key. -/
lemma judge_authorized {trust : TrustState} {truth : Truth} {loop : AttestationLoop} {a : Attestation}
    (h : judge verify tenant trust truth loop a = .ok ⟨[], false⟩) :
    ∃ message, signerProblems verify trust a message = [] := by
  obtain ⟨content, hc, h⟩ := Checks.bind_ok h
  simp only [pure, Except.pure, Except.ok.injEq, Judgement.mk.injEq, List.append_eq_nil_iff] at h
  obtain ⟨⟨⟨-, hbad⟩, -⟩, hvoided⟩ := h
  unfold contentJudgement at hc
  cases hm : attestationMessage a.kind tenant a.subject a.subjectHash a.signerSeq a.prevHash a.signedAt with
  | error e =>
    cases e with
    | attestError code message =>
      simp only [hm, Except.ok.injEq] at hc
      simp [← hc] at hbad
    | valueError => simp [hm] at hc
  | ok message =>
    simp only [hm] at hc
    by_cases hv : (hashJudgement trust a message).voided = true
    · rw [if_pos hv] at hc
      simp [← Except.ok.inj hc, hv] at hvoided
    · rw [if_neg hv] at hc
      obtain ⟨subject, -, hc⟩ := Checks.bind_ok hc
      obtain rfl := Except.ok.inj hc
      exact ⟨message, (List.append_eq_nil_iff.mp (List.append_eq_nil_iff.mp hbad).1).2⟩

lemma signerProblems_cutoff {trust : TrustState} {a : Attestation} {message : String} {auth : KeyAuth} {c : ℤ}
    (h : signerProblems verify trust a message = []) (hk : trust.keys.get a.keyId = some auth)
    (hc : auth.cutoff = some c) : a.signerSeq ≤ c := by
  simp only [signerProblems, hk, hc, List.append_eq_nil_iff, complaint_eq_nil, not_lt] at h
  exact h.1.2

/-- Everything in the trust state was introduced by a statement in its place, under a root of that moment; a longer
log keeps the roots, the start of every key and its cutoff or a lower one; and whatever comes later, no row of a
revoked key counts after the cutoff. -/
theorem trust_authority (verify : Verifier) (tenant : String) (pinned : Dict String PublicKey)
    {statements longer : List Statement} (h : Extends statements longer) :
    Origins pinned (Introduced verify tenant pinned (byStmtSeq statements))
        (evaluateTrust verify tenant pinned statements) ∧
      Retains (evaluateTrust verify tenant pinned statements) (evaluateTrust verify tenant pinned longer) ∧
      ∀ truth rows a auth c, (evaluateTrust verify tenant pinned statements).keys.get a.keyId = some auth →
        auth.cutoff = some c → Counted verify tenant (evaluateTrust verify tenant pinned longer) truth rows a →
        a.signerSeq ≤ c := by
  obtain ⟨more, hmore⟩ := h
  have hretains : Retains (evaluateTrust verify tenant pinned statements) (evaluateTrust verify tenant pinned longer) := by
    have hrun := @Retains.run verify tenant pinned (byStmtSeq statements) more
    rwa [← hmore] at hrun
  refine ⟨(loopAfter_origins (byStmtSeq statements)).mono fun s hs => introduced_of_accepted hs, hretains, ?_⟩
  rintro truth rows a auth c hk hc ⟨pre, post, -, loop, -, hj⟩
  obtain ⟨auth', hk', -, hcut⟩ := hretains.keys _ auth hk
  obtain ⟨c', hc', hle⟩ := hcut c hc
  obtain ⟨message, hm⟩ := judge_authorized hj
  exact (signerProblems_cutoff hm hk' hc').trans hle

def worker : PublicKey :=
  let blob := [0, 0, 0, 11] ++ utf8 "ssh-ed25519" ++ [0, 0, 0, 32] ++ List.replicate 32 7
  ⟨blob, List.replicate 32 7, fingerprint blob, ""⟩

def pinnedRoot : PublicKey := ⟨[], [], "root", ""⟩

def signedByRoot : Verifier := fun _ _ => .ok pinnedRoot

/-- A statement of the root about the worker's key, after a statement with the hash `prev`. -/
def aboutWorker (kind : String) (arg stmtSeq : ℤ) (prev : String) : Statement :=
  let message := (trustMessage kind "operator" worker.keyId (some arg) none stmtSeq prev).toOption.getD ""
  { stmtSeq := stmtSeq
    kind := kind
    keyId := worker.keyId
    pubkey := some ("ssh-ed25519 " ++ String.ofList (base64Digits worker.blob))
    arg := some arg
    subjectHash := none
    prevHash := prev
    signedBy := "root"
    signature := "signature"
    statementHash := (statementHash message "root" "signature").text }

def authorized : Statement := aboutWorker "key" 1 1 genesis.text

def revoked : Statement := aboutWorker "revoke" 3 2 authorized.statementHash

/-- A later revocation with a higher cutoff. -/
def revokedAgain : Statement := aboutWorker "revoke" 5 3 revoked.statementHash

lemma byStmtSeq_eq {l : List Statement} (h : l.Pairwise (fun a b => a.stmtSeq ≤ b.stmtSeq)) : byStmtSeq l = l :=
  List.mergeSort_of_pairwise (h.imp fun hab => decide_eq_true hab)

lemma revokedLog_extends : Extends [authorized, revoked] [authorized, revoked, revokedAgain] := by
  refine ⟨[revokedAgain], ?_⟩
  rw [byStmtSeq_eq (by simp [authorized, revoked, revokedAgain, aboutWorker]),
    byStmtSeq_eq (by simp [authorized, revoked, aboutWorker])]
  rfl

lemma revokedLog_cutoff : ∃ auth, (evaluateTrust signedByRoot "operator" [("root", pinnedRoot)]
    [authorized, revoked]).keys.get worker.keyId = some auth ∧ auth.cutoff = some 3 := by
  have hsorted : byStmtSeq [authorized, revoked] = [authorized, revoked] :=
    byStmtSeq_eq (by simp [authorized, revoked, aboutWorker])
  have hcut : ((loopAfter signedByRoot "operator" [("root", pinnedRoot)] [authorized, revoked]).st.keys.get
      worker.keyId).bind KeyAuth.cutoff = some 3 := by decide +kernel
  change ∃ auth, (loopAfter signedByRoot "operator" [("root", pinnedRoot)]
    (byStmtSeq [authorized, revoked])).st.keys.get worker.keyId = some auth ∧ auth.cutoff = some 3
  rw [hsorted]
  exact Option.bind_eq_some_iff.mp hcut

theorem trust_authority_revokedLog : ∃ auth, (evaluateTrust signedByRoot "operator" [("root", pinnedRoot)]
      [authorized, revoked]).keys.get worker.keyId = some auth ∧ auth.cutoff = some 3 ∧
    ∀ truth rows a, a.keyId = worker.keyId → Counted signedByRoot "operator" (evaluateTrust signedByRoot "operator"
      [("root", pinnedRoot)] [authorized, revoked, revokedAgain]) truth rows a → a.signerSeq ≤ 3 := by
  obtain ⟨auth, hk, hc⟩ := revokedLog_cutoff
  obtain ⟨-, -, hcut⟩ := trust_authority signedByRoot "operator" [("root", pinnedRoot)] revokedLog_extends
  exact ⟨auth, hk, hc, fun truth rows a hid hcount => hcut truth rows a auth 3 (hid ▸ hk) hc hcount⟩

end ContinuityLedger.Signatures
