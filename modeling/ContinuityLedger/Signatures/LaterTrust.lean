import ContinuityLedger.Signatures.Authority
import ContinuityLedger.Signatures.CleanLogs
import ContinuityLedger.Signatures.Recovery
import ContinuityLedger.Signatures.Storing

/-! A row that verified, judged again by a later trust log and against a later truth: all that can have changed is the
cutoff of its key. -/

namespace ContinuityLedger.Signatures

open Foundations Foundations.Sha256 Foundations.PyText Foundations.HashChain Storing

variable {verify : Verifier} {tenant : String} {roots : Dict String PublicKey}

/-! ### More statements -/

/-- A revocation of the key with a cutoff before the row. -/
def cutsOff (seq : ℤ) (keyId : String) (s : Statement) : Bool :=
  s.kind = "revoke" && s.keyId = keyId && s.arg.any (· < seq)

lemma trustStep_effect {loop : TrustLoop} {s : Statement} (h : (trustStep verify tenant loop s).st.problems = []) :
    ∃ st, Effect loop.st s st ∧ SameAuthority st (trustStep verify tenant loop s).st := by
  by_cases hbad : statementProblems verify tenant loop s = []
  · cases ha : applyStatement loop.st s with
    | error e => simp [trustStep, hbad, ha] at h
    | ok st =>
      refine ⟨st, applyStatement_effect ha, ?_, ?_, ?_, ?_⟩ <;> simp [trustStep, hbad, ha]
  · simp [trustStep, hbad] at h

/-- Nothing said of the new statement is nothing said at all. -/
lemma trustStep_silent {loop : TrustLoop} {s : Statement} (hl : loop.st.problems = [])
    (h : mine (statementSubject s.stmtSeq) (trustStep verify tenant loop s).st.problems = []) :
    (trustStep verify tenant loop s).st.problems = [] := by
  by_cases hbad : statementProblems verify tenant loop s = []
  · cases ha : applyStatement loop.st s with
    | error e => simp [trustStep, hbad, ha, mine, statementSubject, hl] at h
    | ok st => simp [trustStep, hbad, ha, (applies ha).problems, hl]
  · exfalso
    simp only [mine, List.map_eq_nil_iff, List.filter_eq_nil_iff, decide_eq_true_eq] at h
    obtain ⟨b, hb⟩ := List.exists_mem_of_ne_nil _ hbad
    refine h ⟨"trust", statementSubject s.stmtSeq, b⟩ ?_ rfl
    simp [trustStep, hbad, statementSubject, hb]

/-- What one statement does to a key that is known: a revocation lowers its cutoff. -/
lemma Effect.cutoff {st st' : TrustState} {s : Statement} (he : Effect st s st') {k : String} {auth : KeyAuth}
    (hk : st.keys.get k = some auth) :
    ∃ auth', st'.keys.get k = some auth' ∧ auth'.fromSeq = auth.fromSeq ∧
      ∀ seq, (∀ c ∈ auth'.cutoff, seq ≤ c) ↔ (∀ c ∈ auth.cutoff, seq ≤ c) ∧ cutsOff seq k s = false := by
  have hother : s.kind ≠ "revoke" → ∀ seq, cutsOff seq k s = false := fun hkind seq => by simp [cutsOff, hkind]
  cases he with
  | rootAdd hkind => exact ⟨auth, hk, rfl, fun seq => by simp [hother (by simp [hkind]) seq]⟩
  | key hkind _ hnew _ =>
    exact ⟨auth, get_set_fresh hnew hk, rfl, fun seq => by simp [hother (by simp [hkind]) seq]⟩
  | @revoke old n hkind hauth harg =>
    by_cases hid : s.keyId = k
    · subst hid
      obtain rfl := Option.some.inj (hauth.symm.trans hk)
      refine ⟨_, Dict.get_set_self .., rfl, fun seq => ?_⟩
      cases old.cutoff <;> simp [cutsOff, hkind, harg]
    · exact ⟨auth, by rw [Dict.get_set_ne _ hid, hk], rfl, fun seq => by simp [cutsOff, hid]⟩
  | void hkind => exact ⟨auth, hk, rfl, fun seq => by simp [hother (by simp [hkind]) seq]⟩
  | cosign hkind => exact ⟨auth, hk, rfl, fun seq => by simp [hother (by simp [hkind]) seq]⟩

/-- By induction over the statements that came later. -/
lemma cutoff_run {log more : List Statement} (h : (loopAfter verify tenant roots (log ++ more)).st.problems = [])
    {k : String} {auth : KeyAuth} (hk : (loopAfter verify tenant roots log).st.keys.get k = some auth) :
    ∃ auth', (loopAfter verify tenant roots (log ++ more)).st.keys.get k = some auth' ∧ auth'.fromSeq = auth.fromSeq ∧
      ∀ seq, (∀ c ∈ auth'.cutoff, seq ≤ c) ↔
        (∀ c ∈ auth.cutoff, seq ≤ c) ∧ ∀ s ∈ more, cutsOff seq k s = false := by
  induction more using List.reverseRecOn with
  | nil =>
    rw [List.append_nil]
    exact ⟨auth, hk, rfl, fun seq => by simp⟩
  | append_singleton more s ih =>
    rw [← List.append_assoc, loopAfter_snoc] at h ⊢
    obtain ⟨mid, hmid, hfrom, hcut⟩ := ih (trustStep_clean h).1
    obtain ⟨st, he, hsame⟩ := trustStep_effect h
    obtain ⟨auth', hk', hfrom', hcut'⟩ := he.cutoff hmid
    refine ⟨auth', by rw [hsame.keys, hk'], hfrom'.trans hfrom, fun seq => ?_⟩
    rw [hcut', hcut]
    simp [or_imp, forall_and, and_assoc]

lemma Effect.void_kept {st st' : TrustState} {s : Statement} (he : Effect st s st') {n : ℤ}
    (h : (st.voids.get n).isSome) : (st'.voids.get n).isSome := by
  cases he with
  | void =>
    rw [Dict.get_set]
    split_ifs
    · rfl
    · exact h
  | rootAdd => exact h
  | key => exact h
  | revoke => exact h
  | cosign => exact h

lemma void_run {log more : List Statement} {n : ℤ} (h : ((loopAfter verify tenant roots log).st.voids.get n).isSome) :
    ((loopAfter verify tenant roots (log ++ more)).st.voids.get n).isSome := by
  induction more using List.reverseRecOn with
  | nil => rwa [List.append_nil]
  | append_singleton more s ih =>
    rw [← List.append_assoc, loopAfter_snoc]
    rcases trustStep_cases (loopAfter verify tenant roots (log ++ more)) s with hsame | ⟨-, st, -, he, -, hsame⟩
    · rwa [hsame.voids]
    · rw [hsame.voids]
      exact he.void_kept ih

/-- Where the voids come from. -/
lemma void_origin {log : List Statement} {n : ℤ} {named : String}
    (h : (loopAfter verify tenant roots log).st.voids.get n = some named) :
    ∃ s ∈ log, s.kind = "void" ∧ s.arg = some n ∧ s.subjectHash = some named := by
  obtain ⟨s, ⟨before, later, rfl, -⟩, hkind, -, harg, hnamed⟩ := (loopAfter_origins log).voids n named h
  exact ⟨s, by simp, hkind, harg, hnamed⟩

/-! ### A later truth -/

/-- What a truth says of a block it goes on saying, and what is no problem stays none. -/
structure Truth.Grows (truth later : Truth) : Prop where
  blocks : ∀ h hash, truth.blockHash h = some hash → later.blockHash h = some hash
  receipts : ∀ id, (truth.receiptProblem id).filter (· ≠ "") = none → (later.receiptProblem id).filter (· ≠ "") = none

variable {truth later : Truth} {trust now : TrustState}

lemma Truth.Grows.trans {a b c : Truth} (hab : a.Grows b) (hbc : b.Grows c) : a.Grows c :=
  ⟨fun h hash hh => hbc.blocks h hash (hab.blocks h hash hh), fun id h => hbc.receipts id (hab.receipts id h)⟩

lemma checkpointProblems_grows (hg : truth.Grows later) {a : Attestation} {bySeq : Dict ℤ Attestation}
    {cp : Checkpoint} (h : checkpointProblems tenant a bySeq truth cp = []) :
    checkpointProblems tenant a bySeq later cp = [] := by
  unfold checkpointProblems at h ⊢
  simp only [List.append_eq_nil_iff] at h ⊢
  obtain ⟨⟨⟨hcovered, hhead⟩, htip⟩, hhash⟩ := h
  refine ⟨⟨⟨hcovered, hhead⟩, ?_⟩, hhash⟩
  split_ifs at htip ⊢ with h0 hzero hnow hold
  · rfl
  · exact absurd (hg.blocks _ _ (not_not.mp hold)) hnow
  · rfl

lemma checkSubject_grows (hg : truth.Grows later) {a : Attestation} {bySeq : Dict ℤ Attestation}
    (h : checkSubject tenant a bySeq truth = .ok []) : checkSubject tenant a bySeq later = .ok [] := by
  unfold checkSubject at h ⊢
  by_cases hblock : a.kind = "block"
  · rw [if_pos hblock] at h ⊢
    obtain ⟨parsed, hp, hrest⟩ := Checks.bind_ok h
    rw [hp]
    cases parsed with
    | none => cases hrest
    | some height =>
      cases hreal : truth.blockHash height with
      | none =>
        simp only [hreal] at hrest
        cases hrest
      | some real =>
        simp only [hreal] at hrest
        simpa only [bind, Except.bind, hg.blocks _ _ hreal] using hrest
  rw [if_neg hblock] at h ⊢
  by_cases hreceipt : a.kind = "receipt"
  · rw [if_pos hreceipt] at h ⊢
    split_ifs at h ⊢
    · cases h
    · rw [Except.ok.injEq, Option.toList_eq_nil_iff] at h ⊢
      exact hg.receipts _ h
  · rw [if_neg hreceipt] at h ⊢
    obtain ⟨parsed, hp, hrest⟩ := Checks.bind_ok h
    rw [hp]
    cases parsed with
    | none => cases hrest
    | some cp => exact congrArg Except.ok (checkpointProblems_grows hg (Except.ok.inj hrest))

/-! ### The rows before -/

/-- Two evaluations of one log stand at the same row, and a subject that the first finds free the second does. -/
structure Alongside (a b : AttestationLoop) : Prop where
  expected : b.expected = a.expected
  last : b.last = a.last
  bySeq : b.bySeq = a.bySeq
  seen : ∀ k, a.seen.get k = none → b.seen.get k = none

/-- A row that is void in the first evaluation is void in the second. -/
def KeepsVoid (tenant : String) (trust now : TrustState) (a : Attestation) : Prop :=
  (hashJudgement trust a (a.message tenant)).voided = true → (hashJudgement now a (a.message tenant)).voided = true

variable {log : List Attestation} {row : Attestation}

lemma Alongside.step {a b a' b' : AttestationLoop} (h : Alongside a b) (hc : row.checks = true)
    (hv : KeepsVoid tenant trust now row) (ha : attestationStep verify tenant trust truth a row = .ok a')
    (hb : attestationStep verify tenant now later b row = .ok b') : Alongside a' b' := by
  obtain ⟨j, hj, hr⟩ := attestationStep_eq ha
  obtain ⟨i, hi, hs⟩ := attestationStep_eq hb
  obtain ⟨hexp, hlast, hseq⟩ := recordRow_eq hr
  obtain ⟨hexp', hlast', hseq'⟩ := recordRow_eq hs
  refine ⟨hexp'.trans hexp.symm, hlast'.trans hlast.symm, by rw [hseq', hseq, h.bySeq], fun k hk => ?_⟩
  rw [recordRow_map] at hr hs
  obtain ⟨summary, -, rfl⟩ := Checks.map_ok hr
  obtain ⟨summary', -, rfl⟩ := Checks.map_ok hs
  rw [after_seen] at hk ⊢
  refine ⟨h.seen k hk.1, fun hfresh => hk.2 ?_⟩
  rw [judge_voided hc hj, ← Bool.not_eq_true]
  intro hvoid
  rw [judge_voided hc hi, hv hvoid] at hfresh
  cases hfresh

lemma Alongside.run {a b a' b' : AttestationLoop} {rows : List Attestation} (h : Alongside a b)
    (hrows : ∀ row ∈ rows, row.checks = true ∧ KeepsVoid tenant trust now row)
    (ha : rows.foldlM (attestationStep verify tenant trust truth) a = .ok a')
    (hb : rows.foldlM (attestationStep verify tenant now later) b = .ok b') : Alongside a' b' := by
  induction rows generalizing a b with
  | nil =>
    obtain rfl := Except.ok.inj ha
    obtain rfl := Except.ok.inj hb
    exact h
  | cons row rows ih =>
    rw [List.foldlM_cons] at ha hb
    obtain ⟨mid, hstep, harest⟩ := Checks.bind_ok ha
    obtain ⟨mid', hstep', hbrest⟩ := Checks.bind_ok hb
    obtain ⟨hc, hv⟩ := hrows row (by simp)
    exact ih (h.step hc hv hstep hstep') (fun r hr => hrows r (List.mem_cons_of_mem _ hr)) harest hbrest

lemma foldlM_problems {rows : List Attestation} {loop last : AttestationLoop}
    (h : rows.foldlM (attestationStep verify tenant trust truth) loop = .ok last) :
    ∀ p ∈ last.problems, p ∈ loop.problems ∨ ∃ a ∈ rows, p.subject = attestationSubject a.signerSeq := by
  induction rows generalizing loop with
  | nil =>
    obtain rfl := Except.ok.inj h
    exact fun p hp => .inl hp
  | cons a rows ih =>
    rw [List.foldlM_cons] at h
    obtain ⟨next, hstep, hrest⟩ := Checks.bind_ok h
    obtain ⟨j, -, hr⟩ := attestationStep_eq hstep
    rw [recordRow_map] at hr
    obtain ⟨summary, -, rfl⟩ := Checks.map_ok hr
    intro p hp
    rcases ih hrest p hp with hp | ⟨b, hb, hs⟩
    · rcases List.mem_append.mp hp with hp | hp
      · exact .inl hp
      · obtain ⟨text, -, rfl⟩ := List.mem_map.mp hp
        exact .inr ⟨a, by simp, rfl⟩
    · exact .inr ⟨b, List.mem_cons_of_mem _ hb, hs⟩

lemma cosigns_subjects {bySeq : Dict ℤ Attestation} {cosigns : List Cosign} (out : List Problem × AttestationSummary) :
    ∃ more, (cosigns.foldl (cosignStep bySeq) out).1 = out.1 ++ more ∧
      ∀ p ∈ more, ∃ n, p.subject = statementSubject n := by
  induction cosigns generalizing out with
  | nil => exact ⟨[], by simp⟩
  | cons c cosigns ih =>
    rw [List.foldl_cons]
    obtain ⟨more, hmore, hall⟩ := ih (cosignStep bySeq out c)
    rw [hmore, cosignStep]
    split_ifs
    · exact ⟨more, rfl, hall⟩
    · exact ⟨_, List.append_assoc .., List.forall_mem_cons.mpr ⟨⟨_, rfl⟩, hall⟩⟩

lemma attestationSubject_injective {m n : ℤ} (h : attestationSubject m = attestationSubject n) : m = n :=
  Delimited.int_text_injective (String.append_right_inj _ |>.mp h)

lemma attestationSubject_ne (m n : ℤ) : attestationSubject m ≠ statementSubject n := by
  intro h
  have hchars := congrArg (fun s : String => s.toList.head?) h
  simp [attestationSubject, statementSubject, String.toList_append] at hchars

lemma mine_append (subject : String) (problems more : List Problem) :
    mine subject (problems ++ more) = mine subject problems ++ mine subject more := by
  simp [mine]

lemma mine_other {subject : String} {problems : List Problem} (h : ∀ p ∈ problems, p.subject ≠ subject) :
    mine subject problems = [] := by
  simpa [mine] using h

lemma mine_map (check subject : String) (bad : List String) :
    mine subject (bad.map fun b => ⟨check, subject, b⟩) = bad := by
  induction bad with
  | nil => rfl
  | cons b bad ih => simpa [mine] using ih

/-- Where the loop stands after a log. -/
lemma foldlM_tip {last : AttestationLoop}
    (h : log.foldlM (attestationStep verify tenant trust truth) AttestationLoop.start = .ok last) :
    (last.expected - 1, last.last) = tip Attestation.leaves (0, genesis.text) log := by
  rcases List.eq_nil_or_concat log with rfl | ⟨pre, r, rfl⟩
  · obtain rfl := Except.ok.inj h
    rfl
  · rw [List.concat_eq_append] at h ⊢
    obtain ⟨hexp, hlast, -⟩ := foldlM_concat h
    rw [tip_append_singleton, hexp, hlast, add_sub_cancel_right]
    rfl

lemma next_of_linked {loop : AttestationLoop} (hlog : DatabaseLog tenant (log ++ [row]))
    (h : log.foldlM (attestationStep verify tenant trust truth) AttestationLoop.start = .ok loop) : Next loop row := by
  have hfollows := ((linked_append_singleton ..).mp hlog.linked).2.trans (foldlM_tip h).symm
  obtain ⟨hseq, hprev⟩ := Prod.mk.inj hfollows
  exact ⟨by omega, hprev⟩

lemma seq_lt_of_mem (hlog : DatabaseLog tenant (log ++ [row])) {a : Attestation} (ha : a ∈ log) :
    a.signerSeq < row.signerSeq :=
  (List.pairwise_append.mp (linked_pairwise hlog.linked)).2.2 a ha row (by simp)

/-- What an evaluation says of the last row of a log. -/
lemma evaluate_last (hlog : DatabaseLog tenant (log ++ [row])) {loop last : AttestationLoop} {j : Judgement}
    (hloop : log.foldlM (attestationStep verify tenant trust truth) AttestationLoop.start = .ok loop)
    (hj : judge verify tenant trust truth loop row = .ok j) (hr : recordRow loop row j = .ok last) :
    ∃ out, evaluateAttestations verify tenant trust (log ++ [row]) truth = .ok out ∧
      mine (attestationSubject row.signerSeq) out.1 = j.bad := by
  have hlast : (log ++ [row]).foldlM (attestationStep verify tenant trust truth) AttestationLoop.start = .ok last := by
    rw [List.foldlM_append, hloop]
    simp only [bind, Except.bind, List.foldlM_cons, List.foldlM_nil, attestationStep, hj, hr]
    rfl
  refine ⟨_, evaluate_eq hlog hlast, ?_⟩
  obtain ⟨more, hmore, hcosign⟩ := @cosigns_subjects last.bySeq trust.cosigns (last.problems, last.summary)
  have hothers : mine (attestationSubject row.signerSeq) loop.problems = [] := mine_other fun p hp heq => by
    rcases foldlM_problems hloop p hp with hp | ⟨a, ha, hs⟩
    · cases hp
    · exact (seq_lt_of_mem hlog ha).ne (attestationSubject_injective (hs.symm.trans heq))
  have hsigned : mine (attestationSubject row.signerSeq) more = [] := mine_other fun p hp heq => by
    obtain ⟨n, hn⟩ := hcosign p hp
    exact attestationSubject_ne _ _ (heq.symm.trans hn)
  rw [recordRow_map] at hr
  obtain ⟨summary, -, rfl⟩ := Checks.map_ok hr
  rw [hmore, mine_append, hsigned, List.append_nil]
  change mine _ (loop.problems ++ _) = _
  rw [mine_append, hothers, List.nil_append]
  exact mine_map ..

/-- An evaluation that does not raise has judged the last row. -/
lemma evaluate_judged (hlog : DatabaseLog tenant (log ++ [row])) {out : List Problem × AttestationSummary}
    (h : evaluateAttestations verify tenant trust (log ++ [row]) truth = .ok out) :
    ∃ loop j, log.foldlM (attestationStep verify tenant trust truth) AttestationLoop.start = .ok loop ∧
      judge verify tenant trust truth loop row = .ok j ∧ mine (attestationSubject row.signerSeq) out.1 = j.bad := by
  have heval := h
  rw [evaluateAttestations, bySignerSeq_eq ((linked_pairwise hlog.linked).imp le_of_lt)] at heval
  obtain ⟨last, hlast, -⟩ := Checks.bind_ok heval
  rw [List.foldlM_append] at hlast
  obtain ⟨loop, hloop, hrow⟩ := Checks.bind_ok hlast
  rw [List.foldlM_cons] at hrow
  obtain ⟨next, hstep, -⟩ := Checks.bind_ok hrow
  obtain ⟨j, hj, hr⟩ := attestationStep_eq hstep
  obtain ⟨out', hout, hbad⟩ := evaluate_last hlog hloop hj hr
  obtain rfl := Except.ok.inj (hout.symm.trans h)
  exact ⟨loop, j, hloop, hj, hbad⟩

/-- A row that no void names is judged on its key, its signature and its subject. -/
lemma contentJudgement_fresh (hc : row.checks = true) (hh : Hashed tenant row)
    (hv : trust.voids.get row.signerSeq = none) (bySeq : Dict ℤ Attestation) :
    contentJudgement verify tenant trust truth bySeq row = (checkSubject tenant row bySeq truth).map fun subject =>
      ⟨signerProblems verify trust row (row.message tenant) ++ subject, false⟩ := by
  have hj : hashJudgement trust row (row.message tenant) = ⟨[], false⟩ := by
    rw [hashJudgement, if_neg (fun hne => hne hh), hv]
  rw [contentJudgement_eq hc, hj]
  rfl

/-- A key that is still known leaves nothing to say of its row but its cutoff. -/
lemma signerProblems_later {a : Attestation} {message : String} {auth auth' : KeyAuth}
    (h : signerProblems verify trust a message = []) (hk : trust.keys.get a.keyId = some auth)
    (hk' : now.keys.get a.keyId = some auth') (hfrom : auth'.fromSeq = auth.fromSeq) :
    signerProblems verify now a message = [] ↔ ∀ c ∈ auth'.cutoff, a.signerSeq ≤ c := by
  simp only [signerProblems, hk, hk', hfrom, List.append_eq_nil_iff] at h ⊢
  obtain ⟨⟨hstart, -⟩, hsig⟩ := h
  rw [hstart, hsig]
  cases auth'.cutoff <;> simp

/-! ### The same row later -/

/-- Voids name rows of the log, by their numbers and hashes. -/
def VoidsStored (statements : List Statement) (log : List Attestation) : Prop :=
  ∀ s ∈ statements, s.kind = "void" → ∃ a ∈ log, s.arg = some a.signerSeq ∧ s.subjectHash = some a.attestationHash

lemma VoidsStored.mono {statements : List Statement} {log log' : List Attestation} (h : VoidsStored statements log)
    (hl : log <+: log') : VoidsStored statements log' := fun s hs hkind => by
  obtain ⟨a, ha, hrest⟩ := h s hs hkind
  exact ⟨a, hl.subset ha, hrest⟩

lemma VoidsStored.named {statements : List Statement} (h : VoidsStored statements log) {n : ℤ} {named : String}
    (hv : (loopAfter verify tenant roots statements).st.voids.get n = some named) :
    ∃ a ∈ log, a.signerSeq = n ∧ a.attestationHash = named := by
  obtain ⟨s, hs, hkind, harg, hnamed⟩ := void_origin hv
  obtain ⟨a, ha, hseq, hhash⟩ := h s hs hkind
  rw [harg] at hseq
  rw [hnamed] at hhash
  exact ⟨a, ha, (Option.some.inj hseq).symm, (Option.some.inj hhash).symm⟩

lemma VoidsStored.fresh {statements : List Statement} (h : VoidsStored statements log)
    (hlog : DatabaseLog tenant (log ++ [row])) :
    (loopAfter verify tenant roots statements).st.voids.get row.signerSeq = none := by
  by_contra hne
  obtain ⟨named, hv⟩ := Option.ne_none_iff_exists'.mp hne
  obtain ⟨a, ha, hseq, -⟩ := h.named hv
  exact (seq_lt_of_mem hlog ha).ne hseq

lemma VoidsStored.keeps {trusted more : List Statement} (h : VoidsStored (trusted ++ more) log)
    (hp : log.Pairwise (fun a b => a.signerSeq < b.signerSeq)) {a : Attestation} (ha : a ∈ log) :
    KeepsVoid tenant (loopAfter verify tenant roots trusted).st (loopAfter verify tenant roots (trusted ++ more)).st
      a := by
  intro hv
  rw [hashJudgement_voided] at hv ⊢
  refine ⟨hv.1, ?_⟩
  obtain ⟨named, hnamed⟩ := Option.isSome_iff_exists.mp (@void_run verify tenant roots trusted more a.signerSeq
    (by rw [hv.2]; rfl))
  obtain ⟨b, hb, hseq, hhash⟩ := h.named hnamed
  obtain rfl : b = a := List.inj_on_of_nodup_map (List.pairwise_map.mpr (hp.imp ne_of_lt)) hb ha hseq
  rw [hnamed, hhash]

/-- What the row has passed: nothing was wrong with it in some evaluation at the end of this log. -/
structure Verified (verify : Verifier) (tenant : String) (trust : TrustState) (truth : Truth) (log : List Attestation)
    (row : Attestation) : Prop where
  clean : ∃ out, evaluateAttestations verify tenant trust (log ++ [row]) truth = .ok out ∧
    mine (attestationSubject row.signerSeq) out.1 = []

/-- The parts of a clean judgement. -/
structure Passed (verify : Verifier) (tenant : String) (trust : TrustState) (truth : Truth) (loop : AttestationLoop)
    (row : Attestation) : Prop where
  signer : signerProblems verify trust row (row.message tenant) = []
  subject : checkSubject tenant row loop.bySeq truth = .ok []
  fresh : loop.seen.get (row.kind, row.subject) = none

lemma Verified.passed (h : Verified verify tenant trust truth log row) (hlog : DatabaseLog tenant (log ++ [row]))
    (hh : Hashed tenant row) (hv : trust.voids.get row.signerSeq = none) :
    ∃ loop, log.foldlM (attestationStep verify tenant trust truth) AttestationLoop.start = .ok loop ∧
      Passed verify tenant trust truth loop row := by
  obtain ⟨out, hout, hmine⟩ := h.clean
  obtain ⟨loop, j, hloop, hj, hbad⟩ := evaluate_judged hlog hout
  rw [hmine] at hbad
  obtain ⟨content, hc, -⟩ := Checks.bind_ok hj
  obtain ⟨repeated, hjudge, hrepeated⟩ := judge_next (next_of_linked hlog hloop) hc
  obtain rfl := Except.ok.inj (hj.symm.trans hjudge)
  rw [contentJudgement_fresh (hlog.checks row (by simp)) hh hv] at hc
  obtain ⟨subject, hs, rfl⟩ := Checks.map_ok hc
  obtain ⟨hcontent, hfree⟩ := List.append_eq_nil_iff.mp hbad.symm
  obtain ⟨hsigner, rfl⟩ := List.append_eq_nil_iff.mp hcontent
  exact ⟨loop, hloop, hsigner, hs, (hrepeated.mp hfree).resolve_left Bool.false_ne_true⟩

/-- Every row of the log reads and hashes. -/
def Readable (tenant : String) (log : List Attestation) : Prop := ∀ a ∈ log, Hashed tenant a ∧ ¬ Unreadable a

lemma total_of_readable (hlog : DatabaseLog tenant log) (h : Readable tenant log) :
    ∃ last, log.foldlM (attestationStep verify tenant trust truth) AttestationLoop.start = .ok last :=
  foldlM_total _ fun a ha => ⟨hlog.checks a ha, fun hu => absurd hu (h a ha).2⟩

lemma DatabaseLog.init (h : DatabaseLog tenant (log ++ [row])) : DatabaseLog tenant log :=
  ⟨((linked_append_singleton ..).mp h.linked).1, fun a ha => h.checks a (List.mem_append_left _ ha),
    fun a ha => h.hashes a (List.mem_append_left _ ha)⟩

lemma Verified.readable (h : Verified verify tenant trust truth log row) (hlog : DatabaseLog tenant (log ++ [row]))
    (hh : Hashed tenant row) (hv : trust.voids.get row.signerSeq = none) : ¬ Unreadable row := by
  obtain ⟨loop, -, hp⟩ := h.passed hlog hh hv
  exact (checkSubject_total (hlog.checks row (by simp)) loop.bySeq).mp ⟨[], hp.subject⟩

/-- Judged anew, by a trust state that voids what was void, all there can be to say of the row is about its key. -/
lemma Verified.signer_iff (h : Verified verify tenant trust truth log row) (hlog : DatabaseLog tenant (log ++ [row]))
    (hrows : Readable tenant log) (hh : Hashed tenant row) (hv : trust.voids.get row.signerSeq = none)
    (hv' : now.voids.get row.signerSeq = none) (hkeeps : ∀ a ∈ log, KeepsVoid tenant trust now a)
    (hg : truth.Grows later) :
    Verified verify tenant now later log row ↔ signerProblems verify now row (row.message tenant) = [] := by
  have hc := hlog.checks row (by simp)
  obtain ⟨loop, hloop, hp⟩ := h.passed hlog hh hv
  have hread := h.readable hlog hh hv
  obtain ⟨loop', hloop'⟩ := @total_of_readable verify tenant later now log hlog.init hrows
  have hside : Alongside loop loop' := Alongside.run ⟨rfl, rfl, rfl, fun _ hk => hk⟩
    (fun a ha => ⟨hlog.checks a (List.mem_append_left _ ha), hkeeps a ha⟩) hloop hloop'
  have hcontent : contentJudgement verify tenant now later loop'.bySeq row =
      .ok ⟨signerProblems verify now row (row.message tenant), false⟩ := by
    rw [contentJudgement_fresh hc hh hv', hside.bySeq, checkSubject_grows hg hp.subject]
    simp [Except.map]
  obtain ⟨repeated, hjudge, hrepeated⟩ := judge_next (next_of_linked hlog hloop') hcontent
  rw [hrepeated.mpr (.inr (hside.seen _ hp.fresh)), List.append_nil] at hjudge
  obtain ⟨summary, hs⟩ := countRow_total loop'.summary
    (j := ⟨signerProblems verify now row (row.message tenant), false⟩) hc fun _ => hread
  obtain ⟨out, hout, hbad⟩ := evaluate_last hlog hloop' hjudge (by rw [recordRow_map, hs]; rfl)
  constructor
  · rintro ⟨out', hout', hmine⟩
    obtain rfl := Except.ok.inj (hout.symm.trans hout')
    exact hbad.symm.trans hmine
  · exact fun hnone => ⟨out, hout, hbad.trans hnone⟩

/-- A row that verified by an earlier trust log verifies by a later one unless a statement in between cuts its key off
before it. -/
lemma Verified.later_iff {trusted more : List Statement}
    (h : Verified verify tenant (loopAfter verify tenant roots trusted).st truth log row)
    (hlog : DatabaseLog tenant (log ++ [row])) (hrows : Readable tenant log) (hh : Hashed tenant row)
    (hclean : (loopAfter verify tenant roots (trusted ++ more)).st.problems = [])
    (hvoids : VoidsStored (trusted ++ more) log) (hg : truth.Grows later) :
    Verified verify tenant (loopAfter verify tenant roots (trusted ++ more)).st later log row ↔
      ∀ s ∈ more, cutsOff row.signerSeq row.keyId s = false := by
  have hbefore : VoidsStored trusted log := fun s hs => hvoids s (List.mem_append_left _ hs)
  rw [h.signer_iff hlog hrows hh (hbefore.fresh hlog) (hvoids.fresh hlog)
    (fun a ha => hvoids.keeps (linked_pairwise hlog.init.linked) ha) hg]
  obtain ⟨loop, -, hp⟩ := h.passed hlog hh (hbefore.fresh hlog)
  cases hk : (loopAfter verify tenant roots trusted).st.keys.get row.keyId with
  | none =>
    have hsigner := hp.signer
    simp [signerProblems, hk] at hsigner
  | some auth =>
    obtain ⟨auth', hk', hfrom, hcut⟩ := cutoff_run hclean hk
    rw [signerProblems_later hp.signer hk hk' hfrom, hcut]
    exact and_iff_right fun c hcut => signerProblems_cutoff hp.signer hk hcut

end ContinuityLedger.Signatures
