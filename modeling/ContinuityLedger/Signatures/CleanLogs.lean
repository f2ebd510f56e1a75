import ContinuityLedger.Signatures.Attestations
import ContinuityLedger.Signatures.TrustSteps

/-! What a trust log and an attestation log without problems say: every statement was applied, and every cosignature
names a checkpoint that the log holds. -/

namespace ContinuityLedger.Signatures

open Foundations Foundations.Sha256 Foundations.Delimited

variable {verify : Verifier} {tenant : String}

/-- The text a statement's hash is taken over. -/
def statementText (tenant : String) (s : Statement) : Option String :=
  match trustMessage s.kind tenant s.keyId s.arg s.subjectHash s.stmtSeq s.prevHash with
  | .error _ => none
  | .ok message => some (message ++ "\n" ++ s.signedBy ++ "\n" ++ normalizeSignature s.signature)

/-- The cosignature that a statement makes. -/
def cosignOf (s : Statement) : Option Cosign :=
  if s.kind = "cosign" then
    match s.arg, s.subjectHash with
    | some n, some named => some ⟨n, named, s.keyId, s.stmtSeq⟩
    | _, _ => none
  else none

/-- Roots are known by their fingerprints, whether pinned or added. -/
def TrustState.Fingerprinted (st : TrustState) : Prop :=
  ∀ id key, st.roots.get id = some key → id = fingerprint key.blob

lemma requireKey_eq {s : Statement} {key : PublicKey} (h : requireKey s = .ok key) :
    s.keyId = fingerprint key.blob := by
  unfold requireKey at h
  cases hp : s.pubkey.filter (· ≠ "") with
  | none => simp only [hp, reduceCtorEq] at h
  | some text =>
    cases hk : parsePublicKey text with
    | error e => cases e <;> simp only [hp, hk, reduceCtorEq] at h
    | ok k =>
      simp only [hp, hk] at h
      split_ifs at h with hid
      obtain rfl := Except.ok.inj h
      rw [← not_not.mp hid]
      exact parsePublicKey_keyId hk

/-- What applying a statement does. -/
structure Applies (st : TrustState) (s : Statement) (st' : TrustState) : Prop where
  problems : st'.problems = st.problems
  cosigns : st'.cosigns = st.cosigns ++ (cosignOf s).toList
  own : s.kind = "cosign" → s.signedBy = s.keyId ∧ (cosignOf s).isSome
  fingerprinted : st.Fingerprinted → st'.Fingerprinted

lemma applies_of_kind {st st' : TrustState} {s : Statement} (hk : s.kind ≠ "cosign")
    (hp : st'.problems = st.problems) (hc : st'.cosigns = st.cosigns) (hr : st'.roots = st.roots) :
    Applies st s st' := by
  refine ⟨hp, ?_, fun h => absurd h hk, fun hf => ?_⟩
  · simp [cosignOf, hk, hc]
  · simpa only [TrustState.Fingerprinted, hr] using hf

lemma applies {st st' : TrustState} {s : Statement} (h : applyStatement st s = .ok st') : Applies st s st' := by
  cases applyStatement_effect h with
  | @rootAdd key hkind hr _ =>
    have hk : s.kind ≠ "cosign" := by simp [hkind]
    refine ⟨rfl, by simp [cosignOf, hk], fun h => absurd h hk, fun hf id k hid => ?_⟩
    rw [Dict.get_set] at hid
    split_ifs at hid with heq
    · obtain rfl := Option.some.inj hid
      exact heq ▸ requireKey_eq hr
    · exact hf id k hid
  | key hkind => exact applies_of_kind (by simp [hkind]) rfl rfl rfl
  | revoke hkind => exact applies_of_kind (by simp [hkind]) rfl rfl rfl
  | void hkind => exact applies_of_kind (by simp [hkind]) rfl rfl rfl
  | cosign hkind hown harg hnamed =>
    refine ⟨rfl, by simp [cosignOf, hkind, harg, hnamed], fun _ => ⟨hown, ?_⟩, fun hf => hf⟩
    simp [cosignOf, hkind, harg, hnamed]

/-- A statement that the loop finds nothing wrong with. -/
structure Accepted (verify : Verifier) (tenant : String) (loop : TrustLoop) (s : Statement) : Prop where
  position : s.stmtSeq = loop.expected
  text : ∃ t, statementText tenant s = some t ∧ (sha256Hex t).text = s.statementHash
  root : loop.st.roots.has s.signedBy = true
  applied : ∃ st, Applies loop.st s st ∧
    trustStep verify tenant loop s =
      ⟨{ st with headSeq := s.stmtSeq, headHash := s.statementHash }, s.stmtSeq + 1, s.statementHash⟩

lemma statementProblems_clean {loop : TrustLoop} {s : Statement} (h : statementProblems verify tenant loop s = []) :
    s.stmtSeq = loop.expected ∧ (∃ t, statementText tenant s = some t ∧ (sha256Hex t).text = s.statementHash) ∧
      loop.st.roots.has s.signedBy = true := by
  obtain ⟨message, hv⟩ := statementProblems_vetted h
  exact ⟨hv.position, ⟨_, by simp only [statementText, hv.text], hv.hash⟩, hv.root⟩

lemma trustStep_clean {loop : TrustLoop} {s : Statement} (h : (trustStep verify tenant loop s).st.problems = []) :
    loop.st.problems = [] ∧ Accepted verify tenant loop s := by
  by_cases hbad : statementProblems verify tenant loop s = []
  · cases ha : applyStatement loop.st s with
    | error e => simp [trustStep, hbad, ha] at h
    | ok st =>
      have happ := applies ha
      simp only [trustStep, hbad, ha, if_true, List.append_nil, List.map_nil] at h
      obtain ⟨hseq, htext, hroot⟩ := statementProblems_clean hbad
      refine ⟨happ.problems ▸ h, hseq, htext, hroot, st, happ, ?_⟩
      simp only [trustStep, hbad, ha, if_true, List.append_nil, List.map_nil]
  · simp [trustStep, hbad] at h

lemma foldl_clean {loop : TrustLoop} {l : List Statement}
    (h : (l.foldl (trustStep verify tenant) loop).st.problems = []) : loop.st.problems = [] := by
  induction l generalizing loop with
  | nil => exact h
  | cons s l ih => exact (trustStep_clean (ih h)).1

/-- In a clean log every statement was accepted where it stands, by what came before it. -/
structure CleanFold (verify : Verifier) (tenant : String) (loop : TrustLoop) (l : List Statement) : Prop where
  increasing : l.Pairwise (fun a b => a.stmtSeq < b.stmtSeq)
  after : ∀ s ∈ l, loop.expected ≤ s.stmtSeq
  accepted : ∀ s ∈ l, ∃ before, before.st.Fingerprinted ∧ Accepted verify tenant before s
  cosigns : (l.foldl (trustStep verify tenant) loop).st.cosigns = loop.st.cosigns ++ l.filterMap cosignOf

lemma cleanFold {loop : TrustLoop} {l : List Statement} (hf : loop.st.Fingerprinted)
    (h : (l.foldl (trustStep verify tenant) loop).st.problems = []) : CleanFold verify tenant loop l := by
  induction l generalizing loop with
  | nil => exact ⟨by simp, by simp, by simp, by simp⟩
  | cons s l ih =>
    obtain ⟨-, hacc⟩ := trustStep_clean (foldl_clean h)
    obtain ⟨st, happ, hstep⟩ := hacc.applied
    have hrest := @ih (trustStep verify tenant loop s) (by rw [hstep]; exact happ.fingerprinted hf) h
    have hnext : (trustStep verify tenant loop s).expected = s.stmtSeq + 1 := by rw [hstep]
    refine ⟨List.pairwise_cons.mpr ⟨fun b hb => ?_, hrest.increasing⟩, ?_, ?_, ?_⟩
    · have := hrest.after b hb
      omega
    · intro b hb
      rcases List.mem_cons.mp hb with rfl | hb
      · exact hacc.position.ge
      · have := hrest.after b hb
        have := hacc.position
        omega
    · intro b hb
      rcases List.mem_cons.mp hb with rfl | hb
      · exact ⟨loop, hf, hacc⟩
      · exact hrest.accepted b hb
    · rw [List.foldl_cons, hrest.cosigns, hstep, happ.cosigns]
      cases hc : cosignOf s <;> simp [hc]

/-- What a trust log without problems says of its statements. -/
structure CleanTrust (verify : Verifier) (tenant : String) (roots : Roots) (statements : List Statement) : Prop where
  distinct : (statements.map Statement.stmtSeq).Nodup
  text : ∀ s ∈ statements, ∃ t, statementText tenant s = some t ∧ (sha256Hex t).text = s.statementHash
  cosign : ∀ s ∈ statements, s.kind = "cosign" → Free '|' s.keyId ∧ (cosignOf s).isSome
  cosigns : ∀ x, x ∈ (evaluateTrust verify tenant roots.keys statements).cosigns ↔
    ∃ s ∈ statements, cosignOf s = some x

theorem evaluateTrust_clean {roots : Roots} {statements : List Statement}
    (h : (evaluateTrust verify tenant roots.keys statements).problems = []) :
    CleanTrust verify tenant roots statements := by
  unfold evaluateTrust at h
  obtain ⟨hinc, -, hacc, hcosigns⟩ := cleanFold (fun id key hk => roots.fingerprints id key hk) h
  have hperm := List.mergeSort_perm statements (fun a b => a.stmtSeq ≤ b.stmtSeq)
  refine ⟨?_, fun s hs => ?_, fun s hs hk => ?_, fun x => ?_⟩
  · refine ((hperm.map Statement.stmtSeq).nodup_iff).mp ?_
    exact List.pairwise_map.mpr (hinc.imp fun hlt => hlt.ne)
  · obtain ⟨before, -, ha⟩ := hacc s (hperm.mem_iff.mpr hs)
    exact ha.text
  · obtain ⟨before, hf, ha⟩ := hacc s (hperm.mem_iff.mpr hs)
    obtain ⟨st, happ, -⟩ := ha.applied
    obtain ⟨hown, hsome⟩ := happ.own hk
    obtain ⟨key, hkey⟩ := Option.isSome_iff_exists.mp ha.root
    refine ⟨?_, hsome⟩
    rw [← hown, hf _ _ hkey]
    exact free_fingerprint _
  · unfold evaluateTrust
    rw [hcosigns, List.nil_append, List.mem_filterMap]
    simp only [hperm.mem_iff]

lemma statementText_eq {s : Statement} {t : String} (h : statementText tenant s = some t) :
    s.kind ∈ trustKinds ∧ ∃ rest, t = "jarvis-trust|v1|" ++ (s.kind ++ ("|" ++ (tenantPart tenant ++ ("|" ++
      (s.keyId ++ ("|" ++ ((s.arg.map toString).getD "" ++ ("|" ++ rest)))))))) := by
  unfold statementText at h
  cases hm : trustMessage s.kind tenant s.keyId s.arg s.subjectHash s.stmtSeq s.prevHash with
  | error e => simp [hm] at h
  | ok message =>
    simp only [hm, Option.some.injEq] at h
    unfold trustMessage at hm
    dsimp only at hm
    split_ifs at hm with hkind
    refine ⟨hkind, s.subjectHash.getD "" ++ ("|" ++ (toString s.stmtSeq ++ ("|" ++ (s.prevHash ++ ("\n" ++
      (s.signedBy ++ ("\n" ++ normalizeSignature s.signature))))))), ?_⟩
    rw [← h, ← Except.ok.inj hm]
    simp only [String.append_assoc]

lemma free_trustKind {kind : String} (h : kind ∈ trustKinds) : Free '|' kind := by
  simp only [trustKinds, List.mem_cons, List.not_mem_nil, or_false] at h
  rcases h with rfl | rfl | rfl | rfl | rfl <;> simp [Free]

lemma cosignOf_eq {s : Statement} {x : Cosign} (h : cosignOf s = some x) :
    s.kind = "cosign" ∧ s.arg = some x.checkpointSeq := by
  unfold cosignOf at h
  split_ifs at h with hk
  cases ha : s.arg with
  | none => simp [ha] at h
  | some n =>
    cases hn : s.subjectHash with
    | none => simp [ha, hn] at h
    | some named =>
      simp only [ha, hn, Option.some.injEq] at h
      subst h
      exact ⟨hk, rfl⟩

/-- The text that is hashed tells what a cosignature cosigns. -/
lemma statementText_cosign {s u : Statement} {x : Cosign} {t : String} (hs : statementText tenant s = some t)
    (hu : statementText tenant u = some t) (hx : cosignOf s = some x) (fs : Free '|' s.keyId)
    (hcosign : u.kind = "cosign" → Free '|' u.keyId ∧ (cosignOf u).isSome) :
    ∃ y, cosignOf u = some y ∧ y.checkpointSeq = x.checkpointSeq := by
  obtain ⟨hks, rs, rfl⟩ := statementText_eq hs
  obtain ⟨hku, ru, htext⟩ := statementText_eq hu
  obtain ⟨hkind, hsarg⟩ := cosignOf_eq hx
  have hafter := cut_bar (free_trustKind hks) (free_trustKind hku) ((String.append_right_inj _).mp htext)
  obtain ⟨fu, husome⟩ := hcosign (hafter.1 ▸ hkind)
  obtain ⟨y, hy⟩ := Option.isSome_iff_exists.mp husome
  have hkey := cut_bar fs fu ((String.append_right_inj _).mp ((String.append_right_inj _).mp hafter.2))
  have harg := hkey.2
  rw [hsarg, (cosignOf_eq hy).2, Option.map_some, Option.map_some, Option.getD_some, Option.getD_some] at harg
  have hseq := cut_bar (free_int (by decide) (by decide) _) (free_int (by decide) (by decide) _) harg
  exact ⟨y, hy, (int_text_injective hseq.1).symm⟩

variable {trust : TrustState} {truth : Truth} {rows : List Attestation}

lemma countValid_cosigned {summary next : AttestationSummary} {a : Attestation}
    (h : countValid summary a = .ok next) : next.cosignedCheckpointSeq = summary.cosignedCheckpointSeq := by
  unfold countValid at h
  by_cases hblock : a.kind = "block"
  · cases hp : parseBlockSubject a.subject with
    | error e => simp [hblock, hp, bind, Except.bind] at h
    | ok parsed =>
      cases parsed <;> simp only [hblock, hp, bind, Except.bind, pure, Except.pure, if_true, Except.ok.injEq] at h <;>
        rw [← h]
  by_cases hreceipt : a.kind = "receipt"
  · simp only [hreceipt, String.reduceEq, if_false, if_true, pure, Except.pure, Except.ok.injEq] at h
    rw [← h]
  · cases hp : parseCheckpointSubject a.subject with
    | error e => simp [hblock, hreceipt, hp, bind, Except.bind] at h
    | ok parsed =>
      cases parsed <;>
        simp only [hblock, hreceipt, hp, bind, Except.bind, pure, Except.pure, if_false, Except.ok.injEq] at h <;>
        rw [← h]

lemma countRow_cosigned {summary next : AttestationSummary} {a : Attestation} {j : Judgement}
    (h : countRow summary a j = .ok next) : next.cosignedCheckpointSeq = summary.cosignedCheckpointSeq := by
  unfold countRow at h
  have hbad : (if j.bad ≠ [] then { summary with badSeqs := summary.badSeqs.insert a.signerSeq }
      else summary).cosignedCheckpointSeq = summary.cosignedCheckpointSeq := by split_ifs <;> rfl
  by_cases hv : j.voided = true
  · simp only [hv, if_true, bind, Except.bind, pure, Except.pure, Except.ok.injEq] at h
    rw [← h]
    exact hbad
  rw [Bool.not_eq_true] at hv
  by_cases hj : j.bad = []
  · cases hc : countValid summary a with
    | error e => simp [hv, hj, hc, bind, Except.bind] at h
    | ok counted =>
      simp only [hv, hj, hc, bind, Except.bind, pure, Except.pure, if_true, ne_eq, not_true_eq_false,
        Bool.false_eq_true, if_false, Except.ok.injEq] at h
      have hcounted := countValid_cosigned hc
      rw [← h]
      exact hcounted
  · simp only [hv, hj, bind, Except.bind, pure, Except.pure, Bool.false_eq_true, if_false, Except.ok.injEq] at h
    rw [← h]
    exact hbad

/-- The rows looked up by number are rows of the log, and the loop cosigns nothing. -/
lemma foldlM_rows {start last : AttestationLoop}
    (h : rows.foldlM (attestationStep verify tenant trust truth) start = .ok last) :
    last.summary.cosignedCheckpointSeq = start.summary.cosignedCheckpointSeq ∧
      ∀ n a, last.bySeq.get n = some a → start.bySeq.get n = some a ∨ (a ∈ rows ∧ a.signerSeq = n) := by
  induction rows generalizing start with
  | nil =>
    obtain rfl := Except.ok.inj h
    exact ⟨rfl, fun n a ha => .inl ha⟩
  | cons r rows ih =>
    rw [List.foldlM_cons] at h
    cases hs : attestationStep verify tenant trust truth start r with
    | error e => simp [hs, bind, Except.bind] at h
    | ok next =>
      simp only [hs, bind, Except.bind] at h
      obtain ⟨hcosigned, hget⟩ := ih h
      obtain ⟨j, -, hrec⟩ := attestationStep_eq hs
      obtain ⟨-, -, hby⟩ := recordRow_eq hrec
      refine ⟨hcosigned.trans ?_, fun n a ha => ?_⟩
      · unfold recordRow at hrec
        cases hc : countRow start.summary r j with
        | error e => simp [hc, bind, Except.bind] at hrec
        | ok summary =>
          simp only [hc, bind, Except.bind, pure, Except.pure, Except.ok.injEq] at hrec
          rw [← hrec]
          exact countRow_cosigned hc
      · rcases hget n a ha with hn | ⟨hmem, hseq⟩
        · rw [hby, Dict.get_set] at hn
          split_ifs at hn with hrn
          · obtain rfl := Option.some.inj hn
            exact .inr ⟨by simp, hrn⟩
          · exact .inl hn
        · exact .inr ⟨by simp [hmem], hseq⟩

lemma foldl_cosigns {bySeq : Dict ℤ Attestation} {cosigns : List Cosign} {start : List Problem × AttestationSummary}
    (h : (cosigns.foldl (cosignStep bySeq) start).1 = []) :
    start.1 = [] ∧ (∀ x ∈ cosigns, cosignMatches bySeq x = true) ∧
      ((cosigns.foldl (cosignStep bySeq) start).2.cosignedCheckpointSeq = start.2.cosignedCheckpointSeq ∨
        ∃ x ∈ cosigns,
          x.checkpointSeq = (cosigns.foldl (cosignStep bySeq) start).2.cosignedCheckpointSeq) := by
  induction cosigns generalizing start with
  | nil => exact ⟨h, by simp, .inl rfl⟩
  | cons x cosigns ih =>
    rw [List.foldl_cons] at h ⊢
    obtain ⟨hstart, hall, hseq⟩ := ih h
    by_cases hm : cosignMatches bySeq x = true
    · rw [cosignStep, if_pos hm] at hstart hseq
      refine ⟨hstart, by simpa [hm] using hall, ?_⟩
      rw [cosignStep, if_pos hm]
      rcases hseq with hseq | ⟨y, hy, hyseq⟩
      · rw [hseq]
        rcases le_total start.2.cosignedCheckpointSeq x.checkpointSeq with hle | hle
        · exact .inr ⟨x, by simp, (max_eq_right hle).symm⟩
        · exact .inl (max_eq_left hle)
      · exact .inr ⟨y, by simp [hy], hyseq⟩
    · rw [cosignStep, if_neg hm] at hstart
      simp at hstart

/-- What an attestation log without problems says of the cosignatures. -/
theorem evaluateAttestations_clean {summary : AttestationSummary}
    (h : evaluateAttestations verify tenant trust rows truth = .ok ([], summary)) :
    (∀ x ∈ trust.cosigns, ∃ a ∈ rows, a.signerSeq = x.checkpointSeq ∧ a.kind = "checkpoint" ∧
      a.attestationHash = x.checkpointHash) ∧
    (summary.cosignedCheckpointSeq = 0 ∨ ∃ x ∈ trust.cosigns, x.checkpointSeq = summary.cosignedCheckpointSeq) := by
  unfold evaluateAttestations at h
  cases hf : (bySignerSeq rows).foldlM (attestationStep verify tenant trust truth) AttestationLoop.start with
  | error e => simp [hf, bind, Except.bind] at h
  | ok loop =>
    simp only [hf, bind, Except.bind, pure, Except.pure, Except.ok.injEq] at h
    obtain ⟨hzero, hget⟩ := foldlM_rows hf
    obtain ⟨-, hall, hseq⟩ := foldl_cosigns (congrArg Prod.fst h)
    rw [h] at hseq
    refine ⟨fun x hx => ?_, hseq.imp (fun hz => hz.trans hzero) id⟩
    obtain ⟨a, ha, hmatch⟩ := (Option.any_eq_true ..).mp (hall x hx)
    simp only [Bool.and_eq_true, decide_eq_true_eq] at hmatch
    rcases hget _ _ ha with hnone | ⟨hmem, hnum⟩
    · simp [AttestationLoop.start] at hnone
    · exact ⟨a, (List.mergeSort_perm rows _).mem_iff.mp hmem, hnum, hmatch⟩

end ContinuityLedger.Signatures
