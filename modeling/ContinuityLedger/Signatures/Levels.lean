import ContinuityLedger.Foundations.Delimited
import ContinuityLedger.Foundations.HashChain
import ContinuityLedger.Signatures.Attestations

/-! What level 2 vouches for. The level compares numbers; what a cosigned checkpoint commits to is a path of hashes
from its covered head back through the rows. The two agree while every row between continues the one before it. -/

namespace ContinuityLedger.Signatures

open Foundations Foundations.Sha256 Foundations.HashChain Foundations.Delimited Foundations.PyText

/-- The text a row's hash is taken over, where its message can be built. -/
def signedText (tenant : String) (a : Attestation) : Option String :=
  match attestationMessage a.kind tenant a.subject a.subjectHash a.signerSeq a.prevHash a.signedAt with
  | .error _ => none
  | .ok message => some (message ++ "\n" ++ a.keyId ++ "\n" ++ normalizeSignature a.signature)

/-- A row's hash, recomputed from its own fields. -/
def recomputed (tenant : String) (a : Attestation) : Option String :=
  (signedText tenant a).map fun text => (sha256Hex text).text

/-- Following `prev_hash` back from a hash, over rows that recompute to the hash they are looked up by. -/
inductive Reaches (tenant : String) (rows : List Attestation) (target : Attestation) : String → Prop
  | here {h : String} : target ∈ rows → recomputed tenant target = some h → Reaches tenant rows target h
  | back {h : String} {a : Attestation} : a ∈ rows → recomputed tenant a = some h →
      Reaches tenant rows target a.prevHash → Reaches tenant rows target h

section Log

variable (verify : Verifier) (tenant : String) (trust : TrustState) (truth : Truth) (rows : List Attestation)

/-- The loop finds nothing wrong with `a` where it stands after `pre`. -/
def CountedAfter (pre : List Attestation) (a : Attestation) : Prop :=
  ∃ loop, pre.foldlM (attestationStep verify tenant trust truth) AttestationLoop.start = .ok loop ∧
    judge verify tenant trust truth loop a = .ok ⟨[], false⟩

def Counted (a : Attestation) : Prop :=
  ∃ pre post, bySignerSeq rows = pre ++ a :: post ∧ CountedAfter verify tenant trust truth pre a

/-- A root's statement names this very row. -/
def Cosigned (c : Attestation) : Prop :=
  ∃ x ∈ trust.cosigns, x.checkpointSeq = c.signerSeq ∧ x.checkpointHash = c.attestationHash

/-- A valid, cosigned checkpoint whose covered head leads back to the row. -/
def Committed (a : Attestation) : Prop :=
  ∃ c cp, Counted verify tenant trust truth rows c ∧ c.kind = "checkpoint" ∧ Cosigned trust c ∧
    parseCheckpointSubject c.subject = .ok (some cp) ∧ Reaches tenant rows a cp.coveredHead

/-- `s` is the number under which the summary holds the valid attestation of a block or a receipt, at level 2. -/
def LevelTwo (s : ℤ) : Prop :=
  ∃ problems summary, evaluateAttestations verify tenant trust rows truth = .ok (problems, summary) ∧
    ((∃ h, summary.blockSeq.get h = some s) ∨ ∃ r, summary.receiptSeq.get r = some s) ∧
    attestationLevel summary (some s) = 2

def LevelTwoSound : Prop :=
  ∀ s, LevelTwo verify tenant trust truth rows s →
    ∃ a, a.signerSeq = s ∧ Counted verify tenant trust truth rows a ∧ Committed verify tenant trust truth rows a

/-- After a row of level 2 comes a valid, cosigned checkpoint, and every row between them continues the stored hash
of the row before it and recomputes to its own. -/
def LevelTwoIntact : Prop :=
  ∀ s, LevelTwo verify tenant trust truth rows s →
    ∃ pre a mid c post, bySignerSeq rows = pre ++ a :: mid ++ c :: post ∧ a.signerSeq = s ∧ 1 ≤ s ∧
      CountedAfter verify tenant trust truth pre a ∧
      CountedAfter verify tenant trust truth (pre ++ a :: mid) c ∧ c.kind = "checkpoint" ∧ Cosigned trust c ∧
      Linked Attestation.prevHash Attestation.attestationHash a.attestationHash mid ∧
      ∀ k ∈ mid, recomputed tenant k = some k.attestationHash

end Log

variable {verify : Verifier} {tenant : String} {trust : TrustState} {truth : Truth} {rows : List Attestation}

lemma foldlM_concat {pre : List Attestation} {r : Attestation} {start loop : AttestationLoop}
    (h : (pre ++ [r]).foldlM (attestationStep verify tenant trust truth) start = .ok loop) :
    loop.expected = r.signerSeq + 1 ∧ loop.last = r.attestationHash ∧ loop.bySeq.get r.signerSeq = some r := by
  rw [List.foldlM_append] at h
  cases hm : pre.foldlM (attestationStep verify tenant trust truth) start with
  | error e => simp [hm, bind, Except.bind] at h
  | ok mid =>
    simp only [hm, bind, Except.bind, List.foldlM_cons, List.foldlM_nil] at h
    cases hs : attestationStep verify tenant trust truth mid r with
    | error e => simp [hs] at h
    | ok last =>
      simp only [hs, pure, Except.pure, Except.ok.injEq] at h
      subst h
      obtain ⟨j, -, hr⟩ := attestationStep_eq hs
      obtain ⟨he, hl, hb⟩ := recordRow_eq hr
      exact ⟨he, hl, by rw [hb, Dict.get_set_self]⟩

/-- What a clean judgement says of a row. -/
lemma judge_clean {loop : AttestationLoop} {a : Attestation}
    (h : judge verify tenant trust truth loop a = .ok ⟨[], false⟩) :
    a.signerSeq = loop.expected ∧ a.prevHash = loop.last ∧ recomputed tenant a = some a.attestationHash ∧
      checkSubject tenant a loop.bySeq truth = .ok [] := by
  unfold judge at h
  cases hc : contentJudgement verify tenant trust truth loop.bySeq a with
  | error e => simp [hc, bind, Except.bind] at h
  | ok content =>
    simp only [hc, bind, Except.bind, pure, Except.pure, Except.ok.injEq, Judgement.mk.injEq,
      List.append_eq_nil_iff, ite_eq_right_iff, List.cons_ne_nil, imp_false, not_not] at h
    obtain ⟨⟨⟨⟨hseq, hprev⟩, hbad⟩, -⟩, hvoid⟩ := h
    refine ⟨hseq, hprev, ?_⟩
    unfold contentJudgement at hc
    unfold recomputed signedText
    cases hm : attestationMessage a.kind tenant a.subject a.subjectHash a.signerSeq a.prevHash a.signedAt with
    | error e =>
      cases e with
      | attestError code message =>
        simp only [hm, Except.ok.injEq] at hc
        subst hc
        simp at hbad
      | valueError => simp [hm] at hc
    | ok message =>
      simp only [hm] at hc ⊢
      cases hs : checkSubject tenant a loop.bySeq truth with
      | error e =>
        simp only [hs, bind, Except.bind, pure, Except.pure] at hc
        split_ifs at hc with hv
        · obtain rfl := Except.ok.inj hc
          exact absurd hvoid (by simp [hv])
      | ok subject =>
        simp only [hs, bind, Except.bind, pure, Except.pure] at hc
        split_ifs at hc with hv
        · obtain rfl := Except.ok.inj hc
          exact absurd hvoid (by simp [hv])
        · obtain rfl := Except.ok.inj hc
          simp only [List.append_eq_nil_iff] at hbad
          obtain ⟨⟨hhash, -⟩, hsub⟩ := hbad
          refine ⟨?_, by rw [hsub]⟩
          unfold hashJudgement at hhash
          split_ifs at hhash with hne
          simpa [attestationHash] using hne

/-- What a checkpoint's clean subject says. -/
lemma checkSubject_checkpoint {c : Attestation} {bySeq : Dict ℤ Attestation} (hk : c.kind = "checkpoint")
    (h : checkSubject tenant c bySeq truth = .ok []) :
    ∃ cp, parseCheckpointSubject c.subject = .ok (some cp) ∧ (cp.coveredSeq : ℤ) = c.signerSeq - 1 ∧
      (if cp.coveredSeq = 0 then
        if cp.coveredHead ≠ genesis.text then ["the covered head of an empty log is all zeros"] else []
      else if (bySeq.get cp.coveredSeq).all (·.attestationHash ≠ cp.coveredHead) then
        ["the covered head is not the attestation log's actual head at that point"] else []) = [] := by
  unfold checkSubject at h
  simp only [hk, String.reduceEq, if_false] at h
  cases hp : parseCheckpointSubject c.subject with
  | error e => simp [hp, bind, Except.bind] at h
  | ok parsed =>
    cases parsed with
    | none => simp [hp, bind, Except.bind, pure, Except.pure] at h
    | some cp =>
      simp only [hp, bind, Except.bind, pure, Except.pure, Except.ok.injEq] at h
      unfold checkpointProblems at h
      rw [List.append_eq_nil_iff, List.append_eq_nil_iff, List.append_eq_nil_iff] at h
      obtain ⟨⟨⟨hcov, hhead⟩, -⟩, -⟩ := h
      exact ⟨cp, rfl, not_not.mp (complaint_eq_nil.mp hcov), hhead⟩

/-- A valid checkpoint's covered head is the stored hash of the row before it. -/
lemma coveredHead_eq {pre : List Attestation} {r c : Attestation}
    (h : CountedAfter verify tenant trust truth (pre ++ [r]) c) (hk : c.kind = "checkpoint")
    (hr : 1 ≤ r.signerSeq) :
    ∃ cp, parseCheckpointSubject c.subject = .ok (some cp) ∧ cp.coveredHead = r.attestationHash := by
  obtain ⟨loop, hfold, hj⟩ := h
  obtain ⟨hexp, -, hget⟩ := foldlM_concat hfold
  obtain ⟨hseq, -, -, hsub⟩ := judge_clean hj
  obtain ⟨cp, hp, hcov, hhead⟩ := checkSubject_checkpoint hk hsub
  have hcov' : (cp.coveredSeq : ℤ) = r.signerSeq := by omega
  have hpos : cp.coveredSeq ≠ 0 := by omega
  rw [if_neg hpos, hcov', hget] at hhead
  have hhead := complaint_eq_nil.mp hhead
  simp only [Option.all_some, decide_eq_true_eq, ne_eq, not_not] at hhead
  exact ⟨cp, hp, hhead.symm⟩

lemma reaches_tip {a : Attestation} {mid : List Attestation} {h : String} (hr : Reaches tenant rows a h)
    (hl : Linked Attestation.prevHash Attestation.attestationHash h mid) (hin : ∀ k ∈ mid, k ∈ rows)
    (hre : ∀ k ∈ mid, recomputed tenant k = some k.attestationHash) :
    Reaches tenant rows a (tip Attestation.attestationHash h mid) := by
  induction mid generalizing h with
  | nil => exact hr
  | cons k mid ih =>
    obtain ⟨rfl, hl⟩ := hl
    exact ih (.back (hin k (by simp)) (hre k (by simp)) hr) hl (fun j hj => hin j (by simp [hj]))
      (fun j hj => hre j (by simp [hj]))

lemma bySignerSeq_mem {a : Attestation} : a ∈ bySignerSeq rows ↔ a ∈ rows :=
  (List.mergeSort_perm rows _).mem_iff

lemma bySignerSeq_pairwise (rows : List Attestation) :
    (bySignerSeq rows).Pairwise (fun a b => a.signerSeq ≤ b.signerSeq) := by
  refine (List.pairwise_mergeSort (fun a b c hab hbc => ?_) (fun a b => ?_) rows).imp (fun h => ?_)
  · simp only [decide_eq_true_eq] at *
    omega
  · simp only [Bool.or_eq_true, decide_eq_true_eq]
    omega
  · simpa using h

lemma bySignerSeq_eq (h : rows.Pairwise (fun a b => a.signerSeq ≤ b.signerSeq)) : bySignerSeq rows = rows :=
  List.mergeSort_of_pairwise (h.imp fun hab => decide_eq_true hab)

lemma committed_of_intact {pre mid post : List Attestation} {a c : Attestation}
    (hsplit : bySignerSeq rows = pre ++ a :: mid ++ c :: post) (hpos : 1 ≤ a.signerSeq)
    (ha : CountedAfter verify tenant trust truth pre a)
    (hc : CountedAfter verify tenant trust truth (pre ++ a :: mid) c) (hk : c.kind = "checkpoint")
    (hcos : Cosigned trust c)
    (hl : Linked Attestation.prevHash Attestation.attestationHash a.attestationHash mid)
    (hre : ∀ k ∈ mid, recomputed tenant k = some k.attestationHash) :
    Committed verify tenant trust truth rows a := by
  have hin : ∀ k ∈ a :: mid, k ∈ rows := by
    intro k hkm
    rw [← bySignerSeq_mem, hsplit]
    simp only [List.mem_append, List.mem_cons] at hkm ⊢
    tauto
  have hstart : Reaches tenant rows a a.attestationHash := by
    obtain ⟨loop, -, hj⟩ := ha
    exact .here (hin a (by simp)) (judge_clean hj).2.2.1
  -- the row just before the checkpoint
  obtain ⟨init, r, hinit⟩ : ∃ init r, pre ++ a :: mid = init ++ [r] := by
    rcases List.eq_nil_or_concat (pre ++ a :: mid) with h | ⟨init, r, h⟩
    · simp at h
    · exact ⟨init, r, by simpa using h⟩
  have hlast : (a :: mid).getLast? = some r := by
    have hg := congrArg List.getLast? hinit
    rwa [List.getLast?_append_of_ne_nil _ (by simp), List.getLast?_concat] at hg
  have hrpos : 1 ≤ r.signerSeq := by
    have hp := bySignerSeq_pairwise rows
    rw [hsplit, List.pairwise_append, List.pairwise_append] at hp
    obtain ⟨⟨-, hmid, -⟩, -⟩ := hp
    rcases List.mem_cons.mp (List.mem_of_getLast? hlast) with rfl | hr
    · exact hpos
    · exact hpos.trans (List.rel_of_pairwise_cons hmid hr)
  obtain ⟨cp, hparse, hhead⟩ := coveredHead_eq (hinit ▸ hc) hk hrpos
  refine ⟨c, cp, ⟨_, _, hsplit, hc⟩, hk, hcos, hparse, ?_⟩
  have htip : tip Attestation.attestationHash a.attestationHash mid = r.attestationHash := by
    rw [tip_eq_getLast?]
    cases mid with
    | nil => simpa using congrArg (Option.map Attestation.attestationHash) hlast
    | cons k mid =>
      rw [List.getLast?_cons_cons] at hlast
      simp [hlast]
  rw [hhead, ← htip]
  exact reaches_tip hstart hl (fun k hk => hin k (by simp [hk])) hre

/-- The converse needs a log in which broken rows lead nowhere: distinct numbers from one, no collision among the
texts that are hashed, and a stored hash that does not recompute, or a link that is broken, names no row at all. -/
structure BreaksDangle (tenant : String) (rows : List Attestation) : Prop where
  numbered : ∀ a ∈ rows, 1 ≤ a.signerSeq
  distinct : (rows.map Attestation.signerSeq).Nodup
  collisionFree : ∀ a ∈ rows, ∀ b ∈ rows, ∀ t u, signedText tenant a = some t → signedText tenant b = some u →
    (sha256Hex t).text = (sha256Hex u).text → t = u
  zeros : ∀ a ∈ rows, recomputed tenant a ≠ some genesis.text
  hashes : ∀ k ∈ rows, recomputed tenant k ≠ some k.attestationHash →
    ∀ b ∈ rows, recomputed tenant b ≠ some k.attestationHash
  links : ∀ pre k post, bySignerSeq rows = pre ++ k :: post →
    k.prevHash ≠ tip Attestation.attestationHash genesis.text pre →
      ∀ b ∈ rows, recomputed tenant b ≠ some k.prevHash

lemma signedText_eq {a : Attestation} {t : String} (h : signedText tenant a = some t) :
    a.kind ∈ attestKinds ∧ Free '|' a.subject ∧ Free '|' a.subjectHash ∧
      ∃ rest, t = "jarvis-attest|v1|" ++ (a.kind ++ ("|" ++ (tenantPart tenant ++ ("|" ++ (a.subject ++ ("|" ++
        (a.subjectHash ++ ("|" ++ (toString a.signerSeq ++ ("|" ++ rest)))))))))) := by
  unfold signedText at h
  cases hm : attestationMessage a.kind tenant a.subject a.subjectHash a.signerSeq a.prevHash a.signedAt with
  | error e => simp [hm] at h
  | ok message =>
    obtain ⟨hkind, hsub, hhash, -, rfl⟩ := attestationMessage_eq hm
    simp only [hm, Option.some.injEq] at h
    refine ⟨hkind, hsub, hhash, a.prevHash ++ ("|" ++ (a.signedAt ++ ("\n" ++ (a.keyId ++ ("\n" ++
      normalizeSignature a.signature))))), ?_⟩
    rw [← h]
    simp only [String.append_assoc]

lemma free_kind {kind : String} (h : kind ∈ attestKinds) : Free '|' kind := by
  simp only [attestKinds, List.mem_cons, List.not_mem_nil, or_false] at h
  rcases h with rfl | rfl | rfl <;> simp [Free]

/-- The text that is hashed tells the row's number. -/
lemma signedText_seq {a b : Attestation} {t : String} (ha : signedText tenant a = some t)
    (hb : signedText tenant b = some t) : a.signerSeq = b.signerSeq := by
  obtain ⟨hka, hsa, hha, ra, rfl⟩ := signedText_eq ha
  obtain ⟨hkb, hsb, hhb, rb, htext⟩ := signedText_eq hb
  have hkind := cut_bar (free_kind hka) (free_kind hkb) ((String.append_right_inj _).mp htext)
  have hafter := (String.append_right_inj _).mp hkind.2
  have hsubject := cut_bar hsa hsb ((String.append_right_inj _).mp hafter)
  have hhash := cut_bar hha hhb hsubject.2
  have hseq := cut_bar (free_int (by decide) (by decide) a.signerSeq)
    (free_int (by decide) (by decide) b.signerSeq) hhash.2
  exact int_text_injective hseq.1

lemma BreaksDangle.row_eq (h : BreaksDangle tenant rows) {a b : Attestation} (ha : a ∈ rows) (hb : b ∈ rows)
    {x : String} (hxa : recomputed tenant a = some x) (hxb : recomputed tenant b = some x) : a = b := by
  obtain ⟨t, ht, rfl⟩ := Option.map_eq_some_iff.mp hxa
  obtain ⟨u, hu, hux⟩ := Option.map_eq_some_iff.mp hxb
  obtain rfl := h.collisionFree a ha b hb t u ht hu hux.symm
  exact List.inj_on_of_nodup_map h.distinct ha hb (signedText_seq ht hu)

lemma Reaches.row {a : Attestation} {x : String} (h : Reaches tenant rows a x) :
    ∃ b ∈ rows, recomputed tenant b = some x := by
  cases h with
  | here ha hx => exact ⟨a, ha, hx⟩
  | back hb hx _ => exact ⟨_, hb, hx⟩

/-- A path back from the end of a stretch of the log is the stretch itself, row by row. -/
lemma BreaksDangle.path (h : BreaksDangle tenant rows) {a : Attestation} {pre post : List Attestation}
    (hs : bySignerSeq rows = pre ++ post)
    (hr : Reaches tenant rows a (tip Attestation.attestationHash genesis.text pre)) :
    ∃ init mid, pre = init ++ a :: mid ∧
      Linked Attestation.prevHash Attestation.attestationHash a.attestationHash mid ∧
      ∀ k ∈ mid, recomputed tenant k = some k.attestationHash := by
  induction pre using List.reverseRecOn generalizing post with
  | nil =>
    obtain ⟨b, hb, hx⟩ := hr.row
    exact absurd hx (h.zeros b hb)
  | append_singleton pre r ih =>
    rw [tip_append_singleton] at hr
    have hsplit : bySignerSeq rows = pre ++ r :: post := by simpa using hs
    have hrmem : r ∈ rows := by
      rw [← bySignerSeq_mem, hsplit]
      simp
    have hre : recomputed tenant r = some r.attestationHash := by
      by_contra hne
      obtain ⟨b, hb, hx⟩ := hr.row
      exact h.hashes r hrmem hne b hb hx
    cases hr with
    | here ha hx =>
      obtain rfl := h.row_eq ha hrmem hx hre
      exact ⟨pre, [], rfl, trivial, by simp⟩
    | @back _ b hb hx hback =>
      have hbr : b = r := h.row_eq hb hrmem hx hre
      rw [hbr] at hback
      have hlink : r.prevHash = tip Attestation.attestationHash genesis.text pre := by
        by_contra hne
        obtain ⟨b, hb, hx⟩ := hback.row
        exact h.links pre r post hsplit hne b hb hx
      obtain ⟨init, mid, rfl, hl, hmid⟩ := ih hsplit (hlink ▸ hback)
      refine ⟨init, mid ++ [r], by simp, ?_, ?_⟩
      · rw [linked_append_singleton]
        refine ⟨hl, hlink.trans ?_⟩
        simp [tip]
      · simpa [or_imp, forall_and] using ⟨hmid, hre⟩

/-- Of one row there is one place in the log. -/
lemma split_unique {l p q u v : List Attestation} {a : Attestation} (hn : l.Nodup) (h₁ : l = p ++ a :: u)
    (h₂ : l = q ++ a :: v) : p = q := by
  have hp : a ∉ p := by
    rw [h₁, List.nodup_append] at hn
    exact fun ha => hn.2.2 a ha a (by simp) rfl
  have hq : a ∉ q := by
    rw [h₂, List.nodup_append] at hn
    exact fun ha => hn.2.2 a ha a (by simp) rfl
  exact (cut hp hq (h₁.symm.trans h₂)).1

/-- A first checkpoint covers nothing. -/
lemma coveredHead_first {c : Attestation} (h : CountedAfter verify tenant trust truth [] c)
    (hk : c.kind = "checkpoint") :
    ∃ cp, parseCheckpointSubject c.subject = .ok (some cp) ∧ cp.coveredHead = genesis.text := by
  obtain ⟨loop, hfold, hj⟩ := h
  obtain rfl := Except.ok.inj hfold
  obtain ⟨hseq, -, -, hsub⟩ := judge_clean hj
  obtain ⟨cp, hp, hcov, hhead⟩ := checkSubject_checkpoint hk hsub
  have hzero : cp.coveredSeq = 0 := by
    have hone : AttestationLoop.start.expected = 1 := rfl
    omega
  rw [if_pos hzero] at hhead
  exact ⟨cp, hp, not_not.mp (complaint_eq_nil.mp hhead)⟩

lemma coveredHead_tip (h : BreaksDangle tenant rows) {pre post : List Attestation} {c : Attestation}
    (hs : bySignerSeq rows = pre ++ c :: post) (hc : CountedAfter verify tenant trust truth pre c)
    (hk : c.kind = "checkpoint") :
    ∃ cp, parseCheckpointSubject c.subject = .ok (some cp) ∧
      cp.coveredHead = tip Attestation.attestationHash genesis.text pre := by
  rcases List.eq_nil_or_concat pre with rfl | ⟨init, r, rfl⟩
  · exact coveredHead_first hc hk
  · rw [List.concat_eq_append] at hs hc ⊢
    have hr : r ∈ rows := by
      rw [← bySignerSeq_mem, hs]
      simp
    rw [tip_append_singleton]
    exact coveredHead_eq hc hk (h.numbered r hr)

lemma intact_of_committed (h : BreaksDangle tenant rows) {a : Attestation}
    (ha : Counted verify tenant trust truth rows a) (hcom : Committed verify tenant trust truth rows a) :
    ∃ pre mid c post, bySignerSeq rows = pre ++ a :: mid ++ c :: post ∧
      CountedAfter verify tenant trust truth pre a ∧
      CountedAfter verify tenant trust truth (pre ++ a :: mid) c ∧ c.kind = "checkpoint" ∧ Cosigned trust c ∧
      Linked Attestation.prevHash Attestation.attestationHash a.attestationHash mid ∧
      ∀ k ∈ mid, recomputed tenant k = some k.attestationHash := by
  obtain ⟨c, cp, ⟨before, post, hsc, hc⟩, hk, hcos, hparse, hreach⟩ := hcom
  obtain ⟨cp', hparse', hhead⟩ := coveredHead_tip h hsc hc hk
  obtain rfl : cp = cp' := by simpa [hparse] using hparse'
  rw [hhead] at hreach
  obtain ⟨pre, mid, rfl, hl, hmid⟩ := h.path hsc hreach
  obtain ⟨pre', post', hsa, hca⟩ := ha
  have hn : (bySignerSeq rows).Nodup :=
    ((List.mergeSort_perm rows _).nodup_iff).mpr (List.Nodup.of_map _ h.distinct)
  obtain rfl := split_unique hn hsa (hsc.trans (by simp) : bySignerSeq rows = pre ++ a :: (mid ++ c :: post))
  exact ⟨pre', mid, c, post, hsc, hca, hc, hk, hcos, hl, hmid⟩

theorem levelTwo_sound_iff :
    (LevelTwoIntact verify tenant trust truth rows → LevelTwoSound verify tenant trust truth rows) ∧
      (BreaksDangle tenant rows → LevelTwoSound verify tenant trust truth rows →
        LevelTwoIntact verify tenant trust truth rows) := by
  constructor
  · intro h s hs
    obtain ⟨pre, a, mid, c, post, hsplit, rfl, hpos, ha, hc, hk, hcos, hl, hre⟩ := h s hs
    refine ⟨a, rfl, ⟨pre, mid ++ c :: post, by simpa using hsplit, ha⟩, ?_⟩
    exact committed_of_intact hsplit hpos ha hc hk hcos hl hre
  · intro hb h s hs
    obtain ⟨a, rfl, ha, hcom⟩ := h s hs
    obtain ⟨pre, mid, c, post, hsplit, hrest⟩ := intact_of_committed hb ha hcom
    have hmem : a ∈ rows := by
      rw [← bySignerSeq_mem, hsplit]
      simp
    exact ⟨pre, a, mid, c, post, hsplit, rfl, hb.numbered a hmem, hrest⟩

/-- The loop with what it finds of each row. -/
def trace (verify : Verifier) (tenant : String) (trust : TrustState) (truth : Truth) :
    AttestationLoop → List Attestation → Except Raised (List Judgement × AttestationLoop)
  | loop, [] => .ok ([], loop)
  | loop, a :: rows => do
    let j ← judge verify tenant trust truth loop a
    let next ← recordRow loop a j
    let (js, last) ← trace verify tenant trust truth next rows
    pure (j :: js, last)

lemma trace_cons {loop last : AttestationLoop} {a : Attestation} {js : List Judgement}
    (h : trace verify tenant trust truth loop (a :: rows) = .ok (js, last)) :
    ∃ j next js', judge verify tenant trust truth loop a = .ok j ∧
      attestationStep verify tenant trust truth loop a = .ok next ∧
      trace verify tenant trust truth next rows = .ok (js', last) ∧ js = j :: js' := by
  unfold trace at h
  cases hj : judge verify tenant trust truth loop a with
  | error e => simp [hj, bind, Except.bind] at h
  | ok j =>
    cases hr : recordRow loop a j with
    | error e => simp [hj, hr, bind, Except.bind] at h
    | ok next =>
      cases ht : trace verify tenant trust truth next rows with
      | error e => simp [hj, hr, ht, bind, Except.bind] at h
      | ok out =>
        simp only [hj, hr, ht, bind, Except.bind, pure, Except.pure, Except.ok.injEq, Prod.mk.injEq] at h
        refine ⟨j, next, out.1, rfl, ?_, by rw [ht, ← h.2], h.1.symm⟩
        simp only [attestationStep, hj, bind, Except.bind, hr]

lemma trace_foldlM {loop last : AttestationLoop} {js : List Judgement}
    (h : trace verify tenant trust truth loop rows = .ok (js, last)) :
    rows.foldlM (attestationStep verify tenant trust truth) loop = .ok last := by
  induction rows generalizing loop js with
  | nil =>
    simp only [trace, Except.ok.injEq, Prod.mk.injEq] at h
    rw [← h.2]
    rfl
  | cons a rows ih =>
    obtain ⟨j, next, js', -, hs, ht, -⟩ := trace_cons h
    simp only [List.foldlM_cons, hs, bind, Except.bind]
    exact ih ht

lemma trace_judge {loop last : AttestationLoop} {pre post : List Attestation} {a : Attestation}
    {js : List Judgement} (h : trace verify tenant trust truth loop (pre ++ a :: post) = .ok (js, last)) :
    ∃ mid j, pre.foldlM (attestationStep verify tenant trust truth) loop = .ok mid ∧
      judge verify tenant trust truth mid a = .ok j ∧ js[pre.length]? = some j := by
  induction pre generalizing loop js with
  | nil =>
    obtain ⟨j, next, js', hj, -, -, rfl⟩ := trace_cons h
    exact ⟨loop, j, rfl, hj, rfl⟩
  | cons b pre ih =>
    obtain ⟨j, next, js', -, hs, ht, rfl⟩ := trace_cons h
    obtain ⟨mid, k, hm, hk, hget⟩ := ih ht
    refine ⟨mid, k, ?_, hk, by simpa using hget⟩
    simp only [List.foldlM_cons, hs, bind, Except.bind]
    exact hm

/-- A row whose place in the trace is clean is counted there. -/
lemma countedAfter_of_trace {last : AttestationLoop} {pre post : List Attestation} {a : Attestation}
    {js : List Judgement}
    (h : trace verify tenant trust truth AttestationLoop.start (pre ++ a :: post) = .ok (js, last))
    (hj : js[pre.length]? = some ⟨[], false⟩) : CountedAfter verify tenant trust truth pre a := by
  obtain ⟨mid, j, hm, hk, hget⟩ := trace_judge h
  obtain rfl : j = ⟨[], false⟩ := Option.some.inj (hget.symm.trans hj)
  exact ⟨mid, hm, hk⟩

lemma evaluate_of_trace {last : AttestationLoop} {js : List Judgement}
    (hs : rows.Pairwise (fun a b => a.signerSeq ≤ b.signerSeq))
    (h : trace verify tenant trust truth AttestationLoop.start rows = .ok (js, last)) :
    evaluateAttestations verify tenant trust rows truth =
      .ok (trust.cosigns.foldl (cosignStep last.bySeq) (last.problems, last.summary)) := by
  unfold evaluateAttestations
  rw [bySignerSeq_eq hs, trace_foldlM h]
  rfl

lemma ok_of_toOption {E A B : Type} {r : Except E A} {f : A → B} {b : B} (h : r.toOption.map f = some b) :
    ∃ a, r = .ok a ∧ f a = b := by
  cases r with
  | error e => cases h
  | ok a => exact ⟨a, rfl, Option.some.inj h⟩

def mintKey : PublicKey := ⟨[], [], "mint", ""⟩

def trustAll : Verifier := fun _ _ => .ok mintKey

def twoBlocks : Truth := ⟨fun h => if h = 1 ∨ h = 2 then some genesis.text else none, fun _ => none⟩

def blockRow (seq : ℤ) (subject prev signedAt own : String) : Attestation :=
  ⟨seq, "block", subject, genesis.text, prev, "mint", signedAt, "signature", own⟩

def firstRow : Attestation :=
  blockRow 1 "block:1" genesis.text "2026-10-07T12:00:00Z"
    "913e85d613fae6f5dfc792581f822813efb393ea999da17a72d67a943de06aea"

/-- The same row signed again at another time: a row with another hash. -/
def replacedRow : Attestation :=
  blockRow 1 "block:1" genesis.text "2026-10-07T13:00:00Z"
    "a6f828a4dff4a66820c9e57c93de0fe5b4151c9b557a508c1527386bc577b724"

def earlyCheckpoint : Attestation :=
  ⟨2, "checkpoint", checkpointSubject 1 firstRow.attestationHash 0 genesis.text,
    (checkpointHash "operator" 1 firstRow.attestationHash 0 genesis.text).text, firstRow.attestationHash, "mint",
    "2026-10-07T12:00:00Z", "signature", "f19b26ade9b393f3dd6c997197e5d0e2f0b1ff2a53ffb5a8f5c764567c22e4b8"⟩

def secondRow : Attestation :=
  blockRow 2 "block:2" firstRow.attestationHash "2026-10-07T12:00:00Z"
    "272f41c6bc4e73a46007213495029b892549826a2f8831d862de4fd3a0d76109"

def checkpointRow : Attestation :=
  ⟨3, "checkpoint", checkpointSubject 2 secondRow.attestationHash 0 genesis.text,
    (checkpointHash "operator" 2 secondRow.attestationHash 0 genesis.text).text, secondRow.attestationHash, "mint",
    "2026-10-07T12:00:00Z", "signature", "5ba9430ce0f663a6ddfdcd8ea770bb3a74a83188a4820f084b292c7cea94d4ee"⟩

/-- A root cosigned this checkpoint. -/
def cosigning (c : Attestation) : TrustState where
  roots := []
  keys := [("mint", ⟨mintKey, 1, 1, none⟩)]
  cosigns := [⟨c.signerSeq, c.attestationHash, "root", 2⟩]
  voids := []
  problems := []
  headSeq := 2
  headHash := genesis.text

/-- The summary that the evaluation ends with. -/
def summaryAfter (trust : TrustState) (last : AttestationLoop) : AttestationSummary :=
  (trust.cosigns.foldl (cosignStep last.bySeq) (last.problems, last.summary)).2

def linkProblem : String :=
  "prev_hash does not match the previous attestation (one was removed, reordered or altered)"

def honestLog : List Attestation := [firstRow, earlyCheckpoint]

lemma honestLog_trace : ∃ last,
    trace trustAll "operator" (cosigning earlyCheckpoint) twoBlocks AttestationLoop.start honestLog =
      .ok ([⟨[], false⟩, ⟨[], false⟩], last) ∧
    (summaryAfter (cosigning earlyCheckpoint) last).blockSeq = [(1, 1)] ∧
    (summaryAfter (cosigning earlyCheckpoint) last).receiptSeq = [] := by
  have h : ((trace trustAll "operator" (cosigning earlyCheckpoint) twoBlocks AttestationLoop.start
      honestLog).toOption.map fun out => (out.1, (summaryAfter (cosigning earlyCheckpoint) out.2).blockSeq,
        (summaryAfter (cosigning earlyCheckpoint) out.2).receiptSeq)) =
      some ([⟨[], false⟩, ⟨[], false⟩], [(1, 1)], []) := by decide +kernel
  obtain ⟨⟨js, last⟩, ht, hout⟩ := ok_of_toOption h
  obtain ⟨rfl, hblocks, hreceipts⟩ : js = _ ∧ _ = _ ∧ _ = _ := by simpa only [Prod.mk.injEq] using hout
  exact ⟨last, ht, hblocks, hreceipts⟩

lemma honestLog_intact :
    LevelTwoIntact trustAll "operator" (cosigning earlyCheckpoint) twoBlocks honestLog := by
  obtain ⟨last, htrace, hblocks, hreceipts⟩ := honestLog_trace
  rintro s ⟨problems, summary, he, hs, -⟩
  rw [evaluate_of_trace (by decide) htrace, Except.ok.injEq] at he
  obtain rfl : summary = summaryAfter (cosigning earlyCheckpoint) last := (congrArg Prod.snd he).symm
  rw [hblocks, hreceipts] at hs
  obtain rfl : s = 1 := by
    rcases hs with ⟨h, hs⟩ | ⟨r, hs⟩
    · have hmem := Dict.get_mem hs
      simp only [List.mem_singleton, Prod.mk.injEq] at hmem
      exact hmem.2
    · exact absurd (Dict.get_mem hs) (by simp)
  refine ⟨[], firstRow, [], earlyCheckpoint, [], bySignerSeq_eq (by decide), rfl, le_refl _,
    countedAfter_of_trace htrace rfl, @countedAfter_of_trace _ _ _ _ _ [firstRow] _ _ _ htrace rfl, rfl,
    ⟨⟨2, earlyCheckpoint.attestationHash, "root", 2⟩, ?_, rfl, rfl⟩, trivial, by simp⟩
  simp [cosigning, earlyCheckpoint]

lemma honestLog_dangles : BreaksDangle "operator" honestLog := by
  obtain ⟨last, htrace, -⟩ := honestLog_trace
  have hfirst : recomputed "operator" firstRow = some firstRow.attestationHash := by
    obtain ⟨loop, -, hj⟩ := @countedAfter_of_trace _ _ _ _ _ [] _ _ _ htrace rfl
    exact (judge_clean hj).2.2.1
  have hearly : recomputed "operator" earlyCheckpoint = some earlyCheckpoint.attestationHash := by
    obtain ⟨loop, -, hj⟩ := @countedAfter_of_trace _ _ _ _ _ [firstRow] _ _ _ htrace rfl
    exact (judge_clean hj).2.2.1
  have hrow : ∀ b ∈ honestLog, recomputed "operator" b = some b.attestationHash := by
    simpa [honestLog] using ⟨hfirst, hearly⟩
  refine ⟨by decide, by decide, ?_, ?_, ?_, ?_⟩
  · intro a ha b hb t u ht hu htu
    have hta := hrow a ha
    have hub := hrow b hb
    rw [recomputed, ht, Option.map_some, Option.some.injEq] at hta
    rw [recomputed, hu, Option.map_some, Option.some.injEq] at hub
    have hab : a = b := by
      rw [hta, hub] at htu
      simp only [honestLog, List.mem_cons, List.not_mem_nil, or_false] at ha hb
      rcases ha with rfl | rfl
      · rcases hb with rfl | rfl
        · rfl
        · exact absurd htu (by decide)
      · rcases hb with rfl | rfl
        · exact absurd htu (by decide)
        · rfl
    rw [hab, hu] at ht
    exact (Option.some.inj ht).symm
  · intro a ha he
    rw [hrow a ha, Option.some.injEq] at he
    revert a
    decide
  · exact fun k hk hne => absurd (hrow k hk) hne
  · intro pre k post hs hne
    rw [bySignerSeq_eq (by decide)] at hs
    rcases pre with - | ⟨a, - | ⟨b, pre⟩⟩
    · simp only [honestLog, List.nil_append, List.cons.injEq] at hs
      exact absurd (by rw [← hs.1]; rfl) hne
    · simp only [honestLog, List.cons_append, List.nil_append, List.cons.injEq] at hs
      exact absurd (by rw [← hs.1, ← hs.2.1]; rfl) hne
    · exact absurd (congrArg List.length hs) (by simp [honestLog])

theorem levelTwo_sound_iff_honestLog :
    LevelTwoSound trustAll "operator" (cosigning earlyCheckpoint) twoBlocks honestLog ∧
      LevelTwoIntact trustAll "operator" (cosigning earlyCheckpoint) twoBlocks honestLog := by
  have hsound := levelTwo_sound_iff.1 honestLog_intact
  exact ⟨hsound, levelTwo_sound_iff.2 honestLog_dangles hsound⟩

def replacedLog : List Attestation := [replacedRow, secondRow, checkpointRow]

/-- Only the row after the replaced one is found wanting. -/
lemma replacedLog_trace : ∃ last,
    trace trustAll "operator" (cosigning checkpointRow) twoBlocks AttestationLoop.start replacedLog =
      .ok ([⟨[], false⟩, ⟨[linkProblem], false⟩, ⟨[], false⟩], last) ∧
    (summaryAfter (cosigning checkpointRow) last).blockSeq.get 1 = some 1 ∧
    attestationLevel (summaryAfter (cosigning checkpointRow) last) (some 1) = 2 := by
  have h : ((trace trustAll "operator" (cosigning checkpointRow) twoBlocks AttestationLoop.start
      replacedLog).toOption.map fun out => (out.1, (summaryAfter (cosigning checkpointRow) out.2).blockSeq.get 1,
        attestationLevel (summaryAfter (cosigning checkpointRow) out.2) (some 1))) =
      some ([⟨[], false⟩, ⟨[linkProblem], false⟩, ⟨[], false⟩], some 1, 2) := by decide +kernel
  obtain ⟨⟨js, last⟩, ht, hout⟩ := ok_of_toOption h
  obtain ⟨rfl, hseq, hlevel⟩ : js = _ ∧ _ = _ ∧ _ = _ := by simpa only [Prod.mk.injEq] using hout
  exact ⟨last, ht, hseq, hlevel⟩

/-- A root cosigned the log as it was; the first row was then replaced by one that is signed as well. -/
theorem levelTwo_unsound : ¬ LevelTwoSound trustAll "operator" (cosigning checkpointRow) twoBlocks replacedLog := by
  obtain ⟨last, htrace, hseq, hlevel⟩ := replacedLog_trace
  have hcounted : ∀ pre a post, replacedLog = pre ++ a :: post →
      ([⟨[], false⟩, ⟨[linkProblem], false⟩, ⟨[], false⟩] : List Judgement)[pre.length]? = some ⟨[], false⟩ →
      recomputed "operator" a = some a.attestationHash := by
    intro pre a post hsplit hj
    obtain ⟨loop, -, hclean⟩ := countedAfter_of_trace (hsplit ▸ htrace) hj
    exact (judge_clean hclean).2.2.1
  have hrow : ∀ b ∈ replacedLog, recomputed "operator" b = some b.attestationHash := by
    have hfirst := hcounted [] replacedRow [secondRow, checkpointRow] rfl rfl
    have hsecond : recomputed "operator" secondRow = some secondRow.attestationHash := by decide +kernel
    have hthird := hcounted [replacedRow, secondRow] checkpointRow [] rfl rfl
    simpa [replacedLog] using ⟨hfirst, hsecond, hthird⟩
  intro hsound
  obtain ⟨a, ha, _, c, cp, ⟨pre, post, hsplit, _⟩, hk, _, hparse, hreach⟩ :=
    hsound 1 ⟨_, _, evaluate_of_trace (by decide) htrace, .inl ⟨1, hseq⟩, hlevel⟩
  have hc : c = checkpointRow := by
    have hmem : c ∈ replacedLog := by
      rw [← bySignerSeq_mem, hsplit]
      simp
    simp only [replacedLog, List.mem_cons, List.not_mem_nil, or_false] at hmem
    rcases hmem with rfl | rfl | rfl
    · exact absurd hk (by decide)
    · exact absurd hk (by decide)
    · rfl
  have hcover : (parseCheckpointSubject checkpointRow.subject).toOption =
      some (some ⟨2, secondRow.attestationHash, 0, genesis.text⟩) := by decide +kernel
  obtain rfl : cp = ⟨2, secondRow.attestationHash, 0, genesis.text⟩ := by
    rw [← hc, hparse] at hcover
    exact Option.some.inj (Option.some.inj hcover)
  -- no row of the log recomputes to the hash that the second row names
  have hdangles : ∀ b ∈ replacedLog, recomputed "operator" b ≠ some secondRow.prevHash := by
    intro b hb he
    rw [hrow b hb] at he
    revert b
    decide
  have hunique : ∀ b ∈ replacedLog, recomputed "operator" b = some secondRow.attestationHash → b = secondRow := by
    intro b hb he
    rw [hrow b hb] at he
    revert b
    decide
  cases hreach with
  | here hmem hx =>
    obtain rfl := hunique a hmem hx
    exact absurd ha (by decide)
  | back hb hx hback =>
    obtain rfl := hunique _ hb hx
    obtain ⟨b, hb, hx⟩ := hback.row
    exact hdangles b hb hx

end ContinuityLedger.Signatures
