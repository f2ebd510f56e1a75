import ContinuityLedger.Foundations.Checks
import ContinuityLedger.Signatures.Levels
import ContinuityLedger.Signatures.StoreFunctions

/-! Recovery from rows that the database took and verification flags: a root voids each of them by its number and
its hash. The evaluation before the voids and the one after them run side by side. -/

namespace ContinuityLedger.Signatures

open Foundations Foundations.Sha256 Foundations.PyText Foundations.HashChain

/-- The trust state with a void for each of the rows. -/
def TrustState.withVoids (trust : TrustState) (rows : List Attestation) : TrustState :=
  { trust with voids := rows.foldl (fun voids a => voids.set a.signerSeq a.attestationHash) trust.voids }

def flagged (summary : AttestationSummary) (log : List Attestation) : List Attestation :=
  log.filter (fun a => a.signerSeq ∈ summary.badSeqs)

/-- The same counts, with nothing flagged. -/
def AttestationSummary.cleared (summary : AttestationSummary) (voided : List ℤ) : AttestationSummary :=
  { summary with voided := voided, badSeqs := [] }

/-- A void for each flagged row leaves no problem of an attestation, counts what was counted before and no row that
is void. -/
def Recovers (verify : Verifier) (tenant : String) (trust : TrustState) (truth : Truth) (log : List Attestation) :
    Prop :=
  ∃ problems summary problems' summary',
    evaluateAttestations verify tenant trust log truth = .ok (problems, summary) ∧
    evaluateAttestations verify tenant (trust.withVoids (flagged summary log)) log truth = .ok (problems', summary') ∧
    (∀ p ∈ problems', p.check ≠ "attestation") ∧
    summary' = summary.cleared summary'.voided ∧
    ∀ a, (Counted verify tenant (trust.withVoids (flagged summary log)) truth log a ↔
        Counted verify tenant trust truth log a) ∧
      (Counted verify tenant (trust.withVoids (flagged summary log)) truth log a →
        (trust.withVoids (flagged summary log)).voids.get a.signerSeq ≠ some a.attestationHash)

/-- A checkpoint with numbers that are all digits and that `int` still refuses. -/
def Unreadable (a : Attestation) : Prop :=
  a.kind = "checkpoint" ∧ ∃ seq head height tip, split ':' a.subject = ["checkpoint", seq, head, height, tip] ∧
    isdigit seq = true ∧ isdigit height = true ∧ matchesHex64 head = true ∧ matchesHex64 tip = true ∧
    (int seq = none ∨ int height = none)

/-- The hash that the database stored is the one that verification computes. -/
def Hashed (tenant : String) (a : Attestation) : Prop :=
  (attestationHash (a.message tenant) a.keyId a.signature).text = a.attestationHash

variable {verify : Verifier} {tenant : String} {trust other : TrustState} {truth : Truth} {log : List Attestation}

/-- The constraints of the table make every message one that can be built. -/
lemma message_of_checks {a : Attestation} (h : a.checks = true) :
    attestationMessage a.kind tenant a.subject a.subjectHash a.signerSeq a.prevHash a.signedAt =
      .ok (a.message tenant) := by
  simp only [Attestation.checks, Bool.and_eq_true, decide_eq_true_eq, List.contains_iff_mem] at h
  obtain ⟨⟨⟨⟨⟨⟨⟨⟨⟨⟨-, hkind⟩, -⟩, -⟩, hsubject⟩, hhash⟩, hprev⟩, -⟩, hat⟩, -⟩, -⟩ := h
  have hclean : clean a.subject "subject" = .ok a.subject := by
    rw [clean, if_neg]
    intro hany
    obtain ⟨c, hc, hbad⟩ := List.any_eq_true.mp hany
    have hok := List.all_eq_true.mp hsubject c hc
    simp only [Bool.or_eq_true, decide_eq_true_eq] at hbad
    rcases hbad with (rfl | rfl) | rfl <;> revert hok <;> decide
  have hhex : matchesHex64 a.subjectHash = true := by simp [matchesHex64, hhash]
  have hlink : matchesHex64 a.prevHash = true := by simp [matchesHex64, hprev]
  have htime : matchesSignedAt a.signedAt = true := by
    rw [matchesSignedAt, Bool.or_eq_true]
    exact .inl hat
  rw [attestationMessage, if_neg (not_not.mpr hkind), if_neg (by simp [hhex, hlink]), if_neg (by simp [htime]), hclean]
  rfl

lemma decimalValue_ascii {c : Char} (h : isAsciiDigit c = true) : (decimalValue c).isSome = true := by
  simp only [isAsciiDigit, Bool.and_eq_true, decide_eq_true_eq, Char.le_def, UInt32.le_iff_toNat_le] at h
  obtain ⟨hl, hu⟩ := h
  rw [decimalValue, Option.isSome_map, List.find?_isSome]
  refine ⟨0x30, by decide, ?_⟩
  rw [Bool.and_eq_true, decide_eq_true_eq, decide_eq_true_eq]
  have h0 : ('0' : Char).val.toNat = 48 := rfl
  have h9 : ('9' : Char).val.toNat = 57 := rfl
  change 0x30 ≤ c.val.toNat ∧ c.val.toNat < 0x30 + 10
  omega

lemma mapM_isSome {α β : Type} {f : α → Option β} {xs : List α} (h : ∀ x ∈ xs, (f x).isSome = true) :
    (xs.mapM f).isSome = true := by
  induction xs with
  | nil => rfl
  | cons x xs ih =>
    obtain ⟨y, hy⟩ := Option.isSome_iff_exists.mp (h x (by simp))
    obtain ⟨ys, hys⟩ := Option.isSome_iff_exists.mp (ih fun x hx => h x (List.mem_cons_of_mem _ hx))
    simp [hy, hys]

/-- The heights of blocks are ASCII digits, which `int` reads. -/
lemma parseBlockSubject_total {a : Attestation} (h : a.checks = true) : ∃ r, parseBlockSubject a.subject = .ok r := by
  have hlen : a.subject.toList.length ≤ 300 := by
    simp only [Attestation.checks, Bool.and_eq_true, decide_eq_true_eq] at h
    rw [String.length_toList]
    exact h.1.1.1.1.1.1.1.2
  unfold parseBlockSubject
  dsimp only
  split_ifs with hd
  · simp only [Bool.and_eq_true, List.all_eq_true] at hd
    have hsome := mapM_isSome fun c hc => decimalValue_ascii (hd.2 c hc)
    obtain ⟨ds, hds⟩ := Option.isSome_iff_exists.mp hsome
    rw [parseInt, int, String.toList_ofList, if_neg (by rw [List.length_drop]; omega), hds]
    exact ⟨_, rfl⟩
  · exact ⟨none, rfl⟩

lemma parseInt_total {s : String} (h : int s ≠ none) : ∃ n, parseInt s = .ok n := by
  obtain ⟨n, hn⟩ := Option.ne_none_iff_exists'.mp h
  exact ⟨n, by rw [parseInt, hn]⟩

lemma parseInt_ok {s : String} {n : ℕ} (h : parseInt s = .ok n) : int s ≠ none := by
  intro hn
  rw [parseInt, hn] at h
  cases h

/-- Reading a checkpoint's subject raises exactly where a number is unreadable. -/
lemma parseCheckpointSubject_total {a : Attestation} (hkind : a.kind = "checkpoint") :
    (∃ r, parseCheckpointSubject a.subject = .ok r) ↔ ¬ Unreadable a := by
  constructor
  · rintro ⟨r, hr⟩ ⟨-, seq, head, height, tip, hsplit, hseq, hheight, hhead, htip, hint⟩
    simp only [parseCheckpointSubject, hsplit, hseq, hheight, hhead, htip] at hr
    obtain ⟨n, hn, hr⟩ := Checks.bind_ok hr
    obtain ⟨m, hm, -⟩ := Checks.bind_ok hr
    exact hint.elim (parseInt_ok hn) (parseInt_ok hm)
  · intro h
    unfold parseCheckpointSubject
    split
    next kind seq head height tip hsplit =>
      split_ifs with hform hhex
      · exact ⟨none, rfl⟩
      · exact ⟨none, rfl⟩
      · simp only [Bool.or_eq_true, decide_eq_true_eq, Bool.not_eq_true', not_or, Bool.not_eq_false, ne_eq,
          not_not] at hform hhex
        obtain ⟨⟨rfl, hseq⟩, hheight⟩ := hform
        have hint : ¬ (int seq = none ∨ int height = none) := fun hbad =>
          h ⟨hkind, seq, head, height, tip, hsplit, hseq, hheight, hhex.1, hhex.2, hbad⟩
        obtain ⟨n, hn⟩ := parseInt_total fun hb => hint (.inl hb)
        obtain ⟨m, hm⟩ := parseInt_total fun hb => hint (.inr hb)
        exact ⟨some ⟨n, head, m, tip⟩, by rw [hn, hm]; rfl⟩
    next => exact ⟨none, rfl⟩

lemma kind_of_checks {a : Attestation} (h : a.checks = true) (hblock : a.kind ≠ "block") (hreceipt : a.kind ≠ "receipt") :
    a.kind = "checkpoint" := by
  simp only [Attestation.checks, Bool.and_eq_true, List.contains_iff_mem, attestKinds, List.mem_cons,
    List.not_mem_nil, or_false] at h
  obtain ⟨⟨⟨⟨⟨⟨⟨⟨⟨⟨-, hkind⟩, -⟩, -⟩, -⟩, -⟩, -⟩, -⟩, -⟩, -⟩, -⟩ := h
  exact (hkind.resolve_left hblock).resolve_left hreceipt

/-- Judging a subject raises exactly where it is unreadable. -/
lemma checkSubject_total {a : Attestation} (h : a.checks = true) (bySeq : Dict ℤ Attestation) :
    (∃ r, checkSubject tenant a bySeq truth = .ok r) ↔ ¬ Unreadable a := by
  by_cases hblock : a.kind = "block"
  · refine iff_of_true ?_ fun hu => absurd (hblock.symm.trans hu.1) (by decide)
    obtain ⟨r, hr⟩ := parseBlockSubject_total h
    rw [checkSubject, if_pos hblock, hr]
    cases r with
    | none => exact ⟨_, rfl⟩
    | some height =>
      simp only [bind, Except.bind]
      cases truth.blockHash height <;> exact ⟨_, rfl⟩
  by_cases hreceipt : a.kind = "receipt"
  · refine iff_of_true ?_ fun hu => absurd (hreceipt.symm.trans hu.1) (by decide)
    rw [checkSubject, if_neg hblock, if_pos hreceipt]
    split_ifs <;> exact ⟨_, rfl⟩
  · rw [← parseCheckpointSubject_total (kind_of_checks h hblock hreceipt), checkSubject, if_neg hblock,
      if_neg hreceipt]
    constructor
    · rintro ⟨r, hr⟩
      obtain ⟨parsed, hp, -⟩ := Checks.bind_ok hr
      exact ⟨parsed, hp⟩
    · rintro ⟨parsed, hp⟩
      rw [hp]
      cases parsed <;> exact ⟨_, rfl⟩

lemma hashJudgement_voided {a : Attestation} : (hashJudgement trust a (a.message tenant)).voided = true ↔
    Hashed tenant a ∧ trust.voids.get a.signerSeq = some a.attestationHash := by
  unfold hashJudgement
  split_ifs with hne
  · simp [Hashed, hne]
  · simp only [Hashed, not_not.mp hne, true_and]
    cases trust.voids.get a.signerSeq with
    | none => simp
    | some named => by_cases hn : named = a.attestationHash <;> simp [hn]

/-- What is said of the contents of a row that the table admits. -/
lemma contentJudgement_eq {a : Attestation} (h : a.checks = true) (bySeq : Dict ℤ Attestation) :
    contentJudgement verify tenant trust truth bySeq a =
      if (hashJudgement trust a (a.message tenant)).voided = true then
        .ok (hashJudgement trust a (a.message tenant))
      else (checkSubject tenant a bySeq truth).map fun subject =>
        ⟨(hashJudgement trust a (a.message tenant)).bad ++ signerProblems verify trust a (a.message tenant) ++ subject,
          false⟩ := by
  rw [contentJudgement, message_of_checks h]
  dsimp only
  split_ifs
  · rfl
  · cases checkSubject tenant a bySeq truth <;> rfl

lemma contentJudgement_voided {a : Attestation} (h : a.checks = true) (hh : Hashed tenant a)
    (hv : trust.voids.get a.signerSeq = some a.attestationHash) (bySeq : Dict ℤ Attestation) :
    contentJudgement verify tenant trust truth bySeq a = .ok ⟨[], true⟩ := by
  have hj : hashJudgement trust a (a.message tenant) = ⟨[], true⟩ := by
    rw [hashJudgement, if_neg (fun hne => hne hh), hv]
    exact if_pos rfl
  rw [contentJudgement_eq h, hj]
  rfl

/-- Only the keys and the void of this very number matter. -/
lemma contentJudgement_congr {a : Attestation} (h : a.checks = true) (hk : other.keys = trust.keys)
    (hv : other.voids.get a.signerSeq = trust.voids.get a.signerSeq) (bySeq : Dict ℤ Attestation) :
    contentJudgement verify tenant other truth bySeq a = contentJudgement verify tenant trust truth bySeq a := by
  have hj : hashJudgement other a (a.message tenant) = hashJudgement trust a (a.message tenant) := by
    rw [hashJudgement, hashJudgement, hv]
  have hs : signerProblems verify other a (a.message tenant) = signerProblems verify trust a (a.message tenant) := by
    rw [signerProblems, signerProblems, hk]
  rw [contentJudgement_eq h, contentJudgement_eq h, hj, hs]

/-- Judging a row raises exactly where its subject is unreadable and no void takes it out. -/
lemma judge_total {loop : AttestationLoop} {a : Attestation} (h : a.checks = true) :
    (∃ j, judge verify tenant trust truth loop a = .ok j) ↔
      (Unreadable a → Hashed tenant a ∧ trust.voids.get a.signerSeq = some a.attestationHash) := by
  rw [← hashJudgement_voided, ← not_imp_not, ← @checkSubject_total tenant truth a h loop.bySeq]
  constructor
  · rintro ⟨j, hj⟩ hv
    obtain ⟨content, hc, -⟩ := Checks.bind_ok hj
    rw [contentJudgement_eq h, if_neg hv] at hc
    obtain ⟨r, hr, -⟩ := Checks.map_ok hc
    exact ⟨r, hr⟩
  · intro hr
    suffices hc : ∃ content, contentJudgement verify tenant trust truth loop.bySeq a = .ok content by
      obtain ⟨content, hc⟩ := hc
      rw [judge, hc]
      exact ⟨_, rfl⟩
    rw [contentJudgement_eq h]
    split_ifs with hv
    · exact ⟨_, rfl⟩
    · obtain ⟨r, hr⟩ := hr hv
      rw [hr]
      exact ⟨_, rfl⟩

lemma judge_voided {loop : AttestationLoop} {a : Attestation} {j : Judgement} (h : a.checks = true)
    (hj : judge verify tenant trust truth loop a = .ok j) :
    j.voided = (hashJudgement trust a (a.message tenant)).voided := by
  obtain ⟨content, hc, hj⟩ := Checks.bind_ok hj
  obtain rfl := Except.ok.inj hj
  rw [contentJudgement_eq h] at hc
  split_ifs at hc with hv
  · rw [Except.ok.inj hc]
  · obtain ⟨subject, -, rfl⟩ := Checks.map_ok hc
    exact (Bool.not_eq_true _ ▸ hv).symm

/-- A row of the log where the loop stands. -/
structure Next (loop : AttestationLoop) (a : Attestation) : Prop where
  seq : a.signerSeq = loop.expected
  prev : a.prevHash = loop.last

/-- The loop after the voids beside the loop before them. -/
structure Beside (loop after : AttestationLoop) : Prop where
  problems : after.problems = []
  summary : after.summary = loop.summary.cleared after.summary.voided
  expected : after.expected = loop.expected
  last : after.last = loop.last
  bySeq : after.bySeq = loop.bySeq
  seen : ∀ k, loop.seen.get k = none → after.seen.get k = none
  bad : ∀ s ∈ loop.summary.badSeqs, s < loop.expected

/-- A row that stands where it should is judged on its contents and on whether its subject is taken. -/
lemma judge_next {loop : AttestationLoop} {a : Attestation} {content : Judgement} (hn : Next loop a)
    (hc : contentJudgement verify tenant trust truth loop.bySeq a = .ok content) :
    ∃ repeated, judge verify tenant trust truth loop a = .ok ⟨content.bad ++ repeated, content.voided⟩ ∧
      (repeated = [] ↔ content.voided = true ∨ loop.seen.get (a.kind, a.subject) = none) := by
  rw [judge, hc]
  simp only [bind, Except.bind, pure, Except.pure, hn.seq, hn.prev, ne_eq, not_true_eq_false, if_false,
    List.nil_append, Except.ok.injEq, Judgement.mk.injEq, and_true]
  refine ⟨_, rfl, ?_⟩
  by_cases hv : content.voided = true
  · simp [hv]
  · cases hs : loop.seen.get (a.kind, a.subject) <;> simp [hv]

/-- What becomes of a judgement when the flagged rows are void. -/
def Judgement.settled (j : Judgement) : Judgement := if j.bad = [] then j else ⟨[], true⟩

lemma judge_settled {loop after : AttestationLoop} {a : Attestation} {j : Judgement} (hb : Beside loop after)
    (h : a.checks = true) (hh : Hashed tenant a) (hn : Next loop a) (hk : other.keys = trust.keys)
    (hv : other.voids.get a.signerSeq = if j.bad = [] then trust.voids.get a.signerSeq else some a.attestationHash)
    (hj : judge verify tenant trust truth loop a = .ok j) :
    judge verify tenant other truth after a = .ok j.settled := by
  have hn' : Next after a := ⟨hn.seq.trans hb.expected.symm, hn.prev.trans hb.last.symm⟩
  obtain ⟨content, hc, -⟩ := Checks.bind_ok hj
  obtain ⟨repeated, hjudge, hrepeated⟩ := judge_next hn hc
  obtain rfl := Except.ok.inj (hj.symm.trans hjudge)
  by_cases hbad : content.bad ++ repeated = []
  · rw [if_pos hbad] at hv
    obtain ⟨repeated', hjudge', hrepeated'⟩ := judge_next hn' (by
      rw [hb.bySeq, contentJudgement_congr h hk hv]
      exact hc)
    have hnone : repeated' = [] :=
      hrepeated'.mpr ((hrepeated.mp (List.append_eq_nil_iff.mp hbad).2).imp id (hb.seen _))
    rw [hjudge', hnone, Judgement.settled, if_pos hbad, (List.append_eq_nil_iff.mp hbad).1,
      (List.append_eq_nil_iff.mp hbad).2]
  · rw [if_neg hbad] at hv
    obtain ⟨repeated', hjudge', hrepeated'⟩ := judge_next hn' (contentJudgement_voided h hh hv _)
    rw [hjudge', hrepeated'.mpr (.inl rfl), Judgement.settled, if_neg hbad]
    rfl

lemma countValid_cleared {summary next : AttestationSummary} {a : Attestation} (voided : List ℤ)
    (h : countValid summary a = .ok next) :
    countValid (summary.cleared voided) a = .ok (next.cleared voided) := by
  unfold countValid at h ⊢
  by_cases hblock : a.kind = "block"
  · simp only [hblock, if_true] at h ⊢
    obtain ⟨parsed, hp, hrest⟩ := Checks.bind_ok h
    rw [hp]
    cases parsed <;> obtain rfl := Except.ok.inj hrest <;> rfl
  by_cases hreceipt : a.kind = "receipt"
  · simp only [hreceipt, if_true] at h ⊢
    obtain rfl := Except.ok.inj h
    rfl
  · simp only [hblock, hreceipt, if_false] at h ⊢
    obtain ⟨parsed, hp, hrest⟩ := Checks.bind_ok h
    rw [hp]
    cases parsed <;> obtain rfl := Except.ok.inj hrest <;> rfl

/-- What a readable row adds to the counts can always be read. -/
lemma countValid_total (summary : AttestationSummary) {a : Attestation} (h : a.checks = true) (hu : ¬ Unreadable a) :
    ∃ next, countValid summary a = .ok next := by
  unfold countValid
  by_cases hblock : a.kind = "block"
  · obtain ⟨parsed, hp⟩ := parseBlockSubject_total h
    rw [if_pos hblock, hp]
    cases parsed <;> exact ⟨_, rfl⟩
  rw [if_neg hblock]
  by_cases hreceipt : a.kind = "receipt"
  · rw [if_pos hreceipt]
    exact ⟨_, rfl⟩
  · obtain ⟨parsed, hp⟩ := (parseCheckpointSubject_total (kind_of_checks h hblock hreceipt)).mpr hu
    rw [if_neg hreceipt, hp]
    cases parsed <;> exact ⟨_, rfl⟩

lemma countValid_badSeqs {summary next : AttestationSummary} {a : Attestation} (h : countValid summary a = .ok next) :
    next.badSeqs = summary.badSeqs := by
  unfold countValid at h
  by_cases hblock : a.kind = "block"
  · rw [if_pos hblock] at h
    obtain ⟨parsed, -, hrest⟩ := Checks.bind_ok h
    cases parsed <;> obtain rfl := Except.ok.inj hrest <;> rfl
  rw [if_neg hblock] at h
  by_cases hreceipt : a.kind = "receipt"
  · rw [if_pos hreceipt] at h
    obtain rfl := Except.ok.inj h
    rfl
  · rw [if_neg hreceipt] at h
    obtain ⟨parsed, -, hrest⟩ := Checks.bind_ok h
    cases parsed <;> obtain rfl := Except.ok.inj hrest <;> rfl

/-- What a row adds to the counts before it is counted itself. -/
def countContents (summary : AttestationSummary) (a : Attestation) (j : Judgement) : Except Raised AttestationSummary :=
  if j.voided = true then .ok { summary with voided := summary.voided ++ [a.signerSeq] }
  else if j.bad = [] then countValid summary a
  else .ok summary

lemma countRow_eq (summary : AttestationSummary) (a : Attestation) (j : Judgement) :
    countRow summary a j =
      (countContents (if j.bad = [] then summary else { summary with badSeqs := summary.badSeqs.insert a.signerSeq })
        a j).map
        fun s => { s with count := s.count + 1, headSeq := a.signerSeq, headHash := a.attestationHash } := by
  unfold countRow countContents
  by_cases hv : j.voided = true
  · by_cases hbad : j.bad = [] <;> simp [hv, hbad, bind, Except.bind, pure, Except.pure, Except.map]
  · by_cases hbad : j.bad = []
    · simp only [hv, hbad, if_false, if_true, ne_eq, not_true_eq_false]
      cases countValid summary a <;> rfl
    · simp [hv, hbad, bind, Except.bind, pure, Except.pure, Except.map]

lemma countRow_total (summary : AttestationSummary) {a : Attestation} {j : Judgement} (h : a.checks = true)
    (hu : j.voided = false → ¬ Unreadable a) : ∃ next, countRow summary a j = .ok next := by
  suffices hc : ∀ s, ∃ next, countContents s a j = .ok next by
    rw [countRow_eq]
    obtain ⟨next, hnext⟩ := hc (if j.bad = [] then summary else
      { summary with badSeqs := summary.badSeqs.insert a.signerSeq })
    rw [hnext]
    exact ⟨_, rfl⟩
  intro s
  unfold countContents
  by_cases hv : j.voided = true
  · exact ⟨_, if_pos hv⟩
  rw [if_neg hv]
  split_ifs
  · exact countValid_total s h (hu (Bool.not_eq_true _ ▸ hv))
  · exact ⟨s, rfl⟩

/-- A row is flagged exactly where something is wrong with it. -/
lemma countRow_badSeqs {summary next : AttestationSummary} {a : Attestation} {j : Judgement}
    (h : countRow summary a j = .ok next) :
    next.badSeqs = if j.bad = [] then summary.badSeqs else summary.badSeqs.insert a.signerSeq := by
  rw [countRow_eq] at h
  obtain ⟨counted, hc, rfl⟩ := Checks.map_ok h
  unfold countContents at hc
  by_cases hv : j.voided = true
  · rw [if_pos hv] at hc
    obtain rfl := Except.ok.inj hc
    by_cases hbad : j.bad = [] <;> simp [hbad]
  rw [if_neg hv] at hc
  by_cases hbad : j.bad = []
  · simp only [hbad, if_true] at hc ⊢
    exact countValid_badSeqs hc
  · simp only [hbad, if_false, Except.ok.injEq] at hc ⊢
    exact hc ▸ rfl

lemma countRow_settled {summary next : AttestationSummary} {a : Attestation} {j : Judgement} (voided : List ℤ)
    (h : countRow summary a j = .ok next) :
    ∃ voided', countRow (summary.cleared voided) a j.settled = .ok (next.cleared voided') := by
  rw [countRow_eq] at h
  obtain ⟨counted, hc, rfl⟩ := Checks.map_ok h
  rw [countRow_eq]
  unfold countContents at hc ⊢
  by_cases hbad : j.bad = []
  · simp only [Judgement.settled, hbad, if_true] at hc ⊢
    by_cases hv : j.voided = true
    · rw [if_pos hv] at hc ⊢
      obtain rfl := Except.ok.inj hc
      exact ⟨voided ++ [a.signerSeq], rfl⟩
    · rw [if_neg hv] at hc ⊢
      rw [countValid_cleared voided hc]
      exact ⟨voided, rfl⟩
  · simp only [Judgement.settled, hbad, if_false] at hc ⊢
    refine ⟨voided ++ [a.signerSeq], ?_⟩
    by_cases hv : j.voided = true
    · rw [if_pos hv] at hc
      obtain rfl := Except.ok.inj hc
      rfl
    · rw [if_neg hv] at hc
      obtain rfl := Except.ok.inj hc
      rfl

/-- The loop after a row whose summary is known. -/
def AttestationLoop.after (loop : AttestationLoop) (a : Attestation) (j : Judgement) (summary : AttestationSummary) :
    AttestationLoop where
  problems := loop.problems ++ j.bad.map fun b => ⟨"attestation", "attestation " ++ toString a.signerSeq, b⟩
  summary := summary
  expected := a.signerSeq + 1
  last := a.attestationHash
  seen := if !j.voided && !loop.seen.has (a.kind, a.subject) then loop.seen.set (a.kind, a.subject) a else loop.seen
  bySeq := loop.bySeq.set a.signerSeq a

lemma recordRow_map (loop : AttestationLoop) (a : Attestation) (j : Judgement) :
    recordRow loop a j = (countRow loop.summary a j).map (loop.after a j) := by
  rw [recordRow]
  cases countRow loop.summary a j <;> rfl

/-- A subject is free after a row where it was free before and is not the row's, or the row is void. -/
lemma after_seen {loop : AttestationLoop} {a : Attestation} {j : Judgement} {summary : AttestationSummary}
    {k : String × String} : (loop.after a j summary).seen.get k = none ↔
      loop.seen.get k = none ∧ (j.voided = false → (a.kind, a.subject) ≠ k) := by
  unfold AttestationLoop.after
  by_cases hk : (a.kind, a.subject) = k
  · subst hk
    cases hv : j.voided <;> cases hs : loop.seen.get (a.kind, a.subject) <;> simp [Dict.has, hs]
  · cases hv : j.voided <;> cases hs : loop.seen.get (a.kind, a.subject) <;> simp [Dict.has, hs, Dict.get_set, hk]

/-- One row on both sides. -/
lemma Beside.step {loop beside next : AttestationLoop} {a : Attestation} {j : Judgement} (hb : Beside loop beside)
    (hn : Next loop a) (h : recordRow loop a j = .ok next) :
    ∃ next', recordRow beside a j.settled = .ok next' ∧ Beside next next' := by
  rw [recordRow_map] at h
  obtain ⟨summary, hs, rfl⟩ := Checks.map_ok h
  obtain ⟨voided', hs'⟩ := countRow_settled beside.summary.voided hs
  rw [← hb.summary] at hs'
  have hclean : j.settled.bad = [] := by
    by_cases hbad : j.bad = [] <;> simp [Judgement.settled, hbad]
  refine ⟨beside.after a j.settled (summary.cleared voided'), by rw [recordRow_map, hs']; rfl, ?_, rfl, rfl, rfl, ?_,
    ?_, ?_⟩
  · simp [AttestationLoop.after, hb.problems, hclean]
  · simp [AttestationLoop.after, hb.bySeq]
  · intro k hk
    rw [after_seen] at hk ⊢
    refine ⟨hb.seen k hk.1, fun hv => hk.2 ?_⟩
    by_cases hbad : j.bad = []
    · rwa [Judgement.settled, if_pos hbad] at hv
    · simp [Judgement.settled, hbad] at hv
  · intro s hbad
    rw [AttestationLoop.after, countRow_badSeqs hs] at hbad
    have hlt : s ∈ loop.summary.badSeqs ∨ s = a.signerSeq := by
      split_ifs at hbad
      · exact .inl hbad
      · exact (List.mem_insert_iff.mp hbad).symm
    rcases hlt with hlt | rfl
    · exact (hb.bad s hlt).trans (by rw [← hn.seq]; exact Int.lt_succ _)
    · exact Int.lt_succ _

/-- What the log holds of a row that verification can settle. -/
structure Settles (trust other : TrustState) (tenant : String) (bad : List ℤ) (a : Attestation) : Prop where
  checks : a.checks = true
  hashed : Hashed tenant a
  void : other.voids.get a.signerSeq =
    if a.signerSeq ∈ bad then some a.attestationHash else trust.voids.get a.signerSeq

lemma attestationStep_summary {loop next : AttestationLoop} {a : Attestation}
    (h : attestationStep verify tenant trust truth loop a = .ok next) :
    ∃ j, judge verify tenant trust truth loop a = .ok j ∧ recordRow loop a j = .ok next ∧
      next.summary.badSeqs =
        if j.bad = [] then loop.summary.badSeqs else loop.summary.badSeqs.insert a.signerSeq := by
  obtain ⟨j, hj, hr⟩ := attestationStep_eq h
  refine ⟨j, hj, hr, ?_⟩
  rw [recordRow_map] at hr
  obtain ⟨summary, hs, rfl⟩ := Checks.map_ok hr
  exact countRow_badSeqs hs

/-- Rows with other numbers do not change whether a number is flagged. -/
lemma foldlM_badSeqs {rows : List Attestation} {loop last : AttestationLoop} {s : ℤ}
    (hs : ∀ a ∈ rows, a.signerSeq ≠ s)
    (h : rows.foldlM (attestationStep verify tenant trust truth) loop = .ok last) :
    s ∈ last.summary.badSeqs ↔ s ∈ loop.summary.badSeqs := by
  induction rows generalizing loop with
  | nil => rw [Except.ok.inj h]
  | cons a rows ih =>
    rw [List.foldlM_cons] at h
    obtain ⟨next, hstep, hrest⟩ := Checks.bind_ok h
    obtain ⟨j, -, -, hbad⟩ := attestationStep_summary hstep
    rw [ih (fun b hb => hs b (List.mem_cons_of_mem _ hb)) hrest, hbad]
    split_ifs
    · rfl
    · rw [List.mem_insert_iff]
      exact or_iff_right fun heq => hs a (by simp) heq.symm

/-- The next row of a log on both sides. -/
lemma Beside.next {rows : List Attestation} {loop beside last : AttestationLoop} {a : Attestation}
    (hb : Beside loop beside) (hk : other.keys = trust.keys)
    (hl : Linked Attestation.follows Attestation.leaves (loop.expected - 1, loop.last) (a :: rows))
    (ha : Settles trust other tenant last.summary.badSeqs a)
    (h : (a :: rows).foldlM (attestationStep verify tenant trust truth) loop = .ok last) :
    ∃ j next next', judge verify tenant trust truth loop a = .ok j ∧
      judge verify tenant other truth beside a = .ok j.settled ∧
      attestationStep verify tenant trust truth loop a = .ok next ∧
      attestationStep verify tenant other truth beside a = .ok next' ∧ Beside next next' ∧
      Linked Attestation.follows Attestation.leaves (next.expected - 1, next.last) rows ∧
      rows.foldlM (attestationStep verify tenant trust truth) next = .ok last := by
  rw [List.foldlM_cons] at h
  obtain ⟨next, hstep, hrest⟩ := Checks.bind_ok h
  obtain ⟨j, hj, hr, hbad⟩ := attestationStep_summary hstep
  obtain ⟨hfollows, hl⟩ := hl
  have hn : Next loop a := by
    have hseq := congrArg Prod.fst hfollows
    have hprev := congrArg Prod.snd hfollows
    simp only [Attestation.follows] at hseq hprev
    exact ⟨by omega, hprev⟩
  have hlater : ∀ b ∈ rows, b.signerSeq ≠ a.signerSeq := fun b hb => (linked_lower hl b hb).ne'
  have hflag : a.signerSeq ∈ last.summary.badSeqs ↔ j.bad ≠ [] := by
    rw [foldlM_badSeqs hlater hrest, hbad]
    split_ifs with hclean
    · exact iff_of_false (fun hin => (hb.bad _ hin).ne hn.seq) (not_not.mpr hclean)
    · exact iff_of_true (by simp) hclean
  have hv := ha.void
  simp only [hflag, ne_eq, ite_not] at hv
  have hj' := judge_settled hb ha.checks ha.hashed hn hk hv hj
  obtain ⟨next', hr', hb'⟩ := hb.step hn hr
  obtain ⟨hexp, hlast, -⟩ := recordRow_eq hr
  refine ⟨j, next, next', hj, hj', hstep, ?_, hb', ?_, hrest⟩
  · rw [attestationStep, hj']
    exact hr'
  · rw [hexp, hlast, add_sub_cancel_right]
    exact hl

/-- The whole log on both sides, by induction over its rows. -/
lemma Beside.run {rows : List Attestation} {loop beside last : AttestationLoop} (hb : Beside loop beside)
    (hk : other.keys = trust.keys)
    (hl : Linked Attestation.follows Attestation.leaves (loop.expected - 1, loop.last) rows)
    (hrows : ∀ a ∈ rows, Settles trust other tenant last.summary.badSeqs a)
    (h : rows.foldlM (attestationStep verify tenant trust truth) loop = .ok last) :
    ∃ last', rows.foldlM (attestationStep verify tenant other truth) beside = .ok last' ∧ Beside last last' := by
  induction rows generalizing loop beside with
  | nil =>
    obtain rfl := Except.ok.inj h
    exact ⟨beside, rfl, hb⟩
  | cons a rows ih =>
    obtain ⟨j, next, next', -, -, -, hstep', hb', hl', hrest⟩ := hb.next hk hl (hrows a (by simp)) h
    obtain ⟨last', hrun, hfinal⟩ := ih hb' hl' (fun b hb => hrows b (List.mem_cons_of_mem _ hb)) hrest
    refine ⟨last', ?_, hfinal⟩
    rw [List.foldlM_cons, hstep']
    exact hrun

/-- Where a row stands in the log, both evaluations judge it, and the second settles what the first found. -/
lemma Beside.judged {pre post : List Attestation} {loop beside last : AttestationLoop} {a : Attestation}
    (hb : Beside loop beside) (hk : other.keys = trust.keys)
    (hl : Linked Attestation.follows Attestation.leaves (loop.expected - 1, loop.last) (pre ++ a :: post))
    (hrows : ∀ b ∈ pre ++ a :: post, Settles trust other tenant last.summary.badSeqs b)
    (h : (pre ++ a :: post).foldlM (attestationStep verify tenant trust truth) loop = .ok last) :
    ∃ mid mid' j, pre.foldlM (attestationStep verify tenant trust truth) loop = .ok mid ∧
      pre.foldlM (attestationStep verify tenant other truth) beside = .ok mid' ∧
      judge verify tenant trust truth mid a = .ok j ∧ judge verify tenant other truth mid' a = .ok j.settled := by
  induction pre generalizing loop beside with
  | nil =>
    obtain ⟨j, next, next', hj, hj', -⟩ := hb.next hk hl (hrows a (by simp)) h
    exact ⟨loop, beside, j, rfl, rfl, hj, hj'⟩
  | cons b pre ih =>
    obtain ⟨-, next, next', -, -, hstep, hstep', hb', hl', hrest⟩ := hb.next hk hl (hrows b (by simp)) h
    obtain ⟨mid, mid', j, hm, hm', hj, hj'⟩ := ih hb' hl' (fun c hc => hrows c (List.mem_cons_of_mem _ hc)) hrest
    refine ⟨mid, mid', j, ?_, ?_, hj, hj'⟩
    · rw [List.foldlM_cons, hstep]
      exact hm
    · rw [List.foldlM_cons, hstep']
      exact hm'

/-- Every row of a log that could be evaluated was judged, and all that is wrong with it is among the problems. -/
lemma foldlM_judged {rows : List Attestation} {loop last : AttestationLoop}
    (h : rows.foldlM (attestationStep verify tenant trust truth) loop = .ok last) :
    (∀ p ∈ loop.problems, p ∈ last.problems) ∧
      ∀ a ∈ rows, ∃ mid j, judge verify tenant trust truth mid a = .ok j ∧
        ∀ b ∈ j.bad, ∃ p ∈ last.problems, p.check = "attestation" := by
  induction rows generalizing loop with
  | nil =>
    obtain rfl := Except.ok.inj h
    exact ⟨fun p hp => hp, by simp⟩
  | cons a rows ih =>
    rw [List.foldlM_cons] at h
    obtain ⟨next, hstep, hrest⟩ := Checks.bind_ok h
    obtain ⟨j, hj, hr, -⟩ := attestationStep_summary hstep
    obtain ⟨hkeep, hall⟩ := ih hrest
    rw [recordRow_map] at hr
    obtain ⟨summary, -, rfl⟩ := Checks.map_ok hr
    refine ⟨fun p hp => hkeep p (List.mem_append_left _ hp), fun b hb => ?_⟩
    rcases List.mem_cons.mp hb with rfl | hb
    · refine ⟨loop, j, hj, fun text htext => ?_⟩
      exact ⟨_, hkeep _ (List.mem_append_right _ (List.mem_map_of_mem htext)), rfl⟩
    · exact hall b hb

lemma foldlM_total {rows : List Attestation} (loop : AttestationLoop)
    (h : ∀ a ∈ rows, a.checks = true ∧
      (Unreadable a → Hashed tenant a ∧ trust.voids.get a.signerSeq = some a.attestationHash)) :
    ∃ last, rows.foldlM (attestationStep verify tenant trust truth) loop = .ok last := by
  induction rows generalizing loop with
  | nil => exact ⟨loop, rfl⟩
  | cons a rows ih =>
    obtain ⟨hchecks, hread⟩ := h a (by simp)
    obtain ⟨j, hj⟩ := (@judge_total verify tenant trust truth loop a hchecks).mpr hread
    have hcount : j.voided = false → ¬ Unreadable a := fun hv hu => by
      rw [judge_voided hchecks hj, hashJudgement_voided.mpr (hread hu)] at hv
      cases hv
    obtain ⟨summary, hs⟩ := countRow_total loop.summary hchecks hcount
    obtain ⟨last, hlast⟩ := ih (loop.after a j summary) fun b hb => h b (List.mem_cons_of_mem _ hb)
    refine ⟨last, ?_⟩
    rw [List.foldlM_cons, attestationStep, hj]
    simp only [bind, Except.bind, recordRow_map, hs, Except.map]
    exact hlast

section Cosigns

variable {bySeq : Dict ℤ Attestation} {cosigns : List Cosign}

lemma cosigns_cleared (voided : List ℤ) (out out' : List Problem × AttestationSummary)
    (h : out'.2 = out.2.cleared voided) :
    (cosigns.foldl (cosignStep bySeq) out').2 = (cosigns.foldl (cosignStep bySeq) out).2.cleared voided := by
  induction cosigns generalizing out out' with
  | nil => exact h
  | cons c cosigns ih =>
    apply ih
    unfold cosignStep
    split_ifs
    · simp only [h, AttestationSummary.cleared]
    · exact h

lemma cosigns_badSeqs (out : List Problem × AttestationSummary) :
    (cosigns.foldl (cosignStep bySeq) out).2.badSeqs = out.2.badSeqs := by
  induction cosigns generalizing out with
  | nil => rfl
  | cons c cosigns ih =>
    rw [List.foldl_cons, ih, cosignStep]
    split_ifs <;> rfl

lemma cosigns_problems (out : List Problem × AttestationSummary) :
    ∃ more, (cosigns.foldl (cosignStep bySeq) out).1 = out.1 ++ more ∧ ∀ p ∈ more, p.check = "cosign" := by
  induction cosigns generalizing out with
  | nil => exact ⟨[], by simp⟩
  | cons c cosigns ih =>
    rw [List.foldl_cons]
    obtain ⟨more, hmore, hall⟩ := ih (cosignStep bySeq out c)
    rw [hmore, cosignStep]
    split_ifs
    · exact ⟨more, rfl, hall⟩
    · exact ⟨_, List.append_assoc .., List.forall_mem_cons.mpr ⟨rfl, hall⟩⟩

end Cosigns

lemma withVoids_get_of_ne (rows : List Attestation) {n : ℤ} (h : ∀ a ∈ rows, a.signerSeq ≠ n) :
    (trust.withVoids rows).voids.get n = trust.voids.get n := by
  unfold TrustState.withVoids
  induction rows using List.reverseRecOn with
  | nil => rfl
  | append_singleton rows a ih =>
    simp only [List.foldl_append, List.foldl_cons, List.foldl_nil] at ih ⊢
    rw [Dict.get_set_ne _ (h a (by simp))]
    exact ih fun b hb => h b (List.mem_append_left _ hb)

lemma withVoids_get_of_mem {rows : List Attestation} {a : Attestation}
    (hp : rows.Pairwise (fun a b => a.signerSeq < b.signerSeq)) (ha : a ∈ rows) :
    (trust.withVoids rows).voids.get a.signerSeq = some a.attestationHash := by
  induction rows using List.reverseRecOn with
  | nil => simp at ha
  | append_singleton rows b ih =>
    obtain ⟨hrows, -, hlt⟩ := List.pairwise_append.mp hp
    have hlast : (trust.withVoids (rows ++ [b])).voids =
        (trust.withVoids rows).voids.set b.signerSeq b.attestationHash := by simp [TrustState.withVoids]
    rw [hlast]
    rcases List.mem_append.mp ha with ha | ha
    · rw [Dict.get_set_ne _ (hlt a ha b (by simp)).ne']
      exact ih hrows ha
    · obtain rfl := List.mem_singleton.mp ha
      exact Dict.get_set_self ..

/-- After a void for each flagged row, the rows of a stored log are void exactly as the second evaluation needs. -/
lemma settles_of_stored (hlog : DatabaseLog tenant log) (summary : AttestationSummary)
    (hhash : ∀ a ∈ log, Hashed tenant a) :
    ∀ a ∈ log, Settles trust (trust.withVoids (flagged summary log)) tenant summary.badSeqs a := by
  have hp := linked_pairwise hlog.linked
  intro a ha
  refine ⟨hlog.checks a ha, hhash a ha, ?_⟩
  split_ifs with hbad
  · exact withVoids_get_of_mem (hp.filter _) (List.mem_filter.mpr ⟨ha, decide_eq_true hbad⟩)
  · apply withVoids_get_of_ne
    intro b hb heq
    obtain ⟨-, hin⟩ := List.mem_filter.mp hb
    exact hbad (heq ▸ of_decide_eq_true hin)

lemma beside_start : Beside AttestationLoop.start AttestationLoop.start :=
  ⟨rfl, rfl, rfl, rfl, rfl, fun _ h => h, by simp [AttestationLoop.start, AttestationSummary.empty]⟩

/-- A row that counts is not void. -/
lemma counted_not_void {a : Attestation} (hchecks : a.checks = true)
    (h : Counted verify tenant trust truth log a) : ¬ (Hashed tenant a ∧ trust.voids.get a.signerSeq = some a.attestationHash) := by
  obtain ⟨pre, post, -, loop, -, hj⟩ := h
  rw [← hashJudgement_voided, ← judge_voided hchecks hj]
  exact Bool.false_ne_true

lemma evaluate_eq {last : AttestationLoop} (hlog : DatabaseLog tenant log)
    (h : log.foldlM (attestationStep verify tenant trust truth) AttestationLoop.start = .ok last) :
    evaluateAttestations verify tenant trust log truth =
      .ok (trust.cosigns.foldl (cosignStep last.bySeq) (last.problems, last.summary)) := by
  rw [evaluateAttestations, bySignerSeq_eq ((linked_pairwise hlog.linked).imp le_of_lt), h]
  rfl

lemma settled_clean {j : Judgement} : j.settled = ⟨[], false⟩ ↔ j = ⟨[], false⟩ := by
  unfold Judgement.settled
  split_ifs with hbad
  · rfl
  · refine iff_of_false (by simp) fun h => hbad ?_
    rw [h]

/-- The voids change nothing about which rows count. -/
lemma counted_settled {last : AttestationLoop} (hlog : DatabaseLog tenant log) (hk : other.keys = trust.keys)
    (hrows : ∀ b ∈ log, Settles trust other tenant last.summary.badSeqs b)
    (h : log.foldlM (attestationStep verify tenant trust truth) AttestationLoop.start = .ok last) (a : Attestation) :
    Counted verify tenant other truth log a ↔ Counted verify tenant trust truth log a := by
  have hsorted : bySignerSeq log = log := bySignerSeq_eq ((linked_pairwise hlog.linked).imp le_of_lt)
  have hboth : ∀ pre post, log = pre ++ a :: post →
      (CountedAfter verify tenant other truth pre a ↔ CountedAfter verify tenant trust truth pre a) := by
    rintro pre post rfl
    obtain ⟨mid, mid', j, hm, hm', hj, hj'⟩ := beside_start.judged hk hlog.linked hrows h
    constructor
    · rintro ⟨loop, hloop, hclean⟩
      obtain rfl := Except.ok.inj (hm'.symm.trans hloop)
      rw [settled_clean.mp (Except.ok.inj (hj'.symm.trans hclean))] at hj
      exact ⟨mid, hm, hj⟩
    · rintro ⟨loop, hloop, hclean⟩
      obtain rfl := Except.ok.inj (hm.symm.trans hloop)
      rw [settled_clean.mpr (Except.ok.inj (hj.symm.trans hclean))] at hj'
      exact ⟨mid', hm', hj'⟩
  simp only [Counted, hsorted]
  constructor <;> rintro ⟨pre, post, hsplit, hcount⟩
  · exact ⟨pre, post, hsplit, (hboth pre post hsplit).mp hcount⟩
  · exact ⟨pre, post, hsplit, (hboth pre post hsplit).mpr hcount⟩

/-- Where every hash is the one that verification computes, and every row not yet void can be read, recovery works. -/
lemma recovers_of_hashed (hlog : DatabaseLog tenant log) (hhash : ∀ a ∈ log, Hashed tenant a)
    (hread : ∀ a ∈ log, Unreadable a → trust.voids.get a.signerSeq = some a.attestationHash) :
    Recovers verify tenant trust truth log := by
  obtain ⟨last, hlast⟩ := @foldlM_total verify tenant trust truth log AttestationLoop.start fun a ha =>
    ⟨hlog.checks a ha, fun hu => ⟨hhash a ha, hread a ha hu⟩⟩
  have heval := evaluate_eq hlog hlast
  set out := trust.cosigns.foldl (cosignStep last.bySeq) (last.problems, last.summary) with hout
  have hbad : out.2.badSeqs = last.summary.badSeqs := cosigns_badSeqs _
  have hrows := @settles_of_stored tenant trust log hlog out.2 hhash
  rw [hbad] at hrows
  have hk : (trust.withVoids (flagged out.2 log)).keys = trust.keys := rfl
  obtain ⟨last', hlast', hb⟩ := beside_start.run hk hlog.linked hrows hlast
  have heval' := evaluate_eq hlog hlast'
  refine ⟨out.1, out.2, _, _, heval, heval', ?_, ?_, fun a => ⟨counted_settled hlog hk hrows hlast a, ?_⟩⟩
  · obtain ⟨more, hmore, hcosign⟩ := @cosigns_problems last'.bySeq
      (trust.withVoids (flagged out.2 log)).cosigns (last'.problems, last'.summary)
    rw [hmore, hb.problems]
    intro p hp
    rw [hcosign p hp]
    decide
  · have hcleared := @cosigns_cleared last.bySeq trust.cosigns last'.summary.voided (last.problems, last.summary)
      (last'.problems, last'.summary) hb.summary
    have hcosigns : (trust.withVoids (flagged out.2 log)).cosigns = trust.cosigns := rfl
    rw [hb.bySeq, hcosigns, hcleared]
    rfl
  · intro hcount hvoid
    have ha : a ∈ log := by
      obtain ⟨pre, post, hsplit, -⟩ := hcount
      rw [← bySignerSeq_mem, hsplit]
      simp
    exact counted_not_void (hlog.checks a ha) hcount ⟨hhash a ha, hvoid⟩

/-- No recovery without equal hashes: verification goes on complaining of any other row. -/
lemma hashed_of_recovers (hlog : DatabaseLog tenant log) (h : Recovers verify tenant trust truth log) :
    ∀ a ∈ log, Hashed tenant a := by
  obtain ⟨-, summary, problems', summary', -, heval, hclean, -, -⟩ := h
  intro a ha
  by_contra hne
  unfold evaluateAttestations at heval
  rw [bySignerSeq_eq ((linked_pairwise hlog.linked).imp le_of_lt)] at heval
  obtain ⟨last, hlast, hout⟩ := Checks.bind_ok heval
  obtain ⟨mid, j, hj, hproblems⟩ := (foldlM_judged hlast).2 a ha
  obtain ⟨content, hc, hj⟩ := Checks.bind_ok hj
  obtain rfl := Except.ok.inj hj
  have hjudge : hashJudgement (trust.withVoids (flagged summary log)) a (a.message tenant) =
      ⟨["the stored attestation hash does not match its contents"], false⟩ := if_pos hne
  rw [contentJudgement_eq (hlog.checks a ha), hjudge] at hc
  obtain ⟨subject, -, rfl⟩ := Checks.map_ok hc
  obtain ⟨p, hp, hcheck⟩ := hproblems "the stored attestation hash does not match its contents" (by simp)
  obtain ⟨more, hmore, -⟩ := @cosigns_problems last.bySeq (trust.withVoids (flagged summary log)).cosigns
    (last.problems, last.summary)
  have hproblems' := congrArg Prod.fst (Except.ok.inj hout)
  rw [hmore] at hproblems'
  have hin : p ∈ (problems', summary').1 := hproblems' ▸ List.mem_append_left _ hp
  exact hclean p hin hcheck

/-- Nor where the first evaluation cannot read a row that is not yet void. -/
lemma read_of_recovers (hlog : DatabaseLog tenant log) (h : Recovers verify tenant trust truth log) :
    ∀ a ∈ log, Unreadable a → trust.voids.get a.signerSeq = some a.attestationHash := by
  obtain ⟨problems, summary, -, -, heval, -⟩ := h
  intro a ha hu
  unfold evaluateAttestations at heval
  rw [bySignerSeq_eq ((linked_pairwise hlog.linked).imp le_of_lt)] at heval
  obtain ⟨last, hlast, -⟩ := Checks.bind_ok heval
  obtain ⟨mid, j, hj, -⟩ := (foldlM_judged hlast).2 a ha
  exact ((judge_total (hlog.checks a ha)).mp ⟨j, hj⟩ hu).2

/-- Recovery works exactly where no signature has blanks that only Python strips, and no checkpoint outside the voids
has a number that `int` refuses; given that the two hashes of a row agree only where the two texts do. -/
theorem recovers_iff (verify : Verifier) (tenant : String) (trust : TrustState) (truth : Truth)
    (calls : List (Option String × AttestationCall))
    (hsha : ∀ a ∈ storedLog tenant calls,
      attestationHash (a.message tenant) a.keyId a.signature = jarvisSignedHash (a.message tenant) a.keyId a.signature →
        normalizeSignature a.signature = a.signature) :
    Recovers verify tenant trust truth (storedLog tenant calls) ↔
      ∀ a ∈ storedLog tenant calls, normalizeSignature a.signature = a.signature ∧
        (Unreadable a → trust.voids.get a.signerSeq = some a.attestationHash) := by
  have hlog := storedLog_stored tenant calls
  constructor
  · intro h a ha
    refine ⟨hsha a ha (Hex64.ext ?_), read_of_recovers hlog h a ha⟩
    exact (hashed_of_recovers hlog h a ha).trans (hlog.hashes a ha)
  · intro h
    refine recovers_of_hashed hlog (fun a ha => ?_) fun a ha => (h a ha).2
    rw [Hashed, hlog.hashes a ha, attestationHash, (h a ha).1]
    rfl

/-- A row by a key that no root authorized. -/
def parkedCall (signature : String) : AttestationCall where
  kind := "block"
  subject := "block:1"
  subjectHash := genesis.text
  signerSeq := 1
  prevHash := genesis.text
  keyId := "SHA256:AAAAAAAAAAAAAAAAAAAAAAAAAAAAAAAAAAAAAAAAAAA"
  signedAt := "2026-10-07T12:00:00Z"
  signature := signature

def noKeys : TrustState := ⟨[], [], [], [], [], 0, genesis.text⟩

def parkedLog (signature : String) : List Attestation :=
  storedLog "operator" [(some "operator", parkedCall signature)]

def plainSignature : String := String.ofList (List.replicate 100 'A')

/-- A no-break space in front: `btrim` leaves it, `strip` does not. -/
def paddedSignature : String := String.ofList ('\u00a0' :: List.replicate 99 'A')

lemma parkedLog_eq {signature : String} (h : signatureChecks signature = true) :
    parkedLog signature = [(parkedCall signature).row "operator"] := by
  have hchecks : ((parkedCall signature).row "operator").checks = true := by
    have hfields : (1 ≤ (1 : ℤ) && attestKinds.contains "block" && 1 ≤ "block:1".length && "block:1".length ≤ 300 &&
        "block:1".toList.all (fun c => c ≠ '|' && !isCntrl c) && isHex64 genesis.text && isHex64 genesis.text &&
        matchesKeyId (parkedCall "").keyId &&
        fits "dddd-dd-ddTdd:dd:ddZ".toList "2026-10-07T12:00:00Z".toList) = true := by decide
    rw [Attestation.checks, Bool.and_eq_true, Bool.and_eq_true]
    exact ⟨⟨hfields, h⟩, Hex64.valid _⟩
  have hhead : attestationHead [] = (0, genesis.text) := rfl
  simp only [parkedLog, storedLog, List.foldl_cons, List.foldl_nil, jarvisStoreAttestation, hhead, hchecks]
  rfl

theorem recovers_iff_parkedLog : Recovers trustAll "operator" noKeys twoBlocks (parkedLog plainSignature) := by
  have hplain : ∀ a ∈ storedLog "operator" [(some "operator", parkedCall plainSignature)],
      normalizeSignature a.signature = a.signature ∧ ¬ Unreadable a := by
    intro a ha
    have hsig : signatureChecks plainSignature = true := by decide
    have hlog : storedLog "operator" [(some "operator", parkedCall plainSignature)] = _ := parkedLog_eq hsig
    rw [hlog, List.mem_singleton] at ha
    subst ha
    exact ⟨by decide, fun hu => absurd hu.1 (by decide)⟩
  exact (recovers_iff trustAll "operator" noKeys twoBlocks [(some "operator", parkedCall plainSignature)]
    fun a ha _ => (hplain a ha).1).mpr fun a ha => ⟨(hplain a ha).1, fun hu => absurd hu (hplain a ha).2⟩

/-- The row is stored, and no void by its number and hash takes it out. -/
theorem padded_never_recovers :
    ¬ Recovers trustAll "operator" noKeys twoBlocks (parkedLog paddedSignature) := by
  intro h
  have hstored : DatabaseLog "operator" (parkedLog paddedSignature) := storedLog_stored ..
  have hhash := hashed_of_recovers hstored h
  rw [parkedLog_eq (by decide)] at hhash
  exact absurd (hhash _ (List.mem_singleton.mpr rfl)) (by unfold Hashed; decide +kernel)

end ContinuityLedger.Signatures
