import ContinuityLedger.Foundations.Checks
import ContinuityLedger.Signatures.Trust

/-! What one trust statement can do: the five effects that applying it has, and what the loop has checked before it
applies one. -/

namespace ContinuityLedger.Signatures

open Foundations Foundations.Sha256

variable {verify : Verifier} {tenant : String}

lemma namedRow_eq {s : Statement} {notOwn notNamed : String} {row : ℤ × String}
    (h : namedRow s notOwn notNamed = .ok row) :
    s.signedBy = s.keyId ∧ s.arg = some row.1 ∧ s.subjectHash = some row.2 := by
  unfold namedRow at h
  split_ifs at h with hown
  cases ha : s.arg with
  | none => simp [ha] at h
  | some n =>
    cases hs : s.subjectHash.filter (· ≠ "") with
    | none => simp only [ha, hs, reduceCtorEq] at h
    | some named =>
      simp only [ha, hs] at h
      split_ifs at h
      obtain rfl := Except.ok.inj h
      exact ⟨not_not.mp hown, rfl, (Option.filter_eq_some_iff.mp hs).1⟩

/-- What an applied statement does, one case for each kind. -/
inductive Effect (st : TrustState) (s : Statement) : TrustState → Prop
  | rootAdd {key : PublicKey} : s.kind = "root_add" → requireKey s = .ok key → st.roots.has s.keyId = false →
      Effect st s { st with roots := st.roots.set s.keyId key }
  | key {key : PublicKey} {n : ℤ} : s.kind = "key" → requireKey s = .ok key → st.keys.has s.keyId = false →
      s.arg = some n → Effect st s { st with keys := st.keys.set s.keyId ⟨key, n, s.stmtSeq, none⟩ }
  | revoke {auth : KeyAuth} {n : ℤ} : s.kind = "revoke" → st.keys.get s.keyId = some auth → s.arg = some n →
      Effect st s
        { st with keys := st.keys.set s.keyId { auth with cutoff := some (auth.cutoff.elim n (min · n)) } }
  | void {n : ℤ} {named : String} : s.kind = "void" → s.signedBy = s.keyId → s.arg = some n →
      s.subjectHash = some named → Effect st s { st with voids := st.voids.set n named }
  | cosign {n : ℤ} {named : String} : s.kind = "cosign" → s.signedBy = s.keyId → s.arg = some n →
      s.subjectHash = some named → Effect st s { st with cosigns := st.cosigns ++ [⟨n, named, s.keyId, s.stmtSeq⟩] }

lemma applyKey_effect {st st' : TrustState} {s : Statement} (hkind : s.kind = "key" ∨ s.kind = "root_add")
    (h : applyStatement st s = .ok st') : Effect st s st' := by
  rw [applyStatement, if_pos hkind] at h
  cases hr : requireKey s with
  | error e => simp [hr] at h
  | ok key =>
    simp only [hr] at h
    by_cases hadd : s.kind = "root_add"
    · rw [if_pos hadd] at h
      by_cases hhas : st.roots.has s.keyId = true
      · simp [hhas] at h
      · rw [if_neg hhas] at h
        obtain rfl := Except.ok.inj h
        exact .rootAdd hadd hr (Bool.not_eq_true _ ▸ hhas)
    · rw [if_neg hadd] at h
      by_cases hhas : st.keys.has s.keyId = true
      · simp [hhas] at h
      · rw [if_neg hhas] at h
        cases ha : s.arg with
        | none => simp [ha] at h
        | some n =>
          simp only [ha] at h
          split_ifs at h
          obtain rfl := Except.ok.inj h
          exact .key (hkind.resolve_right hadd) hr (Bool.not_eq_true _ ▸ hhas) ha

lemma applyRevoke_effect {st st' : TrustState} {s : Statement} (hkind : s.kind = "revoke")
    (h : applyStatement st s = .ok st') : Effect st s st' := by
  rw [applyStatement, if_neg (by simp [hkind]), if_pos hkind] at h
  cases hg : st.keys.get s.keyId with
  | none => simp [hg] at h
  | some auth =>
    cases ha : s.arg with
    | none => simp [hg, ha] at h
    | some n =>
      simp only [hg, ha] at h
      split_ifs at h
      obtain rfl := Except.ok.inj h
      exact .revoke hkind hg ha

lemma applyStatement_effect {st st' : TrustState} {s : Statement} (h : applyStatement st s = .ok st') :
    Effect st s st' := by
  by_cases hkey : s.kind = "key" ∨ s.kind = "root_add"
  · exact applyKey_effect hkey h
  by_cases hrevoke : s.kind = "revoke"
  · exact applyRevoke_effect hrevoke h
  rw [applyStatement, if_neg hkey, if_neg hrevoke] at h
  by_cases hvoid : s.kind = "void"
  · rw [if_pos hvoid] at h
    obtain ⟨row, hrow, rfl⟩ := Checks.map_ok h
    obtain ⟨hown, harg, hnamed⟩ := namedRow_eq hrow
    exact .void hvoid hown harg hnamed
  rw [if_neg hvoid] at h
  by_cases hcosign : s.kind = "cosign"
  · rw [if_pos hcosign] at h
    obtain ⟨row, hrow, rfl⟩ := Checks.map_ok h
    obtain ⟨hown, harg, hnamed⟩ := namedRow_eq hrow
    exact .cosign hcosign hown harg hnamed
  · simp [hcosign] at h

/-- What the loop has checked of a statement before it applies it. -/
structure Vetted (verify : Verifier) (tenant : String) (loop : TrustLoop) (s : Statement) (message : String) :
    Prop where
  position : s.stmtSeq = loop.expected
  linked : s.prevHash = loop.last
  text : trustMessage s.kind tenant s.keyId s.arg s.subjectHash s.stmtSeq s.prevHash = .ok message
  hash : (statementHash message s.signedBy s.signature).text = s.statementHash
  root : loop.st.roots.has s.signedBy = true
  signature : ∃ signer, verify s.signature (utf8 message) = .ok signer ∧ signer.keyId = s.signedBy

lemma trustMessage_error {kind keyId prevHash : String} {arg : Option ℤ} {subjectHash : Option String} {stmtSeq : ℤ} :
    trustMessage kind tenant keyId arg subjectHash stmtSeq prevHash ≠ .error .valueError := by
  unfold trustMessage
  dsimp only
  split_ifs <;> simp only [ne_eq, Except.error.injEq, reduceCtorEq, not_false_eq_true]

lemma clean_then {bad more : List String} (h : (if bad = [] then more else bad) = []) : bad = [] ∧ more = [] := by
  split_ifs at h with hb
  · exact ⟨hb, h⟩
  · exact absurd h hb

lemma signatureProblems_clean {st : TrustState} {s : Statement} {message : String}
    (h : signatureProblems verify st s message = []) :
    st.roots.has s.signedBy = true ∧
      ∃ signer, verify s.signature (utf8 message) = .ok signer ∧ signer.keyId = s.signedBy := by
  unfold signatureProblems at h
  by_cases hroot : st.roots.has s.signedBy = true
  · cases hv : verify s.signature (utf8 message) with
    | error e => simp [hroot, hv] at h
    | ok signer =>
      simp only [hroot, hv, Bool.not_true, Bool.false_eq_true, if_false, complaint_eq_nil, not_not] at h
      exact ⟨hroot, signer, rfl, h⟩
  · simp [hroot] at h

lemma statementProblems_vetted {loop : TrustLoop} {s : Statement} (h : statementProblems verify tenant loop s = []) :
    ∃ message, Vetted verify tenant loop s message := by
  unfold statementProblems at h
  cases hm : trustMessage s.kind tenant s.keyId s.arg s.subjectHash s.stmtSeq s.prevHash with
  | error e =>
    cases e with
    | attestError code message => simp [hm] at h
    | valueError => exact absurd hm trustMessage_error
  | ok message =>
    simp only [hm] at h
    obtain ⟨hbad, hsig⟩ := clean_then h
    rw [List.append_eq_nil_iff, List.append_eq_nil_iff, complaint_eq_nil, complaint_eq_nil, complaint_eq_nil,
      not_not, not_not, not_not] at hbad
    obtain ⟨⟨hseq, hprev⟩, hhash⟩ := hbad
    obtain ⟨hroot, hsigner⟩ := signatureProblems_clean hsig
    exact ⟨message, hseq, hprev, hm, hhash, hroot, hsigner⟩

/-- The part of the trust state that statements decide. -/
structure SameAuthority (a b : TrustState) : Prop where
  roots : b.roots = a.roots
  keys : b.keys = a.keys
  cosigns : b.cosigns = a.cosigns
  voids : b.voids = a.voids

/-- One step: the statement was checked and had its effect, or nothing but the problems and the head has changed. -/
lemma trustStep_cases (loop : TrustLoop) (s : Statement) :
    SameAuthority loop.st (trustStep verify tenant loop s).st ∨
      ∃ message st, Vetted verify tenant loop s message ∧ Effect loop.st s st ∧ applyStatement loop.st s = .ok st ∧
        SameAuthority st (trustStep verify tenant loop s).st := by
  by_cases hbad : statementProblems verify tenant loop s = []
  · obtain ⟨message, hc⟩ := statementProblems_vetted hbad
    cases ha : applyStatement loop.st s with
    | error e =>
      refine .inl ⟨?_, ?_, ?_, ?_⟩ <;> simp [trustStep, hbad, ha]
    | ok st =>
      refine .inr ⟨message, st, hc, applyStatement_effect ha, rfl, ?_, ?_, ?_, ?_⟩ <;> simp [trustStep, hbad, ha]
  · refine .inl ⟨?_, ?_, ?_, ?_⟩ <;> simp [trustStep, hbad]

@[simp] lemma trustStep_expected (loop : TrustLoop) (s : Statement) :
    (trustStep verify tenant loop s).expected = s.stmtSeq + 1 := rfl

@[simp] lemma trustStep_last (loop : TrustLoop) (s : Statement) :
    (trustStep verify tenant loop s).last = s.statementHash := rfl

end ContinuityLedger.Signatures
