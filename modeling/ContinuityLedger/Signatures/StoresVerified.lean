import ContinuityLedger.Signatures.StoringInvariant

/-! What the service stores verifies, whatever the transactions interleave, unless a revocation is committed between the
reading of the trust log and the commit of a row that it cuts off. -/

namespace ContinuityLedger.Signatures.Storing

open Foundations Foundations.Sha256 Foundations.HashChain Blocks Evidence

variable {verify : Verifier} {tenant : String} {roots : Dict String PublicKey} {rt : Runtime} {S : Type} [DecidableEq S]

/-! ### A transaction on its own -/

lemma run_append (sys : System S) (pre post : List (Event S)) :
    run verify tenant roots rt sys (pre ++ post) =
      (run verify tenant roots rt sys pre).bind fun mid => run verify tenant roots rt mid post := by
  induction pre generalizing sys with
  | nil => rfl
  | cons ev pre ih =>
    rw [List.cons_append, run, run]
    cases step verify tenant roots rt sys ev with
    | none => rfl
    | some r => exact ih r.1

/-- One commit that does not meet the condition. -/
lemma unrevokedRun_revoked {sys mid : System S} {pre : List (Event S)} {ev : Event S}
    (hr : run verify tenant roots rt sys pre = some mid) (h : unrevoked mid ev = false) :
    unrevokedRun verify tenant roots rt sys (pre ++ [ev]) = false := by
  induction pre generalizing sys with
  | nil =>
    obtain rfl := Option.some.inj hr
    simp [unrevokedRun, h]
  | cons first pre ih =>
    obtain ⟨r, hs, hrest⟩ := Option.bind_eq_some_iff.mp hr
    rw [List.cons_append, unrevokedRun, hs, Option.all_some, ih hrest, Bool.and_false]

section Alone

variable {sys : System S} {s : S}

lemma run_trusted {body : AttestationCall} (hroots : roots.isEmpty = false) (hcall : sys.calls s = none)
    (horder : statementsInOrder sys.committed.statements = sys.committed.statements) :
    run verify tenant roots rt sys [.storeAttestation s body, .read s] =
      some { sys with
        calls := Function.update sys.calls s (some (.readingLog body.normalized sys.committed.statements)) } := by
  simp [run, step, stepBegin, stepRead, System.goes, hroots, hcall, horder]

lemma run_attestation {call : AttestationCall} {trusted : List Statement} {truth : Truth} {log : List Attestation}
    (hcall : sys.calls s = some (.readingLog call trusted)) (hfree : sys.attester = none)
    (horder : bySignerSeq sys.committed.attestations = sys.committed.attestations)
    (htruth : loadTruth rt sys.committed.blocks sys.committed.objects = .ok truth)
    (hcheck : checkAttestation verify tenant roots trusted sys.committed.attestations truth call = .ok ())
    (hstore : jarvisStoreAttestation (some tenant) tenant sys.committed.attestations call = .ok log) :
    run verify tenant roots rt sys [.read s, .read s, .read s, .store s] =
      some { sys with
        attester := some (s, log)
        calls := Function.update sys.calls s (some (.stored call trusted)) } := by
  simp [run, step, stepRead, stepStore, System.goes, System.checked, hcall, hfree, horder, htruth, hcheck, hstore]

lemma run_statement {body : StatementCall} {message : String} {log : List Statement} (hroots : roots.isEmpty = false)
    (hcall : sys.calls s = none) (hfree : sys.truster = none) (hidle : sys.attester = none)
    (horder : statementsInOrder sys.committed.statements = sys.committed.statements)
    (hmessage : statementMessage tenant sys.committed.statements body.normalized = .ok message)
    (hcheck : checkStatement verify tenant roots sys.committed.statements sys.committed.attestations body.normalized =
      .ok ())
    (hstore : jarvisStoreTrustStatement (some tenant) tenant sys.committed.statements body.normalized = .ok log) :
    run verify tenant roots rt sys [.storeTrustStatement s body, .read s, .read s, .store s, .commit s] =
      some { sys with committed := { sys.committed with statements := log } } := by
  have hcalls : Function.update sys.calls s none = sys.calls := by rw [← hcall, Function.update_eq_self]
  simp [run, step, stepBegin, stepRead, stepStore, stepCommit, System.goes, System.checked, System.ends, published,
    hroots, hcall, hfree, hidle, horder, hmessage, hcheck, hstore, hcalls, Except.map]

end Alone

lemma run_then {sys mid last : System S} {pre post : List (Event S)}
    (hpre : run verify tenant roots rt sys pre = some mid) (hpost : run verify tenant roots rt mid post = some last) :
    run verify tenant roots rt sys (pre ++ post) = some last := by
  rw [run_append, hpre]
  exact hpost

lemma ok_of_isSome {ε α : Type} {x : Except ε α} (h : x.toOption.isSome = true) : ∃ a, x = .ok a := by
  cases x with
  | error e => cases h
  | ok a => exact ⟨a, rfl⟩

lemma jarvisStoreAttestation_ok {log : List Attestation} {call : AttestationCall} {row : Attestation}
    (hrow : call.row tenant = row)
    (hhead : (call.signerSeq, call.prevHash) = ((attestationHead log).1 + 1, (attestationHead log).2))
    (ht : tenant ≠ "") (hc : row.checks = true) :
    jarvisStoreAttestation (some tenant) tenant log call = .ok (log ++ [row]) := by
  obtain ⟨hseq, hprev⟩ := Prod.mk.inj hhead
  simp [jarvisStoreAttestation, hseq, hprev, ht, hc, hrow]

lemma jarvisStoreTrustStatement_ok {log : List Statement} {call : StatementCall} {row : Statement}
    (hrow : call.row tenant = row)
    (hhead : (call.stmtSeq, call.prevHash) = ((statementHead log).1 + 1, (statementHead log).2))
    (ht : tenant ≠ "") (hc : row.checks = true) :
    jarvisStoreTrustStatement (some tenant) tenant log call = .ok (log ++ [row]) := by
  obtain ⟨hseq, hprev⟩ := Prod.mk.inj hhead
  simp [jarvisStoreTrustStatement, hseq, hprev, ht, hc, hrow]

lemma checkAttestation_verified {trusted : List Statement} {existing : List Attestation} {truth : Truth}
    {call : AttestationCall} {message : String} {p : ℤ × String} (hn : Normal call.signature)
    (horder : (call.signerSeq, call.prevHash) =
      ((logHead Attestation.leaves existing).1 + 1, (logHead Attestation.leaves existing).2))
    (hm : attestationMessage call.kind tenant call.subject call.subjectHash call.signerSeq call.prevHash call.signedAt =
      .ok message)
    (hl : Linked Statement.follows Statement.leaves p trusted) {out : List Problem × AttestationSummary}
    (hout : evaluateAttestations verify tenant (loopAfter verify tenant roots trusted).st
      (existing ++ [call.row tenant]) truth = .ok out) (hmine : mine (attestationSubject call.signerSeq) out.1 = []) :
    checkAttestation verify tenant roots trusted existing truth call = .ok () := by
  rw [checkAttestation, if_neg (not_not.mpr horder), hm]
  simp only [judgedAttestation_eq hn hm, judgeAttestation]
  rw [evaluateTrust_eq hl, hout]
  exact if_pos hmine

lemma checkStatement_clean {existing : List Statement} {log : List Attestation} {call : StatementCall} {message : String}
    (hn : Normal call.signature) (hm : statementMessage tenant existing call = .ok message)
    (ht : checkTarget log call = .ok ()) {p : ℤ × String}
    (hl : Linked Statement.follows Statement.leaves p (existing ++ [call.row tenant]))
    (hc : (loopAfter verify tenant roots (existing ++ [call.row tenant])).st.problems = []) :
    checkStatement verify tenant roots existing log call = .ok () := by
  rw [checkStatement, hm]
  simp only [bind, Except.bind, ht, judgedStatement_eq hn (statementMessage_ok hm).2, judgeStatement]
  rw [evaluateTrust_eq hl, hc]
  rfl

/-- In every run both logs stay gapless and linked, with one row for each number, and every attestation verifies right
after its commit exactly where no step of the run commits one behind a revocation of its key that the transaction has not
read. -/
theorem stored_verifies_iff {evs : List (Event S)} {sys : System S}
    (h : run verify tenant roots rt System.start evs = some sys) :
    Linked Attestation.follows Attestation.leaves (0, genesis.text) sys.committed.attestations ∧
      (sys.committed.attestations.map Attestation.signerSeq).Nodup ∧
      Linked Statement.follows Statement.leaves (0, genesis.text) sys.committed.statements ∧
      (sys.committed.statements.map Statement.stmtSeq).Nodup ∧
      (commits verify tenant roots rt System.start evs).map Prod.fst = sys.committed.attestations ∧
      ((∀ p ∈ commits verify tenant roots rt System.start evs, Verifies verify tenant roots rt p.2 p.1) ↔
        unrevokedRun verify tenant roots rt System.start evs = true) := by
  obtain ⟨hinv, hlog, hall⟩ := run_inv start_inv h
  have hattestations := hinv.sound.log.linked
  have hstatements := hinv.sound.statements.linked
  refine ⟨hattestations, List.pairwise_map.mpr ((linked_pairwise hattestations).imp ne_of_lt), hstatements,
    List.pairwise_map.mpr ((statements_increasing hstatements).imp ne_of_lt), ?_, hall⟩
  rw [hlog]
  rfl

/-! ### A revocation in between -/

def rootKey : PublicKey := ⟨[], [], "SHA256:RRRRRRRRRRRRRRRRRRRRRRRRRRRRRRRRRRRRRRRRRRR", ""⟩

def signingKey : PublicKey := ⟨[], [], "SHA256:gNSIRW+2Iyiuvsdp/bgjy38bvWHw6wQm3tuoXrl3WjQ", ""⟩

def rootSignature : String := String.ofList (List.replicate 100 'R')

def bySignature : Verifier := fun signature _ => .ok (if signature = rootSignature then rootKey else signingKey)

def oneRoot : Dict String PublicKey := [(rootKey.keyId, rootKey)]

lemma nesting_pos : 0 < 900 := Nat.succ_pos 899

def plainRuntime : Runtime := ⟨⟨id, 900, 900, nesting_pos, nesting_pos⟩, fun _ => true, PyStr.ofString, fun _ => []⟩

def signedByRoot (kind : String) (pubkey : Option String) (arg stmtSeq : ℤ) (prevHash : String) : StatementCall :=
  ⟨kind, signingKey.keyId, pubkey, some arg, none, stmtSeq, prevHash, rootKey.keyId, rootSignature⟩

/-- The root authorizes the signing key. -/
def keyCall : StatementCall :=
  signedByRoot "key" (some "ssh-ed25519 AAAAC3NzaC1lZDI1NTE5AAAAIAcHBwcHBwcHBwcHBwcHBwcHBwcHBwcHBwcHBwcHBwcH") 1 1
    genesis.text

/-- The row that is stored, under its hash. -/
def stored (call : StatementCall) (hash : String) : Statement :=
  ⟨call.stmtSeq, call.kind, call.keyId, call.pubkey, call.arg, call.subjectHash, call.prevHash, call.signedBy,
    call.signature, hash⟩

def keyRow : Statement := stored keyCall "c1bde6b9b2fcf803d1566193787fb5849e7d3541b719c3fdf2abb23d06a7f2f2"

/-- The root revokes it from the start. -/
def revokeCall : StatementCall := signedByRoot "revoke" none 0 2 keyRow.statementHash

def revokeRow : Statement := stored revokeCall "78587a5f296e9eecb1d59dea57b8efbb56438a65f390b6c740f296d541c414f2"

def firstBlock : Block := ⟨"operator", 1, 1, 1, 1, genesis, genesis, genesis, 1, 0, "operator"⟩

def blockCall : AttestationCall where
  kind := "block"
  subject := "block:1"
  subjectHash := genesis.text
  signerSeq := 1
  prevHash := genesis.text
  keyId := signingKey.keyId
  signedAt := "2026-10-07T12:00:00Z"
  signature := String.ofList (List.replicate 100 'W')

def blockRow : Attestation :=
  ⟨1, "block", "block:1", genesis.text, genesis.text, signingKey.keyId, "2026-10-07T12:00:00Z", blockCall.signature,
    "2a858de1088b73cbcb64b958ceb8e64b578c42e95b06b4c520e4db9ad740344c"⟩

lemma stored_eq {call : StatementCall} {hash : String} (hn : Normal call.signature)
    (hp : call.pubkey.filter (· ≠ "") = call.pubkey) (hs : call.subjectHash.filter (· ≠ "") = call.subjectHash)
    (hh : (call.row tenant).statementHash = hash) : call.normalized.row tenant = stored call hash := by
  have hcall : call.normalized = call := by rw [StatementCall.normalized, hp, hs, hn]
  rw [hcall, stored, ← hh]
  rfl

lemma signatures_normal : Normal rootSignature ∧ Normal blockCall.signature := by
  unfold Normal
  decide +kernel

/-- The hashes that the database computes. -/
lemma rows_hash : (keyCall.row "operator").statementHash = keyRow.statementHash ∧
    (revokeCall.row "operator").statementHash = revokeRow.statementHash ∧
    (blockCall.row "operator").attestationHash = blockRow.attestationHash := by
  decide +kernel

lemma rows_admitted : keyRow.checks = true ∧ revokeRow.checks = true ∧ blockRow.checks = true := by
  decide +kernel

lemma keyRow_eq : keyCall.normalized.row "operator" = keyRow :=
  stored_eq signatures_normal.1 (by decide) (by decide) rows_hash.1

lemma revokeRow_eq : revokeCall.normalized.row "operator" = revokeRow :=
  stored_eq signatures_normal.1 (by decide) (by decide) rows_hash.2.1

lemma blockRow_eq : blockCall.normalized.row "operator" = blockRow := by
  have hcall : blockCall.normalized = blockCall := by rw [AttestationCall.normalized, signatures_normal.2]
  rw [hcall]
  calc
    blockCall.row "operator" = { blockRow with attestationHash := (blockCall.row "operator").attestationHash } := rfl
    _ = blockRow := by rw [rows_hash.2.2]

/-- The texts that are signed can be built. -/
lemma messages_built : (statementMessage "operator" [] keyCall.normalized).toOption.isSome = true ∧
    (statementMessage "operator" [keyRow] revokeCall.normalized).toOption.isSome = true ∧
    (attestationMessage blockCall.kind "operator" blockCall.subject blockCall.subjectHash blockCall.signerSeq
      blockCall.prevHash blockCall.signedAt).toOption.isSome = true := by
  decide

lemma revoke_linked : Linked Statement.follows Statement.leaves (0, genesis.text) ([keyRow] ++ [revokeRow]) :=
  ⟨by decide, rfl, trivial⟩

lemma key_linked : Linked Statement.follows Statement.leaves (0, genesis.text) [keyRow] :=
  ((linked_append_singleton ..).mp revoke_linked).1

lemma trustStep_eq {loop : TrustLoop} {r : Statement} {st : TrustState}
    (hbad : statementProblems verify tenant loop r = []) (ha : applyStatement loop.st r = .ok st)
    (hp : st.problems = []) : trustStep verify tenant loop r =
      ⟨{ st with headSeq := r.stmtSeq, headHash := r.statementHash }, r.stmtSeq + 1, r.statementHash⟩ := by
  simp [trustStep, hbad, ha, hp]

def parsedKey : PublicKey :=
  ⟨[0, 0, 0, 11] ++ utf8 "ssh-ed25519" ++ [0, 0, 0, 32] ++ List.replicate 32 7, List.replicate 32 7, signingKey.keyId, ""⟩

/-- The trust state while the key stands, and when it is cut off. -/
def keyState (cutoff : Option ℤ) (headSeq : ℤ) (headHash : String) : TrustState :=
  ⟨oneRoot, [(signingKey.keyId, ⟨parsedKey, 1, 1, cutoff⟩)], [], [], [], headSeq, headHash⟩

def keyLoop : TrustLoop := ⟨keyState none 1 keyRow.statementHash, 2, keyRow.statementHash⟩

/-- Nothing is wrong with either statement. -/
lemma statements_fine : (requireKey keyRow).toOption = some parsedKey ∧
    statementProblems bySignature "operator" (loopAfter bySignature "operator" oneRoot []) keyRow = [] ∧
    statementProblems bySignature "operator" keyLoop revokeRow = [] := by
  decide +kernel

lemma key_required : requireKey keyRow = .ok parsedKey := by
  have h := statements_fine.1
  obtain ⟨key, hkey⟩ := ok_of_isSome (x := requireKey keyRow) (by rw [h]; rfl)
  rw [hkey] at h ⊢
  exact congrArg Except.ok (Option.some.inj h)

lemma key_loop : loopAfter bySignature "operator" oneRoot [keyRow] = keyLoop := by
  have ha : applyStatement (loopAfter bySignature "operator" oneRoot []).st keyRow =
      .ok (keyState none 0 genesis.text) := by
    rw [applyStatement, if_pos (.inl rfl), key_required]
    rfl
  rw [← List.nil_append [keyRow], loopAfter_snoc, trustStep_eq statements_fine.2.1 ha rfl]
  rfl

lemma revoke_loop : loopAfter bySignature "operator" oneRoot ([keyRow] ++ [revokeRow]) =
    ⟨keyState (some 0) 2 revokeRow.statementHash, 3, revokeRow.statementHash⟩ := by
  have ha : applyStatement keyLoop.st revokeRow = .ok (keyState (some 0) 1 keyRow.statementHash) := rfl
  rw [loopAfter_snoc, key_loop, trustStep_eq statements_fine.2.2 ha rfl]
  rfl

/-- The block verifies by the trust log of the time when the key was authorized. -/
lemma block_verified : ∃ out, evaluateAttestations bySignature "operator" keyLoop.st [blockRow]
    (intactTruth [firstBlock] []) = .ok out ∧ mine (attestationSubject blockRow.signerSeq) out.1 = [] := by
  have h : (evaluateAttestations bySignature "operator" keyLoop.st [blockRow]
      (intactTruth [firstBlock] [])).toOption.map (fun out => mine (attestationSubject blockRow.signerSeq) out.1) =
        some [] := by decide +kernel
  obtain ⟨out, hout, hmine⟩ := Option.map_eq_some_iff.mp h
  cases he : evaluateAttestations bySignature "operator" keyLoop.st [blockRow] (intactTruth [firstBlock] []) with
  | error e =>
    rw [he] at hout
    cases hout
  | ok found =>
    rw [he] at hout
    obtain rfl := Option.some.inj hout
    exact ⟨found, rfl, hmine⟩

lemma key_checked : checkStatement bySignature "operator" oneRoot [] [] keyCall.normalized = .ok () := by
  obtain ⟨message, hm⟩ := ok_of_isSome messages_built.1
  refine checkStatement_clean (normalizeSignature_idem _) hm rfl (p := (0, genesis.text)) ?_ ?_
  · rw [keyRow_eq]
    exact key_linked
  · rw [keyRow_eq, List.nil_append, key_loop]
    rfl

lemma revoke_checked : checkStatement bySignature "operator" oneRoot [keyRow] [] revokeCall.normalized = .ok () := by
  obtain ⟨message, hm⟩ := ok_of_isSome messages_built.2.1
  refine checkStatement_clean (normalizeSignature_idem _) hm rfl (p := (0, genesis.text)) ?_ ?_
  · rw [revokeRow_eq]
    exact revoke_linked
  · rw [revokeRow_eq, revoke_loop]
    rfl

lemma block_checked : checkAttestation bySignature "operator" oneRoot [keyRow] [] (intactTruth [firstBlock] [])
    blockCall.normalized = .ok () := by
  obtain ⟨message, hm⟩ := ok_of_isSome messages_built.2.2
  obtain ⟨out, hout, hmine⟩ := block_verified
  refine checkAttestation_verified (normalizeSignature_idem _) (by decide) hm key_linked ?_ hmine
  rw [key_loop, blockRow_eq, List.nil_append]
  exact hout

/-- The tables with the block, after some statements and attestations. -/
def tablesWith (statements : List Statement) (attestations : List Attestation) : Committed :=
  ⟨statements, attestations, [firstBlock], []⟩

def idle (c : Committed) : System Bool := ⟨c, none, none, fun _ => none⟩

def statementEvents (body : StatementCall) : List (Event Bool) :=
  [.storeTrustStatement true body, .read true, .read true, .store true, .commit true]

def attestationReads : List (Event Bool) := [.storeAttestation false blockCall, .read false]

def attestationStores : List (Event Bool) := [.read false, .read false, .read false, .store false]

lemma key_run : run bySignature "operator" oneRoot plainRuntime System.start
    (statementEvents keyCall ++ [.sealBlock firstBlock]) = some (idle (tablesWith [keyRow] [])) := by
  obtain ⟨message, hm⟩ := ok_of_isSome messages_built.1
  have hstore := @jarvisStoreTrustStatement_ok "operator" [] _ _ keyRow_eq rfl (by decide) rows_admitted.1
  have hsorted : statementsInOrder [] = [] := statementsInOrder_eq (p := (0, genesis.text)) trivial
  exact run_then (run_statement rfl rfl rfl rfl hsorted hm key_checked hstore) rfl

lemma revoke_run {calls : Bool → Option Progress} (hcall : calls true = none) :
    run bySignature "operator" oneRoot plainRuntime { idle (tablesWith [keyRow] []) with calls := calls }
        (statementEvents revokeCall) =
      some { idle (tablesWith ([keyRow] ++ [revokeRow]) []) with calls := calls } := by
  obtain ⟨message, hm⟩ := ok_of_isSome messages_built.2.1
  have hstore := @jarvisStoreTrustStatement_ok "operator" [keyRow] _ _ revokeRow_eq rfl (by decide)
    rows_admitted.2.1
  exact run_statement rfl hcall rfl rfl (statementsInOrder_eq key_linked) hm revoke_checked hstore

/-- The transaction has read the trust log. -/
def trusting : System Bool :=
  { idle (tablesWith [keyRow] []) with
    calls := Function.update (fun _ => none) false (some (.readingLog blockCall.normalized [keyRow])) }

lemma trusting_run : run bySignature "operator" oneRoot plainRuntime (idle (tablesWith [keyRow] [])) attestationReads =
    some trusting :=
  run_trusted rfl rfl (statementsInOrder_eq key_linked)

/-- Whatever has been stated meanwhile, the transaction takes the lock and adds its row. -/
def adding (statements : List Statement) : System Bool :=
  { idle (tablesWith statements []) with
    attester := some (false, [blockRow])
    calls := Function.update trusting.calls false (some (.stored blockCall.normalized [keyRow])) }

lemma adding_run (statements : List Statement) : run bySignature "operator" oneRoot plainRuntime
    { idle (tablesWith statements []) with calls := trusting.calls } attestationStores = some (adding statements) := by
  have hstore := @jarvisStoreAttestation_ok "operator" [] _ _ blockRow_eq rfl (by decide) rows_admitted.2.2
  have hintact : Intact plainRuntime [] := by simp [Intact]
  have hcall : trusting.calls false = some (.readingLog blockCall.normalized [keyRow]) := by simp [trusting]
  exact run_attestation hcall rfl (bySignerSeq_eq .nil) (loadTruth_intact hintact _) block_checked hstore

def honestEvents : List (Event Bool) :=
  statementEvents keyCall ++ [.sealBlock firstBlock] ++ attestationReads ++ attestationStores ++ [.commit false]

/-- The revocation is committed after the trust log has been read. -/
def racedEvents : List (Event Bool) :=
  statementEvents keyCall ++ [.sealBlock firstBlock] ++ attestationReads ++ statementEvents revokeCall ++
    attestationStores

lemma commit_run (statements : List Statement) : ∃ sys,
    run bySignature "operator" oneRoot plainRuntime (adding statements) [.commit false] = some sys ∧
      sys.committed = tablesWith statements [blockRow] := by
  have hcall : (adding statements).calls false = some (.stored blockCall.normalized [keyRow]) := by simp [adding]
  refine ⟨_, by simp only [run, step, stepCommit, hcall, Option.bind_some]; rfl, rfl⟩

lemma honest_run : ∃ sys, run bySignature "operator" oneRoot plainRuntime System.start honestEvents = some sys ∧
    sys.committed = tablesWith [keyRow] [blockRow] := by
  obtain ⟨sys, hrun, hc⟩ := commit_run [keyRow]
  exact ⟨sys, run_then (run_then (run_then key_run trusting_run) (adding_run [keyRow])) hrun, hc⟩

lemma raced_run : run bySignature "operator" oneRoot plainRuntime System.start racedEvents =
    some (adding ([keyRow] ++ [revokeRow])) :=
  run_then (run_then (run_then key_run trusting_run) (revoke_run (by simp))) (adding_run _)

/-- A key is authorized, and a block is attested under it. -/
theorem stored_verifies_iff_honest : ∃ sys,
    run bySignature "operator" oneRoot plainRuntime System.start honestEvents = some sys ∧
      sys.committed.attestations = [blockRow] ∧
      (commits bySignature "operator" oneRoot plainRuntime System.start honestEvents).map Prod.fst = [blockRow] ∧
      ((∀ p ∈ commits bySignature "operator" oneRoot plainRuntime System.start honestEvents,
          Verifies bySignature "operator" oneRoot plainRuntime p.2 p.1) ↔
        unrevokedRun bySignature "operator" oneRoot plainRuntime System.start honestEvents = true) := by
  obtain ⟨sys, hrun, hc⟩ := honest_run
  obtain ⟨-, -, -, -, hlog, hall⟩ := stored_verifies_iff hrun
  exact ⟨sys, hrun, by rw [hc]; rfl, by rw [hlog, hc]; rfl, hall⟩

/-- The key is revoked from the start after the transaction has read the trust log, and the row is stored all the
same. -/
theorem raced_row_unverified : ¬ ∀ (evs : List (Event Bool)) (sys : System Bool),
    run bySignature "operator" oneRoot plainRuntime System.start evs = some sys →
      ∀ p ∈ commits bySignature "operator" oneRoot plainRuntime System.start evs,
        Verifies bySignature "operator" oneRoot plainRuntime p.2 p.1 := by
  intro h
  obtain ⟨sys, hrun, -⟩ := commit_run ([keyRow] ++ [revokeRow])
  have hlast := run_then raced_run hrun
  have hrevoked : unrevoked (adding ([keyRow] ++ [revokeRow])) (.commit false) = false := by
    have hcall : (adding ([keyRow] ++ [revokeRow])).calls false = some (.stored blockCall.normalized [keyRow]) := by
      simp [adding]
    simp only [unrevoked, hcall]
    rfl
  obtain ⟨-, -, hall⟩ := run_inv start_inv hlast
  have hfalse := unrevokedRun_revoked raced_run hrevoked
  rw [hall.mp (h _ sys hlast)] at hfalse
  cases hfalse

end ContinuityLedger.Signatures.Storing
