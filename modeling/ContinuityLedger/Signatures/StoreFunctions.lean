import Mathlib.Data.Int.Order.Basic
import ContinuityLedger.Foundations.EventFold
import ContinuityLedger.Foundations.HashChain
import ContinuityLedger.Signatures.Attestations

/-! The store functions of the database: they enforce the sequence and the previous hash of each log and compute the
stored hash over the signature as it is given. They do not check signatures. -/

namespace ContinuityLedger.Signatures

open Foundations Foundations.Sha256 Foundations.PyText Foundations.HashChain

/-- Why a store function stores nothing; `sequence` is SQLSTATE JA001. -/
inductive StoreRefusal
  | raised (message : String)
  | sequence (message : String)
  | checkViolation
deriving DecidableEq

def jarvisAttestationMessage (kind tenant subject subjectHash : String) (signerSeq : ℤ) (prevHash signedAt : String) :
    String :=
  "jarvis-attest|v1|" ++ kind ++ "|" ++ tenantPart tenant ++ "|" ++ subject ++ "|" ++ subjectHash ++ "|" ++
    toString signerSeq ++ "|" ++ prevHash ++ "|" ++ signedAt

def jarvisTrustMessage (kind tenant keyId : String) (arg : Option ℤ) (subjectHash : Option String) (stmtSeq : ℤ)
    (prevHash : String) : String :=
  "jarvis-trust|v1|" ++ kind ++ "|" ++ tenantPart tenant ++ "|" ++ keyId ++ "|" ++ (arg.map toString).getD "" ++
    "|" ++ subjectHash.getD "" ++ "|" ++ toString stmtSeq ++ "|" ++ prevHash

def jarvisSignedHash (message keyId signature : String) : Hex64 :=
  sha256Hex (message ++ "\n" ++ keyId ++ "\n" ++ signature)

def isCntrl (c : Char) : Bool := c.toNat < 0x20 || c.toNat = 0x7f

/-- `^SHA256:[A-Za-z0-9+/]{43}$`. -/
def matchesKeyId (s : String) : Bool :=
  startsWith s "SHA256:" && (s.toList.drop 7).length = 43 && (s.toList.drop 7).all (base64Alphabet.contains ·)

/-- What `btrim` takes from both ends. -/
def isBlank (c : Char) : Bool := c = ' ' || c = '\n' || c = '\r' || c = '\t'

def btrim (s : String) : String :=
  String.ofList ((s.toList.dropWhile isBlank).reverse.dropWhile isBlank).reverse

def signatureChecks (signature : String) : Bool :=
  100 ≤ signature.length && signature.length ≤ 4000 && signature = btrim signature &&
    !signature.toList.contains '\r'

/-- The CHECK constraints of `attestations`. -/
def Attestation.checks (a : Attestation) : Bool :=
  1 ≤ a.signerSeq && attestKinds.contains a.kind && 1 ≤ a.subject.length && a.subject.length ≤ 300 &&
    a.subject.toList.all (fun c => c ≠ '|' && !isCntrl c) && isHex64 a.subjectHash && isHex64 a.prevHash &&
    matchesKeyId a.keyId && fits "dddd-dd-ddTdd:dd:ddZ".toList a.signedAt.toList && signatureChecks a.signature &&
    isHex64 a.attestationHash

/-- The CHECK constraints of `trust_statements`. -/
def Statement.checks (s : Statement) : Bool :=
  1 ≤ s.stmtSeq && trustKinds.contains s.kind && matchesKeyId s.keyId &&
    s.pubkey.all (fun k => 50 ≤ k.length && k.length ≤ 600) && s.arg.all (0 ≤ ·) && s.subjectHash.all isHex64 &&
    isHex64 s.prevHash && matchesKeyId s.signedBy && signatureChecks s.signature && isHex64 s.statementHash

structure AttestationCall where
  kind : String
  subject : String
  subjectHash : String
  signerSeq : ℤ
  prevHash : String
  keyId : String
  signedAt : String
  signature : String

structure StatementCall where
  kind : String
  keyId : String
  pubkey : Option String
  arg : Option ℤ
  subjectHash : Option String
  stmtSeq : ℤ
  prevHash : String
  signedBy : String
  signature : String

/-- `ORDER BY signer_seq DESC LIMIT 1`: number and hash, or the start values where no row is found. -/
def attestationHead (log : List Attestation) : ℤ × String :=
  match @List.argmax _ ℤ Int.instLinearOrder.toPreorder Int.decLt Attestation.signerSeq log with
  | none => (0, genesis.text)
  | some a => (a.signerSeq, a.attestationHash)

def statementHead (log : List Statement) : ℤ × String :=
  match @List.argmax _ ℤ Int.instLinearOrder.toPreorder Int.decLt Statement.stmtSeq log with
  | none => (0, genesis.text)
  | some s => (s.stmtSeq, s.statementHash)

def AttestationCall.row (tenant : String) (call : AttestationCall) : Attestation :=
  let message := jarvisAttestationMessage call.kind tenant call.subject call.subjectHash call.signerSeq call.prevHash
    call.signedAt
  { signerSeq := call.signerSeq
    kind := call.kind
    subject := call.subject
    subjectHash := call.subjectHash
    prevHash := call.prevHash
    keyId := call.keyId
    signedAt := call.signedAt
    signature := call.signature
    attestationHash := (jarvisSignedHash message call.keyId call.signature).text }

def StatementCall.row (tenant : String) (call : StatementCall) : Statement :=
  let message := jarvisTrustMessage call.kind tenant call.keyId call.arg call.subjectHash call.stmtSeq call.prevHash
  { stmtSeq := call.stmtSeq
    kind := call.kind
    keyId := call.keyId
    pubkey := call.pubkey
    arg := call.arg
    subjectHash := call.subjectHash
    prevHash := call.prevHash
    signedBy := call.signedBy
    signature := call.signature
    statementHash := (jarvisSignedHash message call.signedBy call.signature).text }

/-- The rows that are left when a call by a session of tenant `session` returns. -/
def jarvisStoreAttestation (session : Option String) (tenant : String) (log : List Attestation)
    (call : AttestationCall) : Except StoreRefusal (List Attestation) :=
  let head := attestationHead log
  if session ≠ some tenant then
    .error (.raised ("jarvis_store_attestation: tenant " ++ tenant ++ " is not the session tenant"))
  else if call.signerSeq ≠ head.1 + 1 then
    .error (.sequence ("signer_seq must be " ++ toString (head.1 + 1) ++ " (the log head is " ++ toString head.1 ++ ")"))
  else if call.prevHash ≠ head.2 then
    .error (.sequence ("prev_hash is not the hash of attestation " ++ toString head.1))
  else if tenant = "" || !(call.row tenant).checks then .error .checkViolation
  else .ok (log ++ [call.row tenant])

def jarvisStoreTrustStatement (session : Option String) (tenant : String) (log : List Statement)
    (call : StatementCall) : Except StoreRefusal (List Statement) :=
  let head := statementHead log
  if session ≠ some tenant then
    .error (.raised ("jarvis_store_trust_statement: tenant " ++ tenant ++ " is not the session tenant"))
  else if call.stmtSeq ≠ head.1 + 1 then
    .error (.sequence ("stmt_seq must be " ++ toString (head.1 + 1) ++ " (the log head is " ++ toString head.1 ++ ")"))
  else if call.prevHash ≠ head.2 then
    .error (.sequence ("prev_hash is not the hash of statement " ++ toString head.1))
  else if tenant = "" || !(call.row tenant).checks then .error .checkViolation
  else .ok (log ++ [call.row tenant])

/-- The log after calls from any sessions, where a refused call leaves it as it was. -/
def storedLog (tenant : String) (calls : List (Option String × AttestationCall)) : List Attestation :=
  calls.foldl (fun log call => (jarvisStoreAttestation call.1 tenant log call.2).toOption.getD log) []

/-- What a row must follow, and what it leaves to the next: a number and a hash. -/
def Attestation.follows (a : Attestation) : ℤ × String := (a.signerSeq - 1, a.prevHash)

def Attestation.leaves (a : Attestation) : ℤ × String := (a.signerSeq, a.attestationHash)

def Attestation.message (tenant : String) (a : Attestation) : String :=
  jarvisAttestationMessage a.kind tenant a.subject a.subjectHash a.signerSeq a.prevHash a.signedAt

/-- A log that the store function wrote: gapless from one, linked, and every row with its hash. -/
structure DatabaseLog (tenant : String) (log : List Attestation) : Prop where
  linked : Linked Attestation.follows Attestation.leaves (0, genesis.text) log
  checks : ∀ a ∈ log, a.checks = true
  hashes : ∀ a ∈ log, a.attestationHash = (jarvisSignedHash (a.message tenant) a.keyId a.signature).text

variable {tenant : String} {log : List Attestation}

lemma linked_lower {p : ℤ × String} (h : Linked Attestation.follows Attestation.leaves p log) :
    ∀ a ∈ log, p.1 < a.signerSeq :=
  gapless_lower (fun _ => rfl) (fun _ => rfl) h

lemma linked_pairwise {p : ℤ × String} (h : Linked Attestation.follows Attestation.leaves p log) :
    log.Pairwise (fun a b => a.signerSeq < b.signerSeq) :=
  gapless_increasing (fun _ => rfl) (fun _ => rfl) h

lemma attestationHead_eq (h : Linked Attestation.follows Attestation.leaves (0, genesis.text) log) :
    attestationHead log = tip Attestation.leaves (0, genesis.text) log := by
  rw [attestationHead, EventFold.argmax_eq_getLast? (linked_pairwise h), tip_eq_getLast?]
  cases log.getLast? <;> rfl

lemma jarvisStoreAttestation_eq {session : Option String} {call : AttestationCall} {log' : List Attestation}
    (h : jarvisStoreAttestation session tenant log call = .ok log') :
    (call.row tenant).follows = attestationHead log ∧ (call.row tenant).checks = true ∧
      log' = log ++ [call.row tenant] := by
  unfold jarvisStoreAttestation at h
  dsimp only at h
  split_ifs at h with hsession hseq hprev hchecks
  simp only [Bool.or_eq_true, decide_eq_true_eq, Bool.not_eq_true', not_or, Bool.not_eq_false] at hchecks
  refine ⟨?_, hchecks.2, (Except.ok.inj h).symm⟩
  refine Prod.ext ?_ (not_not.mp hprev)
  simp only [Attestation.follows, AttestationCall.row]
  omega

lemma DatabaseLog.step {session : Option String} {call : AttestationCall} {log' : List Attestation} (h : DatabaseLog tenant log)
    (hs : jarvisStoreAttestation session tenant log call = .ok log') : DatabaseLog tenant log' := by
  obtain ⟨hfollows, hchecks, rfl⟩ := jarvisStoreAttestation_eq hs
  refine ⟨?_, ?_, ?_⟩
  · rw [linked_append_singleton]
    exact ⟨h.linked, hfollows.trans (attestationHead_eq h.linked)⟩
  · simpa [or_imp, forall_and] using ⟨h.checks, hchecks⟩
  · simpa [or_imp, forall_and] using ⟨h.hashes, rfl⟩

/-- By induction over the calls. -/
lemma storedLog_stored (tenant : String) (calls : List (Option String × AttestationCall)) :
    DatabaseLog tenant (storedLog tenant calls) := by
  unfold storedLog
  induction calls using List.reverseRecOn with
  | nil => exact ⟨trivial, by simp, by simp⟩
  | append_singleton calls call ih =>
    rw [List.foldl_append, List.foldl_cons, List.foldl_nil]
    cases hs : jarvisStoreAttestation call.1 tenant
        (calls.foldl (fun log call => (jarvisStoreAttestation call.1 tenant log call.2).toOption.getD log) []) call.2 with
    | error e => exact ih
    | ok log => exact ih.step hs

end ContinuityLedger.Signatures
