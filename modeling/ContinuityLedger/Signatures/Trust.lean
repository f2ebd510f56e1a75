import ContinuityLedger.Foundations.Dict
import ContinuityLedger.Signatures.Keys

/-! The trust log: statements signed by root keys say which keys may sign, which checkpoints are cosigned and which
attestations are void. -/

namespace ContinuityLedger.Signatures

open Foundations Foundations.Sha256

structure Problem where
  check : String
  subject : String
  problem : String
deriving DecidableEq

lemma complaint_eq_nil {α : Type} {p : Prop} [Decidable p] {b : α} : (if p then [b] else []) = [] ↔ ¬ p := by
  split_ifs with h <;> simp [h]

structure Statement where
  stmtSeq : ℤ
  kind : String
  keyId : String
  pubkey : Option String
  arg : Option ℤ
  subjectHash : Option String
  prevHash : String
  signedBy : String
  signature : String
  statementHash : String

structure KeyAuth where
  key : PublicKey
  fromSeq : ℤ
  stmtSeq : ℤ
  cutoff : Option ℤ

structure Cosign where
  checkpointSeq : ℤ
  checkpointHash : String
  rootId : String
  stmtSeq : ℤ

structure TrustState where
  roots : Dict String PublicKey
  keys : Dict String KeyAuth
  cosigns : List Cosign
  voids : Dict ℤ String
  problems : List Problem
  headSeq : ℤ
  headHash : String

/-- `verify_sshsig`: the key that made a signature over a message, or why it does not verify. -/
abbrev Verifier := String → Bytes → Except String PublicKey

def requireKey (s : Statement) : Except String PublicKey :=
  match s.pubkey.filter (· ≠ "") with
  | none => .error "the statement carries no public key"
  | some text =>
    match parsePublicKey text with
    | .error (.attestError _ message) => .error message
    | .error .valueError => .error ""
    | .ok key =>
      if key.keyId ≠ s.keyId then
        .error ("the public key's fingerprint is " ++ key.keyId ++ ", not " ++ s.keyId)
      else .ok key

/-- A void or a cosignature names its root, a row of the log and the row's hash. -/
def namedRow (s : Statement) (notOwn notNamed : String) : Except String (ℤ × String) :=
  if s.signedBy ≠ s.keyId then .error notOwn else
  match s.arg, s.subjectHash.filter (· ≠ "") with
  | some n, some named => if n < 1 then .error notNamed else .ok (n, named)
  | _, _ => .error notNamed

/-- What a statement does to the trust state, or why it does nothing. -/
def applyStatement (st : TrustState) (s : Statement) : Except String TrustState :=
  if s.kind = "key" ∨ s.kind = "root_add" then
    match requireKey s with
    | .error e => .error e
    | .ok key =>
      if s.kind = "root_add" then
        if st.roots.has s.keyId then .error "that root is already trusted"
        else .ok { st with roots := st.roots.set s.keyId key }
      else if st.keys.has s.keyId then .error "that key is already authorized (rotate to a new key instead)"
      else
        match s.arg with
        | none => .error "a key is authorized from a signer_seq of at least 1"
        | some n =>
          if n < 1 then .error "a key is authorized from a signer_seq of at least 1"
          else .ok { st with keys := st.keys.set s.keyId ⟨key, n, s.stmtSeq, none⟩ }
  else if s.kind = "revoke" then
    match st.keys.get s.keyId with
    | none => .error "that key was never authorized"
    | some auth =>
      match s.arg with
      | none => .error "a revocation needs a cutoff signer_seq of at least 0"
      | some n =>
        if n < 0 then .error "a revocation needs a cutoff signer_seq of at least 0"
        else .ok { st with keys := st.keys.set s.keyId { auth with cutoff := some (auth.cutoff.elim n (min · n)) } }
  else if s.kind = "void" then
    (namedRow s "a void names the root that made it as its key"
      "a void names the attestation's signer_seq and its attestation hash").map fun row =>
        { st with voids := st.voids.set row.1 row.2 }
  else if s.kind = "cosign" then
    (namedRow s "a cosignature names the root that made it as its key"
      "a cosignature names the checkpoint's signer_seq and its attestation hash").map fun row =>
        { st with cosigns := st.cosigns ++ [⟨row.1, row.2, s.keyId, s.stmtSeq⟩] }
  else .error "unknown statement kind"

/-- Where the loop stands: the position and the hash the next statement must continue. -/
structure TrustLoop where
  st : TrustState
  expected : ℤ
  last : String

/-- What a statement's signature is worth: it is looked at only where all else is well. -/
def signatureProblems (verify : Verifier) (st : TrustState) (s : Statement) (message : String) : List String :=
  if !st.roots.has s.signedBy then ["signed by " ++ s.signedBy ++ ", which is not a root key"] else
  match verify s.signature (utf8 message) with
  | .error e => ["bad signature: " ++ e]
  | .ok signer =>
    if signer.keyId ≠ s.signedBy then ["the signature was made by a different key than the one named"] else []

/-- All that is wrong with a statement before it is applied. -/
def statementProblems (verify : Verifier) (tenant : String) (loop : TrustLoop) (s : Statement) : List String :=
  let position :=
    (if s.stmtSeq ≠ loop.expected then
      ["expected statement " ++ toString loop.expected ++ " (a statement is missing or repeated)"] else []) ++
    (if s.prevHash ≠ loop.last then
      ["prev_hash does not match the previous statement (one was removed, reordered or altered)"] else [])
  match trustMessage s.kind tenant s.keyId s.arg s.subjectHash s.stmtSeq s.prevHash with
  | .error (.attestError _ message) => position ++ [message]
  | .error .valueError => position
  | .ok message =>
    let bad := position ++
      (if (statementHash message s.signedBy s.signature).text ≠ s.statementHash then
        ["the stored statement hash does not match its contents"] else [])
    if bad = [] then signatureProblems verify loop.st s message else bad

def trustStep (verify : Verifier) (tenant : String) (loop : TrustLoop) (s : Statement) : TrustLoop :=
  let who := "trust statement " ++ toString s.stmtSeq
  let bad := statementProblems verify tenant loop s
  let applied := if bad = [] then applyStatement loop.st s else .ok loop.st
  let st := match applied with
    | .error _ => loop.st
    | .ok st => st
  let bad := bad ++ (match applied with
    | .error e => [e]
    | .ok _ => [])
  { st := { st with
      problems := st.problems ++ bad.map (fun b => ⟨"trust", who, b⟩)
      headSeq := s.stmtSeq
      headHash := s.statementHash }
    expected := s.stmtSeq + 1
    last := s.statementHash }

def evaluateTrust (verify : Verifier) (tenant : String) (pinnedRoots : Dict String PublicKey)
    (statements : List Statement) : TrustState :=
  ((statements.mergeSort (fun a b => a.stmtSeq ≤ b.stmtSeq)).foldl (trustStep verify tenant)
    ⟨⟨pinnedRoots, [], [], [], [], 0, genesis.text⟩, 1, genesis.text⟩).st

end ContinuityLedger.Signatures
