import ContinuityLedger.Foundations.PyStr
import ContinuityLedger.Foundations.Wire
import ContinuityLedger.Signatures.Base64

/-! OpenSSH signatures: their armor, the blob inside it, and what `parse_sshsig` reads of it or raises. -/

namespace ContinuityLedger.Signatures.Sshsig

open Foundations Foundations.Sha256

/-! ### Reading -/

/-- What stops the parser: only `signatureInvalid` is meant to leave it. -/
inductive Thrown
  | raised (e : Raised)
  | structError
  | signatureInvalid (message : String)
deriving DecidableEq

abbrev Parsing := Except Thrown

/-- `if c: raise SignatureInvalid(message)`. -/
def refuse (c : Prop) [Decidable c] (message : String) : Parsing Unit :=
  if c then .error (.signatureInvalid message) else .ok ()

/-- `except … as exc: raise SignatureInvalid(message)`. -/
def reraised {α : Type} (caught : Thrown → Option String) : Parsing α → Parsing α
  | .ok a => .ok a
  | .error e =>
    match caught e with
    | some message => .error (.signatureInvalid message)
    | none => .error e

def onValueError (message : String) : Thrown → Option String
  | .raised .valueError => some message
  | _ => none

def onStructError (message : String) : Thrown → Option String
  | .raised .valueError => some message
  | .structError => some message
  | _ => none

def onAttestError : Thrown → Option String
  | .raised (.attestError _ message) => some message
  | _ => none

def blank : PyChar → Bool
  | .scalar c => PyText.isspace c
  | .surrogate _ => false

def lineFeed : PyChar := .scalar '\n'

/-- `replace("\r\n", "\n").replace("\r", "\n")`. -/
def unixLines : PyStr → PyStr
  | .scalar '\r' :: .scalar '\n' :: s => lineFeed :: unixLines s
  | .scalar '\r' :: s => lineFeed :: unixLines s
  | p :: s => p :: unixLines s
  | [] => []

def stripped (s : PyStr) : PyStr := ((s.dropWhile blank).reverse.dropWhile blank).reverse

def normalizeSignature (armored : PyStr) : PyStr := stripped (unixLines armored)

def armorBegin : PyStr := PyStr.ofString "-----BEGIN SSH SIGNATURE-----"
def armorEnd : PyStr := PyStr.ofString "-----END SSH SIGNATURE-----"

def character : PyChar → Option Char
  | .scalar c => some c
  | .surrogate _ => none

/-- `b64decode(s, validate=True)`: what is no ASCII or no base64 is a `ValueError`. -/
def b64decode (s : PyStr) : Parsing Bytes :=
  match (s.mapM character).bind fun cs => base64Decode (String.ofList cs) with
  | some bs => .ok bs
  | none => .error (.raised .valueError)

/-- The blob between the lines of the armor. -/
def unarmor (armored : PyStr) : Parsing Bytes :=
  let lines := (normalizeSignature armored).splitOn lineFeed
  if lines.length < 3 ∨ lines.head? ≠ some armorBegin ∨ lines.getLast? ≠ some armorEnd then
    .error (.signatureInvalid "not an OpenSSH signature (missing the BEGIN/END SSH SIGNATURE lines)")
  else reraised (onValueError "the signature body is not valid base64") (b64decode (lines.drop 1).dropLast.flatten)

def readWire (bs : Bytes) : Parsing (Bytes × Bytes) :=
  match readString bs with
  | some r => .ok r
  | none => .error (.raised .valueError)

/-- `struct.unpack_from(">I", blob, 6)`. -/
def unpackVersion (blob : Bytes) : Parsing ℕ :=
  match blob.drop 6 with
  | a :: b :: c :: d :: _ => .ok (((a.toNat * 256 + b.toNat) * 256 + c.toNat) * 256 + d.toNat)
  | _ => .error .structError

structure WireStrings where
  pub : Bytes
  name : Bytes
  reserved : Bytes
  algorithm : Bytes
  sig : Bytes
deriving DecidableEq

/-- The strings of a blob and what follows the last of them. -/
def wireStrings (blob : Bytes) : Parsing (WireStrings × Bytes) := do
  let version ← unpackVersion blob
  refuse (version ≠ 1) ("unsupported SSHSIG version " ++ toString version)
  let pub ← readWire (blob.drop 10)
  let name ← readWire pub.2
  let reserved ← readWire name.2
  let algorithm ← readWire reserved.2
  let sig ← readWire algorithm.2
  return ({ pub := pub.1, name := name.1, reserved := reserved.1, algorithm := algorithm.1, sig := sig.1 }, sig.2)

structure ParsedSignature where
  key : PublicKey
  name : String
  hashAlgorithm : String
  signature : Bytes
deriving DecidableEq

def liftRaised {α : Type} : Except Raised α → Parsing α
  | .ok a => .ok a
  | .error e => .error (.raised e)

/-- The two strings inside the signature and what follows them. -/
def signatureStrings (sig : Bytes) : Parsing (Bytes × Bytes × Bytes) := do
  let kind ← readWire sig
  let raw ← readWire kind.2
  return (kind.1, raw.1, raw.2)

def parseBlob (blob : Bytes) : Parsing ParsedSignature := do
  refuse (¬ (utf8 "SSHSIG").isPrefixOf blob) "the signature does not start with SSHSIG"
  let strings ← reraised (onStructError "the signature is truncated") (wireStrings blob)
  refuse (strings.2 ≠ [] ∨ strings.1.reserved ≠ []) "the signature has unexpected trailing or reserved data"
  let key ← reraised onAttestError (liftRaised (publicKeyFromBlob strings.1.pub ""))
  let sig ← reraised (onValueError "the signature blob is truncated") (signatureStrings strings.1.sig)
  refuse (sig.1 ≠ utf8 "ssh-ed25519" ∨ sig.2.1.length ≠ 64 ∨ sig.2.2 ≠ []) "the signature is not a plain Ed25519 signature"
  return { key := key, name := String.ofList (PyStr.decodeReplace strings.1.name),
           hashAlgorithm := asciiText strings.1.algorithm, signature := sig.2.1 }

def parseSshsig (armored : PyStr) : Parsing ParsedSignature := do
  let blob ← unarmor armored
  parseBlob blob

/-! ### Only invalid signatures -/

/-- An error that leaves the parser is the one it is meant to raise. -/
def OnlyInvalid {α : Type} (x : Parsing α) : Prop := ∀ e, x = .error e → ∃ message, e = .signatureInvalid message

lemma onlyInvalid_ok {α : Type} (a : α) : OnlyInvalid (.ok a : Parsing α) := fun _ h => by cases h

lemma refuse_error {c : Prop} [Decidable c] {message : String} {e : Thrown} (h : refuse c message = .error e) :
    e = .signatureInvalid message := by
  unfold refuse at h
  split_ifs at h
  exact (Except.error.inj h).symm

lemma onlyInvalid_refuse {c : Prop} [Decidable c] {message : String} : OnlyInvalid (refuse c message) :=
  fun _ h => ⟨message, refuse_error h⟩

lemma onlyInvalid_bind {α β : Type} {x : Parsing α} {f : α → Parsing β} (hx : OnlyInvalid x)
    (hf : ∀ a, OnlyInvalid (f a)) : OnlyInvalid (x >>= f) := by
  intro e h
  cases x with
  | ok a => exact hf a e h
  | error e' =>
    obtain rfl := Except.error.inj h
    exact hx _ rfl

/-- A handler that catches everything the block can raise but invalid signatures. -/
lemma onlyInvalid_reraised {α : Type} {caught : Thrown → Option String} {x : Parsing α}
    (h : ∀ e, x = .error e → (∃ m, caught e = some m) ∨ ∃ m, e = .signatureInvalid m) : OnlyInvalid (reraised caught x) := by
  intro e he
  cases x with
  | ok a => cases he
  | error e' =>
    rcases h e' rfl with ⟨m, hm⟩ | ⟨m, rfl⟩
    · simp only [reraised, hm] at he
      cases he
      exact ⟨m, rfl⟩
    · cases hc : caught (.signatureInvalid m) with
      | none =>
        simp only [reraised, hc] at he
        cases he
        exact ⟨m, rfl⟩
      | some m' =>
        simp only [reraised, hc] at he
        cases he
        exact ⟨m', rfl⟩

lemma readWire_error {bs : Bytes} {e : Thrown} (h : readWire bs = .error e) : e = .raised .valueError := by
  unfold readWire at h
  split at h
  · cases h
  · exact (Except.error.inj h).symm

lemma bind_error {α β : Type} {x : Parsing α} {f : α → Parsing β} {e : Thrown} (h : x >>= f = .error e) :
    x = .error e ∨ ∃ a, x = .ok a ∧ f a = .error e := by
  cases x with
  | ok a => exact Or.inr ⟨a, rfl, h⟩
  | error e' =>
    obtain rfl := Except.error.inj h
    exact Or.inl rfl

lemma signatureStrings_error {sig : Bytes} {e : Thrown} (h : signatureStrings sig = .error e) : e = .raised .valueError := by
  rcases bind_error h with h | ⟨kind, -, h⟩
  · exact readWire_error h
  · rcases bind_error h with h | ⟨raw, -, h⟩
    · exact readWire_error h
    · cases h

lemma wireStrings_error {blob : Bytes} {e : Thrown} (h : wireStrings blob = .error e) :
    e = .structError ∨ e = .raised .valueError ∨ ∃ m, e = .signatureInvalid m := by
  rcases bind_error h with h | ⟨version, -, h⟩
  · unfold unpackVersion at h
    split at h
    · cases h
    · exact Or.inl (Except.error.inj h).symm
  · rcases bind_error h with h | ⟨-, -, h⟩
    · exact Or.inr (Or.inr ⟨_, refuse_error h⟩)
    · rcases bind_error h with h | ⟨pub, -, h⟩
      · exact Or.inr (Or.inl (readWire_error h))
      rcases bind_error h with h | ⟨name, -, h⟩
      · exact Or.inr (Or.inl (readWire_error h))
      rcases bind_error h with h | ⟨reserved, -, h⟩
      · exact Or.inr (Or.inl (readWire_error h))
      rcases bind_error h with h | ⟨algorithm, -, h⟩
      · exact Or.inr (Or.inl (readWire_error h))
      rcases bind_error h with h | ⟨sig, -, h⟩
      · exact Or.inr (Or.inl (readWire_error h))
      · cases h

lemma publicKeyFromBlob_error {blob : Bytes} {comment : String} {e : Raised} (h : publicKeyFromBlob blob comment = .error e) :
    ∃ code message, e = .attestError code message := by
  unfold publicKeyFromBlob at h
  split at h
  · exact ⟨_, _, (Except.error.inj h).symm⟩
  · split at h
    · exact ⟨_, _, (Except.error.inj h).symm⟩
    · split_ifs at h
      · exact ⟨_, _, (Except.error.inj h).symm⟩
      · exact ⟨_, _, (Except.error.inj h).symm⟩

lemma unarmor_onlyInvalid (armored : PyStr) : OnlyInvalid (unarmor armored) := by
  unfold unarmor
  dsimp only
  split_ifs with hlines
  · exact fun e he => ⟨_, (Except.error.inj he).symm⟩
  · refine onlyInvalid_reraised fun e he => Or.inl ?_
    unfold b64decode at he
    split at he
    · cases he
    · obtain rfl := Except.error.inj he
      exact ⟨_, rfl⟩

lemma parseBlob_onlyInvalid (blob : Bytes) : OnlyInvalid (parseBlob blob) := by
  have hstrings : OnlyInvalid (reraised (onStructError "the signature is truncated") (wireStrings blob)) := by
    refine onlyInvalid_reraised fun e he => ?_
    rcases wireStrings_error he with rfl | rfl | hm
    · exact Or.inl ⟨_, rfl⟩
    · exact Or.inl ⟨_, rfl⟩
    · exact Or.inr hm
  have hkey : ∀ pub, OnlyInvalid (reraised onAttestError (liftRaised (publicKeyFromBlob pub ""))) := by
    refine fun pub => onlyInvalid_reraised fun e he => Or.inl ?_
    cases hp : publicKeyFromBlob pub "" with
    | ok key => simp [hp, liftRaised] at he
    | error r =>
      obtain ⟨code, message, rfl⟩ := publicKeyFromBlob_error hp
      rw [hp] at he
      obtain rfl := Except.error.inj he
      exact ⟨message, rfl⟩
  have hsig : ∀ sig, OnlyInvalid (reraised (onValueError "the signature blob is truncated") (signatureStrings sig)) := by
    refine fun sig => onlyInvalid_reraised fun e he => Or.inl ?_
    obtain rfl := signatureStrings_error he
    exact ⟨_, rfl⟩
  refine onlyInvalid_bind onlyInvalid_refuse fun _ => onlyInvalid_bind hstrings fun strings => ?_
  refine onlyInvalid_bind onlyInvalid_refuse fun _ => onlyInvalid_bind (hkey _) fun key => ?_
  refine onlyInvalid_bind (hsig _) fun sig => onlyInvalid_bind onlyInvalid_refuse fun _ => ?_
  exact onlyInvalid_ok _

lemma parseSshsig_onlyInvalid (armored : PyStr) : OnlyInvalid (parseSshsig armored) :=
  onlyInvalid_bind (unarmor_onlyInvalid armored) parseBlob_onlyInvalid

end ContinuityLedger.Signatures.Sshsig
