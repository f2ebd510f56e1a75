import ContinuityLedger.Foundations.Delimited
import ContinuityLedger.Foundations.Dict
import ContinuityLedger.Foundations.PyText

/-! What signatures sign: the texts of attestations, trust statements and checkpoints, their hashes, and the subjects that are read
back; and OpenSSH public keys: the line that holds one, its base64 blob, and the fingerprint that is its id. -/

namespace ContinuityLedger.Signatures

open Foundations Foundations.Sha256 Foundations.PyText Foundations.Delimited

/-- Why a call ends: a refusal of the module's own, or an error that Python raises and nothing here catches. -/
inductive Raised
  | attestError (code message : String)
  | valueError
deriving DecidableEq

def attestKinds : List String := ["block", "receipt", "checkpoint"]

def trustKinds : List String := ["key", "revoke", "root_add", "cosign", "void"]

def normalizeSignature (armored : String) : String := strip (String.ofList (newlines armored.toList))

def tenantPart (tenant : String) : String := toString (utf8 tenant).length ++ ":" ++ tenant

def clean (value what : String) : Except Raised String :=
  if value.toList.any (fun c => c = '|' || c = '\n' || c = '\r') then
    .error (.attestError "field_invalid" (what ++ " cannot contain | or a line break"))
  else .ok value

def attestationMessage (kind tenant subject subjectHash : String) (signerSeq : ℤ) (prevHash signedAt : String) :
    Except Raised String :=
  if kind ∉ attestKinds then
    .error (.attestError "attestation_kind_unknown" ("an attestation is one of " ++ ", ".intercalate attestKinds))
  else if !matchesHex64 subjectHash || !matchesHex64 prevHash then
    .error (.attestError "field_invalid" "subject_hash and prev_hash must be 64 lowercase hex characters")
  else if !matchesSignedAt signedAt then
    .error (.attestError "field_invalid" "signed_at looks like 2026-10-07T12:00:00Z")
  else (clean subject "subject").map fun subject =>
    "jarvis-attest|v1|" ++ kind ++ "|" ++ tenantPart tenant ++ "|" ++ subject ++ "|" ++ subjectHash ++ "|" ++
      toString signerSeq ++ "|" ++ prevHash ++ "|" ++ signedAt

def attestationHash (message keyId signature : String) : Hex64 :=
  sha256Hex (message ++ "\n" ++ keyId ++ "\n" ++ normalizeSignature signature)

def trustMessage (kind tenant keyId : String) (arg : Option ℤ) (subjectHash : Option String) (stmtSeq : ℤ)
    (prevHash : String) : Except Raised String :=
  let named := subjectHash.getD ""
  if kind ∉ trustKinds then
    .error (.attestError "trust_kind_unknown" ("a trust statement is one of " ++ ", ".intercalate trustKinds))
  else if named ≠ "" && !matchesHex64 named then
    .error (.attestError "field_invalid" "subject_hash must be 64 lowercase hex characters")
  else .ok ("jarvis-trust|v1|" ++ kind ++ "|" ++ tenantPart tenant ++ "|" ++ keyId ++ "|" ++
    (arg.map toString).getD "" ++ "|" ++ named ++ "|" ++ toString stmtSeq ++ "|" ++ prevHash)

def statementHash (message signedBy signature : String) : Hex64 :=
  sha256Hex (message ++ "\n" ++ signedBy ++ "\n" ++ normalizeSignature signature)

def checkpointSubject (coveredSeq : ℤ) (coveredHead : String) (tipHeight : ℤ) (tipHash : String) : String :=
  "checkpoint:" ++ toString coveredSeq ++ ":" ++ coveredHead ++ ":" ++ toString tipHeight ++ ":" ++ tipHash

def checkpointHash (tenant : String) (coveredSeq : ℤ) (coveredHead : String) (tipHeight : ℤ) (tipHash : String) :
    Hex64 :=
  sha256Hex ("jarvis-checkpoint|v1|" ++ tenantPart tenant ++ "|" ++ toString coveredSeq ++ "|" ++ coveredHead ++
    "|" ++ toString tipHeight ++ "|" ++ tipHash)

structure Checkpoint where
  coveredSeq : ℕ
  coveredHead : String
  tipHeight : ℕ
  tipHash : String
deriving DecidableEq

/-- `int` refuses some digits that `isdigit` lets through. -/
def parseInt (s : String) : Except Raised ℕ :=
  match int s with
  | some n => .ok n
  | none => .error .valueError

def parseCheckpointSubject (subject : String) : Except Raised (Option Checkpoint) :=
  match split ':' subject with
  | [kind, seq, head, height, tip] =>
    if kind ≠ "checkpoint" || !isdigit seq || !isdigit height then .ok none
    else if !matchesHex64 head || !matchesHex64 tip then .ok none
    else do
      let coveredSeq ← parseInt seq
      let tipHeight ← parseInt height
      pure (some ⟨coveredSeq, head, tipHeight, tip⟩)
  | _ => .ok none

/-- `block:([1-9][0-9]*)`, the whole text. -/
def parseBlockSubject (subject : String) : Except Raised (Option ℕ) :=
  let digits := subject.toList.drop 6
  if startsWith subject "block:" && digits.head?.any (fun c => c ≠ '0') && digits.all isAsciiDigit then
    (parseInt (String.ofList digits)).map some
  else .ok none

lemma free_hex {s : String} (h : matchesHex64 s = true) : Free '|' s := by
  have hhex : ∀ t : String, isHex64 t = true → ∀ c ∈ t.toList, isHexDigit c = true := by
    intro t ht
    simp only [isHex64, Bool.and_eq_true, List.all_eq_true] at ht
    exact ht.2
  intro hbar
  simp only [matchesHex64, Bool.or_eq_true] at h
  rcases h with h | h
  · exact absurd (hhex s h _ hbar) (by decide)
  · refine absurd (hhex _ h '|' ?_) (by decide)
    simp only [String.toList_ofList, chomp]
    split_ifs with hl
    · have hne : s.toList ≠ [] := List.ne_nil_of_mem hbar
      have hlast : s.toList.getLast hne = '\n' := by
        rw [List.getLast?_eq_some_getLast hne] at hl
        exact Option.some.inj hl
      rw [← List.dropLast_append_getLast hne, List.mem_append, hlast, List.mem_singleton] at hbar
      exact hbar.resolve_right (by decide)
    · exact hbar

lemma free_clean {value what t : String} (h : clean value what = .ok t) : t = value ∧ Free '|' value := by
  unfold clean at h
  split_ifs at h with hany
  refine ⟨(Except.ok.inj h).symm, fun hbar => hany ?_⟩
  exact List.any_eq_true.mpr ⟨'|', hbar, by decide⟩

/-- What the message of an attestation is, where it can be built. -/
lemma attestationMessage_eq {kind tenant subject subjectHash prevHash signedAt message : String} {signerSeq : ℤ}
    (h : attestationMessage kind tenant subject subjectHash signerSeq prevHash signedAt = .ok message) :
    kind ∈ attestKinds ∧ Free '|' subject ∧ Free '|' subjectHash ∧ Free '|' prevHash ∧
      message = "jarvis-attest|v1|" ++ kind ++ "|" ++ tenantPart tenant ++ "|" ++ subject ++ "|" ++ subjectHash ++
        "|" ++ toString signerSeq ++ "|" ++ prevHash ++ "|" ++ signedAt := by
  unfold attestationMessage at h
  split_ifs at h with hkind hhex hat
  cases hclean : clean subject "subject" with
  | error e => simp [hclean, Except.map] at h
  | ok t =>
    obtain ⟨rfl, hfree⟩ := free_clean hclean
    simp only [hclean, Except.map, Except.ok.injEq] at h
    simp only [Bool.or_eq_true, Bool.not_eq_true', not_or, Bool.not_eq_false] at hhex
    exact ⟨hkind, hfree, free_hex hhex.1, free_hex hhex.2, h.symm⟩

def base64Alphabet : List Char :=
  "ABCDEFGHIJKLMNOPQRSTUVWXYZabcdefghijklmnopqrstuvwxyz0123456789+/".toList

def base64Char (n : ℕ) : Char := base64Alphabet.getD n 'A'

def base64Value (c : Char) : Option ℕ :=
  if c ∈ base64Alphabet then some (base64Alphabet.idxOf c) else none

/-- Base64 without the padding at its end. -/
def base64Digits : Bytes → List Char
  | a :: b :: c :: rest =>
    let n := a.toNat * 65536 + b.toNat * 256 + c.toNat
    base64Char (n / 262144) :: base64Char (n / 4096 % 64) :: base64Char (n / 64 % 64) :: base64Char (n % 64) ::
      base64Digits rest
  | [a, b] =>
    let n := a.toNat * 1024 + b.toNat * 4
    [base64Char (n / 4096), base64Char (n / 64 % 64), base64Char (n % 64)]
  | [a] => [base64Char (a.toNat / 4), base64Char (a.toNat * 16 % 64)]
  | [] => []

/-- The bytes of two, three or four base64 digits. -/
def quadBytes : List ℕ → Bytes
  | [a, b] => [UInt8.ofNat (a * 4 + b / 16)]
  | [a, b, c] => [UInt8.ofNat (a * 4 + b / 16), UInt8.ofNat (b * 16 + c / 4)]
  | [a, b, c, d] => [UInt8.ofNat (a * 4 + b / 16), UInt8.ofNat (b * 16 + c / 4), UInt8.ofNat (c * 64 + d)]
  | _ => []

/-- Strict decoding: `quad` holds the digits of the group so far, `pads` the padding seen. -/
def base64Loop (quad : List ℕ) (pads : ℕ) : List Char → Option Bytes
  | [] => if quad = [] then some [] else none
  | c :: cs =>
    if c = '=' then
      if 2 ≤ quad.length ∧ 4 ≤ quad.length + (pads + 1) then
        if cs = [] then some (quadBytes quad) else none
      else base64Loop quad (pads + 1) cs
    else
      match base64Value c with
      | none => none
      | some v =>
        if 0 < pads then none
        else if quad.length = 3 then (base64Loop [] 0 cs).map (quadBytes (quad ++ [v]) ++ ·)
        else base64Loop (quad ++ [v]) 0 cs

/-- `b64decode(s, validate=True)`. -/
def base64Decode (s : String) : Option Bytes :=
  if s.toList.head? = some '=' then none else base64Loop [] 0 s.toList

/-- The OpenSSH SHA256 fingerprint of a public key blob. -/
def fingerprint (blob : Bytes) : String := "SHA256:" ++ String.ofList (base64Digits (sha256 blob))

structure PublicKey where
  blob : Bytes
  raw : Bytes
  keyId : String
  comment : String
deriving DecidableEq

/-- One length-prefixed string of the wire format and what follows it. -/
def readString : Bytes → Option (Bytes × Bytes)
  | a :: b :: c :: d :: rest =>
    let n := ((a.toNat * 256 + b.toNat) * 256 + c.toNat) * 256 + d.toNat
    if rest.length < n then none else some (rest.take n, rest.drop n)
  | _ => none

/-- `decode("ascii", "replace")`. -/
def asciiText (bs : Bytes) : String :=
  String.ofList (bs.map fun b => if b < 128 then Char.ofNat b.toNat else Char.ofNat 0xfffd)

def publicKeyFromBlob (blob : Bytes) (comment : String) : Except Raised PublicKey :=
  match readString blob with
  | none => .error (.attestError "key_malformed" "the public key blob is truncated")
  | some (kind, rest) =>
    match readString rest with
    | none => .error (.attestError "key_malformed" "the public key blob is truncated")
    | some (raw, rest) =>
      if kind ≠ utf8 "ssh-ed25519" then
        .error (.attestError "key_unsupported" ("only ssh-ed25519 keys are supported, not " ++ asciiText kind ++
          " (hardware keys come later)"))
      else if raw.length ≠ 32 ∨ rest ≠ [] then
        .error (.attestError "key_malformed" "the Ed25519 public key must be exactly 32 bytes")
      else .ok ⟨blob, raw, fingerprint blob, comment⟩

/-- A word and what follows it, past the spaces between them. -/
def nextWord (cs : List Char) : List Char × List Char :=
  (cs.takeWhile (fun c => !isspace c), lstripChars (cs.dropWhile (fun c => !isspace c)))

/-- `ssh-ed25519 AAAA... [comment]`. -/
def parsePublicKey (text : String) : Except Raised PublicKey :=
  let (kind, rest) := nextWord (strip text).toList
  let (body, comment) := nextWord rest
  if rest = [] then .error (.attestError "key_malformed" "a public key looks like: ssh-ed25519 AAAA... comment")
  else if String.ofList kind ≠ "ssh-ed25519" then
    .error (.attestError "key_unsupported" ("only ssh-ed25519 keys are supported, not " ++ String.ofList kind ++
      " (hardware keys come later)"))
  else
    match base64Decode (String.ofList body) with
    | none => .error (.attestError "key_malformed" "the public key is not valid base64")
    | some blob => publicKeyFromBlob blob (String.ofList comment)

lemma publicKeyFromBlob_keyId {blob : Bytes} {comment : String} {key : PublicKey}
    (h : publicKeyFromBlob blob comment = .ok key) : key.keyId = fingerprint key.blob := by
  unfold publicKeyFromBlob at h
  cases hr : readString blob with
  | none => simp [hr] at h
  | some kr =>
    obtain ⟨kind, rest⟩ := kr
    cases hr' : readString rest with
    | none => simp [hr, hr'] at h
    | some rr =>
      obtain ⟨raw, rest'⟩ := rr
      simp only [hr, hr'] at h
      split_ifs at h
      obtain rfl := Except.ok.inj h
      rfl

/-- Keys are known by their fingerprints. -/
lemma parsePublicKey_keyId {text : String} {key : PublicKey} (h : parsePublicKey text = .ok key) :
    key.keyId = fingerprint key.blob := by
  simp only [parsePublicKey] at h
  split_ifs at h
  cases hb : base64Decode (String.ofList (nextWord (nextWord (strip text).toList).2).1) with
  | none => simp [hb] at h
  | some blob =>
    simp only [hb] at h
    exact publicKeyFromBlob_keyId h

lemma base64Digits_alphabet (bs : Bytes) : ∀ c ∈ base64Digits bs, c ∈ base64Alphabet := by
  have hchar : ∀ n, base64Char n ∈ base64Alphabet := by
    intro n
    unfold base64Char
    by_cases hn : n < base64Alphabet.length
    · rw [List.getD_eq_getElem _ _ hn]
      exact List.getElem_mem hn
    · rw [List.getD_eq_default _ _ (by omega)]
      decide
  induction bs using base64Digits.induct with
  | case1 a b c rest ih =>
    intro d hd
    simp only [base64Digits, List.mem_cons] at hd
    rcases hd with rfl | rfl | rfl | rfl | hd
    · exact hchar _
    · exact hchar _
    · exact hchar _
    · exact hchar _
    · exact ih d hd
  | case2 a b => simp [base64Digits, hchar]
  | case3 a => simp [base64Digits, hchar]
  | case4 => simp [base64Digits]

lemma free_fingerprint (blob : Bytes) : Free '|' (fingerprint blob) := by
  have hbar : '|' ∉ base64Alphabet := by decide
  simp only [Free, fingerprint, String.toList_append, String.toList_ofList, List.mem_append, not_or]
  exact ⟨by decide, fun h => hbar (base64Digits_alphabet _ _ h)⟩

/-- Pinned root keys, each known by its fingerprint. -/
structure Roots where
  keys : Dict String PublicKey
  fingerprints : ∀ id key, keys.get id = some key → id = fingerprint key.blob

def Roots.empty : Roots := ⟨[], fun _ _ h => by simp at h⟩

def Roots.add (roots : Roots) (key : PublicKey) (h : key.keyId = fingerprint key.blob) : Roots where
  keys := roots.keys.set key.keyId key
  fingerprints := by
    intro id k hk
    rw [Dict.get_set] at hk
    split_ifs at hk with hid
    · obtain rfl := Option.some.inj hk
      exact hid ▸ h
    · exact roots.fingerprints id k hk

/-- One line of the roots file: blank lines and comments are passed over. -/
def addRoot (roots : Roots) (number : ℕ) (line : String) : Except Raised Roots :=
  if strip line = "" ∨ startsWith (strip line) "#" then .ok roots else
  match h : parsePublicKey (strip line) with
  | .error (.attestError code message) =>
    .error (.attestError code ("trust roots file line " ++ toString number ++ ": " ++ message))
  | .error .valueError => .error .valueError
  | .ok key => .ok (roots.add key (parsePublicKey_keyId h))

def loadRoots (text : String) : Except Raised Roots :=
  (splitlines text).zipIdx.foldlM (fun roots line => addRoot roots (line.2 + 1) line.1) Roots.empty

end ContinuityLedger.Signatures
