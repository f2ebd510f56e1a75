import Mathlib.Data.List.Basic
import Mathlib.Tactic.IntervalCases

/-! SHA-256 (FIPS 180-4) over byte lists, and its lowercase hexadecimal form as a type of its own:
a `Hex64` is sixty-four lowercase hexadecimal digits and nothing else. -/

namespace ContinuityLedger.Foundations.Sha256

abbrev Bytes := List UInt8

def rotateRight (n x : ℕ) : ℕ := (x >>> n) ||| ((x <<< (32 - n)) % 2 ^ 32)

def bigSigma0 (x : ℕ) : ℕ := rotateRight 2 x ^^^ rotateRight 13 x ^^^ rotateRight 22 x
def bigSigma1 (x : ℕ) : ℕ := rotateRight 6 x ^^^ rotateRight 11 x ^^^ rotateRight 25 x
def smallSigma0 (x : ℕ) : ℕ := rotateRight 7 x ^^^ rotateRight 18 x ^^^ (x >>> 3)
def smallSigma1 (x : ℕ) : ℕ := rotateRight 17 x ^^^ rotateRight 19 x ^^^ (x >>> 10)
def choose (x y z : ℕ) : ℕ := (x &&& y) ^^^ ((2 ^ 32 - 1 - x) &&& z)
def majority (x y z : ℕ) : ℕ := (x &&& y) ^^^ (x &&& z) ^^^ (y &&& z)

def roundConstants : List ℕ := [
  0x428a2f98, 0x71374491, 0xb5c0fbcf, 0xe9b5dba5, 0x3956c25b, 0x59f111f1, 0x923f82a4, 0xab1c5ed5,
  0xd807aa98, 0x12835b01, 0x243185be, 0x550c7dc3, 0x72be5d74, 0x80deb1fe, 0x9bdc06a7, 0xc19bf174,
  0xe49b69c1, 0xefbe4786, 0x0fc19dc6, 0x240ca1cc, 0x2de92c6f, 0x4a7484aa, 0x5cb0a9dc, 0x76f988da,
  0x983e5152, 0xa831c66d, 0xb00327c8, 0xbf597fc7, 0xc6e00bf3, 0xd5a79147, 0x06ca6351, 0x14292967,
  0x27b70a85, 0x2e1b2138, 0x4d2c6dfc, 0x53380d13, 0x650a7354, 0x766a0abb, 0x81c2c92e, 0x92722c85,
  0xa2bfe8a1, 0xa81a664b, 0xc24b8b70, 0xc76c51a3, 0xd192e819, 0xd6990624, 0xf40e3585, 0x106aa070,
  0x19a4c116, 0x1e376c08, 0x2748774c, 0x34b0bcb5, 0x391c0cb3, 0x4ed8aa4a, 0x5b9cca4f, 0x682e6ff3,
  0x748f82ee, 0x78a5636f, 0x84c87814, 0x8cc70208, 0x90befffa, 0xa4506ceb, 0xbef9a3f7, 0xc67178f2]

structure State where
  a : ℕ
  b : ℕ
  c : ℕ
  d : ℕ
  e : ℕ
  f : ℕ
  g : ℕ
  h : ℕ

def initial : State :=
  ⟨0x6a09e667, 0xbb67ae85, 0x3c6ef372, 0xa54ff53a, 0x510e527f, 0x9b05688c, 0x1f83d9ab, 0x5be0cd19⟩

def round (s : State) (kw : ℕ) : State :=
  let t₁ := s.h + bigSigma1 s.e + choose s.e s.f s.g + kw
  let t₂ := bigSigma0 s.a + majority s.a s.b s.c
  ⟨(t₁ + t₂) % 2 ^ 32, s.a, s.b, s.c, (s.d + t₁) % 2 ^ 32, s.e, s.f, s.g⟩

/-- The rounds of one block. `window` holds the next sixteen words of the message schedule. -/
def rounds : List ℕ → List ℕ → State → State
  | [], _, s => s
  | _ :: _, [], s => s
  | k :: ks, w :: window, s =>
    let next := (smallSigma1 (window.getD 13 0) + window.getD 8 0 +
      smallSigma0 (window.getD 0 0) + w) % 2 ^ 32
    rounds ks (window ++ [next]) (round s (k + w))

def State.add (s t : State) : State :=
  ⟨(s.a + t.a) % 2 ^ 32, (s.b + t.b) % 2 ^ 32, (s.c + t.c) % 2 ^ 32, (s.d + t.d) % 2 ^ 32,
    (s.e + t.e) % 2 ^ 32, (s.f + t.f) % 2 ^ 32, (s.g + t.g) % 2 ^ 32, (s.h + t.h) % 2 ^ 32⟩

def compress : ℕ → List ℕ → State → State
  | 0, _, s => s
  | n + 1, words, s =>
    compress n (words.drop 16) (s.add (rounds roundConstants (words.take 16) s))

def toWords : List ℕ → List ℕ
  | a :: b :: c :: d :: rest => (((a * 256 + b) * 256 + c) * 256 + d) :: toWords rest
  | _ => []

def pad (m : List ℕ) : List ℕ :=
  m ++ 128 :: List.replicate ((119 - m.length % 64) % 64) 0 ++
    (List.range 8).map (fun i => ((m.length * 8) >>> (8 * (7 - i))) % 256)

def State.words (s : State) : List ℕ := [s.a, s.b, s.c, s.d, s.e, s.f, s.g, s.h]

def digest (data : Bytes) : List ℕ :=
  let words := toWords (pad (data.map UInt8.toNat))
  (compress (words.length / 16) words initial).words

def wordBytes (w : ℕ) : Bytes :=
  [UInt8.ofNat (w >>> 24), UInt8.ofNat (w >>> 16), UInt8.ofNat (w >>> 8), UInt8.ofNat w]

/-- The thirty-two bytes of the digest. -/
def sha256 (data : Bytes) : Bytes := (digest data).flatMap wordBytes

@[simp] lemma sha256_length (data : Bytes) : (sha256 data).length = 32 := by
  simp [sha256, digest, State.words, wordBytes]

def hexDigit (n : ℕ) : Char := "0123456789abcdef".toList.getD n '0'

def isHexDigit (c : Char) : Bool := "0123456789abcdef".toList.contains c

def hexByte (b : UInt8) : List Char := [hexDigit (b.toNat / 16), hexDigit (b.toNat % 16)]

def hexChars (bs : Bytes) : List Char := bs.flatMap hexByte

lemma hexDigit_isHexDigit (n : ℕ) : isHexDigit (hexDigit n) = true := by
  by_cases hn : n < 16
  · interval_cases n <;> decide
  · have hl : "0123456789abcdef".toList.length ≤ n := by
      have : "0123456789abcdef".toList.length = 16 := by decide
      omega
    rw [hexDigit, List.getD_eq_getElem?_getD, List.getElem?_eq_none hl]
    decide

lemma hexChars_isHexDigit (bs : Bytes) : ∀ c ∈ hexChars bs, isHexDigit c = true := by
  intro c hc
  simp only [hexChars, hexByte, List.mem_flatMap, List.mem_cons, List.not_mem_nil, or_false] at hc
  obtain ⟨b, _, rfl | rfl⟩ := hc <;> exact hexDigit_isHexDigit _

@[simp] lemma hexChars_length (bs : Bytes) : (hexChars bs).length = 2 * bs.length := by
  induction bs with
  | nil => rfl
  | cons b bs ih =>
    simp only [hexChars, List.flatMap_cons, List.length_append, List.length_cons] at ih ⊢
    rw [ih]
    simp only [hexByte, List.length_cons, List.length_nil]
    omega

/-- `^[0-9a-f]{64}$` over the whole text. -/
def isHex64 (s : String) : Bool := s.toList.length == 64 && s.toList.all isHexDigit

structure Hex64 where
  text : String
  valid : isHex64 text = true
deriving DecidableEq

@[ext] lemma Hex64.ext {a b : Hex64} (h : a.text = b.text) : a = b := by
  cases a
  cases b
  simpa using h

lemma isHex64_hexChars {bs : Bytes} (h : bs.length = 32) :
    isHex64 (String.ofList (hexChars bs)) = true := by
  simp only [isHex64, String.toList_ofList, hexChars_length, h, Bool.and_eq_true, beq_iff_eq,
    List.all_eq_true]
  exact ⟨trivial, hexChars_isHexDigit bs⟩

/-- Thirty-two bytes. -/
structure Digest where
  bytes : Bytes
  size : bytes.length = 32

def Digest.hex (d : Digest) : Hex64 := ⟨String.ofList (hexChars d.bytes), isHex64_hexChars d.size⟩

def hash (data : Bytes) : Digest := ⟨sha256 data, sha256_length data⟩

/-- `hexdigest` of a digest over bytes. -/
def hexdigest (data : Bytes) : Hex64 := (hash data).hex

def utf8 (s : String) : Bytes := s.toUTF8.data.toList

/-- `hexdigest` of a text in UTF-8. -/
def sha256Hex (s : String) : Hex64 := hexdigest (utf8 s)

/-- Sixty-four zeros: the hash before the first entry of any chain. -/
def genesis : Hex64 :=
  ⟨"0000000000000000000000000000000000000000000000000000000000000000", by decide⟩

def hexValue (c : Char) : ℕ := "0123456789abcdef".toList.idxOf c

def fromHexChars : List Char → Bytes
  | a :: b :: rest => UInt8.ofNat (hexValue a * 16 + hexValue b) :: fromHexChars rest
  | _ => []

/-- The thirty-two bytes a `Hex64` writes. -/
def Hex64.bytes (h : Hex64) : Bytes := fromHexChars h.text.toList

example : (sha256Hex "abcdbcdecdefdefgefghfghighijhijkijkljklmklmnlmnomnopnopq").text =
    "248d6a61d20638b8e5c026930c3e6039a33ce45964ff2167f6ecedd419db06c1" := by decide

end ContinuityLedger.Foundations.Sha256
