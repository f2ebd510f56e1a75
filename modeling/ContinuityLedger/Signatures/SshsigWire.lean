import ContinuityLedger.Signatures.Sshsig

/-! The wire format of an OpenSSH signature: what is accepted is the encoding of what was read, byte for byte. -/

namespace ContinuityLedger.Signatures.Sshsig

open Foundations Foundations.Sha256

/-! ### Strings -/

/-- `struct.pack(">I", n)`, for what fits. -/
def be32 (n : ℕ) : Bytes :=
  [UInt8.ofNat (n / 16777216), UInt8.ofNat (n / 65536), UInt8.ofNat (n / 256), UInt8.ofNat n]

/-- `_string`, which raises when the length does not fit. -/
def putString (s : Bytes) : Option Bytes := if s.length < 4294967296 then some (be32 s.length ++ s) else none

def number (a b c d : UInt8) : ℕ := ((a.toNat * 256 + b.toNat) * 256 + c.toNat) * 256 + d.toNat

lemma number_be32 {n : ℕ} (h : n < 4294967296) :
    number (UInt8.ofNat (n / 16777216)) (UInt8.ofNat (n / 65536)) (UInt8.ofNat (n / 256)) (UInt8.ofNat n) = n := by
  simp only [number, UInt8.toNat_ofNat']
  omega

lemma be32_number (a b c d : UInt8) : be32 (number a b c d) = [a, b, c, d] := by
  have ha := a.toNat_lt
  have hb := b.toNat_lt
  have hc := c.toNat_lt
  have hd := d.toNat_lt
  unfold be32 number
  rw [ofNat_eq (b := a) (by omega), ofNat_eq (b := b) (by omega), ofNat_eq (b := c) (by omega),
    ofNat_eq (b := d) (by omega)]

lemma number_lt (a b c d : UInt8) : number a b c d < 4294967296 := by
  have ha := a.toNat_lt
  have hb := b.toNat_lt
  have hc := c.toNat_lt
  have hd := d.toNat_lt
  unfold number
  omega

def string : Wire UInt8 Bytes where
  put := putString
  take := readString
  take_put := by
    intro s w rest h
    unfold putString at h
    split_ifs at h with hlen
    obtain rfl := Option.some.inj h
    have hn := number_be32 hlen
    unfold number at hn
    simp only [be32, List.cons_append, List.nil_append, readString, hn]
    rw [if_neg (by simp), List.take_left, List.drop_left]
  put_take := by
    intro text s rest h
    unfold readString at h
    split at h
    · rename_i a b c d tail
      simp only at h
      split_ifs at h with hlen
      obtain ⟨rfl, rfl⟩ := Prod.mk.inj (Option.some.inj h)
      have htake : (tail.take (number a b c d)).length = number a b c d := by
        rw [List.length_take]
        exact min_eq_left (not_lt.mp hlen)
      refine ⟨be32 (number a b c d) ++ tail.take (number a b c d), ?_, ?_⟩
      · unfold putString
        rw [← number, htake, if_pos (number_lt a b c d)]
      · rw [be32_number, List.append_assoc, ← number, List.take_append_drop]
        rfl
    · cases h

lemma readWire_ok {bs : Bytes} {r : Bytes × Bytes} : readWire bs = .ok r ↔ string.take bs = some r := by
  change readWire bs = .ok r ↔ readString bs = some r
  unfold readWire
  cases readString bs <;> simp

/-! ### The two inner blobs -/

def keyKind : Bytes := utf8 "ssh-ed25519"

def keyBlob (raw : Bytes) : Bytes := be32 keyKind.length ++ keyKind ++ (be32 raw.length ++ raw)

def tagged : Wire UInt8 (Bytes × Bytes) := string.pair string

lemma keyKind_length : keyKind.length = 11 := by decide

/-- A short string under the name of the key type is always written. -/
lemma tagged_put {raw : Bytes} (h : raw.length < 4294967296) : tagged.put (keyKind, raw) = some (keyBlob raw) := by
  have hkind : string.put keyKind = some (be32 keyKind.length ++ keyKind) := by
    change putString keyKind = _
    rw [putString, if_pos (by rw [keyKind_length]; decide)]
  have hraw : string.put raw = some (be32 raw.length ++ raw) := if_pos h
  simp only [tagged, Wire.pair, hkind, hraw, Option.bind_some, Option.map_some, keyBlob]

lemma bind_ok {α β : Type} {x : Parsing α} {f : α → Parsing β} {b : β} : x >>= f = .ok b ↔ ∃ a, x = .ok a ∧ f a = .ok b := by
  cases x with
  | ok a =>
    constructor
    · exact fun h => ⟨a, rfl, h⟩
    · rintro ⟨a', ha, h⟩
      obtain rfl := Except.ok.inj ha
      exact h
  | error e =>
    constructor
    · intro h
      cases h
    · rintro ⟨a', ha, -⟩
      cases ha

lemma signatureStrings_ok {sig kind raw rest : Bytes} :
    signatureStrings sig = .ok (kind, raw, rest) ↔ tagged.take sig = some ((kind, raw), rest) := by
  simp only [signatureStrings, bind_ok, readWire_ok, tagged, Wire.pair, Option.bind_eq_some_iff, Option.map_eq_some_iff]
  constructor
  · rintro ⟨k, hk, r, hr, heq⟩
    simp only [pure, Except.pure, Except.ok.injEq, Prod.mk.injEq] at heq
    obtain ⟨rfl, rfl, rfl⟩ := heq
    exact ⟨k, hk, r, hr, rfl⟩
  · rintro ⟨k, hk, r, hr, heq⟩
    simp only [Prod.mk.injEq] at heq
    obtain ⟨⟨rfl, rfl⟩, rfl⟩ := heq
    exact ⟨k, hk, r, hr, rfl⟩

lemma tagged_whole {blob raw : Bytes} (h : raw.length < 4294967296) :
    tagged.take blob = some ((keyKind, raw), []) ↔ blob = keyBlob raw := by
  have hwhole : tagged.whole blob = some (keyKind, raw) ↔ tagged.put (keyKind, raw) = some blob := tagged.whole_iff
  rw [tagged_put h, Option.some.injEq] at hwhole
  rw [← eq_comm (a := keyBlob raw), ← hwhole, Wire.whole]
  constructor
  · intro ht
    rw [ht]
  · intro ht
    split at ht
    · rename_i a htake
      rw [htake, Option.some.inj ht]
    · cases ht

/-- A key is read off the one blob that names its type and holds it. -/
lemma publicKeyFromBlob_ok {blob : Bytes} {comment : String} {key : PublicKey} :
    publicKeyFromBlob blob comment = .ok key ↔
      ∃ raw, raw.length = 32 ∧ blob = keyBlob raw ∧ key = ⟨blob, raw, fingerprint blob, comment⟩ := by
  constructor
  · intro h
    unfold publicKeyFromBlob at h
    split at h
    · cases h
    · rename_i kind rest hkind
      split at h
      · cases h
      · rename_i raw rest' hraw
        split_ifs at h with hk hlen
        obtain ⟨hlen, hrest⟩ := not_or.mp hlen
        have htake : tagged.take blob = some ((keyKind, raw), []) := by
          have hk' : kind = keyKind := not_not.mp hk
          simp only [tagged, Wire.pair, string, hkind, hraw, Option.bind_some, Option.map_some, hk', not_not.mp hrest]
        have hlen' : raw.length = 32 := not_not.mp hlen
        exact ⟨raw, hlen', (tagged_whole (by omega)).mp htake, (Except.ok.inj h).symm⟩
  · rintro ⟨raw, hlen, hblob, rfl⟩
    have htake : tagged.take blob = some ((keyKind, raw), []) := (tagged_whole (by omega)).mpr hblob
    obtain ⟨k, hk, hrest⟩ := Option.bind_eq_some_iff.mp htake
    obtain ⟨r, hr, heq⟩ := Option.map_eq_some_iff.mp hrest
    simp only [Prod.mk.injEq] at heq
    obtain ⟨⟨hkind, hraw⟩, hend⟩ := heq
    have hk' : readString blob = some k := hk
    have hr' : readString k.2 = some r := hr
    simp only [publicKeyFromBlob, hk', hr', hkind, hraw, hend, keyKind, hlen, not_true, ne_eq, or_self, if_false]

/-! ### The blob -/

def strings : Wire UInt8 (Bytes × Bytes × Bytes × Bytes × Bytes) :=
  string.pair (string.pair (string.pair (string.pair string)))

def magic : Bytes := utf8 "SSHSIG" ++ [0, 0, 0, 1]

/-- The blob of a key, a signature and the bytes of a namespace and of an algorithm. -/
def rawBlob (raw name algorithm sig : Bytes) : Option Bytes :=
  (strings.put (keyBlob raw, name, [], algorithm, keyBlob sig)).map (magic ++ ·)

lemma refuse_ok {c : Prop} [Decidable c] {message : String} : refuse c message = .ok () ↔ ¬ c := by
  unfold refuse
  split_ifs with h
  · exact iff_of_false (fun h' => by cases h') (not_not.mpr h)
  · simp [h]

lemma reraised_ok {α : Type} {caught : Thrown → Option String} {x : Parsing α} {a : α} : reraised caught x = .ok a ↔ x = .ok a := by
  cases x with
  | ok b => rfl
  | error e =>
    refine iff_of_false (fun h => ?_) (fun h => by cases h)
    unfold reraised at h
    dsimp only at h
    split at h <;> cases h

lemma liftRaised_ok {α : Type} {x : Except Raised α} {a : α} : liftRaised x = .ok a ↔ x = .ok a := by
  cases x <;> simp [liftRaised]

lemma wireStrings_ok {blob rest : Bytes} {s : WireStrings} : wireStrings blob = .ok (s, rest) ↔
    unpackVersion blob = .ok 1 ∧
      strings.take (blob.drop 10) = some ((s.pub, s.name, s.reserved, s.algorithm, s.sig), rest) := by
  simp only [wireStrings, bind_ok, readWire_ok, strings, Wire.pair, Option.bind_eq_some_iff, Option.map_eq_some_iff]
  constructor
  · rintro ⟨version, hv, ⟨⟩, hone, a, ha, b, hb, c, hc, d, hd, e, he, heq⟩
    obtain rfl : version = 1 := not_not.mp (refuse_ok.mp hone)
    simp only [pure, Except.pure, Except.ok.injEq, Prod.mk.injEq] at heq
    obtain ⟨rfl, rfl⟩ := heq
    exact ⟨hv, a, ha, _, ⟨b, hb, _, ⟨c, hc, _, ⟨d, hd, _, he, rfl⟩, rfl⟩, rfl⟩, rfl⟩
  · rintro ⟨hv, a, ha, _, ⟨b, hb, _, ⟨c, hc, _, ⟨d, hd, e, he, rfl⟩, rfl⟩, rfl⟩, heq⟩
    simp only [Prod.mk.injEq] at heq
    obtain ⟨⟨hpub, hname, hres, halg, hsig⟩, rfl⟩ := heq
    refine ⟨1, hv, (), refuse_ok.mpr (by simp), a, ha, b, hb, c, hc, d, hd, e, he, ?_⟩
    cases s
    simp_all [pure, Except.pure]

lemma version_ok {blob : Bytes} : ((utf8 "SSHSIG").isPrefixOf blob ∧ unpackVersion blob = .ok 1) ↔
    blob = magic ++ blob.drop 10 := by
  have hlen : (utf8 "SSHSIG").length = 6 := by decide
  constructor
  · rintro ⟨hpre, hv⟩
    obtain ⟨t, rfl⟩ := List.isPrefixOf_iff_prefix.mp hpre
    unfold unpackVersion at hv
    rw [List.drop_left' hlen] at hv
    split at hv
    · rename_i a b c d tail
      have hone : number a b c d = 1 := Except.ok.inj hv
      have hbytes := be32_number a b c d
      rw [hone] at hbytes
      have hdrop : (utf8 "SSHSIG" ++ a :: b :: c :: d :: tail).drop 10 = tail := by
        rw [List.drop_append, List.drop_of_length_le (by rw [hlen]; decide), hlen]
        rfl
      rw [hdrop, magic, List.append_assoc]
      congr 1
      change [a, b, c, d] ++ tail = _
      rw [← hbytes]
      rfl
    · cases hv
  · intro h
    rw [h, magic, List.append_assoc]
    refine ⟨List.isPrefixOf_iff_prefix.mpr (List.prefix_append _ _), ?_⟩
    unfold unpackVersion
    rw [List.drop_left' hlen]
    rfl

def readOf (raw name algorithm sig : Bytes) : ParsedSignature :=
  { key := ⟨keyBlob raw, raw, fingerprint (keyBlob raw), ""⟩, name := String.ofList (PyStr.decodeReplace name),
    hashAlgorithm := asciiText algorithm, signature := sig }

lemma rawBlob_iff {raw name algorithm sig blob : Bytes} : rawBlob raw name algorithm sig = some blob ↔
    blob = magic ++ blob.drop 10 ∧
      strings.take (blob.drop 10) = some ((keyBlob raw, name, [], algorithm, keyBlob sig), []) := by
  have hmagic : magic.length = 10 := by decide
  constructor
  · intro h
    obtain ⟨body, hbody, rfl⟩ := Option.map_eq_some_iff.mp h
    rw [List.drop_left' hmagic]
    have htake := strings.take_put [] hbody
    rw [List.append_nil] at htake
    exact ⟨rfl, htake⟩
  · rintro ⟨hblob, htake⟩
    obtain ⟨body, hbody, hdrop⟩ := strings.put_take htake
    rw [List.append_nil] at hdrop
    rw [rawBlob, hbody, Option.map_some, ← hdrop, ← hblob]

/-- A blob is accepted where it is the encoding of what is read of it. -/
lemma parseBlob_ok {blob : Bytes} {p : ParsedSignature} : parseBlob blob = .ok p ↔
    ∃ raw name algorithm sig, raw.length = 32 ∧ sig.length = 64 ∧ rawBlob raw name algorithm sig = some blob ∧
      p = readOf raw name algorithm sig := by
  simp only [parseBlob, bind_ok, reraised_ok, liftRaised_ok, publicKeyFromBlob_ok]
  constructor
  · rintro ⟨⟨⟩, hpre, ⟨s, rest⟩, hs, ⟨⟩, hrest, key, ⟨raw, hraw, hpub, rfl⟩, ⟨kind, sig, tail⟩, hsig, ⟨⟩, hplain, hp⟩
    obtain ⟨hv, htake⟩ := wireStrings_ok.mp hs
    have hpre' := not_not.mp (refuse_ok.mp hpre)
    obtain ⟨hrest, hres⟩ := not_or.mp (refuse_ok.mp hrest)
    obtain ⟨hkind, hplain⟩ := not_or.mp (refuse_ok.mp hplain)
    obtain ⟨hlen, htail⟩ := not_or.mp hplain
    have hlen' : sig.length = 64 := not_not.mp hlen
    have hsig' : tagged.take s.sig = some ((keyKind, sig), []) := by
      rw [signatureStrings_ok.mp hsig, show kind = keyKind from not_not.mp hkind, show tail = [] from not_not.mp htail]
    refine ⟨raw, s.name, s.algorithm, sig, hraw, hlen', rawBlob_iff.mpr ⟨version_ok.mp ⟨hpre', hv⟩, ?_⟩, ?_⟩
    · rw [htake, hpub, (tagged_whole (by omega)).mp hsig', show s.reserved = [] from not_not.mp hres,
        show rest = [] from not_not.mp hrest]
    · rw [← Except.ok.inj hp, readOf, hpub]
  · rintro ⟨raw, name, algorithm, sig, hraw, hsig, hblob, rfl⟩
    obtain ⟨hmagic, htake⟩ := rawBlob_iff.mp hblob
    obtain ⟨hpre, hv⟩ := version_ok.mpr hmagic
    refine ⟨(), refuse_ok.mpr (not_not.mpr hpre), (⟨keyBlob raw, name, [], algorithm, keyBlob sig⟩, []),
      wireStrings_ok.mpr ⟨hv, htake⟩, (), refuse_ok.mpr (by simp), _, ⟨raw, hraw, rfl, rfl⟩, (keyKind, sig, []),
      signatureStrings_ok.mpr ((tagged_whole (by omega)).mpr rfl), (), refuse_ok.mpr (by simp [keyKind, hsig]), rfl⟩

end ContinuityLedger.Signatures.Sshsig
