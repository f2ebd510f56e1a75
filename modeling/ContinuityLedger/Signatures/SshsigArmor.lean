import ContinuityLedger.Foundations.Delimited
import ContinuityLedger.Signatures.SshsigWire

/-! A signature that is written is read as it was, and what is read is written again as the blob it came from. -/

namespace ContinuityLedger.Signatures.Sshsig

open Foundations Foundations.Sha256

/-! ### Lines -/

/-- Base64 text broken into lines, between the lines that name it. -/
def armorLines (chunks : List (List Char)) : List PyStr := armorBegin :: (chunks.map PyStr.ofChars ++ [armorEnd])

def armor (chunks : List (List Char)) : PyStr := [lineFeed].intercalate (armorLines chunks) ++ [lineFeed]

lemma unixLines_of_free {s : PyStr} (h : PyChar.scalar '\r' ∉ s) : unixLines s = s := by
  induction s with
  | nil => rfl
  | cons p s ih =>
    rw [List.mem_cons, not_or] at h
    rw [unixLines, ih h.2]
    · exact fun _ hp => absurd hp.symm h.1
    · exact fun hp => absurd hp.symm h.1

lemma unixLines_ofChars (cs : List Char) : unixLines (PyStr.ofChars cs) = PyStr.ofChars (PyText.newlines cs) := by
  induction cs using PyText.newlines.induct with
  | case1 cs ih => simpa [PyStr.ofChars, unixLines, PyText.newlines, lineFeed] using ih
  | case2 cs hne ih =>
    rw [PyText.newlines, PyStr.ofChars, List.map_cons, unixLines]
    · simpa [PyStr.ofChars, lineFeed] using ih
    · rintro s hs
      obtain ⟨c, rest, rfl, hc, -⟩ := List.map_eq_cons_iff.mp hs
      exact hne rest (by rw [PyChar.scalar.inj hc])
    · exact hne
  | case3 c cs hne hcr ih =>
    rw [PyText.newlines, PyStr.ofChars, List.map_cons, unixLines]
    · simpa [PyStr.ofChars] using ih
    · rintro s hc hs
      exact hcr (PyChar.scalar.inj hc)
    · exact fun hc => hcr (PyChar.scalar.inj hc)
    · exact hne
    · exact hcr
  | case4 => rfl

/-- A text without surrogates is normalized as the stores do it. -/
lemma normalizeSignature_ofString (s : String) :
    normalizeSignature (PyStr.ofString s) = PyStr.ofString (Signatures.normalizeSignature s) := by
  have hblank : blank ∘ PyChar.scalar = PyText.isspace := rfl
  rw [normalizeSignature, PyStr.ofString, unixLines_ofChars]
  simp only [Signatures.normalizeSignature, PyStr.ofString, stripped, PyText.strip, PyText.lstripChars,
    String.toList_ofList, PyStr.ofChars, List.dropWhile_map, ← List.map_reverse, hblank]

/-- Only the last line break goes from a text that neither starts nor ends with a blank. -/
lemma stripped_line {first last : PyChar} {s pre tail : PyStr} (hfirst : s = first :: tail) (hlast : s = pre ++ [last])
    (hf : blank first = false) (hl : blank last = false) : stripped (s ++ [lineFeed]) = s := by
  have hlf : blank lineFeed = true := by decide
  have hdrop : (s ++ [lineFeed]).dropWhile blank = s ++ [lineFeed] := by
    rw [hfirst, List.cons_append, List.dropWhile_cons_of_neg (by simp [hf])]
  rw [stripped, hdrop, List.reverse_append, List.reverse_singleton, List.singleton_append,
    List.dropWhile_cons_of_pos hlf, hlast, List.reverse_append, List.reverse_singleton, List.singleton_append,
    List.dropWhile_cons_of_neg (by simp [hl])]
  simp

/-- The characters of an armor but its line breaks. -/
def Plain (p : PyChar) : Prop := p ≠ lineFeed ∧ p ≠ .scalar '\r'

lemma plain_boundary {p : PyChar} (h : p ∈ armorBegin ∨ p ∈ armorEnd) : Plain p := by
  have hall : ∀ p ∈ armorBegin ++ armorEnd, p ≠ lineFeed ∧ p ≠ .scalar '\r' := by decide
  exact hall p (List.mem_append.mpr h)

lemma plain_base64 {blob : Bytes} {c : Char} (h : c ∈ base64Encode blob) : Plain (.scalar c) := by
  have hmem : c ∈ '=' :: base64Alphabet := List.mem_cons.mpr (base64Encode_alphabet h).symm
  have hn : '\n' ∉ '=' :: base64Alphabet := by decide
  have hr : '\r' ∉ '=' :: base64Alphabet := by decide
  exact ⟨fun he => hn (PyChar.scalar.inj he ▸ hmem), fun he => hr (PyChar.scalar.inj he ▸ hmem)⟩

lemma plain_armorLines {chunks : List (List Char)} {blob : Bytes} (h : chunks.flatten = base64Encode blob) {l : PyStr}
    (hl : l ∈ armorLines chunks) {p : PyChar} (hp : p ∈ l) : Plain p := by
  rcases List.mem_cons.mp hl with rfl | hl
  · exact plain_boundary (Or.inl hp)
  · rcases List.mem_append.mp hl with hl | hl
    · obtain ⟨chunk, hchunk, rfl⟩ := List.mem_map.mp hl
      obtain ⟨c, hc, rfl⟩ := List.mem_map.mp hp
      exact plain_base64 (h ▸ List.mem_flatten.mpr ⟨chunk, hchunk, hc⟩)
    · rw [List.mem_singleton.mp hl] at hp
      exact plain_boundary (Or.inr hp)

lemma normalizeSignature_armor {chunks : List (List Char)} {blob : Bytes} (h : chunks.flatten = base64Encode blob) :
    normalizeSignature (armor chunks) = [lineFeed].intercalate (armorLines chunks) := by
  have hcr : PyChar.scalar '\r' ∉ armor chunks := by
    intro hmem
    rcases List.mem_append.mp hmem with hmem | hmem
    · rcases Joined.mem_intercalate hmem with he | ⟨l, hl, hp⟩
      · cases List.mem_singleton.mp he
      · exact (plain_armorLines h hl hp).2 rfl
    · simp [lineFeed] at hmem
  rw [normalizeSignature, unixLines_of_free hcr, armor]
  obtain ⟨tail, htail⟩ : ∃ tail, [lineFeed].intercalate (armorLines chunks) = .scalar '-' :: tail := by
    rw [armorLines, List.intercalate_cons_of_ne_nil (by simp)]
    exact ⟨_, rfl⟩
  obtain ⟨pre, hpre⟩ := Joined.intercalate_last [lineFeed] (armorBegin :: chunks.map PyStr.ofChars) armorEnd
  have hend : armorEnd = armorEnd.dropLast ++ [.scalar '-'] := by decide
  rw [hend, ← List.append_assoc, ← hend] at hpre
  exact stripped_line htail hpre (by decide) (by decide)

lemma mapM_character (cs : List Char) : (PyStr.ofChars cs).mapM character = some cs := by
  induction cs with
  | nil => rfl
  | cons c cs ih =>
    rw [PyStr.ofChars, List.map_cons, List.mapM_cons, ← PyStr.ofChars, ih]
    rfl

lemma b64decode_encode (blob : Bytes) : b64decode (PyStr.ofChars (base64Encode blob)) = .ok blob := by
  simp [b64decode, mapM_character, base64Decode_encode]

/-- The armor gives back its blob, whatever the length of its lines. -/
lemma unarmor_armor {chunks : List (List Char)} {blob : Bytes} (h : chunks.flatten = base64Encode blob) (hne : chunks ≠ []) :
    unarmor (armor chunks) = .ok blob := by
  have hsplit : (normalizeSignature (armor chunks)).splitOn lineFeed = armorLines chunks := by
    rw [normalizeSignature_armor h]
    exact List.splitOn_intercalate lineFeed (fun l hl hmem => (plain_armorLines h hl hmem).1 rfl) (by simp [armorLines])
  have hlen : 0 < chunks.length := List.length_pos_iff.mpr hne
  have hbody : ((armorLines chunks).drop 1).dropLast.flatten = PyStr.ofChars (base64Encode blob) := by
    simp only [armorLines, List.drop_succ_cons, List.drop_zero, List.dropLast_concat, ← h, PyStr.ofChars]
    exact List.map_flatten.symm
  have hlines : ¬ (armorLines chunks).length < 3 := by
    simp only [armorLines, List.length_cons, List.length_append, List.length_map, List.length_nil]
    omega
  have hhead : (armorLines chunks).head? = some armorBegin := rfl
  have hlast : (armorLines chunks).getLast? = some armorEnd := by
    rw [armorLines, ← List.cons_append, List.getLast?_concat]
  unfold unarmor
  simp only [hsplit]
  rw [if_neg (by simp [hlines, hhead, hlast]), hbody, b64decode_encode]
  rfl

/-! ### Texts -/

/-- `encode("ascii")`. -/
def asciiBytes (s : String) : Option Bytes :=
  if s.toList.all (·.toNat < 128) then some (s.toList.map fun c => UInt8.ofNat c.toNat) else none

/-- What is written into a signature: its texts have to be encoded, and their lengths have to fit. -/
structure Signed where
  raw : {bs : Bytes // bs.length = 32}
  name : String
  hashAlgorithm : String
  signature : {bs : Bytes // bs.length = 64}

def encodeBlob (raw : Bytes) (name hashAlgorithm : String) (signature : Bytes) : Option Bytes :=
  (asciiBytes hashAlgorithm).bind fun algorithm => rawBlob raw (utf8 name) algorithm signature

def Signed.blob (f : Signed) : Option Bytes := encodeBlob f.raw f.name f.hashAlgorithm f.signature

def Signed.parsed (f : Signed) : ParsedSignature :=
  { key := ⟨keyBlob f.raw, f.raw, fingerprint (keyBlob f.raw), ""⟩, name := f.name, hashAlgorithm := f.hashAlgorithm,
    signature := f.signature }

lemma asciiText_bytes {s : String} {bs : Bytes} (h : asciiBytes s = some bs) : asciiText bs = s := by
  unfold asciiBytes at h
  split_ifs at h with hall
  obtain rfl := Option.some.inj h
  unfold asciiText
  rw [List.map_map]
  have hid : s.toList.map ((fun b : UInt8 => if b < 128 then Char.ofNat b.toNat else Char.ofNat 0xfffd) ∘
      fun c => UInt8.ofNat c.toNat) = s.toList := by
    refine (List.map_congr_left fun c hc => ?_).trans (List.map_id _)
    have hlt : c.toNat < 128 := by simpa using List.all_eq_true.mp hall c hc
    have hnat : (UInt8.ofNat c.toNat).toNat = c.toNat := by
      rw [UInt8.toNat_ofNat']
      omega
    have hbyte : UInt8.ofNat c.toNat < 128 := by
      rw [UInt8.lt_iff_toNat_lt, hnat]
      exact hlt
    simp [hbyte, hnat]
  rw [hid, String.ofList_toList]

lemma asciiBytes_text {bs : Bytes} (h : ∀ b ∈ bs, b < 128) : asciiBytes (asciiText bs) = some bs := by
  have hplain : bs.map (fun b => if b < 128 then Char.ofNat b.toNat else Char.ofNat 0xfffd) =
      bs.map fun b => Char.ofNat b.toNat :=
    List.map_congr_left fun b hb => if_pos (h b hb)
  have hnat : ∀ b ∈ bs, (Char.ofNat b.toNat).toNat = b.toNat := by
    intro b hb
    have hlt : b.toNat < 128 := UInt8.lt_iff_toNat_lt.mp (h b hb)
    have hvalid : b.toNat.isValidChar := Or.inl (by omega)
    rw [Char.ofNat, dif_pos hvalid]
    rfl
  have hall : (bs.map fun b => Char.ofNat b.toNat).all (·.toNat < 128) = true := by
    refine List.all_eq_true.mpr fun c hc => ?_
    obtain ⟨b, hb, rfl⟩ := List.mem_map.mp hc
    rw [hnat b hb]
    exact decide_eq_true (UInt8.lt_iff_toNat_lt.mp (h b hb))
  have hid : (bs.map fun b => Char.ofNat b.toNat).map (fun c => UInt8.ofNat c.toNat) = bs := by
    rw [List.map_map]
    refine (List.map_congr_left fun b hb => ?_).trans (List.map_id _)
    simp [hnat b hb]
  rw [asciiBytes, asciiText, hplain, String.toList_ofList, if_pos hall, hid]

/-- The namespace of a blob is UTF-8 and its algorithm ASCII. -/
def ValidText (blob : Bytes) : Prop :=
  ∃ s rest, wireStrings blob = .ok (s, rest) ∧ (∃ cs, s.name = PyStr.utf8Chars cs) ∧ ∀ b ∈ s.algorithm, b < 128

lemma base64Encode_ne_nil {blob : Bytes} (h : blob ≠ []) : base64Encode blob ≠ [] := by
  intro he
  have hdecode := base64Decode_encode blob
  rw [he] at hdecode
  exact h (Option.some.inj hdecode).symm

lemma parseSshsig_armor (f : Signed) {chunks : List (List Char)} {blob : Bytes} (hblob : f.blob = some blob)
    (hchunks : chunks.flatten = base64Encode blob) : parseSshsig (armor chunks) = .ok f.parsed := by
  obtain ⟨algorithm, halg, hraw⟩ := Option.bind_eq_some_iff.mp hblob
  have hmagic := (rawBlob_iff.mp hraw).1
  have hne : chunks ≠ [] := by
    rintro rfl
    refine base64Encode_ne_nil ?_ hchunks.symm
    rw [hmagic]
    simp [magic]
  have hname : utf8 f.name = PyStr.utf8Chars f.name.toList := by
    rw [← PyStr.utf8_ofList, String.ofList_toList]
  refine bind_ok.mpr ⟨blob, unarmor_armor hchunks hne, parseBlob_ok.mpr ?_⟩
  refine ⟨f.raw, utf8 f.name, algorithm, f.signature, f.raw.2, f.signature.2, hraw, ?_⟩
  rw [readOf, hname, PyStr.decode_utf8Chars, String.ofList_toList, asciiText_bytes halg]
  rfl

lemma encodeBlob_parsed {armored : PyStr} {blob : Bytes} {p : ParsedSignature} (hblob : unarmor armored = .ok blob)
    (hp : parseSshsig armored = .ok p) (htext : ValidText blob) :
    encodeBlob p.key.raw p.name p.hashAlgorithm p.signature = some blob := by
  obtain ⟨blob', hblob', hp⟩ := bind_ok.mp hp
  obtain rfl : blob = blob' := Except.ok.inj (hblob.symm.trans hblob')
  obtain ⟨raw, name, algorithm, sig, -, -, hraw, rfl⟩ := parseBlob_ok.mp hp
  obtain ⟨s, rest, hs, ⟨cs, hname⟩, halg⟩ := htext
  have htake := (wireStrings_ok.mp hs).2
  rw [(rawBlob_iff.mp hraw).2] at htake
  simp only [Option.some.injEq, Prod.mk.injEq] at htake
  obtain ⟨⟨-, rfl, -, rfl, -⟩, -⟩ := htake
  simp only [encodeBlob, readOf, asciiBytes_text halg, Option.bind_some, hname, PyStr.decode_utf8Chars, PyStr.utf8_ofList]
  rwa [hname] at hraw

theorem sshsig_wire_format :
    (∀ (f : Signed) (chunks : List (List Char)) (blob : Bytes), f.blob = some blob → chunks.flatten = base64Encode blob →
      parseSshsig (armor chunks) = .ok f.parsed) ∧
    (∀ (armored : PyStr) (blob : Bytes) (p : ParsedSignature), unarmor armored = .ok blob → parseSshsig armored = .ok p →
      ValidText blob → encodeBlob p.key.raw p.name p.hashAlgorithm p.signature = some blob) ∧
    (∀ (armored armored' : PyStr) (blob blob' : Bytes) (p : ParsedSignature), unarmor armored = .ok blob →
      unarmor armored' = .ok blob' → parseSshsig armored = .ok p → parseSshsig armored' = .ok p →
      ValidText blob → ValidText blob' → blob = blob') ∧
    ∀ (armored : PyStr) (e : Thrown), parseSshsig armored = .error e → ∃ message, e = .signatureInvalid message := by
  refine ⟨fun f chunks blob => parseSshsig_armor f, fun armored blob p => encodeBlob_parsed, ?_, parseSshsig_onlyInvalid⟩
  intro armored armored' blob blob' p hb hb' hp hp' ht ht'
  exact Option.some.inj ((encodeBlob_parsed hb hp ht).symm.trans (encodeBlob_parsed hb' hp' ht'))

def sampleSigned : Signed :=
  ⟨⟨List.replicate 32 7, List.length_replicate⟩, "jarvis-ledger-v1", "sha512", ⟨List.replicate 64 9, List.length_replicate⟩⟩

theorem sampleSigned_read_back : ∃ blob, sampleSigned.blob = some blob ∧
    parseSshsig (armor [base64Encode blob]) = .ok sampleSigned.parsed := by
  obtain ⟨blob, hblob⟩ := Option.isSome_iff_exists.mp (show sampleSigned.blob.isSome = true by decide)
  exact ⟨blob, hblob, sshsig_wire_format.1 sampleSigned [base64Encode blob] blob hblob (by simp)⟩

end ContinuityLedger.Signatures.Sshsig
