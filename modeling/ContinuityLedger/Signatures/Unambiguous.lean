import ContinuityLedger.Blocks.Block
import ContinuityLedger.Foundations.Prefixed
import ContinuityLedger.Signatures.StoreFunctions

/-! The texts that are hashed or signed for blocks, checkpoints, attestations and trust statements: over the values the
columns admit, a text tells its family and all its fields. -/

namespace ContinuityLedger.Signatures

open Foundations Foundations.Sha256 Foundations.PyText Foundations.Delimited

structure BlockFields where
  fmt : ℤ
  tenant : String
  height : ℤ
  firstSeq : ℤ
  lastSeq : ℤ
  entryCount : ℤ
  prevBlockHash : Hex64
  entriesRoot : Hex64

structure CheckpointFields where
  tenant : String
  coveredSeq : ℤ
  coveredHead : Hex64
  tipHeight : ℤ
  tipHash : Hex64

/-- The signed columns of `attestations`, as their constraints admit them. -/
structure AttestationFields where
  tenant : String
  kind : String
  subject : String
  subjectHash : Hex64
  signerSeq : ℤ
  prevHash : Hex64
  signedAt : String
  kindKnown : attestKinds.contains kind = true
  subjectClean : subject.toList.all (fun c => c ≠ '|' && !isCntrl c) = true
  signedAtFits : fits "dddd-dd-ddTdd:dd:ddZ".toList signedAt.toList = true

/-- The signed columns of `trust_statements`, as their constraints admit them. -/
structure TrustFields where
  tenant : String
  kind : String
  keyId : String
  arg : Option ℤ
  subjectHash : Option Hex64
  stmtSeq : ℤ
  prevHash : Hex64
  kindKnown : trustKinds.contains kind = true
  keyIdFits : matchesKeyId keyId = true

inductive SignedFact
  | block (f : BlockFields)
  | checkpoint (f : CheckpointFields)
  | attestation (f : AttestationFields)
  | trust (f : TrustFields)

/-- What `block_hash` hashes. -/
def blockText (tenant : String) (height firstSeq lastSeq entryCount : ℤ) (prevBlockHash entriesRoot : Hex64)
    (fmt : ℤ) : String :=
  "jarvis-block|v" ++ toString fmt ++ "|" ++ tenantPart tenant ++ "|" ++ toString height ++ "|" ++
    toString firstSeq ++ "|" ++ toString lastSeq ++ "|" ++ toString entryCount ++ "|" ++ prevBlockHash.text ++ "|" ++
    entriesRoot.text

/-- What `jarvis_block_hash` hashes. -/
def jarvisBlockText (fmt : ℤ) (tenant : String) (height firstSeq lastSeq entryCount : ℤ)
    (prevBlockHash entriesRoot : Hex64) : String :=
  "jarvis-block|v" ++ toString fmt ++ "|" ++ tenantPart tenant ++ "|" ++ toString height ++ "|" ++
    toString firstSeq ++ "|" ++ toString lastSeq ++ "|" ++ toString entryCount ++ "|" ++ prevBlockHash.text ++ "|" ++
    entriesRoot.text

/-- What `checkpoint_hash` hashes. -/
def checkpointText (tenant : String) (coveredSeq : ℤ) (coveredHead : String) (tipHeight : ℤ) (tipHash : String) :
    String :=
  "jarvis-checkpoint|v1|" ++ tenantPart tenant ++ "|" ++ toString coveredSeq ++ "|" ++ coveredHead ++ "|" ++
    toString tipHeight ++ "|" ++ tipHash

lemma blockHash_eq_text (tenant : String) (height firstSeq lastSeq entryCount : ℤ) (prev root : Hex64) (fmt : ℤ) :
    Blocks.blockHash tenant height firstSeq lastSeq entryCount prev root fmt =
      sha256Hex (blockText tenant height firstSeq lastSeq entryCount prev root fmt) := by
  unfold Blocks.blockHash blockText tenantPart
  simp only [String.append_assoc]

lemma jarvisBlockHash_eq_text (fmt : ℤ) (tenant : String) (height firstSeq lastSeq entryCount : ℤ)
    (prev root : Hex64) : Blocks.jarvisBlockHash fmt tenant height firstSeq lastSeq entryCount prev root =
      sha256Hex (jarvisBlockText fmt tenant height firstSeq lastSeq entryCount prev root) := by
  unfold Blocks.jarvisBlockHash jarvisBlockText tenantPart
  simp only [String.append_assoc]

lemma checkpointHash_eq_text (tenant : String) (seq : ℤ) (head : String) (height : ℤ) (tip : String) :
    checkpointHash tenant seq head height tip = sha256Hex (checkpointText tenant seq head height tip) := rfl

/-- The text as Python builds it. -/
def SignedFact.python : SignedFact → Except Raised String
  | .block f => .ok (blockText f.tenant f.height f.firstSeq f.lastSeq f.entryCount f.prevBlockHash f.entriesRoot f.fmt)
  | .checkpoint f => .ok (checkpointText f.tenant f.coveredSeq f.coveredHead.text f.tipHeight f.tipHash.text)
  | .attestation f =>
    attestationMessage f.kind f.tenant f.subject f.subjectHash.text f.signerSeq f.prevHash.text f.signedAt
  | .trust f => trustMessage f.kind f.tenant f.keyId f.arg (f.subjectHash.map Hex64.text) f.stmtSeq f.prevHash.text

/-- The text as the database builds it; it has no function for checkpoints. -/
def SignedFact.database : SignedFact → Option String
  | .block f => some (jarvisBlockText f.fmt f.tenant f.height f.firstSeq f.lastSeq f.entryCount f.prevBlockHash
      f.entriesRoot)
  | .checkpoint _ => none
  | .attestation f =>
    some (jarvisAttestationMessage f.kind f.tenant f.subject f.subjectHash.text f.signerSeq f.prevHash.text f.signedAt)
  | .trust f =>
    some (jarvisTrustMessage f.kind f.tenant f.keyId f.arg (f.subjectHash.map Hex64.text) f.stmtSeq f.prevHash.text)

/-! The fields one after another, each before a bar except the last. -/

def BlockFields.text (f : BlockFields) : String :=
  "jarvis-block|v" ++ (toString f.fmt ++ ("|" ++ (toString (utf8 f.tenant).length ++ (":" ++ (f.tenant ++
    ("|" ++ (toString f.height ++ ("|" ++ (toString f.firstSeq ++ ("|" ++ (toString f.lastSeq ++ ("|" ++
      (toString f.entryCount ++ ("|" ++ (f.prevBlockHash.text ++ ("|" ++ f.entriesRoot.text))))))))))))))))

def CheckpointFields.text (f : CheckpointFields) : String :=
  "jarvis-checkpoint|v1|" ++ (toString (utf8 f.tenant).length ++ (":" ++ (f.tenant ++ ("|" ++
    (toString f.coveredSeq ++ ("|" ++ (f.coveredHead.text ++ ("|" ++ (toString f.tipHeight ++ ("|" ++
      f.tipHash.text))))))))))

def AttestationFields.text (f : AttestationFields) : String :=
  "jarvis-attest|v1|" ++ (f.kind ++ ("|" ++ (toString (utf8 f.tenant).length ++ (":" ++ (f.tenant ++
    ("|" ++ (f.subject ++ ("|" ++ (f.subjectHash.text ++ ("|" ++ (toString f.signerSeq ++ ("|" ++
      (f.prevHash.text ++ ("|" ++ f.signedAt))))))))))))))

def TrustFields.text (f : TrustFields) : String :=
  "jarvis-trust|v1|" ++ (f.kind ++ ("|" ++ (toString (utf8 f.tenant).length ++ (":" ++ (f.tenant ++
    ("|" ++ (f.keyId ++ ("|" ++ ((f.arg.map toString).getD "" ++ ("|" ++ ((f.subjectHash.map Hex64.text).getD "" ++
      ("|" ++ (toString f.stmtSeq ++ ("|" ++ f.prevHash.text))))))))))))))

def SignedFact.text : SignedFact → String
  | .block f => f.text
  | .checkpoint f => f.text
  | .attestation f => f.text
  | .trust f => f.text

lemma matchesHex64_text (h : Hex64) : matchesHex64 h.text = true := by simp [matchesHex64, h.valid]

lemma clean_of_admitted {subject : String} (h : subject.toList.all (fun c => c ≠ '|' && !isCntrl c) = true)
    (what : String) : clean subject what = .ok subject := by
  rw [clean, if_neg]
  intro hany
  obtain ⟨c, hc, hbad⟩ := List.any_eq_true.mp hany
  have hok := List.all_eq_true.mp h c hc
  simp only [Bool.or_eq_true, decide_eq_true_eq] at hbad
  rcases hbad with (rfl | rfl) | rfl <;> revert hok <;> decide

lemma AttestationFields.message_eq (f : AttestationFields) :
    attestationMessage f.kind f.tenant f.subject f.subjectHash.text f.signerSeq f.prevHash.text f.signedAt =
      .ok f.text := by
  have hat : matchesSignedAt f.signedAt = true := by
    rw [matchesSignedAt, Bool.or_eq_true]
    exact .inl f.signedAtFits
  unfold attestationMessage AttestationFields.text tenantPart
  rw [if_neg (not_not.mpr (List.contains_iff_mem.mp f.kindKnown)), if_neg (by simp [matchesHex64_text]),
    if_neg (by simp [hat]), clean_of_admitted f.subjectClean]
  simp only [Except.map, String.append_assoc]

lemma TrustFields.message_eq (f : TrustFields) :
    trustMessage f.kind f.tenant f.keyId f.arg (f.subjectHash.map Hex64.text) f.stmtSeq f.prevHash.text =
      .ok f.text := by
  have hnamed : ¬ ((f.subjectHash.map Hex64.text).getD "" ≠ "" &&
      !matchesHex64 ((f.subjectHash.map Hex64.text).getD "")) = true := by
    cases f.subjectHash with
    | none => simp
    | some h => simp [matchesHex64_text]
  unfold trustMessage TrustFields.text tenantPart
  rw [if_neg (not_not.mpr (List.contains_iff_mem.mp f.kindKnown)), if_neg hnamed]
  simp only [String.append_assoc]

lemma BlockFields.text_eq (f : BlockFields) :
    blockText f.tenant f.height f.firstSeq f.lastSeq f.entryCount f.prevBlockHash f.entriesRoot f.fmt = f.text := by
  unfold blockText BlockFields.text tenantPart
  simp only [String.append_assoc]

lemma CheckpointFields.text_eq (f : CheckpointFields) :
    checkpointText f.tenant f.coveredSeq f.coveredHead.text f.tipHeight f.tipHash.text = f.text := by
  unfold checkpointText CheckpointFields.text tenantPart
  simp only [String.append_assoc]

lemma AttestationFields.database_eq (f : AttestationFields) :
    jarvisAttestationMessage f.kind f.tenant f.subject f.subjectHash.text f.signerSeq f.prevHash.text f.signedAt =
      f.text := by
  unfold jarvisAttestationMessage AttestationFields.text tenantPart
  simp only [String.append_assoc]

lemma TrustFields.database_eq (f : TrustFields) :
    jarvisTrustMessage f.kind f.tenant f.keyId f.arg (f.subjectHash.map Hex64.text) f.stmtSeq f.prevHash.text =
      f.text := by
  unfold jarvisTrustMessage TrustFields.text tenantPart
  simp only [String.append_assoc]

lemma SignedFact.python_eq : (m : SignedFact) → m.python = .ok m.text
  | .block f => congrArg Except.ok f.text_eq
  | .checkpoint f => congrArg Except.ok f.text_eq
  | .attestation f => f.message_eq
  | .trust f => f.message_eq

lemma SignedFact.database_eq {m : SignedFact} {t : String} (h : m.database = some t) : t = m.text := by
  cases m with
  | block f => exact (Option.some.inj h).symm.trans f.text_eq
  | checkpoint f => cases h
  | attestation f => exact (Option.some.inj h).symm.trans f.database_eq
  | trust f => exact (Option.some.inj h).symm.trans f.database_eq

lemma cut_tenant {a b x y : String} (h : toString (utf8 a).length ++ (":" ++ (a ++ ("|" ++ x))) =
    toString (utf8 b).length ++ (":" ++ (b ++ ("|" ++ y)))) : a = b ∧ x = y := by
  obtain ⟨ha, hx⟩ := cut_prefixed h
  exact ⟨ha, (String.append_right_inj _).mp hx⟩

lemma number_ne_empty (n : ℤ) : toString n ≠ "" := by
  intro h
  have hrepr : n.repr = "" := h
  rw [Int.repr_eq_if] at hrepr
  split_ifs at hrepr with hn
  · exact Nat.repr_ne_empty hrepr
  · simp at hrepr

lemma hash_ne_empty (h : Hex64) : h.text ≠ "" := by
  intro he
  have hv := h.valid
  rw [he] at hv
  exact absurd hv (by decide)

/-- A field that may be empty tells whether it is there, where no value is written as the empty text. -/
lemma cut_optional {α : Type} {f : α → String} (hf : Function.Injective f) (hne : ∀ a, f a ≠ "")
    (hfree : ∀ a, Free '|' (f a)) {a b : Option α} {x y : String}
    (h : (a.map f).getD "" ++ ("|" ++ x) = (b.map f).getD "" ++ ("|" ++ y)) : a = b ∧ x = y := by
  have hopt : ∀ c : Option α, Free '|' ((c.map f).getD "") := by
    intro c
    cases c with
    | none => simp [Free]
    | some c => exact hfree c
  obtain ⟨hab, hx⟩ := cut_bar (hopt a) (hopt b) h
  refine ⟨?_, hx⟩
  cases a with
  | none =>
    cases b with
    | none => rfl
    | some b => exact absurd hab.symm (hne b)
  | some a =>
    cases b with
    | none => exact absurd hab (hne a)
    | some b => exact congrArg some (hf hab)

lemma BlockFields.text_injective : Function.Injective BlockFields.text := by
  intro a b h
  unfold BlockFields.text at h
  obtain ⟨hfmt, h⟩ := cut_number ((String.append_right_inj _).mp h)
  obtain ⟨htenant, h⟩ := cut_tenant h
  obtain ⟨hheight, h⟩ := cut_number h
  obtain ⟨hfirst, h⟩ := cut_number h
  obtain ⟨hlast, h⟩ := cut_number h
  obtain ⟨hcount, h⟩ := cut_number h
  obtain ⟨hprev, h⟩ := cut_hash h
  have hroot := Hex64.ext h
  cases a
  cases b
  simp_all

lemma CheckpointFields.text_injective : Function.Injective CheckpointFields.text := by
  intro a b h
  unfold CheckpointFields.text at h
  obtain ⟨htenant, h⟩ := cut_tenant ((String.append_right_inj _).mp h)
  obtain ⟨hseq, h⟩ := cut_number h
  obtain ⟨hhead, h⟩ := cut_hash h
  obtain ⟨hheight, h⟩ := cut_number h
  have htip := Hex64.ext h
  cases a
  cases b
  simp_all

lemma AttestationFields.free_kind (f : AttestationFields) : Free '|' f.kind := by
  have hk := List.contains_iff_mem.mp f.kindKnown
  simp only [attestKinds, List.mem_cons, List.not_mem_nil, or_false] at hk
  rcases hk with hk | hk | hk <;> simp [Free, hk]

lemma AttestationFields.free_subject (f : AttestationFields) : Free '|' f.subject := by
  intro hbar
  have hok := List.all_eq_true.mp f.subjectClean '|' hbar
  simp at hok

lemma AttestationFields.text_injective : Function.Injective AttestationFields.text := by
  intro a b h
  unfold AttestationFields.text at h
  obtain ⟨hkind, h⟩ := cut_bar a.free_kind b.free_kind ((String.append_right_inj _).mp h)
  obtain ⟨htenant, h⟩ := cut_tenant h
  obtain ⟨hsubject, h⟩ := cut_bar a.free_subject b.free_subject h
  obtain ⟨hhash, h⟩ := cut_hash h
  obtain ⟨hseq, h⟩ := cut_number h
  obtain ⟨hprev, hat⟩ := cut_hash h
  cases a
  cases b
  simp_all

lemma TrustFields.free_kind (f : TrustFields) : Free '|' f.kind := by
  have hk := List.contains_iff_mem.mp f.kindKnown
  simp only [trustKinds, List.mem_cons, List.not_mem_nil, or_false] at hk
  rcases hk with hk | hk | hk | hk | hk <;> simp [Free, hk]

lemma TrustFields.free_keyId (f : TrustFields) : Free '|' f.keyId := by
  have hk := f.keyIdFits
  simp only [matchesKeyId, startsWith, Bool.and_eq_true, List.all_eq_true, List.contains_iff_mem] at hk
  obtain ⟨⟨hstart, -⟩, hdigits⟩ := hk
  obtain ⟨rest, hrest⟩ := List.isPrefixOf_iff_prefix.mp hstart
  intro hbar
  rw [← hrest, List.mem_append] at hbar
  rcases hbar with hbar | hbar
  · exact absurd hbar (by decide)
  · have hdrop : f.keyId.toList.drop 7 = rest := by rw [← hrest]; exact List.drop_left' (by decide)
    rw [← hdrop] at hbar
    exact absurd (hdigits '|' hbar) (by decide)

lemma TrustFields.text_injective : Function.Injective TrustFields.text := by
  intro a b h
  unfold TrustFields.text at h
  obtain ⟨hkind, h⟩ := cut_bar a.free_kind b.free_kind ((String.append_right_inj _).mp h)
  obtain ⟨htenant, h⟩ := cut_tenant h
  obtain ⟨hkey, h⟩ := cut_bar a.free_keyId b.free_keyId h
  obtain ⟨harg, h⟩ := cut_optional (fun _ _ => int_text_injective) number_ne_empty free_number h
  obtain ⟨hhash, h⟩ := cut_optional (fun _ _ => Hex64.ext) hash_ne_empty free_text h
  obtain ⟨hseq, h⟩ := cut_number h
  have hprev := Hex64.ext h
  cases a
  cases b
  simp_all

/-- The eighth character of a text is that of its family. -/
def SignedFact.tag : SignedFact → Char
  | .block _ => 'b'
  | .checkpoint _ => 'c'
  | .attestation _ => 'a'
  | .trust _ => 't'

lemma SignedFact.text_tag (m : SignedFact) : m.text.toList[7]? = some m.tag := by
  cases m with
  | block f =>
    change f.text.toList[7]? = some 'b'
    unfold BlockFields.text
    simp only [String.toList_append, String.reduceToList]
    rfl
  | checkpoint f =>
    change f.text.toList[7]? = some 'c'
    unfold CheckpointFields.text
    simp only [String.toList_append, String.reduceToList]
    rfl
  | attestation f =>
    change f.text.toList[7]? = some 'a'
    unfold AttestationFields.text
    simp only [String.toList_append, String.reduceToList]
    rfl
  | trust f =>
    change f.text.toList[7]? = some 't'
    unfold TrustFields.text
    simp only [String.toList_append, String.reduceToList]
    rfl

lemma SignedFact.text_injective : Function.Injective SignedFact.text := by
  intro m n h
  have htag : m.tag = n.tag := Option.some.inj (by rw [← m.text_tag, ← n.text_tag, h])
  cases m with
  | block f =>
    cases n with
    | block g => exact congrArg block (BlockFields.text_injective h)
    | _ => exact absurd htag (by simp [tag])
  | checkpoint f =>
    cases n with
    | checkpoint g => exact congrArg checkpoint (CheckpointFields.text_injective h)
    | _ => exact absurd htag (by simp [tag])
  | attestation f =>
    cases n with
    | attestation g => exact congrArg attestation (AttestationFields.text_injective h)
    | _ => exact absurd htag (by simp [tag])
  | trust f =>
    cases n with
    | trust g => exact congrArg trust (TrustFields.text_injective h)
    | _ => exact absurd htag (by simp [tag])

/-! Stored rows are such facts. -/

lemma Attestation.checks_signed {a : Attestation} (h : a.checks = true) :
    attestKinds.contains a.kind = true ∧ a.subject.toList.all (fun c => c ≠ '|' && !isCntrl c) = true ∧
      isHex64 a.subjectHash = true ∧ isHex64 a.prevHash = true ∧
      fits "dddd-dd-ddTdd:dd:ddZ".toList a.signedAt.toList = true := by
  simp only [Attestation.checks, Bool.and_eq_true] at h
  obtain ⟨⟨⟨⟨⟨⟨⟨⟨⟨⟨-, hkind⟩, -⟩, -⟩, hsubject⟩, hhash⟩, hprev⟩, -⟩, hat⟩, -⟩, -⟩ := h
  exact ⟨hkind, hsubject, hhash, hprev, hat⟩

def Attestation.signed (tenant : String) (a : Attestation) (h : a.checks = true) : AttestationFields where
  tenant := tenant
  kind := a.kind
  subject := a.subject
  subjectHash := ⟨a.subjectHash, (checks_signed h).2.2.1⟩
  signerSeq := a.signerSeq
  prevHash := ⟨a.prevHash, (checks_signed h).2.2.2.1⟩
  signedAt := a.signedAt
  kindKnown := (checks_signed h).1
  subjectClean := (checks_signed h).2.1
  signedAtFits := (checks_signed h).2.2.2.2

lemma Attestation.signed_text (tenant : String) (a : Attestation) (h : a.checks = true) :
    (a.signed tenant h).text = a.message tenant := (a.signed tenant h).database_eq.symm

lemma Statement.checks_signed {s : Statement} (h : s.checks = true) :
    trustKinds.contains s.kind = true ∧ matchesKeyId s.keyId = true ∧ (∀ t ∈ s.subjectHash, isHex64 t = true) ∧
      isHex64 s.prevHash = true := by
  simp only [Statement.checks, Bool.and_eq_true, Option.all_eq_true] at h
  obtain ⟨⟨⟨⟨⟨⟨⟨⟨⟨-, hkind⟩, hkey⟩, -⟩, -⟩, hhash⟩, hprev⟩, -⟩, -⟩, -⟩ := h
  exact ⟨hkind, hkey, hhash, hprev⟩

def Statement.signed (tenant : String) (s : Statement) (h : s.checks = true) : TrustFields where
  tenant := tenant
  kind := s.kind
  keyId := s.keyId
  arg := s.arg
  subjectHash := s.subjectHash.pmap (fun t ht => ⟨t, ht⟩) (checks_signed h).2.2.1
  stmtSeq := s.stmtSeq
  prevHash := ⟨s.prevHash, (checks_signed h).2.2.2⟩
  kindKnown := (checks_signed h).1
  keyIdFits := (checks_signed h).2.1

lemma Statement.signed_text (tenant : String) (s : Statement) (h : s.checks = true) :
    (s.signed tenant h).text =
      jarvisTrustMessage s.kind tenant s.keyId s.arg s.subjectHash s.stmtSeq s.prevHash := by
  have hhash : (s.signed tenant h).subjectHash.map Hex64.text = s.subjectHash := by
    rw [Statement.signed, Option.map_pmap]
    simp
  rw [← (s.signed tenant h).database_eq, hhash]
  rfl

def blockFields (b : Blocks.Block) : BlockFields :=
  ⟨b.format, b.tenantKey, b.height, b.firstSeq, b.lastSeq, b.entryCount, b.prevBlockHash, b.entriesRoot⟩

lemma blockFields_text (b : Blocks.Block) :
    Blocks.jarvisBlockHash b.format b.tenantKey b.height b.firstSeq b.lastSeq b.entryCount b.prevBlockHash
      b.entriesRoot = sha256Hex (blockFields b).text := by
  rw [jarvisBlockHash_eq_text]
  exact congrArg sha256Hex (SignedFact.database_eq (m := .block (blockFields b)) rfl)

/-- Python can build every text and the database builds the same; and a text tells the fact. -/
theorem texts_unambiguous (m n : SignedFact) :
    (∃ t, m.python = .ok t) ∧ (∀ t, m.database = some t → m.python = .ok t) ∧ (m.python = n.python → m = n) ∧
      (∀ t, m.database = some t → n.database = some t → m = n) := by
  refine ⟨⟨m.text, m.python_eq⟩, fun t h => ?_, fun h => ?_, fun t hm hn => ?_⟩
  · rw [m.python_eq, SignedFact.database_eq h]
  · rw [m.python_eq, n.python_eq] at h
    exact SignedFact.text_injective (Except.ok.inj h)
  · exact SignedFact.text_injective ((SignedFact.database_eq hm).symm.trans (SignedFact.database_eq hn))

end ContinuityLedger.Signatures
