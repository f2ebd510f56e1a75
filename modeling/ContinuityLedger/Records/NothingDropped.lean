import ContinuityLedger.Records.DocumentLaws

/-! What loading a ledger keeps of every record: its id, its content, its tags, and of its evidence what is a string or an
object. -/

namespace ContinuityLedger.Records

open Foundations Foundations.Sha256 Ledger Evidence Codec

variable {num : Numbers} {contentSha256 : String → Hex64}

/-- The items of a member; what is no list is its own only item. -/
def listed (d : Members) (name : String) : List Json :=
  match member d name with
  | none | some .null => []
  | some (.arr items) => items
  | some j => [j]

/-- What an item of the evidence says is in the link. -/
def LinkKept : Json → EvidenceLink → Prop
  | .str s, l => s = key l.ref
  | .obj d, l => member d "ref" = some (jsonText l.ref) ∧ (∀ j ∈ member d "kind", j = jsonText l.kind) ∧
      ∀ j ∈ member d "note", j = jsonText l.note
  | _, _ => False

structure ItemKept (d : Members) (m : MemoryRecord String) : Prop where
  id : member d "id" = some (jsonText m.id)
  content : member d "content" = some (jsonText m.content)
  tags : listed d "tags" = m.tags.map jsonText
  evidence : List.Forall₂ LinkKept (listed d "evidence") m.evidence

def KeepsAll (raw : Members) (l : Contents) : Prop :=
  ∀ item ∈ rawItems raw, ∃ d m, item = .obj d ∧ l.get m.id = some m ∧ ItemKept d m

def isLinkItem : Json → Bool
  | .str _ | .obj _ => true
  | _ => false

/-- The evidence is missing, null or a list of strings and objects; by chance, also one character or the object whose `ref`
is "ref". -/
def LinksListed (d : Members) : Prop :=
  match member d "evidence" with
  | some (.arr items) => ∀ item ∈ items, isLinkItem item = true
  | some (.str s) => s.length = 1
  | some (.obj e) => e = [(key "ref", jsonText "ref")]
  | _ => True

lemma filterMap_isSome {A B : Type} {f : A → Option B} {xs : List A} (h : (xs.filterMap f).length = xs.length) :
    ∀ x ∈ xs, (f x).isSome := by
  induction xs with
  | nil => simp
  | cons x xs ih =>
    have hle := List.length_filterMap_le f xs
    cases hx : f x with
    | none =>
      rw [List.filterMap_cons_none hx, List.length_cons] at h
      omega
    | some b =>
      rw [List.filterMap_cons_some hx, List.length_cons, List.length_cons, Nat.add_right_cancel_iff] at h
      rw [List.forall_mem_cons]
      exact ⟨by rw [hx]; rfl, ih h⟩

lemma normalized_isSome {j : Json} : (normalized j).isSome = isLinkItem j := by
  cases j <;> rfl

lemma mapM_length {A B : Type} {f : A → Option B} {xs : List A} {ys : List B} (h : xs.mapM f = some ys) :
    ys.length = xs.length := by
  induction xs generalizing ys with
  | nil =>
    rw [← Option.some.inj h]
    rfl
  | cons x xs ih =>
    rw [List.mapM_cons] at h
    obtain ⟨y, -, h⟩ := Option.bind_eq_some_iff.mp h
    obtain ⟨rest, hrest, h⟩ := Option.bind_eq_some_iff.mp h
    rw [← Option.some.inj h, List.length_cons, List.length_cons, ih hrest]

/-- What an object is read as holds what it says. -/
lemma readEvidenceLink_kept {d : Members} {l : EvidenceLink} (h : readEvidenceLink d = some l) : LinkKept (.obj d) l := by
  obtain ⟨kind, hkind, h⟩ := Option.bind_eq_some_iff.mp h
  obtain ⟨ref, href, h⟩ := Option.bind_eq_some_iff.mp h
  obtain ⟨note, hnote, h⟩ := Option.bind_eq_some_iff.mp h
  split_ifs at h
  obtain rfl := Option.some.inj h
  refine ⟨required_string href, fun j hj => ?_, fun j hj => ?_⟩
  · rw [defaulted, Option.mem_def.mp hj] at hkind
    exact readString_eq_some.mp hkind
  · rw [defaulted, Option.mem_def.mp hj] at hnote
    exact readString_eq_some.mp hnote

lemma evidenceLink_kept {item j : Json} {l : EvidenceLink} (hj : normalized item = some j)
    (h : evidenceLink.read j = some l) : LinkKept item l := by
  cases item with
  | str s =>
    obtain rfl := Option.some.inj hj
    have hkept := readEvidenceLink_kept h
    have href : some (Json.str s) = some (jsonText l.ref) := by simpa [key] using hkept.1
    exact Json.str.inj (Option.some.inj href)
  | obj d =>
    obtain rfl := Option.some.inj hj
    exact readEvidenceLink_kept h
  | _ => simp [normalized] at hj

lemma links_kept {items : List Json} (hitems : ∀ item ∈ items, isLinkItem item = true) {links : List EvidenceLink}
    (h : (items.filterMap normalized).mapM evidenceLink.read = some links) : List.Forall₂ LinkKept items links := by
  induction items generalizing links with
  | nil =>
    rw [← Option.some.inj h]
    exact .nil
  | cons item items ih =>
    rw [List.forall_mem_cons] at hitems
    obtain ⟨j, hj⟩ := Option.isSome_iff_exists.mp (normalized_isSome.trans hitems.1)
    rw [List.filterMap_cons_some hj, List.mapM_cons] at h
    obtain ⟨l, hl, h⟩ := Option.bind_eq_some_iff.mp h
    obtain ⟨rest, hrest, h⟩ := Option.bind_eq_some_iff.mp h
    rw [← Option.some.inj h]
    exact .cons (evidenceLink_kept hj hl) (ih hitems.2 hrest)

lemma linked_iterated {d : Members} {j : Json} (hj : member d "evidence" = some j) (hne : j ≠ .null) {items : List Json}
    (h : linked d = some items) : ∃ raw, iterate j = some raw ∧ items = raw.filterMap normalized := by
  have hnone : isNone d "evidence" = false := by
    rw [isNone, hj]
    cases j <;> first | rfl | exact absurd rfl hne
  rw [linked, hnone, hj] at h
  simp only [Bool.false_eq_true, if_false, Option.bind_some, Option.map_eq_some_iff] at h
  obtain ⟨raw, hraw, rfl⟩ := h
  exact ⟨raw, hraw, rfl⟩

/-- Of an object's evidence the keys are kept, and they are what the object says in one case alone. -/
lemma keys_kept {e : Members} {links : List EvidenceLink}
    (h : List.Forall₂ LinkKept (e.map fun p => .str p.1) links) :
    List.Forall₂ LinkKept [.obj e] links ↔ e = [(key "ref", jsonText "ref")] := by
  constructor
  · intro hkept
    obtain ⟨l, rest, hl, hrest, rfl⟩ := List.forall₂_cons_left_iff.mp hkept
    obtain rfl := List.forall₂_nil_left_iff.mp hrest
    obtain ⟨s, tail, hs, htail, hmap⟩ := List.forall₂_cons_right_iff.mp h
    obtain rfl := List.forall₂_nil_right_iff.mp htail
    obtain ⟨⟨k, v⟩, rest, rfl, rfl, hnil⟩ := List.map_eq_cons_iff.mp hmap
    obtain rfl := List.map_eq_nil_iff.mp hnil
    obtain rfl : k = key l.ref := hs
    have href := hl.1
    rw [key, member_cons] at href
    split_ifs at href with heq
    · obtain rfl := Option.some.inj href
      rw [heq]
    · exact absurd href (by simp)
  · rintro rfl
    obtain ⟨l, rest, hl, hrest, rfl⟩ := List.forall₂_cons_left_iff.mp h
    obtain rfl := List.forall₂_nil_left_iff.mp hrest
    have href : "ref" = l.ref := ofString_inj.mp hl
    refine .cons ⟨by simp [key, href.symm], ?_, ?_⟩ .nil
    · simp [key]
    · simp [key]

lemma linksKept_iff {d : Members} {items : List Json} {links : List EvidenceLink} (hlinked : linked d = some items)
    (hread : items.mapM evidenceLink.read = some links) :
    List.Forall₂ LinkKept (listed d "evidence") links ↔ LinksListed d := by
  cases hmember : member d "evidence" with
  | none =>
    obtain rfl : [] = items := by simpa [linked, isNone, hmember] using hlinked
    obtain rfl := Option.some.inj hread
    simp [listed, LinksListed, hmember]
  | some j =>
    by_cases hnull : j = .null
    · subst hnull
      obtain rfl : [] = items := by simpa [linked, isNone, hmember] using hlinked
      obtain rfl := Option.some.inj hread
      simp [listed, LinksListed, hmember]
    · obtain ⟨raw, hraw, rfl⟩ := linked_iterated hmember hnull hlinked
      cases j with
      | arr xs =>
        obtain rfl := Option.some.inj hraw
        simp only [listed, LinksListed, hmember]
        constructor
        · intro hkept item hitem
          have hlength := hkept.length_eq
          rw [mapM_length hread] at hlength
          exact (normalized_isSome.symm.trans (filterMap_isSome hlength.symm item hitem))
        · intro hitems
          exact links_kept hitems hread
      | str s =>
        obtain rfl := Option.some.inj hraw
        have hkept := links_kept (List.forall_mem_map.mpr fun _ _ => rfl) hread
        simp only [listed, LinksListed, hmember]
        constructor
        · intro hone
          simpa using hkept.length_eq.trans hone.length_eq.symm
        · intro hone
          obtain ⟨p, rfl⟩ := List.length_eq_one_iff.mp hone
          exact hkept
      | obj e =>
        obtain rfl := Option.some.inj hraw
        have hkept := links_kept (List.forall_mem_map.mpr fun _ _ => rfl) hread
        simp only [listed, LinksListed, hmember]
        exact keys_kept hkept
      | _ => simp [iterate] at hraw

/-- Every item of a `memories` list has the evidence of a record in a list. -/
def EvidenceListed (raw : Members) : Prop := ∀ item ∈ rawItems raw, ∀ d, item = .obj d → LinksListed d

lemma Contents.get_eq_some {l : Contents} (h : (l.memories.map MemoryRecord.id).Nodup) {m : MemoryRecord String}
    (hm : m ∈ l.memories) : l.get m.id = some m := KeyedTable.row_eq_some h hm

lemma Parsed.tags_kept {d : Members} {m : MemoryRecord String} (h : Parsed num contentSha256 d m) :
    listed d "tags" = m.tags.map jsonText := by
  obtain ⟨out, htags, hmember⟩ := h.tags
  have hwritten : ∃ j, member out "tags" = some j ∧ j = (list string).write m.tags := by
    rw [defaulted] at htags
    cases hout : member out "tags" with
    | none =>
      rw [hout] at hmember
      split_ifs at hmember with hnone
      rw [isNone, ← hmember] at hnone
      exact absurd rfl hnone
    | some j =>
      rw [hout] at htags
      exact ⟨j, rfl, readList_eq (fun _ _ => readString_eq_some.mp) htags⟩
  obtain ⟨j, hj, rfl⟩ := hwritten
  rw [hj] at hmember
  unfold listed
  split_ifs at hmember with hnone
  · have hnil : m.tags.map string.write = [] := Json.arr.inj (Option.some.inj hmember)
    unfold isNone at hnone
    split at hnone
    · next h => rw [h]; exact hnil.symm
    · next h => rw [h]; exact hnil.symm
    · exact absurd hnone (by simp)
  · rw [← hmember]
    rfl

theorem nothing_dropped_iff (num : Numbers) (contentSha256 : String → Hex64) :
    (∀ raw l dirty, parseLedgerDocument num contentSha256 raw = .ok (l, dirty) → (KeepsAll raw l ↔ EvidenceListed raw)) ∧
    (∀ l : Contents, l.Lasts num → parseLedgerDocument num contentSha256 (saved num l) = .ok (l, false)) ∧
    ∀ raw l dirty, parseLedgerDocument num contentSha256 raw = .ok (l, dirty) →
      parseLedgerDocument num contentSha256 (saved num l) = .ok (l, false) := by
  refine ⟨fun raw l dirty h => ?_, fun l h => parse_saved h, fun raw l dirty h => parse_saved (parse_lasts h)⟩
  obtain ⟨hids, hall⟩ := parse_parsed h
  constructor
  · rintro hkeeps item hitem d rfl
    obtain ⟨d', m, hd', hm, hkept⟩ := hkeeps _ hitem
    obtain rfl := Json.obj.inj hd'
    obtain ⟨m', hm', d', hd', hparsed⟩ := forall₂_exists hall hitem
    obtain rfl := Json.obj.inj hd'
    have hsame : m'.id = m.id := jsonText_inj.mp (Option.some.inj (hparsed.id.symm.trans hkept.id))
    obtain rfl : m' = m := by
      have hget := Contents.get_eq_some hids hm'
      rw [hsame, hm] at hget
      exact (Option.some.inj hget).symm
    obtain ⟨items, hlinked, hread⟩ := hparsed.evidence
    exact (linksKept_iff hlinked hread).mp hkept.evidence
  · intro hlisted item hitem
    obtain ⟨m, hm, d, rfl, hparsed⟩ := forall₂_exists hall hitem
    obtain ⟨items, hlinked, hread⟩ := hparsed.evidence
    exact ⟨d, m, rfl, Contents.get_eq_some hids hm, hparsed.id, hparsed.content, hparsed.tags_kept,
      (linksKept_iff hlinked hread).mpr (hlisted _ hitem d rfl)⟩

def readWhole : Json → Option ℤ
  | .int n => some n
  | _ => none

lemma readWhole_write {j : Json} {d : Jsonb.Decimal} (h : (readWhole j).map (⟨·, 0⟩) = some d) :
    (readWhole (.int d.coefficient)).map (⟨·, 0⟩) = some d := by
  obtain ⟨n, -, rfl⟩ := Option.map_eq_some_iff.mp h
  rfl

/-- Of the floats, the whole ones. -/
def wholeNumbers : Numbers where
  float j := (readWhole j).map (⟨·, 0⟩)
  int := readWhole
  writeFloat d := .int d.coefficient
  float_write _ _ := readWhole_write
  float_null := rfl
  int_int _ := rfl

/-- A ledger of one record with this evidence. -/
def oneRecord (evidence : List Json) : Members :=
  [(key "memories", .arr [.obj [(key "id", jsonText "mem-1"), (key "content", jsonText "the port is 8080"),
    (key "created_at", jsonText "2026-01-02T00:00:00+00:00"), (key "updated_at", jsonText "2026-01-02T00:00:00+00:00"),
    (key "source_agent", jsonText "agent"), (key "session_id", jsonText "session"), (key "type", jsonText "fact"),
    (key "confidence", .int 1), (key "evidence", .arr evidence), (key "status", jsonText "draft"),
    (key "content_sha256", jsonText "5b0a")]])]

def readContents (links : List EvidenceLink) : Contents :=
  ⟨.default, [⟨"mem-1", "the port is 8080", "2026-01-02T00:00:00+00:00", "2026-01-02T00:00:00+00:00", "agent", "session",
    .fact, ⟨1, 0⟩, links, none, .draft, none, [], 1, "5b0a"⟩]⟩

theorem nothing_dropped_number : ∃ l, parseLedgerDocument wholeNumbers sha256Hex (oneRecord [.int 7]) = .ok (l, false) ∧
    ¬ KeepsAll (oneRecord [.int 7]) l := by
  refine ⟨readContents [], by rfl, fun hkeeps => ?_⟩
  obtain ⟨d, m, hd, -, hkept⟩ := hkeeps _ (List.mem_singleton.mpr rfl)
  obtain rfl := Json.obj.inj hd
  obtain ⟨l, rest, hl, -, -⟩ := List.forall₂_cons_left_iff.mp hkept.evidence
  exact hl

def logLink : EvidenceLink := ⟨"ref", "log.txt", "", by decide, by decide⟩

lemma parse_logLink : parseLedgerDocument wholeNumbers sha256Hex (oneRecord [jsonText "log.txt"]) =
    .ok (readContents [logLink], false) := by rfl

lemma readContents_lasts (links : List EvidenceLink) : (readContents links).Lasts wholeNumbers := by
  refine ⟨List.nodup_singleton _, fun m hm => ?_⟩
  obtain rfl := List.mem_singleton.mp hm
  exact ⟨by simp, by simp, by simp, by simp, le_refl 1, ⟨.int 1, rfl⟩, rfl⟩

theorem nothing_dropped_log : KeepsAll (oneRecord [jsonText "log.txt"]) (readContents [logLink]) ∧
    parseLedgerDocument wholeNumbers sha256Hex (saved wholeNumbers (readContents [])) = .ok (readContents [], false) ∧
    parseLedgerDocument wholeNumbers sha256Hex (saved wholeNumbers (readContents [logLink])) =
      .ok (readContents [logLink], false) := by
  obtain ⟨hkeeps, hsaved, hagain⟩ := nothing_dropped_iff wholeNumbers sha256Hex
  refine ⟨(hkeeps _ _ _ parse_logLink).mpr ?_, hsaved _ (readContents_lasts []), hagain _ _ _ parse_logLink⟩
  rintro item hitem d rfl
  obtain rfl := Json.obj.inj (List.mem_singleton.mp hitem)
  intro j hj
  obtain rfl := List.mem_singleton.mp hj
  rfl

end ContinuityLedger.Records
