import ContinuityLedger.CallLog.Appending
import ContinuityLedger.Foundations.ByteLines
import ContinuityLedger.Foundations.JsonChars

/-! The lines that appends write: each is read as its entry, with its keys in order, and the entry's hash is found again;
without its start it is read as no entry. -/

namespace ContinuityLedger.CallLog

open Foundations Foundations.Sha256 Foundations.Codec Foundations.Calendar Foundations.Json

/-- What one append writes: its entry is hashed, and the line is its text. -/
structure Line (rt : Runtime) (cfg : Config) where
  fields : EntryFields
  chain : Chain
  now : Instant
  hash : Hex64
  bytes : Bytes
  hash_eq : rt.entryHashOf (keyed (unhashed cfg fields chain now)) = .ok hash
  bytes_eq : rt.canonical (.obj (hashed (unhashed cfg fields chain now) hash)) = .ok bytes

namespace Line

variable {rt : Runtime} {cfg : Config} (l : Line rt cfg)

def pairs : List (String × Json) := unhashed cfg l.fields l.chain l.now ++ [("entry_hash", .str (PyStr.ofString l.hash.text))]

def entry : Members := keyed l.pairs

/-- What the next entry is chained to. -/
def next : Chain := ⟨l.chain.seq + 1, PyStr.ofString l.hash.text⟩

end Line

/-! ### Entries -/

def entryNames : List String := ["seq", "ts", "prev_hash"] ++ fieldNames ++ ["entry_hash"]

lemma nodup_entryNames : entryNames.Nodup := by decide

/-- A small letter, a digit or an underscore. -/
def isNameChar (c : Char) : Bool := c = '_' || ('0' ≤ c && c ≤ '9') || ('a' ≤ c && c ≤ 'z')

lemma isNameChar_plain {c : Char} (h : isNameChar c = true) :
    escape (.scalar c) = [.scalar c] ∧ c ≠ '{' ∧ c ≠ ':' ∧ isSpace (.scalar c) = false := by
  have hrange : '0'.toNat ≤ c.toNat ∧ c.toNat ≤ 'z'.toNat ∧ c ≠ ':' ∧ c ≠ '\\' := by
    simp only [isNameChar, Bool.or_eq_true, Bool.and_eq_true, decide_eq_true_eq, Char.le_def, UInt32.le_iff_toNat_le] at h
    rcases h with (rfl | h) | h
    · decide
    · refine ⟨h.1, h.2.trans (by decide), ?_, ?_⟩
      · rintro rfl
        exact absurd h.2 (by decide)
      · rintro rfl
        exact absurd h.2 (by decide)
    · refine ⟨Nat.le_trans (by decide) h.1, h.2, ?_, ?_⟩
      · rintro rfl
        exact absurd h.1 (by decide)
      · rintro rfl
        exact absurd h.1 (by decide)
  obtain ⟨hlow, hhigh, hcolon, hback⟩ := hrange
  have hne (d : Char) (hd : d.toNat < '0'.toNat) : c ≠ d := by
    rintro rfl
    exact absurd hlow (by omega)
  refine ⟨?_, ?_, hcolon, ?_⟩
  · rw [escape, if_neg (hne _ (by decide)), if_neg hback, if_neg (hne _ (by decide)), if_neg (hne _ (by decide)),
      if_neg (hne _ (by decide)), if_neg (hne _ (by decide)), if_neg (hne _ (by decide)), if_neg]
    exact Nat.not_lt.mpr (Nat.le_trans (by decide) hlow)
  · rintro rfl
    exact absurd hhigh (by decide)
  · simp only [isSpace, PyChar.scalar.injEq, hne _ (by decide : ' '.toNat < '0'.toNat),
      hne _ (by decide : '\t'.toNat < '0'.toNat), hne _ (by decide : '\n'.toNat < '0'.toNat),
      hne _ (by decide : '\r'.toNat < '0'.toNat), decide_false, Bool.or_self]

lemma word_ofString {name : String} (hne : name.toList ≠ []) (h : name.toList.all isNameChar = true) :
    Word (PyStr.ofString name) := by
  have hplain : ∀ c ∈ name.toList, isNameChar c = true := List.all_eq_true.mp h
  refine ⟨?_, ?_⟩
  · intro p hp
    obtain ⟨c, hc, rfl⟩ := List.mem_map.mp hp
    obtain ⟨hescape, hbrace, -, -⟩ := isNameChar_plain (hplain c hc)
    exact ⟨hescape, fun h => hbrace (PyChar.scalar.inj h)⟩
  · obtain ⟨c, cs, hcs⟩ := List.exists_cons_of_ne_nil hne
    obtain ⟨-, -, hcolon, hspace⟩ := isNameChar_plain (hplain c (hcs ▸ List.mem_cons_self))
    refine ⟨.scalar c, PyStr.ofChars cs, ?_, hspace, fun h => hcolon (PyChar.scalar.inj h)⟩
    rw [PyStr.ofString, hcs]
    rfl

lemma plain_entryNames : ∀ name ∈ entryNames, name.toList ≠ [] ∧ name.toList.all isNameChar = true := by
  simp only [entryNames, fieldNames, List.cons_append, List.nil_append, List.forall_mem_cons, List.not_mem_nil,
    false_implies, implies_true, and_true]
  decide

lemma word_entryNames : ∀ name ∈ entryNames, Word (PyStr.ofString name) := by
  intro name hname
  obtain ⟨hne, hplain⟩ := plain_entryNames name hname
  exact word_ofString hne hplain

section
variable {rt : Runtime} {cfg : Config} (l : Line rt cfg)

lemma names_line : l.pairs.map Prod.fst = "seq" :: "ts" :: "prev_hash" :: (l.fields.pairs.map Prod.fst ++ ["entry_hash"]) := by
  simp [Line.pairs, unhashed]

lemma names_mem : ∀ name ∈ l.pairs.map Prod.fst, name ∈ entryNames := by
  rw [names_line]
  intro name hname
  simp only [List.mem_cons, List.mem_append, List.not_mem_nil, or_false] at hname
  simp only [entryNames, List.mem_append, List.mem_cons, List.not_mem_nil, or_false]
  rcases hname with h | h | h | h | h
  · exact Or.inl (Or.inl (Or.inl h))
  · exact Or.inl (Or.inl (Or.inr (Or.inl h)))
  · exact Or.inl (Or.inl (Or.inr (Or.inr h)))
  · exact Or.inl (Or.inr (l.fields.named h))
  · exact Or.inr h

lemma names_nodup : (l.pairs.map Prod.fst).Nodup := by
  have hown : ∀ name ∈ ["seq", "ts", "prev_hash", "entry_hash"], name ∉ l.fields.pairs.map Prod.fst := by
    intro name hname hmem
    have hall : ∀ name ∈ ["seq", "ts", "prev_hash", "entry_hash"], name ∉ fieldNames := by decide
    exact hall name hname (l.fields.named hmem)
  rw [names_line]
  simp only [List.nodup_cons, List.mem_cons, List.mem_append, List.nodup_append, l.fields.distinct, List.not_mem_nil, or_false]
  have h1 := hown "seq" (by decide)
  have h2 := hown "ts" (by decide)
  have h3 := hown "prev_hash" (by decide)
  have h4 := hown "entry_hash" (by decide)
  refine ⟨?_, ?_, ?_, trivial, ?_, ?_⟩
  · simp [h1]
  · simp [h2]
  · simp [h3]
  · simp
  · rintro a ha b rfl rfl
    exact h4 ha

lemma flat_line : ∀ p ∈ l.pairs, Json.flat p.2 = true := by
  intro p hp
  simp only [Line.pairs, unhashed, List.cons_append, List.mem_cons, List.mem_append, List.not_mem_nil, or_false] at hp
  rcases hp with rfl | rfl | rfl | hp | rfl
  · rfl
  · rfl
  · rfl
  · exact l.fields.flat p hp
  · rfl

end

open Foundations Foundations.Sha256 Foundations.Codec Foundations.Json

/-! ### Values with their keys in order -/

lemma sorted_flat {j : Json} (h : flat j = true) : sorted j = j := by
  cases j with
  | arr _ => cases h
  | obj _ => cases h
  | _ => rfl

lemma proper_flat (py : Python) {j : Json} (h : flat j = true) (hp : printable j = true) : proper py j := by
  cases j with
  | arr _ => cases h
  | obj _ => cases h
  | float _ => cases h
  | int n => simpa [printable, proper] using hp
  | _ => trivial

lemma dumps_sorted (py : Python) {i j : Json} (h : sorted i = sorted j) : dumps py i = dumps py j := by
  unfold dumps
  rw [text_eq i, text_eq j, ← printable_sorted i, ← printable_sorted j, ← depth_sorted i, ← depth_sorted j, h]

lemma Runtime.canonical_sorted (rt : Runtime) {i j : Json} (h : sorted i = sorted j) : rt.canonical i = rt.canonical j := by
  unfold Runtime.canonical
  rw [dumps_sorted rt.python h]

lemma canonical_ok {rt : Runtime} {j : Json} {bytes : Bytes} (h : rt.canonical j = .ok bytes) :
    printable j = true ∧ depth j ≤ rt.python.dumpsNesting ∧ PyStr.encode (rendered [] (sorted j)) = some bytes := by
  unfold Runtime.canonical dumps at h
  split_ifs at h with hp hd
  · refine ⟨by simpa using hp, by omega, ?_⟩
    dsimp only at h
    rw [text_eq] at h
    cases hb : PyStr.encode (rendered [] (sorted j)) with
    | none =>
      rw [hb] at h
      cases h
    | some b =>
      rw [hb] at h
      exact congrArg some (Except.ok.inj h)

lemma depth_keyed {pairs : List (String × Json)} (h : ∀ p ∈ pairs, flat p.2 = true) : depth (.obj (keyed pairs)) = 1 := by
  refine Nat.add_eq_right.mpr (Nat.le_zero.mp (depthMembers_le.mpr fun m hm => ?_))
  obtain ⟨p, hp, rfl⟩ := List.mem_map.mp hm
  have hflat := h p hp
  dsimp only
  cases hj : p.2 with
  | arr _ => simp [hj, flat] at hflat
  | obj _ => simp [hj, flat] at hflat
  | _ => exact le_rfl

lemma keys_keyed {pairs : List (String × Json)} (h : (pairs.map Prod.fst).Nodup) : ((keyed pairs).map Prod.fst).Nodup := by
  have hkeys : (keyed pairs).map Prod.fst = (pairs.map Prod.fst).map PyStr.ofString := by simp [keyed]
  rw [hkeys]
  exact h.map fun _ _ => ofString_inj.mp

/-- Under a name stands what was written under it. -/
lemma member_keyed {pairs : List (String × Json)} (h : (pairs.map Prod.fst).Nodup) {p : String × Json} (hp : p ∈ pairs) :
    member (keyed pairs) p.1 = some p.2 :=
  (Dict.mem_iff_get (keys_keyed h)).mp (List.mem_map_of_mem (f := fun p : String × Json => (PyStr.ofString p.1, p.2)) hp)

/-! ### The text of a line -/

namespace Line

variable {rt : Runtime} {cfg : Config} (l : Line rt cfg)

/-- The entry as it is read. -/
def members : Members := (sortedMembers l.entry).insertionSort memberLE

def chars : List Char := decoded l.bytes

lemma sorted_entry : sorted (.obj l.entry) = .obj l.members := rfl

lemma written : printable (.obj l.entry) = true ∧ depth (.obj l.entry) ≤ rt.python.dumpsNesting ∧
    PyStr.encode (rendered [] (.obj l.members)) = some l.bytes := canonical_ok l.bytes_eq

lemma bytes_chars : l.bytes = PyStr.utf8Chars l.chars ∧ PyStr.ofChars l.chars = rendered [] (.obj l.members) := by
  obtain ⟨cs, htext, hbytes⟩ := PyStr.encode_eq_some l.written.2.2
  have hchars : l.chars = cs := by rw [chars, decoded, hbytes, PyStr.decode_utf8Chars]
  rw [hchars]
  exact ⟨hbytes, htext.symm⟩

lemma flat_entry : ∀ m ∈ l.entry, flat m.2 = true := by
  intro m hm
  obtain ⟨p, hp, rfl⟩ := List.mem_map.mp hm
  exact flat_line l p hp

lemma keys_entry : (l.entry.map Prod.fst).Nodup := keys_keyed (names_nodup l)

lemma perm_members : l.members.Perm l.entry := by
  have hself : l.entry.map (fun m => (m.1, sorted m.2)) = l.entry := by
    refine (List.map_congr_left fun m hm => ?_).trans (List.map_id _)
    rw [sorted_flat (l.flat_entry m hm)]
    rfl
  have hperm := perm_sorted l.entry
  rwa [hself] at hperm

lemma flat_members : ∀ m ∈ l.members, flat m.2 = true := fun m hm => l.flat_entry m (l.perm_members.mem_iff.mp hm)

lemma proper_entry : proper rt.python (.obj l.entry) := by
  refine ⟨l.keys_entry, properMembers_iff.mpr fun m hm => ?_⟩
  have hprint := l.written.1
  rw [printable, printableMembers_eq, List.all_eq_true] at hprint
  exact proper_flat rt.python (l.flat_entry m hm) (hprint m hm)

lemma depth_entry : depth (.obj l.entry) = 1 := depth_keyed (flat_line l)

/-- A line is read as its entry. -/
lemma loads_chars : rt.loads l.chars = .ok (.obj l.members) := by
  have hproper : proper rt.python (.obj l.members) := proper_sorted l.proper_entry
  have hdepth : depth (.obj l.members) ≤ rt.python.loadsNesting := by
    rw [← sorted_entry, depth_sorted, l.depth_entry]
    exact rt.python.loads_pos
  rw [Runtime.loads, l.bytes_chars.2, loads_rendered rt.python (by simp [Blank]) hproper hdepth]
  rfl

lemma member_entry {name : String} {j : Json} (h : (name, j) ∈ l.pairs) : member l.members name = some j := by
  rw [Codec.member, get_perm l.keys_entry l.perm_members.symm]
  exact member_keyed (names_nodup l) h

lemma subscript_entry {name : String} {j : Json} (h : (name, j) ∈ l.pairs) : subscript (.obj l.members) name = .ok j := by
  rw [subscript, l.member_entry h]
  rfl

lemma subscript_seq : subscript (.obj l.members) "seq" = .ok (.int (l.chain.seq + 1)) :=
  l.subscript_entry List.mem_cons_self

lemma subscript_prev : subscript (.obj l.members) "prev_hash" = .ok (.str l.chain.entryHash) :=
  l.subscript_entry (List.mem_cons_of_mem _ (List.mem_cons_of_mem _ List.mem_cons_self))

lemma subscript_hash : subscript (.obj l.members) "entry_hash" = .ok (.str l.next.entryHash) :=
  l.subscript_entry (List.mem_append_right _ (List.mem_singleton_self _))

/-- The hash of the entry that is read is the one that it names. -/
lemma hash_members : rt.entryHashOf l.members = .ok l.hash := by
  have hkeyed : l.entry = keyed (unhashed cfg l.fields l.chain l.now) ++
      [(PyStr.ofString "entry_hash", .str (PyStr.ofString l.hash.text))] := by simp [entry, pairs, keyed]
  have hkeys := l.keys_entry
  rw [hkeyed, List.map_append] at hkeys
  obtain ⟨hown, -, hdisjoint⟩ := List.nodup_append.mp hkeys
  have hfree : drop (keyed (unhashed cfg l.fields l.chain l.now)) "entry_hash" = keyed (unhashed cfg l.fields l.chain l.now) := by
    refine List.filter_eq_self.mpr fun m hm => ?_
    simpa using hdisjoint m.1 (List.mem_map_of_mem hm) _ (by simp)
  have hperm : (drop l.members "entry_hash").Perm (keyed (unhashed cfg l.fields l.chain l.now)) := by
    refine (l.perm_members.filter _).trans ?_
    rw [hkeyed, List.filter_append]
    simpa [drop, KeyedTable.remove] using List.Perm.of_eq hfree
  have hsorted : sorted (.obj (drop l.members "entry_hash")) = sorted (.obj (keyed (unhashed cfg l.fields l.chain l.now))) := by
    rw [sorted, sorted, sortedMembers_eq, sortedMembers_eq]
    refine congrArg Json.obj (insertionSort_eq (nodup_sorted ?_) (hperm.map _))
    exact (hperm.map Prod.fst).nodup_iff.mpr hown
  have hhash := l.hash_eq
  unfold Runtime.entryHashOf at hhash ⊢
  rwa [rt.canonical_sorted hsorted, ← hfree]

/-! ### The bytes of a line -/

lemma chars_cons : ∃ cs, l.chars = '{' :: cs ∧ PyStr.ofChars cs = renderedMembers [] l.members := by
  have htext := l.bytes_chars.2
  rw [rendered] at htext
  cases hcs : l.chars with
  | nil =>
    rw [hcs] at htext
    cases htext
  | cons c cs =>
    rw [hcs, Data.ofChars_cons, List.cons.injEq, PyChar.scalar.injEq] at htext
    exact ⟨cs, by rw [htext.1], htext.2⟩

lemma bytes_cons : ∃ bs, l.bytes = 0x7b :: bs := by
  obtain ⟨cs, hcs, -⟩ := l.chars_cons
  rw [l.bytes_chars.1, hcs]
  exact ⟨PyStr.utf8Chars cs, rfl⟩

lemma renderedMembers_last (ms : List (PyStr × Json)) : ∃ s, renderedMembers [] ms = s ++ [.scalar '}'] := by
  induction ms with
  | nil => exact ⟨[], rfl⟩
  | cons m ms ih =>
    obtain ⟨s, hs⟩ := ih
    rw [renderedMembers_cons, following]
    cases ms with
    | nil => exact ⟨quote m.1 ++ .scalar ':' :: rendered [] m.2, by simp⟩
    | cons n ms => exact ⟨quote m.1 ++ .scalar ':' :: (rendered [] m.2 ++ .scalar ',' :: s), by simp [hs]⟩

lemma bytes_last : ∃ bs, l.bytes = bs ++ [0x7d] := by
  obtain ⟨s, hs⟩ := renderedMembers_last l.members
  have htext := l.bytes_chars.2
  rw [rendered, hs, ← List.cons_append] at htext
  obtain ⟨init, last, hchars, -, hlast⟩ := List.map_eq_append_iff.mp htext
  obtain ⟨c, rfl, hc⟩ := List.map_eq_singleton_iff.mp hlast
  obtain rfl := PyChar.scalar.inj hc
  refine ⟨PyStr.utf8Chars init, ?_⟩
  rw [l.bytes_chars.1, hchars]
  simp only [PyStr.utf8Chars, List.flatMap_append]
  rfl

lemma chars_high : ∀ c ∈ l.chars, 0x20 ≤ c.toNat := by
  have hevery : everyChar (fun p => 0x20 ≤ PyStr.code p) (.obj l.members) := by
    refine everyMember_iff.mpr fun m hm => ⟨fun p _ => lt_or_ge _ _, ?_⟩
    have hflat := l.flat_members m hm
    cases hj : m.2 with
    | str s => exact fun p _ => lt_or_ge _ _
    | float t => simp [hj, flat] at hflat
    | arr _ => simp [hj, flat] at hflat
    | obj _ => simp [hj, flat] at hflat
    | _ => trivial
  have hgap : ∀ p ∈ ([] : PyStr), 0x20 ≤ PyStr.code p := by simp
  have hall := every_rendered (fun c hc _ => hc) hgap hevery
  rw [← l.bytes_chars.2] at hall
  exact fun c hc => hall (.scalar c) (List.mem_map_of_mem hc)

lemma newline_chars : '\n' ∉ l.chars := fun h => absurd (l.chars_high _ h) (by decide)

lemma newline_bytes : newline ∉ l.bytes := by
  rw [l.bytes_chars.1]
  exact fun h => l.newline_chars (PyStr.lineFeed_mem h)

lemma nonblank_bytes : nonblank l.bytes = true := by
  obtain ⟨bs, hbs⟩ := l.bytes_cons
  rw [hbs]
  rfl

lemma nonblank_drop {k : ℕ} (hk : k < l.bytes.length) : nonblank (l.bytes.drop k) = true := by
  obtain ⟨bs, hbs⟩ := l.bytes_last
  rw [hbs, List.length_append, List.length_singleton] at hk
  rw [hbs, List.drop_append_of_le_length (by omega), nonblank, List.all_append]
  simp [isByteSpace]

lemma word_members : ∀ m ∈ l.members, Word m.1 := by
  intro m hm
  obtain ⟨p, hp, rfl⟩ := List.mem_map.mp (l.perm_members.mem_iff.mp hm)
  exact word_entryNames p.1 (names_mem l p.1 (List.mem_map_of_mem hp))

/-- Without its start a line opens no object with members. -/
lemma dead_drop {k : ℕ} (hk : 0 < k) : Dead (PyStr.ofChars (decoded (l.bytes.drop k))) := by
  obtain ⟨cs, hcs, hmembers⟩ := l.chars_cons
  obtain ⟨m, n, hn, htext⟩ := PyStr.decode_drop l.chars k
  rw [decoded, l.bytes_chars.1, htext]
  cases m with
  | zero =>
    obtain ⟨n, rfl⟩ := Nat.exists_eq_add_one.mpr (hn hk)
    rw [hcs, List.drop_succ_cons, List.replicate_zero, List.nil_append]
    refine inert_members l.word_members l.flat_members _ ?_
    rw [← hmembers, PyStr.ofChars, PyStr.ofChars, List.map_drop]
    exact List.drop_suffix n _
  | succ m =>
    apply dead_head
    simp only [List.replicate_succ, List.cons_append, Data.ofChars_cons, List.head?_cons, Option.mem_some_iff, forall_eq']
    decide

end Line

/-! ### The last line of a file -/

variable {rt : Runtime} {cfg : Config}

def fileOf (ls : List (Line rt cfg)) : Bytes := ByteLines.ended newline (ls.map Line.bytes)

lemma firstEntry_line (l : Line rt cfg) (rest : List (List Char)) : rt.firstEntry (l.chars :: rest) = .ok (some l.chars) := by
  rw [Runtime.firstEntry, l.loads_chars]
  simp only [bind, Except.bind, l.subscript_hash]

/-- What lacks its start is skipped. -/
lemma firstEntry_cut (l : Line rt cfg) {k : ℕ} (hk : 0 < k) :
    rt.firstEntry [decoded (l.bytes.drop k)] = .ok none ∨ ∃ e, rt.firstEntry [decoded (l.bytes.drop k)] = .error e := by
  have hnone : ∀ j, rt.loads (decoded (l.bytes.drop k)) = .ok j → ∃ e, subscript j "entry_hash" = .error e := by
    intro j hj
    cases j with
    | obj d =>
      obtain rfl : d = [] := by
        unfold Runtime.loads at hj
        cases hload : Json.loads rt.python (PyStr.ofChars (decoded (l.bytes.drop k))) with
        | error e =>
          rw [hload] at hj
          cases hj
        | ok j =>
          rw [hload] at hj
          obtain rfl := Except.ok.inj hj
          exact loads_dead (l.dead_drop hk) hload
      exact ⟨.key, rfl⟩
    | _ => exact ⟨.type, rfl⟩
  rw [Runtime.firstEntry]
  cases hload : rt.loads (decoded (l.bytes.drop k)) with
  | error e =>
    simp only [bind, Except.bind, Runtime.firstEntry]
    split_ifs
    · exact Or.inl rfl
    · exact Or.inr ⟨e, rfl⟩
  | ok j =>
    obtain ⟨e, he⟩ := hnone j hload
    simp only [bind, Except.bind, he, Runtime.firstEntry]
    split_ifs
    · exact Or.inl rfl
    · exact Or.inr ⟨e, rfl⟩

lemma lastLine_fits (ls : List (Line rt cfg)) {l : Line rt cfg} (h : l.bytes.length < tailWindow) :
    rt.lastLine (fileOf (ls ++ [l])) = .ok (some l.chars) := by
  obtain ⟨pieces, hpieces⟩ := ByteLines.window_fits l.newline_bytes (ls.map Line.bytes) h
  have htail : tailLines (fileOf (ls ++ [l])) = (pieces.filter nonblank).map decoded ++ [l.chars] := by
    have hsplit : ((ByteLines.window tailWindow (fileOf (ls ++ [l]))).splitOn newline) = pieces ++ [l.bytes, []] := by
      rw [fileOf, List.map_append]
      exact hpieces
    change ((((ByteLines.window tailWindow (fileOf (ls ++ [l]))).splitOn newline).filter nonblank).map decoded) = _
    rw [hsplit, List.filter_append, List.filter_cons, if_pos l.nonblank_bytes, List.map_append]
    rfl
  rw [Runtime.lastLine, htail, List.reverse_append, List.reverse_singleton, List.singleton_append, firstEntry_line]

/-- Past the window the last line is not found, and nothing is taken for it. -/
lemma lastLine_cut (ls : List (Line rt cfg)) {l : Line rt cfg} (h : tailWindow ≤ l.bytes.length) :
    ∃ e, rt.lastLine (fileOf (ls ++ [l])) = .error e := by
  have hk : l.bytes.length + 1 - tailWindow < l.bytes.length := by
    simp only [tailWindow] at h ⊢
    omega
  have hwindow := ByteLines.window_cut (c := newline) (ls.map Line.bytes) (by decide) h
  have htail : tailLines (fileOf (ls ++ [l])) = [decoded (l.bytes.drop (l.bytes.length + 1 - tailWindow))] := by
    change ((((ByteLines.window tailWindow (fileOf (ls ++ [l]))).splitOn newline).filter nonblank).map decoded) = _
    rw [fileOf, List.map_append, List.map_singleton, hwindow, List.splitOn_append_cons_self,
      List.splitOn_eq_singleton fun hmem => l.newline_bytes (List.mem_of_mem_drop hmem), List.singleton_append,
      List.filter_cons, if_pos (l.nonblank_drop hk)]
    rfl
  rw [Runtime.lastLine, htail, List.reverse_singleton]
  rcases firstEntry_cut l (k := l.bytes.length + 1 - tailWindow) (by omega) with hfirst | ⟨e, hfirst⟩
  · rw [hfirst]
    exact ⟨_, rfl⟩
  · rw [hfirst]
    exact ⟨e, rfl⟩

end ContinuityLedger.CallLog
