import Mathlib
import ContinuityLedger.Foundations.JsonProper
import ContinuityLedger.CallLog.Idle
import ContinuityLedger.Replay.RootsBind

/-! What `verify` vouches for, whatever the files hold: where it finds no problem, every line that is not blank is an entry with
its own hash behind the one before it, and the head determines them all. -/

namespace ContinuityLedger.CallLog

open Foundations Foundations.Sha256 Foundations.Codec Foundations.Json HashChain

variable {rt : Runtime}

/-- The lines that are not blank, in the order of the files. -/
def linesOf (file : Bytes) : List (List Char) := ((decoded file).splitOn '\n').filter fun line => !line.all PyText.isspace

def Disk.texts (disk : Disk) : List (List Char) := disk.daily.flatMap fun f => linesOf f.2

/-- What `entry_hash_of` hashes. -/
def Runtime.hashedText (rt : Runtime) (entry : Members) : Except Raised Bytes := rt.canonical (.obj (drop entry "entry_hash"))

namespace Entry

def chain (e : Entry) : Chain := ⟨e.seq - 1, e.prevHash⟩

def next (e : Entry) : Chain := ⟨e.seq, e.entryHash⟩

end Entry

/-- The line is read as the entry, and the entry has its own hash. -/
structure Reads (rt : Runtime) (line : List Char) (e : Entry) : Prop where
  read : rt.readLine line = .ok e
  hash : ∃ text, rt.hashedText e.members = .ok text ∧ PyStr.ofString (hexdigest text).text = e.entryHash

/-! ### The walk -/

lemma problemIf_nil {c : Bool} {file : String} {n : ℕ} {text : Except Raised PyStr} (h : problemIf c file n text = .ok []) :
    c = false := by
  unfold problemIf at h
  split_ifs at h with hc
  · obtain ⟨t, -, ht⟩ := Checks.map_ok h
    cases ht
  · exact Bool.eq_false_iff.mpr hc

lemma checkEntry_nil {file : String} {n : ℕ} {prev : Chain} {e : Entry} (h : rt.checkEntry file n prev e = .ok []) :
    (∃ text, rt.hashedText e.members = .ok text ∧ PyStr.ofString (hexdigest text).text = e.entryHash) ∧ e.chain = prev := by
  unfold Runtime.checkEntry at h
  obtain ⟨own, hown, h⟩ := Checks.bind_ok h
  obtain ⟨edited, hedited, h⟩ := Checks.bind_ok h
  obtain ⟨moved, hmoved, h⟩ := Checks.bind_ok h
  obtain ⟨unlinked, hunlinked, h⟩ := Checks.bind_ok h
  obtain ⟨hleft, rfl⟩ := List.append_eq_nil_iff.mp (Except.ok.inj h)
  obtain ⟨rfl, rfl⟩ := List.append_eq_nil_iff.mp hleft
  obtain ⟨text, htext, rfl⟩ := Checks.map_ok hown
  have hhash := of_decide_eq_false (problemIf_nil hedited)
  have hseq := of_decide_eq_false (problemIf_nil hmoved)
  have hprev := of_decide_eq_false (problemIf_nil hunlinked)
  refine ⟨⟨text, htext, not_not.mp hhash⟩, ?_⟩
  rw [Entry.chain, not_not.mp hseq, not_not.mp hprev, add_sub_cancel_right]

lemma walkLine_clean {file : String} {torn : Bool} {count n : ℕ} {line : List Char} {w w' : Walk}
    (h : rt.walkLine file torn count w (line, n) = .ok w') (hclean : w'.problems = []) :
    line.all PyText.isspace = true ∧ w' = w ∨ line.all PyText.isspace = false ∧
      ∃ e, Reads rt line e ∧ e.chain = w.prev ∧ w' = ⟨[], w.total + 1, e.next⟩ := by
  unfold Runtime.walkLine at h
  split_ifs at h with hblank
  · exact .inl ⟨hblank, (Except.ok.inj h).symm⟩
  · refine .inr ⟨Bool.eq_false_iff.mpr hblank, ?_⟩
    cases hread : rt.readLine line with
    | error e =>
      simp only [hread] at h
      split_ifs at h
      obtain rfl := Except.ok.inj h
      exact absurd hclean (List.append_ne_nil_of_right_ne_nil _ (List.cons_ne_nil _ _))
    | ok e =>
      simp only [hread] at h
      obtain ⟨found, hfound, rfl⟩ := Checks.map_ok h
      obtain ⟨-, rfl⟩ := List.append_eq_nil_iff.mp hclean
      obtain ⟨hhash, hchain⟩ := checkEntry_nil hfound
      exact ⟨e, ⟨hread, hhash⟩, hchain, congrArg (fun ps => (⟨ps, w.total + 1, e.next⟩ : Walk)) hclean⟩

/-- What a walk that found nothing has gone over. -/
structure Walked (rt : Runtime) (w w' : Walk) (lines : List (List Char)) (es : List Entry) : Prop where
  reads : List.Forall₂ (Reads rt) lines es
  linked : Linked Entry.chain Entry.next w.prev es
  reached : w'.prev = tip Entry.next w.prev es
  total : w'.total = w.total + es.length

lemma Walked.append {w v w' : Walk} {ls ls' : List (List Char)} {es es' : List Entry} (h : Walked rt w v ls es)
    (h' : Walked rt v w' ls' es') : Walked rt w w' (ls ++ ls') (es ++ es') where
  reads := List.rel_append h.reads h'.reads
  linked := (linked_append Entry.chain Entry.next w.prev es es').mpr ⟨h.linked, h.reached ▸ h'.linked⟩
  reached := by rw [Rotation.tip_append, h'.reached, h.reached]
  total := by rw [h'.total, h.total, List.length_append, Nat.add_assoc]

lemma walked_nil (w : Walk) : Walked rt w w [] [] := ⟨.nil, trivial, rfl, rfl⟩

lemma walkLines_clean {file : String} {torn : Bool} {count : ℕ} {lines : List (List Char)} {n : ℕ} {w w' : Walk}
    (h : (lines.zipIdx n).foldlM (rt.walkLine file torn count) w = .ok w') (hclean : w'.problems = []) :
    ∃ es, Walked rt w w' (lines.filter fun line => !line.all PyText.isspace) es := by
  induction lines generalizing n w with
  | nil =>
    obtain rfl := Except.ok.inj h
    exact ⟨[], walked_nil _⟩
  | cons line lines ih =>
    rw [List.zipIdx_cons, List.foldlM_cons] at h
    obtain ⟨v, hv, h⟩ := Checks.bind_ok h
    have hnone : v.problems = [] := by
      by_contra hsome
      exact foldlM_ok (P := fun w => w.problems ≠ []) (fun _ _ _ => walkLine_grows) h hsome hclean
    obtain ⟨es, hes⟩ := ih h
    rcases walkLine_clean hv hnone with ⟨hblank, rfl⟩ | ⟨hblank, e, hread, hchain, rfl⟩
    · exact ⟨es, by simpa [List.filter_cons, hblank] using hes⟩
    · have hone : Walked rt w ⟨[], w.total + 1, e.next⟩ [line] [e] := ⟨.cons hread .nil, ⟨hchain, trivial⟩, rfl, rfl⟩
      exact ⟨e :: es, by simpa [List.filter_cons, hblank] using hone.append hes⟩

lemma walkFiles_clean {files : Dict String Bytes} {w w' : Walk} (h : files.foldlM rt.walkFile w = .ok w')
    (hclean : w'.problems = []) : ∃ es, Walked rt w w' (files.flatMap fun f => linesOf f.2) es := by
  induction files generalizing w with
  | nil =>
    obtain rfl := Except.ok.inj h
    exact ⟨[], walked_nil _⟩
  | cons f files ih =>
    rw [List.foldlM_cons] at h
    obtain ⟨v, hv, h⟩ := Checks.bind_ok h
    have hnone : v.problems = [] := by
      by_contra hsome
      exact foldlM_ok (P := fun w => w.problems ≠ []) (fun _ _ _ => walkFile_grows) h hsome hclean
    obtain ⟨es, hes⟩ := walkLines_clean hv hnone
    obtain ⟨es', hes'⟩ := ih h
    exact ⟨es ++ es', hes.append hes'⟩

/-- Behind a clean report: the entries of all the lines, from what the anchor names to the head. -/
lemma verify_clean {disk : Disk} {r : Report} (h : rt.verify disk = .ok r) (hok : r.ok = true) :
    ∃ start es, rt.readAnchor disk.anchor = .ok (r.anchor, start) ∧ List.Forall₂ (Reads rt) disk.texts es ∧
      Linked Entry.chain Entry.next start es ∧ r.head = tip Entry.next start es ∧ r.entries = es.length := by
  unfold Runtime.verify at h
  obtain ⟨⟨anchor, start⟩, hanchor, h⟩ := Checks.bind_ok h
  obtain ⟨w, hw, h⟩ := Checks.bind_ok h
  obtain ⟨gaps, -, h⟩ := Checks.bind_ok h
  obtain rfl := Except.ok.inj h
  obtain ⟨es, hes⟩ := walkFiles_clean hw (List.isEmpty_iff.mp hok)
  exact ⟨start, es, hanchor, hes.reads, hes.linked, hes.reached, by rw [hes.total, Nat.zero_add]⟩

/-! ### Two logs with one head -/

def isNumber : Json → Bool
  | .int _ | .float _ => true
  | _ => false

/-- The same dict; or the same but for the hash, which one of the two spells as a number. -/
def Runtime.sameEntry (rt : Runtime) (d d' : Members) : Prop :=
  same (.obj d) (.obj d') ∨ same (.obj (drop d "entry_hash")) (.obj (drop d' "entry_hash")) ∧
    ∃ j j', member d "entry_hash" = some j ∧ member d' "entry_hash" = some j' ∧ (isNumber j || isNumber j') = true ∧
      rt.strOf j = rt.strOf j'

/-- `repr` of a list or a dict begins with its bracket. -/
def Bracketed (rt : Runtime) : Prop :=
  (∀ items s, rt.repr (.arr items) = some s → s.head? = some (.scalar '[')) ∧
    ∀ ms s, rt.repr (.obj ms) = some s → s.head? = some (.scalar '{')

lemma readLine_ok {line : List Char} {e : Entry} (h : rt.readLine line = .ok e) :
    rt.loads line = .ok (.obj e.members) ∧
      (∃ j, member e.members "entry_hash" = some j ∧ rt.strOf j = .ok e.entryHash) ∧
      ∃ j, member e.members "prev_hash" = some j ∧ rt.strOf j = .ok e.prevHash := by
  unfold Runtime.readLine at h
  obtain ⟨j, hj, h⟩ := Checks.bind_ok h
  obtain ⟨seq, -, h⟩ := Checks.bind_ok h
  obtain ⟨hash, hhash, h⟩ := Checks.bind_ok h
  obtain ⟨prev, hprev, h⟩ := Checks.bind_ok h
  cases j with
  | obj d =>
    obtain rfl := Except.ok.inj h
    obtain ⟨own, hown, hhash⟩ := Checks.bind_ok hhash
    obtain ⟨link, hlink, hprev⟩ := Checks.bind_ok hprev
    refine ⟨hj, ⟨own, ?_, hhash⟩, link, ?_, hprev⟩
    · cases hm : member d "entry_hash" with
      | none => simp [subscript, hm] at hown
      | some j => simpa [subscript, hm] using hown
    · cases hm : member d "prev_hash" with
      | none => simp [subscript, hm] at hlink
      | some j => simpa [subscript, hm] using hlink
  | _ => cases h

/-- Two chains from one start to one tip, with as many entries, are alike entry by entry. -/
lemma forall₂_of_tip {E H : Type} {prev own : E → H} {S : E → E → Prop} {p : H} {es fs : List E} (hlen : es.length = fs.length)
    (h : Linked prev own p es) (h' : Linked prev own p fs) (htip : HashChain.tip own p es = HashChain.tip own p fs)
    (hs : ∀ e ∈ es, ∀ f ∈ fs, own e = own f → S e f)
    (hp : ∀ e ∈ es, ∀ f ∈ fs, S e f → ∀ g ∈ es, ∀ k ∈ fs, own g = prev e → own k = prev f → own g = own k) :
    List.Forall₂ S es fs := by
  induction es using List.reverseRecOn generalizing fs with
  | nil =>
    obtain rfl := List.length_eq_zero_iff.mp hlen.symm
    exact .nil
  | append_singleton es e ih =>
    rcases List.eq_nil_or_concat fs with rfl | ⟨fs, f, rfl⟩
    · simp at hlen
    rw [List.concat_eq_append] at *
    have hlen : es.length = fs.length := by simpa using hlen
    obtain ⟨hes, he⟩ := (linked_append_singleton prev own p es e).mp h
    obtain ⟨hfs, hf⟩ := (linked_append_singleton prev own p fs f).mp h'
    rw [tip_append_singleton, tip_append_singleton] at htip
    have hsame := hs e (by simp) f (by simp) htip
    have hbefore : HashChain.tip own p es = HashChain.tip own p fs := by
      rcases List.eq_nil_or_concat es with rfl | ⟨es, g, rfl⟩
      · obtain rfl := List.length_eq_zero_iff.mp hlen.symm
        rfl
      · rcases List.eq_nil_or_concat fs with rfl | ⟨fs, k, rfl⟩
        · simp at hlen
        rw [List.concat_eq_append, List.concat_eq_append, tip_append_singleton, tip_append_singleton] at *
        exact hp e (by simp) f (by simp) hsame g (by simp) k (by simp) he.symm hf.symm
    refine List.rel_append (ih hlen hes hfs hbefore (fun e he f hf => ?_) fun e he f hf hef g hg k hk => ?_) (.cons hsame .nil)
    · exact hs e (List.mem_append_left _ he) f (List.mem_append_left _ hf)
    · exact hp e (List.mem_append_left _ he) f (List.mem_append_left _ hf) hef g (List.mem_append_left _ hg) k
        (List.mem_append_left _ hk)

lemma seq_tip {start : Chain} {es : List Entry} (h : Linked Entry.chain Entry.next start es) :
    (HashChain.tip Entry.next start es).seq = start.seq + es.length := by
  induction es generalizing start with
  | nil => simp
  | cons e es ih =>
    obtain ⟨rfl, hes⟩ := h
    have htip : HashChain.tip Entry.next e.chain (e :: es) = HashChain.tip Entry.next e.next es := rfl
    rw [htip, ih hes, List.length_cons, Entry.next, Entry.chain]
    push_cast
    ring

/-! ### Texts -/

lemma proper_read (hr : Rereading rt.python) {line : List Char} {d : Members} (h : rt.loads line = .ok (.obj d)) :
    proper rt.python (.obj d) ∧ depth (.obj d) ≤ rt.python.loadsNesting := by
  unfold Runtime.loads at h
  cases hj : Json.loads rt.python (PyStr.ofChars line) with
  | error e =>
    rw [hj] at h
    cases h
  | ok j =>
    rw [hj] at h
    obtain rfl := Except.ok.inj h
    exact loads_proper hr hj

lemma proper_drop {py : Python} {d : Members} {n : ℕ} (key : String) (h : proper py (.obj d) ∧ depth (.obj d) ≤ n) :
    proper py (.obj (drop d key)) ∧ depth (.obj (drop d key)) ≤ n := by
  obtain ⟨⟨hkeys, hproper⟩, hdepth⟩ := h
  have hsub : (drop d key).Sublist d := List.filter_sublist
  refine ⟨⟨hkeys.sublist (hsub.map _), properMembers_iff.mpr fun m hm => properMembers_iff.mp hproper m (hsub.subset hm)⟩, ?_⟩
  refine le_trans (Nat.succ_le_succ (depthMembers_le.mpr fun m hm => ?_)) hdepth
  exact depthMembers_le.mp le_rfl m (hsub.subset hm)

lemma encode_inj {s t : PyStr} {bytes : Bytes} (hs : PyStr.encode s = some bytes) (ht : PyStr.encode t = some bytes) : s = t := by
  obtain ⟨cs, rfl, rfl⟩ := PyStr.encode_eq_some hs
  obtain ⟨ds, rfl, hds⟩ := PyStr.encode_eq_some ht
  rw [← PyStr.decode_utf8Chars cs, hds, PyStr.decode_utf8Chars]

lemma sorted_of_text {a b : Json} {bytes : Bytes} (ha : proper rt.python a ∧ depth a ≤ rt.python.loadsNesting)
    (hb : proper rt.python b ∧ depth b ≤ rt.python.loadsNesting) (h : rt.canonical a = .ok bytes)
    (h' : rt.canonical b = .ok bytes) : sorted a = sorted b :=
  rendered_inj rt.python (List.forall_mem_nil _) ha.1 hb.1 ha.2 hb.2 (encode_inj (canonical_ok h).2.2 (canonical_ok h').2.2)

/-- What is written as a digest is the digest's text, or a number. -/
lemma digest_shape (hb : Bracketed rt) {h : Hex64} {j : Json} (hj : rt.strOf j = .ok (PyStr.ofString h.text)) :
    j = .str (PyStr.ofString h.text) ∨ isNumber j = true := by
  have hlen : (PyStr.ofString h.text).length = 64 := by rw [PyStr.ofString, PyStr.ofChars, List.length_map, h.chars_length]
  have hhead : ∀ c, (PyStr.ofString h.text).head? = some (.scalar c) → isHexDigit c = true := by
    intro c hc
    obtain ⟨_, hmem⟩ := List.head?_eq_some_iff.mp hc
    have hin : (PyChar.scalar c) ∈ PyStr.ofString h.text := hmem ▸ List.mem_cons_self
    obtain ⟨c', hc', heq⟩ := List.mem_map.mp hin
    obtain rfl := PyChar.scalar.inj heq
    exact h.chars_isHexDigit c' hc'
  cases j with
  | null =>
    rw [← Except.ok.inj hj] at hlen
    exact absurd hlen (by decide)
  | bool b =>
    rw [← Except.ok.inj hj] at hlen
    cases b <;> exact absurd hlen (by decide)
  | int n => exact .inr rfl
  | float t => exact .inr rfl
  | str s => exact .inl (congrArg Json.str (Except.ok.inj hj))
  | arr items =>
    cases hrepr : rt.repr (.arr items) with
    | none => simp [Runtime.strOf, hrepr] at hj
    | some s =>
      obtain rfl : s = _ := by simpa [Runtime.strOf, hrepr] using hj
      exact absurd (hhead _ (hb.1 items _ hrepr)) (by decide)
  | obj ms =>
    cases hrepr : rt.repr (.obj ms) with
    | none => simp [Runtime.strOf, hrepr] at hj
    | some s =>
      obtain rfl : s = _ := by simpa [Runtime.strOf, hrepr] using hj
      exact absurd (hhead _ (hb.2 ms _ hrepr)) (by decide)

lemma eq_of_sorted {h : Hex64} {j j' : Json} (hj : j = .str (PyStr.ofString h.text) ∨ isNumber j = true)
    (hs : sorted j = sorted j') : j = j' := by
  cases j with
  | str s => cases j' <;> simp_all [sorted]
  | int n => cases j' <;> simp_all [sorted]
  | float t => cases j' <;> simp_all [sorted]
  | _ => rcases hj with hj | hj <;> cases hj

/-! ### Entries -/

/-- The same but for how the hash is spelled. -/
def Alike (e f : Entry) : Prop :=
  sorted (.obj (drop e.members "entry_hash")) = sorted (.obj (drop f.members "entry_hash")) ∧ e.next = f.next

lemma member_drop {d : Members} {key name : String} (h : name ≠ key) : member (drop d key) name = member d name := by
  have hne : PyStr.ofString name ≠ PyStr.ofString key := fun heq => h (ofString_inj.mp heq)
  rw [Codec.member, Dict.get, drop, KeyedTable.row_remove, if_neg hne]
  rfl

lemma sorted_member {d d' : Members} (hn : (d.map Prod.fst).Nodup) (hn' : (d'.map Prod.fst).Nodup)
    (h : sorted (.obj d) = sorted (.obj d')) (name : String) : (member d name).map sorted = (member d' name).map sorted := by
  rw [Codec.member, Codec.member, ← get_sorted hn, ← get_sorted hn']
  rw [sorted, sorted] at h
  rw [Json.obj.inj h]

/-- Entries that name digests before them, and are alike, name one digest. -/
lemma Alike.prev (hr : Rereading rt.python) (hb : Bracketed rt) {l l' : List Char} {e f : Entry} (he : Reads rt l e)
    (hf : Reads rt l' f) (h : Alike e f) {own : Hex64} (hown : PyStr.ofString own.text = e.prevHash) :
    e.prevHash = f.prevHash := by
  obtain ⟨hload, -, p, hp, hpe⟩ := readLine_ok he.read
  obtain ⟨hload', -, p', hp', hpf⟩ := readLine_ok hf.read
  have hkeys := (proper_drop "entry_hash" (proper_read hr hload)).1.1
  have hkeys' := (proper_drop "entry_hash" (proper_read hr hload')).1.1
  have hmember := sorted_member hkeys hkeys' h.1 "prev_hash"
  rw [member_drop (by decide), member_drop (by decide), hp, hp'] at hmember
  have hshape := digest_shape hb (hpe.trans (congrArg Except.ok hown.symm))
  obtain rfl := eq_of_sorted hshape (Option.some.inj hmember)
  exact Except.ok.inj (hpe.symm.trans hpf)

lemma perm_drop {d : Members} {key : String} {j : Json} (hn : (d.map Prod.fst).Nodup) (h : member d key = some j) :
    d.Perm ((PyStr.ofString key, j) :: drop d key) := by
  have hnot : (PyStr.ofString key, j) ∉ drop d key := by
    intro hin
    simpa using (List.mem_filter.mp hin).2
  refine (List.perm_ext_iff_of_nodup hn.of_map (List.nodup_cons.mpr ⟨hnot, hn.of_map.filter _⟩)).mpr fun m => ?_
  rw [List.mem_cons, drop, KeyedTable.remove, List.mem_filter]
  by_cases hkey : m.1 = PyStr.ofString key
  · have hiff : m ∈ d ↔ m.2 = j := by
      obtain ⟨k, v⟩ := m
      obtain rfl : k = PyStr.ofString key := hkey
      rw [Dict.mem_iff_get hn]
      rw [Codec.member] at h
      rw [h, Option.some.injEq, eq_comm]
    simp [hiff, hkey, Prod.ext_iff]
  · simp [hkey, Prod.ext_iff]

lemma sorted_of_drop {d d' : Members} {key : String} {j : Json} (hn : (d.map Prod.fst).Nodup) (hn' : (d'.map Prod.fst).Nodup)
    (h : member d key = some j) (h' : member d' key = some j) (hs : sorted (.obj (drop d key)) = sorted (.obj (drop d' key))) :
    sorted (.obj d) = sorted (.obj d') := by
  rw [sorted, sorted] at hs ⊢
  rw [sortedMembers_eq, sortedMembers_eq] at hs ⊢
  refine congrArg Json.obj (insertionSort_eq (nodup_sorted hn) ?_)
  have hdrop : ((drop d key).map fun m => (m.1, sorted m.2)).Perm ((drop d' key).map fun m => (m.1, sorted m.2)) := by
    refine (List.perm_insertionSort memberLE _).symm.trans ?_
    rw [Json.obj.inj hs]
    exact List.perm_insertionSort memberLE _
  refine ((perm_drop hn h).map _).trans (List.Perm.trans ?_ ((perm_drop hn' h').map _).symm)
  rw [List.map_cons, List.map_cons]
  exact hdrop.cons _

lemma distinct_of_proper {py : Python} {j : Json} (h : proper py j) : distinct j := by
  induction j using induct with
  | arr items ih => exact distinctItems_iff.mpr fun j hj => ih j hj (properItems_iff.mp h j hj)
  | obj ms ih => exact ⟨h.1, distinctMembers_iff.mpr fun m hm => ih m hm (properMembers_iff.mp h.2 m hm)⟩
  | _ => trivial

lemma Alike.same (hr : Rereading rt.python) (hb : Bracketed rt) {l l' : List Char} {e f : Entry} (he : Reads rt l e)
    (hf : Reads rt l' f) (h : Alike e f) : rt.sameEntry e.members f.members := by
  obtain ⟨hload, ⟨j, hj, hje⟩, -⟩ := readLine_ok he.read
  obtain ⟨hload', ⟨j', hj', hjf⟩, -⟩ := readLine_ok hf.read
  obtain ⟨text, -, htext⟩ := he.hash
  have hhash : e.entryHash = f.entryHash := congrArg Chain.entryHash h.2
  have hproper := proper_read hr hload
  have hproper' := proper_read hr hload'
  have hdrop := proper_drop "entry_hash" hproper
  have hshape := digest_shape hb (hje.trans (congrArg Except.ok htext.symm))
  have hshape' := digest_shape hb (hjf.trans (congrArg Except.ok (htext.trans hhash).symm))
  by_cases hnumber : (isNumber j || isNumber j') = true
  · refine .inr ⟨(same_iff (distinct_of_proper hdrop.1) _).mpr h.1, j, j', hj, hj', hnumber, ?_⟩
    rw [hje, hjf, hhash]
  · rw [Bool.or_eq_true, not_or] at hnumber
    obtain rfl := hshape.resolve_right hnumber.1
    obtain rfl := hshape'.resolve_right hnumber.2
    exact .inl ((same_iff (distinct_of_proper hproper.1) _).mpr (sorted_of_drop hproper.1.1 hproper'.1.1 hj hj' h.1))

/-! ### The head determines the log -/

/-- What the entries of all the lines are hashed as. -/
def Runtime.hashedTexts (rt : Runtime) (disk : Disk) : List Bytes := disk.texts.filterMap fun line =>
  match rt.loads line with
  | .ok (.obj d) => (rt.hashedText d).toOption
  | _ => none

lemma mem_hashedTexts {disk : Disk} {line : List Char} {e : Entry} {text : Bytes} (hline : line ∈ disk.texts)
    (he : rt.readLine line = .ok e) (htext : rt.hashedText e.members = .ok text) : text ∈ rt.hashedTexts disk := by
  refine List.mem_filterMap.mpr ⟨line, hline, ?_⟩
  rw [(readLine_ok he).1]
  simp only [htext]
  rfl

lemma line_of_entry {lines : List (List Char)} {es : List Entry} (h : List.Forall₂ (Reads rt) lines es) {e : Entry} (he : e ∈ es) :
    ∃ line ∈ lines, Reads rt line e := by
  induction h with
  | nil => cases he
  | cons hread _ ih =>
    rcases List.mem_cons.mp he with rfl | he
    · exact ⟨_, List.mem_cons_self, hread⟩
    · obtain ⟨line, hline, hread⟩ := ih he
      exact ⟨line, List.mem_cons_of_mem _ hline, hread⟩

/-- The lines are read as dicts that are the same entry. -/
def Runtime.sameLine (rt : Runtime) (l l' : List Char) : Prop :=
  ∃ d d', rt.loads l = .ok (.obj d) ∧ rt.loads l' = .ok (.obj d') ∧ rt.sameEntry d d'

lemma sameLines (hr : Rereading rt.python) (hb : Bracketed rt) {ls ls' : List (List Char)} {es fs : List Entry}
    (h : List.Forall₂ (Reads rt) ls es) (h' : List.Forall₂ (Reads rt) ls' fs) (halike : List.Forall₂ Alike es fs) :
    List.Forall₂ rt.sameLine ls ls' := by
  induction halike generalizing ls ls' with
  | nil =>
    cases h
    cases h'
    exact .nil
  | cons hef _ ih =>
    cases h with
    | cons he hes =>
      cases h' with
      | cons hf hfs =>
        exact .cons ⟨_, _, (readLine_ok he.read).1, (readLine_ok hf.read).1, hef.same hr hb he hf⟩ (ih hes hfs)

/-- Two logs behind one anchor that both verify with one head are the same line by line, or the entries of one hide a collision of
SHA-256 with those of the other. -/
theorem lines_of_head (hr : Rereading rt.python) (hb : Bracketed rt) {disk disk' : Disk} {r r' : Report}
    (h : rt.verify disk = .ok r) (h' : rt.verify disk' = .ok r') (hok : r.ok = true) (hok' : r'.ok = true)
    (hanchor : disk.anchor = disk'.anchor) (hhead : r.head = r'.head) :
    List.Forall₂ rt.sameLine disk.texts disk'.texts ∨ Replay.Collision (rt.hashedTexts disk) (rt.hashedTexts disk') := by
  by_cases hcollision : Replay.Collision (rt.hashedTexts disk) (rt.hashedTexts disk')
  · exact .inr hcollision
  obtain ⟨start, es, hstart, hreads, hlinked, htip, -⟩ := verify_clean h hok
  obtain ⟨start', fs, hstart', hreads', hlinked', htip', -⟩ := verify_clean h' hok'
  rw [hanchor, hstart'] at hstart
  obtain ⟨-, rfl⟩ := Prod.mk.inj (Except.ok.inj hstart)
  have hend : HashChain.tip Entry.next start' es = HashChain.tip Entry.next start' fs := htip.symm.trans (hhead.trans htip')
  have hlen : es.length = fs.length := by
    have hseq := congrArg Chain.seq hend
    rw [seq_tip hlinked, seq_tip hlinked'] at hseq
    omega
  refine .inl (sameLines hr hb hreads hreads' (forall₂_of_tip hlen hlinked hlinked' hend ?_ ?_))
  · -- one digest of two texts is a collision
    intro e he f hf hnext
    obtain ⟨l, hl, hread⟩ := line_of_entry hreads he
    obtain ⟨l', hl', hread'⟩ := line_of_entry hreads' hf
    obtain ⟨text, htext, hown⟩ := hread.hash
    obtain ⟨text', htext', hown'⟩ := hread'.hash
    have hhash : e.entryHash = f.entryHash := congrArg Chain.entryHash hnext
    have hdigest : hexdigest text = hexdigest text' := Hex64.ext (ofString_inj.mp (hown.trans (hhash.trans hown'.symm)))
    have hsha : sha256 text = sha256 text' := congrArg Digest.bytes (Digest.hex_injective hdigest)
    have hsame : text = text' := by
      by_contra hne
      exact hcollision ⟨text, mem_hashedTexts hl hread.read htext, text', mem_hashedTexts hl' hread'.read htext', hne, hsha⟩
    subst hsame
    exact ⟨sorted_of_text (proper_drop _ (proper_read hr (readLine_ok hread.read).1))
      (proper_drop _ (proper_read hr (readLine_ok hread'.read).1)) htext htext', hnext⟩
  · -- what follows a digest names it, in both logs
    intro e he f hf halike g hg k hk hgown hkown
    obtain ⟨l, -, hread⟩ := line_of_entry hreads he
    obtain ⟨l', -, hread'⟩ := line_of_entry hreads' hf
    obtain ⟨_, -, hbefore⟩ := line_of_entry hreads hg
    obtain ⟨text, -, hown⟩ := hbefore.hash
    have hseq : e.seq = f.seq := congrArg Chain.seq halike.2
    have hprev := halike.prev hr hb hread hread' (hown.trans (congrArg Chain.entryHash hgown))
    rw [hgown, hkown, Entry.chain, Entry.chain, hseq, hprev]

/-- A Python to which every float is not a number. -/
def plainRuntime : Runtime := { idleRuntime with python := { idleRuntime.python with floatText := fun _ => "NaN".toList } }

lemma rereading_plain : Rereading plainRuntime.python := by
  intro s t r h
  have ht : t = "NaN".toList := by
    unfold scanNumber at h
    dsimp only at h
    split_ifs at h <;> cases h
    rfl
  have hword : ("NaN", Json.float "NaN".toList) ∈ words := by simp [words]
  rw [ht]
  exact ⟨⟨_, _, rfl, by decide⟩, fun steps room r _ => scanValue_word _ steps room hword r⟩

lemma bracketed_plain : Bracketed plainRuntime := ⟨fun _ _ h => (nomatch h), fun _ _ h => (nomatch h)⟩

lemma plain_line : ∃ l : Line plainRuntime idleConfig, l.chain = .genesis := by
  have hwritable : ∀ p ∈ unhashed idleConfig (makeFields idleCall) .genesis (dayAt 0), Writable p := by
    intro p hp
    simp only [unhashed, List.mem_cons] at hp
    rcases hp with rfl | rfl | rfl | hp
    · exact ⟨rfl, by decide, rfl⟩
    · exact ⟨rfl, rfl, PyStr.scalars_ofString _⟩
    · exact ⟨rfl, rfl, PyStr.scalars_ofString _⟩
    · exact fields_writable p hp
  obtain ⟨hash, hhash⟩ := hash_through plainRuntime hwritable
  obtain ⟨bytes, hbytes⟩ := hashed_through plainRuntime hwritable hash
  exact ⟨⟨makeFields idleCall, .genesis, dayAt 0, hash, bytes, hhash, hbytes⟩, rfl⟩

lemma daily_one {name : String} (hname : isDaily name = true) (file : Bytes) :
    (⟨[(name, file)], none⟩ : Disk).daily = [(name, file)] := by
  rw [Disk.daily, List.filter_cons_of_pos (by simpa using hname), List.filter_nil, List.mergeSort_singleton]

lemma verify_line {l : Line plainRuntime idleConfig} (hl : l.chain = .genesis) {name : String} (hname : isDaily name = true) :
    ∃ r, plainRuntime.verify ⟨[(name, fileOf [l])], none⟩ = .ok r ∧ r.ok = true ∧ r.head = l.next := by
  have hdaily : (⟨[(name, fileOf [l])], none⟩ : Disk).daily = filesOf [(name, [l])] := daily_one hname _
  obtain ⟨gaps, hgaps⟩ := (gaps_ok hdaily : ∃ n, plainRuntime.gaps ⟨[(name, fileOf [l])], none⟩ = .ok n)
  have hwalk := walk_linked (w := ⟨[], 0, .genesis⟩)
    (show Linked Line.chain Line.next .genesis (Rotation.entries [(name, [l])]) from ⟨hl, trivial⟩)
  refine ⟨⟨true, 1, [name], [], l.next, none, gaps⟩, ?_, rfl, rfl⟩
  rw [Runtime.verify, hgaps, hdaily]
  change (do
    let w ← (filesOf [(name, [l])]).foldlM plainRuntime.walkFile ⟨[], 0, .genesis⟩
    return (⟨w.problems.isEmpty, w.total, [name], w.problems, w.prev, none, gaps⟩ : Report)) = _
  rw [hwalk]
  rfl

/-- The same line in the file of the day after. -/
theorem lines_of_head_moved : ∃ disk disk' : Disk, disk.daily ≠ disk'.daily ∧ disk.texts ≠ [] ∧
    (List.Forall₂ plainRuntime.sameLine disk.texts disk'.texts ∨
      Replay.Collision (plainRuntime.hashedTexts disk) (plainRuntime.hashedTexts disk')) := by
  obtain ⟨l, hl⟩ := plain_line
  have hfirst : isDaily "calls-20260101.jsonl" = true := by decide
  have hsecond : isDaily "calls-20260102.jsonl" = true := by decide
  obtain ⟨r, hr, hok, hhead⟩ := verify_line hl hfirst
  obtain ⟨r', hr', hok', hhead'⟩ := verify_line hl hsecond
  refine ⟨_, _, ?_, ?_, lines_of_head rereading_plain bracketed_plain hr hr' hok hok' rfl (hhead.trans hhead'.symm)⟩
  · rw [daily_one hfirst, daily_one hsecond]
    intro heq
    exact absurd (Prod.mk.inj (List.cons.inj heq).1).1 (by decide)
  · rw [Disk.texts, daily_one hfirst, List.flatMap_cons, List.flatMap_nil, List.append_nil, linesOf, splitOn_fileOf, List.map_singleton,
      List.singleton_append, List.filter_cons_of_pos (by rw [spaces_line]; rfl)]
    exact List.cons_ne_nil _ _

end ContinuityLedger.CallLog
