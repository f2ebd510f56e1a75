import ContinuityLedger.Foundations.Checks
import ContinuityLedger.Foundations.Rotation
import ContinuityLedger.CallLog.Readback
import ContinuityLedger.CallLog.Appending

/-! The walk over files of whole lines: it finds nothing where they continue what it starts from, and it reports a first
entry whose number does not follow. -/

namespace ContinuityLedger.CallLog

open Foundations Foundations.Sha256 Foundations.Codec HashChain Rotation

variable {rt : Runtime} {cfg : Config}

/-! ### A line -/

lemma spaces_line (l : Line rt cfg) : l.chars.all PyText.isspace = false := by
  obtain ⟨cs, hcs, -⟩ := l.chars_cons
  rw [hcs]
  rfl

lemma readLine_line (l : Line rt cfg) :
    rt.readLine l.chars = .ok ⟨l.members, l.chain.seq + 1, l.next.entryHash, l.chain.entryHash⟩ := by
  unfold Runtime.readLine
  simp only [l.loads_chars, l.subscript_seq, l.subscript_hash, l.subscript_prev, bind, Except.bind, Runtime.toInt,
    Runtime.strOf, pure, Except.pure]

lemma checkEntry_line (l : Line rt cfg) (file : String) (n : ℕ) {prev : Chain} (h : prev = l.chain) :
    rt.checkEntry file n prev ⟨l.members, l.chain.seq + 1, l.next.entryHash, l.chain.entryHash⟩ = .ok [] := by
  subst h
  simp [Runtime.checkEntry, l.hash_members, Line.next, problemIf, bind, Except.bind, pure, Except.pure]

lemma walkLine_line (l : Line rt cfg) (file : String) (torn : Bool) (count n : ℕ) {w : Walk} (h : w.prev = l.chain) :
    rt.walkLine file torn count w (l.chars, n) = .ok ⟨w.problems, w.total + 1, l.next⟩ := by
  rw [Runtime.walkLine, spaces_line, if_neg (by decide), readLine_line]
  simp only [checkEntry_line l file n h, Except.map, List.append_nil]
  rfl

/-- An entry whose number does not follow is reported. -/
lemma walkLine_moved (l : Line rt cfg) (file : String) (torn : Bool) (count n : ℕ) {w w' : Walk}
    (h : w.prev.seq ≠ l.chain.seq) (hw : rt.walkLine file torn count w (l.chars, n) = .ok w') : w'.problems ≠ [] := by
  rw [Runtime.walkLine, spaces_line, if_neg (by decide), readLine_line] at hw
  dsimp only at hw
  cases hfound : rt.checkEntry file n w.prev ⟨l.members, l.chain.seq + 1, l.next.entryHash, l.chain.entryHash⟩ with
  | error e =>
    rw [hfound] at hw
    cases hw
  | ok found =>
    rw [hfound] at hw
    obtain rfl := Except.ok.inj hw
    intro hnil
    obtain ⟨-, rfl⟩ := List.append_eq_nil_iff.mp hnil
    unfold Runtime.checkEntry at hfound
    obtain ⟨own, -, hfound⟩ := Checks.bind_ok hfound
    obtain ⟨edited, -, hfound⟩ := Checks.bind_ok hfound
    obtain ⟨moved, hmoved, hfound⟩ := Checks.bind_ok hfound
    obtain ⟨unlinked, -, hfound⟩ := Checks.bind_ok hfound
    obtain ⟨hleft, -⟩ := List.append_eq_nil_iff.mp (Except.ok.inj hfound)
    obtain ⟨-, rfl⟩ := List.append_eq_nil_iff.mp hleft
    have hne : decide (l.chain.seq + 1 ≠ w.prev.seq + 1) = true := by
      rw [decide_eq_true_eq]
      omega
    rw [problemIf, if_pos hne] at hmoved
    obtain ⟨text, -, htext⟩ := Checks.map_ok hmoved
    cases htext

/-- What has been reported stays reported. -/
lemma walkLine_grows {file : String} {torn : Bool} {count : ℕ} {w w' : Walk} {line : List Char × ℕ}
    (h : rt.walkLine file torn count w line = .ok w') (hw : w.problems ≠ []) : w'.problems ≠ [] := by
  unfold Runtime.walkLine at h
  split_ifs at h
  · obtain rfl := Except.ok.inj h
    exact hw
  · split at h
    · split_ifs at h
      · obtain rfl := Except.ok.inj h
        exact List.append_ne_nil_of_left_ne_nil hw _
    · obtain ⟨found, -, rfl⟩ := Checks.map_ok h
      exact List.append_ne_nil_of_left_ne_nil hw _

/-! ### A file -/

lemma splitOn_fileOf (ls : List (Line rt cfg)) : (decoded (fileOf ls)).splitOn '\n' = ls.map Line.chars ++ [[]] := by
  have hbytes : fileOf ls = PyStr.utf8Chars (ByteLines.ended '\n' (ls.map Line.chars)) := by
    induction ls with
    | nil => rfl
    | cons l ls ih =>
      rw [fileOf, List.map_cons, ByteLines.ended_cons, ← fileOf, ih, List.map_cons, ByteLines.ended_cons, l.bytes_chars.1]
      simp [PyStr.utf8Chars]
      rfl
  rw [hbytes, decoded, PyStr.decode_utf8Chars]
  exact ByteLines.splitOn_ended (List.forall_mem_map.mpr fun l _ => l.newline_chars)

lemma walkLine_blank (file : String) (torn : Bool) (count n : ℕ) (w : Walk) : rt.walkLine file torn count w ([], n) = .ok w := rfl

lemma walkLines_linked (file : String) (torn : Bool) (count : ℕ) {ls : List (Line rt cfg)} {w : Walk}
    (h : Linked Line.chain Line.next w.prev ls) (n : ℕ) :
    ((ls.map Line.chars ++ [[]]).zipIdx n).foldlM (rt.walkLine file torn count) w =
      .ok ⟨w.problems, w.total + ls.length, tip Line.next w.prev ls⟩ := by
  induction ls generalizing w n with
  | nil => rfl
  | cons l ls ih =>
    obtain ⟨hl, hls⟩ := h
    rw [List.map_cons, List.cons_append, List.zipIdx_cons, List.foldlM_cons, walkLine_line l file torn count n hl.symm]
    change ((ls.map Line.chars ++ [[]]).zipIdx (n + 1)).foldlM _ (⟨w.problems, w.total + 1, l.next⟩ : Walk) = _
    rw [ih hls, List.length_cons, Nat.add_right_comm, Nat.add_assoc]
    rfl

lemma walkFile_linked (name : String) {ls : List (Line rt cfg)} {w : Walk} (h : Linked Line.chain Line.next w.prev ls) :
    rt.walkFile w (name, fileOf ls) = .ok ⟨w.problems, w.total + ls.length, tip Line.next w.prev ls⟩ := by
  unfold Runtime.walkFile
  rw [splitOn_fileOf]
  exact walkLines_linked _ _ _ h 1

/-- A walk that comes to an end has kept what holds all along. -/
lemma foldlM_ok {A B : Type} {f : B → A → Except Raised B} {P : B → Prop} (hf : ∀ b a b', f b a = .ok b' → P b → P b')
    {as : List A} {b b' : B} (h : as.foldlM f b = .ok b') (hb : P b) : P b' := by
  induction as generalizing b with
  | nil =>
    obtain rfl := Except.ok.inj h
    exact hb
  | cons a as ih =>
    obtain ⟨c, hc, h⟩ := Checks.bind_ok h
    exact ih h (hf b a c hc hb)

lemma walkFile_grows {w w' : Walk} {f : String × Bytes} (h : rt.walkFile w f = .ok w') (hw : w.problems ≠ []) :
    w'.problems ≠ [] := foldlM_ok (P := fun w => w.problems ≠ []) (fun _ _ _ => walkLine_grows) h hw

lemma walkFile_moved (name : String) (l : Line rt cfg) (ls : List (Line rt cfg)) {w w' : Walk}
    (h : w.prev.seq ≠ l.chain.seq) (hw : rt.walkFile w (name, fileOf (l :: ls)) = .ok w') : w'.problems ≠ [] := by
  unfold Runtime.walkFile at hw
  simp only [splitOn_fileOf, List.map_cons, List.cons_append, List.zipIdx_cons, List.foldlM_cons] at hw
  obtain ⟨v, hv, hw⟩ := Checks.bind_ok hw
  exact foldlM_ok (P := fun w => w.problems ≠ []) (fun _ _ _ => walkLine_grows) hw (walkLine_moved l _ _ _ _ h hv)

/-! ### The files of a log -/

abbrev Filled (rt : Runtime) (cfg : Config) := List (String × List (Line rt cfg))

def filesOf (segments : Filled rt cfg) : Dict String Bytes := segments.map fun m => (m.1, fileOf m.2)

lemma filesOf_append (a b : Filled rt cfg) : filesOf (a ++ b) = filesOf a ++ filesOf b := List.map_append

lemma walk_linked {segments : Filled rt cfg} {w : Walk} (h : Linked Line.chain Line.next w.prev (entries segments)) :
    (filesOf segments).foldlM rt.walkFile w =
      .ok ⟨w.problems, w.total + (entries segments).length, tip Line.next w.prev (entries segments)⟩ := by
  induction segments generalizing w with
  | nil => rfl
  | cons m segments ih =>
    obtain ⟨name, ls⟩ := m
    obtain ⟨hls, hrest⟩ := (linked_append Line.chain Line.next w.prev ls (entries segments)).mp h
    rw [filesOf, List.map_cons, List.foldlM_cons, walkFile_linked name hls]
    change (filesOf segments).foldlM rt.walkFile (⟨w.problems, w.total + ls.length, tip Line.next w.prev ls⟩ : Walk) = _
    rw [ih hrest]
    have hentries : entries ((name, ls) :: segments) = ls ++ entries segments := rfl
    rw [hentries, tip_append, List.length_append, Nat.add_assoc]

lemma walk_moved {name : String} {l : Line rt cfg} {ls : List (Line rt cfg)} {segments : Filled rt cfg} {w w' : Walk}
    (h : w.prev.seq ≠ l.chain.seq) (hw : (filesOf ((name, l :: ls) :: segments)).foldlM rt.walkFile w = .ok w') :
    w'.problems ≠ [] := by
  rw [filesOf, List.map_cons, List.foldlM_cons] at hw
  obtain ⟨v, hv, hw⟩ := Checks.bind_ok hw
  exact foldlM_ok (P := fun w => w.problems ≠ []) (fun _ _ _ => walkFile_grows) hw (walkFile_moved name l ls h hv)

/-! ### The entries from the newest on -/

lemma readEntry_line (l : Line rt cfg) : rt.readEntry l.bytes = some (.ok (.obj l.members)) := by
  have hchars : decoded l.bytes = l.chars := rfl
  rw [Runtime.readEntry, hchars, spaces_line, if_neg (by decide), l.loads_chars]

lemma entriesOf_fileOf (ls : List (Line rt cfg)) : rt.entriesOf (fileOf ls) (fileOf ls).length =
    ls.reverse.map fun l => .ok (.obj l.members) := by
  have hwhole : ∀ line ∈ ls.map Line.bytes, ReverseLines.whole line = true := by
    refine List.forall_mem_map.mpr fun l _ => ?_
    obtain ⟨bs, hbs⟩ := l.bytes_cons
    rw [hbs]
    rfl
  have hread : reverseLines (fileOf ls) (fileOf ls).length reverseChunk = (ls.map Line.bytes).reverse := by
    rw [reverseLines, ReverseLines.readBack_eq newline (by decide) _ le_rfl List.not_mem_nil, List.take_length,
      List.append_nil, fileOf, ByteLines.splitOn_ended (List.forall_mem_map.mpr fun l _ => l.newline_bytes),
      List.reverse_append, List.filter_append]
    exact List.filter_eq_self.mpr fun line hline => hwhole line (List.mem_reverse.mp hline)
  rw [Runtime.entriesOf, hread, ← List.map_reverse, List.filterMap_map, ← List.filterMap_eq_map]
  exact congrArg (List.filterMap · ls.reverse) (funext fun l => readEntry_line l)

lemma gaps_ok {disk : Disk} {segments : Filled rt cfg} (h : disk.daily = filesOf segments) : ∃ n, rt.gaps disk = .ok n := by
  have hread : ∀ e ∈ rt.entriesDesc disk, ∃ d, e = .ok (.obj d) := by
    rw [Runtime.entriesDesc, h, filesOf]
    intro e he
    obtain ⟨f, hf, he⟩ := List.mem_flatMap.mp he
    obtain ⟨m, -, rfl⟩ := List.mem_map.mp (List.mem_reverse.mp hf)
    dsimp only at he
    rw [entriesOf_fileOf] at he
    obtain ⟨l, -, rfl⟩ := List.mem_map.mp he
    exact ⟨l.members, rfl⟩
  have hall : ∀ es : List (Except Raised Json), (∀ e ∈ es, ∃ d, e = .ok (.obj d)) →
      ∃ js, es.mapM (fun e => e >>= (getOr · "outcome" .null)) = .ok js := by
    intro es
    induction es with
    | nil => exact fun _ => ⟨[], rfl⟩
    | cons e es ih =>
      intro hes
      obtain ⟨⟨d, rfl⟩, hrest⟩ := List.forall_mem_cons.mp hes
      obtain ⟨js, hjs⟩ := ih hrest
      refine ⟨(member d "outcome").getD .null :: js, ?_⟩
      rw [List.mapM_cons, hjs]
      rfl
  obtain ⟨js, hjs⟩ := hall _ hread
  exact ⟨js.countP isGap, by rw [Runtime.gaps, hjs]; rfl⟩

end ContinuityLedger.CallLog
