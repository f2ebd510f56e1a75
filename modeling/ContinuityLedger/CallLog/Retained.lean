import ContinuityLedger.CallLog.Appending
import ContinuityLedger.CallLog.Naming
import ContinuityLedger.CallLog.Walked
import ContinuityLedger.Foundations.Checks

/-! Runs of a log, of appends and of crashes that end an append somewhere in `_rotate_and_retain`: the directory is a chain in
segments, and `verify` finds nothing where no crash has left a segment behind the anchor. -/

namespace ContinuityLedger.CallLog

open Foundations Foundations.Sha256 Foundations.Codec Foundations.Calendar

/-- Some daily file lies behind the retention window, and some inside it. -/
def Retains (cfg : Config) (disk : Disk) (now : Instant) : Prop :=
  ∃ cutoff, cfg.cutoff now = .ok cutoff ∧ (∃ f ∈ disk.daily, fileDay f.1 < cutoff) ∧ ∃ f ∈ disk.daily, ¬ fileDay f.1 < cutoff

/-- A file of this name is not behind the retention window. -/
def Inside (cfg : Config) (now : Instant) (name : String) : Prop :=
  ∀ cutoff, cfg.cutoff now = .ok cutoff → ¬ fileDay name < cutoff

/-! ### What a crash leaves -/

/-- The directory after each write of `_rotate_and_retain`: first as it was, then with the new anchor, then without one old file
after the other. -/
def Runtime.rotateStages (rt : Runtime) (cfg : Config) (disk : Disk) (now : Instant) : Except Raised (List Disk) := do
  let cutoff ← cfg.cutoff now
  let old := disk.daily.filter fun f => fileDay f.1 < cutoff
  if old = [] ∨ disk.daily.length ≤ old.length then return [disk]
  let anchor ← match ← rt.lastOf old.reverse with
    | none => pure disk.anchor
    | some line => some <$> rt.anchorOf cfg now ((old.getLast?.map Prod.fst).getD "") line
  return disk :: (List.range (old.length + 1)).map fun done =>
    ⟨disk.files.filter fun f => f.1 ∉ (old.take done).map Prod.fst, anchor⟩

lemma stages_last {A : Type} (first : A) (n : ℕ) (f : ℕ → A) : (first :: (List.range (n + 1)).map f).getLast? = some (f n) := by
  rw [List.range_succ, List.map_append, ← List.cons_append, List.map_singleton, List.getLast?_concat]

/-- Where no crash comes between, all of it is done. -/
lemma Runtime.rotateStages_last (rt : Runtime) (cfg : Config) (disk : Disk) (now : Instant) :
    (rt.rotateStages cfg disk now).map List.getLast? = (rt.rotate cfg disk now).map some := by
  unfold Runtime.rotateStages Runtime.rotate
  cases cfg.cutoff now with
  | error e => rfl
  | ok cutoff =>
    simp only [bind, Except.bind, pure, Except.pure]
    generalize disk.daily.filter (fun f => fileDay f.1 < cutoff) = old
    split_ifs with hold
    · rfl
    · cases rt.lastOf old.reverse with
      | error e => rfl
      | ok line =>
        cases line with
        | none =>
          simp only [Except.map, stages_last, List.take_length]
        | some line =>
          dsimp only
          cases rt.anchorOf cfg now ((old.getLast?.map Prod.fst).getD "") line with
          | error e => rfl
          | ok raw => simp only [Except.map, Functor.map, stages_last, List.take_length]

/-! ### Steps -/

/-- The directory, and what the call in progress has written last. -/
structure Log where
  disk : Disk
  held : Option Chain

def Log.fresh : Log := ⟨⟨[], none⟩, none⟩

inductive Event
  | append (fields : EntryFields) (now : Instant)
  | release
  | crash (fields : EntryFields) (now : Instant) (stage : ℕ)

/-- The clock reading. -/
def Event.now : Event → Option Instant
  | .append _ now => some now
  | .release => none
  | .crash _ now _ => some now

/-- The `head` that an entry is chained to. -/
def Runtime.chainOf (rt : Runtime) (log : Log) : Except Raised Chain :=
  match log.held with
  | some chain => .ok chain
  | none => (rt.head log.disk).map Head.chain

/-- `{"seq": entry["seq"], "entry_hash": entry["entry_hash"]}`. -/
def chainIn (entry : Members) : Option Chain :=
  match member entry "seq", member entry "entry_hash" with
  | some (.int seq), some (.str entryHash) => some ⟨seq, entryHash⟩
  | _, _ => none

/-- An append that goes through, and its entry. -/
def Runtime.append (rt : Runtime) (cfg : Config) (log : Log) (fields : EntryFields) (now : Instant) :
    Except Raised (Log × Members) := do
  let chain ← rt.chainOf log
  let (disk, entry) ← rt.appendLocked cfg log.disk fields chain now
  return (⟨disk, chainIn entry⟩, entry)

lemma Runtime.append_ok {rt : Runtime} {cfg : Config} {log log' : Log} {fields : EntryFields} {now : Instant} {entry : Members}
    (h : rt.append cfg log fields now = .ok (log', entry)) : ∃ chain disk, rt.chainOf log = .ok chain ∧
      rt.appendLocked cfg log.disk fields chain now = .ok (disk, entry) ∧ log' = ⟨disk, chainIn entry⟩ := by
  obtain ⟨chain, hchain, h⟩ := Checks.bind_ok h
  obtain ⟨⟨disk, entry'⟩, happend, hwritten⟩ := Checks.bind_ok h
  obtain ⟨rfl, rfl⟩ := Prod.mk.inj (Except.ok.inj hwritten)
  exact ⟨chain, disk, hchain, happend, rfl⟩

lemma Runtime.appendLocked_ok {rt : Runtime} {cfg : Config} {disk disk' : Disk} {fields : EntryFields} {chain : Chain} {now : Instant}
    {entry : Members} (h : rt.appendLocked cfg disk fields chain now = .ok (disk', entry)) : ∃ hash rotated line,
      rt.entryHashOf (keyed (unhashed cfg fields chain now)) = .ok hash ∧ rt.rotate cfg disk now = .ok rotated ∧
        rt.canonical (.obj (hashed (unhashed cfg fields chain now) hash)) = .ok line ∧
          entry = hashed (unhashed cfg fields chain now) hash ∧
            disk' = ⟨rotated.files.set (fileName cfg now) ((rotated.files.get (fileName cfg now)).getD [] ++
              tornPrefix ((rotated.files.get (fileName cfg now)).getD []) ++ line ++ [newline]), rotated.anchor⟩ := by
  obtain ⟨hash, hhash, h⟩ := Checks.bind_ok h
  obtain ⟨rotated, hrotate, h⟩ := Checks.bind_ok h
  obtain ⟨line, hline, h⟩ := Checks.bind_ok h
  obtain ⟨rfl, rfl⟩ := Prod.mk.inj (Except.ok.inj h)
  exact ⟨hash, rotated, line, hhash, hrotate, hline, rfl, rfl⟩

/-- What is left of an append that ends after so many writes of `_rotate_and_retain`. -/
def Runtime.crashed (rt : Runtime) (cfg : Config) (disk : Disk) (chain : Chain) (fields : EntryFields) (now : Instant)
    (stage : ℕ) : Except Raised Disk := do
  let _ ← rt.entryHashOf (keyed (unhashed cfg fields chain now))
  let stages ← rt.rotateStages cfg disk now
  return stages[stage]?.getD disk

lemma Runtime.crashed_ok {rt : Runtime} {cfg : Config} {disk disk' : Disk} {chain : Chain} {fields : EntryFields} {now : Instant}
    {stage : ℕ} (h : rt.crashed cfg disk chain fields now stage = .ok disk') :
    ∃ stages, rt.rotateStages cfg disk now = .ok stages ∧ stages[stage]?.getD disk = disk' := by
  obtain ⟨-, -, h⟩ := Checks.bind_ok h
  obtain ⟨stages, hstages, h⟩ := Checks.bind_ok h
  exact ⟨stages, hstages, Except.ok.inj h⟩

/-- What raises has written nothing, and ends the call. -/
def Runtime.step (rt : Runtime) (cfg : Config) (log : Log) : Event → Log
  | .append fields now =>
    match rt.append cfg log fields now with
    | .ok (log, _) => log
    | .error _ => ⟨log.disk, none⟩
  | .release => ⟨log.disk, none⟩
  | .crash fields now stage =>
    match rt.chainOf log >>= fun chain => rt.crashed cfg log.disk chain fields now stage with
    | .ok disk => ⟨disk, none⟩
    | .error _ => ⟨log.disk, none⟩

def Runtime.run (rt : Runtime) (cfg : Config) (events : List Event) : Log := events.foldl (rt.step cfg) .fresh

open Foundations Foundations.Sha256 Foundations.Codec Foundations.Calendar HashChain Rotation

variable {rt : Runtime} {cfg : Config}

/-! ### The directory as segments -/

abbrev Held (rt : Runtime) (cfg : Config) := Segments String (Line rt cfg) Chain

/-- What the anchor says: there is none, or it stands for the files up to the one that it names. -/
def Anchored (anchor : Option Bytes) (s : Held rt cfg) : Prop :=
  match anchor with
  | none => s.left = [] ∧ s.base = .genesis
  | some raw => ∃ file, AnchorReads rt raw (s.anchor Line.next) file ∧ s.kept ≠ [] ∧ (∀ m ∈ s.kept, file < m.1) ∧
      ∀ m ∈ s.left.getLast?, m.1 = file

/-- The directory holds the segments, each under the name of a reading that lies no later than `now`. -/
structure Holds (disk : Disk) (now : Instant) (s : Held rt cfg) : Prop where
  files : disk.files = filesOf s.all
  sound : Sound Line.chain Line.next s
  named : ∀ m ∈ s.all, ∃ t, Clocked cfg t ∧ t ≤ now ∧ m.1 = fileName cfg t
  anchored : Anchored disk.anchor s

variable {disk : Disk} {now : Instant} {s : Held rt cfg}

lemma Holds.later {now' : Instant} (h : Holds disk now s) (hnow : now ≤ now') : Holds disk now' s := by
  refine ⟨h.files, h.sound, fun m hm => ?_, h.anchored⟩
  obtain ⟨t, ht, hle, hname⟩ := h.named m hm
  exact ⟨t, ht, hle.trans hnow, hname⟩

lemma keys_filesOf (segments : Filled rt cfg) : (filesOf segments).map Prod.fst = segments.map Prod.fst := by
  simp [filesOf]

lemma Holds.keyed (h : Holds disk now s) : Dict.Keyed disk.files := by
  rw [Dict.Keyed, h.files, keys_filesOf]
  exact h.sound.increasing.imp fun hlt => hlt.ne

/-- All the files are daily, in the order of their names. -/
lemma Holds.daily (h : Holds disk now s) : disk.daily = filesOf s.all := by
  have hdaily : ∀ f ∈ filesOf s.all, isDaily f.1 = true := by
    refine List.forall_mem_map.mpr fun m hm => ?_
    obtain ⟨t, ht, -, hname⟩ := h.named m hm
    dsimp only
    rw [hname]
    exact isDaily_name ht
  rw [Disk.daily, h.files, List.filter_eq_self.mpr hdaily]
  apply List.mergeSort_of_pairwise
  rw [filesOf, List.pairwise_map]
  refine (List.pairwise_map.mp h.sound.increasing).imp fun hlt => ?_
  exact decide_eq_true hlt.le

lemma Holds.nothing (h : Holds disk now s) (hall : s.all = []) : disk.anchor = none ∧ s.last Line.next = .genesis := by
  obtain ⟨hleft, hkept⟩ := List.append_eq_nil_iff.mp hall
  have hanchored := h.anchored
  unfold Anchored at hanchored
  cases hraw : disk.anchor with
  | some raw =>
    rw [hraw] at hanchored
    obtain ⟨file, -, hne, -⟩ := hanchored
    exact absurd hkept hne
  | none =>
    rw [hraw] at hanchored
    refine ⟨rfl, ?_⟩
    rw [Segments.last, hall]
    exact hanchored.2

/-! ### The head -/

lemma entryHead_line (name : String) (l : Line rt cfg) : ∃ head, rt.entryHead name l.chars = .ok head ∧ head.chain = l.next := by
  refine ⟨⟨l.next.seq, l.next.entryHash, some name, (member l.members "ts").getD .null⟩, ?_, rfl⟩
  simp only [Runtime.entryHead, l.loads_chars, l.subscript_seq, l.subscript_hash, bind, Except.bind, Runtime.toInt,
    Runtime.strOf, getOr, pure, Except.pure]
  rfl

/-- The last line of a file is found, or it is too long for the window and nothing is. -/
lemma lastLine_cases (ls : List (Line rt cfg)) (l : Line rt cfg) :
    rt.lastLine (fileOf (ls ++ [l])) = .ok (some l.chars) ∨ ∃ e, rt.lastLine (fileOf (ls ++ [l])) = .error e := by
  rcases Nat.lt_or_ge l.bytes.length tailWindow with hfits | hlong
  · exact Or.inl (lastLine_fits ls hfits)
  · exact Or.inr (lastLine_cut ls hlong)

/-- A file that is filled has a last line. -/
lemma Filled.cases {segments : Filled rt cfg} (hne : segments ≠ []) (hfilled : ∀ m ∈ segments, m.2 ≠ []) :
    ∃ init name ls l, segments = init ++ [(name, ls ++ [l])] := by
  obtain ⟨init, ⟨name, es⟩, rfl⟩ := List.eq_nil_or_concat segments |>.resolve_left hne
  rw [List.concat_eq_append] at hfilled ⊢
  obtain ⟨ls, l, rfl⟩ := List.eq_nil_or_concat es |>.resolve_left (hfilled (name, es) (by simp))
  exact ⟨init, name, ls, l, by rw [List.concat_eq_append]⟩

lemma tip_concat (p : Chain) (init : Filled rt cfg) (name : String) (ls : List (Line rt cfg)) (l : Line rt cfg) :
    tip Line.next p (entries (init ++ [(name, ls ++ [l])])) = l.next := by
  have hentries : entries (init ++ [(name, ls ++ [l])]) = entries init ++ ls ++ [l] := by simp [entries]
  rw [hentries, tip_append_singleton]

/-- The head that is read is what the last line is chained by. -/
lemma Holds.head (h : Holds disk now s) {head : Head} (hhead : rt.head disk = .ok head) : head.chain = s.last Line.next := by
  rw [Runtime.head, h.daily] at hhead
  by_cases hall : s.all = []
  · obtain ⟨hanchor, hlast⟩ := h.nothing hall
    rw [hall, hanchor] at hhead
    obtain rfl := Except.ok.inj hhead
    exact hlast.symm
  · obtain ⟨init, name, ls, l, hinit⟩ := Filled.cases hall h.sound.filled
    rw [hinit, filesOf, List.map_append, List.reverse_append, List.map_singleton, List.reverse_singleton,
      List.singleton_append, Runtime.headIn] at hhead
    rw [Segments.last, hinit, tip_concat]
    rcases lastLine_cases ls l with hlast | ⟨e, he⟩
    · rw [hlast] at hhead
      obtain ⟨head', hread, hchain⟩ := entryHead_line name l
      change rt.entryHead name l.chars = .ok head at hhead
      rw [hread] at hhead
      obtain rfl := Except.ok.inj hhead
      exact hchain
    · rw [he] at hhead
      cases hhead

/-! ### Retention -/

/-- What holds of later items only holds of an end of the list. -/
lemma splits_at {A : Type*} {P : A → Prop} [DecidablePred P] {as : List A} (h : as.Pairwise fun a b => P b → P a) :
    ∃ front back, as = front ++ back ∧ as.filter (fun a => decide (P a)) = front ∧ (∀ a ∈ front, P a) ∧ ∀ b ∈ back, ¬ P b := by
  induction as with
  | nil => exact ⟨[], [], rfl, rfl, by simp, by simp⟩
  | cons a as ih =>
    obtain ⟨ha, has⟩ := List.pairwise_cons.mp h
    by_cases hP : P a
    · obtain ⟨front, back, rfl, hfilter, hfront, hback⟩ := ih has
      exact ⟨a :: front, back, rfl, by rw [List.filter_cons, if_pos (decide_eq_true hP), hfilter],
        List.forall_mem_cons.mpr ⟨hP, hfront⟩, hback⟩
    · have hnone : ∀ b ∈ as, ¬ P b := fun b hb hPb => hP (ha b hb hPb)
      refine ⟨[], a :: as, rfl, ?_, by simp, List.forall_mem_cons.mpr ⟨hP, hnone⟩⟩
      rw [List.filter_cons, if_neg (by simpa using hP)]
      exact List.filter_eq_nil_iff.mpr fun b hb => by simpa using hnone b hb

/-- The window cuts the segments in two. -/
lemma Holds.cut (h : Holds disk now s) (cutoff : String) : ∃ old young, s.all = old ++ young ∧
    disk.daily.filter (fun f => fileDay f.1 < cutoff) = filesOf old ∧ (∀ m ∈ old, fileDay m.1 < cutoff) ∧
      ∀ m ∈ young, ¬ fileDay m.1 < cutoff := by
  have hdown : s.all.Pairwise fun a b => fileDay b.1 < cutoff → fileDay a.1 < cutoff := by
    refine (List.pairwise_map.mp h.sound.increasing).imp_of_mem fun ha hb hlt hday => ?_
    obtain ⟨t, ht, -, hname⟩ := h.named _ ha
    obtain ⟨u, hu, -, hname'⟩ := h.named _ hb
    rw [hname] at hlt ⊢
    rw [hname'] at hlt hday
    exact (fileDay_le ht hu hlt.le).trans_lt hday
  obtain ⟨old, young, hall, hfilter, hold, hyoung⟩ := splits_at (P := fun m : String × List (Line rt cfg) => fileDay m.1 < cutoff) hdown
  refine ⟨old, young, hall, ?_, hold, hyoung⟩
  rw [h.daily, filesOf, List.filter_map, ← hfilter]
  rfl

lemma filter_drop {A K : Type*} [DecidableEq K] {key : A → K} {as : List A} (h : (as.map key).Nodup) (n : ℕ) :
    as.filter (fun a => key a ∉ (as.take n).map key) = as.drop n := by
  have hsplit := List.filter_append (p := fun a => decide (key a ∉ (as.take n).map key)) (as.take n) (as.drop n)
  have hfront : (as.take n).filter (fun a => key a ∉ (as.take n).map key) = [] := by
    refine List.filter_eq_nil_iff.mpr fun a ha => ?_
    simpa only [decide_eq_true_eq, not_not] using List.mem_map_of_mem ha
  have hback : (as.drop n).filter (fun a => key a ∉ (as.take n).map key) = as.drop n := by
    rw [← List.take_append_drop n as, List.map_append, List.nodup_append] at h
    exact List.filter_eq_self.mpr fun a ha => decide_eq_true fun hmem => h.2.2 _ hmem _ (List.mem_map_of_mem ha) rfl
  rw [List.take_append_drop, hfront, hback, List.nil_append] at hsplit
  exact hsplit

lemma retains_iff {cutoff : String} {now' : Instant} (hcutoff : cfg.cutoff now' = .ok cutoff) {old young : Filled rt cfg}
    (hdaily : disk.daily = filesOf (old ++ young)) (hold : ∀ m ∈ old, fileDay m.1 < cutoff)
    (hyoung : ∀ m ∈ young, ¬ fileDay m.1 < cutoff) : Retains cfg disk now' ↔ old ≠ [] ∧ young ≠ [] := by
  have hmem : ∀ f ∈ disk.daily, ∃ m ∈ old ++ young, m.1 = f.1 := by
    rw [hdaily]
    exact List.forall_mem_map.mpr fun m hm => ⟨m, hm, rfl⟩
  have hback : ∀ m ∈ old ++ young, ∃ f ∈ disk.daily, f.1 = m.1 := by
    rw [hdaily]
    exact fun m hm => ⟨(m.1, fileOf m.2), List.mem_map_of_mem hm, rfl⟩
  constructor
  · rintro ⟨c, hc, ⟨f, hf, hlt⟩, g, hg, hge⟩
    obtain rfl := Except.ok.inj (hc.symm.trans hcutoff)
    obtain ⟨m, hm, hname⟩ := hmem f hf
    obtain ⟨n, hn, hname'⟩ := hmem g hg
    rw [← hname] at hlt
    rw [← hname'] at hge
    rcases List.mem_append.mp hm with hm | hm
    · rcases List.mem_append.mp hn with hn | hn
      · exact absurd (hold n hn) hge
      · exact ⟨List.ne_nil_of_mem hm, List.ne_nil_of_mem hn⟩
    · exact absurd hlt (hyoung m hm)
  · rintro ⟨hne, hne'⟩
    obtain ⟨m, hm⟩ := List.exists_mem_of_ne_nil old hne
    obtain ⟨n, hn⟩ := List.exists_mem_of_ne_nil young hne'
    obtain ⟨f, hf, hname⟩ := hback m (List.mem_append_left _ hm)
    obtain ⟨g, hg, hname'⟩ := hback n (List.mem_append_right _ hn)
    exact ⟨cutoff, hcutoff, ⟨f, hf, hname ▸ hold m hm⟩, g, hg, hname' ▸ hyoung n hn⟩

lemma length_filesOf (segments : Filled rt cfg) : (filesOf segments).length = segments.length := List.length_map _

lemma filesOf_eq_nil {segments : Filled rt cfg} : filesOf segments = [] ↔ segments = [] := List.map_eq_nil_iff

/-- The last line of the newest old file, or an error. -/
lemma lastOf_cases (init : Filled rt cfg) (name : String) (ls : List (Line rt cfg)) (l : Line rt cfg) :
    rt.lastOf (filesOf (init ++ [(name, ls ++ [l])])).reverse = .ok (some l.chars) ∨
      ∃ e, rt.lastOf (filesOf (init ++ [(name, ls ++ [l])])).reverse = .error e := by
  have hreverse : (filesOf (init ++ [(name, ls ++ [l])])).reverse = (name, fileOf (ls ++ [l])) :: (filesOf init).reverse := by
    rw [filesOf, List.map_append, List.reverse_append]
    rfl
  rw [hreverse, Runtime.lastOf]
  rcases lastLine_cases ls l with hlast | ⟨e, he⟩
  · rw [hlast]
    exact Or.inl rfl
  · rw [he]
    exact Or.inr ⟨e, rfl⟩

/-- What is left where the first `done` of the old files are gone, behind the new anchor. -/
lemma Holds.dropped (h : Holds disk now s) {now' : Instant} (hle : now ≤ now') {old young : Filled rt cfg}
    (hall : s.all = old ++ young) (hyoung : young ≠ []) {init : Filled rt cfg} {name : String} {ls : List (Line rt cfg)}
    {l : Line rt cfg} (hold : old = init ++ [(name, ls ++ [l])]) {raw : Bytes} (hraw : AnchorReads rt raw l.next name)
    {done : ℕ} (hdone : done ≤ old.length) :
    Holds ⟨disk.files.filter fun f => f.1 ∉ ((filesOf old).take done).map Prod.fst, some raw⟩ now'
      (s.drop Line.next old young done) := by
  have hdrop : (s.drop Line.next old young done).all = s.all.drop done := by
    rw [hall, List.drop_append_of_le_length hdone]
    rfl
  refine ⟨?_, h.sound.drop hall hyoung done, fun m hm => ?_, name, ?_, hyoung, fun m hm => ?_, fun m hm => ?_⟩
  · have htake : (filesOf old).take done = disk.files.take done := by
      rw [h.files, hall, filesOf, filesOf, List.map_append, List.take_append_of_le_length (by rwa [List.length_map])]
    dsimp only
    rw [htake, filter_drop h.keyed, h.files, hdrop, filesOf, filesOf, List.map_drop]
  · rw [hdrop] at hm
    exact (h.later hle).named m (List.mem_of_mem_drop hm)
  · rw [anchor_drop, hold, tip_concat]
    exact hraw
  · have hincreasing := h.sound.increasing
    rw [hall, List.map_append, List.pairwise_append] at hincreasing
    exact hincreasing.2.2 name (by rw [hold]; simp) m.1 (List.mem_map_of_mem hm)
  · have hlast : (s.drop Line.next old young done).left.getLast? = if old.length ≤ done then none else old.getLast? :=
      List.getLast?_drop
    rw [hlast, hold, List.getLast?_concat] at hm
    split_ifs at hm
    · cases hm
    · obtain rfl := Option.some.inj hm
      rfl

/-- What a crash may leave: the directory as it was where nothing is dropped, and else also some of the old files behind the
new anchor, or none. -/
lemma Holds.stages (h : Holds disk now s) {now' : Instant} (hnow : Clocked cfg now') (hle : now ≤ now') {stages : List Disk}
    (hstages : rt.rotateStages cfg disk now' = .ok stages) :
    (¬ Retains cfg disk now' ∧ stages = [disk]) ∨ Retains cfg disk now' ∧ ∃ old young, s.all = old ++ young ∧ old ≠ [] ∧
      (∀ m ∈ old, ¬ Inside cfg now' m.1) ∧ ∃ left : ℕ → Disk, stages = disk :: (List.range (old.length + 1)).map left ∧
        ∀ done ≤ old.length, Holds (left done) now' (s.drop Line.next old young done) := by
  unfold Runtime.rotateStages at hstages
  obtain ⟨cutoff, hcutoff, hstages⟩ := Checks.bind_ok hstages
  obtain ⟨old, young, hall, hfilter, hold, hyoung⟩ := h.cut cutoff
  have hdaily : disk.daily = filesOf (old ++ young) := by rw [h.daily, hall]
  have hretains := retains_iff hcutoff hdaily hold hyoung
  simp only [hfilter] at hstages
  simp only [hdaily, length_filesOf, filesOf_eq_nil, List.length_append] at hstages
  split_ifs at hstages with hnone
  · refine Or.inl ⟨?_, (Except.ok.inj hstages).symm⟩
    rw [hretains]
    rintro ⟨hne, hne'⟩
    rcases hnone with hnil | hlen
    · exact hne hnil
    · exact hne' (List.length_eq_zero_iff.mp (by omega))
  · have hne : old ≠ [] := fun hnil => hnone (Or.inl hnil)
    have hne' : young ≠ [] := by
      rintro rfl
      exact hnone (Or.inr (by simp))
    obtain ⟨init, name, ls, l, hinit⟩ := Filled.cases hne fun m hm => h.sound.filled m (hall ▸ List.mem_append_left _ hm)
    have hname : ((filesOf old).getLast?.map Prod.fst).getD "" = name := by
      rw [hinit, filesOf, List.map_append, List.map_singleton, List.getLast?_concat]
      rfl
    rw [hname] at hstages
    refine Or.inr ⟨hretains.mpr ⟨hne, hne'⟩, old, young, hall, hne, fun m hm hinside => hinside cutoff hcutoff (hold m hm), ?_⟩
    obtain ⟨t, ht, -, hfile⟩ := h.named (name, ls ++ [l]) (by rw [hall, hinit]; simp)
    obtain ⟨line, hline, hstages⟩ := Checks.bind_ok hstages
    rw [hinit] at hline
    rcases lastOf_cases init name ls l with hlast | ⟨e, he⟩
    · obtain rfl := Except.ok.inj (hline.symm.trans hlast)
      obtain ⟨anchor, hanchor, hstages⟩ := Checks.bind_ok hstages
      obtain ⟨raw, hraw, rfl⟩ := Checks.map_ok hanchor
      have hprint : Data.Printable name.toList := by
        rw [show name = fileName cfg t from hfile]
        exact printable_fileName ht
      have hreads := anchorOf_line l hnow hprint hraw
      exact ⟨_, (Except.ok.inj hstages).symm, fun done hdone => h.dropped hle hall hne' hinit hreads hdone⟩
    · rw [he] at hline
      cases hline

end ContinuityLedger.CallLog
