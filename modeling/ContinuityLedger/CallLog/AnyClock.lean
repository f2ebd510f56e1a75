import ContinuityLedger.Foundations.Listing
import ContinuityLedger.CallLog.Idle

/-! The entries over all the daily files, under a clock that may step backwards: they are in order as long as no append goes to a
file in front of another, and out of order behind one that does. -/

namespace ContinuityLedger.CallLog

open Foundations Foundations.Sha256 Foundations.Codec Foundations.Calendar Foundations.Timestamps Foundations.Json HashChain Rotation

variable {rt : Runtime} {cfg : Config} {disk : Disk} {now now' : Instant} {s : Held rt cfg}

/-! ### Entries in order -/

/-- The lines of all the daily files, in the order of their names. -/
def Disk.lines (disk : Disk) : List Bytes := disk.daily.flatMap fun f => (f.2.splitOn newline).filter nonblank

/-- Each entry has the number behind that of the one before it, and names its hash. -/
def Chained : Chain → List Members → Prop
  | _, [] => True
  | p, e :: es => member e "seq" = some (.int (p.seq + 1)) ∧ member e "prev_hash" = some (.str p.entryHash) ∧
      ∃ chain, chainIn e = some chain ∧ Chained chain es

/-- The lines are entries, with the numbers from one on. -/
def Numbered (rt : Runtime) (disk : Disk) : Prop :=
  ∃ es : List Members, disk.lines.map (fun line => rt.loads (decoded line)) = es.map (fun e => .ok (.obj e)) ∧ Chained .genesis es

lemma lines_files {segments : Filled rt cfg} (h : disk.daily = filesOf segments) :
    disk.lines = (entries segments).map Line.bytes := by
  have hfile (ls : List (Line rt cfg)) : ((fileOf ls).splitOn newline).filter nonblank = ls.map Line.bytes := by
    rw [fileOf, ByteLines.splitOn_ended (List.forall_mem_map.mpr fun l _ => l.newline_bytes), List.filter_append,
      List.filter_eq_self.mpr (List.forall_mem_map.mpr fun l _ => l.nonblank_bytes)]
    simp [nonblank]
  rw [Disk.lines, h, filesOf, List.flatMap_map, entries, List.map_flatMap]
  simp only [hfile]

lemma member_line (l : Line rt cfg) : member l.members "seq" = some (.int (l.chain.seq + 1)) ∧
    member l.members "prev_hash" = some (.str l.chain.entryHash) ∧ chainIn l.members = some l.next := by
  have hseq : member l.members "seq" = some (.int (l.chain.seq + 1)) := l.member_entry List.mem_cons_self
  have hprev : member l.members "prev_hash" = some (.str l.chain.entryHash) :=
    l.member_entry (List.mem_cons_of_mem _ (List.mem_cons_of_mem _ List.mem_cons_self))
  have hhash : member l.members "entry_hash" = some (.str l.next.entryHash) :=
    l.member_entry (List.mem_append_right _ (List.mem_singleton_self _))
  refine ⟨hseq, hprev, ?_⟩
  rw [chainIn, hseq, hhash]
  rfl

lemma chained_linked {p : Chain} {ls : List (Line rt cfg)} (h : Linked Line.chain Line.next p ls) :
    Chained p (ls.map Line.members) := by
  induction ls generalizing p with
  | nil => trivial
  | cons l ls ih =>
    obtain ⟨rfl, hls⟩ := h
    obtain ⟨hseq, hprev, hchain⟩ := member_line l
    exact ⟨hseq, hprev, l.next, hchain, ih hls⟩

lemma loads_lines {segments : Filled rt cfg} (h : disk.daily = filesOf segments) :
    disk.lines.map (fun line => rt.loads (decoded line)) = ((entries segments).map Line.members).map fun e => .ok (.obj e) := by
  rw [lines_files h, List.map_map, List.map_map]
  exact List.map_congr_left fun l _ => l.loads_chars

lemma Holds.numbered (h : Holds disk now s) (hbase : s.base = .genesis) : Numbered rt disk :=
  ⟨_, loads_lines h.daily, chained_linked (hbase ▸ h.sound.linked)⟩

/-! ### A clock that steps backwards -/

/-- The reading may be an earlier one where no file is named behind it. -/
lemma Holds.rebase (h : Holds disk now s) (hnow : Clocked cfg now') (hnames : ∀ f ∈ disk.daily, f.1 ≤ fileName cfg now') :
    Holds disk now' s := by
  refine ⟨h.files, h.sound, fun m hm => ?_, h.anchored⟩
  obtain ⟨t, ht, -, hname⟩ := h.named m hm
  rcases le_total t now' with hle | hle
  · exact ⟨t, ht, hle, hname⟩
  · have hfile : m.1 ≤ fileName cfg now' := by
      refine hnames (m.1, fileOf m.2) ?_
      rw [h.daily]
      exact List.mem_map_of_mem hm
    refine ⟨now', hnow, le_rfl, le_antisymm hfile ?_⟩
    rw [hname]
    exact fileName_le hnow ht hle

/-- A run without crashes in which nothing is dropped and no append goes to a file in front of another. -/
structure Calm (rt : Runtime) (cfg : Config) (events : List Event) : Prop where
  clocked : ∀ now ∈ events.filterMap Event.now, Clocked cfg now
  uncrashed : ∀ fields now stage, .crash fields now stage ∉ events
  forward : ∀ earlier fields now later, events = earlier ++ .append fields now :: later →
    (∀ f ∈ (rt.run cfg earlier).disk.daily, f.1 ≤ fileName cfg now) ∧ ¬ Retains cfg (rt.run cfg earlier).disk now

lemma Calm.before {earlier later : List Event} (h : Calm rt cfg (earlier ++ later)) : Calm rt cfg earlier := by
  refine ⟨fun now hnow => h.clocked now ?_, fun fields now stage hmem => ?_, fun first fields now last hsplit => ?_⟩
  · rw [List.filterMap_append]
    exact List.mem_append_left _ hnow
  · exact h.uncrashed fields now stage (List.mem_append_left _ hmem)
  · exact h.forward first fields now (last ++ later) (by rw [hsplit, List.append_assoc, List.cons_append])

/-- From the first entry on, all in one piece. -/
structure Whole (log : Log) (now : Instant) (s : Held rt cfg) : Prop where
  sane : Sane log now s
  left : s.left = []
  base : s.base = .genesis

lemma Whole.append {log log' : Log} (h : Whole log now s) (hnow : Clocked cfg now') (hnames : ∀ f ∈ log.disk.daily, f.1 ≤ fileName cfg now')
    (hnone : ¬ Retains cfg log.disk now') {fields : EntryFields} {entry : Members}
    (happend : rt.append cfg log fields now' = .ok (log', entry)) :
    ∃ s' : Held rt cfg, Whole log' now' s' ∧ chainIn entry = some (s'.last Line.next) := by
  have hholds := h.sane.holds.rebase hnow hnames
  obtain ⟨chain, disk', hchain, hlocked, rfl⟩ := Runtime.append_ok happend
  obtain rfl := hholds.chain h.sane.held hchain
  obtain ⟨l, r, rfl, -, hr, hlast, ⟨-, rfl⟩ | ⟨hretains, -⟩⟩ := hholds.appended le_rfl hnow hlocked
  · refine ⟨_, ⟨⟨hr, fun c hc => ?_⟩, h.left, h.base⟩, (chainIn_entry l).trans (congrArg some hlast.symm)⟩
    rw [chainIn_entry, Option.mem_some_iff] at hc
    rw [← hc, hlast]
  · exact absurd hretains hnone

lemma whole_run {events : List Event} (h : Calm rt cfg events) : ∃ (now : Instant) (s : Held rt cfg), Whole (rt.run cfg events) now s := by
  induction events using List.reverseRecOn with
  | nil => exact ⟨0, ⟨.genesis, [], []⟩, sane_fresh rt cfg 0, rfl, rfl⟩
  | append_singleton events event ih =>
    obtain ⟨now, s, hs⟩ := ih h.before
    rw [run_concat]
    cases event with
    | release => exact ⟨now, s, ⟨hs.sane.holds, by simp [Runtime.step]⟩, hs.left, hs.base⟩
    | crash fields now' stage => exact absurd (List.mem_append_right _ (List.mem_singleton_self _)) (h.uncrashed fields now' stage)
    | append fields now' =>
      obtain ⟨hnames, hnone⟩ := h.forward events fields now' [] rfl
      have hnow := h.clocked now' (by simp [Event.now])
      simp only [Runtime.step]
      cases happend : rt.append cfg (rt.run cfg events) fields now' with
      | error e => exact ⟨now, s, ⟨hs.sane.holds, by simp⟩, hs.left, hs.base⟩
      | ok written =>
        obtain ⟨s', hs', -⟩ := hs.append hnow hnames hnone happend
        exact ⟨now', s', hs'⟩

/-- In a calm run the entries are in order whatever has happened, and `verify` reports ok behind every append, with its entry as
the head. -/
theorem numbered_in_calm_runs {events : List Event} (h : Calm rt cfg events) :
    (∀ earlier later, events = earlier ++ later → Numbered rt (rt.run cfg earlier).disk ∧
      ∃ chain, Verified rt (rt.run cfg earlier).disk chain) ∧
    ∀ earlier fields now later log entry, events = earlier ++ .append fields now :: later →
      rt.append cfg (rt.run cfg earlier) fields now = .ok (log, entry) →
        Numbered rt log.disk ∧ ∃ chain, chainIn entry = some chain ∧ Verified rt log.disk chain := by
  constructor
  · rintro earlier later rfl
    obtain ⟨now, s, hs⟩ := whole_run h.before
    exact ⟨hs.sane.holds.numbered hs.base, _, hs.sane.holds.verified_iff.mpr hs.left⟩
  · rintro earlier fields now later log entry rfl happend
    obtain ⟨bound, s, hs⟩ := whole_run h.before
    obtain ⟨hnames, hnone⟩ := h.forward earlier fields now later rfl
    have hnow := h.clocked now (by simp [Event.now])
    obtain ⟨s', hs', hchain⟩ := hs.append hnow hnames hnone happend
    exact ⟨hs'.sane.holds.numbered hs'.base, _, hchain, hs'.sane.holds.verified_iff.mpr hs'.left⟩

/-- In a calm run of one call. -/
theorem numbered_behind_first : ∃ log entry chain,
    idleRuntime.append idleConfig .fresh (makeFields idleCall) (dayAt 0) = .ok (log, entry) ∧ Numbered idleRuntime log.disk ∧
      chainIn entry = some chain ∧ Verified idleRuntime log.disk chain := by
  have hnow := reading_dayAt 0 (by decide)
  have hnone : ¬ Retains idleConfig Log.fresh.disk (dayAt 0) := by
    rw [steady_fresh.sane.holds.retains_iff hnow]
    simp [Segments.all]
  have hcalm : Calm idleRuntime idleConfig [.append (makeFields idleCall) (dayAt 0)] := by
    refine ⟨fun t ht => ?_, by simp, fun earlier fields now later hsplit => ?_⟩
    · obtain rfl := List.mem_singleton.mp ht
      exact hnow.clocked
    · rcases List.singleton_eq_append_iff.mp hsplit with ⟨rfl, hevent⟩ | ⟨-, hnil⟩
      · obtain ⟨hevent, -⟩ := List.cons.inj hevent
        obtain ⟨-, rfl⟩ := Event.append.inj hevent
        exact ⟨by simp [Runtime.run, Log.fresh, Disk.daily], hnone⟩
      · cases hnil
  obtain ⟨log, l, happend, -⟩ := steady_fresh.append (by decide) le_rfl hnow hnone
  obtain ⟨hnumbered, chain, hchain, hverified⟩ := (numbered_in_calm_runs hcalm).2 [] _ _ [] log l.entry rfl happend
  exact ⟨log, l.entry, chain, happend, hnumbered, hchain, hverified⟩

/-! ### Out of order -/

/-- An entry that goes to a file in front of all the others comes before them. -/
lemma Holds.daily_front (h : Holds disk now s) {name : String} (hdaily : isDaily name = true) (hfront : ∀ m ∈ s.all, name < m.1)
    (l : Line rt cfg) (anchor : Option Bytes) :
    Disk.daily ⟨disk.files.set name (((disk.files.get name).getD []) ++ tornPrefix ((disk.files.get name).getD []) ++ l.bytes ++ [newline]),
      anchor⟩ = filesOf ((name, [l]) :: s.all) := by
  have hfresh : name ∉ disk.files.map Prod.fst := by
    rw [h.files, keys_filesOf]
    intro hmem
    obtain ⟨m, hm, hname⟩ := List.mem_map.mp hmem
    exact lt_irrefl name (hname ▸ hfront m hm)
  have hget : disk.files.get name = none := by
    cases hg : disk.files.get name with
    | none => rfl
    | some v => exact absurd (List.mem_map_of_mem (f := Prod.fst) (Dict.get_mem hg)) hfresh
  have hline : ([] : Bytes) ++ tornPrefix [] ++ l.bytes ++ [newline] = fileOf [l] := (fileOf_concat [] l).symm
  have hfilter : (filesOf s.all).filter (fun f => isDaily f.1) = filesOf s.all := by
    rw [← h.daily]
    exact List.filter_eq_self.mpr fun f hf => (List.mem_filter.mp ((List.mergeSort_perm _ _).mem_iff.mp hf)).2
  have hkeys : ((filesOf ((name, [l]) :: s.all)).map Prod.fst).Pairwise (· < ·) := by
    rw [keys_filesOf, List.map_cons]
    exact List.pairwise_cons.mpr ⟨List.forall_mem_map.mpr hfront, h.sound.increasing⟩
  have hperm : (filesOf s.all ++ [(name, fileOf [l])]).Perm (filesOf ((name, [l]) :: s.all)) := List.perm_append_singleton _ _
  have hnodup : ((filesOf s.all ++ [(name, fileOf [l])]).map Prod.fst).Nodup :=
    (hperm.map Prod.fst).nodup_iff.mpr (hkeys.imp fun hlt => hlt.ne)
  rw [hget, Option.getD_none, hline, Disk.daily, Dict.set_of_not_has hfresh, h.files, List.filter_append, hfilter, List.filter_cons,
    if_pos hdaily, List.filter_nil]
  refine (Listing.mergeSort_perm_eq hnodup hperm).trans (List.mergeSort_of_pairwise ?_)
  exact (List.pairwise_map.mp hkeys).imp fun hlt => decide_eq_true hlt.le

lemma Numbered.first {name : String} {l : Line rt cfg} {ls : List (Line rt cfg)} {segments : Filled rt cfg} (h : Numbered rt disk)
    (hdaily : disk.daily = filesOf ((name, l :: ls) :: segments)) : l.chain.seq = 0 := by
  obtain ⟨es, hes, hchained⟩ := h
  rw [loads_lines hdaily] at hes
  have hmembers : (entries ((name, l :: ls) :: segments)).map Line.members = es := by
    refine List.map_injective_iff.mpr (fun d e hde => ?_) hes
    exact Json.obj.inj (Except.ok.inj hde)
  rw [← hmembers] at hchained
  have hseq := (member_line l).1.symm.trans hchained.1
  have hnumber : l.chain.seq + 1 = 0 + 1 := Json.int.inj (Option.some.inj hseq)
  omega

/-- Nothing is dropped where not both kinds of files are there. -/
lemma rotate_of_not_retains {rotated : Disk} (hnone : ¬ Retains cfg disk now') (h : rt.rotate cfg disk now' = .ok rotated) :
    rotated = disk := by
  obtain ⟨cutoff, hcutoff, h⟩ := Checks.bind_ok h
  have hreturn : disk.daily.filter (fun f => fileDay f.1 < cutoff) = [] ∨
      disk.daily.length ≤ (disk.daily.filter (fun f => fileDay f.1 < cutoff)).length := by
    by_contra hboth
    obtain ⟨hsome, hless⟩ := not_or.mp hboth
    refine hnone ⟨cutoff, hcutoff, ?_, ?_⟩
    · obtain ⟨f, hf⟩ := List.exists_mem_of_ne_nil _ hsome
      obtain ⟨hf, hlt⟩ := List.mem_filter.mp hf
      exact ⟨f, hf, of_decide_eq_true hlt⟩
    · by_contra hall
      refine hless (le_of_eq (congrArg List.length (List.filter_eq_self.mpr fun f hf => ?_)).symm)
      exact decide_eq_true (by_contra fun hge => hall ⟨f, hf, hge⟩)
  simp only [if_pos hreturn] at h
  exact (Except.ok.inj h).symm

/-- The clock goes back to the day before: the second entry goes to the file in front. -/
theorem misnumbered_backwards : ∃ log₁ entry₁ log₂ entry₂,
    idleRuntime.append idleConfig .fresh (makeFields idleCall) (dayAt 1) = .ok (log₁, entry₁) ∧
      idleRuntime.append idleConfig ⟨log₁.disk, none⟩ (makeFields idleCall) (dayAt 0) = .ok (log₂, entry₂) ∧
        ¬ Numbered idleRuntime log₂.disk ∧ ¬ ∃ chain, Verified idleRuntime log₂.disk chain := by
  have h0 := reading_dayAt 0 (by decide)
  have h1 := reading_dayAt 1 (by decide)
  obtain ⟨log₁, l₁, happend₁, hlog₁⟩ := steady_fresh.append (by decide) (by decide : dayAt 0 ≤ dayAt 1) h1 (by
    rw [steady_fresh.sane.holds.retains_iff h1]
    simp [Segments.all])
  have hreleased := hlog₁.release
  have hall : (Segments.add ⟨Chain.genesis, [], []⟩ (fileName idleConfig (dayAt 1)) l₁).all = [(fileName idleConfig (dayAt 1), [l₁])] := rfl
  obtain ⟨⟨log₂, entry₂⟩, happend₂⟩ := hreleased.sane.append_through hreleased.fits h0.clocked h0.window
    (hreleased.writable (by decide) (dayAt 0))
  refine ⟨log₁, l₁.entry, log₂, entry₂, happend₁, happend₂, ?_⟩
  obtain ⟨chain, disk, hchain, hlocked, rfl⟩ := Runtime.append_ok happend₂
  obtain rfl := hreleased.sane.holds.chain hreleased.sane.held hchain
  obtain ⟨hash, rotated, bytes, hhash, hrotate, hbytes, -, rfl⟩ := Runtime.appendLocked_ok hlocked
  obtain rfl := rotate_of_not_retains (by
    rw [hreleased.sane.holds.retains_iff h0, hall]
    rintro ⟨⟨m, hm, hlt⟩, -⟩
    obtain rfl := List.mem_singleton.mp hm
    exact absurd ((behind_iff h1.clocked h0.early).mp hlt) (by decide)) hrotate
  set l₂ : Line idleRuntime idleConfig := ⟨makeFields idleCall, _, dayAt 0, hash, bytes, hhash, hbytes⟩
  have hdaily := hreleased.sane.holds.daily_front (isDaily_name h0.clocked) (by
    rw [hall]
    intro m hm
    obtain rfl := List.mem_singleton.mp hm
    exact fileName_lt h0.clocked h1.clocked (by decide)) l₂ log₁.disk.anchor
  obtain ⟨own, hlast⟩ := hreleased.last
  have hnumber : l₂.chain.seq = 1 := congrArg Chain.seq hlast
  constructor
  · intro hnumbered
    have hfirst := hnumbered.first hdaily
    omega
  · rintro ⟨chain, hverified⟩
    obtain ⟨a, hanchor⟩ := hreleased.sane.holds.readAnchor
    refine absurd hverified (unverified_of_moved hanchor hdaily ?_)
    have hstart : (Segments.anchor Line.next (Segments.add ⟨Chain.genesis, [], []⟩ (fileName idleConfig (dayAt 1)) l₁)).seq = 0 := rfl
    rw [hstart, hnumber]
    decide

end ContinuityLedger.CallLog
