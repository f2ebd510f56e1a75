import ContinuityLedger.Blocks.Database
import ContinuityLedger.Blocks.Tiling
import ContinuityLedger.Ledger.LiveLaw

/-! Every run of the sessions keeps the committed tables captured and the committed blocks tiling the history,
whatever writers and sealers are in the middle of. -/

namespace ContinuityLedger.Blocks

open Foundations Foundations.Sha256 Foundations.HashChain Ledger

/-- What the variables of a running call say of the tables and blocks its session sees. -/
def Stage.Holds (t : Tables) (bs : List Block) : Stage → Prop
  | .locked => True
  | .counted ctr => ctr ≤ t.history.length
  | .tipped ctr last => ctr ≤ t.history.length ∧ last = tip bs ∧ last.lastSeq + 1 ≤ ctr
  | .aged ctr last => ctr ≤ t.history.length ∧ last = tip bs ∧ last.lastSeq + 1 ≤ ctr

lemma Stage.Holds.of_isPrefix {t t' : Tables} {bs : List Block} {st : Stage} (h : st.Holds t bs)
    (hp : t.history <+: t'.history) : st.Holds t' bs := by
  have hl := hp.length_le
  cases st with
  | locked => trivial
  | counted ctr =>
    simp only [Stage.Holds] at h ⊢
    omega
  | tipped ctr last => exact ⟨by have := h.1; omega, h.2⟩
  | aged ctr last => exact ⟨by have := h.1; omega, h.2⟩

/-- What a statement of the call leaves behind. -/
def Outcome.Sound (tenant : String) (t : Tables) (bs : List Block) : Outcome → Prop
  | .next st => st.Holds t bs
  | .done _ b => Tiled tenant t (bs ++ b.toList)

section Call

variable {tenant : String} {t : Tables} {bs : List Block}

lemma readCounter_sound (ht : Logged t) (hb : Tiled tenant t bs) : (readCounter t).Sound tenant t bs := by
  have hc := ht.counter
  unfold readCounter
  cases hx : t.counter with
  | none => simpa [Outcome.Sound] using hb
  | some ctr =>
    simp only [hx, Option.getD_some] at hc
    exact hc.le

lemma readTip_sound (hb : Tiled tenant t bs) {ctr : ℤ} (hctr : ctr ≤ t.history.length) {out : Outcome}
    (h : readTip bs ctr = .ok out) : out.Sound tenant t bs := by
  simp only [readTip, bind_eq_ok, require_eq_ok] at h
  obtain ⟨_, _, h⟩ := h
  split_ifs at h with hnew
  · obtain rfl := Except.ok.inj h
    simpa [Outcome.Sound] using hb
  · obtain rfl := Except.ok.inj h
    exact ⟨hctr, rfl, not_lt.mp hnew⟩

lemma readOldest_sound (hb : Tiled tenant t bs) {ctr : ℤ} {last : Tip}
    (hst : (Stage.tipped ctr last).Holds t bs) {call : SealCall} {clock : Calendar.Instant} {out : Outcome}
    (h : readOldest call clock t ctr last = .ok out) : out.Sound tenant t bs := by
  unfold readOldest at h
  cases hx : t.entryAt (last.lastSeq + 1) with
  | none => simp [hx] at h
  | some oldest =>
    simp only [hx] at h
    split_ifs at h
    · obtain rfl := Except.ok.inj h
      simpa [Outcome.Sound] using hb
    · obtain rfl := Except.ok.inj h
      exact hst

lemma sealEnd_le (call : SealCall) (ctr s : ℤ) : sealEnd call ctr s ≤ ctr := by
  unfold sealEnd
  cases call.maxEntries with
  | none => exact le_rfl
  | some m => exact min_le_left _ _

lemma insertBlock_sound (hb : Tiled tenant t bs) {ctr : ℤ} {last : Tip}
    (hst : (Stage.aged ctr last).Holds t bs) {set : SealSettings} {call : SealCall} {now : Calendar.Instant}
    {out : Outcome} (h : insertBlock set call tenant now t bs ctr last = .ok out) :
    out.Sound tenant t bs := by
  obtain ⟨hctr, hlast, hs⟩ := hst
  simp only [insertBlock, bind_eq_ok, require_eq_ok] at h
  obtain ⟨_, _, h⟩ := h
  cases hroot : jarvisMerkleRoot (rowHashes t (last.lastSeq + 1) (sealEnd call ctr (last.lastSeq + 1))) with
  | none => simp [hroot] at h
  | some root =>
    simp only [hroot, bind_eq_ok, require_eq_ok] at h
    obtain ⟨_, hchecks, _, _, h⟩ := h
    obtain rfl := Except.ok.inj h
    simp only [Block.checks, Bool.and_eq_true, decide_eq_true_eq] at hchecks
    have hend := sealEnd_le call ctr (last.lastSeq + 1)
    refine hb.append ⟨rfl, rfl, hchecks.1.1.1.1.1.2, rfl, hchecks.2, hend.trans hctr, hroot, rfl⟩ ?_ ?_
    · rw [← hlast]
      rfl
    · rw [← hlast]
      simp [Block.continues, newBlock]

lemma sealStep_sound (ht : Logged t) (hb : Tiled tenant t bs) {st : Stage} (hst : st.Holds t bs)
    {set : SealSettings} {call : SealCall} {clock now : Calendar.Instant} {out : Outcome}
    (h : sealStep set call tenant clock now t bs st = .ok out) : out.Sound tenant t bs := by
  cases st with
  | locked =>
    obtain rfl := Except.ok.inj h
    exact readCounter_sound ht hb
  | counted ctr => exact readTip_sound hb hst h
  | tipped ctr last => exact readOldest_sound hb hst h
  | aged ctr last => exact insertBlock_sound hb hst h

end Call

variable {S : Type} [DecidableEq S]

/-- The holder of the seal lock, on the tables it sees. -/
structure Sealer.Sound (tenant : String) (t : Tables) (blocks : List Block) (x : Sealer S) : Prop where
  pending : Tiled tenant t (blocks ++ x.pending)
  running : ∀ r ∈ x.running, r.stage.Holds t (blocks ++ x.pending)

structure Sound (tenant : String) (db : Database S) : Prop where
  committed : Captured db.committed
  working : ∀ w ∈ db.writer, Captured w.working ∧ db.committed.history <+: w.working.history
  tiled : Tiled tenant db.committed db.blocks
  sealer : ∀ x ∈ db.sealer, x.Sound tenant (db.view x.session) db.blocks

omit [DecidableEq S] in
lemma Sealer.Sound.of_isPrefix {tenant : String} {t t' : Tables} {blocks : List Block} {x : Sealer S}
    (h : x.Sound tenant t blocks) (ht : Logged t) (ht' : Logged t') (hp : t.history <+: t'.history) :
    x.Sound tenant t' blocks :=
  ⟨h.pending.of_isPrefix ht ht' hp, fun r hr => (h.running r hr).of_isPrefix hp⟩

lemma Sound.view {tenant : String} {db : Database S} (h : Sound tenant db) (s : S) :
    Captured (db.view s) ∧ db.committed.history <+: (db.view s).history := by
  unfold Database.view
  cases hw : db.writer with
  | none => exact ⟨h.committed, List.prefix_rfl⟩
  | some w =>
    by_cases hs : w.session = s
    · simpa [hs] using h.working w hw
    · simpa [hs] using h.committed

lemma start_sound (tenant : String) : Sound tenant (Database.start : Database S) :=
  ⟨empty_captured, by simp [Database.start], tiled_nil _ _, by simp [Database.start]⟩

lemma Sound.abort {tenant : String} {db : Database S} (h : Sound tenant db) (s : S) :
    Sound tenant (db.abort s) :=
  ⟨h.committed, h.working, h.tiled, h.sealer⟩

lemma stepWrite_sound {tenant : String} {db db' : Database S} (h : Sound tenant db) {s : S} {env : Settings}
    {st : Statement} (hs : stepWrite tenant db s env st = some db') : Sound tenant db' := by
  unfold stepWrite at hs
  split_ifs at hs with hwait
  simp only [Bool.or_eq_true, not_or] at hwait
  obtain ⟨hcap, hpre⟩ := h.view s
  cases he : execute env (db.view s) st with
  | error e =>
    simp only [he] at hs
    obtain rfl := Option.some.inj hs
    exact h.abort s
  | ok t =>
    simp only [he] at hs
    split_ifs at hs
    · obtain rfl := Option.some.inj hs
      exact h
    · obtain rfl := Option.some.inj hs
      have ht := execute_captured hcap he
      have hext := execute_isPrefix he
      refine ⟨h.committed, ?_, h.tiled, fun x hx => ?_⟩
      · rintro w ⟨rfl⟩
        exact ⟨ht, hpre.trans hext⟩
      · have hold := h.sealer x hx
        by_cases hxs : s = x.session
        · subst hxs
          simpa [Database.view] using hold.of_isPrefix hcap.toLogged ht.toLogged hext
        · have hview : db.view x.session = db.committed := by
            unfold Database.view
            cases hw : db.writer with
            | none => rfl
            | some w =>
              have hws : w.session = s := by simpa [hw] using hwait.2
              simp [hws, hxs]
          rw [hview] at hold
          simpa [Database.view, hxs] using hold

lemma stepCallSeal_sound {tenant : String} {db db' : Database S} (h : Sound tenant db) {s : S}
    {set : SealSettings} {call : SealCall} (hs : stepCallSeal tenant db s set call = some db') :
    Sound tenant db' := by
  unfold stepCallSeal at hs
  by_cases hbusy : db.busy s = true
  · simp [hbusy] at hs
  rw [if_neg hbusy] at hs
  cases hg : sealGuard set call with
  | error e =>
    simp only [hg] at hs
    obtain rfl := Option.some.inj hs
    exact h.abort s
  | ok u =>
    simp only [hg] at hs
    by_cases htenant : call.tenant = some tenant
    swap
    · simp [htenant] at hs
    simp only [htenant, ne_eq, not_true_eq_false, if_false] at hs
    cases hx : db.sealer with
    | none =>
      simp only [hx] at hs
      obtain rfl := Option.some.inj hs
      obtain ⟨hcap, hpre⟩ := h.view s
      refine ⟨h.committed, h.working, h.tiled, ?_⟩
      rintro x ⟨rfl⟩
      refine ⟨?_, ?_⟩
      · rw [List.append_nil]
        exact h.tiled.of_isPrefix h.committed.toLogged hcap.toLogged hpre
      · rintro r ⟨rfl⟩
        trivial
    | some x =>
      simp only [hx] at hs
      split_ifs at hs
      obtain rfl := Option.some.inj hs
      refine ⟨h.committed, h.working, h.tiled, ?_⟩
      rintro y ⟨rfl⟩
      refine ⟨(h.sealer x hx).pending, ?_⟩
      rintro r ⟨rfl⟩
      trivial

lemma stepSeal_sound {tenant : String} {db db' : Database S} (h : Sound tenant db) {s : S}
    {clock now : Calendar.Instant} (hs : stepSeal tenant db s clock now = some db') : Sound tenant db' := by
  unfold stepSeal at hs
  cases hx : db.sealer with
  | none => simp [hx] at hs
  | some x =>
    simp only [hx] at hs
    split_ifs at hs with hsess
    obtain rfl : x.session = s := by tauto
    cases hr : x.running with
    | none => simp [hr] at hs
    | some r =>
      have hold := h.sealer x hx
      have hall : db.allBlocks = db.blocks ++ x.pending := by simp [Database.allBlocks, hx]
      simp only [hr, hall] at hs
      cases ho : sealStep r.settings r.call tenant clock now (db.view x.session) (db.blocks ++ x.pending)
          r.stage with
      | error e =>
        simp only [ho] at hs
        obtain rfl := Option.some.inj hs
        exact h.abort _
      | ok out =>
        have hout := sealStep_sound (h.view x.session).1.toLogged hold.pending (hold.running r hr) ho
        cases out with
        | next st =>
          simp only [ho] at hs
          obtain rfl := Option.some.inj hs
          refine ⟨h.committed, h.working, h.tiled, ?_⟩
          rintro y ⟨rfl⟩
          refine ⟨hold.pending, ?_⟩
          rintro r' ⟨rfl⟩
          exact hout
        | done res b =>
          simp only [ho] at hs
          obtain rfl := Option.some.inj hs
          refine ⟨h.committed, h.working, h.tiled, ?_⟩
          rintro y ⟨rfl⟩
          refine ⟨?_, by simp⟩
          rw [← List.append_assoc]
          exact hout

lemma release_view (db : Database S) (s u : S) :
    (db.release s).view u = if db.writer.any (fun w : Writer S => w.session = s) then db.committed else db.view u := by
  unfold Database.view Database.release
  cases hw : db.writer with
  | none => simp
  | some w =>
    by_cases hs : w.session = s
    · simp [Option.filter_some, hs]
    · simp [Option.filter_some, hs]

/-- Giving up a transaction leaves what is committed and what the other sessions see of it. -/
lemma release_sound {tenant : String} {db : Database S} (h : Sound tenant db) (s : S) :
    Sound tenant (db.release s) := by
  refine ⟨h.committed, fun w hw => h.working w (Option.mem_filter_iff.mp hw).1, h.tiled, fun x hx => ?_⟩
  obtain ⟨hx, hxs⟩ := Option.mem_filter_iff.mp hx
  have hne : x.session ≠ s := by simpa using hxs
  have hold := h.sealer x hx
  rw [release_view]
  split_ifs with hw
  · obtain ⟨w, hwr, hws⟩ : ∃ w, db.writer = some w ∧ w.session = s := by
      cases hw' : db.writer with
      | none => simp [hw'] at hw
      | some w => exact ⟨w, rfl, by simpa [hw'] using hw⟩
    have hview : db.view x.session = db.committed := by
      simp [Database.view, hwr, hws, Ne.symm hne]
    rwa [hview] at hold
  · exact hold

/-- What a session has written becomes what everyone sees. -/
lemma publish_sound {tenant : String} {db : Database S} (h : Sound tenant db) (s : S) :
    Sound tenant (({ db with
      committed := db.view s
      blocks := db.blocks ++ ((db.sealer.filter (fun x : Sealer S => x.session = s)).map Sealer.pending).getD [] } :
        Database S).release s) := by
  obtain ⟨hcap, hpre⟩ := h.view s
  refine ⟨hcap, fun w hw => ?_, ?_, fun x hx => ?_⟩
  · obtain ⟨hw, hws⟩ := Option.mem_filter_iff.mp hw
    have hw : db.writer = some w := hw
    have hne : w.session ≠ s := by simpa using hws
    have hview : db.view s = db.committed := by simp [Database.view, hw, hne]
    exact ⟨(h.working w hw).1, hview ▸ (h.working w hw).2⟩
  · have hold := h.tiled.of_isPrefix h.committed.toLogged hcap.toLogged hpre
    cases hx : db.sealer with
    | none => simpa [hx, Database.release] using hold
    | some x =>
      by_cases hs : x.session = s
      · subst hs
        simpa [hx, Option.filter_some, Database.release] using (h.sealer x hx).pending
      · simpa [hx, hs, Option.filter_some, Database.release] using hold
  · obtain ⟨hx, hxs⟩ := Option.mem_filter_iff.mp hx
    have hx : db.sealer = some x := hx
    have hne : x.session ≠ s := by simpa using hxs
    have hold := h.sealer x hx
    rw [release_view]
    have hblocks : db.blocks ++ ((db.sealer.filter (fun y : Sealer S => y.session = s)).map Sealer.pending).getD [] =
        db.blocks := by
      simp [hx, hne, Option.filter_some]
    simp only [hblocks, Database.release]
    split_ifs with hw
    · have hmine : ∃ w, db.writer = some w ∧ w.session = s := by
        cases hw' : db.writer with
        | none => simp [hw'] at hw
        | some w => exact ⟨w, rfl, by simpa [hw'] using hw⟩
      obtain ⟨w, hwr, hws⟩ := hmine
      have hview : db.view x.session = db.committed := by
        simp [Database.view, hwr, hws, Ne.symm hne]
      rw [hview] at hold
      exact hold.of_isPrefix h.committed.toLogged hcap.toLogged hpre
    · have hview : db.view s = db.committed := by
        cases hw' : db.writer with
        | none => simp [Database.view, hw']
        | some w =>
          have hws : w.session ≠ s := by simpa [hw'] using hw
          simp [Database.view, hw', hws]
      rw [hview]
      exact hold

lemma step_sound {tenant : String} {db db' : Database S} (h : Sound tenant db) {ev : Event S}
    (hs : step tenant db ev = some db') : Sound tenant db' := by
  cases ev with
  | write s env st => exact stepWrite_sound h hs
  | callSeal s set call => exact stepCallSeal_sound h hs
  | sealStatement s clock now => exact stepSeal_sound h hs
  | commit s =>
    simp only [step, stepCommit] at hs
    split_ifs at hs
    · obtain rfl := Option.some.inj hs
      exact release_sound h s
    · obtain rfl := Option.some.inj hs
      exact publish_sound h s
  | rollback s =>
    obtain rfl := Option.some.inj hs
    exact release_sound h s

lemma run_sound {tenant : String} {evs : List (Event S)} {db db' : Database S} (h : Sound tenant db)
    (hr : run tenant db evs = some db') : Sound tenant db' := by
  induction evs generalizing db with
  | nil =>
    obtain rfl := Option.some.inj hr
    exact h
  | cons ev evs ih =>
    obtain ⟨u, hu, hr⟩ := Option.bind_eq_some_iff.mp hr
    exact ih (step_sound h hu) hr

/-- What a chain head that is not deleted says its record is. -/
def headImage (t : Tables) (id : String) : Option Jsonb.Value :=
  (t.head id).bind fun h => if h.deleted then none else (t.entryAt h.lastSeq).bind HistoryEntry.after

/-- The four tables of a tenant say the same. -/
structure Consistent (t : Tables) : Prop where
  seqs : t.history.map HistoryEntry.seq = series (t.counter.getD 0)
  linked : ∀ id, Linked HistoryEntry.prevHash HistoryEntry.rowHash genesis (t.chain id)
  ordered : ∀ id, (t.chain id).Pairwise (fun a b => a.seq < b.seq)
  hashed : ∀ e ∈ t.history, e.recomputed = e.rowHash
  heads : ∀ id, t.head id = (t.latestEntry id).map HistoryEntry.toHead
  memoryKey : (t.memories.map Memory.id).Nodup
  live : ∀ id, (t.memory id).map jarvisMemoryJson = headImage t id

lemma consistent_of_captured {t : Tables} (h : Captured t) : Consistent t := by
  refine ⟨?_, h.linked, fun id => h.pairwise.sublist List.filter_sublist, h.hashed, fun id => ?_,
    h.memoryKey, fun id => ?_⟩
  · rw [h.seqs, h.counter, series, Int.toNat_natCast]
  · rw [h.heads, h.latestEntry]
  · have hv : t.view id = (EventFold.newest HistoryEntry.memoryId id t.history).bind HistoryEntry.after := by
      rw [h.live, Tables.events, EventFold.replay_eq_newest]
    have hview : (t.memory id).map jarvisMemoryJson = t.view id := rfl
    rw [hview, hv, headImage, h.heads]
    cases hx : EventFold.newest HistoryEntry.memoryId id t.history with
    | none => rfl
    | some e =>
      have hmem := EventFold.newest_mem _ hx
      have hseq : t.entryAt e.toHead.lastSeq = some e := h.entryAt hmem
      simp only [Option.map_some, Option.bind_some, hseq]
      split_ifs with hdel
      · have hop : e.op = .delete := by simpa [HistoryEntry.toHead] using hdel
        have hc := h.checked e hmem
        simp only [HistoryEntry.checks, hop, Bool.and_eq_true, Option.isNone_iff_eq_none] at hc
        exact hc.2
      · rfl

theorem committed_history_consistent {tenant : String} {evs : List (Event S)} {db : Database S}
    (hr : run tenant Database.start evs = some db) :
    Consistent db.committed ∧ ∀ only, jarvisVerifyHistory db.committed only = [] := by
  have h := run_sound (start_sound tenant) hr
  exact ⟨consistent_of_captured h.committed, verifyHistory_silent h.committed⟩

/-- A write by one session, then a forced seal by another. -/
def sealedRun : List (Event ℕ) :=
  let call : SealCall := ⟨some "operator", some 500, none, some true, some 10000⟩
  [.write 0 chatSettings (.insert note), .callSeal 1 ⟨some "operator", "read committed", some "sealer"⟩ call,
    .commit 0, .sealStatement 1 5 5, .sealStatement 1 5 5, .sealStatement 1 5 5, .sealStatement 1 5 5, .commit 1]

lemma sealedRun_isSome : (run "operator" Database.start sealedRun).isSome = true := by decide +kernel

example : (run "operator" Database.start sealedRun).map (fun db => db.blocks.map Block.lastSeq) = some [1] := by
  decide +kernel

theorem committed_history_consistent_sealedRun :
    ∃ db, run "operator" Database.start sealedRun = some db ∧ Consistent db.committed ∧
      ∀ only, jarvisVerifyHistory db.committed only = [] := by
  obtain ⟨db, hdb⟩ := Option.isSome_iff_exists.mp sealedRun_isSome
  exact ⟨db, hdb, committed_history_consistent hdb⟩

/-- The blocks of a tenant tile its history. -/
structure Tiles (tenant : String) (t : Tables) (bs : List Block) : Prop where
  heights : bs.map Block.height = series bs.length
  ranges : Linked Block.firstSeq (fun b => b.lastSeq + 1) 1 bs
  counts : ∀ b ∈ bs, b.entryCount = b.lastSeq - b.firstSeq + 1
  hashes : Linked Block.prevBlockHash Block.blockHash genesis bs
  within : ∀ b ∈ bs, b.lastSeq ≤ t.counter.getD 0

lemma linked_split {bs : List Block} {p : Hex64 × ℤ} (h : Linked Block.continues Block.ends p bs) :
    Linked Block.prevBlockHash Block.blockHash p.1 bs ∧
      Linked Block.firstSeq (fun b => b.lastSeq + 1) (p.2 + 1) bs := by
  induction bs generalizing p with
  | nil => exact ⟨trivial, trivial⟩
  | cons b bs ih =>
    obtain ⟨rfl, h⟩ := h
    obtain ⟨hh, hr⟩ := ih h
    exact ⟨⟨rfl, hh⟩, ⟨(sub_add_cancel b.firstSeq 1).symm, hr⟩⟩

theorem committed_blocks_tile {tenant : String} {evs : List (Event S)} {db : Database S}
    (hr : run tenant Database.start evs = some db) :
    Tiles tenant db.committed db.blocks ∧ jarvisVerifyBlocks db.committed db.blocks = [] ∧
      blockProblems db.committed tenant db.blocks = [] := by
  have h := run_sound (start_sound tenant) hr
  have hl := h.committed.toLogged
  obtain ⟨hhash, hrange⟩ := linked_split h.tiled.linked
  refine ⟨⟨h.tiled.heights, hrange, fun b hb => (h.tiled.sealed b hb).count, hhash, fun b hb => ?_⟩,
    verifyBlocks_silent h.tiled hl, blockProblems_silent h.tiled hl⟩
  exact hl.counter ▸ (h.tiled.sealed b hb).within

theorem committed_blocks_tile_sealedRun :
    ∃ db, run "operator" Database.start sealedRun = some db ∧ Tiles "operator" db.committed db.blocks ∧
      jarvisVerifyBlocks db.committed db.blocks = [] ∧ blockProblems db.committed "operator" db.blocks = [] := by
  obtain ⟨db, hdb⟩ := Option.isSome_iff_exists.mp sealedRun_isSome
  exact ⟨db, hdb, committed_blocks_tile hdb⟩

end ContinuityLedger.Blocks
