import ContinuityLedger.Records.LedgerFile
import ContinuityLedger.Records.NothingDropped

/-! The ledger in memory and the ledger in the file agree after every call, a call that raises changes neither, and one
that returns is in the file: except where a new record draws an id that is there already and is not saved. -/

namespace ContinuityLedger.Records

open Foundations Foundations.Sha256 Ledger Evidence Codec

variable {num : Numbers} {contentSha256 : String → Hex64}

/-- Equal as a board and a map of records. -/
structure Contents.Same (a b : Contents) : Prop where
  board : a.board = b.board
  records : ∀ id, a.get id = b.get id

lemma Contents.Same.refl (a : Contents) : a.Same a := ⟨rfl, fun _ => rfl⟩

lemma Contents.Same.trans {a b c : Contents} (h : a.Same b) (h' : b.Same c) : a.Same c :=
  ⟨h.board.trans h'.board, fun id => (h.records id).trans (h'.records id)⟩

lemma Contents.Same.symm {a b : Contents} (h : a.Same b) : b.Same a := ⟨h.board.symm, fun id => (h.records id).symm⟩

/-- What the answer says is so in a ledger. -/
def StoreAnswer.Holds (l : Contents) : StoreAnswer → Prop
  | .record m => l.get m.id = some m
  | .unknown id => l.get id = none
  | .deleted id _ => l.get id = none
  | .board b => l.board = b

lemma StoreAnswer.Holds.congr {l l' : Contents} (h : l.Same l') {a : StoreAnswer} (ha : a.Holds l) : a.Holds l' := by
  cases a with
  | board b => exact h.board.symm.trans ha
  | _ => exact (h.records _).symm.trans ha

namespace FileStore

/-- The ledger that a store which starts now would load. -/
def onDisk (num : Numbers) (contentSha256 : String → Hex64) : Disk → Option Contents
  | .missing => some .empty
  | .unreadable => none
  | .document raw => ((parseLedgerDocument num contentSha256 raw).toOption).map Prod.fst

/-- What is loaded may be saved, and is what is in the file. -/
structure Held (num : Numbers) (contentSha256 : String → Hex64) (st : FileStore) : Prop where
  lasts : st.contents.Lasts num
  disk : ∃ l, onDisk num contentSha256 st.disk = some l ∧ st.contents.Same l

def Agrees (num : Numbers) (contentSha256 : String → Hex64) (st : FileStore) : Prop :=
  ∀ l, onDisk num contentSha256 st.disk = some l → st.contents.Same l

structure Inv (num : Numbers) (contentSha256 : String → Hex64) (st : FileStore) : Prop where
  held : st.loaded = true → Held num contentSha256 st
  fresh : st.loaded = false → st.disk = .missing → st.contents = .empty

lemma Held.agrees {st : FileStore} (h : Held num contentSha256 st) : Agrees num contentSha256 st := by
  intro l hl
  obtain ⟨l', hl', hsame⟩ := h.disk
  rw [hl] at hl'
  rwa [Option.some.inj hl']

lemma onDisk_saved {l : Contents} (h : l.Lasts num) : onDisk num contentSha256 (.document (saved num l)) = some l := by
  rw [onDisk, parse_saved h]
  rfl

lemma onDisk_parsed {raw : Members} {l : Contents} {dirty : Bool}
    (h : parseLedgerDocument num contentSha256 raw = .ok (l, dirty)) :
    onDisk num contentSha256 (.document raw) = some l := by
  rw [onDisk, h]
  rfl

lemma empty_lasts : Contents.empty.Lasts num := ⟨List.nodup_nil, fun _ hm => absurd hm List.not_mem_nil⟩

/-- What a load came to. -/
structure Loaded (num : Numbers) (contentSha256 : String → Hex64) (st : FileStore) (out : Except StoreError Unit × FileStore) :
    Prop where
  disk : onDisk num contentSha256 out.2.disk = onDisk num contentSha256 st.disk
  returned : ∀ u, out.1 = .ok u → out.2.loaded = true ∧ Held num contentSha256 out.2
  raised : ∀ e, out.1 = .error e → out.2.loaded = false ∧ out.2.disk ≠ .missing ∧ Agrees num contentSha256 out.2

lemma load_loaded {st : FileStore} (h : Inv num contentSha256 st) (hloaded : st.loaded = false) (saves : Bool) :
    Loaded num contentSha256 st (load num contentSha256 saves st) := by
  obtain ⟨disk, contents, loaded⟩ := st
  obtain rfl : loaded = false := hloaded
  cases disk with
  | missing =>
    obtain rfl : contents = .empty := h.fresh rfl rfl
    exact ⟨rfl, fun _ _ => ⟨rfl, empty_lasts, .empty, rfl, .refl _⟩, fun e he => absurd he (by simp [load])⟩
  | unreadable =>
    exact ⟨rfl, fun _ hu => absurd hu (by simp [load]), fun e _ => ⟨rfl, by simp [load], fun l hl => absurd hl (by
      simp [load, onDisk])⟩⟩
  | document raw =>
    cases hparsed : parseLedgerDocument num contentSha256 raw with
    | error e =>
      simp only [load, hparsed]
      refine ⟨rfl, fun _ hu => absurd hu (by simp), fun e _ => ⟨rfl, by simp, fun l hl => absurd hl ?_⟩⟩
      simp [onDisk, hparsed, Except.toOption]
    | ok out =>
      obtain ⟨read, dirty⟩ := out
      have hon := onDisk_parsed hparsed
      have hlasts := parse_lasts hparsed
      simp only [load, hparsed]
      split_ifs with hdirty hsaves
      · exact ⟨rfl, fun _ _ => ⟨rfl, hlasts, read, hon, .refl _⟩, fun e he => absurd he (by simp)⟩
      · exact ⟨(onDisk_saved hlasts).trans hon.symm, fun _ _ => ⟨rfl, hlasts, read, onDisk_saved hlasts, .refl _⟩,
          fun e he => absurd he (by simp)⟩
      · refine ⟨rfl, fun _ hu => absurd hu (by simp), fun e _ => ⟨rfl, by simp, fun l hl => ?_⟩⟩
        rw [hon] at hl
        rw [← Option.some.inj hl]
        exact .refl _

/-- What a call on a loaded store came to. -/
structure Called (num : Numbers) (contentSha256 : String → Hex64) (st : FileStore)
    (out : Except StoreError StoreAnswer × FileStore) : Prop where
  loaded : out.2.loaded = true
  held : Held num contentSha256 out.2
  raised : ∀ e, out.1 = .error e → out.2.disk = st.disk ∧ out.2.contents.Same st.contents
  returned : ∀ a, out.1 = .ok a → a.Holds out.2.contents

/-- A call that leaves the map of records and the file as they are. -/
lemma finish_kept {st : FileStore} (hloaded : st.loaded = true) (h : Held num contentSha256 st)
    {answer : Except StoreError StoreAnswer} {memories : List (MemoryRecord String)}
    (hlasts : (Contents.mk st.contents.board memories).Lasts num)
    (hsame : (Contents.mk st.contents.board memories).Same st.contents)
    (hanswer : ∀ a, answer = .ok a → a.Holds st.contents) : Called num contentSha256 st (finish num st false answer memories) := by
  obtain ⟨l, hl, hst⟩ := h.disk
  exact ⟨hloaded, ⟨hlasts, l, hl, hsame.trans hst⟩, fun _ _ => ⟨rfl, hsame⟩, fun a ha => (hanswer a ha).congr hsame.symm⟩

/-- A call that replaces the file. -/
lemma finish_replaced {st : FileStore} (hloaded : st.loaded = true) {answer : StoreAnswer}
    {memories : List (MemoryRecord String)} (hlasts : (Contents.mk st.contents.board memories).Lasts num)
    (hanswer : answer.Holds ⟨st.contents.board, memories⟩) :
    Called num contentSha256 st (finish num st true (.ok answer) memories) :=
  ⟨hloaded, ⟨hlasts, _, onDisk_saved hlasts, .refl _⟩, fun _ he => absurd he (by simp [finish]), fun a ha => by
    rw [← Except.ok.inj ha]
    exact hanswer⟩

section Calls

open JarvisStore KeyedTable

variable {Hash : Type} {hash : String → Hash}

/-- A create is refused, or is saved, or puts back what the failed save had changed. -/
lemma createMemory_cases (sur : Surroundings) (resolve : Resolver) (memories : List (MemoryRecord Hash))
    (data : MemoryCreate) :
    (∃ e, createMemory hash sur resolve memories data = (.error e, memories)) ∨
    (sur.saves = true ∧ createMemory hash sur resolve memories data =
      (.ok (created hash sur data), upsert MemoryRecord.id (created hash sur data) memories)) ∨
    ∃ e, sur.saves = false ∧ createMemory hash sur resolve memories data =
      (.error e, remove MemoryRecord.id sur.drawnId (upsert MemoryRecord.id (created hash sur data) memories)) := by
  unfold createMemory
  cases checkCreate sur resolve memories data with
  | error e => exact .inl ⟨e, rfl⟩
  | ok u =>
    cases hsaves : sur.saves with
    | true => exact .inr (.inl ⟨rfl, rfl⟩)
    | false => exact .inr (.inr ⟨_, rfl, rfl⟩)

/-- An update is refused or changes nothing, or is saved. -/
lemma updateMemory_cases (sur : Surroundings) (resolve : Resolver) (memories : List (MemoryRecord Hash)) (id : String)
    (data : MemoryUpdate) :
    (∃ e, updateMemory hash sur resolve memories id data = (.error e, memories)) ∨
    (JarvisStore.get memories id = none ∧ updateMemory hash sur resolve memories id data = (.ok none, memories)) ∨
    ∃ existing, JarvisStore.get memories id = some existing ∧ updateMemory hash sur resolve memories id data =
      (.ok (some (updated hash sur existing data)), replace MemoryRecord.id (updated hash sur existing data) memories) := by
  unfold updateMemory
  cases hget : JarvisStore.get memories id with
  | none => exact .inr (.inl ⟨rfl, rfl⟩)
  | some existing =>
    dsimp only
    cases checkUpdate sur.gate resolve existing data >>= fun _ => checkSupersedes memories data.supersedes with
    | error e => exact .inl ⟨e, rfl⟩
    | ok u =>
      cases hsaves : sur.saves with
      | true => exact .inr (.inr ⟨existing, rfl, rfl⟩)
      | false => exact .inl ⟨_, rfl⟩

/-- A delete finds nothing, or is saved, or puts the record back behind the others. -/
lemma deleteMemory_cases (sur : Surroundings) (memories : List (MemoryRecord Hash)) (id : String) :
    (JarvisStore.get memories id = none ∧ deleteMemory sur memories id = (.ok false, memories)) ∨
    deleteMemory sur memories id = (.ok true, remove MemoryRecord.id id memories) ∨
    ∃ removed e, JarvisStore.get memories id = some removed ∧
      deleteMemory sur memories id = (.error e, remove MemoryRecord.id id memories ++ [removed]) := by
  unfold deleteMemory
  cases hget : JarvisStore.get memories id with
  | none => exact .inl ⟨rfl, rfl⟩
  | some removed =>
    cases hsaves : sur.saves with
    | true => exact .inr (.inl rfl)
    | false => exact .inr (.inr ⟨removed, _, rfl, rfl⟩)

end Calls

lemma created_lasting {sur : JarvisStore.Surroundings} {data : MemoryCreate} (hv : data.Valid num)
    (hdrawn : sur.drawnId ≠ "") : Lasting num (JarvisStore.created (contentHash contentSha256) sur data) :=
  ⟨hdrawn, hv.sourceAgent, hv.sessionId, hex_ne_empty _, le_refl 1, hv.float, hv.confidence⟩

lemma getD_property {A : Type} {P : A → Prop} {o : Option A} {a : A} (h : ∀ x ∈ o, P x) (ha : P a) : P (o.getD a) := by
  cases o with
  | none => exact ha
  | some x => exact h x rfl

lemma updated_lasting {sur : JarvisStore.Surroundings} {existing : MemoryRecord String} (h : Lasting num existing)
    {data : MemoryUpdate} (hv : data.Valid num) :
    Lasting num (JarvisStore.updated (contentHash contentSha256) sur existing data) where
  id := h.id
  sourceAgent := getD_property hv.sourceAgent h.sourceAgent
  sessionId := getD_property hv.sessionId h.sessionId
  contentSha256 := by
    refine getD_property (P := fun s => s ≠ "") (fun s hs => ?_) h.contentSha256
    obtain ⟨content, -, rfl⟩ := Option.map_eq_some_iff.mp hs
    exact hex_ne_empty _
  version := h.version.trans (by simp [JarvisStore.updated])
  float := getD_property hv.float h.float
  confidence := getD_property hv.confidence h.confidence

lemma create_called {st : FileStore} (hloaded : st.loaded = true) (h : Held num contentSha256 st)
    {sur : JarvisStore.Surroundings} (resolve : Resolver) {data : MemoryCreate} (hv : data.Valid num)
    (hdrawn : sur.drawnId ≠ "") (hfresh : sur.saves = false → st.contents.get sur.drawnId = none) :
    Called num contentSha256 st (create num contentSha256 sur resolve data st) := by
  have hlasting : Lasting num (JarvisStore.created (contentHash contentSha256) sur data) := created_lasting hv hdrawn
  have hids := h.lasts.ids
  unfold create
  obtain ⟨e, heq⟩ | ⟨-, heq⟩ | ⟨e, hsaves, heq⟩ :=
    @createMemory_cases _ (contentHash contentSha256) sur resolve st.contents.memories data
  · rw [heq]
    exact finish_kept hloaded h h.lasts (.refl _) fun a ha => absurd ha (by simp)
  · rw [heq]
    refine finish_replaced hloaded ⟨KeyedTable.nodup_upsert _ hids _, fun m hm => ?_⟩ ?_
    · rcases KeyedTable.mem_upsert _ hm with rfl | hm
      · exact hlasting
      · exact h.lasts.lasting m hm
    · exact (KeyedTable.row_upsert _ _ _ _).trans (if_pos rfl)
  · have hmemories : KeyedTable.remove MemoryRecord.id sur.drawnId (KeyedTable.upsert MemoryRecord.id
        (JarvisStore.created (contentHash contentSha256) sur data) st.contents.memories) = st.contents.memories :=
      @KeyedTable.remove_upsert _ _ _ MemoryRecord.id _ (JarvisStore.created (contentHash contentSha256) sur data)
        (hfresh hsaves)
    rw [heq, hmemories]
    exact finish_kept hloaded h h.lasts (.refl _) fun a ha => absurd ha (by simp)

lemma update_called {st : FileStore} (hloaded : st.loaded = true) (h : Held num contentSha256 st)
    (sur : JarvisStore.Surroundings) (resolve : Resolver) (id : String) {data : MemoryUpdate} (hv : data.Valid num) :
    Called num contentSha256 st (update num contentSha256 sur resolve id data st) := by
  unfold update
  obtain ⟨e, heq⟩ | ⟨hnone, heq⟩ | ⟨existing, hget, heq⟩ :=
    @updateMemory_cases _ (contentHash contentSha256) sur resolve st.contents.memories id data
  · rw [heq]
    exact finish_kept hloaded h h.lasts (.refl _) fun a ha => absurd ha (by simp)
  · rw [heq]
    refine finish_kept hloaded h h.lasts (.refl _) fun a ha => ?_
    rw [← Except.ok.inj ha]
    exact hnone
  · have hlasting : Lasting num (JarvisStore.updated (contentHash contentSha256) sur existing data) :=
      updated_lasting (h.lasts.lasting existing (KeyedTable.row_mem hget)) hv
    have hid : existing.id = id := KeyedTable.row_key hget
    rw [heq]
    refine finish_replaced hloaded ⟨?_, fun m hm => ?_⟩ ?_
    · simpa only [KeyedTable.keys_replace] using h.lasts.ids
    · obtain ⟨n, hn, rfl⟩ := List.mem_map.mp hm
      split_ifs
      · exact hlasting
      · exact h.lasts.lasting n hn
    · refine (KeyedTable.row_replace _ _ _ _).trans ?_
      rw [if_pos rfl]
      exact congrArg (Option.map _) (hid ▸ hget)

lemma delete_called {st : FileStore} (hloaded : st.loaded = true) (h : Held num contentSha256 st)
    (sur : JarvisStore.Surroundings) (id : String) :
    Called num contentSha256 st (delete num sur id st) := by
  have hgone : (Contents.mk st.contents.board (KeyedTable.remove MemoryRecord.id id st.contents.memories)).get id = none :=
    (KeyedTable.row_remove _ _ _ _).trans (if_pos rfl)
  have hlasting : ∀ m ∈ KeyedTable.remove MemoryRecord.id id st.contents.memories, Lasting num m :=
    fun m hm => h.lasts.lasting m (List.mem_filter.mp hm).1
  unfold delete
  obtain ⟨hnone, heq⟩ | heq | ⟨removed, e, hget, heq⟩ := deleteMemory_cases sur st.contents.memories id
  · rw [heq]
    refine finish_kept hloaded h h.lasts (.refl _) fun a ha => ?_
    rw [← Except.ok.inj ha]
    exact hnone
  · rw [heq]
    exact finish_replaced hloaded ⟨KeyedTable.nodup_remove _ h.lasts.ids _, hlasting⟩ hgone
  · have hid : removed.id = id := KeyedTable.row_key hget
    rw [heq]
    refine finish_kept hloaded h ⟨?_, fun m hm => ?_⟩ ⟨rfl, fun j => ?_⟩ fun a ha => absurd ha (by simp)
    · exact KeyedTable.nodup_append_singleton _ (KeyedTable.nodup_remove _ h.lasts.ids _) (by rw [hid]; exact hgone)
    · rcases List.mem_append.mp hm with hm | hm
      · exact hlasting m hm
      · rw [List.mem_singleton.mp hm]
        exact h.lasts.lasting removed (KeyedTable.row_mem hget)
    · refine (KeyedTable.row_append_singleton _ _ _ _).trans ?_
      rw [KeyedTable.row_remove, hid]
      split_ifs with hj hj' hj'
      · rw [hj, Option.none_or]
        exact hget.symm
      · exact absurd hj.symm hj'
      · exact absurd hj'.symm hj
      · exact Option.or_none

lemma swapBoard_called {st : FileStore} (hloaded : st.loaded = true) (h : Held num contentSha256 st) (saves : Bool)
    (board : MemoryBoard) : Called num contentSha256 st (swapBoard num saves board st) := by
  have hlasts : (Contents.mk board st.contents.memories).Lasts num := ⟨h.lasts.ids, h.lasts.lasting⟩
  unfold swapBoard
  split_ifs
  · refine ⟨hloaded, ⟨hlasts, _, onDisk_saved hlasts, .refl _⟩, fun e he => absurd he (by simp), fun a ha => ?_⟩
    rw [← Except.ok.inj ha]
    rfl
  · exact ⟨hloaded, h, fun _ _ => ⟨rfl, .refl _⟩, fun a ha => absurd ha (by simp)⟩

lemma patchBoard_called {st : FileStore} (hloaded : st.loaded = true) (h : Held num contentSha256 st) (saves : Bool)
    (updates : Members) : Called num contentSha256 st (patchBoard num saves updates st) := by
  unfold patchBoard
  cases readBoard (patched updates st.contents.board) with
  | none => exact ⟨hloaded, h, fun _ _ => ⟨rfl, .refl _⟩, fun a ha => absurd ha (by simp)⟩
  | some board => exact swapBoard_called hloaded h saves board

/-- A create whose save fails has not drawn the id of a record that is in the file. -/
def Spares (num : Numbers) (contentSha256 : String → Hex64) (st : FileStore) : StoreCall num → Prop
  | .create sur _ _ _ _ => sur.saves = false → ∀ l, onDisk num contentSha256 st.disk = some l → l.get sur.drawnId = none
  | _ => True

lemma call_called {st : FileStore} (hloaded : st.loaded = true) (h : Held num contentSha256 st) {c : StoreCall num}
    (hspares : Spares num contentSha256 st c) : Called num contentSha256 st (call num contentSha256 c st) := by
  cases c with
  | create sur resolve data valid drawn =>
    refine create_called hloaded h resolve valid drawn fun hsaves => ?_
    obtain ⟨l, hl, hsame⟩ := h.disk
    rw [hsame.records]
    exact hspares hsaves l hl
  | update sur resolve id data valid => exact update_called hloaded h sur resolve id valid
  | delete sur id => exact delete_called hloaded h sur id
  | setBoard saves board => exact swapBoard_called hloaded h saves board
  | patchBoard saves updates => exact patchBoard_called hloaded h saves updates

/-- What the claim asks of a call: memory and file agree behind it, one that raises has changed neither, and what one
returns is so in the file. -/
structure Atomic (num : Numbers) (contentSha256 : String → Hex64) (st : FileStore)
    (out : Except StoreError StoreAnswer × FileStore) : Prop where
  agrees : Agrees num contentSha256 out.2
  raised : ∀ e, out.1 = .error e → onDisk num contentSha256 out.2.disk = onDisk num contentSha256 st.disk ∧
    (st.loaded = true → out.2.contents.Same st.contents)
  returned : ∀ a, out.1 = .ok a → ∃ l, onDisk num contentSha256 out.2.disk = some l ∧ a.Holds l

lemma called_atomic {before st : FileStore} (hdisk : onDisk num contentSha256 st.disk = onDisk num contentSha256 before.disk)
    (hsame : before.loaded = true → st = before) {out : Except StoreError StoreAnswer × FileStore}
    (h : Called num contentSha256 st out) : Inv num contentSha256 out.2 ∧ Atomic num contentSha256 before out := by
  refine ⟨⟨fun _ => h.held, fun hnot => absurd h.loaded (by simp [hnot])⟩, h.held.agrees, fun e he => ?_, fun a ha => ?_⟩
  · obtain ⟨hout, hcontents⟩ := h.raised e he
    rw [hout]
    exact ⟨hdisk, fun hloaded => hsame hloaded ▸ hcontents⟩
  · obtain ⟨l, hl, hmemory⟩ := h.held.disk
    exact ⟨l, hl, (h.returned a ha).congr hmemory⟩

lemma step_atomic {st : FileStore} (h : Inv num contentSha256 st) (migrationSaves : Bool) {c : StoreCall num}
    (hspares : Spares num contentSha256 st c) : Inv num contentSha256 (step num contentSha256 migrationSaves c st).2 ∧
      Atomic num contentSha256 st (step num contentSha256 migrationSaves c st) := by
  unfold step ensureLoaded
  cases hloaded : st.loaded with
  | true => exact called_atomic rfl (fun _ => rfl) (call_called hloaded (h.held hloaded) hspares)
  | false =>
    have hload := load_loaded h hloaded migrationSaves
    rw [if_neg Bool.false_ne_true]
    generalize load num contentSha256 migrationSaves st = out at hload ⊢
    obtain ⟨answer, after⟩ := out
    cases answer with
    | error e =>
      obtain ⟨hnot, hmissing, hagrees⟩ := hload.raised e rfl
      refine ⟨⟨fun hl => absurd (hnot.symm.trans hl) Bool.false_ne_true, fun _ hm => absurd hm hmissing⟩, hagrees, fun _ _ => ⟨hload.disk, ?_⟩,
        fun a ha => absurd ha (by simp)⟩
      intro hl
      exact absurd hl (by simp [hloaded])
    | ok u =>
      obtain ⟨hafter, hheld⟩ := hload.returned u rfl
      refine called_atomic hload.disk (fun hl => absurd hl (by simp [hloaded])) (call_called hafter hheld ?_)
      cases c with
      | create sur resolve data valid drawn =>
        intro hsaves l hl
        exact hspares hsaves l (hload.disk ▸ hl)
      | _ => trivial

/-- Every call of the run spares what is in the file. -/
def SparesAll (num : Numbers) (contentSha256 : String → Hex64) : FileStore → List (Bool × StoreCall num) → Prop
  | _, [] => True
  | st, c :: calls => Spares num contentSha256 st c.2 ∧ SparesAll num contentSha256 (step num contentSha256 c.1 c.2 st).2 calls

lemma run_inv {st : FileStore} (h : Inv num contentSha256 st) {calls more : List (Bool × StoreCall num)}
    (hspares : SparesAll num contentSha256 st (calls ++ more)) : Inv num contentSha256 (run num contentSha256 st calls) ∧
      SparesAll num contentSha256 (run num contentSha256 st calls) more := by
  induction calls generalizing st with
  | nil => exact ⟨h, hspares⟩
  | cons c calls ih => exact ih (step_atomic h c.1 hspares.1).1 hspares.2

lemma start_inv (disk : Disk) : Inv num contentSha256 (start disk) :=
  ⟨fun h => absurd h (by simp [start]), fun _ _ => rfl⟩

/-- In a run whose calls spare what is in the file, every call is atomic. -/
theorem calls_atomic (num : Numbers) (contentSha256 : String → Hex64) (disk : Disk) (calls : List (Bool × StoreCall num))
    (migrationSaves : Bool) (c : StoreCall num)
    (h : SparesAll num contentSha256 (start disk) (calls ++ [(migrationSaves, c)])) :
    Atomic num contentSha256 (run num contentSha256 (start disk) calls)
      (step num contentSha256 migrationSaves c (run num contentSha256 (start disk) calls)) := by
  obtain ⟨hinv, hspares⟩ := run_inv (start_inv disk) h
  exact (step_atomic hinv migrationSaves hspares.1).2

def logDisk : Disk := .document (oneRecord [jsonText "log.txt"])

lemma onDisk_logDisk : onDisk wholeNumbers sha256Hex logDisk = some (readContents [logLink]) := onDisk_parsed parse_logLink

/-- Surroundings in which a save fails. -/
def failing (drawnId : String) : JarvisStore.Surroundings :=
  ⟨⟨none, none, fun _ _ _ => []⟩, drawnId, "2026-01-03T00:00:00+00:00", false⟩

def nothingResolved : Resolver := fun _ => .ok none

def portPlan : MemoryCreate :=
  ⟨"the port moves to 9090", "agent", "session", .decision, ⟨1, 0⟩, [logLink], none, .draft, none, []⟩

lemma portPlan_valid : portPlan.Valid wholeNumbers := ⟨by decide, by decide, ⟨.int 1, rfl⟩, rfl⟩

lemma drawnId_ne : (failing "mem-1").drawnId ≠ "" := by decide

lemma drawnId_ne' : (failing "mem-2").drawnId ≠ "" := by decide

def drawnTwice : StoreCall wholeNumbers := .create (failing "mem-1") nothingResolved portPlan portPlan_valid drawnId_ne

theorem calls_atomic_unsaved : Atomic wholeNumbers sha256Hex (start logDisk) (step wholeNumbers sha256Hex true
    (.create (failing "mem-2") nothingResolved portPlan portPlan_valid drawnId_ne') (start logDisk)) := by
  refine calls_atomic wholeNumbers sha256Hex logDisk [] true _ ⟨fun _ l hl => ?_, trivial⟩
  have hread : l = readContents [logLink] := Option.some.inj (hl.symm.trans onDisk_logDisk)
  rw [hread]
  rfl

lemma drawnTwice_forgets :
    (step wholeNumbers sha256Hex true drawnTwice (start logDisk)).2 = ⟨logDisk, ⟨.default, []⟩, true⟩ := by rfl

/-- The record whose id was drawn again is gone from memory, and still in the file. -/
theorem drawnTwice_not_atomic : ¬ Atomic wholeNumbers sha256Hex (start logDisk)
    (step wholeNumbers sha256Hex true drawnTwice (start logDisk)) := by
  intro h
  have hagrees := h.agrees
  rw [drawnTwice_forgets] at hagrees
  have hrecord := (hagrees _ onDisk_logDisk).records "mem-1"
  exact absurd hrecord (by simp [Contents.get, readContents, KeyedTable.row])

end FileStore

end ContinuityLedger.Records
