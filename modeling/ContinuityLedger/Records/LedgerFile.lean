import ContinuityLedger.Records.Admission
import ContinuityLedger.Records.DocumentLaws

/-! The JSON store with its file: the load at the first call, which may save a migration, and the calls, each of which
replaces the file as a whole or leaves it as it was. A property of single records that every call keeps holds of every record
that the file store ever has. -/

namespace ContinuityLedger.Records.JarvisStore

open Foundations Foundations.Sha256 Ledger Evidence

variable {rt : Runtime} {contentSha256 : String → Hex64} {Hash : Type} {hash : String → Hash}

lemma createMemory_mem {sur : Surroundings} {resolve : Resolver} {memories : List (MemoryRecord Hash)}
    {data : MemoryCreate} {m : MemoryRecord Hash} (hm : m ∈ (createMemory hash sur resolve memories data).2) :
    m = created hash sur data ∨ m ∈ memories := by
  unfold createMemory at hm
  cases hc : checkCreate sur resolve memories data with
  | error e =>
    rw [hc] at hm
    exact .inr hm
  | ok u =>
    rw [hc] at hm
    dsimp only at hm
    split_ifs at hm
    · exact KeyedTable.mem_upsert _ hm
    · exact KeyedTable.mem_upsert _ (List.mem_filter.mp hm).1

lemma updateMemory_mem {sur : Surroundings} {resolve : Resolver} {memories : List (MemoryRecord Hash)} {id : String}
    {data : MemoryUpdate} {m : MemoryRecord Hash} (hm : m ∈ (updateMemory hash sur resolve memories id data).2) :
    (∃ existing ∈ memories, m = updated hash sur existing data) ∨ m ∈ memories := by
  unfold updateMemory at hm
  cases hget : get memories id with
  | none =>
    rw [hget] at hm
    exact .inr hm
  | some existing =>
    cases hc : checkUpdate sur.gate resolve existing data >>= fun _ => checkSupersedes memories data.supersedes with
    | error e =>
      simp only [hget, hc] at hm
      exact .inr hm
    | ok u =>
      simp only [hget, hc] at hm
      split_ifs at hm
      · obtain ⟨n, hn, rfl⟩ := List.mem_map.mp hm
        split_ifs
        · exact .inl ⟨existing, KeyedTable.row_mem hget, rfl⟩
        · exact .inr hn
      · exact .inr hm

lemma deleteMemory_mem {sur : Surroundings} {memories : List (MemoryRecord Hash)} {id : String} {m : MemoryRecord Hash}
    (hm : m ∈ (deleteMemory sur memories id).2) : m ∈ memories := by
  unfold deleteMemory at hm
  cases hget : get memories id with
  | none =>
    rw [hget] at hm
    exact hm
  | some removed =>
    simp only [hget] at hm
    split_ifs at hm
    · exact (List.mem_filter.mp hm).1
    · rcases List.mem_append.mp hm with hm | hm
      · exact (List.mem_filter.mp hm).1
      · exact List.mem_singleton.mp hm ▸ KeyedTable.row_mem hget

def Op.surroundings : Op → Option Surroundings
  | .create sur _ => some sur
  | .update sur _ _ => some sur
  | .delete sur _ => some sur
  | .putEvidence _ _ => none

/-- What a call in these surroundings makes of records with the property has it too. -/
structure Stable (contentSha256 : String → Hex64) (P : MemoryRecord → Prop) (sur : Surroundings) : Prop where
  created : ∀ data, P (created contentSha256 sur data)
  updated : ∀ existing data, P existing → P (updated contentSha256 sur existing data)

variable {P : MemoryRecord → Prop}

lemma step_holds {st : State} (h : ∀ m ∈ st.memories, P m) {op : Op}
    (hop : ∀ sur ∈ op.surroundings, Stable contentSha256 P sur) : ∀ m ∈ (step rt contentSha256 st op).memories, P m := by
  intro m hm
  cases op with
  | create sur data =>
    rcases createMemory_mem hm with rfl | hm
    · exact (hop sur rfl).created data
    · exact h m hm
  | update sur id data =>
    rcases updateMemory_mem hm with ⟨existing, hexisting, rfl⟩ | hm
    · exact (hop sur rfl).updated existing data (h existing hexisting)
    · exact h m hm
  | delete sur id => exact h m (deleteMemory_mem hm)
  | putEvidence now req =>
    rw [step] at hm
    cases hput : putEvidenceObject rt now st.objects req with
    | error e =>
      rw [hput] at hm
      exact h m hm
    | ok r =>
      rw [hput] at hm
      exact h m hm

lemma run_holds {st : State} (h : ∀ m ∈ st.memories, P m) {ops : List Op}
    (hops : ∀ op ∈ ops, ∀ sur ∈ op.surroundings, Stable contentSha256 P sur) :
    ∀ m ∈ (run rt contentSha256 st ops).memories, P m := by
  unfold run
  induction ops generalizing st with
  | nil => exact h
  | cons op ops ih =>
    exact ih (step_holds h (hops op List.mem_cons_self)) fun o ho => hops o (List.mem_cons_of_mem _ ho)

end ContinuityLedger.Records.JarvisStore

namespace ContinuityLedger.Records

open Foundations Foundations.Sha256 Ledger Evidence Codec

/-- What is at the store's path. -/
inductive Disk
  | missing
  | unreadable
  | document (raw : Members)

/-- The file, and what the store has of it in memory. -/
structure FileStore where
  disk : Disk
  contents : Contents
  loaded : Bool

def FileStore.start (disk : Disk) : FileStore := ⟨disk, .empty, false⟩

structure MemoryCreate.Valid (num : Numbers) (data : MemoryCreate) : Prop where
  sourceAgent : data.sourceAgent ≠ ""
  sessionId : data.sessionId ≠ ""
  float : ∃ j, num.float j = some data.confidence
  confidence : unitInterval data.confidence = true

structure MemoryUpdate.Valid (num : Numbers) (data : MemoryUpdate) : Prop where
  sourceAgent : ∀ s ∈ data.sourceAgent, s ≠ ""
  sessionId : ∀ s ∈ data.sessionId, s ≠ ""
  float : ∀ c ∈ data.confidence, ∃ j, num.float j = some c
  confidence : ∀ c ∈ data.confidence, unitInterval c = true

/-- The calls that change the ledger, with requests that the models have validated. -/
inductive StoreCall (num : Numbers)
  | create (sur : JarvisStore.Surroundings) (resolve : Resolver) (data : MemoryCreate) (valid : data.Valid num)
      (drawn : sur.drawnId ≠ "")
  | update (sur : JarvisStore.Surroundings) (resolve : Resolver) (id : String) (data : MemoryUpdate)
      (valid : data.Valid num)
  | delete (sur : JarvisStore.Surroundings) (id : String)
  | setBoard (saves : Bool) (board : MemoryBoard)
  | patchBoard (saves : Bool) (updates : Members)

inductive StoreAnswer
  | record (m : MemoryRecord String)
  | unknown (id : String)
  | deleted (id : String) (found : Bool)
  | board (b : MemoryBoard)

namespace FileStore

variable (num : Numbers) (contentSha256 : String → Hex64)

def contentHash (s : String) : String := (contentSha256 s).text

def saveFailed : StoreError := .unavailable "the ledger could not be saved"

/-- `os.replace` has taken place. -/
def replaced (st : FileStore) (contents : Contents) : FileStore :=
  { st with
    disk := .document (saved num contents)
    contents := contents }

/-- `_load`; `saves` is whether the save of a migration would work. -/
def load (saves : Bool) (st : FileStore) : Except StoreError Unit × FileStore :=
  match st.disk with
  | .missing => (.ok (), { st with loaded := true })
  | .unreadable => (.error (.unavailable "the ledger file cannot be read"), st)
  | .document raw =>
    match parseLedgerDocument num contentSha256 raw with
    | .error _ => (.error (.unavailable "the ledger is not valid"), { st with contents := .empty })
    | .ok (contents, dirty) =>
      if !dirty then (.ok (), ⟨st.disk, contents, true⟩)
      else if saves then (.ok (), ⟨.document (saved num contents), contents, true⟩)
      else (.error saveFailed, { st with contents := contents })

def ensureLoaded (saves : Bool) (st : FileStore) : Except StoreError Unit × FileStore :=
  if st.loaded then (.ok (), st) else load num contentSha256 saves st

/-- What a call on the records came to, with the file replaced where it saved. -/
def finish (st : FileStore) (wrote : Bool) (answer : Except StoreError StoreAnswer)
    (memories : List (MemoryRecord String)) : Except StoreError StoreAnswer × FileStore :=
  let contents := { st.contents with memories := memories }
  (answer, if wrote then replaced num st contents else { st with contents := contents })

def create (sur : JarvisStore.Surroundings) (resolve : Resolver) (data : MemoryCreate) (st : FileStore) :
    Except StoreError StoreAnswer × FileStore :=
  let (result, memories) := JarvisStore.createMemory (contentHash contentSha256) sur resolve st.contents.memories data
  match result with
  | .error e => finish num st false (.error e) memories
  | .ok m => finish num st true (.ok (.record m)) memories

def update (sur : JarvisStore.Surroundings) (resolve : Resolver) (id : String) (data : MemoryUpdate) (st : FileStore) :
    Except StoreError StoreAnswer × FileStore :=
  let (result, memories) := JarvisStore.updateMemory (contentHash contentSha256) sur resolve st.contents.memories id data
  match result with
  | .error e => finish num st false (.error e) memories
  | .ok none => finish num st false (.ok (.unknown id)) memories
  | .ok (some m) => finish num st true (.ok (.record m)) memories

def delete (sur : JarvisStore.Surroundings) (id : String) (st : FileStore) :
    Except StoreError StoreAnswer × FileStore :=
  let (result, memories) := JarvisStore.deleteMemory sur st.contents.memories id
  match result with
  | .error e => finish num st false (.error e) memories
  | .ok false => finish num st false (.ok (.deleted id false)) memories
  | .ok true => finish num st true (.ok (.deleted id true)) memories

/-- `_swap_board`. -/
def swapBoard (saves : Bool) (board : MemoryBoard) (st : FileStore) : Except StoreError StoreAnswer × FileStore :=
  if saves then (.ok (.board board), replaced num st { st.contents with board := board }) else (.error saveFailed, st)

/-- The board's fields with those of the updates that are not null. -/
def patched (updates : Members) (board : MemoryBoard) : Members :=
  updates.foldl (fun current p =>
    match p.2 with
    | .null => current
    | j => Dict.set current p.1 j) (writeBoard board)

def patchBoard (saves : Bool) (updates : Members) (st : FileStore) : Except StoreError StoreAnswer × FileStore :=
  match readBoard (patched updates st.contents.board) with
  | none => (.error (.value "the board is not valid"), st)
  | some board => swapBoard num saves board st

def call : StoreCall num → FileStore → Except StoreError StoreAnswer × FileStore
  | .create sur resolve data _ _ => create num contentSha256 sur resolve data
  | .update sur resolve id data _ => update num contentSha256 sur resolve id data
  | .delete sur id => delete num sur id
  | .setBoard saves board => swapBoard num saves board
  | .patchBoard saves updates => patchBoard num saves updates

/-- A call under the lock; `migrationSaves` is whether a save inside the load would work. -/
def step (migrationSaves : Bool) (c : StoreCall num) (st : FileStore) : Except StoreError StoreAnswer × FileStore :=
  match ensureLoaded num contentSha256 migrationSaves st with
  | (.error e, st) => (.error e, st)
  | (.ok _, st) => call num contentSha256 c st

def run (st : FileStore) (calls : List (Bool × StoreCall num)) : FileStore :=
  calls.foldl (fun st c => (step num contentSha256 c.1 c.2 st).2) st

end FileStore

end ContinuityLedger.Records
