import ContinuityLedger.Foundations.Checks
import ContinuityLedger.Signatures.Signer

/-! What the signer signs, set against the raw ledger: the offline check binds the newest planned block, and nothing
binds the others or the tip. -/

namespace ContinuityLedger.Signatures

open Foundations Foundations.Sha256

/-- The ledger's raw rows: the hash of the block at a height, and the blocks that verify. -/
structure RawLedger where
  blockHash : ℤ → Option String
  verifies : ℤ → Prop

/-- The offline check accepts only the raw ledger's own block, above blocks that verify. -/
def Host.ChecksRaw (host : Host) (raw : RawLedger) : Prop :=
  ∀ height h, host.verifyBlock height h = .ok () →
    raw.blockHash height = some h ∧ ∀ k, 1 ≤ k → k < height → raw.verifies k

/-- A block message is built from the raw ledger's hash at its height, and a checkpoint's tip is a raw block. -/
def SignsRaw (raw : RawLedger) : Message → Prop
  | .block height h text => raw.blockHash height = some h ∧ ∃ tenant seq prev signedAt,
      attestationMessage "block" tenant ("block:" ++ toString height) h seq prev signedAt = .ok text
  | .receipt .. => True
  | .checkpoint seq head height h text => raw.blockHash height = some h ∧ ∃ tenant own next prev signedAt,
      attestationMessage "checkpoint" tenant (checkpointSubject seq head height h) own next prev signedAt = .ok text

/-- The service's own answers agree with the raw ledger: for each pending block below the newest, and for the tip. -/
def Service.Agrees (service : Service) (raw : RawLedger) : Prop :=
  (∀ p, service.pending = .body p → ∀ i b, i + 1 < p.blocks.length → service.block i = .body b →
    raw.blockHash b.height = some b.blockHash) ∧
  ∀ t, service.tip = .body t → raw.blockHash t.tipHeight = some t.tipBlockHash

section Plan

variable {host : Host} {service : Service} {tenant : String} {raw : RawLedger}

lemma get_body {α : Type} {path : String} {a : Answer α} {b : α} (h : a.get path = .ok b) : a = .body b := by
  cases a with
  | body c => exact congrArg Answer.body (Except.ok.inj h)
  | refused status detail => simp [Answer.get, Answer.request, bind, Except.bind] at h
  | malformed => simp [Answer.get, Answer.request, bind, Except.bind] at h
  | unreachable why => simp [Answer.get, Answer.request, bind, Except.bind] at h

lemma planBlock_eq {item : PendingBlock × ℕ} {p : PlannedBlock} (h : planBlock service tenant item = .ok p) :
    ∃ b, service.block item.2 = .body b ∧ p = ⟨b.height, b.blockHash⟩ := by
  obtain ⟨b, hg, h⟩ := Checks.bind_ok h
  obtain ⟨recomputed, -, h⟩ := Checks.bind_ok h
  split_ifs at h
  exact ⟨b, get_body hg, (Except.ok.inj h).symm⟩

/-- The plan holds the service's blocks, in the order of the pending heights. -/
lemma plan_getElem? {pending : List PendingBlock} {plan : List PlannedBlock}
    (h : (byPendingHeight pending).zipIdx.mapM (planBlock service tenant) = .ok plan) :
    plan.length = pending.length ∧
      ∀ i p, plan[i]? = some p → ∃ b, service.block i = .body b ∧ p = ⟨b.height, b.blockHash⟩ := by
  obtain ⟨hlen, hget⟩ := Checks.mapM_getElem? h
  refine ⟨by simpa [byPendingHeight] using hlen, fun i p hp => ?_⟩
  obtain ⟨item, hitem, hplan⟩ := hget i p hp
  obtain ⟨b, hb, rfl⟩ := planBlock_eq hplan
  rw [List.getElem?_zipIdx, Option.map_eq_some_iff] at hitem
  obtain ⟨x, -, rfl⟩ := hitem
  exact ⟨b, by simpa using hb, rfl⟩

/-- Every planned block but the last is what the service says; the last was checked. -/
lemma plan_raw (hcheck : host.ChecksRaw raw) {pending : PendingView} {plan : List PlannedBlock}
    (hp : service.pending = .body pending)
    (hplan : (byPendingHeight pending.blocks).zipIdx.mapM (planBlock service tenant) = .ok plan)
    (hnewest : verifyNewest host plan = .ok ()) (ha : service.Agrees raw) :
    ∀ p ∈ plan, raw.blockHash p.height = some p.blockHash := by
  obtain ⟨hlen, hget⟩ := plan_getElem? hplan
  intro p hmem
  obtain ⟨i, hi⟩ := List.mem_iff_getElem?.mp hmem
  obtain ⟨hlt, -⟩ := List.getElem?_eq_some_iff.mp hi
  by_cases hlast : i + 1 < plan.length
  · obtain ⟨b, hb, rfl⟩ := hget i p hi
    exact ha.1 pending hp i b (hlen ▸ hlast) hb
  · have hend : plan.getLast? = some p := by
      rw [List.getLast?_eq_getElem?, show plan.length - 1 = i by omega]
      exact hi
    simp only [verifyNewest, hend] at hnewest
    exact (hcheck _ _ hnewest).1

lemma authorizedPending_eq {pending : PendingView} (h : authorizedPending host service = .ok pending) :
    service.pending = .body pending := by
  obtain ⟨st, -, h⟩ := Checks.bind_ok h
  split_ifs at h
  cases hauth : st.authorization with
  | none => simp [hauth] at h
  | some auth =>
    cases hrev : auth.revokedAfterSignerSeq with
    | some cutoff => simp [hauth, hrev] at h
    | none =>
      simp only [hauth, hrev] at h
      obtain ⟨-, -, h⟩ := Checks.bind_ok h
      obtain ⟨p, hp, h⟩ := Checks.bind_ok h
      split_ifs at h
      obtain rfl := Except.ok.inj h
      exact get_body hp

lemma attestationText_eq {kind subject subjectHash text : String} {log : LogEnd} {i : ℕ}
    (h : attestationText host kind tenant subject subjectHash log i = .ok text) :
    attestationMessage kind tenant subject subjectHash log.seq log.prev (host.now i) = .ok text := by
  unfold attestationText at h
  cases hm : attestationMessage kind tenant subject subjectHash log.seq log.prev (host.now i) with
  | error e => simp [hm] at h
  | ok t =>
    simp only [hm, Except.ok.injEq] at h
    rw [h]

end Plan

section Messages

variable {host : Host} {service : Service} {tenant : String} {raw : RawLedger}

lemma signMessage_all {P : Message → Prop} {i : ℕ} {m : Message} {text : String} (h : P m) :
    (signMessage host i m text).All P :=
  Pass.all_bind (Pass.all_emit h) fun _ _ => Pass.all_ofExcept _

lemma signBlock_all {p : PlannedBlock} (hp : raw.blockHash p.height = some p.blockHash) (i : ℕ) (log : LogEnd) :
    (signBlock host service tenant p i log).All (SignsRaw raw) := by
  refine Pass.all_bind (Pass.all_ofExcept _) fun text htext => ?_
  refine Pass.all_bind (signMessage_all ⟨hp, _, _, _, _, attestationText_eq (Pass.ofExcept_ok htext)⟩) fun _ _ => ?_
  exact Pass.all_bind (Pass.all_ofExcept _) fun _ _ => Pass.all_pure _

lemma signBlocks_all {plan : List PlannedBlock} (hp : ∀ p ∈ plan, raw.blockHash p.height = some p.blockHash)
    (i : ℕ) (log : LogEnd) : (signBlocks host service tenant plan i log).All (SignsRaw raw) := by
  induction plan generalizing i log with
  | nil => exact Pass.all_pure _
  | cons p plan ih =>
    refine Pass.all_bind (signBlock_all (hp p (by simp)) i log) fun next _ => ?_
    exact Pass.all_bind (ih (fun q hq => hp q (by simp [hq])) (i + 1) next) fun _ _ => Pass.all_pure _

lemma signReceipt_all (id : String) (i j : ℕ) (log : LogEnd) :
    (signReceipt host service tenant id i j log).All (SignsRaw raw) := by
  refine Pass.all_bind (Pass.all_ofExcept _) fun text _ => ?_
  refine Pass.all_bind (signMessage_all trivial) fun _ _ => ?_
  exact Pass.all_bind (Pass.all_ofExcept _) fun _ _ => Pass.all_pure _

lemma signReceipts_all (plan : List String) (i j : ℕ) (log : LogEnd) :
    (signReceipts host service tenant plan i j log).All (SignsRaw raw) := by
  induction plan generalizing i j log with
  | nil => exact Pass.all_pure _
  | cons id plan ih =>
    unfold signReceipts
    cases host.verifyReceipt id with
    | ok u =>
      refine Pass.all_bind (signReceipt_all id i j log) fun next _ => ?_
      exact Pass.all_bind (ih (i + 1) (j + 1) next) fun _ _ => Pass.all_pure _
    | error e =>
      cases e with
      | signerError code message exitCode => exact Pass.all_bind (ih i j log) fun _ _ => Pass.all_pure _
      | raised e => exact Pass.all_ofExcept _
      | malformed => exact Pass.all_ofExcept _

lemma signCheckpoint_all (htip : ∀ t, service.tip = .body t → raw.blockHash t.tipHeight = some t.tipBlockHash)
    (i : ℕ) (log : LogEnd) : (signCheckpoint host service tenant i log).All (SignsRaw raw) := by
  refine Pass.all_bind (Pass.all_ofExcept _) fun tip ht => ?_
  refine Pass.all_bind (Pass.all_ofExcept _) fun text htext => ?_
  have hraw := htip tip (get_body (Pass.ofExcept_ok ht))
  have hbuilt := attestationText_eq (Pass.ofExcept_ok htext)
  refine Pass.all_bind (signMessage_all ⟨hraw, _, _, _, _, _, hbuilt⟩) fun _ _ => ?_
  refine Pass.all_bind (Pass.all_ofExcept _) fun stored _ => ?_
  cases stored with
  | error refused => exact Pass.all_ofExcept _
  | ok resp => exact Pass.all_pure _

lemma signMessage_signed {i : ℕ} {m : Message} {text sig : String}
    (h : (signMessage host i m text).outcome = .ok sig) : m ∈ (signMessage host i m text).messages := by
  obtain ⟨_, -, -, hm, -⟩ := Pass.bind_ok h
  exact hm (by simp [Pass.emit])

lemma signBlock_signed {p : PlannedBlock} {i : ℕ} {log next : LogEnd}
    (h : (signBlock host service tenant p i log).outcome = .ok next) :
    ∃ text, .block p.height p.blockHash text ∈ (signBlock host service tenant p i log).messages := by
  obtain ⟨text, -, h, -, hrest⟩ := Pass.bind_ok h
  obtain ⟨_, hsign, -, hm, -⟩ := Pass.bind_ok h
  exact ⟨text, hrest (hm (signMessage_signed hsign))⟩

lemma signBlocks_signed {plan : List PlannedBlock} {i : ℕ} {log : LogEnd} {done : List (ℤ × ℤ) × LogEnd}
    (h : (signBlocks host service tenant plan i log).outcome = .ok done) :
    ∀ p ∈ plan, ∃ text, .block p.height p.blockHash text ∈ (signBlocks host service tenant plan i log).messages := by
  induction plan generalizing i log done with
  | nil => simp
  | cons q plan ih =>
    obtain ⟨next, hq, h, hfirst, hrest⟩ := Pass.bind_ok h
    obtain ⟨_, hplan, -, hlater, -⟩ := Pass.bind_ok h
    intro p hp
    rcases List.mem_cons.mp hp with rfl | hp
    · obtain ⟨text, ht⟩ := signBlock_signed hq
      exact ⟨text, hfirst ht⟩
    · obtain ⟨text, ht⟩ := ih hplan p hp
      exact ⟨text, hrest (hlater ht)⟩

lemma signCheckpoint_signed {i : ℕ} {log : LogEnd} {done : ℤ × String × ℤ × ℤ}
    (h : (signCheckpoint host service tenant i log).outcome = .ok done) :
    ∃ t, service.tip = .body t ∧ ∃ seq head text,
      .checkpoint seq head t.tipHeight t.tipBlockHash text ∈
        (signCheckpoint host service tenant i log).messages := by
  obtain ⟨tip, ht, h, -, hrest⟩ := Pass.bind_ok h
  obtain ⟨text, -, h, -, hrest'⟩ := Pass.bind_ok h
  obtain ⟨_, hsign, -, hm, -⟩ := Pass.bind_ok h
  exact ⟨tip, get_body (Pass.ofExcept_ok ht), _, _, text, hrest (hrest' (hm (signMessage_signed hsign)))⟩

end Messages

section Run

variable {host : Host} {service : Service} {raw : RawLedger} {dryRun : Bool} {cap : ℤ}

lemma runSign_all (hcheck : host.ChecksRaw raw) (ha : service.Agrees raw) :
    (runSign host service dryRun cap).All (SignsRaw raw) := by
  refine Pass.all_bind (Pass.all_ofExcept _) fun pending hpending => ?_
  have hp := authorizedPending_eq (Pass.ofExcept_ok hpending)
  refine Pass.all_bind (Pass.all_ofExcept _) fun plan hplan => ?_
  refine Pass.all_bind (Pass.all_ofExcept _) fun rplan _ => ?_
  dsimp only
  split
  · exact Pass.all_pure _
  split
  · exact Pass.all_pure _
  refine Pass.all_bind (Pass.all_ofExcept _) fun _ hnewest => ?_
  have hraw := plan_raw hcheck hp (Pass.ofExcept_ok hplan) (Pass.ofExcept_ok hnewest) ha
  refine Pass.all_bind (signBlocks_all hraw 0 _) fun signed _ => ?_
  refine Pass.all_bind (signReceipts_all _ _ _ _) fun done _ => ?_
  split
  · exact Pass.all_pure _
  · exact Pass.all_bind (signCheckpoint_all ha.2 _ _) fun _ _ => Pass.all_pure _

/-- A pass that reached its checkpoint signed every planned block and the service's tip. -/
lemma runSign_signed {result : SignResult} (h : (runSign host service dryRun cap).outcome = .ok result)
    (hc : result.checkpoint.isSome) :
    ∃ pending plan, service.pending = .body pending ∧
      (byPendingHeight pending.blocks).zipIdx.mapM (planBlock service pending.head.tenant) = .ok plan ∧
      (∀ p ∈ plan, ∃ text, .block p.height p.blockHash text ∈ (runSign host service dryRun cap).messages) ∧
      ∃ t, service.tip = .body t ∧ ∃ seq head text,
        .checkpoint seq head t.tipHeight t.tipBlockHash text ∈ (runSign host service dryRun cap).messages := by
  obtain ⟨pending, hpending, h, -, h₁⟩ := Pass.bind_ok h
  obtain ⟨plan, hplan, h, -, h₂⟩ := Pass.bind_ok h
  obtain ⟨rplan, -, h, -, h₃⟩ := Pass.bind_ok h
  dsimp only at h h₃
  by_cases hnone : (plan.isEmpty && rplan.planned.isEmpty) = true
  · rw [if_pos hnone] at h
    obtain rfl := Except.ok.inj h
    simp at hc
  by_cases hdry : dryRun = true
  · rw [if_neg hnone, if_pos hdry] at h
    obtain rfl := Except.ok.inj h
    simp at hc
  rw [if_neg hnone, if_neg hdry] at h h₃
  obtain ⟨_, -, h, -, h₄⟩ := Pass.bind_ok h
  obtain ⟨⟨signed, log⟩, hblocks, h, hb, h₅⟩ := Pass.bind_ok h
  obtain ⟨done, -, h, -, h₆⟩ := Pass.bind_ok h
  dsimp only at h h₆
  have hrun := List.Subset.trans h₄ (List.Subset.trans h₃ (List.Subset.trans h₂ h₁))
  by_cases hunsigned : (signed.isEmpty && done.signed.isEmpty) = true
  · rw [if_pos hunsigned] at h
    obtain rfl := Except.ok.inj h
    simp at hc
  rw [if_neg hunsigned] at h h₆
  obtain ⟨checkpoint, htip, -, ht, -⟩ := Pass.bind_ok h
  refine ⟨pending, plan, authorizedPending_eq (Pass.ofExcept_ok hpending), Pass.ofExcept_ok hplan, ?_, ?_⟩
  · intro p hp
    obtain ⟨text, hm⟩ := signBlocks_signed hblocks p hp
    exact ⟨text, hrun (hb hm)⟩
  · obtain ⟨t, hbody, seq, head, text, hm⟩ := signCheckpoint_signed htip
    exact ⟨t, hbody, seq, head, text, hrun (h₅ (h₆ (ht hm)))⟩

end Run

/-- The ledger's two blocks, and one that was made up for the first height. -/
def firstHash : Hex64 := Blocks.blockHash "operator" 1 1 1 1 genesis genesis 1

def secondHash : Hex64 := Blocks.blockHash "operator" 2 2 2 1 firstHash genesis 1

def madeUpHash : Hex64 := Blocks.blockHash "operator" 1 1 7 7 genesis genesis 1

def rawTwo : RawLedger where
  blockHash h := if h = 1 then some firstHash.text else if h = 2 then some secondHash.text else none
  verifies _ := True

def mintHost : Host where
  key := ⟨[], [], "mint", ""⟩
  now _ := "2026-10-07T12:00:00Z"
  sign _ _ := .ok "signature"
  verifyBlock height h := if rawTwo.blockHash height = some h then .ok () else
    .error (.signerError "pre_sign_verify_failed" "the offline replay does not accept the block" exitUnhealthy)
  verifyReceipt _ := .ok ()

lemma mintHost_checksRaw : mintHost.ChecksRaw rawTwo := by
  intro height h hok
  simp only [mintHost] at hok
  split_ifs at hok with hraw
  exact ⟨hraw, fun _ _ _ => trivial⟩

def twoPending (first : BlockView) : PendingView where
  blocks := [⟨1, first.blockHash⟩, ⟨2, secondHash.text⟩]
  receipts := []
  head := ⟨"operator", 0, 1, genesis.text⟩

/-- The service says that both blocks are pending and gives `first` as the first of them. -/
def serviceWith (first : BlockView) : Service where
  trust := .body ⟨true, [⟨"mint", 1, none⟩]⟩
  statusPending := .body (twoPending first)
  verify := .body ⟨true, [], []⟩
  pending := .body (twoPending first)
  block i := if i = 0 then .body first else .body ⟨2, 2, 2, 1, firstHash.text, genesis.text, secondHash.text, 1⟩
  receipt _ := .malformed
  receiptBlock _ := .malformed
  storedBlock i := .body ⟨i + 1, genesis.text⟩
  storedReceipt _ := .malformed
  tip := .body ⟨2, secondHash.text⟩
  storedCheckpoint := .body ⟨3, genesis.text⟩

def firstView : BlockView := ⟨1, 1, 1, 1, genesis.text, genesis.text, firstHash.text, 1⟩

def madeUpView : BlockView := ⟨1, 1, 7, 7, genesis.text, genesis.text, madeUpHash.text, 1⟩

/-- The first block is signed with whatever hash its own fields give. -/
lemma serviceWith_signs {first : BlockView} {h : Hex64} (hown : first.blockHash = h.text)
    (hhash : blockHashOf "operator" first = .ok h) (hheight : first.height = 1) :
    ∃ text, .block 1 h.text text ∈ (runSign mintHost (serviceWith first) false 25).messages := by
  have hsort : byPendingHeight (twoPending first).blocks = (twoPending first).blocks :=
    List.mergeSort_of_pairwise (by simp [twoPending])
  have hsecond : blockHashOf "operator" ⟨2, 2, 2, 1, firstHash.text, genesis.text, secondHash.text, 1⟩ =
      .ok secondHash := blockHashOf_eq ..
  have hplan : (byPendingHeight (twoPending first).blocks).zipIdx.mapM
      (planBlock (serviceWith first) "operator") = .ok [⟨1, h.text⟩, ⟨2, secondHash.text⟩] := by
    rw [hsort]
    simp [twoPending, planBlock, serviceWith, Answer.get, Answer.request, hown, hhash, hheight, hsecond,
      bind, Except.bind, pure, Except.pure]
  have hhex : ∀ x : Hex64, PyText.matchesHex64 x.text = true := fun x => by simp [PyText.matchesHex64, x.valid]
  obtain ⟨text, htext⟩ : ∃ text, attestationText mintHost "block" "operator" ("block:" ++ toString (1 : ℤ)) h.text
      ⟨1, genesis.text⟩ 0 = .ok text := by
    have hat : PyText.matchesSignedAt "2026-10-07T12:00:00Z" = true := by decide
    have hclean : clean ("block:" ++ Int.repr 1) "subject" = .ok ("block:" ++ Int.repr 1) := rfl
    simp [attestationText, attestationMessage, attestKinds, mintHost, hhex, hat, hclean, Except.map]
  refine ⟨text, ?_⟩
  have hpending : (Pass.ofExcept (authorizedPending mintHost (serviceWith first)) : Signing _).outcome =
      .ok (twoPending first) := rfl
  have hreceipts : (byCreated (twoPending first).receipts).zipIdx.foldlM
      (planReceipt (serviceWith first) "operator" 25) ⟨[], []⟩ = .ok ⟨[], []⟩ := by
    simp [byCreated, twoPending, pure, Except.pure]
  refine Pass.bind_subset hpending _ (Pass.bind_subset hplan _ (Pass.bind_subset hreceipts _ ?_))
  have hnewest : (Pass.ofExcept (verifyNewest mintHost [⟨1, h.text⟩, ⟨2, secondHash.text⟩]) : Signing Unit).outcome =
      .ok () := by
    simp [Pass.ofExcept, verifyNewest, mintHost, rawTwo]
  dsimp only
  rw [if_neg (by simp), if_neg (by simp)]
  refine Pass.bind_subset hnewest _ (Pass.subset_bind _ _ (Pass.subset_bind _ _ ?_))
  exact Pass.bind_subset htext _ (Pass.subset_bind _ _ (Pass.subset_bind _ _ (by simp [Pass.emit])))

end ContinuityLedger.Signatures
