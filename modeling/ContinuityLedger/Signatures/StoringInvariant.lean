import ContinuityLedger.Signatures.StoringChecks

/-! What holds in every state that the transactions reach, and what each step makes of the attestation log. -/

namespace ContinuityLedger.Signatures.Storing

open Foundations Foundations.Sha256 Foundations.HashChain Blocks Evidence

variable (verify : Verifier) (tenant : String) (roots : Dict String PublicKey) (rt : Runtime)

/-- Evaluated against all that is committed, the attestation has no problem. -/
def Verifies (c : Committed) (a : Attestation) : Prop :=
  ∃ truth out, loadTruth rt c.blocks c.objects = .ok truth ∧
    evaluateAttestations verify tenant (evaluateTrust verify tenant roots c.statements) c.attestations truth = .ok out ∧
    mine (attestationSubject a.signerSeq) out.1 = []

variable {S : Type} [DecidableEq S]

/-- No statement that came after the transaction has read the trust log cuts off the key of the row that it commits. -/
def unrevoked (sys : System S) : Event S → Bool
  | .commit s =>
    match sys.calls s with
    | some (.stored call trusted) =>
      (sys.committed.statements.drop trusted.length).all fun r => !cutsOff call.signerSeq call.keyId r
    | _ => true
  | _ => true

def unrevokedRun : System S → List (Event S) → Bool
  | _, [] => true
  | sys, ev :: evs => unrevoked sys ev &&
    (step verify tenant roots rt sys ev).all fun r => unrevokedRun r.1 evs

/-! ### What a transaction knows -/

/-- What a transaction has read is still there, and what it has checked has passed. -/
def Explained (c : Committed) : Progress → Prop
  | .readingTrust call => Normal call.signature
  | .readingLog call trusted => Normal call.signature ∧ trusted <+: c.statements
  | .readingBlocks call trusted existing =>
    Normal call.signature ∧ trusted <+: c.statements ∧ existing <+: c.attestations
  | .readingReceipts call trusted existing blocks =>
    Normal call.signature ∧ trusted <+: c.statements ∧ existing <+: c.attestations ∧ blocks <+: c.blocks
  | .storing call trusted =>
    Normal call.signature ∧ trusted <+: c.statements ∧ ∃ existing truth, existing <+: c.attestations ∧
      truth.Grows (intactTruth c.blocks c.objects) ∧
      checkAttestation verify tenant roots trusted existing truth call = .ok ()
  | .stored call trusted =>
    Normal call.signature ∧ trusted <+: c.statements ∧ DatabaseLog tenant (c.attestations ++ [call.row tenant]) ∧
      ∃ truth : Truth, truth.Grows (intactTruth c.blocks c.objects) ∧
        Verified verify tenant (loopAfter verify tenant roots trusted).st truth c.attestations (call.row tenant)
  | .readingStatements call => Normal call.signature
  | .readingTarget call existing => Normal call.signature ∧ existing <+: c.statements
  | .storingStatement call => Normal call.signature ∧ ∃ existing log, existing <+: c.statements ∧
      log <+: c.attestations ∧ checkStatement verify tenant roots existing log call = .ok ()
  | .storedStatement call => StatementLog verify tenant roots (c.statements ++ [call.row tenant]) ∧
      VoidsStored [call.row tenant] c.attestations

/-- What is committed holds together. -/
structure Sound (c : Committed) : Prop where
  statements : StatementLog verify tenant roots c.statements
  log : DatabaseLog tenant c.attestations
  readable : Readable tenant c.attestations
  voids : VoidsStored c.statements c.attestations
  heights : (c.blocks.map Block.height).Nodup
  intact : Intact rt c.objects

structure Inv (sys : System S) : Prop where
  sound : Sound verify tenant roots rt sys.committed
  calls : ∀ s p, sys.calls s = some p → Explained verify tenant roots sys.committed p
  attester : ∀ s call trusted, sys.calls s = some (.stored call trusted) →
    sys.attester = some (s, sys.committed.attestations ++ [call.row tenant])
  truster : ∀ s call, sys.calls s = some (.storedStatement call) →
    sys.truster = some (s, sys.committed.statements ++ [call.row tenant])

variable {verify tenant roots rt} {sys : System S} {c c' : Committed}

/-- Knowledge survives what the others commit; a transaction that holds a lock keeps that log as it is. -/
lemma Explained.grows {p : Progress} (h : Explained verify tenant roots c p) (hg : c.Grows c')
    (hn : (c'.blocks.map Block.height).Nodup)
    (hatt : ∀ call trusted, p = .stored call trusted → c'.attestations = c.attestations)
    (hst : ∀ call, p = .storedStatement call → c'.statements = c.statements) : Explained verify tenant roots c' p := by
  have htruth := intactTruth_grows hg.blocks hn hg.objects
  cases p with
  | readingTrust call => exact h
  | readingLog call trusted => exact ⟨h.1, h.2.trans hg.statements⟩
  | readingBlocks call trusted existing =>
    exact ⟨h.1, h.2.1.trans hg.statements, h.2.2.trans hg.attestations⟩
  | readingReceipts call trusted existing blocks =>
    obtain ⟨hnorm, ht, he, hb⟩ := h
    exact ⟨hnorm, ht.trans hg.statements, he.trans hg.attestations, hb.trans hg.blocks⟩
  | storing call trusted =>
    obtain ⟨hnorm, ht, existing, truth, he, hgrows, hcheck⟩ := h
    exact ⟨hnorm, ht.trans hg.statements, existing, truth, he.trans hg.attestations, hgrows.trans htruth, hcheck⟩
  | stored call trusted =>
    obtain ⟨hnorm, ht, hlog, truth, hgrows, hv⟩ := h
    refine ⟨hnorm, ht.trans hg.statements, ?_, truth, hgrows.trans htruth, ?_⟩
    · rwa [hatt call trusted rfl]
    · rwa [hatt call trusted rfl]
  | readingStatements call => exact h
  | readingTarget call existing => exact ⟨h.1, h.2.trans hg.statements⟩
  | storingStatement call =>
    obtain ⟨hnorm, existing, log, he, hl, hcheck⟩ := h
    exact ⟨hnorm, existing, log, he.trans hg.statements, hl.trans hg.attestations, hcheck⟩
  | storedStatement call =>
    obtain ⟨hlog, hv⟩ := h
    exact ⟨by rwa [hst call rfl], hv.mono hg.attestations⟩

/-! ### Steps -/

omit [DecidableEq S] in
lemma start_inv : Inv verify tenant roots rt (System.start : System S) where
  sound := {
    statements := ⟨trivial, rfl⟩
    log := ⟨trivial, by simp [System.start], by simp [System.start]⟩
    readable := by simp [Readable, System.start]
    voids := by simp [VoidsStored, System.start]
    heights := List.nodup_nil
    intact := by simp [Intact, System.start] }
  calls := by simp [System.start]
  attester := by simp [System.start]
  truster := by simp [System.start]

/-- A transaction that holds no lock goes on. -/
lemma Inv.goes (h : Inv verify tenant roots rt sys) (s : S) {p : Progress}
    (hp : Explained verify tenant roots sys.committed p) (hatt : ∀ call trusted, p ≠ .stored call trusted)
    (hst : ∀ call, p ≠ .storedStatement call) : Inv verify tenant roots rt (sys.goes s p).1 := by
  refine ⟨h.sound, fun r q hq => ?_, fun r call trusted hr => ?_, fun r call hr => ?_⟩
  all_goals by_cases hrs : r = s
  · subst hrs
    obtain rfl : p = q := by simpa [System.goes] using hq
    exact hp
  · exact h.calls r q (by simpa [System.goes, hrs] using hq)
  · subst hrs
    exact absurd (by simpa [System.goes] using hr) (hatt call trusted)
  · exact h.attester r call trusted (by simpa [System.goes, hrs] using hr)
  · subst hrs
    exact absurd (by simpa [System.goes] using hr) (hst call)
  · exact h.truster r call (by simpa [System.goes, hrs] using hr)

lemma Inv.ends (h : Inv verify tenant roots rt sys) (s : S) (result : Except StoreFailure Answer) :
    Inv verify tenant roots rt (sys.ends s result).1 := by
  have hother : ∀ r p, (sys.ends s result).1.calls r = some p → r ≠ s ∧ sys.calls r = some p := by
    intro r p hp
    by_cases hrs : r = s
    · simp [System.ends, hrs] at hp
    · exact ⟨hrs, by simpa [System.ends, hrs] using hp⟩
  refine ⟨h.sound, fun r p hp => h.calls r p (hother r p hp).2, fun r call trusted hr => ?_, fun r call hr => ?_⟩
  · obtain ⟨hrs, hcall⟩ := hother r _ hr
    change sys.attester.filter (·.1 ≠ s) = _
    rw [h.attester r call trusted hcall]
    simp [Option.filter, hrs, System.ends]
  · obtain ⟨hrs, hcall⟩ := hother r _ hr
    change sys.truster.filter (·.1 ≠ s) = _
    rw [h.truster r call hcall]
    simp [Option.filter, hrs, System.ends]

lemma Inv.checked (h : Inv verify tenant roots rt sys) (s : S) {p : Progress} {check : Except StoreFailure Unit}
    (hp : check = .ok () → Explained verify tenant roots sys.committed p)
    (hatt : ∀ call trusted, p ≠ .stored call trusted) (hst : ∀ call, p ≠ .storedStatement call) :
    Inv verify tenant roots rt (sys.checked s p check).1 := by
  cases check with
  | error e => exact h.ends s _
  | ok u => exact h.goes s (hp rfl) hatt hst

omit [DecidableEq S] in
/-- What is committed has grown in blocks or objects. -/
lemma Inv.environment (h : Inv verify tenant roots rt sys) {blocks : List Block} {objects : List EvidenceObject}
    (hb : sys.committed.blocks <+: blocks) (ho : sys.committed.objects <+: objects)
    (hn : (blocks.map Block.height).Nodup) (hi : Intact rt objects) :
    Inv verify tenant roots rt
      { sys with committed := { sys.committed with blocks := blocks, objects := objects } } := by
  refine ⟨⟨h.sound.statements, h.sound.log, h.sound.readable, h.sound.voids, hn, hi⟩, fun s p hp => ?_, h.attester,
    h.truster⟩
  exact (h.calls s p hp).grows ⟨List.prefix_rfl, List.prefix_rfl, hb, ho⟩ hn (fun _ _ _ => rfl) fun _ _ => rfl

lemma Inv.stores_attestation (h : Inv verify tenant roots rt sys) {s : S} {call : AttestationCall}
    {trusted : List Statement} {log : List Attestation} (hcall : sys.calls s = some (.storing call trusted))
    (hfree : sys.attester = none)
    (hs : jarvisStoreAttestation (some tenant) tenant sys.committed.attestations call = .ok log) :
    Inv verify tenant roots rt ({ sys with attester := some (s, log) }.goes s (.stored call trusted)).1 := by
  obtain ⟨hnorm, ht, existing, truth, he, hg, hcheck⟩ := h.calls s _ hcall
  obtain ⟨hfollows, -, rfl⟩ := jarvisStoreAttestation_eq hs
  obtain ⟨hseq, hv⟩ := checkAttestation_ok hnorm hcheck
  have hhead : call.signerSeq - 1 = (tip Attestation.leaves (0, genesis.text) sys.committed.attestations).1 := by
    rw [← attestationHead_eq h.sound.log.linked]
    exact congrArg Prod.fst hfollows
  obtain rfl : existing = sys.committed.attestations := by
    apply prefix_eq (fun _ => rfl) (fun _ => rfl) h.sound.log.linked he
    rw [← hhead, ← logHead_eq, hseq, add_sub_cancel_right]
  obtain ⟨more, hmore⟩ := ht
  have hlinked := h.sound.statements.linked
  rw [← hmore] at hlinked
  rw [evaluateTrust_eq ((linked_append ..).mp hlinked).1] at hv
  refine ⟨h.sound, fun r p hp => ?_, fun r c u hr => ?_, fun r c hr => ?_⟩
  all_goals by_cases hrs : r = s
  · subst hrs
    obtain rfl : Progress.stored call trusted = p := by simpa [System.goes] using hp
    exact ⟨hnorm, ⟨more, hmore⟩, h.sound.log.step hs, truth, hg, hv⟩
  · exact h.calls r p (by simpa [System.goes, hrs] using hp)
  · subst hrs
    obtain ⟨rfl, rfl⟩ : call = c ∧ trusted = u := by simpa [System.goes] using hr
    rfl
  · have held := h.attester r c u (by simpa [System.goes, hrs] using hr)
    rw [hfree] at held
    cases held
  · subst hrs
    simp [System.goes] at hr
  · exact h.truster r c (by simpa [System.goes, hrs] using hr)

lemma Inv.stores_statement (h : Inv verify tenant roots rt sys) {s : S} {call : StatementCall} {log : List Statement}
    (hcall : sys.calls s = some (.storingStatement call)) (hfree : sys.truster = none)
    (hs : jarvisStoreTrustStatement (some tenant) tenant sys.committed.statements call = .ok log) :
    Inv verify tenant roots rt ({ sys with truster := some (s, log) }.goes s (.storedStatement call)).1 := by
  obtain ⟨hnorm, existing, seen, he, hl, hcheck⟩ := h.calls s _ hcall
  obtain ⟨hfollows, rfl⟩ := jarvisStoreTrustStatement_eq hs
  have hc := checkStatement_ok hnorm hcheck
  have hold := h.sound.statements
  rw [statementHead_eq hold.linked] at hfollows
  obtain rfl : existing = sys.committed.statements := by
    apply prefix_eq (fun _ => rfl) (fun _ => rfl) hold.linked he
    rw [← hfollows, ← logHead_eq]
    exact (eq_sub_of_add_eq hc.seq.symm)
  have hlinked : Linked Statement.follows Statement.leaves (0, genesis.text)
      (sys.committed.statements ++ [call.row tenant]) := (linked_append_singleton ..).mpr ⟨hold.linked, hfollows⟩
  have hsilent := hc.silent
  rw [evaluateTrust_eq hlinked, loopAfter_snoc] at hsilent
  have hlog : StatementLog verify tenant roots (sys.committed.statements ++ [call.row tenant]) :=
    ⟨hlinked, by rw [loopAfter_snoc]; exact trustStep_silent hold.clean hsilent⟩
  have hvoids : VoidsStored [call.row tenant] sys.committed.attestations := fun r hr hkind => by
    obtain rfl := List.mem_singleton.mp hr
    obtain ⟨a, ha, hrest⟩ := hc.target hkind
    exact ⟨a, hl.subset ha, hrest⟩
  refine ⟨h.sound, fun r p hp => ?_, fun r c u hr => ?_, fun r c hr => ?_⟩
  all_goals by_cases hrs : r = s
  · subst hrs
    obtain rfl : Progress.storedStatement call = p := by simpa [System.goes] using hp
    exact ⟨hlog, hvoids⟩
  · exact h.calls r p (by simpa [System.goes, hrs] using hp)
  · subst hrs
    simp [System.goes] at hr
  · exact h.attester r c u (by simpa [System.goes, hrs] using hr)
  · subst hrs
    obtain rfl : call = c := by simpa [System.goes] using hr
    rfl
  · have held := h.truster r c (by simpa [System.goes, hrs] using hr)
    rw [hfree] at held
    cases held

omit [DecidableEq S] in
lemma Inv.publishes_attestation (h : Inv verify tenant roots rt sys) {log : List Attestation}
    (hnone : ∀ s call trusted, sys.calls s ≠ some (.stored call trusted))
    (hl : sys.committed.attestations <+: log)
    (hsound : Sound verify tenant roots rt { sys.committed with attestations := log }) :
    Inv verify tenant roots rt { sys with committed := { sys.committed with attestations := log } } := by
  refine ⟨hsound, fun s p hp => ?_, fun s call trusted hs => absurd hs (hnone s call trusted), h.truster⟩
  have hg : sys.committed.Grows { sys.committed with attestations := log } :=
    ⟨List.prefix_rfl, hl, List.prefix_rfl, List.prefix_rfl⟩
  refine (h.calls s p hp).grows hg h.sound.heights ?_ ?_
  · rintro call trusted rfl
    exact absurd hp (hnone s call trusted)
  · exact fun _ _ => rfl

omit [DecidableEq S] in
lemma Inv.publishes_statement (h : Inv verify tenant roots rt sys) {log : List Statement}
    (hnone : ∀ s call, sys.calls s ≠ some (.storedStatement call)) (hl : sys.committed.statements <+: log)
    (hsound : Sound verify tenant roots rt { sys.committed with statements := log }) :
    Inv verify tenant roots rt { sys with committed := { sys.committed with statements := log } } := by
  refine ⟨hsound, fun s p hp => ?_, h.attester, fun s call hs => absurd hs (hnone s call)⟩
  have hg : sys.committed.Grows { sys.committed with statements := log } :=
    ⟨hl, List.prefix_rfl, List.prefix_rfl, List.prefix_rfl⟩
  refine (h.calls s p hp).grows hg h.sound.heights ?_ ?_
  · exact fun _ _ _ => rfl
  · rintro call rfl
    exact absurd hp (hnone s call)

/-- Who has ended is not among the calls. -/
lemma calls_ends {s r : S} {result : Except StoreFailure Answer} {p : Progress}
    (h : (sys.ends s result).1.calls r = some p) : r ≠ s ∧ sys.calls r = some p := by
  by_cases hrs : r = s
  · simp [System.ends, hrs] at h
  · exact ⟨hrs, by simpa [System.ends, hrs] using h⟩

lemma Inv.commits_attestation (h : Inv verify tenant roots rt sys) {s : S} {call : AttestationCall}
    {trusted : List Statement} (hcall : sys.calls s = some (.stored call trusted))
    (result : Except StoreFailure Answer) :
    let c := { sys.committed with attestations := sys.committed.attestations ++ [call.row tenant] }
    Inv verify tenant roots rt ({ sys with committed := c }.ends s result).1 ∧
      (Verifies verify tenant roots rt c (call.row tenant) ↔ unrevoked sys (.commit s) = true) := by
  intro c
  obtain ⟨hnorm, ⟨more, hmore⟩, hlog, truth, hg, hv⟩ := h.calls s _ hcall
  have hold := h.sound
  have hhashed : Hashed tenant (call.row tenant) := hashed_row hnorm
  have hvoids : VoidsStored (trusted ++ more) sys.committed.attestations := hmore ▸ hold.voids
  have hclean : (loopAfter verify tenant roots (trusted ++ more)).st.problems = [] := hmore ▸ hold.statements.clean
  have hbefore : VoidsStored trusted sys.committed.attestations := fun r hr => hvoids r (List.mem_append_left _ hr)
  have hread := hv.readable hlog hhashed (hbefore.fresh hlog)
  constructor
  · apply (h.ends s result).publishes_attestation
    · intro r call' trusted' hr
      obtain ⟨hrs, hr⟩ := calls_ends hr
      have held := (h.attester s call trusted hcall).symm.trans (h.attester r call' trusted' hr)
      exact hrs (Prod.mk.inj (Option.some.inj held)).1.symm
    · exact List.prefix_append ..
    · refine ⟨hold.statements, hlog, fun a ha => ?_, hold.voids.mono (List.prefix_append ..), hold.heights, hold.intact⟩
      rcases List.mem_append.mp ha with ha | ha
      · exact hold.readable a ha
      · obtain rfl := List.mem_singleton.mp ha
        exact ⟨hhashed, hread⟩
  · have hlater := hv.later_iff hlog hold.readable hhashed hclean hvoids hg
    have hunrevoked : unrevoked sys (.commit s) = true ↔
        ∀ r ∈ more, cutsOff (call.row tenant).signerSeq (call.row tenant).keyId r = false := by
      simp only [unrevoked, hcall, ← hmore, List.drop_left, List.all_eq_true, Bool.not_eq_true']
      rfl
    rw [hunrevoked, ← hlater, hmore]
    have htrust := @evaluateTrust_eq verify tenant roots sys.committed.statements _ hold.statements.linked
    have htruth := loadTruth_intact hold.intact sys.committed.blocks
    constructor
    · rintro ⟨truth', out, ht, hout, hmine⟩
      obtain rfl := Except.ok.inj (htruth.symm.trans ht)
      rw [htrust] at hout
      exact ⟨out, hout, hmine⟩
    · rintro ⟨out, hout, hmine⟩
      rw [← htrust] at hout
      exact ⟨_, out, htruth, hout, hmine⟩

lemma Inv.commits_statement (h : Inv verify tenant roots rt sys) {s : S} {call : StatementCall}
    (hcall : sys.calls s = some (.storedStatement call)) (result : Except StoreFailure Answer) :
    Inv verify tenant roots rt ({ sys with committed :=
      { sys.committed with statements := sys.committed.statements ++ [call.row tenant] } }.ends s result).1 := by
  obtain ⟨hlog, hvoids⟩ := h.calls s _ hcall
  have hold := h.sound
  apply (h.ends s result).publishes_statement
  · intro r call' hr
    obtain ⟨hrs, hr⟩ := calls_ends hr
    have held := (h.truster s call hcall).symm.trans (h.truster r call' hr)
    exact hrs (Prod.mk.inj (Option.some.inj held)).1.symm
  · exact List.prefix_append ..
  · refine ⟨hlog, hold.log, hold.readable, fun r hr => ?_, hold.heights, hold.intact⟩
    rcases List.mem_append.mp hr with hr | hr
    · exact hold.voids r hr
    · exact hvoids r hr

/-- What a step makes of the attestation log: nothing, or one row more that verifies exactly where the step meets the
condition. -/
def Commits (verify : Verifier) (tenant : String) (roots : Dict String PublicKey) (rt : Runtime) (sys : System S)
    (ev : Event S) (c : Committed) : Prop :=
  (c.attestations = sys.committed.attestations ∧ unrevoked sys ev = true) ∨
    ∃ row, c.attestations = sys.committed.attestations ++ [row] ∧
      (Verifies verify tenant roots rt c row ↔ unrevoked sys ev = true)

lemma stepBegin_inv (h : Inv verify tenant roots rt sys) {s : S} {p : Progress} {unrooted : String} {r : Stepped S}
    (hp : Explained verify tenant roots sys.committed p) (hatt : ∀ call trusted, p ≠ .stored call trusted)
    (hst : ∀ call, p ≠ .storedStatement call) (hs : stepBegin roots sys s p unrooted = some r) :
    Inv verify tenant roots rt r.1 ∧ r.1.committed = sys.committed := by
  unfold stepBegin at hs
  split_ifs at hs
  · obtain rfl := Option.some.inj hs
    exact ⟨h.ends s _, rfl⟩
  · obtain rfl := Option.some.inj hs
    exact ⟨h.goes s hp hatt hst, rfl⟩

lemma checked_committed (s : S) (p : Progress) (check : Except StoreFailure Unit) :
    (sys.checked s p check).1.committed = sys.committed := by
  cases check <;> rfl

lemma stepRead_inv (h : Inv verify tenant roots rt sys) {s : S} {r : Stepped S}
    (hs : stepRead verify tenant roots rt sys s = some r) :
    Inv verify tenant roots rt r.1 ∧ r.1.committed = sys.committed := by
  have hlinked := h.sound.statements.linked
  unfold stepRead at hs
  cases hcall : sys.calls s with
  | none => simp [hcall] at hs
  | some p =>
    have hp := h.calls s p hcall
    cases p with
    | readingTrust call =>
      simp only [hcall, Option.some.injEq, statementsInOrder_eq hlinked] at hs
      subst hs
      exact ⟨h.goes s ⟨hp, List.prefix_rfl⟩ (by simp) (by simp), rfl⟩
    | readingLog call trusted =>
      have hsorted : bySignerSeq sys.committed.attestations = sys.committed.attestations :=
        bySignerSeq_eq ((linked_pairwise h.sound.log.linked).imp le_of_lt)
      simp only [hcall, Option.some.injEq, hsorted] at hs
      subst hs
      exact ⟨h.goes s ⟨hp.1, hp.2, List.prefix_rfl⟩ (by simp) (by simp), rfl⟩
    | readingBlocks call trusted existing =>
      simp only [hcall, Option.some.injEq] at hs
      subst hs
      exact ⟨h.goes s ⟨hp.1, hp.2.1, hp.2.2, List.prefix_rfl⟩ (by simp) (by simp), rfl⟩
    | readingReceipts call trusted existing blocks =>
      obtain ⟨hnorm, ht, he, hb⟩ := hp
      simp only [hcall, loadTruth_intact h.sound.intact blocks, Option.some.injEq] at hs
      subst hs
      have hgrows := intactTruth_grows hb h.sound.heights (List.prefix_refl sys.committed.objects)
      exact ⟨h.checked s (fun hcheck => ⟨hnorm, ht, existing, _, he, hgrows, hcheck⟩) (by simp) (by simp),
        checked_committed ..⟩
    | readingStatements call =>
      simp only [hcall, Option.some.injEq, statementsInOrder_eq hlinked] at hs
      subst hs
      exact ⟨h.checked s (fun _ => ⟨hp, List.prefix_rfl⟩) (by simp) (by simp), checked_committed ..⟩
    | readingTarget call existing =>
      simp only [hcall, Option.some.injEq] at hs
      subst hs
      exact ⟨h.checked s (fun hcheck => ⟨hp.1, existing, _, hp.2, List.prefix_rfl, hcheck⟩) (by simp) (by simp),
        checked_committed ..⟩
    | storing => simp [hcall] at hs
    | stored => simp [hcall] at hs
    | storingStatement => simp [hcall] at hs
    | storedStatement => simp [hcall] at hs

lemma stepStore_inv (h : Inv verify tenant roots rt sys) {s : S} {r : Stepped S}
    (hs : stepStore tenant sys s = some r) : Inv verify tenant roots rt r.1 ∧ r.1.committed = sys.committed := by
  unfold stepStore at hs
  split at hs
  case h_1 call trusted hcall =>
    split_ifs at hs with hfree
    cases hdb : jarvisStoreAttestation (some tenant) tenant sys.committed.attestations call with
    | error refusal =>
      rw [hdb] at hs
      obtain rfl := Option.some.inj hs
      exact ⟨h.ends s _, rfl⟩
    | ok log =>
      rw [hdb] at hs
      obtain rfl := Option.some.inj hs
      exact ⟨h.stores_attestation hcall (by simpa using hfree) hdb, rfl⟩
  case h_2 call hcall =>
    split_ifs at hs with hfree
    cases hdb : jarvisStoreTrustStatement (some tenant) tenant sys.committed.statements call with
    | error refusal =>
      rw [hdb] at hs
      obtain rfl := Option.some.inj hs
      exact ⟨h.ends s _, rfl⟩
    | ok log =>
      rw [hdb] at hs
      obtain rfl := Option.some.inj hs
      exact ⟨h.stores_statement hcall (by simpa using hfree) hdb, rfl⟩
  case h_3 => cases hs

lemma stepCommit_inv (h : Inv verify tenant roots rt sys) {s : S} {r : Stepped S}
    (hs : stepCommit tenant sys s = some r) :
    Inv verify tenant roots rt r.1 ∧ Commits verify tenant roots rt sys (.commit s) r.1.committed := by
  unfold stepCommit at hs
  split at hs
  case h_1 call trusted hcall =>
    have hpub : published sys.attester s sys.committed.attestations =
        sys.committed.attestations ++ [call.row tenant] := by
      rw [h.attester s call trusted hcall]
      exact if_pos rfl
    simp only [hpub, Option.some.injEq] at hs
    subst hs
    obtain ⟨hinv, hverifies⟩ := h.commits_attestation hcall
      (.ok (.attestation call.signerSeq (call.row tenant).attestationHash call.keyId))
    exact ⟨hinv, .inr ⟨call.row tenant, rfl, hverifies⟩⟩
  case h_2 call hcall =>
    have hpub : published sys.truster s sys.committed.statements = sys.committed.statements ++ [call.row tenant] := by
      rw [h.truster s call hcall]
      exact if_pos rfl
    simp only [hpub, Option.some.injEq] at hs
    subst hs
    exact ⟨h.commits_statement hcall _, .inl ⟨rfl, by simp [unrevoked, hcall]⟩⟩
  case h_3 => cases hs

lemma step_inv (h : Inv verify tenant roots rt sys) {ev : Event S} {r : Stepped S}
    (hs : step verify tenant roots rt sys ev = some r) :
    Inv verify tenant roots rt r.1 ∧ Commits verify tenant roots rt sys ev r.1.committed := by
  cases ev with
  | storeAttestation s body =>
    have hnorm : Explained verify tenant roots sys.committed (.readingTrust body.normalized) :=
      normalizeSignature_idem body.signature
    obtain ⟨hinv, hc⟩ := stepBegin_inv h hnorm (by simp) (by simp) hs
    exact ⟨hinv, .inl ⟨by rw [hc], rfl⟩⟩
  | storeTrustStatement s body =>
    have hnorm : Explained verify tenant roots sys.committed (.readingStatements body.normalized) :=
      normalizeSignature_idem body.signature
    obtain ⟨hinv, hc⟩ := stepBegin_inv h hnorm (by simp) (by simp) hs
    exact ⟨hinv, .inl ⟨by rw [hc], rfl⟩⟩
  | read s =>
    obtain ⟨hinv, hc⟩ := stepRead_inv h hs
    exact ⟨hinv, .inl ⟨by rw [hc], rfl⟩⟩
  | store s =>
    obtain ⟨hinv, hc⟩ := stepStore_inv h hs
    exact ⟨hinv, .inl ⟨by rw [hc], rfl⟩⟩
  | commit s => exact stepCommit_inv h hs
  | fail s =>
    obtain ⟨p, -, rfl⟩ := Option.map_eq_some_iff.mp hs
    exact ⟨h.ends s _, .inl ⟨rfl, rfl⟩⟩
  | sealBlock b =>
    change stepSeal sys b = some r at hs
    unfold stepSeal at hs
    split_ifs at hs with hnew
    obtain rfl := Option.some.inj hs
    refine ⟨h.environment (List.prefix_append ..) List.prefix_rfl ?_ h.sound.intact, .inl ⟨rfl, rfl⟩⟩
    have hfresh : ∀ old ∈ sys.committed.blocks, old.height ≠ b.height := by simpa using hnew
    rw [List.map_append, List.map_singleton, List.nodup_append_comm, List.singleton_append, List.nodup_cons]
    refine ⟨fun hin => ?_, h.sound.heights⟩
    obtain ⟨old, hold, heq⟩ := List.mem_map.mp hin
    exact hfresh old hold heq
  | putEvidence now req =>
    obtain rfl := Option.some.inj hs
    unfold stepPut
    cases hput : putEvidenceObject rt now sys.committed.objects req with
    | error e => exact ⟨h, .inl ⟨rfl, rfl⟩⟩
    | ok out =>
      obtain ⟨obj, created, after⟩ := out
      obtain ⟨hintact, more, hmore⟩ := putEvidenceObject_intact h.sound.intact hput
      exact ⟨h.environment List.prefix_rfl ⟨more, hmore.symm⟩ h.sound.heights hintact, .inl ⟨rfl, rfl⟩⟩

/-- By induction over the events of a run. -/
lemma run_inv {evs : List (Event S)} {sys sys' : System S} (h : Inv verify tenant roots rt sys)
    (hr : run verify tenant roots rt sys evs = some sys') :
    Inv verify tenant roots rt sys' ∧
      sys'.committed.attestations =
        sys.committed.attestations ++ (commits verify tenant roots rt sys evs).map Prod.fst ∧
      ((∀ p ∈ commits verify tenant roots rt sys evs, Verifies verify tenant roots rt p.2 p.1) ↔
        unrevokedRun verify tenant roots rt sys evs = true) := by
  induction evs generalizing sys with
  | nil =>
    obtain rfl := Option.some.inj hr
    exact ⟨h, by simp [commits], by simp [commits, unrevokedRun]⟩
  | cons ev evs ih =>
    obtain ⟨r, hs, hrest⟩ := Option.bind_eq_some_iff.mp hr
    obtain ⟨hinv, hcommits⟩ := step_inv h hs
    obtain ⟨hfinal, hlog, hall⟩ := ih hinv hrest
    refine ⟨hfinal, ?_, ?_⟩
    · rw [hlog, commits, hs]
      rcases hcommits with ⟨hsame, -⟩ | ⟨row, hrow, -⟩
      · simp [hsame]
      · simp [hrow]
    · rw [commits, unrevokedRun, hs, Option.all_some, Bool.and_eq_true, ← hall]
      rcases hcommits with ⟨hsame, hmet⟩ | ⟨row, hrow, hverifies⟩
      · simp [hsame, hmet]
      · simp [hrow, ← hverifies, forall_and, or_imp]

end ContinuityLedger.Signatures.Storing
