import ContinuityLedger.Foundations.Checks
import ContinuityLedger.Signatures.CleanLogs

/-! The witness outside the box checks an export against the pinned roots and against what earlier runs recorded; it never
forgets what it recorded of a tenant that the export still has. -/

namespace ContinuityLedger.Signatures

open Foundations Foundations.Sha256 Foundations.PyText Foundations.Delimited

structure TenantData where
  statements : List Statement
  attestations : List Attestation
  blocks : List (ℤ × String)
  receipts : List String

abbrev Export := Dict String TenantData

/-- What a run records of a tenant, under the decimal texts of the numbers. -/
structure Snapshot where
  attestations : Dict String String
  statements : Dict String String
  blocks : Dict String String
  cosignedCheckpointSeq : ℤ

abbrev State := Dict String Snapshot

structure TenantResult where
  problems : List Problem
  summary : AttestationSummary
  snapshot : Snapshot
  trust : TrustState

def dictTruth (blocks : Dict ℤ String) (receipts : List String) : Truth where
  blockHash h := blocks.get h
  receiptProblem r := if r ∈ receipts then none else some ("receipt " ++ r ++ " does not exist")

/-- Items in the order of the numbers that their keys are the texts of. -/
def sortedByNumber (was : Dict String String) : Except Raised (List (String × String)) := do
  let keyed ← was.mapM fun item => match intText item.1 with
    | some n => .ok (n, item)
    | none => .error .valueError
  pure ((keyed.mergeSort fun a b => a.1 ≤ b.1).map Prod.snd)

/-- What was recorded under a key must still be there. -/
def compareItem (label : String) (now : Dict String String) (item : String × String) : List Problem :=
  match now.get item.1 with
  | none => [⟨"witness", label ++ " " ++ item.1, label ++ " " ++ item.1 ++
      " was seen on an earlier run and is gone now (the log was cut or rewritten)"⟩]
  | some v => if v ≠ item.2 then [⟨"witness", label ++ " " ++ item.1, label ++ " " ++ item.1 ++
      " changed since an earlier run (a rewrite, re-signed or not)"⟩] else []

def compareItems (label : String) (was now : Dict String String) : Except Raised (List Problem) := do
  let items ← sortedByNumber was
  pure (items.flatMap (compareItem label now))

def cosignGone (seen : Snapshot) (summary : AttestationSummary) (problems : List Problem) : List Problem :=
  if summary.cosignedCheckpointSeq < seen.cosignedCheckpointSeq && !problems.any (·.check = "cosign") then
    [⟨"witness", "cosign", "checkpoint " ++ toString seen.cosignedCheckpointSeq ++
      " was cosigned before and its cosignature is gone"⟩]
  else []

def snapshotOf (data : TenantData) (blocks : Dict ℤ String) (summary : AttestationSummary) : Snapshot where
  attestations := Dict.ofPairs (data.attestations.map fun a => (toString a.signerSeq, a.attestationHash))
  statements := Dict.ofPairs (data.statements.map fun s => (toString s.stmtSeq, s.statementHash))
  blocks := Dict.ofPairs (blocks.map fun b => (toString b.1, b.2))
  cosignedCheckpointSeq := summary.cosignedCheckpointSeq

/-- What an earlier run recorded and this export lacks. -/
def seenProblems (seen now : Snapshot) (summary : AttestationSummary) (problems : List Problem) :
    Except Raised (List Problem) := do
  let attestations ← compareItems "attestation" seen.attestations now.attestations
  let statements ← compareItems "trust statement" seen.statements now.statements
  let blocks ← compareItems "block" seen.blocks now.blocks
  let problems := problems ++ attestations ++ statements ++ blocks
  pure (problems ++ cosignGone seen summary problems)

def checkTenant (verify : Verifier) (tenant : String) (data : TenantData) (roots : Roots) (seen : Option Snapshot) :
    Except Raised TenantResult := do
  let blocks := Dict.ofPairs data.blocks
  let trust := evaluateTrust verify tenant roots.keys data.statements
  let (problems, summary) ← evaluateAttestations verify tenant trust data.attestations
    (dictTruth blocks data.receipts)
  let now := snapshotOf data blocks summary
  let problems := trust.problems ++ problems
  let problems ← match seen with
    | none => pure problems
    | some seen => seenProblems seen now summary problems
  pure ⟨problems, summary, now, trust⟩

/-- Why a run ends without a result. -/
inductive WitnessRaised
  | witnessError (message : String)
  | noTenant (name : String)
  | raised (e : Raised)

def byName (names : List String) : List String := names.mergeSort (fun a b => a ≤ b)

def checkNamed (verify : Verifier) (exported : Export) (roots : Roots) (state : State) (name : String) :
    Except WitnessRaised (String × TenantResult) :=
  match exported.get name with
  | none => .error (.noTenant name)
  | some data =>
    match checkTenant verify name data roots (state.get name) with
    | .error e => .error (.raised e)
    | .ok r => .ok (name, r)

def verifyExport (verify : Verifier) (exported : Export) (roots : Roots) (state : State) (tenant : Option String) :
    Except WitnessRaised (List (String × TenantResult)) :=
  if roots.keys = [] then
    .error (.witnessError ("no trust roots: give --roots a file with the root public keys " ++
      "(without them nothing can be verified)"))
  else
    (match tenant.filter (· ≠ "") with
      | some name => [name]
      | none => byName (exported.map Prod.fst)).mapM (checkNamed verify exported roots state)

def writeState (state : State) (results : List (String × TenantResult)) : State :=
  results.foldl (fun s r => s.set r.1 r.2.snapshot) state

variable {verify : Verifier}

/-- One record of a tenant says all that another says, and no earlier checkpoint is the newest cosigned one. -/
structure Snapshot.Extends (now was : Snapshot) : Prop where
  attestations : ∀ n v, was.attestations.get n = some v → now.attestations.get n = some v
  statements : ∀ n v, was.statements.get n = some v → now.statements.get n = some v
  blocks : ∀ n v, was.blocks.get n = some v → now.blocks.get n = some v
  cosigned : was.cosignedCheckpointSeq ≤ now.cosignedCheckpointSeq

lemma Snapshot.Extends.refl (s : Snapshot) : s.Extends s :=
  ⟨fun _ _ h => h, fun _ _ h => h, fun _ _ h => h, le_refl _⟩

lemma Snapshot.Extends.trans {a b c : Snapshot} (hcb : c.Extends b) (hba : b.Extends a) : c.Extends a :=
  ⟨fun n v h => hcb.attestations n v (hba.attestations n v h), fun n v h => hcb.statements n v (hba.statements n v h),
    fun n v h => hcb.blocks n v (hba.blocks n v h), hba.cosigned.trans hcb.cosigned⟩

def Grows (before after : State) : Prop :=
  ∀ tenant was, before.get tenant = some was → ∃ now, after.get tenant = some now ∧ now.Extends was

lemma Grows.refl (s : State) : Grows s s := fun _ was h => ⟨was, h, .refl was⟩

lemma Grows.trans {a b c : State} (hab : Grows a b) (hbc : Grows b c) : Grows a c := by
  intro tenant was h
  obtain ⟨now, hnow, hext⟩ := hab tenant was h
  obtain ⟨later, hlater, hext'⟩ := hbc tenant now hnow
  exact ⟨later, hlater, hext'.trans hext⟩

def Clean (results : List (String × TenantResult)) : Prop := ∀ r ∈ results, r.2.problems = []

lemma sortedByNumber_mem {was : Dict String String} {items : List (String × String)}
    (h : sortedByNumber was = .ok items) : ∀ item ∈ was, item ∈ items := by
  obtain ⟨keyed, hk, hsorted⟩ := Checks.bind_ok h
  intro item hitem
  obtain ⟨pair, hpair, hfp⟩ := (Checks.mapM_ok_iff hk).1 item hitem
  rw [← Except.ok.inj hsorted, List.mem_map]
  refine ⟨pair, (List.mergeSort_perm keyed _).mem_iff.mpr hpair, ?_⟩
  cases hn : intText item.1 with
  | none => simp [hn] at hfp
  | some n =>
    simp only [hn, Except.ok.injEq] at hfp
    rw [← hfp]

lemma compareItems_clean {label : String} {was now : Dict String String} (h : compareItems label was now = .ok []) :
    ∀ n v, was.get n = some v → now.get n = some v := by
  unfold compareItems at h
  cases hs : sortedByNumber was with
  | error e => simp [hs, bind, Except.bind] at h
  | ok items =>
    simp only [hs, bind, Except.bind, pure, Except.pure, Except.ok.injEq, List.flatMap_eq_nil_iff] at h
    intro n v hget
    have hclean := h _ (sortedByNumber_mem hs _ (Dict.get_mem hget))
    unfold compareItem at hclean
    cases hn : now.get n with
    | none => simp [hn] at hclean
    | some w =>
      simp only [hn] at hclean
      exact congrArg some (not_not.mp (complaint_eq_nil.mp hclean))

lemma seenProblems_clean {seen now : Snapshot} {summary : AttestationSummary} {problems : List Problem}
    (h : seenProblems seen now summary problems = .ok [])
    (hs : now.cosignedCheckpointSeq = summary.cosignedCheckpointSeq) : problems = [] ∧ now.Extends seen := by
  unfold seenProblems at h
  cases ha : compareItems "attestation" seen.attestations now.attestations with
  | error e => simp [ha, bind, Except.bind] at h
  | ok attestations =>
    cases ht : compareItems "trust statement" seen.statements now.statements with
    | error e => simp [ha, ht, bind, Except.bind] at h
    | ok statements =>
      cases hb : compareItems "block" seen.blocks now.blocks with
      | error e => simp [ha, ht, hb, bind, Except.bind] at h
      | ok blocks =>
        simp only [ha, ht, hb, bind, Except.bind, pure, Except.pure, Except.ok.injEq] at h
        obtain ⟨hall, hgone⟩ := List.append_eq_nil_iff.mp h
        rw [hall] at hgone
        simp only [List.append_eq_nil_iff] at hall
        obtain ⟨⟨⟨rfl, rfl⟩, rfl⟩, rfl⟩ := hall
        refine ⟨rfl, compareItems_clean ha, compareItems_clean ht, compareItems_clean hb, ?_⟩
        simpa [cosignGone, hs] using hgone

/-- What a clean check of one tenant says. -/
structure Checked (verify : Verifier) (tenant : String) (data : TenantData) (roots : Roots) (r : TenantResult) :
    Prop where
  trust : (evaluateTrust verify tenant roots.keys data.statements).problems = []
  attestations : evaluateAttestations verify tenant (evaluateTrust verify tenant roots.keys data.statements)
    data.attestations (dictTruth (Dict.ofPairs data.blocks) data.receipts) = .ok ([], r.summary)
  snapshot : r.snapshot = snapshotOf data (Dict.ofPairs data.blocks) r.summary

lemma checkTenant_clean {tenant : String} {data : TenantData} {roots : Roots} {seen : Option Snapshot}
    {r : TenantResult} (h : checkTenant verify tenant data roots seen = .ok r) (hr : r.problems = []) :
    Checked verify tenant data roots r ∧ ∀ was ∈ seen, r.snapshot.Extends was := by
  unfold checkTenant at h
  cases he : evaluateAttestations verify tenant (evaluateTrust verify tenant roots.keys data.statements)
    data.attestations (dictTruth (Dict.ofPairs data.blocks) data.receipts) with
  | error e => simp [he, bind, Except.bind] at h
  | ok out =>
    obtain ⟨problems, summary⟩ := out
    cases seen with
    | none =>
      simp only [he, bind, Except.bind, pure, Except.pure, Except.ok.injEq] at h
      subst h
      obtain ⟨htrust, rfl⟩ := List.append_eq_nil_iff.mp hr
      exact ⟨⟨htrust, he, rfl⟩, by simp⟩
    | some was =>
      cases hs : seenProblems was (snapshotOf data (Dict.ofPairs data.blocks) summary) summary
        ((evaluateTrust verify tenant roots.keys data.statements).problems ++ problems) with
      | error e => simp [he, hs, bind, Except.bind] at h
      | ok all =>
        simp only [he, hs, bind, Except.bind, pure, Except.pure, Except.ok.injEq] at h
        subst h
        obtain rfl : all = [] := hr
        obtain ⟨hnil, hext⟩ := seenProblems_clean hs rfl
        obtain ⟨htrust, rfl⟩ := List.append_eq_nil_iff.mp hnil
        refine ⟨⟨htrust, he, rfl⟩, ?_⟩
        rintro w hw
        obtain rfl := Option.mem_some_iff.mp hw
        exact hext

lemma checkNamed_clean {exported : Export} {roots : Roots} {state : State} {name : String}
    {result : String × TenantResult} (h : checkNamed verify exported roots state name = .ok result)
    (hr : result.2.problems = []) :
    result.1 = name ∧ ∃ data, exported.get name = some data ∧ Checked verify name data roots result.2 ∧
      ∀ was, state.get name = some was → result.2.snapshot.Extends was := by
  unfold checkNamed at h
  cases hg : exported.get name with
  | none => simp [hg] at h
  | some data =>
    cases hc : checkTenant verify name data roots (state.get name) with
    | error e => simp [hg, hc] at h
    | ok r =>
      simp only [hg, hc, Except.ok.injEq] at h
      subst h
      obtain ⟨hchecked, hext⟩ := checkTenant_clean hc hr
      exact ⟨rfl, data, rfl, hchecked, fun was hw => hext was hw⟩

section Run

variable {exported : Export} {roots : Roots} {state : State} {tenant : Option String}
  {results : List (String × TenantResult)}

lemma verifyExport_result (h : verifyExport verify exported roots state tenant = .ok results) (hc : Clean results)
    {name : String} {r : TenantResult} (hr : (name, r) ∈ results) :
    ∃ data, exported.get name = some data ∧ Checked verify name data roots r ∧
      ∀ was, state.get name = some was → r.snapshot.Extends was := by
  unfold verifyExport at h
  by_cases hroots : roots.keys = []
  · simp [hroots] at h
  · rw [if_neg hroots] at h
    obtain ⟨n, -, hn⟩ := (Checks.mapM_ok_iff h).2 _ hr
    obtain ⟨hname, hrest⟩ := checkNamed_clean hn (hc _ hr)
    obtain rfl : name = n := hname
    exact hrest

/-- Without a tenant argument every tenant of the export is checked. -/
lemma verifyExport_all (h : verifyExport verify exported roots state none = .ok results) (hc : Clean results)
    {name : String} {data : TenantData} (hd : exported.get name = some data) :
    ∃ r, (name, r) ∈ results ∧ Checked verify name data roots r ∧
      ∀ was, state.get name = some was → r.snapshot.Extends was := by
  have hv := h
  unfold verifyExport at h
  by_cases hroots : roots.keys = []
  · simp [hroots] at h
  · rw [if_neg hroots] at h
    have hname : name ∈ byName (exported.map Prod.fst) :=
      (List.mergeSort_perm _ _).mem_iff.mpr (List.mem_map.mpr ⟨_, Dict.get_mem hd, rfl⟩)
    obtain ⟨⟨n, r⟩, hr, hn⟩ := (Checks.mapM_ok_iff h).1 name hname
    obtain rfl : n = name := (checkNamed_clean hn (hc _ hr)).1
    obtain ⟨data', hd', hchecked, hext⟩ := verifyExport_result hv hc hr
    obtain rfl : data = data' := Option.some.inj (hd.symm.trans hd')
    exact ⟨r, hr, hchecked, hext⟩

lemma writeState_get (state : State) (results : List (String × TenantResult)) (name : String) :
    (∃ r, (name, r) ∈ results ∧ (writeState state results).get name = some r.snapshot) ∨
      ((∀ r, (name, r) ∉ results) ∧ (writeState state results).get name = state.get name) := by
  unfold writeState
  induction results using List.reverseRecOn with
  | nil => simp
  | append_singleton results last ih =>
    rw [List.foldl_append, List.foldl_cons, List.foldl_nil, Dict.get_set]
    by_cases hn : last.1 = name
    · refine .inl ⟨last.2, ?_, if_pos hn⟩
      rw [← hn]
      simp
    · rw [if_neg hn]
      rcases ih with ⟨r, hr, hget⟩ | ⟨hnone, hget⟩
      · exact .inl ⟨r, by simp [hr], hget⟩
      · refine .inr ⟨fun r hr => ?_, hget⟩
        rcases List.mem_append.mp hr with hr | hr
        · exact hnone r hr
        · rw [List.mem_singleton] at hr
          exact hn (congrArg Prod.fst hr).symm

lemma grows_writeState (h : verifyExport verify exported roots state tenant = .ok results) (hc : Clean results) :
    Grows state (writeState state results) := by
  intro name was hwas
  rcases writeState_get state results name with ⟨r, hr, hget⟩ | ⟨-, hget⟩
  · obtain ⟨data, -, -, hext⟩ := verifyExport_result h hc hr
    exact ⟨r.snapshot, hget, hext was hwas⟩
  · exact ⟨was, hget.trans hwas, .refl was⟩

end Run

/-- Every attestation, statement and block that the state recorded is in the export, under its tenant, number and
hash. -/
structure Remembered (state : State) (exported : Export) : Prop where
  attestations : ∀ tenant was n v, state.get tenant = some was → was.attestations.get n = some v →
    ∃ data, exported.get tenant = some data ∧
      ∃ a ∈ data.attestations, toString a.signerSeq = n ∧ a.attestationHash = v
  statements : ∀ tenant was n v, state.get tenant = some was → was.statements.get n = some v →
    ∃ data, exported.get tenant = some data ∧ ∃ s ∈ data.statements, toString s.stmtSeq = n ∧ s.statementHash = v
  blocks : ∀ tenant was n v, state.get tenant = some was → was.blocks.get n = some v →
    ∃ data, exported.get tenant = some data ∧ ∃ b ∈ data.blocks, toString b.1 = n ∧ b.2 = v

/-- The checkpoint that was cosigned when the state was recorded is a checkpoint of the export, and a statement of the
export's trust log cosigns it. -/
def StillCosigned (verify : Verifier) (roots : Roots) (state : State) (exported : Export) : Prop :=
  ∀ tenant was, state.get tenant = some was → 0 < was.cosignedCheckpointSeq →
    ∃ data, exported.get tenant = some data ∧
      ∃ a ∈ data.attestations, a.signerSeq = was.cosignedCheckpointSeq ∧ a.kind = "checkpoint" ∧
        ∃ x ∈ (evaluateTrust verify tenant roots.keys data.statements).cosigns,
          x.checkpointSeq = a.signerSeq ∧ x.checkpointHash = a.attestationHash

def Snapshot.HasFacts (was : Snapshot) : Prop :=
  ∃ n v, was.attestations.get n = some v ∨ was.statements.get n = some v ∨ was.blocks.get n = some v

/-- Every tenant that something was recorded of is in the export. -/
def TenantsExported (state : State) (exported : Export) : Prop :=
  ∀ tenant was, state.get tenant = some was → was.HasFacts → (exported.get tenant).isSome

section Facts

variable {tenant : String} {data : TenantData} {roots : Roots} {r : TenantResult}

lemma Checked.attestation_mem (h : Checked verify tenant data roots r) {n v : String}
    (hn : r.snapshot.attestations.get n = some v) :
    ∃ a ∈ data.attestations, toString a.signerSeq = n ∧ a.attestationHash = v := by
  rw [h.snapshot] at hn
  obtain ⟨a, ha, heq⟩ := List.mem_map.mp (Dict.mem_ofPairs (Dict.get_mem hn))
  exact ⟨a, ha, congrArg Prod.fst heq, congrArg Prod.snd heq⟩

lemma Checked.statement_mem (h : Checked verify tenant data roots r) {n v : String}
    (hn : r.snapshot.statements.get n = some v) :
    ∃ s ∈ data.statements, toString s.stmtSeq = n ∧ s.statementHash = v := by
  rw [h.snapshot] at hn
  obtain ⟨s, hs, heq⟩ := List.mem_map.mp (Dict.mem_ofPairs (Dict.get_mem hn))
  exact ⟨s, hs, congrArg Prod.fst heq, congrArg Prod.snd heq⟩

lemma Checked.block_mem (h : Checked verify tenant data roots r) {n v : String}
    (hn : r.snapshot.blocks.get n = some v) : ∃ b ∈ data.blocks, toString b.1 = n ∧ b.2 = v := by
  rw [h.snapshot] at hn
  obtain ⟨b, hb, heq⟩ := List.mem_map.mp (Dict.mem_ofPairs (Dict.get_mem hn))
  exact ⟨b, Dict.mem_ofPairs hb, congrArg Prod.fst heq, congrArg Prod.snd heq⟩

/-- A number of a clean trust log names one statement. -/
lemma Checked.statement_get (h : Checked verify tenant data roots r) {s : Statement} (hs : s ∈ data.statements) :
    r.snapshot.statements.get (toString s.stmtSeq) = some s.statementHash := by
  rw [h.snapshot]
  refine Dict.get_ofPairs_of_nodup ?_ (List.mem_map.mpr ⟨s, hs, rfl⟩)
  rw [List.map_map]
  have hdistinct := (evaluateTrust_clean h.trust).distinct.map (f := fun n : ℤ => toString n)
    (fun _ _ => int_text_injective)
  simpa [List.map_map, Function.comp_def] using hdistinct

/-- A cosigned checkpoint of a clean tenant comes from a statement, and it is in the log. -/
lemma Checked.cosigned (h : Checked verify tenant data roots r) (hpos : 0 < r.snapshot.cosignedCheckpointSeq) :
    ∃ s ∈ data.statements, ∃ x, cosignOf s = some x ∧ x.checkpointSeq = r.snapshot.cosignedCheckpointSeq := by
  obtain ⟨-, hzero | ⟨x, hx, hseq⟩⟩ := evaluateAttestations_clean h.attestations
  · rw [h.snapshot] at hpos
    exact absurd hzero hpos.ne'
  · obtain ⟨s, hs, hcosign⟩ := ((evaluateTrust_clean h.trust).cosigns x).mp hx
    exact ⟨s, hs, x, hcosign, by rw [hseq, h.snapshot]; rfl⟩

end Facts

structure Run where
  exported : Export
  roots : Roots
  tenant : Option String

/-- Runs that found no problem, each of which recorded what it saw. -/
inductive CleanRuns (verify : Verifier) (start : State) : List Run → State → Prop
  | nil : CleanRuns verify start [] start
  | snoc {state : State} {runs : List Run} {run : Run} {results : List (String × TenantResult)} :
      CleanRuns verify start runs state →
      verifyExport verify run.exported run.roots state run.tenant = .ok results → Clean results →
      CleanRuns verify start (runs ++ [run]) (writeState state results)

lemma CleanRuns.grows {start state : State} {runs : List Run} (h : CleanRuns verify start runs state) :
    Grows start state := by
  induction h with
  | nil => exact .refl _
  | snoc _ hv hc ih => exact ih.trans (grows_writeState hv hc)

/-- The cosignature of a recorded checkpoint is a recorded statement of one of the runs. -/
def Vouched (runs : List Run) (tenant : String) (was : Snapshot) : Prop :=
  ∃ run ∈ runs, ∃ data, run.exported.get tenant = some data ∧ ∃ s ∈ data.statements, ∃ x t,
    cosignOf s = some x ∧ x.checkpointSeq = was.cosignedCheckpointSeq ∧ Free '|' s.keyId ∧
      statementText tenant s = some t ∧ was.statements.get (toString s.stmtSeq) = some (sha256Hex t).text

lemma CleanRuns.vouched {state : State} {runs : List Run} (h : CleanRuns verify [] runs state) {tenant : String}
    {was : Snapshot} (hw : state.get tenant = some was) (hpos : 0 < was.cosignedCheckpointSeq) :
    Vouched runs tenant was := by
  induction h with
  | nil => simp at hw
  | @snoc state runs run results hruns hv hc ih =>
    rcases writeState_get state results tenant with ⟨r, hr, hget⟩ | ⟨-, hget⟩
    · obtain rfl : was = r.snapshot := Option.some.inj (hw.symm.trans hget)
      obtain ⟨data, hd, hchecked, -⟩ := verifyExport_result hv hc hr
      obtain ⟨s, hs, x, hx, hseq⟩ := hchecked.cosigned hpos
      have hclean := evaluateTrust_clean hchecked.trust
      obtain ⟨t, ht, hhash⟩ := hclean.text s hs
      have hfree := (hclean.cosign s hs (cosignOf_eq hx).1).1
      refine ⟨run, by simp, data, hd, s, hs, x, t, hx, hseq, hfree, ht, ?_⟩
      rw [hchecked.statement_get hs, hhash]
    · obtain ⟨run', hrun, hrest⟩ := ih (hget.symm.trans hw)
      exact ⟨run', by simp [hrun], hrest⟩

/-- No statement of the export has the hash of another text that an earlier run read. -/
def NoCollision (runs : List Run) (exported : Export) : Prop :=
  ∀ run ∈ runs, ∀ tenant data now, run.exported.get tenant = some data → exported.get tenant = some now →
    ∀ s ∈ data.statements, ∀ u ∈ now.statements, ∀ t t', statementText tenant s = some t →
      statementText tenant u = some t' → (sha256Hex t).text = (sha256Hex t').text → t = t'

section Last

variable {exported : Export} {roots : Roots} {state : State} {results : List (String × TenantResult)}

lemma remembered_iff (h : verifyExport verify exported roots state none = .ok results) (hc : Clean results) :
    Remembered state exported ↔ TenantsExported state exported := by
  constructor
  · rintro ⟨ha, hs, hb⟩ tenant was hw ⟨n, v, hn | hn | hn⟩
    · obtain ⟨data, hd, -⟩ := ha tenant was n v hw hn
      simp [hd]
    · obtain ⟨data, hd, -⟩ := hs tenant was n v hw hn
      simp [hd]
    · obtain ⟨data, hd, -⟩ := hb tenant was n v hw hn
      simp [hd]
  · intro he
    have hdata : ∀ tenant was, state.get tenant = some was → was.HasFacts → ∃ data r,
        exported.get tenant = some data ∧ Checked verify tenant data roots r ∧ r.snapshot.Extends was := by
      intro tenant was hw hfacts
      obtain ⟨data, hd⟩ := Option.isSome_iff_exists.mp (he tenant was hw hfacts)
      obtain ⟨r, -, hchecked, hext⟩ := verifyExport_all h hc hd
      exact ⟨data, r, hd, hchecked, hext was hw⟩
    refine ⟨fun tenant was n v hw hn => ?_, fun tenant was n v hw hn => ?_, fun tenant was n v hw hn => ?_⟩
    · obtain ⟨data, r, hd, hchecked, hext⟩ := hdata tenant was hw ⟨n, v, .inl hn⟩
      exact ⟨data, hd, hchecked.attestation_mem (hext.attestations n v hn)⟩
    · obtain ⟨data, r, hd, hchecked, hext⟩ := hdata tenant was hw ⟨n, v, .inr (.inl hn)⟩
      exact ⟨data, hd, hchecked.statement_mem (hext.statements n v hn)⟩
    · obtain ⟨data, r, hd, hchecked, hext⟩ := hdata tenant was hw ⟨n, v, .inr (.inr hn)⟩
      exact ⟨data, hd, hchecked.block_mem (hext.blocks n v hn)⟩

/-- The cosignature itself is remembered: its statement is recorded by a hash that no other statement has. -/
lemma stillCosigned {runs : List Run} (hruns : CleanRuns verify [] runs state) (hsha : NoCollision runs exported)
    (h : verifyExport verify exported roots state none = .ok results) (hc : Clean results)
    (he : TenantsExported state exported) : StillCosigned verify roots state exported := by
  intro tenant was hw hpos
  obtain ⟨run, hrun, data, hd, s, hs, x, t, hx, hseq, hfree, ht, hrec⟩ := hruns.vouched hw hpos
  obtain ⟨now, hnow⟩ := Option.isSome_iff_exists.mp (he tenant was hw ⟨_, _, .inr (.inl hrec)⟩)
  obtain ⟨r, -, hchecked, hext⟩ := verifyExport_all h hc hnow
  have hclean := evaluateTrust_clean hchecked.trust
  -- the statement of the export that has the recorded number and hash
  obtain ⟨u, hu, -, huhash⟩ := hchecked.statement_mem ((hext was hw).statements _ _ hrec)
  obtain ⟨t', ht', hhash⟩ := hclean.text u hu
  obtain rfl : t = t' := hsha run hrun tenant data now hd hnow s hs u hu t t' ht ht' (by rw [hhash, huhash])
  obtain ⟨y, hy, hyseq⟩ := statementText_cosign ht ht' hx hfree (hclean.cosign u hu)
  have hin := (hclean.cosigns y).mpr ⟨u, hu, hy⟩
  obtain ⟨a, ha, haseq, hakind, hahash⟩ := (evaluateAttestations_clean hchecked.attestations).1 y hin
  refine ⟨now, hnow, a, ha, ?_, hakind, y, hin, haseq.symm, hahash.symm⟩
  rw [haseq, hyseq, hseq]

end Last

def noSigner : Verifier := fun _ _ => .error "no signature"

def oneRoot : Roots := Roots.empty.add ⟨[], [], fingerprint [], "root"⟩ rfl

/-- A tenant that has sealed blocks and signed nothing. -/
def sealed (blocks : List (ℤ × String)) : TenantData := ⟨[], [], blocks, []⟩

def labRun : Run := ⟨[("lab", sealed [(1, genesis.text)])], oneRoot, none⟩

def labRecord : State := [("lab", ⟨[], [], [("1", genesis.text)], 0⟩)]

lemma evaluate_sealed (tenant : String) (roots : Roots) (truth : Truth) :
    (evaluateTrust verify tenant roots.keys []).problems = [] ∧
      evaluateAttestations verify tenant (evaluateTrust verify tenant roots.keys []) [] truth = .ok ([], .empty) := by
  simp [evaluateTrust, evaluateAttestations, bySignerSeq, AttestationLoop.start, bind, Except.bind, pure, Except.pure]

lemma checkTenant_sealed (tenant : String) (roots : Roots) (blocks : List (ℤ × String)) :
    checkTenant verify tenant (sealed blocks) roots none =
      .ok ⟨[], .empty, snapshotOf (sealed blocks) (Dict.ofPairs blocks) .empty,
        evaluateTrust verify tenant roots.keys []⟩ := by
  obtain ⟨htrust, hrows⟩ := @evaluate_sealed verify tenant roots
    (dictTruth (Dict.ofPairs blocks) [])
  simp only [checkTenant, sealed, htrust, hrows, bind, Except.bind, pure, Except.pure, List.append_nil]

lemma oneRoot_pinned : oneRoot.keys ≠ [] := by
  simp [oneRoot, Roots.add, Roots.empty, Dict.set, KeyedTable.upsert]

lemma labRun_recorded : CleanRuns noSigner [] [labRun] labRecord := by
  have hv : verifyExport noSigner labRun.exported labRun.roots [] labRun.tenant =
      .ok [("lab", ⟨[], .empty, snapshotOf (sealed [(1, genesis.text)]) [(1, genesis.text)] .empty,
        evaluateTrust noSigner "lab" oneRoot.keys []⟩)] := by
    simp [verifyExport, labRun, oneRoot_pinned, byName, checkNamed, Dict.get, KeyedTable.row, checkTenant_sealed,
      bind, Except.bind, pure, Except.pure]
    rfl
  exact CleanRuns.nil.snoc hv (by simp [Clean])

/-- The next export of the same tenant, one block further. -/
def labLater : Export := [("lab", sealed [(1, genesis.text), (2, genesis.text)])]

lemma labLater_clean : ∃ results, verifyExport noSigner labLater oneRoot labRecord none = .ok results ∧
    Clean results := by
  obtain ⟨htrust, hrows⟩ := @evaluate_sealed noSigner "lab" oneRoot
    (dictTruth [(1, genesis.text), (2, genesis.text)] [])
  have hsorted : sortedByNumber [("1", genesis.text)] = .ok [("1", genesis.text)] := by
    have hone : intText "1" = some 1 := by decide
    simp [sortedByNumber, hone, bind, Except.bind, pure, Except.pure]
  have hseen : seenProblems ⟨[], [], [("1", genesis.text)], 0⟩
      (snapshotOf (sealed [(1, genesis.text), (2, genesis.text)]) [(1, genesis.text), (2, genesis.text)] .empty)
      .empty [] = .ok [] := by
    have hnone : ∀ label now, compareItems label [] now = .ok [] := by
      simp [compareItems, sortedByNumber, bind, Except.bind, pure, Except.pure]
    have hblocks : compareItems "block" [("1", genesis.text)]
        (snapshotOf (sealed [(1, genesis.text), (2, genesis.text)]) [(1, genesis.text), (2, genesis.text)]
          .empty).blocks = .ok [] := by
      simp only [compareItems, hsorted, bind, Except.bind, pure, Except.pure]
      rfl
    simp only [seenProblems, hnone, hblocks, bind, Except.bind, pure, Except.pure]
    rfl
  have hcheck : checkTenant noSigner "lab" (sealed [(1, genesis.text), (2, genesis.text)]) oneRoot
      (some ⟨[], [], [("1", genesis.text)], 0⟩) = .ok ⟨[], .empty,
        snapshotOf (sealed [(1, genesis.text), (2, genesis.text)]) [(1, genesis.text), (2, genesis.text)] .empty,
        evaluateTrust noSigner "lab" oneRoot.keys []⟩ := by
    have hpairs : Dict.ofPairs [((1 : ℤ), genesis.text), (2, genesis.text)] = [(1, genesis.text), (2, genesis.text)] :=
      rfl
    simp only [sealed] at hseen ⊢
    simp only [checkTenant, hpairs, htrust, hrows, hseen, bind, Except.bind, pure, Except.pure, List.append_nil]
  refine ⟨[("lab", ⟨[], .empty, snapshotOf (sealed [(1, genesis.text), (2, genesis.text)])
    [(1, genesis.text), (2, genesis.text)] .empty, evaluateTrust noSigner "lab" oneRoot.keys []⟩)], ?_, by simp [Clean]⟩
  simp [verifyExport, labLater, labRecord, oneRoot_pinned, byName, checkNamed, Dict.get, KeyedTable.row, hcheck,
    bind, Except.bind, pure, Except.pure]

/-- An export of another tenant alone. -/
def labGone : Export := [("operator", sealed [])]

end ContinuityLedger.Signatures
