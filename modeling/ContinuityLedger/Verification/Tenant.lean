import ContinuityLedger.Blocks.Agreement
import ContinuityLedger.Blocks.Cited
import ContinuityLedger.Signatures.Storing

/-! What `pg_verify` finds in the rows of one tenant: its history, its evidence objects, its blocks, what these cite, and
its signing logs. As a command: which tenants it looks at when it is given one and when it is given `--all`, and its exit
code. -/

namespace ContinuityLedger.Verification

open Foundations Foundations.Sha256 Ledger Blocks Evidence Signatures

structure EvidenceRow where
  object : EvidenceObject
  createdAt : Calendar.Instant

/-- Everything a tenant has in the database, as its constraints let it be. -/
structure TenantRows where
  tables : Tables
  blocks : List Block
  attestations : List Attestation
  statements : List Signatures.Statement
  evidence : List EvidenceRow
  board : Bool
  counter : ∀ c ∈ tables.counter, 0 ≤ c
  blockChecks : ∀ b ∈ blocks, b.checks = true

def TenantRows.empty : TenantRows := ⟨Tables.empty, [], [], [], [], false, by simp [Tables.empty], by simp⟩

inductive Mode
  | off | warn | require
deriving DecidableEq

/-- What is outside the database: the interpreter, the signature check, `JARVIS_SIGNATURES`, the trust roots, and for the
instant of something unsigned its age and the grace as they are printed, where it is older than the grace. -/
structure Environment where
  rt : Runtime
  verify : Verifier
  mode : Mode
  roots : Except Signatures.Raised (Dict String PublicKey)
  overdue : Calendar.Instant → Option String

/-- What ends the run. -/
inductive Crash
  | evidence (e : Exn)
  | attest (e : Signatures.Raised)
  | database

structure Report where
  problems : List Signatures.Problem
  warnings : List String

def Report.empty : Report := ⟨[], []⟩

/-- A part that `require` fails for and `warn` warns of. -/
def Report.note (r : Report) (mode : Mode) (check subject message : String) : Report :=
  if mode = .require then { r with problems := r.problems ++ [⟨check, subject, message⟩] }
  else { r with warnings := r.warnings ++ [message] }

/-- What is unsigned and older than the grace, with the text about it. -/
def overdueLabels (env : Environment) (rows : TenantRows) (summary : AttestationSummary) : List (String × String) :=
  let blocks := ((byHeight rows.blocks).filter fun b => !summary.blocks.any fun h => (h : ℤ) = b.height).map fun b =>
    ("block " ++ toString b.height, b.sealedAt)
  let receipts := (rows.evidence.filter fun r =>
    r.object.schemaId = cesReplayReceipt && !decide (r.object.id ∈ summary.receipts)).map fun r =>
    ("receipt " ++ r.object.id, r.createdAt)
  (blocks ++ receipts).filterMap fun p => (env.overdue p.2).map fun ages => (p.1, p.1 ++ " is unsigned " ++ ages)

def unverifiedText (rows : TenantRows) : String :=
  "signatures not verified: no trust root is configured (JARVIS_TRUST_ROOTS_FILE), so " ++
    toString rows.statements.length ++ " statement(s) and " ++ toString rows.attestations.length ++
    " attestation(s) cannot be checked"

/-- The logs against the roots. -/
def verifyLogs (env : Environment) (tenant : String) (rows : TenantRows) (roots : Dict String PublicKey) :
    Except Crash Report := do
  let trust := evaluateTrust env.verify tenant roots rows.statements
  let truth ← (Storing.loadTruth env.rt rows.blocks (rows.evidence.map (·.object))).mapError .evidence
  let (problems, summary) ← (evaluateAttestations env.verify tenant trust rows.attestations truth).mapError .attest
  let found : Report := ⟨trust.problems ++ problems, []⟩
  if trust.keys = [] then return found
  return (overdueLabels env rows summary).foldl (fun r p => r.note env.mode "unsigned" p.1 p.2) found

/-- `verify_tenant`. -/
def verifyTenant (env : Environment) (tenant : String) (rows : TenantRows) : Except Crash Report :=
  if env.mode = .off then .ok .empty else do
  let roots ← env.roots.mapError .attest
  if rows.statements = [] ∧ rows.attestations = [] then return .empty
  if roots = [] then return Report.empty.note env.mode "signatures" "trust roots" (unverifiedText rows)
  verifyLogs env tenant rows roots

structure Finding where
  tenant : String
  record : Option String
  problem : PyStr

def historyFindings (tenant : String) (rows : TenantRows) : List Finding :=
  (jarvisVerifyHistory rows.tables none).map fun p => ⟨tenant, p.memoryId, text p.problem⟩

def objectFindings (rt : Runtime) (tenant : String) (row : EvidenceRow) : Except Crash (List Finding) :=
  ((verifyStored rt row.object).mapError .evidence).map fun problems =>
    problems.map fun p => ⟨tenant, some row.object.id, text "evidence object: " ++ p⟩

def evidenceFindings (env : Environment) (tenant : String) (rows : TenantRows) : Except Crash (List Finding) :=
  ((rows.evidence.mergeSort fun a b => a.object.id ≤ b.object.id).mapM (objectFindings env.rt tenant)).map List.flatten

/-- The database's own verifier, then the recomputation. -/
def blockFindings (tenant : String) (rows : TenantRows) : Except Crash (List Finding) :=
  match verifyWith (blockChecks rows.tables) rows.blocks with
  | none => .error .database
  | some problems =>
    .ok ((problems.map (fun p => ("block " ++ toString p.height, p.problem)) ++
      recomputation rows.tables tenant rows.blocks).map fun p => ⟨tenant, some p.1, text ("blocks: " ++ p.2)⟩)

def citeFindings (env : Environment) (tenant : String) (rows : TenantRows) : Except Crash (List Finding) :=
  ((blockEvidenceProblems env.rt rows.tables rows.blocks (rows.evidence.map (·.object))).mapError .evidence).map
    fun problems => problems.map fun p => ⟨tenant, some p.1, text "blocks: " ++ p.2⟩

def signatureFindings (env : Environment) (tenant : String) (rows : TenantRows) : Except Crash (List Finding) :=
  (verifyTenant env tenant rows).map fun r =>
    r.problems.map fun p => ⟨tenant, some p.subject, text ("signatures: [" ++ p.check ++ "] " ++ p.problem)⟩

/-- All that is checked of a tenant, in the order of the checks. -/
def tenantFindings (env : Environment) (tenant : String) (rows : TenantRows) : Except Crash (List Finding) := do
  let history := historyFindings tenant rows
  let evidence ← evidenceFindings env tenant rows
  let blocks ← blockFindings tenant rows
  let cites ← citeFindings env tenant rows
  let signatures ← signatureFindings env tenant rows
  return history ++ evidence ++ blocks ++ cites ++ signatures

open Foundations Foundations.Sha256 Foundations.HashChain Ledger Blocks Evidence Signatures

/-- The database's rows by tenant. -/
abbrev Database := Dict String TenantRows

def Database.rows (db : Database) (tenant : String) : TenantRows := (db.get tenant).getD .empty

/-- The tables in which a tenant may appear, but for the board. -/
def TenantRows.appears (rows : TenantRows) : Bool :=
  !rows.tables.history.isEmpty || !rows.tables.heads.isEmpty || rows.tables.counter.isSome || !rows.blocks.isEmpty ||
    !rows.attestations.isEmpty || !rows.statements.isEmpty || !rows.evidence.isEmpty || !rows.tables.memories.isEmpty

/-- `_tenant_known`. -/
def TenantRows.known (rows : TenantRows) : Bool := rows.appears || rows.board

/-- `--tenant` or `--all`, with `--allow-empty`. -/
structure Arguments where
  tenant : Option String
  all : Bool
  allowEmpty : Bool

def unknownFinding (tenant : String) : Finding :=
  ⟨tenant, some "-", text ("no history, blocks, attestations or records exist for this tenant: a typo, or a tenant that " ++
    "was never written (nothing was verified; pass --allow-empty if an empty ledger is expected)")⟩

/-- `SELECT DISTINCT tenant_key FROM record_history ORDER BY 1`. -/
def historyTenants (db : Database) : List String :=
  (((db.map Prod.fst).filter fun tenant => !(db.rows tenant).tables.history.isEmpty).dedup).mergeSort fun a b => a ≤ b

def tenantsOf (db : Database) (args : Arguments) : List String :=
  if args.all then historyTenants db else [args.tenant.getD "operator"]

def checkTenant (env : Environment) (db : Database) (args : Arguments) (tenant : String) : Except Crash (List Finding) :=
  if !args.all && !(args.allowEmpty || args.tenant.isNone) && tenant ≠ "operator" && !(db.rows tenant).known then
    .ok [unknownFinding tenant]
  else tenantFindings env tenant (db.rows tenant)

/-- What an interpreter exits with: an exception that nothing catches is 1. -/
def exitCode (found : Except Crash (List Finding)) : ℕ :=
  match found with
  | .ok [] => 0
  | _ => 1

/-- The exit code of `main`, where a database is configured. -/
def main (env : Environment) (db : Database) (args : Arguments) : ℕ :=
  if args.tenant.any (PyText.strip · = "") then 1 else
  exitCode (((tenantsOf db args).mapM (checkTenant env db args)).map List.flatten)

def verifyAll (env : Environment) (db : Database) : ℕ := main env db ⟨none, true, false⟩

def verifyNamed (env : Environment) (db : Database) (tenant : String) : ℕ := main env db ⟨some tenant, false, false⟩

/-- `--all` stands for every tenant that appears in the database. -/
def CoversAll (env : Environment) (db : Database) : Prop :=
  verifyAll env db = 0 → ∀ tenant, (db.rows tenant).appears = true → verifyNamed env db tenant = 0

/-- Nothing is found in the tenant's rows. -/
def Clean (env : Environment) (tenant : String) (rows : TenantRows) : Prop := tenantFindings env tenant rows = .ok []

lemma exitCode_eq_zero {found : Except Crash (List Finding)} : exitCode found = 0 ↔ found = .ok [] := by
  match found with
  | .ok [] => simp [exitCode]
  | .ok (_ :: _) => simp [exitCode]
  | .error _ => simp [exitCode]

lemma flatten_eq_ok_nil {α β : Type} {f : α → Except Crash (List β)} {xs : List α} :
    (xs.mapM f).map List.flatten = .ok [] ↔ ∀ x ∈ xs, f x = .ok [] := by
  constructor
  · intro h x hx
    obtain ⟨lists, hlists, hflat⟩ := Checks.map_ok h
    obtain ⟨found, hfound, hf⟩ := (Checks.mapM_ok_iff hlists).1 x hx
    rw [hf, List.flatten_eq_nil_iff.mp hflat found hfound]
  · intro h
    rw [Checks.mapM_eq_map (g := fun _ => []) h]
    simp [Except.map]

lemma mem_historyTenants {db : Database} {tenant : String} :
    tenant ∈ historyTenants db ↔ (db.rows tenant).tables.history ≠ [] := by
  simp only [historyTenants, List.mem_mergeSort, List.mem_dedup, List.mem_filter, List.mem_map]
  constructor
  · rintro ⟨-, h⟩
    simpa using h
  · intro h
    refine ⟨?_, by simpa using h⟩
    cases hget : db.get tenant with
    | none => simp [Database.rows, hget, TenantRows.empty, Tables.empty] at h
    | some rows => exact ⟨_, Dict.get_mem hget, rfl⟩

lemma verifyAll_eq_zero {env : Environment} {db : Database} :
    verifyAll env db = 0 ↔ ∀ tenant, (db.rows tenant).tables.history ≠ [] → Clean env tenant (db.rows tenant) := by
  simp only [verifyAll, main, tenantsOf, Option.any_none, Bool.false_eq_true, if_false, if_true, exitCode_eq_zero,
    flatten_eq_ok_nil, mem_historyTenants, checkTenant, Bool.not_true, Bool.false_and, Clean]

lemma verifyNamed_eq_zero {env : Environment} {db : Database} {tenant : String}
    (h : (db.rows tenant).appears = true) :
    verifyNamed env db tenant = 0 ↔ PyText.strip tenant ≠ "" ∧ Clean env tenant (db.rows tenant) := by
  have hknown : (db.rows tenant).known = true := by rw [TenantRows.known, h, Bool.true_or]
  simp only [verifyNamed, main, Option.any_some, decide_eq_true_eq]
  split_ifs with hblank
  · simp [hblank]
  · simp only [exitCode_eq_zero, flatten_eq_ok_nil, tenantsOf, checkTenant, Bool.false_eq_true, if_false,
      Option.getD_some, List.mem_singleton, forall_eq, hknown, Bool.not_true, Bool.and_false, hblank, ne_eq,
      not_false_eq_true, true_and, Clean]

/-- What a tenant without history may still have: nothing that the history or a block speaks of, evidence objects that
verify, and signing logs that verify. -/
structure NothingLeft (env : Environment) (tenant : String) (rows : TenantRows) : Prop where
  heads : rows.tables.heads = []
  counter : ∀ c ∈ rows.tables.counter, c = 0
  memories : rows.tables.memories = []
  blocks : rows.blocks = []
  evidence : ∀ r ∈ rows.evidence, verifyStored env.rt r.object = .ok []
  signatures : ∃ r, verifyTenant env tenant rows = .ok r ∧ r.problems = []

lemma findings_map_nil {α : Type} {x : Except Crash (List α)} {g : α → Finding} :
    x.map (List.map g) = .ok [] ↔ x = .ok [] := by
  cases x with
  | error e => simp [Except.map]
  | ok found => simp [Except.map]

lemma mapError_ok_iff {α ε : Type} {x : Except ε α} {f : ε → Crash} {a : α} : x.mapError f = .ok a ↔ x = .ok a := by
  cases x with
  | error e => simp [Except.mapError]
  | ok b => simp [Except.mapError]

lemma clean_iff {env : Environment} {tenant : String} {rows : TenantRows} : Clean env tenant rows ↔
    historyFindings tenant rows = [] ∧ evidenceFindings env tenant rows = .ok [] ∧ blockFindings tenant rows = .ok [] ∧
      citeFindings env tenant rows = .ok [] ∧ signatureFindings env tenant rows = .ok [] := by
  constructor
  · intro h
    obtain ⟨evidence, hevidence, h⟩ := Checks.bind_ok h
    obtain ⟨blocks, hblocks, h⟩ := Checks.bind_ok h
    obtain ⟨cites, hcites, h⟩ := Checks.bind_ok h
    obtain ⟨signatures, hsignatures, h⟩ := Checks.bind_ok h
    have hnil := Except.ok.inj h
    simp only [List.append_eq_nil_iff] at hnil
    obtain ⟨⟨⟨⟨hhistory, rfl⟩, rfl⟩, rfl⟩, rfl⟩ := hnil
    exact ⟨hhistory, hevidence, hblocks, hcites, hsignatures⟩
  · rintro ⟨hhistory, hevidence, hblocks, hcites, hsignatures⟩
    rw [Clean, tenantFindings, hhistory, hevidence, hblocks, hcites, hsignatures]
    rfl

lemma evidenceFindings_eq_nil {env : Environment} {tenant : String} {rows : TenantRows} :
    evidenceFindings env tenant rows = .ok [] ↔ ∀ r ∈ rows.evidence, verifyStored env.rt r.object = .ok [] := by
  rw [evidenceFindings, flatten_eq_ok_nil]
  simp only [List.mem_mergeSort, objectFindings, findings_map_nil, mapError_ok_iff]

lemma signatureFindings_eq_nil {env : Environment} {tenant : String} {rows : TenantRows} :
    signatureFindings env tenant rows = .ok [] ↔ ∃ r, verifyTenant env tenant rows = .ok r ∧ r.problems = [] := by
  rw [signatureFindings]
  cases verifyTenant env tenant rows with
  | error e => simp [Except.map]
  | ok r => simp [Except.map]

lemma entryAt_none {t : Tables} (h : t.history = []) (n : ℤ) : t.entryAt n = none := by
  rw [Tables.entryAt, h]
  rfl

lemma chainPass_nil {t : Tables} (h : t.history = []) : chainPass t none = [] := by
  rw [chainPass, h, List.filter_nil, List.mergeSort_nil]
  rfl

lemma headlessPass_nil {t : Tables} (h : t.history = []) : headlessPass t none = [] := by
  simp [headlessPass, h]

/-- A count above zero is a count of entries that are missing. -/
lemma sequencePass_eq_nil {t : Tables} (h : t.history = []) (hc : ∀ c ∈ t.counter, 0 ≤ c) :
    sequencePass t = [] ↔ ∀ c ∈ t.counter, c = 0 := by
  cases hcounter : t.counter with
  | none => simp [sequencePass, h, hcounter]
  | some c =>
    have hpos : 0 ≤ c := hc c hcounter
    simp only [sequencePass, h, hcounter, List.map_nil, List.max?_nil, List.any_nil, Bool.not_false, List.filter_true,
      List.nil_append, List.map_eq_nil_iff, List.take_eq_nil_iff, OfNat.ofNat_ne_zero, false_or, Option.mem_def,
      Option.some.injEq, forall_eq']
    rw [← List.length_eq_zero_iff, series_length]
    omega

lemma headPass_eq_nil {t : Tables} (h : t.history = []) : headPass t none = [] ↔ t.heads = [] := by
  have hcheck : ∀ head : ChainHead, headCheck t head ≠ [] := by
    intro head
    rw [headCheck, entryAt_none h]
    exact List.cons_ne_nil _ _
  have hall : t.heads.filter (fun head => selected none head.id) = t.heads := List.filter_true _
  simp only [headPass, hall, List.flatMap_eq_nil_iff, hcheck, imp_false, ← List.eq_nil_iff_forall_not_mem]

lemma livePass_eq_nil {t : Tables} (h : t.history = []) : livePass t none = [] ↔ t.memories = [] := by
  have hdiffers : ∀ m : Memory, liveDiffers t m = true := by
    intro m
    have hentry : headEntry t m = none := by
      rw [headEntry, Option.bind_eq_none_iff]
      exact fun head _ => entryAt_none h head.lastSeq
    rw [liveDiffers, hentry]
    cases t.head m.id with
    | none => rfl
    | some head => rfl
  simp [livePass, selected, hdiffers, List.eq_nil_iff_forall_not_mem]

/-- Without history every chain head, every record and every count is reported. -/
lemma historyFindings_eq_nil {tenant : String} {rows : TenantRows} (h : rows.tables.history = []) :
    historyFindings tenant rows = [] ↔
      rows.tables.heads = [] ∧ (∀ c ∈ rows.tables.counter, c = 0) ∧ rows.tables.memories = [] := by
  rw [historyFindings, List.map_eq_nil_iff, jarvisVerifyHistory, chainPass_nil h, headlessPass_nil h]
  simp only [Option.isNone_none, if_true, List.append_eq_nil_iff, sequencePass_eq_nil h rows.counter, headPass_eq_nil h, livePass_eq_nil h]
  tauto

lemma recompute_ne_nil {t : Tables} {tenant : String} {p : Hex64 × ℤ × ℤ} {b : Block} (h : t.history = [])
    (hb : b.checks = true) : recompute t tenant p b ≠ [] := by
  have hcount : 1 ≤ b.entryCount := (Block.checks_bounds hb).2.2.1
  have hrows : (rowHashes t b.firstSeq b.lastSeq).length = 0 := by simp [rowHashes, h]
  have hbad : ((rowHashes t b.firstSeq b.lastSeq).length : ℤ) ≠ b.entryCount ∨
      b.entryCount ≠ b.lastSeq - b.firstSeq + 1 := .inl (by omega)
  simp only [recompute, if_pos hbad, ne_eq, List.append_eq_nil_iff, and_false, false_and, not_false_eq_true,
    List.cons_ne_nil]

/-- Without history every block is reported. -/
lemma blockFindings_eq_nil {tenant : String} {rows : TenantRows} (h : rows.tables.history = []) :
    blockFindings tenant rows = .ok [] ↔ rows.blocks = [] := by
  constructor
  · intro hfound
    cases hsorted : byHeight rows.blocks with
    | nil => exact (hsorted ▸ byHeight_perm rows.blocks).symm.eq_nil
    | cons b rest =>
      have hb : b.checks = true := rows.blockChecks b ((byHeight_perm _).mem_iff.mp (by simp [hsorted]))
      have hrecomputed : recomputation rows.tables tenant rows.blocks ≠ [] := by
        rw [recomputation, hsorted, scan, ne_eq, List.append_eq_nil_iff]
        exact fun hnil => recompute_ne_nil h hb hnil.1
      rw [blockFindings] at hfound
      cases hrows : verifyWith (blockChecks rows.tables) rows.blocks with
      | none => simp [hrows] at hfound
      | some problems => simp [hrows, hrecomputed] at hfound
  · intro hblocks
    simp [blockFindings, hblocks, verifyWith, recomputation, byHeight, scanBigint, heightsCheck, scan]

lemma citeFindings_nil {env : Environment} {tenant : String} {rows : TenantRows} (h : rows.blocks = []) :
    citeFindings env tenant rows = .ok [] := by
  simp [citeFindings, h, blockEvidenceProblems, byHeight, Except.mapError, Except.map, pure, Except.pure, bind,
    Except.bind]

lemma clean_iff_nothingLeft {env : Environment} {tenant : String} {rows : TenantRows} (h : rows.tables.history = []) :
    Clean env tenant rows ↔ NothingLeft env tenant rows := by
  rw [clean_iff, historyFindings_eq_nil h, evidenceFindings_eq_nil, blockFindings_eq_nil h, signatureFindings_eq_nil]
  constructor
  · rintro ⟨⟨hheads, hcounter, hmemories⟩, hevidence, hblocks, -, hsignatures⟩
    exact ⟨hheads, hcounter, hmemories, hblocks, hevidence, hsignatures⟩
  · rintro ⟨hheads, hcounter, hmemories, hblocks, hevidence, hsignatures⟩
    exact ⟨⟨hheads, hcounter, hmemories⟩, hevidence, hblocks, citeFindings_nil hblocks, hsignatures⟩

/-- `--all` stands for every tenant exactly where one with history has a fault, or nothing is left of the others. -/
theorem coversAll_iff (env : Environment) (db : Database) : CoversAll env db ↔
    (∃ tenant, (db.rows tenant).tables.history ≠ [] ∧ ¬ Clean env tenant (db.rows tenant)) ∨
      ∀ tenant, (db.rows tenant).appears = true → PyText.strip tenant ≠ "" ∧
        ((db.rows tenant).tables.history = [] → NothingLeft env tenant (db.rows tenant)) := by
  have hnamed : ∀ tenant, (db.rows tenant).appears = true → (verifyNamed env db tenant = 0 ↔
      PyText.strip tenant ≠ "" ∧ Clean env tenant (db.rows tenant)) := fun _ => verifyNamed_eq_zero
  rw [CoversAll, verifyAll_eq_zero]
  constructor
  · intro h
    by_cases hall : ∀ tenant, (db.rows tenant).tables.history ≠ [] → Clean env tenant (db.rows tenant)
    · refine .inr fun tenant happears => ?_
      obtain ⟨hblank, hclean⟩ := (hnamed tenant happears).mp (h hall tenant happears)
      exact ⟨hblank, fun hhistory => (clean_iff_nothingLeft hhistory).mp hclean⟩
    · simp only [not_forall] at hall
      obtain ⟨tenant, hhistory, hfault⟩ := hall
      exact .inl ⟨tenant, hhistory, hfault⟩
  · rintro (⟨tenant, hhistory, hfault⟩ | hrest) hall tenant' happears
    · exact absurd (hall tenant hhistory) hfault
    · obtain ⟨hblank, hleft⟩ := hrest tenant' happears
      refine (hnamed tenant' happears).mpr ⟨hblank, ?_⟩
      by_cases hhistory : (db.rows tenant').tables.history = []
      · exact (clean_iff_nothingLeft hhistory).mpr (hleft hhistory)
      · exact hall tenant' hhistory

lemma nesting_pos : 0 < 900 := Nat.succ_pos 899

def unsigned : Environment :=
  ⟨⟨⟨id, 900, 900, nesting_pos, nesting_pos⟩, fun _ => true, PyStr.ofString, fun _ => []⟩, fun _ _ => .error "no signature",
    .off, .ok [], fun _ => none⟩

/-- A chain head and a counter, and no history. -/
def headsTables : Tables := { Tables.empty with heads := [⟨"m-1", 1, genesis, false⟩], counter := some 1 }

lemma headsTables_counter : ∀ c ∈ headsTables.counter, 0 ≤ c := by
  rintro c hc
  rw [← Option.some.inj hc]
  exact zero_le_one

lemma no_blocks : ∀ b ∈ ([] : List Block), b.checks = true :=
  fun _ hb => absurd hb List.not_mem_nil

/-- A tenant whose history rows were removed, and its chain heads and counter not. -/
def headsLeft : TenantRows :=
  ⟨headsTables, [], [], [], [], false, headsTables_counter, no_blocks⟩

lemma rows_headsLeft (tenant : String) :
    Database.rows [("acme", headsLeft)] tenant = headsLeft ∨ Database.rows [("acme", headsLeft)] tenant = .empty := by
  cases hget : Dict.get [("acme", headsLeft)] tenant with
  | none => exact .inr (by rw [Database.rows, hget]; rfl)
  | some rows =>
    obtain ⟨-, rfl⟩ := Prod.mk.inj (List.mem_singleton.mp (Dict.get_mem hget))
    exact .inl (by rw [Database.rows, hget]; rfl)

theorem all_passes_over_heads : ¬ CoversAll unsigned [("acme", headsLeft)] := by
  intro h
  have hrows : Database.rows [("acme", headsLeft)] "acme" = headsLeft := rfl
  have hall : verifyAll unsigned [("acme", headsLeft)] = 0 := by
    rw [verifyAll_eq_zero]
    intro tenant hhistory
    obtain heq | heq := rows_headsLeft tenant <;> exact absurd (by rw [heq]; rfl) hhistory
  have happears : (Database.rows [("acme", headsLeft)] "acme").appears = true := by
    rw [hrows]
    decide
  have hclean := ((verifyNamed_eq_zero happears).mp (h hall "acme" happears)).2
  rw [hrows, clean_iff, historyFindings_eq_nil rfl] at hclean
  exact absurd hclean.1.1 (by decide)

end ContinuityLedger.Verification
