import ContinuityLedger.Foundations.Layers
import ContinuityLedger.Records.LedgerFile
import ContinuityLedger.Records.LatestLaws

/-! Lines of records: what supersedes a record, what supersedes that, and whether the newest-first listing still shows
one of them. -/

namespace ContinuityLedger.Records

open Foundations Foundations.Sha256 Ledger Evidence Relation

variable {rt : Runtime} {contentSha256 : String → Hex64} {tenant : String}

/-- A record of the ledger, and one that supersedes it. -/
def SupersededBy (memories : List MemoryRecord) (r s : {m // m ∈ memories}) : Prop := target s.1.supersedes = some r.1.id

/-- Without a limit the listing shows every visible record, or one that has come in its place. -/
def NoLineLost (memories : List MemoryRecord) (list : ℤ → Except StoreError (List (MemoryRecord × Option String))) : Prop :=
  ∀ limit : ℤ, memories.length ≤ limit → limit < 2 ^ 63 → ∃ rows, list limit = .ok rows ∧
    ∀ r : {m // m ∈ memories}, Visible r.1 →
      ∃ s, ReflTransGen (SupersededBy memories) r s ∧ ∃ next, (s.1, next) ∈ rows

/-- What follows a visible record that is superseded holds a visible record that is on no ring. -/
def Continued (memories : List MemoryRecord) : Prop :=
  Succession.Continued (SupersededBy memories) fun r => Visible r.1

def SupersedesItself (m : MemoryRecord) : Prop := target m.supersedes = some m.id

lemma noLineLost_of_continued {memories : List MemoryRecord}
    {list : ℤ → Except StoreError (List (MemoryRecord × Option String))}
    (hlist : ∀ limit : ℤ, memories.length ≤ limit → limit < 2 ^ 63 → ∃ rows, list limit = .ok rows ∧
      ListsCurrent memories rows) (h : Continued memories) : NoLineLost memories list := by
  intro limit hlimit hbig
  obtain ⟨rows, hok, hrows⟩ := hlist limit hlimit hbig
  have hfinite : Finite {m // m ∈ memories} := (List.finite_toSet memories).to_subtype
  refine ⟨rows, hok, fun r hr => ?_⟩
  obtain ⟨s, hrs, hs, hend⟩ := h.kept r hr
  exact ⟨s, hrs, (hrows s.1).mpr ⟨s.2, hs, fun u hu => hend ⟨u, hu⟩⟩⟩

lemma continued_of_noLineLost {memories : List MemoryRecord}
    {list : ℤ → Except StoreError (List (MemoryRecord × Option String))}
    (hlist : ∀ limit : ℤ, memories.length ≤ limit → limit < 2 ^ 63 → ∃ rows, list limit = .ok rows ∧
      ListsCurrent memories rows) (hsize : memories.length < 2 ^ 63) (h : NoLineLost memories list) :
    Continued memories := by
  obtain ⟨rows, hok, hrows⟩ := hlist memories.length le_rfl (by exact_mod_cast hsize)
  obtain ⟨rows', hok', hlines⟩ := h memories.length le_rfl (by exact_mod_cast hsize)
  obtain rfl : rows = rows' := Except.ok.inj (hok.symm.trans hok')
  refine Succession.Kept.continued fun r hr => ?_
  obtain ⟨s, hrs, next, hs⟩ := hlines r hr
  obtain ⟨-, hvis, hend⟩ := (hrows s.1).mp ⟨next, hs⟩
  exact ⟨s, hrs, hvis, fun u => hend u.1 u.2⟩

namespace JarvisStore

/-- The clock gives the instants that a `datetime` can hold, and `_now_iso` writes them. -/
def Op.clocked (op : Op) : Prop := ∀ sur ∈ op.surroundings, ∃ t, Timestamps.InRange t ∧ sur.now = isoformat t

lemma readable_isoformat {t : Calendar.Instant} (h : Timestamps.InRange t) :
    Timestamps.parseUtc (isoformat t) = some t := by
  unfold isoformat
  split_ifs with hmicro
  · exact Timestamps.parseUtc_wholeSecond h hmicro
  · exact Timestamps.parseUtc_text h

lemma run_readable {objects : List EvidenceObject} {ops : List Op} (hops : ∀ op ∈ ops, op.clocked) :
    ∀ m ∈ (run rt contentSha256 ⟨[], objects⟩ ops).memories, Readable m := by
  refine run_holds (by simp) fun op hop sur hsur => ?_
  obtain ⟨t, ht, hnow⟩ := hops op hop sur hsur
  refine ⟨fun data => ?_, fun existing data h => h⟩
  rw [Readable, created, hnow, readable_isoformat ht]
  rfl

end JarvisStore

/-- Both stores, from empty: a ledger whose visible records are continued loses no line; where no record supersedes
itself, only such a ledger loses none. -/
theorem no_line_lost {objects : List EvidenceObject} :
    (∀ ops : List JarvisStore.Op, (∀ op ∈ ops, op.clocked) →
      let memories := (JarvisStore.run rt contentSha256 ⟨[], objects⟩ ops).memories
      let list := fun limit => JarvisStore.listLatest memories limit none .default
      (Continued memories → NoLineLost memories list) ∧
        ((∀ m ∈ memories, ¬ SupersedesItself m) → memories.length < 2 ^ 63 → NoLineLost memories list →
          Continued memories)) ∧
    (∀ (S : Type) [DecidableEq S] (evs : List (RowStore.Event S)) (sys : RowStore.System S),
      RowStore.run rt contentSha256 tenant (RowStore.System.start Tables.empty objects) evs = some sys →
      let memories := sys.committed.memories.filterMap record
      let list := fun limit => RowStore.listLatest sys.committed.memories limit none .default
      memories.length = sys.committed.memories.length ∧ (Continued memories → NoLineLost memories list) ∧
        ((∀ m ∈ memories, ¬ SupersedesItself m) → memories.length < 2 ^ 63 → NoLineLost memories list →
          Continued memories)) := by
  constructor
  · intro ops hops memories list
    have hlist : ∀ limit : ℤ, memories.length ≤ limit → limit < 2 ^ 63 → ∃ rows, list limit = .ok rows ∧
        ListsCurrent memories rows :=
      fun limit hlimit _ => JarvisStore.listLatest_default (JarvisStore.run_readable hops) hlimit
    exact ⟨noLineLost_of_continued hlist, fun _ => continued_of_noLineLost hlist⟩
  · intro S _ evs sys hr memories list
    have hsound : ∀ m ∈ sys.committed.memories, RowStore.Sound m := fun m hm => RowStore.run_sound hr hm
    have hlen : memories.length = sys.committed.memories.length := by
      refine le_antisymm (List.length_filterMap_le ..) (not_lt.mp fun hlt => ?_)
      obtain ⟨m, hm, hnone⟩ := List.length_filterMap_lt_length_iff_exists.mp hlt
      simpa [hnone] using (hsound m hm).1
    have hlist : ∀ limit : ℤ, memories.length ≤ limit → limit < 2 ^ 63 → ∃ rows, list limit = .ok rows ∧
        ListsCurrent memories rows :=
      fun limit hlimit hbig => RowStore.listLatest_default hsound (hlen ▸ hlimit) hbig
    exact ⟨hlen, noLineLost_of_continued hlist, fun _ => continued_of_noLineLost hlist⟩

/-- Whatever supersedes a record is visible, and nothing supersedes it in turn. -/
def succeededOnce (memories : List MemoryRecord) : Bool :=
  memories.all fun s => (target s.supersedes).isNone ||
    decide (Visible s) && memories.all fun u => target u.supersedes ≠ some s.id

lemma continued_of_succeededOnce {memories : List MemoryRecord} (h : succeededOnce memories = true) :
    Continued memories := by
  intro r _ hnext
  obtain ⟨s, hs⟩ : ∃ s, SupersededBy memories r s := by simpa [Succession.Ended] using hnext
  have hone := List.all_eq_true.mp h s.1 s.2
  rw [show target s.1.supersedes = some r.1.id from hs, Option.isNone_some, Bool.false_or, Bool.and_eq_true] at hone
  have hvis : Visible s.1 := of_decide_eq_true hone.1
  refine ⟨s, .single hs, hvis, Succession.not_onRing_of_ended fun u hu => ?_⟩
  exact of_decide_eq_true (List.all_eq_true.mp hone.2 u.1 u.2) hu

def replacedOps : List JarvisStore.Op :=
  [.create (saving "mem-1") (RowStore.decided "first"),
    .create (saving "mem-2") { RowStore.decided "second" with supersedes := some "mem-1" }]

lemma saving_clocked {drawnId : String} :
    ∃ t, Timestamps.InRange t ∧ (saving drawnId).now = isoformat t :=
  ⟨1791028800000000, by decide, show "2026-10-03T12:00:00+00:00" = isoformat 1791028800000000 by decide⟩

theorem no_line_lost_replaced :
    (NoLineLost (JarvisStore.run RowStore.plainRuntime (fun _ => genesis) ⟨[], []⟩ replacedOps).memories fun limit =>
      JarvisStore.listLatest (JarvisStore.run RowStore.plainRuntime (fun _ => genesis) ⟨[], []⟩ replacedOps).memories limit
        none .default) ∧
    ∃ sys, RowStore.run RowStore.plainRuntime (fun _ => genesis) "operator" RowStore.firstSystem
      (RowStore.updateRun ++ [.commit 2]) = some sys ∧
      NoLineLost (sys.committed.memories.filterMap record) fun limit =>
        RowStore.listLatest sys.committed.memories limit none .default := by
  have h := @no_line_lost RowStore.plainRuntime (fun _ => genesis) "operator" []
  have hclocked : ∀ op ∈ replacedOps, op.clocked := by
    intro op hop sur hsur
    simp only [replacedOps, List.mem_cons, List.not_mem_nil, or_false] at hop
    rcases hop with rfl | rfl <;> obtain rfl := Option.mem_some_iff.mp hsur <;> exact saving_clocked
  have honce : succeededOnce (JarvisStore.run RowStore.plainRuntime (fun _ => genesis) ⟨[], []⟩ replacedOps).memories =
      true := by decide
  have hrow : ((RowStore.run RowStore.plainRuntime (fun _ => genesis) "operator" RowStore.firstSystem
      (RowStore.updateRun ++ [.commit 2])).map fun sys => succeededOnce (sys.committed.memories.filterMap record)) =
      some true := by decide
  obtain ⟨sys, hr, hsys⟩ := Option.map_eq_some_iff.mp hrow
  exact ⟨(h.1 replacedOps hclocked).1 (continued_of_succeededOnce honce), sys, hr,
    (h.2 ℕ _ sys hr).2.1 (continued_of_succeededOnce hsys)⟩

/-- An archived record supersedes the only visible one. -/
def archivedSuccessor : List JarvisStore.Op :=
  [.create (saving "mem-1") (RowStore.decided "first"),
    .create (saving "mem-2") { RowStore.decided "second" with supersedes := some "mem-1" },
    .update (saving "") "mem-2" { RowStore.verified with status := some .archived }]

def archivedMemories : List MemoryRecord :=
  (JarvisStore.run RowStore.plainRuntime (fun _ => genesis) ⟨[], []⟩ archivedSuccessor).memories

lemma archivedSuccessor_clocked : ∀ op ∈ archivedSuccessor, op.clocked := by
  intro op hop sur hsur
  simp only [archivedSuccessor, List.mem_cons, List.not_mem_nil, or_false] at hop
  rcases hop with rfl | rfl | rfl <;> obtain rfl := Option.mem_some_iff.mp hsur <;> exact saving_clocked

theorem archived_successor_hides_line : ¬ ∀ ops : List JarvisStore.Op, (∀ op ∈ ops, op.clocked) →
    NoLineLost (JarvisStore.run RowStore.plainRuntime (fun _ => genesis) ⟨[], []⟩ ops).memories fun limit =>
      JarvisStore.listLatest (JarvisStore.run RowStore.plainRuntime (fun _ => genesis) ⟨[], []⟩ ops).memories limit none
        .default := by
  intro h
  have hlines : NoLineLost archivedMemories fun limit => JarvisStore.listLatest archivedMemories limit none .default :=
    h archivedSuccessor archivedSuccessor_clocked
  obtain ⟨rows, hrows, hall⟩ := hlines 10 (by decide) (by decide)
  have hempty : (JarvisStore.listLatest archivedMemories 10 none .default).toOption.map List.length = some 0 := by
    decide +kernel
  rw [show JarvisStore.listLatest archivedMemories 10 none .default = .ok rows from hrows] at hempty
  obtain rfl : rows = [] := List.length_eq_zero_iff.mp (Option.some.inj hempty)
  obtain ⟨m, hm, hvisible⟩ : ∃ m ∈ archivedMemories, decide (Visible m) = true :=
    List.any_eq_true.mp (by decide)
  have hvis : Visible m := of_decide_eq_true hvisible
  obtain ⟨s, -, next, hs⟩ := hall ⟨m, hm⟩ hvis
  cases hs

end ContinuityLedger.Records
