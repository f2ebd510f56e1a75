import ContinuityLedger.Anchors.Succession

/-! An anchors file is accepted after another where its database may follow, if awk compares its numbers and hashes as they
are; and along a chain of accepted files nothing sealed or signed is lost. -/

namespace ContinuityLedger.Anchors

open Foundations Foundations.Sha256 Foundations.Delimited

/-- A string as a field. -/
def written (s : String) : Line := CopyText.value '\t' s

def seqText (n : ℤ) : Line := written (toString n)

/-! ### Arrays -/

lemma get_ofPairs_iff {pairs : List (Line × Line)} (hn : (pairs.map Prod.fst).Nodup) {x v : Line} :
    Dict.get (Dict.ofPairs pairs) x = some v ↔ (x, v) ∈ pairs :=
  ⟨fun h => Dict.mem_ofPairs (Dict.get_mem h), Dict.get_ofPairs_of_nodup hn⟩

variable {p n s : Source} {k : Kind} {key : List Line → Line}

/-- The keys of a kind's lines are distinct. -/
def Keyed (db : Database) (k : Kind) (key : List Line → Line) : Prop := ((db.anchors k).map fun a => key a.fields).Nodup

lemma get_array (h : s.Plain) (hk : Keyed s.db k key) {i : ℕ} {x v : Line} :
    Dict.get (array k key i s.file) x = some v ↔ ∃ a ∈ s.db.anchors k, key a.fields = x ∧ field a.fields i = v := by
  have hperm := picked_file h k key i
  have hn : ((s.file.filterMap (picked k key i)).map Prod.fst).Nodup := by
    rw [(hperm.map Prod.fst).nodup_iff, List.map_map]
    exact hk
  rw [array, get_ofPairs_iff hn, hperm.mem_iff, List.mem_map]
  simp only [Prod.mk.injEq]

lemma forall_array (h : s.Plain) (hk : Keyed s.db k key) {i : ℕ} {P : Line → Line → Prop} :
    (∀ q ∈ array k key i s.file, P q.1 q.2) ↔ ∀ a ∈ s.db.anchors k, P (key a.fields) (field a.fields i) := by
  constructor
  · intro hall a ha
    exact hall _ (Dict.get_mem ((get_array h hk).mpr ⟨a, ha, rfl, rfl⟩))
  · intro hall q hq
    have hmem := (picked_file h k key i).mem_iff.mp (Dict.mem_ofPairs hq)
    obtain ⟨a, ha, rfl⟩ := List.mem_map.mp hmem
    exact hall a ha

lemma bars_two (a b : Line) : bars [a, b] = a ++ '|' :: b := by simp [bars, List.intercalate_cons_cons]

lemma pair_inj {t t' x x' : String} (ht : Delimited.Free '|' t) (ht' : Delimited.Free '|' t')
    (h : bars [written t, written x] = bars [written t', written x']) : t = t' ∧ x = x' := by
  rw [bars_two, bars_two] at h
  obtain ⟨h₁, h₂⟩ := Delimited.cut (CopyText.free_value ht) (CopyText.free_value ht') h
  exact ⟨CopyText.value_injective h₁, CopyText.value_injective h₂⟩

lemma pairs_nodup {R : Type} {rows : List R} {t x : R → String} (hn : (rows.map fun r => (t r, x r)).Nodup)
    (hf : ∀ r ∈ rows, Delimited.Free '|' (t r)) : (rows.map fun r => bars [written (t r), written (x r)]).Nodup := by
  refine List.Nodup.map_on (fun r hr r' hr' heq => ?_) hn.of_map
  obtain ⟨ht, hx⟩ := pair_inj (hf r hr) (hf r' hr') heq
  exact List.inj_on_of_nodup_map hn hr hr' (Prod.ext ht hx)

lemma numbered_nodup {R : Type} {rows : List R} {t : R → String} {x : R → ℕ} (hn : (rows.map fun r => (t r, x r)).Nodup) :
    (rows.map fun r => (t r, toString (x r : ℤ))).Nodup := by
  have hinj : Function.Injective fun q : String × ℕ => (q.1, toString (q.2 : ℤ)) := by
    intro q q' h
    obtain ⟨h₁, h₂⟩ := Prod.mk.inj h
    exact Prod.ext h₁ (by exact_mod_cast int_text_injective h₂)
  simpa [Function.comp_def] using hn.map hinj

lemma keyed_heads {db : Database} (h : db.Plain) : Keyed db .head pairKey := by
  rw [Keyed, Database.anchors, List.map_map]
  exact pairs_nodup db.heads_key fun r hr => (h.heads r hr).1

lemma keyed_counters (db : Database) : Keyed db .counter tenantKey := by
  rw [Keyed, Database.anchors, List.map_map]
  simpa [Function.comp_def] using! db.counters_key.map CopyText.value_injective

lemma keyed_blocks {db : Database} (h : db.Plain) : Keyed db .block pairKey := by
  rw [Keyed, Database.anchors, List.map_map]
  exact pairs_nodup (numbered_nodup db.blocks_key) h.blocks

lemma keyed_attestations {db : Database} (h : db.Plain) : Keyed db .att pairKey := by
  rw [Keyed, Database.anchors, List.map_map]
  exact pairs_nodup (numbered_nodup db.attestations_key) h.attestations

lemma keyed_trustStatements {db : Database} (h : db.Plain) : Keyed db .trust pairKey := by
  rw [Keyed, Database.anchors, List.map_map]
  exact pairs_nodup (numbered_nodup db.trustStatements_key) h.trustStatements

/-! ### Problems -/

variable {D : Type} [LinearOrder D] {awk : Awk D}

lemma entryProblem_none {now : Dict Line Line} {x was : Line} :
    entryProblem awk k now x was = none ↔ ∃ v, Dict.get now x = some v ∧ awk.same v was = true := by
  unfold entryProblem
  cases hx : Dict.get now x with
  | none => simp
  | some v => cases hs : awk.same v was <;> simp [hs]

lemma entryProblems_nil (hp : p.Plain) (hn : n.Plain) (hkp : Keyed p.db k pairKey) (hkn : Keyed n.db k pairKey) {i : ℕ} :
    entryProblems awk k i p.file n.file = [] ↔ ∀ a ∈ p.db.anchors k, ∃ a' ∈ n.db.anchors k,
      pairKey a'.fields = pairKey a.fields ∧ awk.same (field a'.fields i) (field a.fields i) = true := by
  rw [entryProblems, List.filterMap_eq_nil_iff,
    forall_array (P := fun x was => entryProblem awk k (array k pairKey i n.file) x was = none) hp hkp]
  refine forall₂_congr fun a _ => ?_
  simp only [entryProblem_none, get_array hn hkn]
  constructor
  · rintro ⟨_, ⟨a', ha', hx, rfl⟩, hs⟩
    exact ⟨a', ha', hx, hs⟩
  · rintro ⟨a', ha', hx, hs⟩
    exact ⟨_, ⟨a', ha', hx, rfl⟩, hs⟩

lemma counterProblem_none {now : Dict Line Line} {x was : Line} :
    counterProblem awk now x was = none ↔ ∃ v, Dict.get now x = some v ∧ awk.less v was = false := by
  unfold counterProblem
  cases hx : Dict.get now x with
  | none => simp
  | some v => cases hs : awk.less v was <;> simp [hs]

lemma counterProblems_nil (hp : p.Plain) (hn : n.Plain) : counterProblems awk p.file n.file = [] ↔
    ∀ c ∈ p.db.counters, ∃ c' ∈ n.db.counters, c'.tenant = c.tenant ∧
      awk.less (seqText c'.lastSeq) (seqText c.lastSeq) = false := by
  rw [counterProblems, List.filterMap_eq_nil_iff, forall_array
    (P := fun x was => counterProblem awk (array .counter tenantKey 3 n.file) x was = none) hp (keyed_counters _),
    Database.anchors, List.forall_mem_map]
  refine forall₂_congr fun c _ => ?_
  simp only [counterProblem_none, get_array hn (keyed_counters _), Database.anchors, List.mem_map]
  constructor
  · rintro ⟨_, ⟨_, ⟨c', hc', rfl⟩, hx, rfl⟩, hs⟩
    exact ⟨c', hc', CopyText.value_injective hx, hs⟩
  · rintro ⟨c', hc', ht, hs⟩
    exact ⟨_, ⟨_, ⟨c', hc', rfl⟩, congrArg written ht, rfl⟩, hs⟩

lemma headProblem_none {seqs now was : Dict Line Line} {x seq : Line} :
    headProblem awk seqs now was x seq = none ↔ ∃ v, Dict.get seqs x = some v ∧ awk.less v seq = false ∧
      (awk.same v seq = true → awk.same ((Dict.get now x).getD []) ((Dict.get was x).getD []) = true) := by
  unfold headProblem
  cases hx : Dict.get seqs x with
  | none => simp
  | some v =>
    cases hl : awk.less v seq with
    | true => simp [hl]
    | false => cases hs : awk.same v seq <;> simp [hl, hs]

lemma headProblems_nil (hp : p.Plain) (hn : n.Plain) : headProblems awk p.file n.file = [] ↔
    ∀ h ∈ p.db.heads, ∃ h' ∈ n.db.heads, h'.tenant = h.tenant ∧ h'.id = h.id ∧
      awk.less (seqText h'.lastSeq) (seqText h.lastSeq) = false ∧
      (awk.same (seqText h'.lastSeq) (seqText h.lastSeq) = true →
        awk.same (written h'.lastHash.text) (written h.lastHash.text) = true) := by
  have hkp := keyed_heads hp.db
  have hkn := keyed_heads hn.db
  have hhash {s : Source} (hs : s.Plain) {h : Head} (hh : h ∈ s.db.heads) :
      Dict.get (array .head pairKey 5 s.file) (bars [written h.tenant, written h.id]) = some (written h.lastHash.text) :=
    (get_array hs (keyed_heads hs.db)).mpr ⟨h.anchor, List.mem_map_of_mem hh, rfl, rfl⟩
  rw [headProblems, List.filterMap_eq_nil_iff, forall_array (P := fun x was => headProblem awk (array .head pairKey 4 n.file)
    (array .head pairKey 5 n.file) (array .head pairKey 5 p.file) x was = none) hp hkp, Database.anchors,
    List.forall_mem_map]
  refine forall₂_congr fun h hh => ?_
  simp only [headProblem_none, get_array hn hkn, Database.anchors, List.mem_map]
  change (∃ v, (∃ a, (∃ h' ∈ n.db.heads, h'.anchor = a) ∧ pairKey a.fields = bars [written h.tenant, written h.id] ∧
    field a.fields 4 = v) ∧ awk.less v (seqText h.lastSeq) = false ∧ (awk.same v (seqText h.lastSeq) = true →
      awk.same ((Dict.get (array .head pairKey 5 n.file) (bars [written h.tenant, written h.id])).getD [])
        ((Dict.get (array .head pairKey 5 p.file) (bars [written h.tenant, written h.id])).getD []) = true)) ↔ _
  rw [hhash hp hh]
  constructor
  · rintro ⟨_, ⟨_, ⟨h', hh', rfl⟩, hx, rfl⟩, hl, hs⟩
    obtain ⟨ht, hid⟩ := pair_inj (hn.db.heads h' hh').1 (hp.db.heads h hh).1 hx
    rw [← ht, ← hid, hhash hn hh'] at hs
    exact ⟨h', hh', ht, hid, hl, hs⟩
  · rintro ⟨h', hh', ht, hid, hl, hs⟩
    refine ⟨seqText h'.lastSeq, ⟨h'.anchor, ⟨h', hh', rfl⟩, ?_, rfl⟩, hl, ?_⟩
    · rw [← ht, ← hid]
      rfl
    · rw [← ht, ← hid, hhash hn hh']
      exact hs

/-! ### Acceptance -/

/-- Two sequence numbers compare as awk's numbers as they do. -/
def Awk.Ordered (awk : Awk D) (m n : ℤ) : Prop :=
  (awk.less (seqText m) (seqText n) = true ↔ m < n) ∧ (awk.same (seqText m) (seqText n) = true ↔ m = n)

/-- Two hashes are not one number to awk unless they are one text. -/
def Awk.Told (awk : Awk D) (h h' : Hex64) : Prop := awk.same (written h.text) (written h'.text) = true → h = h'

def LogTold (awk : Awk D) {m : ℕ} (was now : List (Logged m)) : Prop :=
  ∀ l ∈ was, ∀ l' ∈ now, l'.tenant = l.tenant → l'.seq = l.seq → awk.Told l'.hash l.hash

/-- What is compared of two databases compares to awk as it does. -/
structure Comparable (awk : Awk D) (p n : Database) : Prop where
  heads : ∀ h ∈ p.heads, ∀ h' ∈ n.heads, h'.tenant = h.tenant → h'.id = h.id →
    awk.Ordered h'.lastSeq h.lastSeq ∧ (h'.lastSeq = h.lastSeq → awk.Told h'.lastHash h.lastHash)
  counters : ∀ c ∈ p.counters, ∀ c' ∈ n.counters, c'.tenant = c.tenant → awk.Ordered c'.lastSeq c.lastSeq
  blocks : ∀ b ∈ p.blocks, ∀ b' ∈ n.blocks, b'.tenant = b.tenant → b'.height = b.height → awk.Told b'.blockHash b.blockHash
  attestations : LogTold awk p.attestations n.attestations
  trustStatements : LogTold awk p.trustStatements n.trustStatements

lemma same_refl (awk : Awk D) (a : Line) : awk.same a a = true := by
  unfold Awk.same
  split_ifs <;> simp

lemma Awk.Told.same_iff {h h' : Hex64} (ht : awk.Told h h') : awk.same (written h.text) (written h'.text) = true ↔ h = h' :=
  ⟨ht, fun heq => heq ▸ same_refl awk _⟩

lemma Awk.Ordered.not_less_iff {m n : ℤ} (h : awk.Ordered m n) : awk.less (seqText m) (seqText n) = false ↔ n ≤ m := by
  rw [← Bool.not_eq_true, h.1, not_lt]

/-- Doubles tell the integers up to 2^53 apart. -/
structure Awk.Doubles (awk : Awk D) : Prop where
  numeric : ∀ n : ℤ, awk.numeric (seqText n) = true
  exact : ∀ m n : ℤ, |m| ≤ 2 ^ 53 → |n| ≤ 2 ^ 53 → (awk.number (seqText m) < awk.number (seqText n) ↔ m < n)

lemma ordered_of_small (h : awk.Doubles) {m n : ℤ} (hm : |m| ≤ 2 ^ 53) (hn : |n| ≤ 2 ^ 53) : awk.Ordered m n := by
  have hlt := h.exact m n hm hn
  have hgt := h.exact n m hn hm
  refine ⟨by simpa [Awk.less] using hlt, ?_⟩
  simp only [Awk.same, h.numeric, Bool.and_self, if_true, decide_eq_true_eq]
  constructor
  · intro heq
    rw [heq] at hlt hgt
    have h₁ : ¬ m < n := fun hmn => lt_irrefl _ (hlt.mpr hmn)
    have h₂ : ¬ n < m := fun hmn => lt_irrefl _ (hgt.mpr hmn)
    omega
  · rintro rfl
    rfl

lemma told_of_text {h h' : Hex64} (hn : awk.numeric (written h.text) = false) : awk.Told h h' := by
  intro hs
  rw [Awk.same, hn, Bool.false_and, if_neg (by simp), decide_eq_true_eq] at hs
  exact Hex64.ext (CopyText.value_injective hs)

lemma entries_iff {R : Type} {was now : List R} {t : R → String} {x : R → ℕ} {g : R → Hex64} {anchor : R → Anchor} {i : ℕ}
    (hkey : ∀ r, pairKey (anchor r).fields = bars [written (t r), seqText (x r)])
    (hfield : ∀ r, field (anchor r).fields i = written (g r).text)
    (hwas : ∀ r ∈ was, Delimited.Free '|' (t r)) (hnow : ∀ r ∈ now, Delimited.Free '|' (t r))
    (htold : ∀ r ∈ was, ∀ r' ∈ now, t r' = t r → x r' = x r → awk.Told (g r') (g r)) :
    (∀ a ∈ was.map anchor, ∃ a' ∈ now.map anchor,
      pairKey a'.fields = pairKey a.fields ∧ awk.same (field a'.fields i) (field a.fields i) = true) ↔
    ∀ r ∈ was, ∃ r' ∈ now, t r' = t r ∧ x r' = x r ∧ g r' = g r := by
  rw [List.forall_mem_map]
  refine forall₂_congr fun r hr => ?_
  rw [hkey, hfield]
  constructor
  · rintro ⟨a', ha', heq, hs⟩
    obtain ⟨r', hr', rfl⟩ := List.mem_map.mp ha'
    rw [hkey] at heq
    rw [hfield] at hs
    obtain ⟨ht, hx⟩ := pair_inj (hnow r' hr') (hwas r hr) heq
    have hx : x r' = x r := by exact_mod_cast int_text_injective hx
    exact ⟨r', hr', ht, hx, (htold r hr r' hr' ht hx).same_iff.mp hs⟩
  · rintro ⟨r', hr', ht, hx, hs⟩
    refine ⟨_, List.mem_map_of_mem hr', ?_, ?_⟩
    · rw [hkey, ht, hx]
    · rw [hfield, hs]
      exact same_refl awk _

/-- The check accepts exactly the successors. -/
lemma anchorsCheck_nil (hp : p.Plain) (hn : n.Plain) (hc : Comparable awk p.db n.db) :
    anchorsCheck awk p.file n.file = [] ↔ Succession p.db n.db := by
  have hheads : headProblems awk p.file n.file = [] ↔ ∀ h ∈ p.db.heads, ∃ h' ∈ n.db.heads, h'.tenant = h.tenant ∧
      h'.id = h.id ∧ h.lastSeq ≤ h'.lastSeq ∧ (h'.lastSeq = h.lastSeq → h'.lastHash = h.lastHash) := by
    rw [headProblems_nil hp hn]
    refine forall₂_congr fun h hh => exists_congr fun h' => and_congr_right fun hh' => and_congr_right fun ht =>
      and_congr_right fun hid => ?_
    obtain ⟨hord, htold⟩ := hc.heads h hh h' hh' ht hid
    rw [hord.not_less_iff, hord.2]
    exact and_congr_right fun _ => imp_congr_right fun heq => (htold heq).same_iff
  have hcounters : counterProblems awk p.file n.file = [] ↔
      ∀ c ∈ p.db.counters, ∃ c' ∈ n.db.counters, c'.tenant = c.tenant ∧ c.lastSeq ≤ c'.lastSeq := by
    rw [counterProblems_nil hp hn]
    refine forall₂_congr fun c hcm => exists_congr fun c' => and_congr_right fun hcm' => and_congr_right fun ht => ?_
    rw [(hc.counters c hcm c' hcm' ht).not_less_iff]
    exact Int.ofNat_le
  have hblocks : entryProblems awk .block 5 p.file n.file = [] ↔ _ :=
    (entryProblems_nil hp hn (keyed_blocks hp.db) (keyed_blocks hn.db)).trans
      (entries_iff (t := Block.tenant) (x := Block.height) (g := Block.blockHash) (fun _ => rfl) (fun _ => rfl)
        hp.db.blocks hn.db.blocks hc.blocks)
  have hatt : entryProblems awk .att 4 p.file n.file = [] ↔ LogKept p.db.attestations n.db.attestations :=
    (entryProblems_nil hp hn (keyed_attestations hp.db) (keyed_attestations hn.db)).trans
      (entries_iff (t := Logged.tenant) (x := Logged.seq) (g := Logged.hash) (fun _ => rfl) (fun _ => rfl)
        hp.db.attestations hn.db.attestations hc.attestations)
  have htrust : entryProblems awk .trust 4 p.file n.file = [] ↔ LogKept p.db.trustStatements n.db.trustStatements :=
    (entryProblems_nil hp hn (keyed_trustStatements hp.db) (keyed_trustStatements hn.db)).trans
      (entries_iff (t := Logged.tenant) (x := Logged.seq) (g := Logged.hash) (fun _ => rfl) (fun _ => rfl)
        hp.db.trustStatements hn.db.trustStatements hc.trustStatements)
  simp only [anchorsCheck, List.append_eq_nil_iff, hheads, hcounters, hblocks, hatt, htrust]
  exact ⟨fun ⟨⟨⟨⟨h₁, h₂⟩, h₃⟩, h₄⟩, h₅⟩ => ⟨h₁, h₂, h₃, h₄, h₅⟩, fun h => ⟨⟨⟨⟨h.1, h.2⟩, h.3⟩, h.4⟩, h.5⟩⟩

/-! ### Chains -/

/-- A row with the same name and the same hash stands in the file. -/
def LogAnchored (file : List Line) (kind : Kind) {m : ℕ} (l : Logged m) : Prop :=
  ∃ l' : Logged m, l'.tenant = l.tenant ∧ l'.seq = l.seq ∧ l'.hash = l.hash ∧ (l'.anchor kind).line ∈ file

/-- What was sealed and signed in a database stands in the file, with its hash. -/
structure StillAnchored (file : List Line) (db : Database) : Prop where
  blocks : ∀ b ∈ db.blocks, ∃ b' : Block, b'.tenant = b.tenant ∧ b'.height = b.height ∧ b'.blockHash = b.blockHash ∧
    b'.anchor.line ∈ file
  attestations : ∀ a ∈ db.attestations, LogAnchored file .att a
  trustStatements : ∀ s ∈ db.trustStatements, LogAnchored file .trust s

structure Kept (p n : Database) : Prop where
  blocks : ∀ b ∈ p.blocks, ∃ b' ∈ n.blocks, b'.tenant = b.tenant ∧ b'.height = b.height ∧ b'.blockHash = b.blockHash
  attestations : LogKept p.attestations n.attestations
  trustStatements : LogKept p.trustStatements n.trustStatements

lemma Succession.kept {p n : Database} (h : Succession p n) : Kept p n := ⟨h.blocks, h.attestations, h.trustStatements⟩

lemma LogKept.refl {m : ℕ} (l : List (Logged m)) : LogKept l l := fun x hx => ⟨x, hx, rfl, rfl, rfl⟩

lemma LogKept.trans {m : ℕ} {a b c : List (Logged m)} (h : LogKept a b) (h' : LogKept b c) : LogKept a c := by
  intro l hl
  obtain ⟨l₁, hl₁, ht, hs, hh⟩ := h l hl
  obtain ⟨l₂, hl₂, ht', hs', hh'⟩ := h' l₁ hl₁
  exact ⟨l₂, hl₂, ht'.trans ht, hs'.trans hs, hh'.trans hh⟩

lemma Kept.refl (db : Database) : Kept db db :=
  ⟨fun b hb => ⟨b, hb, rfl, rfl, rfl⟩, LogKept.refl _, LogKept.refl _⟩

lemma Kept.trans {a b c : Database} (h : Kept a b) (h' : Kept b c) : Kept a c := by
  refine ⟨fun x hx => ?_, h.attestations.trans h'.attestations, h.trustStatements.trans h'.trustStatements⟩
  obtain ⟨x₁, hx₁, ht, hs, hh⟩ := h.blocks x hx
  obtain ⟨x₂, hx₂, ht', hs', hh'⟩ := h'.blocks x₁ hx₁
  exact ⟨x₂, hx₂, ht'.trans ht, hs'.trans hs, hh'.trans hh⟩

/-- The lines of a database stand in its file. -/
lemma line_mem (h : s.Plain) {a : Anchor} (ha : a ∈ s.db.anchors k) : a.line ∈ s.file := by
  cases s with
  | dump d =>
    refine (List.perm_insertionSort _ _).mem_iff.mpr ?_
    rw [scan_dump (List.Subset.refl _) h.2]
    have hmem : a.line ∈ (d.db.rows k).filterMap fun r => printed (some k) (CopyText.row '\t' r) := by
      rw [printed_rows]
      exact List.mem_map_of_mem ha
    obtain ⟨r, hr, hprint⟩ := List.mem_filterMap.mp hmem
    rw [← d.holds k] at hr
    obtain ⟨t, ht, hrow⟩ := List.mem_flatMap.mp hr
    obtain ⟨ht, hk⟩ := List.mem_filter.mp ht
    refine List.mem_flatMap.mpr ⟨t, ht, List.mem_filterMap.mpr ⟨r, hrow, ?_⟩⟩
    rw [of_decide_eq_true hk]
    exact hprint
  | collected db =>
    refine (List.perm_insertionSort _ _).mem_iff.mpr ?_
    rw [selected_anchors h]
    refine List.mem_map_of_mem ?_
    have ha : a ∈ db.anchors k := ha
    cases k <;> simp [ha]

lemma Kept.stillAnchored {db : Database} (hs : s.Plain) (h : Kept db s.db) : StillAnchored s.file db := by
  refine ⟨fun b hb => ?_, fun a ha => ?_, fun t ht => ?_⟩
  · obtain ⟨b', hb', h₁, h₂, h₃⟩ := h.blocks b hb
    exact ⟨b', h₁, h₂, h₃, line_mem (k := .block) hs (List.mem_map_of_mem hb')⟩
  · obtain ⟨a', ha', h₁, h₂, h₃⟩ := h.attestations a ha
    exact ⟨a', h₁, h₂, h₃, line_mem (k := .att) hs (List.mem_map_of_mem ha')⟩
  · obtain ⟨t', ht', h₁, h₂, h₃⟩ := h.trustStatements t ht
    exact ⟨t', h₁, h₂, h₃, line_mem (k := .trust) hs (List.mem_map_of_mem ht')⟩

/-- One file after another, each accepted after the one before it. -/
def Accepted (awk : Awk D) (p n : Source) : Prop := Comparable awk p.db n.db ∧ anchorsCheck awk p.file n.file = []

lemma chain_kept {chain : List Source} {first last : Source} (hplain : ∀ s ∈ first :: chain, s.Plain)
    (hchain : (first :: chain).IsChain (Accepted awk)) (hlast : (first :: chain).getLast? = some last) :
    ∀ s ∈ first :: chain, Kept s.db last.db := by
  induction chain generalizing first with
  | nil =>
    obtain rfl : first = last := by simpa using hlast
    intro s hs
    obtain rfl := List.mem_singleton.mp hs
    exact Kept.refl _
  | cons next chain ih =>
    obtain ⟨⟨hcomp, hcheck⟩, hrest⟩ := List.isChain_cons_cons.mp hchain
    obtain ⟨hfirst, hothers⟩ := List.forall_mem_cons.mp hplain
    have hkept := ih hothers hrest (by rwa [List.getLast?_cons_cons] at hlast)
    intro s hs
    rcases List.mem_cons.mp hs with rfl | hs
    · have hsucc := (anchorsCheck_nil hfirst (hothers next List.mem_cons_self) hcomp).mp hcheck
      exact hsucc.kept.trans (hkept next List.mem_cons_self)
    · exact hkept s hs

/-- A file is accepted exactly where its database may follow; and along a chain of accepted files all that was sealed or signed
stands in the newest with its hash. -/
theorem anchors_succession (awk : Awk D) :
    (∀ p n : Source, p.Plain → n.Plain → Comparable awk p.db n.db →
      (anchorsCheck awk p.file n.file = [] ↔ Succession p.db n.db)) ∧
    (∀ chain : List Source, (∀ s ∈ chain, s.Plain) → chain.IsChain (Accepted awk) → ∀ newest, chain.getLast? = some newest →
      ∀ s ∈ chain, StillAnchored newest.file s.db) := by
  refine ⟨fun p n hp hn hc => anchorsCheck_nil hp hn hc, fun chain hplain hchain newest hnewest s hs => ?_⟩
  cases chain with
  | nil => simp at hs
  | cons first chain =>
    exact (chain_kept hplain hchain hnewest s hs).stillAnchored (hplain newest (List.mem_of_getLast? hnewest))

/-! ### Two files -/

/-- Whole decimal numbers. -/
def decimal : Awk ℤ where
  number l :=
    let digits := if l.head? = some '-' then l.tail else l
    let n : ℤ := Nat.ofDigitChars 10 (digits.takeWhile Char.isDigit) 0
    if l.head? = some '-' then -n else n
  numeric l :=
    let digits := if l.head? = some '-' then l.tail else l
    !digits.isEmpty && digits.all Char.isDigit

def ofDigit (c : Char) (h : isHexDigit c = true) : Hex64 :=
  ⟨String.ofList (List.replicate 64 c), by simp [isHex64, h]⟩

def hashA : Hex64 := ofDigit 'a' (by decide)
def hashB : Hex64 := ofDigit 'b' (by decide)

def onlyHead (h : Head) : Database := ⟨[h], [], [], [], [], by simp, by simp, by simp, by simp, by simp⟩

lemma barred_accepted : (anchorsCheck decimal (collect (onlyHead ⟨"t", "x|9", 5, hashA, false⟩))
    (collect (onlyHead ⟨"t", "x|9", 5, hashB, false⟩))).isEmpty = true := by
  decide

/-- A record whose name holds a bar changes its hash at the same number, and the check accepts it. -/
theorem barred_name_accepted : ¬ ∀ p n : Source, anchorsCheck decimal p.file n.file = [] ↔ Succession p.db n.db := by
  intro h
  have hsucc := (h (.collected (onlyHead ⟨"t", "x|9", 5, hashA, false⟩))
    (.collected (onlyHead ⟨"t", "x|9", 5, hashB, false⟩))).mp (List.isEmpty_iff.mp barred_accepted)
  obtain ⟨h', hh', -, -, -, hsame⟩ := hsucc.heads _ (List.mem_singleton_self _)
  obtain rfl := List.mem_singleton.mp hh'
  exact absurd (congrArg (fun h : Hex64 => h.text.toList.head?) (hsame rfl)) (by decide)

def sealedBlock : Block := ⟨"t", 1, 1, 3, 3, genesis, hashA, hashB, [some "1"]⟩

def earlier : Database :=
  ⟨[⟨"t", "mem-a", 3, hashA, false⟩], [⟨"t", 3⟩], [sealedBlock], [], [], by simp, by simp, by simp, by simp, by simp⟩

def later : Database :=
  ⟨[⟨"t", "mem-a", 5, hashB, false⟩], [⟨"t", 5⟩], [sealedBlock], [], [], by simp, by simp, by simp, by simp, by simp⟩

def sectionOf (header : String) (kind : Kind) (h : opened header.toList = some (some kind)) (rows : List Columns) : Section :=
  ⟨[], by simp, header.toList, some kind, h, rows⟩

def earlierDump : Dump where
  db := earlier
  sections := [
    sectionOf "COPY jarvis.blocks (tenant_key, height) FROM stdin;" .block (by decide +kernel) (earlier.rows .block),
    sectionOf "COPY jarvis.chain_heads (tenant_key, id) FROM stdin;" .head (by decide +kernel) (earlier.rows .head),
    sectionOf "COPY jarvis.history_counters (tenant_key, last_seq) FROM stdin;" .counter (by decide +kernel)
      (earlier.rows .counter)]
  holds k := by cases k <;> rfl

lemma earlier_plain : Source.Plain (.dump earlierDump) := by
  have hmem : Delimited.Free '|' "mem-a" := by unfold Delimited.Free; decide
  have ht : Delimited.Free '|' "t" := by unfold Delimited.Free; decide
  refine ⟨⟨?_, ?_, ?_, by simp [earlierDump, earlier], by simp [earlierDump, earlier]⟩, by decide⟩
  · exact List.forall_mem_singleton.mpr ⟨ht, hmem⟩
  · exact List.forall_mem_singleton.mpr ht
  · exact List.forall_mem_singleton.mpr ht

lemma later_plain : Source.Plain (.collected later) := by
  have hmem : Delimited.Free '|' "mem-a" := by unfold Delimited.Free; decide
  have ht : Delimited.Free '|' "t" := by unfold Delimited.Free; decide
  refine ⟨?_, ?_, ?_, by simp [later], by simp [later]⟩
  · exact List.forall_mem_singleton.mpr ⟨ht, hmem⟩
  · exact List.forall_mem_singleton.mpr ht
  · exact List.forall_mem_singleton.mpr ht

lemma earlier_later : Accepted decimal (.dump earlierDump) (.collected later) := by
  have hord : decimal.Ordered 5 3 := ⟨by decide, by decide⟩
  refine ⟨⟨?_, ?_, ?_, ?_, ?_⟩, List.isEmpty_iff.mp (by decide)⟩
  · exact List.forall_mem_singleton.mpr (List.forall_mem_singleton.mpr fun _ _ => ⟨hord, fun h => absurd h (by decide)⟩)
  · exact List.forall_mem_singleton.mpr (List.forall_mem_singleton.mpr fun _ => hord)
  · exact List.forall_mem_singleton.mpr (List.forall_mem_singleton.mpr fun _ _ => told_of_text (by decide))
  · exact fun l hl => absurd hl (by simp [Source.db, earlierDump, earlier])
  · exact fun l hl => absurd hl (by simp [Source.db, earlierDump, earlier])

theorem anchors_succession_example : Succession earlier later ∧ StillAnchored (collect later) earlier := by
  obtain ⟨hone, hchain⟩ := anchors_succession decimal
  refine ⟨(hone _ _ earlier_plain later_plain earlier_later.1).mp earlier_later.2, ?_⟩
  refine hchain [.dump earlierDump, .collected later] ?_ ?_ (.collected later) rfl (.dump earlierDump) List.mem_cons_self
  · exact List.forall_mem_cons.mpr ⟨earlier_plain, List.forall_mem_singleton.mpr later_plain⟩
  · exact List.isChain_cons_cons.mpr ⟨earlier_later, List.isChain_singleton _⟩

end ContinuityLedger.Anchors
