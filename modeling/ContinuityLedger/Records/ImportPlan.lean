import ContinuityLedger.Foundations.Layers
import ContinuityLedger.Foundations.Timestamps
import ContinuityLedger.Records.NothingDropped

/-! The plan of an import: what the database would refuse is reported, pointers at records that are not there are dropped on
request, and the records are put behind those that they supersede. -/

namespace ContinuityLedger.Records

open Foundations Foundations.Calendar Foundations.Timestamps Foundations.Sha256 Foundations.Codec

/-! ### What the database would refuse -/

/-- What `datetime` raises: for a text that is no timestamp, and for a moment outside its years. -/
inductive DateError
  | value | overflow
deriving DecidableEq

def offsetText (s : String) : String :=
  let text := PyText.strip s
  if text.toList.getLast? = some 'Z' then String.ofList text.toList.dropLast ++ "+00:00" else text

/-- `_parse_ts`. -/
def parseTs (s : String) : Except DateError Instant :=
  match fromisoformat (offsetText s) with
  | none => .error .value
  | some (localTime, off) => if InRange (localTime - off.getD 0) then .ok (localTime - off.getD 0) else .error .overflow

def problemIf (p : Prop) [Decidable p] (text : String) : List String := if p then [text] else []

def dateProblem (name value : String) : Except DateError (List String) :=
  match parseTs value with
  | .ok _ => .ok []
  | .error .value => .ok [name ++ " is not a valid ISO-8601 timestamp"]
  | .error .overflow => .error .overflow

def isDigest (s : String) : Bool := s.length = 64 && s.toList.all fun c => "0123456789abcdef".toList.contains c

def localProblems (m : MemoryRecord String) : Except DateError (List String) := do
  let problems :=
    problemIf (¬ (1 ≤ m.id.length ∧ m.id.length ≤ 128)) "id must be 1-128 characters" ++
    problemIf (¬ (1 ≤ m.content.length ∧ m.content.length ≤ 2000))
      ("content must be 1-2000 characters (is " ++ toString m.content.length ++ ")") ++
    problemIf (128 < m.sourceAgent.length) "source_agent longer than 128 characters" ++
    problemIf (¬ (1 ≤ m.sessionId.length ∧ m.sessionId.length ≤ 128)) "session_id must be 1-128 characters" ++
    problemIf (m.subject.any fun s => 256 < s.length) "subject longer than 256 characters" ++
    problemIf (32 < m.tags.length) ("tags has " ++ toString m.tags.length ++ " entries (max 32)") ++
    problemIf (32 < m.evidence.length) ("evidence has " ++ toString m.evidence.length ++ " entries (max 32)") ++
    problemIf (isDigest m.contentSha256 = false) "content_sha256 is not a 64-character lowercase hex digest"
  let created ← dateProblem "created_at" m.createdAt
  let updated ← dateProblem "updated_at" m.updatedAt
  return problems ++ created ++ updated

/-! ### The plan -/

structure Plan where
  board : MemoryBoard
  records : List (MemoryRecord String)
  nulled : List (String × String)

/-- The record that another one supersedes; `""` and its own id are no pointers. -/
def pointer (m : MemoryRecord String) : Option String := m.supersedes.filter fun p => p ≠ "" && p ≠ m.id

/-- A pointer at no record of the source. -/
def dangling (ids : List String) (m : MemoryRecord String) : Option String := (pointer m).filter fun p => !ids.contains p

structure Resolving where
  problems : List String
  records : List (MemoryRecord String)
  nulled : List (String × String)

/-- One turn of the loop over the records; `repr` is Python's. -/
def resolve (repr : String → String) (nullDangling : Bool) (s : Resolving) (m : MemoryRecord String) : Except DateError Resolving := do
  let texts ← localProblems m
  let problems := s.problems ++ texts.map fun text => m.id ++ ": " ++ text
  match dangling (s.records.map MemoryRecord.id) m with
  | none => return { s with problems := problems }
  | some target =>
    if nullDangling then
      return ⟨problems, KeyedTable.replace MemoryRecord.id { m with supersedes := none } s.records, s.nulled ++ [(m.id, target)]⟩
    else
      return { s with problems := problems ++ [m.id ++ ": supersedes " ++ repr target ++
        ", which is not in the source (use --null-dangling-supersedes to drop such pointers)"] }

def isReady (placed pending : List String) (m : MemoryRecord String) : Bool :=
  match m.supersedes with
  | none => true
  | some p => p = "" || p = m.id || placed.contains p || !pending.contains p

def sortedById (records : List (MemoryRecord String)) : List (MemoryRecord String) := records.mergeSort fun a b => a.id ≤ b.id

def cycleProblem (stuck : List (MemoryRecord String)) : List String :=
  problemIf (stuck ≠ []) ("supersedes cycle among: " ++
    ", ".intercalate ((stuck.map MemoryRecord.id).mergeSort fun a b => a ≤ b))

/-- `build_plan` of a ledger. -/
def planOf (repr : String → String) (nullDangling : Bool) (l : Contents) : Except DateError (Option Plan × List String) := do
  let s ← l.memories.foldlM (resolve repr nullDangling) ⟨[], l.memories, []⟩
  let (ordered, stuck) := Layers.order MemoryRecord.id isReady sortedById [] s.records
  let problems := s.problems ++ cycleProblem stuck
  return (if problems = [] then some ⟨l.board, ordered, s.nulled⟩ else none, problems)

/-- `build_plan`; `describe` is the text of what `parse_ledger_document` raises. -/
def buildPlan (num : Numbers) (contentSha256 : String → Hex64) (describe : DocumentError → String) (repr : String → String)
    (nullDangling : Bool) : Json → Except DateError (Option Plan × List String)
  | .obj raw =>
    match parseLedgerDocument num contentSha256 raw with
    | .error e => .ok (none, [describe e])
    | .ok (l, _) => planOf repr nullDangling l
  | _ => .ok (none, ["source is not a JSON object"])

/-! ### What a plan is -/

/-- Nothing stands in the way of an import. -/
structure Importable (nullDangling : Bool) (l : Contents) : Prop where
  clean : ∀ m ∈ l.memories, localProblems m = .ok []
  found : nullDangling = true ∨ ∀ m ∈ l.memories, dangling (l.memories.map MemoryRecord.id) m = none
  acyclic : ¬ Layers.Circular MemoryRecord.id pointer l.memories

/-- The record as it is imported. -/
def withoutNulled (nulled : List (String × String)) (m : MemoryRecord String) : MemoryRecord String :=
  if (nulled.map Prod.fst).contains m.id then { m with supersedes := none } else m

structure Planned (l : Contents) (plan : Plan) : Prop where
  board : plan.board = l.board
  records : plan.records.Perm (l.memories.map (withoutNulled plan.nulled))
  targetsFirst : ∀ before m after, plan.records = before ++ m :: after → ∀ p, pointer m = some p → p ∈ before.map MemoryRecord.id
  nulled : ∀ id p, (id, p) ∈ plan.nulled ↔ ∃ m ∈ l.memories, m.id = id ∧ dangling (l.memories.map MemoryRecord.id) m = some p

/-- The planning ends in a plan where nothing stands in the way, and the plan is as it has to be. -/
def Plans (outcome : Except DateError (Option Plan × List String)) (nullDangling : Bool) (l : Contents) : Prop :=
  ∃ plan problems, outcome = .ok (plan, problems) ∧ (plan.isSome ↔ Importable nullDangling l) ∧
    ∀ p, plan = some p → Planned l p

/-- A text that is a timestamp names a moment within the years of a `datetime`, in UTC. -/
def Representable (s : String) : Prop := ∀ r, fromisoformat (offsetText s) = some r → InRange (r.1 - r.2.getD 0)

def Dated (m : MemoryRecord String) : Prop := Representable m.createdAt ∧ Representable m.updatedAt

variable {repr : String → String} {nullDangling : Bool} {l : Contents} {m : MemoryRecord String}

lemma parseTs_overflow {s : String} : parseTs s = .error .overflow ↔ ¬ Representable s := by
  unfold parseTs Representable
  cases h : fromisoformat (offsetText s) with
  | none => simp
  | some r =>
    obtain ⟨localTime, off⟩ := r
    simp only [Option.some.injEq, forall_eq']
    split_ifs with hr <;> simp [hr]

lemma dateProblem_isOk (name value : String) : (∃ texts, dateProblem name value = .ok texts) ↔ Representable value := by
  rw [← not_iff_not, ← parseTs_overflow]
  unfold dateProblem
  cases h : parseTs value with
  | ok t => simp
  | error e => cases e <;> simp

lemma localProblems_isOk : (∃ texts, localProblems m = .ok texts) ↔ Dated m := by
  unfold Dated
  rw [← dateProblem_isOk "created_at", ← dateProblem_isOk "updated_at", localProblems]
  constructor
  · rintro ⟨texts, h⟩
    obtain ⟨created, hcreated, h⟩ := Checks.bind_ok h
    obtain ⟨updated, hupdated, -⟩ := Checks.bind_ok h
    exact ⟨⟨created, hcreated⟩, ⟨updated, hupdated⟩⟩
  · rintro ⟨⟨created, hcreated⟩, ⟨updated, hupdated⟩⟩
    rw [hcreated, hupdated]
    exact ⟨_, rfl⟩

/-! ### The loop over the records -/

def settled (nullDangling : Bool) (ids : List String) (m : MemoryRecord String) : MemoryRecord String :=
  if nullDangling && (dangling ids m).isSome then { m with supersedes := none } else m

def nulledOf (ids : List String) (records : List (MemoryRecord String)) : List (String × String) :=
  records.filterMap fun m => (dangling ids m).map fun p => (m.id, p)

@[simp] lemma settled_id (ids : List String) : (settled nullDangling ids m).id = m.id := by
  unfold settled
  split_ifs <;> rfl

structure Resolved (nullDangling : Bool) (ids : List String) (done todo : List (MemoryRecord String)) (s : Resolving) : Prop where
  records : s.records = done.map (settled nullDangling ids) ++ todo
  nulled : s.nulled = if nullDangling then nulledOf ids done else []
  problems : s.problems = [] ↔ (∀ m ∈ done, localProblems m = .ok []) ∧
    (nullDangling = true ∨ ∀ m ∈ done, dangling ids m = none)

variable {ids : List String} {done todo : List (MemoryRecord String)} {s : Resolving}

lemma replace_at {before after : List (MemoryRecord String)} {r : MemoryRecord String} (hid : r.id = m.id)
    (hnodup : ((before ++ m :: after).map MemoryRecord.id).Nodup) :
    KeyedTable.replace MemoryRecord.id r (before ++ m :: after) = before ++ r :: after := by
  rw [List.map_append, List.map_cons] at hnodup
  obtain ⟨-, hafter, hbefore⟩ := List.nodup_append.mp hnodup
  have hkeep : ∀ ms : List (MemoryRecord String), (∀ n ∈ ms, n.id ≠ m.id) →
      ms.map (fun n => if n.id = r.id then r else n) = ms := by
    intro ms hms
    refine List.map_congr_left (g := id) (fun n hn => ?_) |>.trans (List.map_id ms)
    rw [hid, if_neg (hms n hn), id]
  rw [KeyedTable.replace, List.map_append, List.map_cons, hkeep before, hkeep after, if_pos hid.symm]
  · intro n hn heq
    exact (List.nodup_cons.mp hafter).1 (heq ▸ List.mem_map_of_mem hn)
  · intro n hn heq
    exact hbefore _ (List.mem_map_of_mem hn) _ List.mem_cons_self heq

/-- One turn, where the record's own check goes through. -/
lemma resolve_eq (repr : String → String) (nullDangling : Bool) {texts : List String} (htexts : localProblems m = .ok texts) (hsame : s.records.map MemoryRecord.id = ids) :
    resolve repr nullDangling s m = .ok (match dangling ids m with
      | none => { s with problems := s.problems ++ texts.map fun text => m.id ++ ": " ++ text }
      | some target =>
        if nullDangling then
          ⟨s.problems ++ texts.map fun text => m.id ++ ": " ++ text,
            KeyedTable.replace MemoryRecord.id { m with supersedes := none } s.records, s.nulled ++ [(m.id, target)]⟩
        else { s with problems := (s.problems ++ texts.map fun text => m.id ++ ": " ++ text) ++ [m.id ++ ": supersedes " ++
          repr target ++ ", which is not in the source (use --null-dangling-supersedes to drop such pointers)"] }) := by
  simp only [resolve, htexts, hsame, bind, Except.bind, pure, Except.pure]
  cases dangling ids m with
  | none => rfl
  | some target => cases nullDangling <;> rfl

lemma Resolved.turn (repr : String → String) (h : Resolved nullDangling ids done (m :: todo) s) (hdated : Dated m)
    (hids : ids = (done ++ m :: todo).map MemoryRecord.id) (hnodup : ids.Nodup) :
    ∃ s', resolve repr nullDangling s m = .ok s' ∧ Resolved nullDangling ids (done ++ [m]) todo s' := by
  obtain ⟨texts, htexts⟩ := localProblems_isOk.mpr hdated
  have hsame : s.records.map MemoryRecord.id = ids := by
    rw [h.records, hids]
    simp [Function.comp_def]
  have hfine : localProblems m = .ok [] ↔ texts = [] := by
    rw [htexts, Except.ok.injEq]
  have hgo := resolve_eq repr nullDangling htexts hsame
  have hproblems : s.problems ++ texts.map (fun text => m.id ++ ": " ++ text) = [] ↔ (∀ n ∈ done ++ [m], localProblems n = .ok []) ∧
      (nullDangling = true ∨ ∀ n ∈ done, dangling ids n = none) := by
    rw [List.append_eq_nil_iff, h.problems, List.map_eq_nil_iff, and_right_comm]
    simp only [List.forall_mem_append, List.forall_mem_singleton, hfine]
  generalize s.problems ++ texts.map (fun text => m.id ++ ": " ++ text) = problems at hgo hproblems
  cases hdangling : dangling ids m with
  | none =>
    rw [hdangling] at hgo
    refine ⟨_, hgo, ?_, ?_, ?_⟩
    · simp [h.records, settled, hdangling]
    · simp [h.nulled, nulledOf, hdangling]
    · simp only [hproblems, List.forall_mem_append, List.forall_mem_singleton, hdangling, and_true]
  | some target =>
    rw [hdangling] at hgo
    cases nullDangling with
    | true =>
      refine ⟨_, hgo, ?_, ?_, ?_⟩
      · have hunique : ((done.map (settled true ids) ++ m :: todo).map MemoryRecord.id).Nodup := by
          rw [← h.records, hsame]
          exact hnodup
        have hreplace : KeyedTable.replace MemoryRecord.id { m with supersedes := none } s.records =
            done.map (settled true ids) ++ { m with supersedes := none } :: todo := by
          rw [h.records]
          exact replace_at rfl hunique
        simp [hreplace, settled, hdangling]
      · simp [h.nulled, nulledOf, hdangling]
      · exact hproblems.trans (and_congr_right fun _ => iff_of_true (Or.inl rfl) (Or.inl rfl))
    | false =>
      refine ⟨_, hgo, ?_, ?_, ?_⟩
      · simp [h.records, settled]
      · simp [h.nulled]
      · simp [hdangling]

lemma Resolved.run (repr : String → String) (hdated : ∀ m ∈ todo, Dated m) (h : Resolved nullDangling ids done todo s)
    (hids : ids = (done ++ todo).map MemoryRecord.id) (hnodup : ids.Nodup) :
    ∃ s', todo.foldlM (resolve repr nullDangling) s = .ok s' ∧ Resolved nullDangling ids (done ++ todo) [] s' := by
  induction todo generalizing done s with
  | nil => exact ⟨s, rfl, by rwa [List.append_nil]⟩
  | cons m todo ih =>
    obtain ⟨s', hstep, h'⟩ := h.turn repr (hdated m List.mem_cons_self) hids hnodup
    rw [List.append_cons] at hids ⊢
    obtain ⟨last, hlast, hresolved⟩ := ih (fun n hn => hdated n (List.mem_cons_of_mem _ hn)) h' hids
    refine ⟨last, ?_, hresolved⟩
    rw [List.foldlM_cons, hstep]
    exact hlast

lemma resolved_start (ids : List String) (records : List (MemoryRecord String)) : Resolved nullDangling ids [] records ⟨[], records, []⟩ :=
  ⟨rfl, by simp [nulledOf], by simp⟩

/-- A record whose timestamp lies outside the years of a `datetime` ends the planning. -/
lemma not_dated_raises (hm : m ∈ todo) (hbad : ¬ Dated m) : ¬ ∃ s', todo.foldlM (resolve repr nullDangling) s = .ok s' := by
  induction todo generalizing s with
  | nil => exact absurd hm List.not_mem_nil
  | cons n todo ih =>
    rintro ⟨last, hlast⟩
    rw [List.foldlM_cons] at hlast
    obtain ⟨s', hstep, hlast⟩ := Checks.bind_ok hlast
    rcases List.mem_cons.mp hm with rfl | hm
    · rw [resolve] at hstep
      obtain ⟨texts, htexts, -⟩ := Checks.bind_ok hstep
      exact hbad (localProblems_isOk.mp ⟨texts, htexts⟩)
    · exact ih hm ⟨last, hlast⟩

/-! ### The order -/

lemma waits_isReady : Layers.Waits isReady pointer := by
  intro placed pending m
  unfold isReady pointer
  cases hs : m.supersedes with
  | none => simp
  | some p =>
    by_cases hempty : p = ""
    · simp [hempty]
    · by_cases hself : p = m.id
      · simp [hself]
      · simp [hempty, hself]

lemma sortedById_perm (records : List (MemoryRecord String)) : (sortedById records).Perm records := List.mergeSort_perm _ _

lemma pointer_settled {p : String} (h : pointer (settled nullDangling ids m) = some p) : pointer m = some p := by
  unfold settled at h
  split_ifs at h
  · simp [pointer] at h
  · exact h

/-- A pointer at a record of the source stays. -/
lemma pointer_kept {p : String} (h : pointer m = some p) (hin : p ∈ ids) : pointer (settled nullDangling ids m) = some p := by
  have hfound : dangling ids m = none := by simp [dangling, h, hin]
  rw [settled, hfound, Option.isSome_none, Bool.and_false, if_neg Bool.false_ne_true, h]

/-- What is left of the pointers is in the source. -/
lemma pointer_found {p : String} (hfound : nullDangling = true ∨ dangling ids m = none)
    (h : pointer (settled nullDangling ids m) = some p) : p ∈ ids := by
  have hp := pointer_settled h
  by_contra hout
  have hdangling : dangling ids m = some p := by simp [dangling, hp, hout]
  have hnull : nullDangling = true := hfound.resolve_right (by simp [hdangling])
  simp [settled, hnull, hdangling, pointer] at h

lemma map_settled_id (records : List (MemoryRecord String)) :
    (records.map (settled nullDangling ids)).map MemoryRecord.id = records.map MemoryRecord.id := by
  simp [Function.comp_def]

lemma circular_settled (records : List (MemoryRecord String)) (hids : ids = records.map MemoryRecord.id) :
    Layers.Circular MemoryRecord.id pointer (records.map (settled nullDangling ids)) ↔
      Layers.Circular MemoryRecord.id pointer records := by
  have hnames : Layers.Names MemoryRecord.id pointer (records.map (settled nullDangling ids)) =
      Layers.Names MemoryRecord.id pointer records := by
    funext a b
    unfold Layers.Names
    rw [map_settled_id, ← hids]
    refine propext ⟨?_, ?_⟩
    · rintro ⟨x, hx, hkey, hnext, hb⟩
      obtain ⟨m, hm, rfl⟩ := List.mem_map.mp hx
      exact ⟨m, hm, by rwa [settled_id] at hkey, pointer_settled hnext, hb⟩
    · rintro ⟨m, hm, hkey, hnext, hb⟩
      exact ⟨_, List.mem_map_of_mem hm, by rwa [settled_id], pointer_kept hnext hb, hb⟩
  rw [Layers.Circular, hnames, Layers.Circular]

lemma cycleProblem_nil {stuck : List (MemoryRecord String)} : cycleProblem stuck = [] ↔ stuck = [] := by
  by_cases h : stuck = []
  · exact iff_of_true (if_neg (not_not.mpr h)) h
  · refine iff_of_false ?_ h
    rw [cycleProblem, problemIf, if_pos h]
    exact List.cons_ne_nil _ _

lemma mem_nulledOf {records : List (MemoryRecord String)} {id p : String} :
    (id, p) ∈ nulledOf ids records ↔ ∃ m ∈ records, m.id = id ∧ dangling ids m = some p := by
  simp only [nulledOf, List.mem_filterMap, Option.map_eq_some_iff, Prod.mk.injEq]
  constructor
  · rintro ⟨m, hm, _, hp, rfl, rfl⟩
    exact ⟨m, hm, rfl, hp⟩
  · rintro ⟨m, hm, rfl, hp⟩
    exact ⟨m, hm, p, hp, rfl, rfl⟩

lemma withoutNulled_eq (hnodup : (l.memories.map MemoryRecord.id).Nodup) (hm : m ∈ l.memories) :
    withoutNulled (if nullDangling then nulledOf ids l.memories else []) m = settled nullDangling ids m := by
  cases nullDangling with
  | false => simp [withoutNulled, settled]
  | true =>
    have hin : ((nulledOf ids l.memories).map Prod.fst).contains m.id = (dangling ids m).isSome := by
      rw [Bool.eq_iff_iff, List.contains_iff_mem, List.mem_map, Option.isSome_iff_exists]
      constructor
      · rintro ⟨⟨id, p⟩, hmem, rfl⟩
        obtain ⟨n, hn, hid, hp⟩ := mem_nulledOf.mp hmem
        exact ⟨p, List.inj_on_of_nodup_map hnodup hn hm hid ▸ hp⟩
      · rintro ⟨p, hp⟩
        exact ⟨(m.id, p), mem_nulledOf.mpr ⟨m, hm, rfl, hp⟩, rfl⟩
    rw [if_pos rfl, withoutNulled, hin, settled, Bool.true_and]

/-- What the planning of a ledger ends in, where all of its timestamps can be read. -/
lemma planOf_plans (repr : String → String) (nullDangling : Bool) (hnodup : (l.memories.map MemoryRecord.id).Nodup)
    (hdated : ∀ m ∈ l.memories, Dated m) : Plans (planOf repr nullDangling l) nullDangling l := by
  obtain ⟨s, hrun, hresolved⟩ := (resolved_start (l.memories.map MemoryRecord.id) l.memories).run repr hdated rfl hnodup
  have hrecords : s.records = l.memories.map (settled nullDangling (l.memories.map MemoryRecord.id)) := by
    rw [hresolved.records, List.nil_append, List.append_nil]
  have hids : s.records.map MemoryRecord.id = l.memories.map MemoryRecord.id := by rw [hrecords, map_settled_id]
  obtain ⟨hcircular, hplaced⟩ := Layers.order_complete s.records waits_isReady sortedById_perm (hids ▸ hnodup)
  have hfree : s.problems ++ cycleProblem (Layers.order MemoryRecord.id isReady sortedById [] s.records).2 = [] ↔
      Importable nullDangling l := by
    rw [List.append_eq_nil_iff, hresolved.problems, cycleProblem_nil, hcircular, hrecords, circular_settled _ rfl, List.nil_append]
    exact ⟨fun h => ⟨h.1.1, h.1.2, h.2⟩, fun h => ⟨⟨h.clean, h.found⟩, h.acyclic⟩⟩
  refine ⟨_, _, by rw [planOf, hrun]; rfl, ?_, ?_⟩
  · rw [← hfree]
    split_ifs with hnil <;> simp [hnil]
  · intro plan hplan
    split_ifs at hplan with hnil
    obtain rfl := Option.some.inj hplan
    have himportable := hfree.mp hnil
    have hstuck := cycleProblem_nil.mp (List.append_eq_nil_iff.mp hnil).2
    obtain ⟨hperm, horder⟩ := hplaced hstuck
    have hnulled : s.nulled = if nullDangling then nulledOf (l.memories.map MemoryRecord.id) l.memories else [] := by
      rw [hresolved.nulled, List.nil_append]
    refine ⟨rfl, ?_, fun before m after hsplit p hp => ?_, fun id p => ?_⟩
    · dsimp only
      rw [hnulled, List.map_congr_left fun m hm => withoutNulled_eq hnodup hm, ← hrecords]
      exact hperm
    · refine horder before m after hsplit p hp ?_
      dsimp only at hsplit
      have hm : m ∈ s.records := hperm.mem_iff.mp (hsplit ▸ List.mem_append_right _ List.mem_cons_self)
      rw [hrecords] at hm
      obtain ⟨n, hn, rfl⟩ := List.mem_map.mp hm
      rw [hids]
      exact pointer_found (himportable.found.imp_right fun h => h n hn) hp
    · dsimp only
      rw [hnulled]
      cases nullDangling with
      | true => exact mem_nulledOf
      | false =>
        refine iff_of_false List.not_mem_nil ?_
        rintro ⟨m, hm, -, hp⟩
        rw [himportable.found.resolve_left Bool.false_ne_true m hm] at hp
        cases hp

/-- An import is planned as it should be where no record has a timestamp outside the years of a `datetime`, and only there. -/
theorem planned_iff (num : Numbers) (contentSha256 : String → Hex64) (describe : DocumentError → String) (repr : String → String)
    (raw : Members) (l : Contents) (dirty : Bool) (h : parseLedgerDocument num contentSha256 raw = .ok (l, dirty))
    (nullDangling : Bool) :
    Plans (buildPlan num contentSha256 describe repr nullDangling (.obj raw)) nullDangling l ↔ ∀ m ∈ l.memories, Dated m := by
  have hplan : buildPlan num contentSha256 describe repr nullDangling (.obj raw) = planOf repr nullDangling l := by
    rw [buildPlan, h]
  rw [hplan]
  constructor
  · rintro ⟨plan, problems, hok, -⟩ m hm
    by_contra hbad
    rw [planOf] at hok
    obtain ⟨s, hrun, -⟩ := Checks.bind_ok hok
    exact not_dated_raises hm hbad ⟨s, hrun⟩
  · exact planOf_plans repr nullDangling (parse_parsed h).1

def noText : DocumentError → String := fun _ => ""

theorem planned_iff_log : Plans (buildPlan wholeNumbers sha256Hex noText id false (.obj (oneRecord [jsonText "log.txt"]))) false
    (readContents [logLink]) := by
  refine (planned_iff wholeNumbers sha256Hex noText id _ _ _ parse_logLink false).mpr fun m hm => ?_
  obtain rfl := List.mem_singleton.mp hm
  have hread : fromisoformat (offsetText "2026-01-02T00:00:00+00:00") = some (1767312000000000, some 0) := by decide
  refine ⟨fun r hr => ?_, fun r hr => ?_⟩ <;>
  · obtain rfl := Option.some.inj (hread.symm.trans hr)
    decide

/-- A ledger of one record, whose first moment lies in UTC before the year 1. -/
def beforeAll : Members :=
  [(key "memories", .arr [.obj [(key "id", jsonText "mem-1"), (key "content", jsonText "the port is 8080"),
    (key "created_at", jsonText "0001-01-01T00:00:00+05:00"), (key "updated_at", jsonText "2026-01-02T00:00:00+00:00"),
    (key "source_agent", jsonText "agent"), (key "session_id", jsonText "session"), (key "type", jsonText "fact"),
    (key "confidence", .int 1), (key "evidence", .arr []), (key "status", jsonText "draft"),
    (key "content_sha256", jsonText "5b0a")]])]

/-- The ledger is read, and its planning raises. -/
theorem planning_raises : ∃ l dirty, parseLedgerDocument wholeNumbers sha256Hex beforeAll = .ok (l, dirty) ∧
    ¬ Plans (buildPlan wholeNumbers sha256Hex noText id false (.obj beforeAll)) false l := by
  refine ⟨_, _, by rfl, ?_⟩
  rintro ⟨plan, problems, hok, -⟩
  have hraised : buildPlan wholeNumbers sha256Hex noText id false (.obj beforeAll) = .error .overflow := by rfl
  exact absurd (hok.symm.trans hraised) (by simp)

end ContinuityLedger.Records
