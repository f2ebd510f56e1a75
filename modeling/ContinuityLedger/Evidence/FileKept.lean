import ContinuityLedger.Evidence.FileLines

/-! What a file of evidence lines gives back: every object that was put, where no text in it ends a line. -/

namespace ContinuityLedger.Evidence.FileStore

open Foundations Foundations.Sha256 Foundations.Json

/-! ### A file of lines -/

/-- The objects of a file, each with its line. -/
structure Filed (py : Python) (entries : List (EvidenceObject × List Char)) (file : Bytes) : Prop where
  content : file = PyStr.utf8Chars (entries.flatMap fun e => e.2 ++ ['\n'])
  lined : ∀ e ∈ entries, Lined py e.1 e.2
  ids : (entries.map fun e => e.1.id).Nodup

lemma mapM_readLine {py : Python} {entries : List (EvidenceObject × List Char)} (h : ∀ e ∈ entries, Lined py e.1 e.2) :
    (entries.map Prod.snd).mapM (readLine py) = some (entries.map fun e => e.1.tidy) := by
  induction entries with
  | nil => rfl
  | cons e entries ih =>
    obtain ⟨he, hes⟩ := List.forall_mem_cons.mp h
    rw [List.map_cons, List.mapM_cons, he.reads, ih hes]
    rfl

lemma Filed.read {py : Python} {entries : List (EvidenceObject × List Char)} {file : Bytes} (h : Filed py entries file) :
    read py file = some (entries.map fun e => (e.1.id, e.1.tidy)) := by
  have hlines : TextLines.readLines file = some (entries.map Prod.snd) := by
    have hls : ∀ l ∈ entries.map Prod.snd, TextLines.Unbroken l := List.forall_mem_map.mpr fun e he => (h.lined e he).unbroken
    rw [h.content, ← List.flatMap_map Prod.snd (· ++ ['\n'])]
    exact TextLines.readLines_whole hls
  have hfilled : (entries.map Prod.snd).filter (fun l => !l.all PyText.isspace) = entries.map Prod.snd := by
    refine List.filter_eq_self.mpr (List.forall_mem_map.mpr fun e he => ?_)
    rw [(h.lined e he).filled]
    rfl
  have hpairs : (entries.map fun e => e.1.tidy).map (fun o => (o.id, o)) = entries.map fun e => (e.1.id, e.1.tidy) := by
    rw [List.map_map]
    rfl
  rw [FileStore.read, hlines, Option.bind_eq_bind, Option.bind_some, hfilled, mapM_readLine h.lined, Option.bind_eq_bind,
    Option.bind_some, hpairs, Dict.ofPairs_of_nodup]
  · rfl
  · rw [Dict.Keyed, List.map_map]
    exact h.ids

/-! ### Runs -/

/-- A run of puts of requests that were built, each under `C`, and what the puts returned. -/
inductive Puts (rt : Runtime) (C : EvidenceObjectCreate → String → Prop) : List (EvidenceObject × Bool) → Bytes → Prop
  | nil : Puts rt C [] []
  | put {answers : List (EvidenceObject × Bool)} {file after : Bytes} {now oid : String} {req : EvidenceObjectCreate}
      {data : Bytes} {obj : EvidenceObject} {created : Bool} : Puts rt C answers file →
      buildObject rt req = .ok (oid, data) → Content.Dicts ⟨req.schemaId, req.payload, req.pointer⟩ → C req now →
      put rt.toPython now file oid req data.length = some (obj, created, after) →
      Puts rt C (answers ++ [(obj, created)]) after

/-- Every object that was put is there once and unchanged, and stays when it is put again. -/
structure Kept (rt : Runtime) (C : EvidenceObjectCreate → String → Prop) (answers : List (EvidenceObject × Bool))
    (file : Bytes) : Prop where
  gets : ∀ a ∈ answers, ∃ o, get rt.toPython file a.1.id = some (some o) ∧ a.1.Same o
  lists : ∃ objects, all rt.toPython file = some objects ∧ (objects.map EvidenceObject.id).Nodup ∧
    ∀ oid, oid ∈ objects.map EvidenceObject.id ↔ oid ∈ answers.map fun a => a.1.id
  repeats : ∀ a ∈ answers, ∀ now req size, ∃ o, put rt.toPython now file a.1.id req size = some (o, false, file) ∧ a.1.Same o
  accepts : ∀ now req oid data, buildObject rt req = .ok (oid, data) →
    Content.Dicts ⟨req.schemaId, req.payload, req.pointer⟩ → C req now →
      (put rt.toPython now file oid req data.length).isSome

/-- The objects in the file are those that were put. -/
structure Inv (py : Python) (entries : List (EvidenceObject × List Char)) (answers : List (EvidenceObject × Bool))
    (file : Bytes) : Prop where
  filed : Filed py entries file
  dicts : ∀ e ∈ entries, e.1.Dicts
  stored : ∀ a ∈ answers, ∃ e ∈ entries, e.1.id = a.1.id ∧ a.1.Same e.1.tidy
  answered : ∀ e ∈ entries, ∃ a ∈ answers, a.1.id = e.1.id

section

variable {py : Python} {entries : List (EvidenceObject × List Char)} {file : Bytes}

lemma Filed.get_eq (h : Filed py entries file) {e : EvidenceObject × List Char} (he : e ∈ entries) :
    Dict.get (entries.map fun e => (e.1.id, e.1.tidy)) e.1.id = some e.1.tidy := by
  have hn : ((entries.map fun e => (e.1.id, e.1.tidy)).map Prod.fst).Nodup := by
    rw [List.map_map]
    exact h.ids
  have hrow := KeyedTable.row_eq_some hn (List.mem_map_of_mem (f := fun e => (e.1.id, e.1.tidy)) he)
  rw [Dict.get, hrow]
  rfl

lemma get_entry {oid : String} {o : EvidenceObject}
    (h : Dict.get (entries.map fun e => (e.1.id, e.1.tidy)) oid = some o) : ∃ e ∈ entries, e.1.id = oid ∧ o = e.1.tidy := by
  obtain ⟨e, he, heq⟩ := List.mem_map.mp (Dict.get_mem h)
  obtain ⟨rfl, rfl⟩ := Prod.mk.inj heq
  exact ⟨e, he, rfl, rfl⟩

/-- An id that is there is answered from the file. -/
lemma Filed.put_old (h : Filed py entries file) {e : EvidenceObject × List Char} (he : e ∈ entries) (now : String)
    (req : EvidenceObjectCreate) (size : ℕ) : put py now file e.1.id req size = some (e.1.tidy, false, file) := by
  rw [put, h.read, Option.bind_eq_bind, Option.bind_some, h.get_eq he]
  rfl

/-- An id that is not there is appended. -/
lemma Filed.put_new (h : Filed py entries file) {now oid : String} {req : EvidenceObjectCreate} {size : ℕ} {cs : List Char}
    (hnew : Dict.get (entries.map fun e => (e.1.id, e.1.tidy)) oid = none)
    (hl : Lined py ⟨oid, req.schemaId, req.payload, req.pointer, size, now, req.sourceAgent⟩ cs) :
    put py now file oid req size = some (⟨oid, req.schemaId, req.payload, req.pointer, size, now, req.sourceAgent⟩, true,
      file ++ PyStr.utf8Chars (cs ++ ['\n'])) ∧
    Filed py (entries ++ [(⟨oid, req.schemaId, req.payload, req.pointer, size, now, req.sourceAgent⟩, cs)])
      (file ++ PyStr.utf8Chars (cs ++ ['\n'])) := by
  constructor
  · rw [put, h.read, Option.bind_eq_bind, Option.bind_some, hnew]
    simp only [hl.written, Option.bind_eq_bind, Option.bind_some]
    rfl
  · refine ⟨?_, List.forall_mem_append.mpr ⟨h.lined, by simpa using hl⟩, ?_⟩
    · rw [h.content]
      simp [PyStr.utf8Chars]
    · have hnot : oid ∉ entries.map fun e => e.1.id := by
        intro hmem
        obtain ⟨e, he, rfl⟩ := List.mem_map.mp hmem
        rw [h.get_eq he] at hnew
        cases hnew
      rw [List.map_append, List.nodup_append]
      refine ⟨h.ids, by simp, ?_⟩
      rintro x hx y hy rfl
      obtain rfl : x = oid := by simpa using hy
      exact hnot hx

end

lemma puts_inv {rt : Runtime} (hroom : 10 ≤ rt.loadsNesting) {answers : List (EvidenceObject × Bool)} {file : Bytes}
    (h : Puts rt OneLine answers file) : ∃ entries, Inv rt.toPython entries answers file := by
  induction h with
  | nil => exact ⟨[], ⟨rfl, by simp, by simp⟩, by simp, by simp, by simp⟩
  | @put answers file after now oid req data obj created _ hbuild hdicts hline hput ih =>
    obtain ⟨entries, hinv⟩ := ih
    cases hget : Dict.get (entries.map fun e => (e.1.id, e.1.tidy)) oid with
    | some old =>
      obtain ⟨e, he, rfl, rfl⟩ := get_entry hget
      rw [hinv.filed.put_old he] at hput
      obtain ⟨rfl, rfl, rfl⟩ : e.1.tidy = obj ∧ false = created ∧ file = after := by simpa using hput
      refine ⟨entries, hinv.filed, hinv.dicts, ?_, fun f hf => ?_⟩
      · refine List.forall_mem_append.mpr ⟨hinv.stored, List.forall_mem_singleton.mpr ⟨e, he, rfl, ?_⟩⟩
        have hsame := EvidenceObject.same_tidy (EvidenceObject.dicts_tidy (hinv.dicts e he))
        rwa [EvidenceObject.tidy_tidy (hinv.dicts e he)] at hsame
      · obtain ⟨a, ha, heq⟩ := hinv.answered f hf
        exact ⟨a, List.mem_append_left _ ha, heq⟩
    | none =>
      obtain ⟨cs, hl⟩ := lined_of_build hroom hbuild hdicts hline
      obtain ⟨hnew, hfiled⟩ := hinv.filed.put_new hget hl
      rw [hnew] at hput
      obtain ⟨rfl, rfl, rfl⟩ : _ = obj ∧ true = created ∧ _ = after := by simpa using hput
      have hobj : EvidenceObject.Dicts ⟨oid, req.schemaId, req.payload, req.pointer, data.length, now, req.sourceAgent⟩ :=
        hdicts
      refine ⟨_, hfiled, List.forall_mem_append.mpr ⟨hinv.dicts, by simpa using hobj⟩, ?_, ?_⟩
      · refine List.forall_mem_append.mpr ⟨fun a ha => ?_, ?_⟩
        · obtain ⟨e, he, heq, hsame⟩ := hinv.stored a ha
          exact ⟨e, List.mem_append_left _ he, heq, hsame⟩
        · exact List.forall_mem_singleton.mpr ⟨_, List.mem_append_right _ (List.mem_singleton_self _), rfl,
            EvidenceObject.same_tidy hobj⟩
      · refine List.forall_mem_append.mpr ⟨fun e he => ?_, ?_⟩
        · obtain ⟨a, ha, heq⟩ := hinv.answered e he
          exact ⟨a, List.mem_append_left _ ha, heq⟩
        · exact List.forall_mem_singleton.mpr ⟨_, List.mem_append_right _ (List.mem_singleton_self _), rfl⟩

theorem puts_kept {rt : Runtime} (hroom : 10 ≤ rt.loadsNesting) {answers : List (EvidenceObject × Bool)} {file : Bytes}
    (h : Puts rt OneLine answers file) : Kept rt OneLine answers file := by
  obtain ⟨entries, hinv⟩ := puts_inv hroom h
  refine ⟨fun a ha => ?_, ⟨entries.map fun e => e.1.tidy, ?_, ?_, fun oid => ?_⟩, fun a ha now req size => ?_,
    fun now req oid data hbuild hdicts hline => ?_⟩
  · obtain ⟨e, he, heq, hsame⟩ := hinv.stored a ha
    exact ⟨e.1.tidy, by rw [get, hinv.filed.read, Option.map_some, ← heq, hinv.filed.get_eq he], hsame⟩
  · rw [all, hinv.filed.read, Option.map_some, List.map_map]
    rfl
  · rw [List.map_map]
    exact hinv.filed.ids
  · rw [List.map_map, List.mem_map, List.mem_map]
    constructor
    · rintro ⟨e, he, rfl⟩
      exact hinv.answered e he
    · rintro ⟨a, ha, rfl⟩
      obtain ⟨e, he, heq, -⟩ := hinv.stored a ha
      exact ⟨e, he, heq⟩
  · obtain ⟨e, he, heq, hsame⟩ := hinv.stored a ha
    exact ⟨e.1.tidy, by rw [← heq, hinv.filed.put_old he], hsame⟩
  · cases hget : Dict.get (entries.map fun e => (e.1.id, e.1.tidy)) oid with
    | some old =>
      obtain ⟨e, he, rfl, rfl⟩ := get_entry hget
      rw [hinv.filed.put_old he]
      rfl
    | none =>
      obtain ⟨cs, hl⟩ := lined_of_build hroom hbuild hdicts hline
      rw [(hinv.filed.put_new hget hl).1]
      rfl

/-- A decision put into an empty file. -/
def putDecision (req : EvidenceObjectCreate) : Option (EvidenceObject × Bool × Bytes) :=
  (buildObject standardRuntime req).toOption.bind fun r =>
    put standardRuntime.toPython "2026-10-01T00:00:00+00:00" [] r.1 req r.2.length

lemma puts_decision {req : EvidenceObjectCreate} {C : EvidenceObjectCreate → String → Prop} {obj : EvidenceObject}
    {created : Bool} {file : Bytes} (hdicts : Content.Dicts ⟨req.schemaId, req.payload, req.pointer⟩)
    (hC : C req "2026-10-01T00:00:00+00:00") (h : putDecision req = some (obj, created, file)) :
    Puts standardRuntime C [(obj, created)] file := by
  obtain ⟨⟨oid, data⟩, hbuild, hput⟩ := Option.bind_eq_some_iff.mp h
  have hok : buildObject standardRuntime req = .ok (oid, data) := by
    cases hb : buildObject standardRuntime req with
    | error e =>
      rw [hb] at hbuild
      cases hbuild
    | ok r =>
      rw [hb] at hbuild
      exact congrArg Except.ok (Option.some.inj hbuild)
  exact Puts.put .nil hok hdicts hC hput

theorem puts_kept_decision : ∃ obj created file, putDecision decision = some (obj, created, file) ∧
    Kept standardRuntime OneLine [(obj, created)] file := by
  obtain ⟨⟨obj, created, file⟩, h⟩ := Option.isSome_iff_exists.mp (show (putDecision decision).isSome = true by decide +kernel)
  have hdicts : Content.Dicts ⟨decision.schemaId, decision.payload, decision.pointer⟩ := by
    simp [Content.Dicts, decision, distinct, distinctMembers, text, Codec.ofString_inj]
  have hline : OneLine decision "2026-10-01T00:00:00+00:00" := by
    have hkey : ∀ s : String, Data.Printable s.toList → ∀ p ∈ text s, PyStr.code p < 0x20 ∨ keepsLine p :=
      fun s h => keepsLine_ofString h
    refine ⟨?_, trivial, keepsLine_ofString (by decide), keepsLine_ofString (by decide)⟩
    exact ⟨hkey _ (by decide), hkey _ (by decide), hkey _ (by decide), hkey _ (by decide), hkey _ (by decide),
      hkey _ (by decide), trivial⟩
  exact ⟨obj, created, file, h, puts_kept (by decide) (puts_decision hdicts hline h)⟩

/-- A decision with a line separator in its statement. -/
def separated : EvidenceObjectCreate := ⟨cesDecision, [(text "statement", .str (text "ship\u2028it")),
  (text "authority", .str (text "the operator")), (text "source", .str (text "chat 7"))], none, "operator", none⟩

lemma separated_unread : (putDecision separated).map (fun r => (read standardRuntime.toPython r.2.2).isSome) = some false := by
  decide +kernel

theorem separator_breaks_file : ¬ ∀ (rt : Runtime) answers file, 10 ≤ rt.loadsNesting →
    Puts rt (fun _ _ => True) answers file → Kept rt (fun _ _ => True) answers file := by
  intro h
  obtain ⟨⟨obj, created, file⟩, hput, hread⟩ := Option.map_eq_some_iff.mp separated_unread
  have hdicts : Content.Dicts ⟨separated.schemaId, separated.payload, separated.pointer⟩ := by
    simp [Content.Dicts, separated, distinct, distinctMembers, text, Codec.ofString_inj]
  obtain ⟨o, ho, -⟩ := (h standardRuntime _ _ (by decide) (puts_decision hdicts trivial hput)).gets _ List.mem_cons_self
  have hnone : read standardRuntime.toPython file = none := Option.not_isSome_iff_eq_none.mp (by simp [hread])
  rw [get, hnone] at ho
  cases ho

end ContinuityLedger.Evidence.FileStore
