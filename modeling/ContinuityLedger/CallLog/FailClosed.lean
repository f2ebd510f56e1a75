import ContinuityLedger.Foundations.Delimited
import ContinuityLedger.CallLog.Routes

/-! A ledger write is refused while the log cannot be written, except the promotion of a search result and the
memory pipeline. -/

namespace ContinuityLedger.CallLog

open Foundations

/-! ### What the log takes for a write -/

structure Fields where
  tool : String
  route : Option String
  method : Option String
  target : Option String
  outcome : String
  deriving DecidableEq

def ledgerWriteRoutes : List (String × String) :=
  [("POST", "/api/jarvis/memory"), ("POST", "/api/jarvis/memory/promote"), ("POST", "/api/jarvis/memory/pipeline"),
    ("PATCH", "/api/jarvis/memory/{id}"), ("PUT", "/api/jarvis/memory/{id}"), ("DELETE", "/api/jarvis/memory/{id}")]

def isRestWrite (fields : Fields) : Bool :=
  ledgerWriteRoutes.any fun r => fields.method == some r.1 && fields.route == some r.2

def isLedgerWrite (fields : Fields) : Bool := writeTools.contains fields.tool || isRestWrite fields

def outcomeOf (status : ℕ) : String :=
  if status < 400 then "ok" else if status = 401 ∨ status = 403 then "denied" else "error"

def Plan.fields (plan : Plan) (method : String) (status : ℕ) : Fields :=
  { tool := plan.tool, route := some plan.route, method := some method, target := plan.target, outcome := outcomeOf status }

/-! ### The middleware -/

/-- A request that has been handled: the state it left to the application, what was recorded and what was refused. -/
structure Handled (σ : Type) where
  state : σ
  status : ℕ
  recorded : List Fields
  refused : ℕ

/-- `CallWitnessMiddleware.__call__` over an application, where `writable` says whether the preflight passes. -/
def handle {σ : Type} (u : Casing) (reads writable : Bool) (app : σ → σ × ℕ) (method path : String) (s : σ) : Handled σ :=
  match classify u reads method path with
  | none => { state := (app s).1, status := (app s).2, recorded := [], refused := 0 }
  | some plan =>
    if plan.write && !writable then { state := s, status := 503, recorded := [], refused := 1 }
    else { state := (app s).1, status := (app s).2, recorded := [plan.fields method (app s).2], refused := 0 }

/-- What the log takes for a ledger write is marked as one, and no application sees it while the log cannot be written. -/
def FailsClosed (u : Casing) (reads : Bool) (method path : String) : Prop :=
  ∀ plan status, classify u reads method path = some plan → isLedgerWrite (plan.fields method status) = true →
    plan.write = true ∧ ∀ (σ : Type) (app : σ → σ × ℕ) (s : σ),
      handle u reads false app method path s = { state := s, status := 503, recorded := [], refused := 1 }

/-- A POST to one of the two routes that write a record and whose template is no `/api/jarvis/memory`. -/
def Materializes (method path : String) : Prop :=
  method = "POST" ∧ under path memoryPrefix = true ∧ (segments path = ["promote"] ∨ segments path = ["pipeline"])

/-! ### Templates -/

lemma upper_post (u : Casing) : u.upper "POST" = "POST" := by
  rw [u.upper_ascii "POST" (by simp)]
  decide

lemma bestOf_mem {segs : List String} {templates : List Template} {tpl : Template}
    (h : bestOf segs templates = some tpl) : tpl ∈ templates ∧ fits tpl segs = true := by
  have hfold : ∀ (ts : List Template) (best : Option Template),
      ts.foldl (fun best tpl => if fits tpl segs && better tpl best then some tpl else best) best = some tpl →
      best = some tpl ∨ tpl ∈ ts ∧ fits tpl segs = true := by
    intro ts
    induction ts with
    | nil => exact fun best hb => Or.inl hb
    | cons t ts ih =>
      intro best hb
      rcases ih _ hb with hhead | ⟨hmem, hfits⟩
      · dsimp only at hhead
        split_ifs at hhead with hc
        · obtain rfl := Option.some.inj hhead
          exact Or.inr ⟨List.mem_cons_self, (Bool.and_eq_true_iff.mp hc).1⟩
        · exact Or.inl hhead
      · exact Or.inr ⟨List.mem_cons_of_mem _ hmem, hfits⟩
  exact (hfold templates none h).resolve_left (by simp)

lemma fits_single {part : String} {segs : List String} (hpart : part ≠ idSegment) (h : fits [part] segs = true) :
    segs = [part] := by
  simp only [fits, Bool.and_eq_true, beq_iff_eq] at h
  obtain ⟨hlen, hall⟩ := h
  obtain ⟨seg, rfl⟩ := List.length_eq_one_iff.mp hlen.symm
  simp only [List.zip_cons_cons, List.zip_nil_left, List.all_cons, List.all_nil, Bool.and_true, Bool.or_eq_true,
    beq_iff_eq] at hall
  rw [hall.resolve_left hpart]

/-- A template without parameters of its own is the only one of a POST that gives its route. -/
lemma joined_post : ∀ tpl ∈ postRoutes, ∀ part ∈ ["promote", "pipeline"],
    joined (memoryPrefix :: tpl) = memoryPrefix ++ "/" ++ part → tpl = [part] := by decide

lemma bestOf_post : ∀ part ∈ ["promote", "pipeline"], bestOf [part] postRoutes = some [part] := by decide

lemma normalizeMemoryRoute_post (u : Casing) (path part : String) (hpart : part ∈ ["promote", "pipeline"]) :
    (normalizeMemoryRoute u "POST" path).1 = memoryPrefix ++ "/" ++ part ↔ segments path = [part] := by
  have htable : memoryTemplates (u.upper "POST") = postRoutes := by rw [upper_post]; decide
  unfold normalizeMemoryRoute
  rw [htable]
  constructor
  · intro h
    cases hbest : bestOf (segments path) postRoutes with
    | none =>
      simp only [hbest] at h
      have hother : ∀ part ∈ ["promote", "pipeline"], memoryPrefix ++ "/{other}" ≠ memoryPrefix ++ "/" ++ part := by decide
      exact absurd h (hother part hpart)
    | some tpl =>
      simp only [hbest] at h
      obtain ⟨hmem, hfits⟩ := bestOf_mem hbest
      obtain rfl := joined_post tpl hmem part hpart h
      have hid : ∀ part ∈ ["promote", "pipeline"], part ≠ idSegment := by decide
      exact fits_single (hid part hpart) hfits
  · intro h
    have hj : ∀ part ∈ ["promote", "pipeline"], joined [memoryPrefix, part] = memoryPrefix ++ "/" ++ part := by
      decide
    simp only [h, bestOf_post part hpart]
    exact hj part hpart

/-! ### Paths outside the memory -/

lemma startsWith_iff {s start : String} : PyText.startsWith s start = true ↔ start.toList <+: s.toList := by
  simp [PyText.startsWith]

/-- A path under one prefix is under no other that differs. -/
lemma startsWith_apart {s a b : String} (ha : PyText.startsWith s a = true) (hab : ¬ a.toList <+: b.toList)
    (hba : ¬ b.toList <+: a.toList) : PyText.startsWith s b = false := by
  rw [Bool.eq_false_iff]
  intro hb
  rcases List.prefix_or_prefix_of_prefix (startsWith_iff.mp ha) (startsWith_iff.mp hb) with h | h
  · exact hab h
  · exact hba h

def labels : List String := ["{id}", "{eo}", "{n}"]

lemma segmentLabel_mem {seg label : String} (h : segmentLabel seg = some label) : label ∈ labels := by
  unfold segmentLabel at h
  split_ifs at h <;> obtain rfl := Option.some.inj h <;> decide

/-- A segment whose place is taken by no label stands as it is. -/
lemma labelled_eq {seg part : String} (h : (segmentLabel seg).getD seg = part) (hpart : part ∉ labels) : seg = part := by
  cases hl : segmentLabel seg with
  | none => simpa [hl] using h
  | some label =>
    simp only [hl, Option.getD_some] at h
    exact absurd (h ▸ segmentLabel_mem hl) hpart

lemma free_of_mem_split {path seg : String} (h : seg ∈ PyText.split '/' path) : '/' ∉ seg.toList := by
  obtain ⟨cs, hcs, rfl⟩ := List.mem_map.mp h
  rw [String.toList_ofList]
  exact Delimited.not_mem_of_mem_splitOn hcs

lemma normalizeRoute_free {path seg : String} (h : seg ∈ PyText.split '/' path) :
    '/' ∉ ((segmentLabel seg).getD seg).toList := by
  cases hl : segmentLabel seg with
  | none => exact free_of_mem_split h
  | some label =>
    have hlabels : ∀ l ∈ labels, '/' ∉ l.toList := by decide
    exact hlabels label (segmentLabel_mem hl)

lemma joined_split (path : String) : joined (PyText.split '/' path) = path := by
  have hid : ∀ css : List (List Char), (css.map String.ofList).map String.toList = css := by
    intro css
    simp [List.map_map, Function.comp_def]
  rw [joined, PyText.split, hid, List.intercalate_splitOn, String.ofList_toList]

/-- The segments of a normalized route are those of the path, each in its place. -/
lemma split_normalizeRoute (path : String) :
    PyText.split '/' (normalizeRoute path).1 = (PyText.split '/' path).map fun seg => (segmentLabel seg).getD seg := by
  have hfree : ∀ l ∈ ((PyText.split '/' path).map fun seg => (segmentLabel seg).getD seg).map String.toList, '/' ∉ l := by
    intro l hl
    obtain ⟨_, hseg, rfl⟩ := List.mem_map.mp hl
    obtain ⟨seg, hmem, rfl⟩ := List.mem_map.mp hseg
    exact normalizeRoute_free hmem
  have hsplit := List.splitOn_intercalate '/' hfree (by simp [PyText.split])
  unfold normalizeRoute joined PyText.split at *
  rw [String.toList_ofList, hsplit]
  simp [List.map_map, Function.comp_def]

/-- A route without labels is that of its own path alone. -/
lemma normalizeRoute_eq {path route : String} (h : (normalizeRoute path).1 = route)
    (hplain : ∀ part ∈ PyText.split '/' route, part ∉ labels) : path = route := by
  have hsegs := split_normalizeRoute path
  rw [h] at hsegs
  have hsame : PyText.split '/' path = PyText.split '/' route := by
    rw [hsegs] at hplain ⊢
    refine (List.map_id _).symm.trans (List.map_congr_left fun seg hseg => ?_)
    exact labelled_eq rfl (hplain _ (List.mem_map_of_mem hseg))
  rw [← joined_split path, hsame, joined_split]

/-- No path outside the memory is given one of its routes. -/
lemma normalizeRoute_outside {path part : String} (hpart : part ∈ ["promote", "pipeline"])
    (h : (normalizeRoute path).1 = memoryPrefix ++ "/" ++ part) : under path memoryPrefix = true := by
  have hplain : ∀ part ∈ ["promote", "pipeline"],
      ∀ seg ∈ PyText.split '/' (memoryPrefix ++ "/" ++ part), seg ∉ labels := by decide
  have hunder : ∀ part ∈ ["promote", "pipeline"], under (memoryPrefix ++ "/" ++ part) memoryPrefix = true := by
    decide
  rw [normalizeRoute_eq h (hplain part hpart)]
  exact hunder part hpart

/-! ### What is marked as a write -/

lemma first_writeTools {name : String} (h : PyText.first 64 name ∈ writeTools) : name ∈ writeTools := by
  have hshort : ∀ tool ∈ writeTools, tool.toList.length < 64 := by decide
  have hlen := hshort _ h
  rw [PyText.first, String.toList_ofList, List.length_take] at hlen
  rwa [PyText.first, List.take_of_length_le (by omega), String.ofList_toList] at h

/-- A tool of the API is named after its method, with a blank. -/
lemma blank_writeTools (method route : String) : method ++ " " ++ route ∉ writeTools := by
  have hfree : ∀ tool ∈ writeTools, ' ' ∉ tool.toList := by decide
  intro h
  refine hfree _ h ?_
  simp [String.toList_append]

lemma isLedgerWrite_iff {fields : Fields} :
    isLedgerWrite fields = true ↔ fields.tool ∈ writeTools ∨ isRestWrite fields = true := by
  simp [isLedgerWrite]

lemma isRestWrite_iff (plan : Plan) (method : String) (status : ℕ) :
    isRestWrite (plan.fields method status) = true ↔ writesRoute method plan.route = true ∨
      method = "POST" ∧ ∃ part ∈ ["promote", "pipeline"], plan.route = memoryPrefix ++ "/" ++ part := by
  have hroutes : memoryPrefix ++ "/" ++ "promote" = "/api/jarvis/memory/promote" ∧
      memoryPrefix ++ "/" ++ "pipeline" = "/api/jarvis/memory/pipeline" := by decide
  simp only [isRestWrite, ledgerWriteRoutes, Plan.fields, List.any_cons, List.any_nil, Bool.or_false, Bool.or_eq_true,
    Bool.and_eq_true, beq_iff_eq, Option.some.injEq, writesRoute, List.contains_cons, List.contains_nil,
    List.mem_cons, List.not_mem_nil, or_false, exists_eq_or_imp, exists_eq_left, hroutes]
  tauto

lemma toolPlan_write {method path : String} {status : ℕ} (hpath : PyText.startsWith path toolsPrefix = true)
    (h : isLedgerWrite ((toolPlan path).fields method status) = true) : (toolPlan path).write = true := by
  rcases isLedgerWrite_iff.mp h with htool | hroute
  · simp only [Plan.fields, toolPlan] at htool ⊢
    exact decide_eq_true (first_writeTools htool)
  · have hroutes : ∀ route ∈ ledgerWriteRoutes.map Prod.snd, PyText.startsWith route toolsPrefix = false := by
      decide
    obtain ⟨r, hr, heq⟩ := List.any_eq_true.mp hroute
    simp only [Plan.fields, toolPlan, Bool.and_eq_true, beq_iff_eq, Option.some.injEq] at heq
    have hfalse := hroutes _ (List.mem_map_of_mem hr)
    rw [← heq.2, hpath] at hfalse
    cases hfalse

lemma apiPlan_write {method : String} {write : String → Bool} {r : String × Option String × List String} {status : ℕ}
    (h : isLedgerWrite ((apiPlan method write r).fields method status) = true) :
    writesRoute method r.1 = true ∨ method = "POST" ∧ ∃ part ∈ ["promote", "pipeline"], r.1 = memoryPrefix ++ "/" ++ part := by
  rcases isLedgerWrite_iff.mp h with htool | hroute
  · simp only [Plan.fields, apiPlan, blank_writeTools] at htool
  · simpa only [apiPlan] using (isRestWrite_iff (apiPlan method write r) method status).mp hroute

/-- Only the two routes are taken for a write without being marked as one. -/
lemma write_or_materializes {u : Casing} {reads : Bool} {method path : String} {plan : Plan} {status : ℕ}
    (h : classify u reads method path = some plan) (hw : isLedgerWrite (plan.fields method status) = true) :
    plan.write = true ∨ Materializes method path := by
  unfold classify at h
  split_ifs at h with hown htools hget hapi hunder
  · obtain rfl := Option.some.inj h
    exact Or.inl (toolPlan_write htools hw)
  · obtain rfl := Option.some.inj h
    simp only [Bool.and_eq_true, beq_iff_eq] at hget
    obtain ⟨⟨rfl, -⟩, -⟩ := hget
    rcases apiPlan_write hw with hroute | ⟨hpost, -⟩
    · simp [writesRoute] at hroute
    · exact absurd hpost (by decide)
  · obtain rfl := Option.some.inj h
    have hwrite := apiPlan_write hw
    simp only [apiPlan]
    refine hwrite.imp_right ?_
    rintro ⟨rfl, part, hpart, hroute⟩
    have hseg := (normalizeMemoryRoute_post u path part hpart).mp hroute
    refine ⟨rfl, hunder, ?_⟩
    rcases List.mem_pair.mp hpart with rfl | rfl
    · exact Or.inl hseg
    · exact Or.inr hseg
  · obtain rfl := Option.some.inj h
    have hwrite := apiPlan_write hw
    simp only [apiPlan]
    refine hwrite.imp_right ?_
    rintro ⟨-, part, hpart, hroute⟩
    exact absurd (normalizeRoute_outside hpart hroute) hunder

/-- Under the memory a path is neither the log's own nor a tool's. -/
lemma under_memory {path : String} (h : under path memoryPrefix = true) :
    ownPrefixes.any (under path) = false ∧ PyText.startsWith path toolsPrefix = false ∧
      PyText.startsWith path "/api/jarvis/" = true := by
  have hmem : PyText.startsWith path memoryPrefix = true := by
    rcases Bool.or_eq_true_iff.mp h with heq | hstart
    · rw [beq_iff_eq.mp heq]
      decide
    · have hslash : memoryPrefix.toList <+: (memoryPrefix ++ "/").toList := ⟨_, String.toList_append.symm⟩
      exact startsWith_iff.mpr (hslash.trans (startsWith_iff.mp hstart))
  have htools := startsWith_apart hmem (b := toolsPrefix) (by decide) (by decide)
  have hapi : "/api/jarvis/".toList <+: memoryPrefix.toList := by decide
  refine ⟨?_, htools, startsWith_iff.mpr (hapi.trans (startsWith_iff.mp hmem))⟩
  have hown := startsWith_apart hmem (b := "/api/jarvis/tools/calls") (by decide) (by decide)
  have hslash := startsWith_apart hmem (b := "/api/jarvis/tools/calls/") (by decide) (by decide)
  have hne : path ≠ "/api/jarvis/tools/calls" := by
    rintro rfl
    exact absurd hown (by decide)
  simp [ownPrefixes, under, hne, hslash]

lemma classify_materializes (u : Casing) (reads : Bool) {method path : String} (h : Materializes method path) (status : ℕ) :
    ∃ plan, classify u reads method path = some plan ∧ isLedgerWrite (plan.fields method status) = true ∧
      plan.write = false := by
  obtain ⟨rfl, hunder, hsegs⟩ := h
  obtain ⟨hown, htools, hapi⟩ := under_memory hunder
  obtain ⟨part, hpart, hseg⟩ : ∃ part ∈ ["promote", "pipeline"], segments path = [part] := by
    rcases hsegs with h | h
    · exact ⟨_, List.mem_cons_self, h⟩
    · exact ⟨_, List.mem_cons_of_mem _ List.mem_cons_self, h⟩
  have hroute := (normalizeMemoryRoute_post u path part hpart).mpr hseg
  refine ⟨apiPlan "POST" (writesRoute "POST") (normalizeMemoryRoute u "POST" path), ?_, ?_, ?_⟩
  · simp [classify, hown, htools, hapi, hunder, readMethods]
  · rw [isLedgerWrite_iff, isRestWrite_iff]
    exact Or.inr (Or.inr ⟨rfl, part, hpart, by simp only [apiPlan, hroute]⟩)
  · have hplain : ∀ part ∈ ["promote", "pipeline"], writesRoute "POST" (memoryPrefix ++ "/" ++ part) = false := by
      decide
    simp only [apiPlan, hroute, hplain part hpart]

theorem failsClosed_iff (u : Casing) (reads : Bool) (method path : String) :
    FailsClosed u reads method path ↔ ¬ Materializes method path := by
  constructor
  · intro h hm
    obtain ⟨plan, hplan, hw, hfalse⟩ := classify_materializes u reads hm 200
    rw [(h plan 200 hplan hw).1] at hfalse
    cases hfalse
  · intro hm plan status hplan hw
    have hwrite := (write_or_materializes hplan hw).resolve_right hm
    refine ⟨hwrite, fun σ app s => ?_⟩
    simp [handle, hplan, hwrite]

def asciiCasing : Casing := ⟨fun s => String.ofList (s.toList.map Char.toUpper), fun _ _ => rfl⟩

/-- A promotion reaches the application while the log cannot be written. -/
theorem promotion_not_refused : ¬ FailsClosed asciiCasing true "POST" "/api/jarvis/memory/promote" ∧
    (handle asciiCasing true false (fun n : ℕ => (n + 1, 201)) "POST" "/api/jarvis/memory/promote" 0).state = 1 := by
  have hseg : segments "/api/jarvis/memory/promote" = ["promote"] := by decide
  have hunder : under "/api/jarvis/memory/promote" memoryPrefix = true := by decide
  obtain ⟨plan, hplan, hw, hfalse⟩ := classify_materializes asciiCasing true ⟨rfl, hunder, Or.inl hseg⟩ 201
  refine ⟨fun h => ?_, by simp [handle, hplan, hfalse]⟩
  rw [(h plan 201 hplan hw).1] at hfalse
  cases hfalse

end ContinuityLedger.CallLog
