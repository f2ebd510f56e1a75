import ContinuityLedger.Mcp.Witness

/-! When a tool that a POST on `/mcp` runs is witnessed. -/

namespace ContinuityLedger.Mcp

open Foundations Foundations.Sha256

def Event.isRecorded : Event → Bool
  | .recorded _ => true
  | _ => false

/-- A tool that the message ran is in scope; the run was witnessed, after the preflight where the tool writes, and recorded
once. -/
def Lawful (c : Credential) (p : Processed) : Prop :=
  ∀ tool arguments, Event.executed tool arguments ∈ p.run.events →
    c.permits tool = true ∧ p.witnessed = true ∧
      ∃ before after, p.run.events = before ++ .executed tool arguments :: after ∧
        (isTool writeTools tool = true → .preflight true ∈ before) ∧
        (∀ t a, Event.executed t a ∉ before ++ after) ∧
        before.countP Event.isRecorded = 0 ∧ after.countP Event.isRecorded = 1

/-- What `args_hash` takes: no number too long, no nesting too deep, no surrogate that stands alone. -/
def Hashable (py : Python) (arguments : Message) : Prop :=
  Json.printable (.obj arguments) = true ∧ Json.depth (.obj arguments) ≤ py.dumpsNesting ∧
    Json.plain (.obj arguments) = true

/-- No surrogate stands alone in what is recorded of the client. -/
def Nameable (client : Client) : Prop :=
  ∀ s, client.1.bind (cleanClient · 128) = some s ∨ client.2.bind (cleanClient · 64) = some s → PyStr.scalars s = true

def ToolAnswer.denies : ToolAnswer → Bool
  | .refused code _ _ => code = text "denied"
  | _ => false

/-- The tool returns no value that is true and no dict. -/
def ToolAnswer.structured : ToolAnswer → Bool
  | .returned value => (orDict value).isSome
  | _ => true

/-- A message that runs a tool is a request; unless its write is refused, the result is a dict or false and the arguments
can be hashed; and unless the log only counts it, its client can be written. -/
def Covered (rt : Runtime) (c : Credential) (p : Processed) : Prop :=
  ∀ tool, toolOf c p.message = some tool →
    isJsonrpcRequest p.message = true ∧
      ((isTool writeTools tool = true → p.answers.ready = true) →
        p.answers.tool.structured = true ∧ Hashable rt.py (argumentsOf (dictOr (get p.message "params"))) ∧
          (p.answers.log.opens = true → (p.answers.tool.denies && p.answers.log.crowded) = false → Nameable p.client))

/-! ### What a message runs -/

lemma isText_iff {j : Json} {s : String} : isText j s = true ↔ j = .str (text s) := by
  cases j <;> simp [isText]

lemma isText_ne {j : Json} {s t : String} (h : isText j s = true) (hne : s ≠ t) : isText j t = false := by
  obtain rfl := isText_iff.mp h
  simp [isText, text, Codec.ofString_inj, hne]

lemma dispatchRpc_call {tool : ToolAnswer} {m : Message} (h : isText (get m "method") "tools/call" = true) :
    dispatchRpc tool m = ⟨(handleToolsCall tool (dictOr (get m "params"))).events,
      (handleToolsCall tool (dictOr (get m "params"))).value.map (.called (get m "id"))⟩ := by
  unfold dispatchRpc
  simp only [isText_ne h (t := "notifications/initialized") (by decide),
    isText_ne h (t := "notifications/cancelled") (by decide), isText_ne h (t := "initialize") (by decide),
    isText_ne h (t := "tools/list") (by decide), h, Bool.or_self, Bool.false_eq_true, if_false, if_true]

lemma dispatchRpc_other {tool : ToolAnswer} {m : Message} (h : isText (get m "method") "tools/call" = false) :
    (dispatchRpc tool m).events = [] := by
  unfold dispatchRpc
  simp only [h, Bool.false_eq_true, if_false]
  split_ifs <;> rfl

/-- The tool that a `tools/call` runs where any that is known may run. -/
lemma handleToolsCall_events (tool : ToolAnswer) (params : Message) :
    (handleToolsCall tool params).events = match get params "name" with
      | .str s => if isTool knownTools s then [.executed s (argumentsOf params)] else []
      | _ => [] := by
  unfold handleToolsCall
  cases get params "name" with
  | str s =>
    simp only
    split_ifs <;> rfl
  | _ => rfl

lemma scopedDispatch_other (c : Credential) (tool : ToolAnswer) {m : Message}
    (h : isText (get m "method") "tools/call" = false) : (scopedDispatch c tool m).events = [] := by
  unfold scopedDispatch
  split
  · exact dispatchRpc_other h
  · simp only [h, Bool.false_eq_true, if_false]
    split_ifs
    · rfl
    · exact dispatchRpc_other h

lemma toolOf_some {c : Credential} {m : Message} {s : PyStr} (h : toolOf c m = some s) :
    isText (get m "method") "tools/call" = true ∧ scopedName m = .str s ∧ c.permits s = true := by
  unfold toolOf at h
  split_ifs at h with hcall
  split at h
  · rename_i t ht
    split_ifs at h with hp
    obtain rfl := Option.some.inj h
    exact ⟨hcall, ht, hp⟩
  · exact absurd h (by simp)

lemma permits_known {c : Credential} {s : PyStr} (h : c.permits s = true) : isTool knownTools s = true := by
  unfold Credential.permits at h
  split at h
  · exact h
  · exact (Bool.and_eq_true_iff.mp h).2

/-- Within the scope of its credential a message runs its tool, on its arguments, and what the tool answers is answered. -/
lemma scopedDispatch_tool {c : Credential} (tool : ToolAnswer) {m : Message} {s : PyStr} (h : toolOf c m = some s) :
    scopedDispatch c tool m = ⟨[.executed s (argumentsOf (dictOr (get m "params")))],
      tool.reply.map (.called (get m "id"))⟩ := by
  obtain ⟨hcall, hname, hp⟩ := toolOf_some h
  have hknown := permits_known hp
  have hrpc : dispatchRpc tool m = ⟨[.executed s (argumentsOf (dictOr (get m "params")))],
      tool.reply.map (.called (get m "id"))⟩ := by
    rw [dispatchRpc_call hcall]
    have hget : get (dictOr (get m "params")) "name" = .str s := hname
    simp only [handleToolsCall, hget, hknown, if_true]
  unfold scopedDispatch
  unfold Credential.permits at hp
  cases hscope : c.scope with
  | none => exact hrpc
  | some scope =>
    simp only [hscope, Bool.and_eq_true] at hp
    simp only [isText_ne hcall (t := "tools/list") (by decide), hcall, hname, among, hp.1, Bool.false_eq_true, if_false,
      if_true]
    exact hrpc

/-- Without one it runs none. -/
lemma scopedDispatch_none {c : Credential} (tool : ToolAnswer) {m : Message} (h : toolOf c m = none) :
    (scopedDispatch c tool m).events = [] := by
  cases hcall : isText (get m "method") "tools/call" with
  | false => exact scopedDispatch_other c tool hcall
  | true =>
    have hrpc : (∀ s, scopedName m = .str s → isTool knownTools s = false) → (dispatchRpc tool m).events = [] := by
      intro hn
      rw [dispatchRpc_call hcall]
      refine (handleToolsCall_events tool _).trans ?_
      change (match scopedName m with
        | .str s => if isTool knownTools s then [Event.executed s (argumentsOf (dictOr (get m "params")))] else []
        | _ => []) = []
      cases hname : scopedName m with
      | str s => simp [hn s hname]
      | _ => rfl
    unfold scopedDispatch
    simp only [toolOf, hcall, if_true] at h
    cases hscope : c.scope with
    | none =>
      refine hrpc fun s hs => ?_
      simpa [hs, Credential.permits, hscope] using h
    | some scope =>
      simp only [isText_ne hcall (t := "tools/list") (by decide), hcall, Bool.false_eq_true, if_false, if_true]
      split
      · rfl
      · rfl
      · rename_i ha
        refine hrpc fun s hs => ?_
        rw [hs, among, Option.some.injEq] at ha
        simpa [hs, Credential.permits, hscope, ha] using h

/-! ### What is recorded of it -/

@[simp] lemma scalars_text (s : String) : PyStr.scalars (text s) = true := PyStr.scalars_ofString s

lemma argsHash_isSome (py : Python) (arguments : Message) : (argsHash py arguments).isSome ↔ Hashable py arguments := by
  rw [argsHash, Option.isSome_map]
  exact Json.encoded_isSome py _

lemma depth_nullable (s : Option PyStr) : Json.depth (nullable s) = 0 := by cases s <;> rfl

lemma printable_nullable (s : Option PyStr) : Json.printable (nullable s) = true := by cases s <;> rfl

lemma plain_nullable (s : Option PyStr) : Json.plain (nullable s) = (s.map PyStr.scalars).getD true := by
  cases s <;> rfl

/-- The strings that a client or a tool has a say in. -/
def CallFields.Plain (f : CallFields) : Prop :=
  ∀ s, f.client.1 = some s ∨ f.client.2 = some s ∨ s = f.tool ∨ f.verdict.code = some s ∨ f.verdict.digest = some s →
    PyStr.scalars s = true

lemma map_scalars {s : Option PyStr} : (s.map PyStr.scalars).getD true = true ↔ ∀ t, s = some t → PyStr.scalars t = true := by
  cases s <;> simp

lemma plain_members (log : LogAnswer) (f : CallFields) (more : Message) (h : Json.plainMembers more = true) :
    Json.plain (.obj (entryMembers log f ++ more)) = true ↔ f.Plain := by
  simp only [entryMembers, CallFields.members, List.cons_append, List.nil_append, Json.plain, Json.plainMembers,
    scalars_text, plain_nullable, h, Bool.and_true, Bool.true_and, Bool.and_eq_true, map_scalars, CallFields.Plain]
  constructor
  · rintro ⟨hname, hversion, htool, hcode, hdigest⟩ s (hs | hs | rfl | hs | hs)
    · exact hname s hs
    · exact hversion s hs
    · exact htool
    · exact hcode s hs
    · exact hdigest s hs
  · intro hs
    exact ⟨fun t ht => hs t (.inl ht), fun t ht => hs t (.inr (.inl ht)), hs _ (.inr (.inr (.inl rfl))),
      fun t ht => hs t (.inr (.inr (.inr (.inl ht)))), fun t ht => hs t (.inr (.inr (.inr (.inr ht))))⟩

/-- An entry's numbers can be written, and it is flat. -/
lemma encoded_entry (py : Python) (log : LogAnswer) (f : CallFields) (more : Message)
    (hprint : Json.printableMembers more = true) (hdepth : Json.depthMembers more = 0)
    (hplain : Json.plainMembers more = true) :
    (Json.encoded py (.obj (entryMembers log f ++ more))).isSome ↔ f.Plain := by
  have hp : Json.printable (.obj (entryMembers log f ++ more)) = true := by
    have hseq := log.seq.2
    have hduration := f.duration.2
    simp only [entryMembers, CallFields.members, List.cons_append, List.nil_append, Json.printable,
      Json.printableMembers, printable_nullable, hprint, Bool.and_true, Bool.true_and] at hseq hduration ⊢
    simp only [hseq, hduration, Bool.and_true]
  have hd : Json.depth (.obj (entryMembers log f ++ more)) ≤ py.dumpsNesting := by
    simp only [entryMembers, CallFields.members, List.cons_append, List.nil_append, Json.depth, Json.depthMembers,
      depth_nullable, hdepth, Nat.max_self, Nat.zero_add]
    exact py.dumps_pos
  rw [Json.encoded_isSome, and_iff_right hp, and_iff_right hd]
  exact plain_members log f more hplain

lemma entryLine_isSome (py : Python) (log : LogAnswer) (f : CallFields) : (entryLine py log f).isSome ↔ f.Plain := by
  have hfirst := encoded_entry py log f [] rfl rfl rfl
  rw [List.append_nil] at hfirst
  unfold entryLine
  cases hbody : Json.encoded py (.obj (entryMembers log f)) with
  | none => simpa [hbody] using hfirst
  | some hashed =>
    rw [Option.bind_some, Option.isSome_map]
    exact encoded_entry py log f _ rfl rfl (by simp [Json.plainMembers, Json.plain])

lemma record_isSome (py : Python) (log : LogAnswer) (f : CallFields) : (record py log f).isSome ↔
    (log.opens = true → (decide (f.verdict.outcome = .denied) && log.crowded) = false → f.Plain) := by
  unfold record
  cases log.opens with
  | false => simp
  | true =>
    cases hc : (decide (f.verdict.outcome = .denied) && log.crowded) with
    | true => simp
    | false => simpa using entryLine_isSome py log f

lemma codeSafe_scalars (code : PyStr) : PyStr.scalars (codeSafe code) = true := by
  rw [PyStr.scalars, List.all_eq_true]
  intro p hp
  have hchar := (List.mem_filter.mp (List.mem_of_mem_take hp)).2
  cases p with
  | scalar c => rfl
  | surrogate n => exact absurd hchar (by simp [isCodeChar])

lemma isDigest_scalars {s : PyStr} (h : isDigest s = true) : PyStr.scalars s = true := by
  rw [PyStr.scalars, List.all_eq_true]
  intro p hp
  have hchar := List.all_eq_true.mp (Bool.and_eq_true_iff.mp h).2 p hp
  cases p with
  | scalar c => rfl
  | surrogate n => exact absurd hchar (by simp)

lemma mcpResult_code {reply : Reply} {verdict : Verdict} {code : PyStr} (h : mcpResult reply = some verdict)
    (hcode : verdict.code = some code) : PyStr.scalars code = true := by
  unfold mcpResult at h
  split at h
  · obtain rfl := Option.some.inj h
    rw [← Option.some.inj hcode]
    exact codeSafe_scalars _
  · obtain ⟨members, -, rfl⟩ := Option.map_eq_some_iff.mp h
    split at hcode <;> exact absurd hcode (by simp)
  · obtain rfl := Option.some.inj h
    rw [← Option.some.inj hcode]
    exact scalars_text _
  · obtain rfl := Option.some.inj h
    exact absurd hcode (by simp)

/-- What is recorded of a tool's run, unless its result raises. -/
def verdictOf (tool : ToolAnswer) (id : Json) : Option Verdict :=
  (tool.reply.map (Reply.called id)).elim (some ⟨.error, some (text "INTERNAL"), none⟩) mcpResult

lemma verdictOf_isSome (tool : ToolAnswer) (id : Json) : (verdictOf tool id).isSome = tool.structured := by
  cases tool with
  | returned value => simp [verdictOf, ToolAnswer.reply, mcpResult, ToolAnswer.structured]
  | _ => rfl

lemma verdictOf_code {tool : ToolAnswer} {id : Json} {verdict : Verdict} {code : PyStr}
    (h : verdictOf tool id = some verdict) (hcode : verdict.code = some code) : PyStr.scalars code = true := by
  unfold verdictOf at h
  cases hr : tool.reply with
  | none =>
    rw [hr] at h
    obtain rfl := Option.some.inj h
    rw [← Option.some.inj hcode]
    exact scalars_text _
  | some reply =>
    rw [hr] at h
    exact mcpResult_code h hcode

lemma verdictOf_denied {tool : ToolAnswer} {id : Json} {verdict : Verdict} (h : verdictOf tool id = some verdict) :
    decide (verdict.outcome = .denied) = tool.denies := by
  cases tool with
  | returned result =>
    obtain ⟨members, -, rfl⟩ := Option.map_eq_some_iff.mp h
    cases get members "result_digest" <;> simp [ToolAnswer.denies]
  | unwritable =>
    obtain rfl := Option.some.inj h
    simp [ToolAnswer.denies]
  | refused code message reason =>
    obtain rfl := Option.some.inj h
    by_cases hc : code = text "denied" <;> simp [ToolAnswer.denies, hc]
  | failed message =>
    obtain rfl := Option.some.inj h
    have hne : ([] : PyStr) ≠ text "denied" := by decide
    simp [ToolAnswer.denies, hne]

lemma entry_isSome {rt : Runtime} {tenant : Option String} {client : Client} {answers : Answers} {params : Message}
    {verdict : Verdict} (hcode : ∀ code, verdict.code = some code → PyStr.scalars code = true) :
    (entry rt tenant client answers params verdict).isSome ↔ Hashable rt.py (argumentsOf params) ∧
      (answers.log.opens = true → (decide (verdict.outcome = .denied) && answers.log.crowded) = false →
        Nameable client ∧ PyStr.scalars (toolName rt params) = true) := by
  have hhash := argsHash_isSome rt.py (argumentsOf params)
  unfold entry makeFields
  cases hargs : argsHash rt.py (argumentsOf params) with
  | none => simpa [hargs] using fun h => absurd (hhash.mpr h) (by simp [hargs])
  | some hash =>
    rw [Option.map_some, Option.bind_some, record_isSome, and_iff_right (hhash.mp (by rw [hargs]; rfl))]
    refine imp_congr_right fun _ => imp_congr_right fun _ => ?_
    constructor
    · refine fun hplain => ⟨?_, hplain _ (.inr (.inr (.inl rfl)))⟩
      rintro s (hs | hs)
      · exact hplain s (.inl hs)
      · exact hplain s (.inr (.inl hs))
    · rintro ⟨hclient, hname⟩ s (hs | hs | rfl | hs | hs)
      · exact hclient s (.inl hs)
      · exact hclient s (.inr hs)
      · exact hname
      · exact hcode s hs
      · exact isDigest_scalars (Option.filter_eq_some_iff.mp hs).2

/-- The entry of a tool's run. -/
lemma verdict_entry {rt : Runtime} {tenant : Option String} {client : Client} {answers : Answers} {params : Message}
    (id : Json) : ((verdictOf answers.tool id).bind (entry rt tenant client answers params)).isSome ↔
      answers.tool.structured = true ∧ Hashable rt.py (argumentsOf params) ∧
        (answers.log.opens = true → (answers.tool.denies && answers.log.crowded) = false →
          Nameable client ∧ PyStr.scalars (toolName rt params) = true) := by
  rw [← verdictOf_isSome answers.tool id]
  cases hv : verdictOf answers.tool id with
  | none => simp
  | some verdict =>
    rw [Option.bind_some, entry_isSome (fun _ hcode => verdictOf_code hv hcode), verdictOf_denied hv]
    simp

/-! ### A tool's run under the witness -/

lemma known_short : ∀ t ∈ knownTools, text t ≠ [] ∧ (text t).length ≤ 64 := by decide

lemma known_text {s : PyStr} (h : isTool knownTools s = true) : ∃ t, text t = s ∧ s ≠ [] ∧ s.length ≤ 64 := by
  obtain ⟨t, ht, hs⟩ := List.any_eq_true.mp h
  obtain rfl := of_decide_eq_true hs
  exact ⟨t, rfl, known_short t ht⟩

/-- A tool that is run is read of the parameters under its own name. -/
lemma params_tool (rt : Runtime) {c : Credential} {m : Message} {s : PyStr} (h : toolOf c m = some s) :
    ∃ params, orDict (get m "params") = some params ∧ dictOr (get m "params") = params ∧ toolName rt params = s ∧
      PyStr.scalars s = true := by
  obtain ⟨-, hname, hp⟩ := toolOf_some h
  obtain ⟨t, rfl, hne, hlen⟩ := known_text (permits_known hp)
  unfold scopedName at hname
  cases hparams : get m "params" with
  | obj d =>
    rw [hparams] at hname
    have hname : get d "name" = .str (text t) := hname
    have hd : d ≠ [] := by
      rintro rfl
      exact absurd hname (by simp [get])
    refine ⟨d, by simp [orDict, truthy, hd], rfl, ?_, scalars_text t⟩
    simp [toolName, hname, truthy, hne, Runtime.strOf, List.take_of_length_le hlen]
  | _ =>
    rw [hparams] at hname
    exact absurd hname (by simp [dictOr, get])

/-- The write is refused, or the tool runs, after the preflight where it writes, and what can be recorded is. -/
lemma witnessed_tool (rt : Runtime) (tenant : Option String) (client : Client) {c : Credential} (answers : Answers)
    {m : Message} {s : PyStr} (h : toolOf c m = some s) :
    (witnessedDispatch rt tenant client answers (scopedDispatch c answers.tool) m).events =
      if isTool writeTools s && !answers.ready then [.preflight false, .refusedWrite]
      else (if isTool writeTools s then [.preflight true] else []) ++
        [.executed s (argumentsOf (dictOr (get m "params")))] ++
        (((verdictOf answers.tool (get m "id")).bind (entry rt tenant client answers (dictOr (get m "params")))).map
          Event.recorded).toList := by
  obtain ⟨params, hor, hdict, hname, -⟩ := params_tool rt h
  have hcall := (toolOf_some h).1
  unfold witnessedDispatch
  simp only [hcall, Bool.not_true, Bool.false_eq_true, if_false, hor, hname, scopedDispatch_tool answers.tool h, hdict]
  split_ifs <;> rfl

lemma witnessed_none {rt : Runtime} {tenant : Option String} {client : Client} {c : Credential} {answers : Answers}
    {m : Message} (h : toolOf c m = none) (tool : PyStr) (arguments : Message) :
    Event.executed tool arguments ∉
      (witnessedDispatch rt tenant client answers (scopedDispatch c answers.tool) m).events := by
  unfold witnessedDispatch
  split
  · simp [scopedDispatch_none answers.tool h]
  · split
    · simp
    · simp only [scopedDispatch_none answers.tool h, List.append_nil]
      split_ifs
      · simp
      all_goals
        intro hmem
        rcases List.mem_append.mp hmem with hmem | hmem
        · exact absurd hmem (by simp)
        · obtain ⟨how, -, heq⟩ := Option.map_eq_some_iff.mp (Option.mem_toList.mp hmem)
          cases heq

/-! ### The messages of a body -/

lemma notified {c : Credential} {all : List (Message × Answers)} {p : Processed} (hp : p ∈ (runNotifications c all).1) :
    (p.message, p.answers) ∈ all ∧ p.witnessed = false ∧ p.run = scopedDispatch c p.answers.tool p.message := by
  induction all with
  | nil => simp [runNotifications] at hp
  | cons q rest ih =>
    obtain ⟨m, answers⟩ := q
    simp only [runNotifications] at hp
    split_ifs at hp
    · rcases List.mem_cons.mp hp with rfl | hp
      · exact ⟨List.mem_cons_self, rfl, rfl⟩
      · exact ⟨List.mem_cons_of_mem _ (ih hp).1, (ih hp).2⟩
    · obtain rfl := List.mem_singleton.mp hp
      exact ⟨List.mem_cons_self, rfl, rfl⟩

lemma requested {rt : Runtime} {post : Post} {sessions : Sessions} {opened : Option PyStr}
    {all : List (Message × Answers)} {p : Processed} (hp : p ∈ runRequests rt post sessions opened all) :
    (p.message, p.answers) ∈ all ∧ p.witnessed = true ∧
      p.run = witnessedDispatch rt post.tenant p.client p.answers (scopedDispatch post.credential p.answers.tool) p.message := by
  induction all generalizing sessions opened with
  | nil => simp [runRequests] at hp
  | cons q rest ih =>
    obtain ⟨m, answers⟩ := q
    simp only [runRequests] at hp
    split at hp
    · simp at hp
    · rcases List.mem_cons.mp hp with rfl | hp
      · exact ⟨List.mem_cons_self, rfl, rfl⟩
      · have hrest := ih (List.mem_ite_nil_right.mp hp).2
        exact ⟨List.mem_cons_of_mem _ hrest.1, hrest.2⟩

/-- A message runs as a notification, or as a request under the witness. -/
lemma processed_cases {rt : Runtime} {sessions : Sessions} {post : Post} {answers : ℕ → Answers} {p : Processed}
    (hp : p ∈ mcpPost rt sessions post answers) :
    (isJsonrpcRequest p.message = false ∧ p.witnessed = false ∧
      p.run = scopedDispatch post.credential p.answers.tool p.message) ∨
    (isJsonrpcRequest p.message = true ∧ p.witnessed = true ∧
      p.run = witnessedDispatch rt post.tenant p.client p.answers (scopedDispatch post.credential p.answers.tool)
        p.message) := by
  unfold mcpPost at hp
  split at hp
  · simp at hp
  · rename_i messages _
    generalize messages.zipIdx.map (fun q => (q.1, answers q.2)) = all at hp
    have hpart : p ∈ (runNotifications post.credential (all.filter fun q => !isJsonrpcRequest q.1)).1 ∨
        p ∈ runRequests rt post sessions none (all.filter fun q => isJsonrpcRequest q.1) := by
      simp only at hp
      split_ifs at hp
      · exact List.mem_append.mp hp
      · exact .inl hp
    rcases hpart with hp | hp
    · obtain ⟨hmem, hw, hrun⟩ := notified hp
      exact .inl ⟨by simpa using (List.mem_filter.mp hmem).2, hw, hrun⟩
    · obtain ⟨hmem, hw, hrun⟩ := requested hp
      exact .inr ⟨(List.mem_filter.mp hmem).2, hw, hrun⟩

lemma lawful_of_none {c : Credential} {p : Processed} (h : ∀ tool arguments, Event.executed tool arguments ∉ p.run.events) :
    Lawful c p := fun tool arguments hmem => absurd hmem (h tool arguments)

/-- Behind its preflight, a run is lawful where it is recorded. -/
lemma lawful_run {c : Credential} {p : Processed} {tool : PyStr} {arguments : Message} {how : Option Recorded}
    (hp : c.permits tool = true) (hw : p.witnessed = true)
    (hrun : p.run.events = (if isTool writeTools tool then [.preflight true] else []) ++ [.executed tool arguments] ++
      (how.map Event.recorded).toList) : Lawful c p ↔ how.isSome := by
  generalize hbefore : (if isTool writeTools tool then [Event.preflight true] else []) = before at hrun
  have hno : ∀ e ∈ before, e = .preflight true := by
    intro e he
    rw [← hbefore] at he
    exact List.mem_singleton.mp (List.mem_ite_nil_right.mp he).2
  have hcount : before.countP Event.isRecorded = 0 := by
    rw [List.countP_eq_zero]
    intro e he
    rw [hno e he]
    exact Bool.false_ne_true
  constructor
  · intro h
    obtain ⟨-, -, front, back, heq, -, -, hfront, hback⟩ := h tool arguments (by simp [hrun])
    have htotal := congrArg (List.countP Event.isRecorded) (hrun.symm.trans heq)
    cases how with
    | some how => rfl
    | none => simp [hcount, hfront, hback, Event.isRecorded] at htotal
  · intro h t a hmem
    obtain ⟨how, rfl⟩ := Option.isSome_iff_exists.mp h
    have hsame : tool = t ∧ arguments = a := by
      rw [hrun] at hmem
      simp only [List.append_assoc, List.mem_append, List.mem_singleton, Option.map_some, Option.toList_some] at hmem
      rcases hmem with hmem | hmem | hmem
      · exact absurd (hno _ hmem) (by simp)
      · exact ⟨(Event.executed.inj hmem).1.symm, (Event.executed.inj hmem).2.symm⟩
      · exact absurd hmem (by simp)
    obtain ⟨rfl, rfl⟩ := hsame
    refine ⟨hp, hw, before, [.recorded how], by simpa using hrun, ?_, ?_, hcount, rfl⟩
    · intro hwrite
      rw [← hbefore, if_pos hwrite]
      exact List.mem_singleton_self _
    · intro t a hin
      rcases List.mem_append.mp hin with hin | hin
      · exact absurd (hno _ hin) (by simp)
      · exact absurd hin (by simp)

/-- A message's run keeps to the law where the message is covered. -/
theorem witnessed_execution (rt : Runtime) (sessions : Sessions) (post : Post) (answers : ℕ → Answers) :
    ∀ p ∈ mcpPost rt sessions post answers, Lawful post.credential p ↔ Covered rt post.credential p := by
  intro p hp
  cases htool : toolOf post.credential p.message with
  | none =>
    refine iff_of_true (lawful_of_none fun tool arguments => ?_) (fun tool h => absurd (htool.symm.trans h) (by simp))
    rcases processed_cases hp with ⟨-, -, hrun⟩ | ⟨-, -, hrun⟩
    · simp [hrun, scopedDispatch_none p.answers.tool htool]
    · rw [hrun]
      exact witnessed_none htool tool arguments
  | some tool =>
    have hp' := (toolOf_some htool).2.2
    rcases processed_cases hp with ⟨hreq, hw, hrun⟩ | ⟨hreq, hw, hrun⟩
    · refine iff_of_false (fun h => ?_) (fun h => ?_)
      · have hexec := h tool (argumentsOf (dictOr (get p.message "params")))
          (by simp [hrun, scopedDispatch_tool p.answers.tool htool])
        exact absurd (hw.symm.trans hexec.2.1) (by simp)
      · exact absurd (hreq.symm.trans (h tool htool).1) (by simp)
    · obtain ⟨params, -, hdict, hname, hscalars⟩ := params_tool rt htool
      have hevents := witnessed_tool rt post.tenant p.client p.answers htool
      rw [← hrun] at hevents
      cases hready : isTool writeTools tool && !p.answers.ready with
      | true =>
        rw [hready, if_pos rfl] at hevents
        refine iff_of_true (lawful_of_none fun t a => by simp [hevents]) ?_
        rintro t ht
        obtain rfl := Option.some.inj (htool.symm.trans ht)
        refine ⟨hreq, fun h => ?_⟩
        simp only [Bool.and_eq_true, Bool.not_eq_true'] at hready
        exact absurd ((h hready.1).symm.trans hready.2) (by simp)
      | false =>
        rw [hready, if_neg (by simp)] at hevents
        rw [lawful_run hp' hw hevents, verdict_entry (get p.message "id"), hdict, hname, hscalars]
        simp only [and_true]
        rw [← hdict]
        constructor
        · intro h t ht
          exact ⟨hreq, fun _ => h⟩
        · intro h
          refine (h tool htool).2 fun hwrite => ?_
          simpa [hwrite] using hready

/-! ### A call without an id -/

def emptyLog : LogAnswer := ⟨true, false, ⟨1, by decide +kernel⟩, "2026-10-01T00:00:00.000000Z", genesis.text, true⟩

def remembering : ℕ → Answers := fun _ => ⟨.returned (.obj []), true, emptyLog, ⟨0, by decide +kernel⟩, text "token"⟩

lemma depth_pos : 0 < 900 := Nat.succ_pos 899

def plainRuntime : Runtime := ⟨⟨id, 900, 900, depth_pos, depth_pos⟩, fun _ => [], "operator"⟩

/-- `{"method":"tools/call","params":{"name":"emr_remember"}}`, with the writer's credential. -/
def withoutId : Post where
  credential := .writer
  body := utf8 "\x7b\"method\":\"tools/call\",\"params\":\x7b\"name\":\"emr_remember\"\x7d\x7d"
  session := none
  userAgent := none
  tenant := none

def Event.runs (tool : String) : Event → Bool
  | .executed t _ => t = text tool
  | _ => false

lemma withoutId_runs : (mcpPost plainRuntime [] withoutId remembering).any
    (fun p => p.run.events.any (Event.runs "emr_remember") && !p.witnessed) = true := by
  decide

theorem witnessed_execution_withoutId : ∃ p ∈ mcpPost plainRuntime [] withoutId remembering,
    Lawful withoutId.credential p ↔ Covered plainRuntime withoutId.credential p := by
  obtain ⟨p, hp, -⟩ := List.any_eq_true.mp withoutId_runs
  exact ⟨p, hp, witnessed_execution plainRuntime [] withoutId remembering p hp⟩

/-- A write runs for a message without an id, and nothing witnesses it. -/
theorem unwitnessed_execution :
    ¬ ∀ p ∈ mcpPost plainRuntime [] withoutId remembering, Lawful withoutId.credential p := by
  intro h
  obtain ⟨p, hp, hruns⟩ := List.any_eq_true.mp withoutId_runs
  obtain ⟨hruns, hw⟩ := Bool.and_eq_true_iff.mp hruns
  obtain ⟨e, he, hruns⟩ := List.any_eq_true.mp hruns
  cases e with
  | executed tool arguments => exact absurd (h p hp tool arguments he).2.1 (by simpa using hw)
  | _ => exact absurd hruns Bool.false_ne_true

end ContinuityLedger.Mcp
