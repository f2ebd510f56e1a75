import ContinuityLedger.Foundations.JsonSteps
import ContinuityLedger.Mcp.Answer
import ContinuityLedger.Mcp.Witnessed

/-! When a POST on `/mcp` is answered as JSON-RPC asks: a response for each request of the body, in its order. -/

namespace ContinuityLedger.Mcp

open Foundations Foundations.Sha256

/-! ### One message dispatched -/

def isCall (m : Message) : Bool := isText (get m "method") "tools/call"

/-- `name in tools` returns. -/
def hashable : Json → Bool
  | .arr _ | .obj _ => false
  | _ => true

lemma among_isSome (tools : List String) (name : Json) : (among tools name).isSome = hashable name := by
  cases name <;> rfl

def isNote (m : Message) : Bool :=
  isText (get m "method") "notifications/initialized" || isText (get m "method") "notifications/cancelled"

/-- No method of the service. -/
def isForeign (m : Message) : Bool :=
  !(isNote m || isText (get m "method") "initialize" || isText (get m "method") "tools/list" || isCall m ||
    isText (get m "method") "ping")

/-- The value that the dispatch of a message has, as far as the credential and the tool decide it. -/
inductive Dispatched (c : Credential) (tool : ToolAnswer) (m : Message) : Option Reply → Prop
  | unhashable (hcall : isCall m = true) (hname : hashable (scopedName m) = false) : Dispatched c tool m none
  | ran (hcall : isCall m = true) (s : PyStr) (htool : toolOf c m = some s) :
      Dispatched c tool m (tool.reply.map (.called (get m "id")))
  | barred (hcall : isCall m = true) (htool : toolOf c m = none) (hname : hashable (scopedName m) = true)
      (reason : String) : Dispatched c tool m (some (.called (get m "id")
        (.error (.notPermitted (scopedName m)) (some (text "AUTHORITY_DENIED", some (text reason))))))
  | unknown (hcall : isCall m = true) (htool : toolOf c m = none) (hname : hashable (scopedName m) = true) :
      Dispatched c tool m (some (.called (get m "id") (.error (.unknownTool (scopedName m)) none)))
  | foreign (hm : isForeign m = true) (hid : isNull (get m "id") = false) :
      Dispatched c tool m (some (.unknownMethod (get m "id") (get m "method")))
  | silent (hcall : isCall m = false) (hm : isNote m = true ∨ isForeign m = true ∧ isNull (get m "id") = true) :
      Dispatched c tool m (some .nothing)
  | plain (hcall : isCall m = false) (hnote : isNote m = false) (hm : isForeign m = false) (reply : Reply)
      (hid : reply.id = get m "id") (hnamed : reply.named = none) (htexts : ∀ rt, reply.texts rt = [])
      (hstructured : reply.structured = none) (hreply : reply.isNothing = false) : Dispatched c tool m (some reply)

lemma handleToolsCall_unknown (tool : ToolAnswer) {params : Message}
    (h : ∀ s, get params "name" = .str s → isTool knownTools s = false) : (handleToolsCall tool params).value =
      if hashable (get params "name") then some (.error (.unknownTool (get params "name")) none) else none := by
  unfold handleToolsCall
  cases hname : get params "name" with
  | str s => simp [h s hname, hashable]
  | _ => simp [among, hashable]

lemma dispatchRpc_unknown {tool : ToolAnswer} {m : Message} (c : Credential) (hcall : isCall m = true)
    (htool : toolOf c m = none) (hnone : ∀ s, scopedName m = .str s → isTool knownTools s = false) :
    Dispatched c tool m (dispatchRpc tool m).value := by
  rw [dispatchRpc_call hcall, handleToolsCall_unknown tool hnone]
  cases hname : hashable (scopedName m) with
  | true =>
    rw [if_pos (by exact hname)]
    exact .unknown hcall htool hname
  | false =>
    rw [if_neg (by change ¬ hashable (scopedName m) = true; simp [hname])]
    exact .unhashable hcall hname

lemma isForeign_note {m : Message} (h : isNote m = true) : isForeign m = false := by simp [isForeign, h]

lemma dispatchRpc_plain (c : Credential) (tool : ToolAnswer) {m : Message} (hcall : isCall m = false) :
    Dispatched c tool m (dispatchRpc tool m).value := by
  unfold dispatchRpc
  by_cases hnote : isNote m = true
  · rw [if_pos (by exact hnote)]
    exact .silent hcall (.inl hnote)
  rw [if_neg (by exact hnote)]
  have hnote := Bool.eq_false_iff.mpr hnote
  by_cases hinit : isText (get m "method") "initialize" = true
  · rw [if_pos hinit]
    exact .plain hcall hnote (by simp [isForeign, hinit]) _ rfl rfl (fun _ => rfl) rfl rfl
  rw [if_neg hinit]
  by_cases hlist : isText (get m "method") "tools/list" = true
  · rw [if_pos hlist]
    exact .plain hcall hnote (by simp [isForeign, hlist]) _ rfl rfl (fun _ => rfl) rfl rfl
  rw [if_neg hlist, if_neg (by rw [show isText (get m "method") "tools/call" = false from hcall]; simp)]
  by_cases hping : isText (get m "method") "ping" = true
  · rw [if_pos hping]
    exact .plain hcall hnote (by simp [isForeign, hping]) _ rfl rfl (fun _ => rfl) rfl rfl
  have hforeign : isForeign m = true := by simp [isForeign, hnote, hinit, hlist, hcall, hping]
  rw [if_neg hping]
  split_ifs with hid
  · exact .silent hcall (.inr ⟨hforeign, hid⟩)
  · exact .foreign hforeign (Bool.eq_false_iff.mpr hid)

theorem scopedDispatch_cases (c : Credential) (tool : ToolAnswer) (m : Message) :
    Dispatched c tool m (scopedDispatch c tool m).value := by
  cases htool : toolOf c m with
  | some s =>
    rw [scopedDispatch_tool tool htool]
    exact .ran (toolOf_some htool).1 s htool
  | none =>
    unfold scopedDispatch
    cases hcall : isCall m with
    | false =>
      cases hscope : c.scope with
      | none => exact dispatchRpc_plain c tool hcall
      | some scope =>
        simp only [show isText (get m "method") "tools/call" = false from hcall, Bool.false_eq_true, if_false]
        split_ifs with hlist
        · refine .plain hcall ?_ (by simp [isForeign, hlist]) _ rfl rfl (fun _ => rfl) rfl rfl
          simp [isNote, isText_ne hlist (t := "notifications/initialized") (by decide),
            isText_ne hlist (t := "notifications/cancelled") (by decide)]
        · exact dispatchRpc_plain c tool hcall
    | true =>
      have hcall' : isText (get m "method") "tools/call" = true := hcall
      have hno := htool
      simp only [toolOf, hcall', if_true] at hno
      cases hscope : c.scope with
      | none =>
        refine dispatchRpc_unknown c hcall htool fun s hs => ?_
        simpa [hs, Credential.permits, hscope] using hno
      | some scope =>
        simp only [isText_ne hcall' (t := "tools/list") (by decide), hcall', Bool.false_eq_true, if_false, if_true]
        have hsome := among_isSome scope.1 (scopedName m)
        split
        · rename_i ha
          exact .unhashable hcall (by rw [← hsome, ha]; rfl)
        · rename_i ha
          exact .barred hcall htool (by rw [← hsome, ha]; rfl) scope.2
        · rename_i ha
          refine dispatchRpc_unknown c hcall htool fun s hs => ?_
          rw [hs, among, Option.some.injEq] at ha
          simpa [hs, Credential.permits, hscope, ha] using hno

/-! ### What one message has to keep to -/

/-- What a tool answers can be written inside so many containers. -/
def ToolAnswer.writable (py : Python) (around : ℕ) : ToolAnswer → Bool
  | .returned value => fits py (around + 2) value
  | .unwritable => false
  | .refused code message reason => PyStr.scalars message && PyStr.scalars code && reason.all PyStr.scalars
  | .failed message => PyStr.scalars message

/-- A value that a reply's text names has a text, and one that can be written. -/
def Host.names (host : Host) (j : Json) : Bool := host.shown j && PyStr.scalars (host.strOf j)

def Host.takes (host : Host) (around : ℕ) (reply : Reply) : Bool :=
  reply.shown host && (reply.isNothing || reply.renders host.toRuntime around)

variable {host : Host} {post : Post} {client : Client} {around : ℕ} {m : Message} {answers : Answers}

/-- The name of a call can be hashed; the tool's answer can be written, or the name where it runs none. -/
structure CallSound (host : Host) (c : Credential) (around : ℕ) (m : Message) (tool : ToolAnswer) : Prop where
  named : hashable (scopedName m) = true
  ran : ∀ s, toolOf c m = some s → tool.writable host.py around = true
  missing : toolOf c m = none → host.names (scopedName m) = true

/-- What the dispatch of a request asks for. -/
structure DispatchSound (host : Host) (c : Credential) (around : ℕ) (m : Message) (tool : ToolAnswer) : Prop where
  id : isNote m = false → fits host.py (around + 1) (get m "id") = true
  call : isCall m = true → CallSound host c around m tool
  method : isForeign m = true → host.names (get m "method") = true

lemma isNote_call (h : isCall m = true) : isNote m = false := by
  simp [isNote, isText_ne h (t := "notifications/initialized") (by decide),
    isText_ne h (t := "notifications/cancelled") (by decide)]

lemma isForeign_call (h : isCall m = true) : isForeign m = false := by simp [isForeign, h]

lemma isCall_foreign (h : isForeign m = true) : isCall m = false := by
  cases hcall : isCall m with
  | false => rfl
  | true => exact absurd (isForeign_call hcall) (by simp [h])

lemma isNote_foreign (h : isForeign m = true) : isNote m = false := by
  cases hnote : isNote m with
  | false => rfl
  | true => exact absurd (isForeign_note hnote) (by simp [h])

/-- A call is sound where its reply is. -/
lemma sound_call {c : Credential} {tool : ToolAnswer} (hcall : isCall m = true) :
    DispatchSound host c around m tool ↔
      fits host.py (around + 1) (get m "id") = true ∧ CallSound host c around m tool := by
  constructor
  · exact fun h => ⟨h.id (isNote_call hcall), h.call hcall⟩
  · exact fun h => ⟨fun _ => h.1, fun _ => h.2, fun hm => absurd (isForeign_call hcall) (by simp [hm])⟩

lemma takes_reply (id : Json) (tool : ToolAnswer) :
    (tool.reply.map (Reply.called id)).any (host.takes around) = true ↔
      fits host.py (around + 1) id = true ∧ tool.writable host.py around = true := by
  cases tool with
  | returned value =>
    simp [ToolAnswer.reply, Host.takes, Reply.shown, Reply.named, Reply.isNothing, Reply.renders, Reply.id, Reply.texts,
      Reply.structured, ToolAnswer.writable]
  | unwritable => simp [ToolAnswer.reply, ToolAnswer.writable]
  | refused code message reason =>
    have hreason : (reason.filter (· ≠ [])).toList.all PyStr.scalars = reason.all PyStr.scalars := by
      cases reason with
      | none => rfl
      | some r =>
        by_cases hr : r = []
        · subst hr
          rfl
        · simp [Option.filter, hr]
    simp only [ToolAnswer.reply, Host.takes, Reply.shown, Reply.named, Reply.isNothing, Reply.renders, Reply.id, Reply.texts,
      Reply.structured, ToolAnswer.writable, Option.map_some, Option.any_some, Option.elim_some, List.all_cons, hreason,
      Option.all_none, Bool.false_or, Bool.true_and, Bool.and_true, Bool.and_eq_true, and_assoc]
  | failed message =>
    simp [ToolAnswer.reply, Host.takes, Reply.shown, Reply.named, Reply.isNothing, Reply.renders, Reply.id, Reply.texts,
      Reply.structured, ToolAnswer.writable]

lemma takes_missing (id : Json) {content : ErrorText} {name : Json} {info : Option (PyStr × Option PyStr)}
    (hcontent : content = .unknownTool name ∨ content = .notPermitted name)
    (hinfo : (info.elim [] fun i => i.1 :: i.2.toList).all PyStr.scalars = true) :
    host.takes around (.called id (.error content info)) = true ↔
      fits host.py (around + 1) id = true ∧ host.names name = true := by
  rcases hcontent with rfl | rfl
  · simp only [Host.takes, Reply.shown, Reply.named, Reply.isNothing, Reply.renders, Reply.id, Reply.texts,
      Reply.structured, Host.names, Option.all_some, Option.all_none, List.all_cons, hinfo, Bool.false_or, Bool.and_true,
      Bool.and_eq_true]
    tauto
  · simp only [Host.takes, Reply.shown, Reply.named, Reply.isNothing, Reply.renders, Reply.id, Reply.texts,
      Reply.structured, Host.names, Option.all_some, Option.all_none, List.all_cons, hinfo, Bool.false_or, Bool.and_true,
      Bool.and_eq_true]
    tauto

lemma missing_sound {c : Credential} {tool : ToolAnswer} (hcall : isCall m = true) (htool : toolOf c m = none)
    (hname : hashable (scopedName m) = true) : DispatchSound host c around m tool ↔
      fits host.py (around + 1) (get m "id") = true ∧ host.names (scopedName m) = true := by
  rw [sound_call hcall]
  refine and_congr_right fun _ => ⟨fun h => h.missing htool, fun h => ⟨hname, fun s hs => ?_, fun _ => h⟩⟩
  exact absurd (htool.symm.trans hs) (by simp)

/-- The dispatch of a request is answered, and the answer can be written, where the request is sound. -/
theorem dispatch_sound (host : Host) (c : Credential) (around : ℕ) {m : Message} (tool : ToolAnswer)
    (hid : isNull (get m "id") = false) :
    (scopedDispatch c tool m).value.any (host.takes around) = true ↔ DispatchSound host c around m tool := by
  have hcases := scopedDispatch_cases c tool m
  generalize (scopedDispatch c tool m).value = value at hcases ⊢
  cases hcases with
  | unhashable hcall hname =>
    refine iff_of_false (by simp) fun h => ?_
    exact absurd (h.call hcall).named (by simp [hname])
  | ran hcall s htool =>
    rw [takes_reply, sound_call hcall]
    refine and_congr_right fun _ => ⟨fun h => ⟨?_, fun _ _ => h, fun hno => ?_⟩, fun h => h.ran s htool⟩
    · rw [(toolOf_some htool).2.1]
      rfl
    · exact absurd (htool.symm.trans hno) (by simp)
  | barred hcall htool hname reason =>
    rw [Option.any_some, takes_missing _ (.inr rfl) (by simp), missing_sound hcall htool hname]
  | unknown hcall htool hname =>
    rw [Option.any_some, takes_missing _ (.inl rfl) rfl, missing_sound hcall htool hname]
  | foreign hm =>
    have hnote := isNote_foreign hm
    have hcall := isCall_foreign hm
    simp only [Option.any_some, Host.takes, Reply.shown, Reply.named, Reply.isNothing, Reply.renders, Reply.id, Reply.texts,
      Reply.structured, Option.all_some, Option.all_none, List.all_cons, List.all_nil, Bool.false_or, Bool.and_true,
      Bool.and_eq_true]
    constructor
    · rintro ⟨hshown, hfits, htext⟩
      refine ⟨fun _ => hfits, fun h => absurd h (by simp [hcall]), fun _ => ?_⟩
      exact Bool.and_eq_true_iff.mpr ⟨hshown, htext⟩
    · intro h
      have hnames := Bool.and_eq_true_iff.mp (h.method hm)
      exact ⟨hnames.1, h.id hnote, hnames.2⟩
  | silent hcall hm =>
    have hnote : isNote m = true := by
      rcases hm with hm | hm
      · exact hm
      · exact absurd hm.2 (by simp [hid])
    refine iff_of_true (by simp [Host.takes, Reply.shown, Reply.named, Reply.isNothing]) ⟨?_, ?_, ?_⟩
    · exact fun h => absurd h (by simp [hnote])
    · exact fun h => absurd h (by simp [hcall])
    · exact fun h => absurd h (by simp [isForeign_note hnote])
  | plain hcall hnote hm reply hid hnamed htexts hstructured hreply =>
    simp only [Option.any_some, Host.takes, Reply.shown, hnamed, hreply, Reply.renders, hid, htexts, hstructured,
      Option.all_none, List.all_nil, Bool.false_or, Bool.and_true, Bool.true_and]
    constructor
    · exact fun h => ⟨fun _ => h, fun h => absurd h (by simp [hcall]), fun h => absurd h (by simp [hm])⟩
    · exact fun h => h.id hnote

/-! ### A message under the witness -/

/-- The preflight refuses the write. -/
def refusesWrite (host : Host) (m : Message) (answers : Answers) : Bool :=
  host.logged && isCall m && !answers.ready &&
    (orDict (get m "params")).any fun params => isTool writeTools (toolName host.toRuntime params)

/-- What the entry of a call asks for. -/
structure EntrySound (host : Host) (c : Credential) (client : Client) (m : Message) (answers : Answers) : Prop where
  structured : ∀ s, toolOf c m = some s → answers.tool.structured = true
  arguments : Hashable host.py (argumentsOf (dictOr (get m "params")))
  names : answers.log.opens = true →
    ((toolOf c m).isSome && answers.tool.denies && answers.log.crowded) = false →
    Nameable client ∧ PyStr.scalars (toolName host.toRuntime (dictOr (get m "params"))) = true

/-- What a request asks for: of the parameters of a call that is logged, of the dispatch and of the entry, unless its write
is refused. -/
structure Sound (host : Host) (c : Credential) (client : Client) (around : ℕ) (m : Message) (answers : Answers) : Prop where
  params : host.logged = true → isCall m = true → (orDict (get m "params")).isSome
  refused : refusesWrite host m answers = true → fits host.py (around + 1) (get m "id") = true
  dispatch : refusesWrite host m answers = false → DispatchSound host c around m answers.tool
  entry : host.logged = true → isCall m = true → refusesWrite host m answers = false → EntrySound host c client m answers

lemma orDict_dictOr {j : Json} {params : Message} (h : orDict j = some params) : dictOr j = params := by
  unfold orDict at h
  cases j with
  | obj d =>
    cases d with
    | nil => exact Option.some.inj h
    | cons p d => exact Option.some.inj h
  | _ =>
    split_ifs at h
    exact Option.some.inj h

lemma entry_error {rt : Runtime} {tenant : Option String} {params : Message} {code : PyStr} (hcode : PyStr.scalars code = true) :
    (entry rt tenant client answers params ⟨.error, some code, none⟩).isSome ↔ Hashable rt.py (argumentsOf params) ∧
      (answers.log.opens = true → Nameable client ∧ PyStr.scalars (toolName rt params) = true) := by
  rw [entry_isSome (by rintro _ h; exact Option.some.inj h ▸ hcode)]
  simp

lemma entry_sound (host : Host) (c : Credential) (tenant : Option String) (client : Client) (answers : Answers)
    {params : Message} (hcall : isCall m = true)
    (hparams : orDict (get m "params") = some params) (hvalue : (scopedDispatch c answers.tool m).value.isSome) :
    ((((scopedDispatch c answers.tool m).value.elim (some ⟨.error, some (text "INTERNAL"), none⟩) mcpResult).bind
      (entry host.toRuntime tenant client answers params)).isSome ↔ EntrySound host c client m answers) := by
  have hdict := orDict_dictOr hparams
  have hcases := scopedDispatch_cases c answers.tool m
  have hmissing : toolOf c m = none → ∀ code : PyStr, PyStr.scalars code = true →
      ((entry host.toRuntime tenant client answers params ⟨.error, some code, none⟩).isSome ↔
        EntrySound host c client m answers) := by
    intro htool code hcode
    rw [entry_error hcode, ← hdict]
    constructor
    · exact fun h => ⟨fun s hs => absurd (htool.symm.trans hs) (by simp), h.1, fun hopens _ => h.2 hopens⟩
    · exact fun h => ⟨h.arguments, fun hopens => h.names hopens (by simp [htool])⟩
  generalize (scopedDispatch c answers.tool m).value = value at hcases hvalue ⊢
  cases hcases with
  | unhashable => exact absurd hvalue (by simp)
  | ran _ s htool =>
    refine (verdict_entry (get m "id")).trans ?_
    rw [← hdict]
    constructor
    · exact fun h => ⟨fun _ _ => h.1, h.2.1, fun hopens hdenies => h.2.2 hopens (by simpa [htool] using hdenies)⟩
    · exact fun h => ⟨h.structured s htool, h.arguments, fun hopens hdenies => h.names hopens (by simpa [htool] using hdenies)⟩
  | barred _ htool _ reason => exact hmissing htool _ (codeSafe_scalars _)
  | unknown _ htool => exact hmissing htool _ (codeSafe_scalars _)
  | foreign hm => exact absurd hcall (by simp [isCall_foreign hm])
  | silent h => exact absurd hcall (by simp [h])
  | plain h => exact absurd hcall (by simp [h])

lemma answered_any (host : Host) (post : Post) (client : Client) (around : ℕ) (m : Message) (answers : Answers) :
    (answered host post client m answers).any (fun reply => reply.isNothing || reply.renders host.toRuntime around) =
      (if host.logged then witnessedDispatch host.toRuntime post.tenant client answers
        (scopedDispatch post.credential answers.tool) m else scopedDispatch post.credential answers.tool m).value.any
        (host.takes around) := by
  unfold answered
  simp only
  generalize (if host.logged then witnessedDispatch host.toRuntime post.tenant client answers
    (scopedDispatch post.credential answers.tool) m else scopedDispatch post.credential answers.tool m).value = value
  cases value with
  | none => rfl
  | some reply =>
    cases hshown : reply.shown host <;> simp [Option.filter, Host.takes, hshown]

lemma bind_any {A B : Type} (x : Option A) (y : Option B) (q : B → Bool) :
    (x.bind fun _ => y).any q = (x.isSome && y.any q) := by
  cases x <;> simp

/-- A request is answered, and the answer can be written, where the request is sound. -/
theorem answered_sound (host : Host) (post : Post) (client : Client) (around : ℕ) {m : Message} (answers : Answers)
    (hid : isNull (get m "id") = false) :
    (answered host post client m answers).any (fun reply => reply.isNothing || reply.renders host.toRuntime around) = true ↔
      Sound host post.credential client around m answers := by
  rw [answered_any]
  have hdispatch := dispatch_sound host post.credential around answers.tool hid
  by_cases hlogged : host.logged = true
  swap
  · rw [if_neg hlogged, hdispatch]
    have hrefuses : refusesWrite host m answers = false := by simp [refusesWrite, hlogged]
    constructor
    · exact fun h => ⟨fun h' => absurd h' hlogged, fun h' => absurd h' (by simp [hrefuses]), fun _ => h,
        fun h' => absurd h' hlogged⟩
    · exact fun h => h.dispatch hrefuses
  rw [if_pos hlogged]
  unfold witnessedDispatch
  cases hcall : isCall m with
  | false =>
    rw [show isText (get m "method") "tools/call" = false from hcall, if_pos (by rfl), hdispatch]
    have hrefuses : refusesWrite host m answers = false := by simp [refusesWrite, hcall]
    constructor
    · exact fun h => ⟨fun _ h' => absurd h' (by simp [hcall]), fun h' => absurd h' (by simp [hrefuses]), fun _ => h,
        fun _ h' => absurd h' (by simp [hcall])⟩
    · exact fun h => h.dispatch hrefuses
  | true =>
    rw [show isText (get m "method") "tools/call" = true from hcall, if_neg (by simp)]
    cases hparams : orDict (get m "params") with
    | none => exact iff_of_false (by simp) fun h => absurd (h.params hlogged hcall) (by simp [hparams])
    | some params =>
      have hrefuses : refusesWrite host m answers = (isTool writeTools (toolName host.toRuntime params) && !answers.ready) := by
        simp [refusesWrite, hlogged, hcall, hparams, Bool.and_comm]
      have hsome : host.logged = true → isCall m = true → (orDict (get m "params")).isSome := fun _ _ => by rw [hparams]; rfl
      simp only
      rw [← hrefuses]
      cases hr : refusesWrite host m answers with
      | true =>
        simp only [if_true, Option.any_some, Host.takes, Reply.shown, Reply.named, Reply.isNothing, Reply.renders, Reply.id,
          Reply.texts, Reply.structured, Option.all_none, List.all_nil, Bool.false_or, Bool.and_true, Bool.true_and]
        constructor
        · exact fun h => ⟨hsome, fun _ => h, fun h' => absurd h' (by simp [hr]), fun _ _ h' => absurd h' (by simp [hr])⟩
        · exact fun h => h.refused hr
      | false =>
        have hentry := entry_sound host post.credential post.tenant client answers hcall hparams
        simp only [Bool.false_eq_true, if_false]
        generalize (scopedDispatch post.credential answers.tool m).value = value at hdispatch hentry ⊢
        cases value with
        | none =>
          refine iff_of_false (by rw [bind_any]; simp) fun h => ?_
          exact absurd (hdispatch.mpr (h.dispatch hr)) (by simp)
        | some reply =>
          rw [bind_any, Bool.and_eq_true, hentry rfl, hdispatch]
          constructor
          · exact fun h => ⟨hsome, fun h' => absurd h' (by simp [hr]), fun _ => h.2, fun _ _ _ => h.1⟩
          · exact fun h => ⟨h.entry hlogged hcall hr, h.dispatch hr⟩

/-- A reply is silent for a notification's name only, and carries the id of its message otherwise. -/
lemma answered_reply {reply : Reply} (hid : isNull (get m "id") = false) (h : answered host post client m answers = some reply) :
    reply.isNothing = isNote m ∧ (isNote m = false → reply.id = get m "id") := by
  have hvalue : (scopedDispatch post.credential answers.tool m).value = some reply ∨
      isCall m = true ∧ reply = .refusedWrite (get m "id") := by
    unfold answered at h
    have h := (Option.filter_eq_some_iff.mp h).1
    unfold witnessedDispatch at h
    cases hcall : isCall m with
    | false =>
      rw [show isText (get m "method") "tools/call" = false from hcall] at h
      exact .inl (by simpa using h)
    | true =>
      simp only [show isText (get m "method") "tools/call" = true from hcall, Bool.not_true, Bool.false_eq_true,
        if_false] at h
      split_ifs at h
      · split at h
        · cases h
        · split_ifs at h
          · exact .inr ⟨rfl, (Option.some.inj h).symm⟩
          all_goals exact .inl (Option.bind_eq_some_iff.mp h).choose_spec.2
      · exact .inl h
  rcases hvalue with hvalue | ⟨hcall, rfl⟩
  · have hcases := scopedDispatch_cases post.credential answers.tool m
    rw [hvalue] at hcases
    generalize hv : some reply = value at hcases
    cases hcases with
    | unhashable => cases hv
    | ran hcall =>
      obtain ⟨r, -, rfl⟩ := Option.map_eq_some_iff.mp hv.symm
      exact ⟨(isNote_call hcall).symm, fun _ => rfl⟩
    | barred hcall =>
      obtain rfl := Option.some.inj hv
      exact ⟨(isNote_call hcall).symm, fun _ => rfl⟩
    | unknown hcall =>
      obtain rfl := Option.some.inj hv
      exact ⟨(isNote_call hcall).symm, fun _ => rfl⟩
    | foreign hm =>
      obtain rfl := Option.some.inj hv
      exact ⟨(isNote_foreign hm).symm, fun _ => rfl⟩
    | silent _ hm =>
      obtain rfl := Option.some.inj hv
      have hnote : isNote m = true := hm.resolve_right fun h => absurd h.2 (by simp [hid])
      exact ⟨hnote.symm, fun h => absurd h (by simp [hnote])⟩
    | plain _ hnote _ r hrid _ _ _ hreply =>
      obtain rfl := Option.some.inj hv
      exact ⟨hreply.trans hnote.symm, fun _ => hrid⟩
  · exact ⟨(isNote_call hcall).symm, fun _ => rfl⟩

/-! ### Notifications -/

/-- What a call asks for that is no request, and is run all the same. -/
structure NoteSound (host : Host) (c : Credential) (m : Message) (tool : ToolAnswer) : Prop where
  named : hashable (scopedName m) = true
  ran : ∀ s, toolOf c m = some s → tool.reply.isSome
  missing : toolOf c m = none → host.shown (scopedName m) = true

lemma method_null (hreq : isJsonrpcRequest m = false) (hid : isNull (get m "id") = false) : get m "method" = .null := by
  have hsome : (Codec.member m "id").isSome = true := by
    cases hmember : Codec.member m "id" with
    | some j => rfl
    | none => exact absurd hid (by simp [get, hmember, isNull])
  have hmethod : (Codec.member m "method").isSome = false := by simpa [isJsonrpcRequest, hsome, hid] using hreq
  simp [get, Option.not_isSome_iff_eq_none.mp (Bool.eq_false_iff.mp hmethod)]

lemma shown_missing {content : ErrorText} {name : Json} (id : Json) (info : Option (PyStr × Option PyStr))
    (hcontent : content = .unknownTool name ∨ content = .notPermitted name) :
    (Option.filter (Reply.shown host) (some (.called id (.error content info)))).isSome = host.shown name := by
  cases h : host.shown name <;> rcases hcontent with rfl | rfl <;> simp [Option.filter, Reply.shown, Reply.named, h]

lemma noted_sound (host : Host) (c : Credential) (p : Message × Answers) (hreq : isJsonrpcRequest p.1 = false) :
    noted host c p = true ↔ (isCall p.1 = true → NoteSound host c p.1 p.2.tool) := by
  have hcases := scopedDispatch_cases c p.2.tool p.1
  unfold noted
  generalize (scopedDispatch c p.2.tool p.1).value = value at hcases ⊢
  cases hcases with
  | unhashable hcall hname =>
    refine iff_of_false (by simp) fun h => ?_
    exact absurd (h hcall).named (by simp [hname])
  | ran hcall s htool =>
    have hshown : ∀ r : ToolReply, p.2.tool.reply = some r → (Reply.called (get p.1 "id") r).shown host = true := by
      intro r hr
      cases htool : p.2.tool with
      | unwritable => simp [htool, ToolAnswer.reply] at hr
      | _ =>
        rw [htool] at hr
        obtain rfl := Option.some.inj hr
        rfl
    have hfilter : ((p.2.tool.reply.map (.called (get p.1 "id"))).filter (Reply.shown host)).isSome =
        p.2.tool.reply.isSome := by
      cases hr : p.2.tool.reply with
      | none => rfl
      | some r => simp [Option.filter, hshown r hr]
    rw [hfilter]
    refine ⟨fun h _ => ⟨?_, fun _ _ => h, fun hno => ?_⟩, fun h => (h hcall).ran s htool⟩
    · rw [(toolOf_some htool).2.1]
      rfl
    · exact absurd (htool.symm.trans hno) (by simp)
  | barred hcall htool hname reason =>
    rw [shown_missing _ _ (.inr rfl)]
    exact ⟨fun h _ => ⟨hname, fun s hs => absurd (htool.symm.trans hs) (by simp), fun _ => h⟩, fun h => (h hcall).missing htool⟩
  | unknown hcall htool hname =>
    rw [shown_missing _ _ (.inl rfl)]
    exact ⟨fun h _ => ⟨hname, fun s hs => absurd (htool.symm.trans hs) (by simp), fun _ => h⟩, fun h => (h hcall).missing htool⟩
  | foreign hm hid =>
    refine iff_of_true ?_ fun h => absurd h (by simp [isCall_foreign hm])
    have hmethod := method_null hreq hid
    simp [Option.filter, Reply.shown, Reply.named, hmethod, Host.shown, Json.printable]
  | silent hcall hm =>
    refine iff_of_true ?_ fun h => absurd h (by simp [hcall])
    simp [Option.filter, Reply.shown, Reply.named]
  | plain hcall hnote hm reply _ hnamed =>
    refine iff_of_true ?_ fun h => absurd h (by simp [hcall])
    simp [Option.filter, Reply.shown, hnamed]

/-! ### A body -/

/-- A request has the sessions, and the session that the body opened, that the requests before it left. -/
def advance (host : Host) (post : Post) (s : Sessions × Option PyStr) (p : Message × Answers) : Sessions × Option PyStr :=
  ((remembered host post s.1 (openedBy post s.2 p.1 p.2) p.1).getD s.1, openedBy post s.2 p.1 p.2)

/-- An `initialize` of a session has parameters that are a dict or false, and a client whose name and version have a text. -/
def Remembers (host : Host) (post : Post) (opened : Option PyStr) (m : Message) : Prop :=
  isText (get m "method") "initialize" = true → orElse (orElse opened post.session) none ≠ none →
    (orDict (get m "params")).isSome ∧ (clientTexts (get m "params")).all host.shown = true

structure RequestSound (host : Host) (post : Post) (around : ℕ) (s : Sessions × Option PyStr) (p : Message × Answers) :
    Prop where
  remembers : Remembers host post (openedBy post s.2 p.1 p.2) p.1
  sound : Sound host post.credential
    (clientOf (advance host post s p).1 (orElse post.session (advance host post s p).2) post.userAgent) around p.1 p.2

lemma remembered_isSome (host : Host) (post : Post) (sessions : Sessions) (opened : Option PyStr) (m : Message) :
    (remembered host post sessions opened m).isSome ↔ Remembers host post opened m := by
  unfold remembered Remembers Host.remember rememberClient
  by_cases hinit : isText (get m "method") "initialize" = true
  swap
  · simp [hinit]
  rw [if_pos hinit]
  cases hsession : orElse (orElse opened post.session) none with
  | none => simp
  | some id => cases hshown : (clientTexts (get m "params")).all host.shown <;> simp [hinit]

lemma forall_splits {S A : Type} (step : S → A → S) (Q : S → A → Prop) (s : S) (x : A) (l : List A) :
    (∀ before p after, x :: l = before ++ p :: after → Q (before.foldl step s) p) ↔
      Q s x ∧ ∀ before p after, l = before ++ p :: after → Q (before.foldl step (step s x)) p := by
  constructor
  · intro h
    refine ⟨h [] x l rfl, fun before p after heq => ?_⟩
    exact h (x :: before) p after (by rw [heq, List.cons_append])
  · rintro ⟨hx, hl⟩ before p after heq
    cases before with
    | nil =>
      obtain ⟨rfl, -⟩ := List.cons.inj heq
      exact hx
    | cons y before =>
      rw [List.cons_append] at heq
      obtain ⟨rfl, hrest⟩ := List.cons.inj heq
      exact hl before p after hrest

def Reply.good (rt : Runtime) (around : ℕ) (reply : Reply) : Bool := reply.isNothing || reply.renders rt around

theorem respond_sound (host : Host) (post : Post) (around : ℕ) (l : List (Message × Answers))
    (hl : ∀ p ∈ l, isNull (get p.1 "id") = false) (s : Sessions × Option PyStr) :
    (respond host post s.1 s.2 l).any (List.all · (Reply.good host.toRuntime around)) = true ↔
      ∀ before p after, l = before ++ p :: after →
        RequestSound host post around (before.foldl (advance host post) s) p := by
  induction l generalizing s with
  | nil => simp [respond]
  | cons p l ih =>
    obtain ⟨m, answers⟩ := p
    have ih := ih (fun q hq => hl q (List.mem_cons_of_mem _ hq)) (advance host post s (m, answers))
    have hremembered := remembered_isSome host post s.1 (openedBy post s.2 m answers) m
    have hanswered := answered_sound host post
      (clientOf (advance host post s (m, answers)).1 (orElse post.session (advance host post s (m, answers)).2) post.userAgent)
      around answers (hl (m, answers) List.mem_cons_self)
    rw [forall_splits, ← ih, respond]
    simp only [Option.bind_eq_bind, Option.pure_def]
    cases hr : remembered host post s.1 (openedBy post s.2 m answers) m with
    | none =>
      refine iff_of_false (by simp) fun h => ?_
      exact absurd (hremembered.mpr h.1.remembers) (by simp [hr])
    | some sessions =>
      have hstate : advance host post s (m, answers) = (sessions, openedBy post s.2 m answers) := by
        simp only [advance, hr, Option.getD_some]
      have hremembers := hremembered.mp (by rw [hr]; rfl)
      have hone : RequestSound host post around s (m, answers) ↔
          (answered host post (clientOf sessions (orElse post.session (openedBy post s.2 m answers)) post.userAgent) m
            answers).any (Reply.good host.toRuntime around) = true := by
        rw [hstate] at hanswered
        refine Iff.trans ⟨fun h => ?_, fun h => ⟨hremembers, ?_⟩⟩ hanswered.symm
        · simpa only [hstate] using h.sound
        · simpa only [hstate] using h
      rw [hone, hstate, Option.bind_some]
      cases answered host post (clientOf sessions (orElse post.session (openedBy post s.2 m answers)) post.userAgent) m
        answers with
      | none => simp
      | some reply =>
        cases respond host post sessions (openedBy post s.2 m answers) l with
        | none => simp
        | some replies => simp

/-- The replies that are responses carry the ids of the messages that ask for one. -/
lemma respond_ids {l : List (Message × Answers)} (hl : ∀ p ∈ l, isNull (get p.1 "id") = false) {sessions : Sessions}
    {opened : Option PyStr} {replies : List Reply} (h : respond host post sessions opened l = some replies) :
    (replies.filter fun reply => !reply.isNothing).map Reply.id =
      (l.filter fun p => !isNote p.1).map fun p => get p.1 "id" := by
  induction l generalizing sessions opened replies with
  | nil =>
    obtain rfl := Option.some.inj h
    rfl
  | cons p l ih =>
    obtain ⟨m, answers⟩ := p
    unfold respond at h
    simp only [Option.bind_eq_bind, Option.pure_def] at h
    obtain ⟨sessions', -, h⟩ := Option.bind_eq_some_iff.mp h
    obtain ⟨reply, hreply, h⟩ := Option.bind_eq_some_iff.mp h
    obtain ⟨rest, hrest, h⟩ := Option.bind_eq_some_iff.mp h
    obtain rfl := Option.some.inj h
    have ih := ih (fun q hq => hl q (List.mem_cons_of_mem _ hq)) hrest
    obtain ⟨hnothing, hid⟩ := answered_reply (hl (m, answers) List.mem_cons_self) hreply
    rw [List.filter_cons, List.filter_cons, hnothing]
    cases hnote : isNote m with
    | true => simpa using ih
    | false => simpa [hid hnote] using ih

/-! ### A POST -/

/-- A message that a response is due to. -/
def expects (m : Message) : Bool := isJsonrpcRequest m && !isNote m

/-- What JSON-RPC asks of the answer: 400 for what is no JSON object or array, 202 where no message is a request, and else
one response for each message that is due one, with its id, in the order of the messages. -/
def Promised (py : Python) (body : Bytes) (answer : Answer) : Prop :=
  match parseBody py body with
  | none => answer = .refused
  | some messages =>
    if messages.any isJsonrpcRequest then
      ∃ responses, answer = .json responses ∧
        responses.map Reply.id = (messages.filter expects).map fun m => get m "id"
    else answer = .accepted

/-- The body is empty, or UTF-8 with no number too long and no nesting too deep. -/
def Readable (py : Python) (body : Bytes) : Prop :=
  body ≠ [] → ∃ cs, decode body = some cs ∧ Json.loads py (PyStr.ofChars cs) ≠ .error .digits ∧
    Json.loads py (PyStr.ofChars cs) ≠ .error .recursion

/-- The containers around a response: none where it is the only one. -/
def aroundOf (messages : List Message) : ℕ := if (messages.filter expects).length = 1 then 0 else 1

/-- The body can be read, its calls that are no requests are sound, and so is each request where the requests before it
leave it. -/
structure Accountable (host : Host) (sessions : Sessions) (post : Post) (answers : ℕ → Answers) : Prop where
  readable : Readable host.py post.body
  notes : ∀ messages, parseBody host.py post.body = some messages → ∀ m i, messages[i]? = some m →
    isJsonrpcRequest m = false → isCall m = true → NoteSound host post.credential m (answers i).tool
  requests : ∀ messages, parseBody host.py post.body = some messages → ∀ before p after,
    (withAnswers messages answers).filter (fun p => isJsonrpcRequest p.1) = before ++ p :: after →
    RequestSound host post (aroundOf messages) (before.foldl (advance host post) (sessions, none)) p

lemma readBody_messages {py : Python} {raw : Bytes} {messages : List Message} (h : parseBody py raw = some messages) :
    readBody py raw = .messages messages := by
  unfold parseBody at h
  unfold readBody
  split_ifs at h ⊢
  obtain ⟨cs, hcs, h⟩ := Option.bind_eq_some_iff.mp h
  rw [hcs]
  simp only
  split at h
  · rename_i d hd
    rw [hd, ← Option.some.inj h]
  · rename_i items hitems
    rw [hitems, ← Option.some.inj h]
  · cases h

/-- What is no JSON object or array is refused, where it can be read. -/
lemma readBody_refused {py : Python} {raw : Bytes} (h : parseBody py raw = none) :
    readBody py raw = .refused ∧ Readable py raw ∨ readBody py raw = .raised ∧ ¬ Readable py raw := by
  unfold parseBody at h
  unfold readBody Readable
  by_cases hraw : raw = []
  · exact .inl ⟨if_pos hraw, fun hne => absurd hraw hne⟩
  rw [if_neg hraw] at h ⊢
  cases hdecode : decode raw with
  | none => exact .inr ⟨rfl, fun hread => by simpa [hdecode] using hread hraw⟩
  | some cs =>
    rw [hdecode, Option.bind_some] at h
    simp only
    cases hloads : Json.loads py (PyStr.ofChars cs) with
    | ok j =>
      refine .inl ⟨?_, fun _ => ⟨cs, rfl, by simp [hloads], by simp [hloads]⟩⟩
      rw [hloads] at h
      cases j <;> first | rfl | cases h
    | error e =>
      cases e with
      | value => exact .inl ⟨rfl, fun _ => ⟨cs, rfl, by simp [hloads], by simp [hloads]⟩⟩
      | digits => exact .inr ⟨rfl, fun hread => by simpa [hloads] using hread hraw⟩
      | recursion => exact .inr ⟨rfl, fun hread => by simpa [hloads] using hread hraw⟩
      | steps => exact absurd hloads (Json.loads_steps py _)

lemma readable_messages {py : Python} {raw : Bytes} {messages : List Message} (h : parseBody py raw = some messages) :
    Readable py raw := by
  intro hraw
  unfold parseBody at h
  rw [if_neg hraw] at h
  obtain ⟨cs, hcs, h⟩ := Option.bind_eq_some_iff.mp h
  refine ⟨cs, hcs, fun hd => ?_, fun hd => ?_⟩ <;>
  · rw [hd] at h
    cases h

lemma request_id {m : Message} (h : isJsonrpcRequest m = true) : isNull (get m "id") = false := by
  simp only [isJsonrpcRequest, Bool.and_eq_true, Bool.not_eq_true'] at h
  exact h.1.2

section

variable (messages : List Message) (answers : ℕ → Answers)

lemma fst_withAnswers : (withAnswers messages answers).map Prod.fst = messages := by
  rw [withAnswers, List.map_map]
  exact List.zipIdx_map_fst 0 messages

lemma fst_filter (q : Message → Bool) :
    ((withAnswers messages answers).filter fun p => q p.1).map Prod.fst = messages.filter q := by
  conv_rhs => rw [← fst_withAnswers messages answers, List.filter_map]
  rfl

lemma mem_withAnswers {p : Message × Answers} :
    p ∈ withAnswers messages answers ↔ ∃ i, messages[i]? = some p.1 ∧ answers i = p.2 := by
  simp only [withAnswers, List.mem_map, Prod.exists, List.mem_zipIdx_iff_getElem?]
  constructor
  · rintro ⟨m, i, hm, rfl⟩
    exact ⟨i, hm, rfl⟩
  · rintro ⟨i, hm, ha⟩
    exact ⟨p.1, i, hm, by rw [ha]⟩

lemma notes_sound (host : Host) (c : Credential) :
    ((withAnswers messages answers).filter fun p => !isJsonrpcRequest p.1).all (noted host c) = true ↔
      ∀ m i, messages[i]? = some m → isJsonrpcRequest m = false → isCall m = true → NoteSound host c m (answers i).tool := by
  rw [List.all_eq_true]
  constructor
  · intro h m i hm hreq
    refine (noted_sound host c (m, answers i) hreq).mp (h _ (List.mem_filter.mpr ⟨?_, by simp [hreq]⟩))
    exact (mem_withAnswers messages answers).mpr ⟨i, hm, rfl⟩
  · intro h p hp
    obtain ⟨hp, hreq⟩ := List.mem_filter.mp hp
    have hreq : isJsonrpcRequest p.1 = false := by simpa using hreq
    obtain ⟨i, hm, ha⟩ := (mem_withAnswers messages answers).mp hp
    exact (noted_sound host c p hreq).mpr fun hcall => ha ▸ h p.1 i hm hreq hcall

lemma expected_ids : (((withAnswers messages answers).filter fun p => isJsonrpcRequest p.1).filter fun p => !isNote p.1).map
    (fun p => get p.1 "id") = (messages.filter expects).map fun m => get m "id" := by
  have hfilter : ((withAnswers messages answers).filter fun p => isJsonrpcRequest p.1).filter (fun p => !isNote p.1) =
      (withAnswers messages answers).filter fun p => expects p.1 := by
    rw [List.filter_filter]
    exact List.filter_congr fun p _ => Bool.and_comm _ _
  rw [hfilter, ← fst_filter messages answers expects, List.map_map]
  rfl

end

lemma answerOf_json {rt : Runtime} {replies responses : List Reply} : answerOf rt replies = .json responses ↔
    replies.filter (fun reply => !reply.isNothing) = responses ∧
      replies.all (Reply.good rt (if responses.length = 1 then 0 else 1)) = true := by
  have hall : ∀ around, (replies.filter fun reply => !reply.isNothing).all (Reply.renders rt around) =
      replies.all (Reply.good rt around) := by
    intro around
    rw [List.all_filter]
    congr 1
    funext reply
    cases h : reply.isNothing <;> simp [Reply.good, h]
  unfold answerOf
  simp only [hall]
  constructor
  · intro h
    generalize hd : (if (replies.filter fun reply => !reply.isNothing).length = 1 then 0 else 1) = around at h
    split_ifs at h with hgood
    obtain rfl := Answer.json.inj h
    exact ⟨rfl, by rw [hd]; exact hgood⟩
  · rintro ⟨rfl, hgood⟩
    rw [if_pos hgood]

/-- The requests are answered where none raises and each reply can be written, beside as many others as are due. -/
lemma answer_iff {l : List (Message × Answers)} (hl : ∀ p ∈ l, isNull (get p.1 "id") = false) {sessions : Sessions}
    {opened : Option PyStr} : (∃ responses, (respond host post sessions opened l).elim .raised (answerOf host.toRuntime) =
        .json responses ∧ responses.map Reply.id = (l.filter fun p => !isNote p.1).map fun p => get p.1 "id") ↔
      (respond host post sessions opened l).any
        (List.all · (Reply.good host.toRuntime (if (l.filter fun p => !isNote p.1).length = 1 then 0 else 1))) = true := by
  cases hreplies : respond host post sessions opened l with
  | none => simp
  | some replies =>
    have hids := respond_ids hl hreplies
    have hlength := congrArg List.length hids
    rw [List.length_map, List.length_map] at hlength
    simp only [Option.elim_some, Option.any_some, answerOf_json]
    constructor
    · rintro ⟨responses, ⟨rfl, hgood⟩, -⟩
      rwa [← hlength]
    · intro hgood
      exact ⟨_, ⟨rfl, by rwa [hlength]⟩, hids⟩

/-- A POST is answered as it should be where its body, and each of its messages, is sound. -/
theorem answered_iff (host : Host) (sessions : Sessions) (post : Post) (answers : ℕ → Answers) :
    Promised host.py post.body (mcpAnswer host sessions post answers) ↔ Accountable host sessions post answers := by
  unfold Promised mcpAnswer
  cases hparse : parseBody host.py post.body with
  | none =>
    rcases readBody_refused hparse with ⟨hbody, hread⟩ | ⟨hbody, hread⟩
    · rw [hbody]
      exact iff_of_true rfl ⟨hread, fun _ h => by simp [hparse] at h, fun _ h => by simp [hparse] at h⟩
    · rw [hbody]
      exact iff_of_false (by simp) fun h => hread h.readable
  | some messages =>
    rw [readBody_messages hparse]
    have hnotes := notes_sound messages answers host post.credential
    have hids := expected_ids messages answers
    have hrequests : ∀ p ∈ (withAnswers messages answers).filter fun p => isJsonrpcRequest p.1,
        isNull (get p.1 "id") = false := fun p hp => request_id (List.mem_filter.mp hp).2
    have hany : (withAnswers messages answers).filter (fun p => isJsonrpcRequest p.1) = [] ↔
        messages.any isJsonrpcRequest = false := by
      rw [← List.map_eq_nil_iff (f := Prod.fst), fst_filter, List.filter_eq_nil_iff, List.any_eq_false]
    cases hn : ((withAnswers messages answers).filter fun p => !isJsonrpcRequest p.1).all (noted host post.credential) with
    | false =>
      refine iff_of_false ?_ fun h => ?_
      · simp only [hn, Bool.not_false, if_true]
        split_ifs <;> simp
      · exact absurd (hnotes.mpr (h.notes messages hparse)) (by simp [hn])
    | true =>
      simp only [hn, Bool.not_true, Bool.false_eq_true, if_false]
      cases hreq : messages.any isJsonrpcRequest with
      | false =>
        rw [if_pos (hany.mpr hreq)]
        refine iff_of_true rfl ⟨readable_messages hparse, fun ms h => ?_, fun ms h before p after heq => ?_⟩
        · obtain rfl := Option.some.inj (hparse.symm.trans h)
          exact hnotes.mp hn
        · obtain rfl := Option.some.inj (hparse.symm.trans h)
          rw [hany.mpr hreq] at heq
          simp at heq
      | true =>
        have hsome : (withAnswers messages answers).filter (fun p => isJsonrpcRequest p.1) ≠ [] := fun h =>
          absurd (hany.mp h) (by simp [hreq])
        have hlength := congrArg List.length hids
        rw [List.length_map, List.length_map] at hlength
        simp only [if_true, if_neg hsome]
        rw [← hids, answer_iff hrequests, hlength]
        constructor
        · intro h
          refine ⟨readable_messages hparse, fun ms hms => ?_, fun ms hms => ?_⟩
          · obtain rfl := Option.some.inj (hparse.symm.trans hms)
            exact hnotes.mp hn
          · obtain rfl := Option.some.inj (hparse.symm.trans hms)
            exact (respond_sound host post (aroundOf messages) _ hrequests (sessions, none)).mp h
        · exact fun h => (respond_sound host post (aroundOf messages) _ hrequests (sessions, none)).mpr
            (h.requests messages hparse)

/-! ### A batch that loses a result -/

lemma not_promised (py : Python) (body : Bytes) : ¬ Promised py body .raised := by
  unfold Promised
  split
  · simp
  · split_ifs <;> simp

def plainHost : Host := { plainRuntime with shows := fun _ => true, logged := true }

/-- `[{"id":1,"method":"tools/call","params":{"name":"emr_remember"}},{"id":2,"method":"tools/call","params":{"name":[]}}]`. -/
def twoCalls : Post where
  credential := .operator
  body := utf8 ("[\x7b\"id\":1,\"method\":\"tools/call\",\"params\":\x7b\"name\":\"emr_remember\"\x7d\x7d," ++
    "\x7b\"id\":2,\"method\":\"tools/call\",\"params\":\x7b\"name\":[]\x7d\x7d]")
  session := none
  userAgent := none
  tenant := none

def Answer.isRaised : Answer → Bool
  | .raised => true
  | _ => false

lemma twoCalls_raises : (mcpAnswer plainHost [] twoCalls remembering).isRaised = true := by
  decide +kernel

/-- The write of the first message ran, and the second leaves it without a response. -/
theorem discarded_result : (mcpPost plainHost.toRuntime [] twoCalls remembering).any
      (fun p => p.run.events.any (Event.runs "emr_remember")) = true ∧
    ¬ Promised plainHost.py twoCalls.body (mcpAnswer plainHost [] twoCalls remembering) := by
  refine ⟨by decide +kernel, ?_⟩
  have hraised := twoCalls_raises
  cases h : mcpAnswer plainHost [] twoCalls remembering with
  | raised => exact not_promised _ _
  | _ => exact absurd (h ▸ hraised) (by simp [Answer.isRaised])

end ContinuityLedger.Mcp
