import ContinuityLedger.CallLog.Held

/-! What a witnessed request is to its application, and to the entry that hashes it. -/

namespace ContinuityLedger.CallLog.Middleware

open Foundations Foundations.Sha256

def readsOf (es : List Event) : List Incoming :=
  es.filterMap fun e => match e with
    | .read m => some m
    | _ => none

/-- What the application has yet to be given of what is taken in. -/
def Intake.unread : Intake → List Incoming
  | .through | .whole _ true => []
  | .whole body false => [.request body false]
  | .streamed _ pending => pending

/-- The arguments are those of `msgs`: of its messages up to the end of the body, or of them all while it streams. -/
def Intake.Covers (limit : ℕ) (msgs : List Incoming) : Intake → Prop
  | .through => True
  | .whole body _ => body.length ≤ limit ∧ ∃ first later, msgs = first ++ later ∧ bodies first = body
  | .streamed stream pending => stream.fed = bodies msgs ∧ (bodies pending.dropLast).length ≤ limit

/-- `msgs` is taken from the client: given to the application byte by byte as it came, or about to be. -/
structure Kept (limit : ℕ) (client : List Incoming) (s : Served) (msgs : List Incoming) : Prop where
  taken : client = msgs ++ s.client
  given : bodies (readsOf s.events ++ s.intake.unread) = bodies msgs
  covers : s.intake.Covers limit msgs
  order : ∀ stream pending, s.intake = .streamed stream pending → readsOf s.events ++ pending = msgs

@[simp] lemma bodies_nil : bodies [] = [] := rfl

@[simp] lemma bodies_append (ms ms' : List Incoming) : bodies (ms ++ ms') = bodies ms ++ bodies ms' := by simp [bodies]

@[simp] lemma bodies_singleton (m : Incoming) : bodies [m] = m.bytes := by simp [bodies]

@[simp] lemma bodies_cons (m : Incoming) (ms : List Incoming) : bodies (m :: ms) = m.bytes ++ bodies ms := by simp [bodies]

@[simp] lemma readsOf_append (es es' : List Event) : readsOf (es ++ es') = readsOf es ++ readsOf es' := by simp [readsOf]

@[simp] lemma readsOf_read (m : Incoming) : readsOf [.read m] = [m] := rfl

lemma buffer_ready {limit : ℕ} : ∀ {client messages : List Incoming} {i : Intake} {rest : List Incoming},
    buffer limit messages client = .ready i rest → (bodies messages).length ≤ limit → ∃ msgs, client = msgs ++ rest ∧
      i.Covers limit (messages ++ msgs) ∧ bodies i.unread = bodies (messages ++ msgs) ∧
      ∀ stream pending, i = .streamed stream pending → pending = messages ++ msgs := by
  intro client
  induction client with
  | nil => intro _ _ _ h; cases h
  | cons m client ih =>
    intro messages i rest h hlimit
    cases m with
    | other type => cases h
    | request body more =>
      simp only [buffer] at h
      split_ifs at h with hmore hover hwhole
      · cases h
        exact ⟨[.request body more], rfl, ⟨rfl, by simpa using hlimit⟩, rfl, fun _ _ h => by cases h; rfl⟩
      · obtain ⟨msgs, rfl, hcovers, hunread, horder⟩ := ih h (Nat.le_of_not_lt hover)
        refine ⟨.request body more :: msgs, rfl, ?_⟩
        rw [List.append_cons]
        exact ⟨hcovers, hunread, horder⟩
      · cases h
        exact ⟨[.request body more], rfl, ⟨hwhole, _, [], by simp, rfl⟩, by simp [Intake.unread, Incoming.bytes],
          fun _ _ h => by cases h⟩
      · cases h
        exact ⟨[.request body more], rfl, ⟨rfl, by simpa using hlimit⟩, rfl, fun _ _ h => by cases h; rfl⟩

lemma kept_start {host : Host} {req : Request} {client : List Incoming} {s : Served} (h : opened host req client = some s) :
    ∃ msgs, Kept host.maxBodyBytes client s msgs := by
  unfold opened intake at h
  split at h
  · cases h
  · cases h
  · rename_i i rest hready
    split at h <;> cases h
    split_ifs at hready with hread
    · cases hready
      exact ⟨[], ⟨rfl, rfl, trivial, fun _ _ h => by cases h⟩⟩
    · obtain ⟨msgs, htaken, hcovers, hunread, horder⟩ := buffer_ready hready (Nat.zero_le _)
      exact ⟨msgs, ⟨htaken, hunread, hcovers, fun stream pending hi => horder stream pending hi⟩⟩

/-! ### One step -/

section

variable {rt : Mcp.Runtime} {req : Request}

@[simp] lemma readsOf_sent (ms : List Outgoing) : readsOf (ms.map .sent) = [] := by simp [readsOf]

@[simp] lemma readsOf_recorded (c : Call) (a : Answer) (es : List Event) : readsOf (.recorded c a :: es) = readsOf es := rfl

@[simp] lemma readsOf_threw (b : Bool) : readsOf (if b then [.threw] else []) = [] := by cases b <;> rfl

/-- Nothing but messages that go out, behind at most one entry over what is taken in. -/
def Emits (rt : Mcp.Runtime) (req : Request) (i : Intake) (es : List Event) : Prop :=
  ∃ ms : List Outgoing, es = ms.map .sent ∨ ∃ call a o outcome error status digest,
    makeFields rt req i o outcome error status digest = some call ∧ es = .recorded call a :: ms.map .sent

lemma emits_nil (i : Intake) : Emits rt req i [] := ⟨[], Or.inl rfl⟩

lemma emits_deliver (i : Intake) (fails : Option ℕ) (ms : List Outgoing) : Emits rt req i (deliver fails ms).1 := by
  obtain ⟨n, h, -⟩ := deliver_eq fails ms
  exact ⟨ms.take n, Or.inl h⟩

lemma emits_releaseHeld (i : Intake) (c : Capture) (o : Outside) (error : Option PyStr) (digest : Json) :
    Emits rt req i (releaseHeld rt req i c o error digest).events := by
  rcases releaseHeld_cases rt req i c o error digest with ⟨-, ht⟩ | ⟨call, a, n, hcall, hev, -⟩
  · rw [ht]
    exact emits_nil i
  · exact ⟨_, Or.inr ⟨call, a, o, _, _, _, _, hcall, hev⟩⟩

lemma emits_finish (i : Intake) (c : Capture) (o : Outside) : Emits rt req i (finish rt req i c o).events := by
  unfold finish
  split
  · exact emits_nil i
  · exact emits_releaseHeld _ _ _ _ _

lemma emits_capture (i : Intake) (c : Capture) (m : Outgoing) (o : Outside) : Emits rt req i (capture rt req i c m o).events := by
  unfold capture
  cases m with
  | start status headers => exact emits_nil i
  | other type =>
    dsimp only
    split_ifs
    · exact emits_deliver _ _ _
    · exact emits_nil i
  | body chunk more =>
    dsimp only
    split_ifs
    · exact emits_deliver _ _ _
    · exact emits_releaseHeld _ _ _ _ _
    · exact emits_nil i
    · exact emits_finish _ _ _

lemma emits_conclude (i : Intake) (c : Capture) (ended : Ended) (o : Outside) : Emits rt req i (conclude rt req i c ended o) := by
  cases ended with
  | cancelled => exact emits_nil i
  | returned =>
    simp only [conclude]
    split_ifs
    · exact emits_nil i
    · exact emits_finish _ _ _
  | raised =>
    simp only [conclude]
    split_ifs
    · exact emits_nil i
    all_goals
      split
      · rename_i call a hcall ha
        exact ⟨[], Or.inr ⟨call, a, o, _, _, _, _, hcall, rfl⟩⟩
      · exact emits_nil i

lemma Emits.readsOf {i : Intake} {es : List Event} (h : Emits rt req i es) : readsOf es = [] := by
  obtain ⟨ms, rfl | ⟨call, a, -, -, -, -, -, -, rfl⟩⟩ := h
  · exact readsOf_sent ms
  · rw [readsOf_recorded, readsOf_sent]

lemma Emits.recorded {i : Intake} {es : List Event} (h : Emits rt req i es) {c : Call} {a : Answer} (hc : Event.recorded c a ∈ es) :
    ∃ o outcome error status digest, makeFields rt req i o outcome error status digest = some c := by
  obtain ⟨ms, rfl | ⟨call, a', o, outcome, error, status, digest, hcall, rfl⟩⟩ := h
  · simp at hc
  · obtain ⟨rfl, -⟩ : c = call ∧ a = a' := by simpa using hc
    exact ⟨o, outcome, error, status, digest, hcall⟩

lemma bodies_dropLast_tail (m : Incoming) (ms : List Incoming) :
    (bodies ms.dropLast).length ≤ (bodies (m :: ms).dropLast).length := by
  cases ms with
  | nil => simp
  | cons m' ms => simp

lemma kept_receive {limit : ℕ} {client : List Incoming} {s : Served} {msgs : List Incoming} (h : Kept limit client s msgs) :
    ∃ msgs', Kept limit client (step rt req s .receive) msgs' := by
  obtain ⟨todo, intake, cap, events⟩ := s
  obtain ⟨htaken, hgiven, hcovers, horder⟩ := h
  rcases intake with _ | ⟨body, _ | _⟩ | ⟨stream, _ | ⟨m, pending⟩⟩
  · rcases todo with _ | ⟨m, todo⟩
    · exact ⟨msgs, htaken, hgiven, hcovers, horder⟩
    · refine ⟨msgs ++ [m], by simpa [step, Intake.replay] using htaken, ?_, trivial, fun _ _ h => by cases h⟩
      simpa [step, Intake.replay, Intake.unread] using hgiven
  · refine ⟨msgs, htaken, ?_, hcovers, fun _ _ h => by cases h⟩
    simpa [step, Intake.replay, Intake.unread] using hgiven
  · rcases todo with _ | ⟨m, todo⟩
    · exact ⟨msgs, htaken, hgiven, hcovers, horder⟩
    · obtain ⟨hlimit, first, later, rfl, hfirst⟩ := hcovers
      refine ⟨first ++ later ++ [m], by simpa [step, Intake.replay] using htaken, ?_, ⟨hlimit, first, later ++ [m], by simp, hfirst⟩,
        fun _ _ h => by cases h⟩
      have hread : bodies (readsOf events) = bodies first ++ bodies later := by simpa [Intake.unread] using hgiven
      simp [step, Intake.replay, Intake.unread, hread]
  · rcases todo with _ | ⟨m, todo⟩
    · exact ⟨msgs, htaken, hgiven, hcovers, horder⟩
    · have hread := horder stream [] rfl
      refine ⟨msgs ++ [m], by simpa [step, Intake.replay] using htaken, ?_, ⟨?_, by simp⟩, ?_⟩
      · simpa [step, Intake.replay, Intake.unread] using hgiven
      · simpa [BodyStream.add] using hcovers.1
      · rintro _ _ ⟨⟩
        simpa [step, Intake.replay] using hread
  · have hread := horder stream (m :: pending) rfl
    refine ⟨msgs, htaken, ?_, ⟨hcovers.1, (bodies_dropLast_tail m pending).trans hcovers.2⟩, ?_⟩
    · simpa [step, Intake.replay, Intake.unread] using hgiven
    · rintro _ _ ⟨⟩
      simpa [step, Intake.replay] using hread

variable (rt req) in
lemma kept_step {limit : ℕ} {client : List Incoming} {s : Served} {msgs : List Incoming} (h : Kept limit client s msgs) (act : Act) :
    ∃ msgs', Kept limit client (step rt req s act) msgs' := by
  cases act with
  | receive => exact kept_receive h
  | send m o =>
    obtain ⟨htaken, hgiven, hcovers, horder⟩ := h
    have hreads : readsOf (step rt req s (.send m o)).events = readsOf s.events := by
      simp [step, (emits_capture _ _ _ _).readsOf]
    exact ⟨msgs, htaken, by rw [hreads]; exact hgiven, hcovers, fun stream pending hi => by rw [hreads]; exact horder stream pending hi⟩

variable (rt req) in
lemma kept_run {limit : ℕ} {client : List Incoming} (acts : List Act) {s : Served} {msgs : List Incoming}
    (h : Kept limit client s msgs) : ∃ msgs', Kept limit client (run rt req s acts) msgs' := by
  induction acts generalizing s msgs with
  | nil => exact ⟨msgs, h⟩
  | cons act acts ih =>
    obtain ⟨msgs', h'⟩ := kept_step rt req h act
    exact ih h'

lemma recorded_of_step {s : Served} {act : Act} {c : Call} {a : Answer} (h : Event.recorded c a ∈ (step rt req s act).events) :
    Event.recorded c a ∈ s.events ∨
      ∃ o outcome error status digest, makeFields rt req s.intake o outcome error status digest = some c := by
  cases act with
  | receive =>
    simp only [step] at h
    split at h
    · exact Or.inl h
    · exact Or.inl (by simpa using h)
  | send m o =>
    simp only [step, List.append_assoc, List.mem_append] at h
    rcases h with h | h | h
    · exact Or.inl h
    · exact Or.inr ((emits_capture s.intake s.capture m o).recorded h)
    · split_ifs at h <;> simp at h

lemma recorded_of_run (acts : List Act) {s : Served} {c : Call} {a : Answer} (h : Event.recorded c a ∈ (run rt req s acts).events) :
    Event.recorded c a ∈ s.events ∨ ∃ pre, pre <+: acts ∧ ∃ o outcome error status digest,
      makeFields rt req (run rt req s pre).intake o outcome error status digest = some c := by
  induction acts generalizing s with
  | nil => exact Or.inl h
  | cons act acts ih =>
    rcases ih h with h | ⟨pre, hpre, hmade⟩
    · rcases recorded_of_step h with h | hmade
      · exact Or.inl h
      · exact Or.inr ⟨[], List.nil_prefix, hmade⟩
    · exact Or.inr ⟨act :: pre, List.cons_prefix_cons.mpr ⟨rfl, hpre⟩, hmade⟩

end

/-! ### A whole call -/

end ContinuityLedger.CallLog.Middleware
