import ContinuityLedger.CallLog.Middleware

/-! An answer stays behind the entry of its call: the client gets what the application sent, in its order and marked only at its start,
and by then the log has been told. -/

namespace ContinuityLedger.CallLog.Middleware

open Foundations Foundations.Sha256
open Mcp (text)

/-! ### Applications that keep to the protocol -/

def sends (acts : List Act) : List Outgoing :=
  acts.filterMap fun act => match act with
    | .receive => none
    | .send m _ => some m

def outside (acts : List Act) : List Outside :=
  acts.filterMap fun act => match act with
    | .receive => none
    | .send _ o => some o

inductive Phase
  | fresh
  | started
  | done
deriving DecidableEq

/-- A start, then bodies up to one that says it is the last. -/
def Phase.next : Phase → Outgoing → Option Phase
  | .fresh, .start _ _ => some .started
  | .started, .body _ more => some (if more then .started else .done)
  | _, _ => none

lemma Phase.next_ne_fresh {ph ph' : Phase} {m : Outgoing} (h : ph.next m = some ph') : ph' ≠ .fresh := by
  cases ph <;> cases m <;> simp only [Phase.next, Option.some.injEq, reduceCtorEq] at h
  · exact h ▸ by decide
  · rw [← h]
    split <;> decide

/-- The application sends in order, and where a `send` raises it does nothing more and does not return. -/
def Obeys (rt : Mcp.Runtime) (req : Request) (last : Option Ended) : Served → Phase → List Act → Prop
  | _, _, [] => True
  | s, ph, .receive :: acts => Obeys rt req last (step rt req s .receive) ph acts
  | s, ph, .send m o :: acts => ∃ ph', ph.next m = some ph' ∧
      ((capture rt req s.intake s.capture m o).raises = true → acts = [] ∧ last ≠ some .returned) ∧
      Obeys rt req last (step rt req s (.send m o)) ph' acts

/-! ### What is seen outside -/

def Event.isOutward : Event → Bool
  | .recorded _ _ | .sent _ => true
  | _ => false

def outward (es : List Event) : List Event := es.filter Event.isOutward

def Event.isRecord : Event → Bool
  | .recorded _ _ => true
  | _ => false

def records (es : List Event) : ℕ := es.countP Event.isRecord

def statusOf (ms : List Outgoing) : ℕ :=
  ms.foldl (fun status m => match m with | .start s _ => s | _ => status) 500

/-- More than may be held. -/
def overflows (ms : List Outgoing) : Bool := maxResponseBuffer < (chunks ms).length

@[simp] lemma outward_nil : outward [] = [] := rfl

@[simp] lemma outward_append (es es' : List Event) : outward (es ++ es') = outward es ++ outward es' := List.filter_append _ _

@[simp] lemma outward_sent (ms : List Outgoing) : outward (ms.map .sent) = ms.map .sent := by
  simp [outward, Event.isOutward]

@[simp] lemma outward_cons_sent (m : Outgoing) (es : List Event) : outward (.sent m :: es) = .sent m :: outward es := rfl

@[simp] lemma outward_recorded (c : Call) (a : Answer) (es : List Event) :
    outward (.recorded c a :: es) = .recorded c a :: outward es := rfl

@[simp] lemma outward_threw (b : Bool) : outward (if b then [.threw] else []) = [] := by cases b <;> rfl

@[simp] lemma outward_read (m : Incoming) : outward [.read m] = [] := rfl

@[simp] lemma records_append (es es' : List Event) : records (es ++ es') = records es + records es' := List.countP_append

@[simp] lemma records_sent (ms : List Outgoing) : records (ms.map .sent) = 0 := by
  simp [records, List.countP_map, Function.comp_def, Event.isRecord]

@[simp] lemma records_recorded (c : Call) (a : Answer) (es : List Event) : records (.recorded c a :: es) = records es + 1 :=
  List.countP_cons_of_pos rfl

lemma records_outward (es : List Event) : records (outward es) = records es := by
  rw [records, outward, List.countP_filter]
  refine List.countP_congr fun e _ => ?_
  cases e <;> simp [Event.isRecord, Event.isOutward]

@[simp] lemma statusOf_append (ms : List Outgoing) (m : Outgoing) :
    statusOf (ms ++ [m]) = match m with | .start s _ => s | _ => statusOf ms := by
  simp only [statusOf, List.foldl_append, List.foldl_cons, List.foldl_nil]

@[simp] lemma chunks_append (ms : List Outgoing) (m : Outgoing) : chunks (ms ++ [m]) = chunks ms ++ m.bytes := by simp [chunks]

@[simp] lemma sends_nil : sends [] = [] := rfl

@[simp] lemma sends_receive (acts : List Act) : sends (.receive :: acts) = sends acts := rfl

@[simp] lemma sends_send (m : Outgoing) (o : Outside) (acts : List Act) : sends (.send m o :: acts) = m :: sends acts := rfl

/-! ### One stretch -/

section

variable {rt : Mcp.Runtime} {req : Request} {i : Intake}

lemma deliver_eq (fails : Option ℕ) (ms : List Outgoing) : ∃ n, (deliver fails ms).1 = (ms.take n).map .sent ∧
    (((deliver fails ms).2 = false ∧ n = ms.length) ∨ ((deliver fails ms).2 = true ∧ n < ms.length ∧ fails.isSome)) := by
  cases fails with
  | none => exact ⟨ms.length, by simp [deliver], Or.inl ⟨rfl, rfl⟩⟩
  | some n =>
    rcases Nat.lt_or_ge n ms.length with hn | hn
    · exact ⟨n, rfl, Or.inr ⟨by simpa [deliver] using hn, hn, rfl⟩⟩
    · exact ⟨ms.length, by simp [deliver, List.take_of_length_le hn], Or.inl ⟨by simpa [deliver] using hn, rfl⟩⟩

/-- The entry can be made, and `record` does not raise. -/
def recordable (rt : Mcp.Runtime) (req : Request) (i : Intake) (o : Outside) : Bool :=
  ((witnessArgs rt.py req i).bind (Json.encoded rt.py)).isSome && o.answer.isSome

variable (rt req i) in
lemma makeFields_isSome (o : Outside) (outcome : String) (error : Option PyStr) (status : ℕ) (digest : Json) :
    (makeFields rt req i o outcome error status digest).isSome = ((witnessArgs rt.py req i).bind (Json.encoded rt.py)).isSome := by
  unfold makeFields
  cases witnessArgs rt.py req i with
  | none => rfl
  | some args =>
    change ((Json.encoded rt.py args).bind _).isSome = (Json.encoded rt.py args).isSome
    cases Json.encoded rt.py args <;> rfl

lemma makeFields_eq {o : Outside} {outcome : String} {error : Option PyStr} {status : ℕ} {digest : Json} {call : Call}
    (h : makeFields rt req i o outcome error status digest = some call) : ∃ args canonical, witnessArgs rt.py req i = some args ∧
      Json.encoded rt.py args = some canonical ∧ call.argsSha256 = hexdigest canonical ∧ call.outcome = outcome ∧
      call.errorCode = error ∧ call.statusCode = some status := by
  unfold makeFields at h
  simp only [Option.bind_eq_bind, Option.bind_eq_some_iff, Option.pure_def, Option.some.injEq] at h
  obtain ⟨args, hargs, canonical, hcanonical, rfl⟩ := h
  exact ⟨args, canonical, hargs, hcanonical, rfl, rfl, rfl, rfl⟩

variable (rt req i) in
/-- Under the entry goes what is held, as far as the client takes it. -/
lemma releaseHeld_cases (c : Capture) (o : Outside) (error : Option PyStr) (digest : Json) :
    let t := releaseHeld rt req i c o error digest
    (recordable rt req i o = false ∧ t = ⟨c, [], true⟩) ∨
    ∃ call a n, makeFields rt req i o (outcomeOf c.status) error c.status digest = some call ∧
      t.events = .recorded call a :: ((c.held.map (release a)).take n).map .sent ∧
      ((t.raises = false ∧ n = c.held.length ∧ t.capture = { c with logged := true, held := [] }) ∨
        (t.raises = true ∧ n < c.held.length ∧ o.fails.isSome ∧ t.capture = { c with logged := true })) := by
  intro t
  have hsome := makeFields_isSome rt req i o (outcomeOf c.status) error c.status digest
  cases hcall : makeFields rt req i o (outcomeOf c.status) error c.status digest with
  | none =>
    rw [hcall] at hsome
    exact Or.inl ⟨by simp [recordable, ← hsome], by simp only [t, releaseHeld, hcall]⟩
  | some call =>
    cases ha : o.answer with
    | none => exact Or.inl ⟨by simp [recordable, ha], by simp only [t, releaseHeld, hcall, ha]⟩
    | some a =>
      obtain ⟨n, hev, hend⟩ := deliver_eq o.fails (c.held.map (release a))
      refine Or.inr ⟨call, a, n, rfl, by simp only [t, releaseHeld, hcall, ha, hev], ?_⟩
      rw [List.length_map] at hend
      rcases hend with ⟨hok, hn⟩ | ⟨hraise, hn, hfails⟩
      · exact Or.inl ⟨by simp only [t, releaseHeld, hcall, ha, hok], hn, by simp [t, releaseHeld, hcall, ha, hok]⟩
      · exact Or.inr ⟨by simp only [t, releaseHeld, hcall, ha, hraise], hn, hfails, by simp [t, releaseHeld, hcall, ha, hraise]⟩

/-! ### What a run keeps -/

/-- The entry tells the status of the answer. -/
def Tells (call : Call) (ms : List Outgoing) : Prop := call.statusCode = some (statusOf ms) ∧ call.outcome = outcomeOf (statusOf ms)

/-- The last message says that it is the last. -/
def closes (ms : List Outgoing) : Bool :=
  match ms.getLast? with
  | some (.body _ more) => !more
  | _ => false

lemma closes_append {ms : List Outgoing} {m : Outgoing} {ph ph' : Phase} (h : ph.next m = some ph') :
    closes (ms ++ [m]) = decide (ph' = .done) := by
  cases ph <;> cases m <;> simp only [Phase.next, Option.some.injEq, reduceCtorEq] at h
  · subst h
    simp [closes]
  · subst h
    rename_i more
    cases more <;> simp [closes]

/-- The application has sent `ms`: it is all held, or it is all out behind its entry. -/
inductive Standing (ms : List Outgoing) : Phase → Capture → List Event → Prop
  | holding {ph : Phase} (hph : ph ≠ .done) (hms : ph = .fresh → ms = []) (hsize : overflows ms = false) :
      Standing ms ph ⟨ms, (chunks ms).length, statusOf ms, false, false, chunks ms⟩ []
  | released {ph : Phase} {c : Capture} (call : Call) (a : Answer) (hheld : c.held = []) (hlogged : c.logged = true)
      (hstatus : c.status = statusOf ms) (hoverflow : c.overflow = overflows ms) (hph : c.overflow = false → ph = .done)
      (hfresh : ph ≠ .fresh) (htells : Tells call ms) :
      Standing ms ph c (.recorded call a :: (ms.map (release a)).map .sent)

/-- A `send` has raised: nothing is recorded, or what is out is out behind its entry. -/
inductive Stopped (ms : List Outgoing) (unrecorded : Prop) : Capture → List Event → Prop
  | unlogged {c : Capture} (hlogged : c.logged = false) (hunrecorded : unrecorded) : Stopped ms unrecorded c []
  | cut {c : Capture} (call : Call) (a : Answer) (n : ℕ) (hlogged : c.logged = true) (hoverflow : c.overflow = overflows ms)
      (hcloses : c.overflow = false → closes ms = true) (hn : n < ms.length) (htells : Tells call ms) :
      Stopped ms unrecorded c (.recorded call a :: ((ms.map (release a)).take n).map .sent)

lemma Stopped.imp {ms : List Outgoing} {p q : Prop} (hpq : p → q) {c : Capture} {w : List Event} (h : Stopped ms p c w) :
    Stopped ms q c w := by
  cases h with
  | unlogged hlogged hp => exact .unlogged hlogged (hpq hp)
  | cut call a n hlogged hoverflow hcloses hn htells => exact .cut call a n hlogged hoverflow hcloses hn htells

/-- The answer can be read for its digest. -/
def legible (rt : Mcp.Runtime) (ms : List Outgoing) : Bool := (parsed rt.py (chunks ms)).isSome

lemma overflows_append_of {ms : List Outgoing} (m : Outgoing) (h : overflows ms = true) : overflows (ms ++ [m]) = true := by
  simp only [overflows, chunks_append, List.length_append, decide_eq_true_eq] at h ⊢
  omega

/-- Why no entry is made: it cannot be, or the answer cannot be read. -/
def Unrecorded (rt : Mcp.Runtime) (req : Request) (i : Intake) (o : Outside) (ms : List Outgoing) : Prop :=
  recordable rt req i o = false ∨ legible rt ms = false

variable (rt req i) in
lemma releaseHeld_standing {ms : List Outgoing} {c : Capture} (o : Outside) (error : Option PyStr) (digest : Json) {ph : Phase}
    (hheld : c.held = ms) (hlogged : c.logged = false) (hstatus : c.status = statusOf ms) (hoverflow : c.overflow = overflows ms)
    (hph : c.overflow = false → ph = .done) (hfresh : ph ≠ .fresh) (hcloses : closes ms = decide (ph = .done)) :
    let t := releaseHeld rt req i c o error digest
    (t.raises = false ∧ Standing ms ph t.capture (outward t.events)) ∨
      (t.raises = true ∧ Stopped ms (Unrecorded rt req i o ms) t.capture (outward t.events)) := by
  intro t
  rcases releaseHeld_cases rt req i c o error digest with
    ⟨hno, ht⟩ | ⟨call, a, n, hcall, hev, ⟨hok, hn, hcap⟩ | ⟨hraise, hn, -, hcap⟩⟩
  · refine Or.inr ⟨by simp only [t, ht], ?_⟩
    simp only [t, ht]
    exact .unlogged hlogged (Or.inl hno)
  · obtain ⟨-, -, -, -, -, houtcome, -, hcode⟩ := makeFields_eq hcall
    have htells : Tells call ms := ⟨by rw [hcode, hstatus], by rw [houtcome, hstatus]⟩
    have hall : (c.held.map (release a)).take n = ms.map (release a) := by
      rw [hheld, List.take_of_length_le (by rw [List.length_map, hn, hheld])]
    refine Or.inl ⟨hok, ?_⟩
    simp only [t, hev, hcap, hall, outward_recorded, outward_sent]
    exact .released call a rfl rfl hstatus hoverflow hph hfresh htells
  · obtain ⟨-, -, -, -, -, houtcome, -, hcode⟩ := makeFields_eq hcall
    have htells : Tells call ms := ⟨by rw [hcode, hstatus], by rw [houtcome, hstatus]⟩
    refine Or.inr ⟨hraise, ?_⟩
    simp only [t, hev, hcap, outward_recorded, outward_sent, hheld]
    exact .cut call a n rfl hoverflow (fun hno => by rw [hcloses, hph hno]; rfl) (hheld ▸ hn) htells

variable (rt req i) in
/-- What is held at its end goes out. -/
lemma finish_standing {ms : List Outgoing} (o : Outside) {ph : Phase} (hph : ph = .done) (hsize : overflows ms = false)
    (hcloses : closes ms = true) :
    let t := finish rt req i ⟨ms, (chunks ms).length, statusOf ms, false, false, chunks ms⟩ o
    (t.raises = false ∧ Standing ms ph t.capture (outward t.events)) ∨
      (t.raises = true ∧ Stopped ms (Unrecorded rt req i o ms) t.capture (outward t.events)) := by
  subst hph
  intro t
  cases hparsed : parsed rt.py (chunks ms) with
  | none =>
    have ht : t = ⟨⟨ms, (chunks ms).length, statusOf ms, false, false, chunks ms⟩, [], true⟩ := by simp [t, finish, hparsed]
    rw [ht]
    exact Or.inr ⟨rfl, .unlogged rfl (Or.inr (by simp [legible, hparsed]))⟩
  | some answer =>
    have ht : t = releaseHeld rt req i ⟨ms, (chunks ms).length, statusOf ms, false, false, chunks ms⟩ o
        (code rt (statusOf ms) answer) (resultDigest answer) := by simp [t, finish, hparsed]
    rw [ht]
    exact releaseHeld_standing rt req i o _ _ rfl rfl rfl hsize.symm (fun _ => rfl) (by decide) (by rw [hcloses]; rfl)

variable (rt req i) in
/-- One `send` of an application that keeps to the protocol. -/
lemma capture_standing {ms : List Outgoing} {ph ph' : Phase} {c : Capture} {w : List Event} (h : Standing ms ph c w)
    {m : Outgoing} (hm : ph.next m = some ph') (o : Outside) :
    let t := capture rt req i c m o
    (t.raises = false ∧ Standing (ms ++ [m]) ph' t.capture (w ++ outward t.events)) ∨
      (t.raises = true ∧ Stopped (ms ++ [m]) (Unrecorded rt req i o (ms ++ [m])) t.capture (w ++ outward t.events)) := by
  intro t
  cases h with
  | holding hph hms hsize =>
    cases m with
    | other type => cases ph <;> cases hm
    | start status headers =>
      cases ph with
      | started | done => cases hm
      | fresh =>
        cases hm
        refine Or.inl ⟨rfl, ?_⟩
        have hkept : Standing (ms ++ [.start status headers]) .started _ _ := .holding (by decide) (by simp)
          (by simpa [overflows, Outgoing.bytes] using hsize)
        simpa [t, capture, Outgoing.bytes] using hkept
    | body chunk more =>
      cases ph with
      | fresh | done => cases hm
      | started =>
        have hbytes : (chunks (ms ++ [.body chunk more])).length = (chunks ms).length + chunk.length := by
          simp [Outgoing.bytes]
        have hfresh := Phase.next_ne_fresh hm
        have hcloses : closes (ms ++ [.body chunk more]) = _ := closes_append hm
        simp only [Phase.next, Option.some.injEq] at hm
        by_cases hover : maxResponseBuffer < (chunks ms).length + chunk.length
        · have hend := releaseHeld_standing rt req i
            (c := ⟨ms ++ [.body chunk more], (chunks ms).length, statusOf ms, true, false, chunks ms⟩) o
            (code rt (statusOf ms) .null) .null rfl rfl (by simp) (by rw [overflows, hbytes, decide_eq_true hover]) (by simp)
            hfresh hcloses
          simpa only [t, capture, Bool.false_eq_true, if_false, hover, if_true, List.nil_append] using hend
        · have hsize' : overflows (ms ++ [.body chunk more]) = false := by
            simpa only [overflows, hbytes, decide_eq_false_iff_not] using hover
          cases more with
          | true =>
            refine Or.inl ⟨by simp only [t, capture, Bool.false_eq_true, if_false, hover, if_true], ?_⟩
            have hkept : Standing (ms ++ [.body chunk true]) .started _ _ := .holding (by decide) (by simp) hsize'
            subst hm
            simpa [t, capture, hover, Outgoing.bytes] using hkept
          | false =>
            have hdone : ph' = .done := by simpa using hm.symm
            have hend := finish_standing rt req i o hdone hsize' (by simp [closes])
            simp only [chunks_append, statusOf_append, List.length_append, Outgoing.bytes] at hend
            simpa only [t, capture, Bool.false_eq_true, if_false, hover, List.nil_append] using hend
  | released call a hheld hlogged hstatus hoverflow hph hfresh htells =>
    cases m with
    | other type => cases ph <;> cases hm
    | start status headers => cases ph <;> first | exact absurd rfl hfresh | cases hm
    | body chunk more =>
      have hover : c.overflow = true := by
        rw [← Bool.not_eq_false]
        intro hno
        rw [hph hno] at hm
        cases hm
      have hover' := overflows_append_of (.body chunk more) (hoverflow ▸ hover)
      have hstatus' : statusOf (ms ++ [.body chunk more]) = statusOf ms := by simp
      have htells' : Tells call (ms ++ [.body chunk more]) := by
        simpa only [Tells, hstatus'] using htells
      obtain ⟨n, hev, ⟨hok, hn⟩ | ⟨hraise, hn, -⟩⟩ := deliver_eq o.fails [.body chunk more]
      · refine Or.inl ⟨by simp only [t, capture, hover, if_true, hok], ?_⟩
        have hkept : Standing (ms ++ [.body chunk more]) ph' c _ := .released call a hheld hlogged
          (by rw [hstatus, hstatus']) (by rw [hover, hover']) (by simp [hover]) (Phase.next_ne_fresh hm) htells'
        simpa [t, capture, hover, hev, hn, release] using hkept
      · refine Or.inr ⟨by simp only [t, capture, hover, if_true, hraise], ?_⟩
        have hcut : Stopped (ms ++ [.body chunk more]) (Unrecorded rt req i o (ms ++ [.body chunk more])) c _ :=
          .cut call a ms.length hlogged (by rw [hover, hover']) (by simp [hover]) (by simp) htells'
        obtain rfl : n = 0 := by simpa using hn
        simpa [t, capture, hover, hev] using hcut

/-- Something that was to be recorded could not be, at a point of the run. -/
def Failed (rt : Mcp.Runtime) (req : Request) (s : Served) (ms : List Outgoing) (acts : List Act) : Prop :=
  legible rt (ms ++ sends acts) = false ∨
    ∃ pre o, pre <+: acts ∧ o ∈ outside acts ∧ recordable rt req (run rt req s pre).intake o = false

lemma Failed.cons {s : Served} {ms : List Outgoing} {act : Act} {acts : List Act}
    (h : Failed rt req (step rt req s act) (ms ++ sends [act]) acts) : Failed rt req s ms (act :: acts) := by
  have hsends : sends (act :: acts) = sends [act] ++ sends acts := by cases act <;> rfl
  rcases h with hlegible | ⟨pre, o, hpre, ho, hno⟩
  · exact Or.inl (by rw [hsends, ← List.append_assoc, hlegible])
  · refine Or.inr ⟨act :: pre, o, List.cons_prefix_cons.mpr ⟨rfl, hpre⟩, ?_, hno⟩
    cases act with
    | receive => exact ho
    | send m o' => exact List.mem_cons_of_mem _ ho

variable (rt req) in
lemma step_receive (s : Served) : (step rt req s .receive).capture = s.capture ∧
    outward (step rt req s .receive).events = outward s.events := by
  simp only [step]
  cases s.intake.replay s.client with
  | none => exact ⟨rfl, rfl⟩
  | some r => exact ⟨rfl, by simp⟩

/-- A whole run of an application that keeps to the protocol. -/
lemma run_standing {last : Option Ended} : ∀ (acts : List Act) (s : Served) (ph : Phase) (ms : List Outgoing),
    Standing ms ph s.capture (outward s.events) → closes ms = decide (ph = .done) → Obeys rt req last s ph acts →
    (∃ ph', Standing (ms ++ sends acts) ph' (run rt req s acts).capture (outward (run rt req s acts).events) ∧
      closes (ms ++ sends acts) = decide (ph' = .done)) ∨
    (last ≠ some .returned ∧ Stopped (ms ++ sends acts) (Failed rt req s ms acts) (run rt req s acts).capture
      (outward (run rt req s acts).events)) := by
  intro acts
  induction acts with
  | nil =>
    intro s ph ms h hcloses _
    exact Or.inl ⟨ph, by simpa [run] using h, by simpa using hcloses⟩
  | cons act acts ih =>
    intro s ph ms h hcloses hobeys
    cases act with
    | receive =>
      obtain ⟨hcap, hout⟩ := step_receive rt req s
      rcases ih (step rt req s .receive) ph ms (by rwa [hcap, hout]) hcloses hobeys with hok | ⟨hlast, hstop⟩
      · exact Or.inl hok
      · exact Or.inr ⟨hlast, hstop.imp fun hfailed => Failed.cons (by simpa [sends] using hfailed)⟩
    | send m o =>
      obtain ⟨ph', hm, hraise, hrest⟩ := hobeys
      have hevents : outward (step rt req s (.send m o)).events = outward s.events ++
          outward (capture rt req s.intake s.capture m o).events := by simp [step]
      have happend : ms ++ sends (.send m o :: acts) = (ms ++ [m]) ++ sends acts := by simp
      rcases capture_standing rt req s.intake h hm o with ⟨-, hkept⟩ | ⟨hraises, hstop⟩
      · rw [happend]
        rcases ih (step rt req s (.send m o)) ph' (ms ++ [m]) (by rw [hevents]; exact hkept) (closes_append hm) hrest with
          hok | ⟨hlast, hstop⟩
        · exact Or.inl hok
        · exact Or.inr ⟨hlast, hstop.imp Failed.cons⟩
      · obtain ⟨rfl, hlast⟩ := hraise hraises
        refine Or.inr ⟨hlast, ?_⟩
        have hrun : run rt req s [.send m o] = step rt req s (.send m o) := rfl
        rw [hrun, hevents, happend, sends_nil, List.append_nil]
        refine hstop.imp fun hfailed => ?_
        rcases hfailed with hno | hlegible
        · exact Or.inr ⟨[], o, List.nil_prefix, List.mem_singleton_self o, hno⟩
        · exact Or.inl hlegible

/-! ### Behind the application -/

variable (rt req i) in
lemma conclude_returned {ms : List Outgoing} (hms : ms ≠ []) (o : Outside) :
    let es := conclude rt req i ⟨ms, (chunks ms).length, statusOf ms, false, false, chunks ms⟩ .returned o
    (Unrecorded rt req i o ms ∧ es = []) ∨ ∃ call a n, Tells call ms ∧
      es = .recorded call a :: ((ms.map (release a)).take n).map .sent ∧ (o.fails = none → n = ms.length) := by
  intro es
  cases hparsed : parsed rt.py (chunks ms) with
  | none => exact Or.inl ⟨Or.inr (by simp [legible, hparsed]), by simp [es, conclude, hms, finish, hparsed]⟩
  | some answer =>
    have hes : es = (releaseHeld rt req i ⟨ms, (chunks ms).length, statusOf ms, false, false, chunks ms⟩ o
        (code rt (statusOf ms) answer) (resultDigest answer)).events := by simp [es, conclude, hms, finish, hparsed]
    rcases releaseHeld_cases rt req i ⟨ms, (chunks ms).length, statusOf ms, false, false, chunks ms⟩ o
      (code rt (statusOf ms) answer) (resultDigest answer) with ⟨hno, ht⟩ | ⟨call, a, n, hcall, hev, hend⟩
    · exact Or.inl ⟨Or.inl hno, by rw [hes, ht]⟩
    · obtain ⟨-, -, -, -, -, houtcome, -, hcode⟩ := makeFields_eq hcall
      refine Or.inr ⟨call, a, n, ⟨hcode, houtcome⟩, by rw [hes, hev], fun hfails => ?_⟩
      rcases hend with ⟨-, hn, -⟩ | ⟨-, -, hsome, -⟩
      · exact hn
      · simp [hfails] at hsome

variable (rt req i) in
lemma conclude_raised {c : Capture} (h : (c.logged && !c.overflow) = false) (o : Outside) :
    (recordable rt req i o = false ∧ conclude rt req i c .raised o = []) ∨
    ∃ call a, conclude rt req i c .raised o = [.recorded call a] ∧
      call.errorCode = some (text (if c.logged then "STREAMING_FAILED" else "INTERNAL")) := by
  have hsome := makeFields_isSome rt req i o "error"
    (some (text (if c.logged then "STREAMING_FAILED" else "INTERNAL"))) (if c.logged then c.status else 500) .null
  cases hcall : makeFields rt req i o "error" (some (text (if c.logged then "STREAMING_FAILED" else "INTERNAL")))
      (if c.logged then c.status else 500) .null with
  | none =>
    rw [hcall] at hsome
    exact Or.inl ⟨by simp [recordable, ← hsome], by simp [conclude, h, hcall]⟩
  | some call =>
    cases ha : o.answer with
    | none => exact Or.inl ⟨by simp [recordable, ha], by simp [conclude, h, ha]⟩
    | some a =>
      obtain ⟨-, -, -, -, -, -, herror, -⟩ := makeFields_eq hcall
      exact Or.inr ⟨call, a, by simp [conclude, h, hcall, ha], herror⟩

lemma conclude_settled {c : Capture} (hlogged : c.logged = true) (hoverflow : c.overflow = false) (o : Outside) :
    conclude rt req i c .raised o = [] := by simp [conclude, hlogged, hoverflow]

end

/-! ### A whole call -/

/-- Where the application begins: the request is taken in, and no write is refused. -/
def opened (host : Host) (req : Request) (client : List Incoming) : Option Served :=
  match intake host.maxBodyBytes req.method client with
  | .waiting | .gone => none
  | .ready intake rest => if req.plan.write && !host.preflight then none else some ⟨rest, intake, .fresh, []⟩

/-- The application keeps to the protocol from where it begins. -/
def Behaves (host : Host) (req : Request) (client : List Incoming) (acts : List Act) (last : Option (Ended × Outside)) : Prop :=
  ∀ s, opened host req client = some s → Obeys host.runtime req (last.map Prod.fst) s .fresh acts

lemma opened_start {host : Host} {req : Request} {client : List Incoming} {s : Served} (h : opened host req client = some s) :
    s.capture = .fresh ∧ s.events = [] := by
  unfold opened at h
  split at h
  · cases h
  · cases h
  · split at h <;> cases h
    exact ⟨rfl, rfl⟩

lemma call_of_opened {host : Host} {req : Request} {client : List Incoming} {s : Served} (h : opened host req client = some s)
    (acts : List Act) (fails : Option ℕ) (last : Option (Ended × Outside)) :
    call host req client acts fails last = (run host.runtime req s acts).events ++ last.elim [] fun e =>
      conclude host.runtime req (run host.runtime req s acts).intake (run host.runtime req s acts).capture e.1 e.2 := by
  unfold opened at h
  unfold call
  split at h
  · cases h
  · cases h
  · split at h <;> cases h
    simp_all

lemma call_of_unopened {host : Host} {req : Request} {client : List Incoming} (h : opened host req client = none)
    (acts : List Act) (fails : Option ℕ) (last : Option (Ended × Outside)) : call host req client acts fails last = [] ∨
    call host req client acts fails last = .refused :: (deliver fails (refusal host)).1 := by
  unfold opened at h
  unfold call
  split at h
  · simp_all
  · simp_all
  · split at h <;> simp_all

lemma standing_start {host : Host} {req : Request} {client : List Incoming} {s : Served} (h : opened host req client = some s) :
    Standing [] .fresh s.capture (outward s.events) := by
  obtain ⟨hcap, hev⟩ := opened_start h
  rw [hcap, hev]
  exact .holding (by decide) (fun _ => rfl) (by decide)

def quietHost : Host := ⟨⟨⟨id, 900, 900, Nat.succ_pos _, Nat.succ_pos _⟩, fun _ => [], "operator"⟩, 4096, true, 5⟩

def readRequest : Request := ⟨"GET", ⟨.api, "GET /api/jarvis/memory", "/api/jarvis/memory", none, false, []⟩, [], []⟩

def quiet : Outside := ⟨none, 0, some (.entry 7), none⟩

/-- An empty answer. -/
def quietActs : List Act := [.send (.start 200 []) quiet, .send (.body [] false) quiet]

lemma quiet_behaves : Behaves quietHost readRequest [] quietActs (some (.returned, quiet)) := by
  intro s hs
  obtain rfl : s = ⟨[], .through, .fresh, []⟩ := (Option.some.inj hs).symm
  refine ⟨.started, rfl, fun h => ?_, .done, rfl, fun h => ?_, trivial⟩
  · cases h
  · exact absurd h (by decide)

lemma run_opened {host : Host} {req : Request} {client : List Incoming} {acts : List Act} {last : Option (Ended × Outside)}
    {s : Served} (hopened : opened host req client = some s) (hbehaves : Behaves host req client acts last) :
    (∃ ph, Standing (sends acts) ph (run host.runtime req s acts).capture (outward (run host.runtime req s acts).events) ∧
      closes (sends acts) = decide (ph = .done)) ∨
    (last.map Prod.fst ≠ some .returned ∧ Stopped (sends acts) (Failed host.runtime req s [] acts)
      (run host.runtime req s acts).capture (outward (run host.runtime req s acts).events)) := by
  have h := run_standing acts s .fresh [] (standing_start hopened) rfl (hbehaves s hopened)
  simpa only [List.nil_append] using h

/-- What the client has got, as far as it took it, behind the entry `c`, and what was recorded later. -/
def Behind (ms : List Outgoing) (es : List Event) : Prop :=
  ∃ c a n later, es = .recorded c a :: (((ms.map (release a)).take n).map .sent ++ later) ∧ (n ≠ 0 → Tells c ms) ∧
    ∀ e ∈ later, ∃ c' a', e = .recorded c' a' ∧ c'.errorCode = some (text "STREAMING_FAILED")

lemma behind_alone (ms : List Outgoing) (c : Call) (a : Answer) : Behind ms [.recorded c a] :=
  ⟨c, a, 0, [], by simp, fun h => absurd rfl h, by simp⟩

lemma behind_cut {ms : List Outgoing} {c : Call} (h : Tells c ms) (a : Answer) (n : ℕ) :
    Behind ms (.recorded c a :: ((ms.map (release a)).take n).map .sent) := ⟨c, a, n, [], by simp, fun _ => h, by simp⟩

lemma behind_all {ms : List Outgoing} {c : Call} (h : Tells c ms) (a : Answer) :
    Behind ms (.recorded c a :: (ms.map (release a)).map .sent) := by
  have hcut := behind_cut h a ms.length
  rwa [List.take_of_length_le (by simp)] at hcut

lemma Behind.later {ms : List Outgoing} {es : List Event} (h : Behind ms es) {c : Call}
    (hc : c.errorCode = some (text "STREAMING_FAILED")) (a : Answer) : Behind ms (es ++ [.recorded c a]) := by
  obtain ⟨c₀, a₀, n, later, rfl, htells, hlater⟩ := h
  refine ⟨c₀, a₀, n, later ++ [.recorded c a], by simp, htells, fun e he => ?_⟩
  rcases List.mem_append.mp he with he | he
  · exact hlater e he
  · exact ⟨c, a, List.mem_singleton.mp he, hc⟩

/-- Behind an entry, whatever the end of the application adds is a later entry. -/
lemma behind_conclude {rt : Mcp.Runtime} {req : Request} {i : Intake} {ms : List Outgoing} {c : Capture} {w : List Event}
    (h : Behind ms w) (hlogged : c.logged = true) {last : Option (Ended × Outside)}
    (hreturned : last.map Prod.fst = some .returned → c.held = []) :
    Behind ms (w ++ outward (last.elim [] fun e => conclude rt req i c e.1 e.2)) := by
  rcases last with _ | ⟨_ | _ | _, o⟩
  · simpa using h
  · simpa [conclude, hreturned rfl] using h
  · cases hover : c.overflow with
    | false => simpa [conclude_settled hlogged hover o] using h
    | true =>
      rcases conclude_raised rt req i (c := c) (by simp [hover]) o with ⟨-, hes⟩ | ⟨call, a, hes, herror⟩
      · simpa [hes] using h
      · rw [hlogged, if_pos rfl] at herror
        simpa [hes] using h.later herror a
  · simpa [conclude] using h

/-- Every entry that the run asks for can be made. -/
def Recordable (host : Host) (req : Request) (s : Served) (acts : List Act) (last : Option (Ended × Outside)) : Prop :=
  legible host.runtime (sends acts) = true ∧ ∀ pre o, pre <+: acts → o ∈ outside acts ++ (last.map Prod.snd).toList →
    recordable host.runtime req (run host.runtime req s pre).intake o = true

lemma Recordable.not_failed {host : Host} {req : Request} {s : Served} {acts : List Act} {last : Option (Ended × Outside)}
    (h : Recordable host req s acts last) : ¬ Failed host.runtime req s [] acts := by
  rintro (hlegible | ⟨pre, o, hpre, ho, hno⟩)
  · rw [List.nil_append, h.1] at hlegible
    cases hlegible
  · rw [h.2 pre o hpre (List.mem_append_left _ ho)] at hno
    cases hno

lemma Recordable.last {host : Host} {req : Request} {s : Served} {acts : List Act} {ended : Ended} {o : Outside}
    (h : Recordable host req s acts (some (ended, o))) :
    recordable host.runtime req (run host.runtime req s acts).intake o = true := h.2 acts o List.prefix_rfl (by simp)

/-- An answer that has gone out is recorded, and once more where it breaks off while it streams. -/
def due (ms : List Outgoing) : Option Ended → ℕ
  | some .returned => if ms = [] then 0 else 1
  | some .raised => if overflows ms then 2 else 1
  | none | some .cancelled => if closes ms || overflows ms then 1 else 0

lemma due_of_released {ms : List Outgoing} {c : Capture} (hoverflow : c.overflow = overflows ms)
    (hcloses : c.overflow = false → closes ms = true) {last : Option Ended} (hlast : last ≠ some .raised) : due ms last = 1 := by
  have hout : (closes ms || overflows ms) = true := by
    cases hover : c.overflow with
    | false => rw [hcloses hover, Bool.true_or]
    | true => rw [← hoverflow, hover, Bool.or_true]
  have hne : ms ≠ [] := by
    rintro rfl
    exact absurd hout (by decide)
  rcases last with _ | _ | _ | _
  · simp [due, hout]
  · simp [due, hne]
  · exact absurd rfl hlast
  · simp [due, hout]

/-- Behind an entry that is made. -/
lemma records_conclude {rt : Mcp.Runtime} {req : Request} {i : Intake} {ms : List Outgoing} {c : Capture} (hlogged : c.logged = true)
    (hoverflow : c.overflow = overflows ms) (hcloses : c.overflow = false → closes ms = true) {last : Option (Ended × Outside)}
    (hreturned : last.map Prod.fst = some .returned → c.held = [])
    (hrecordable : ∀ ended o, last = some (ended, o) → recordable rt req i o = true) :
    1 + records (last.elim [] fun e => conclude rt req i c e.1 e.2) = due ms (last.map Prod.fst) := by
  by_cases hraised : last.map Prod.fst = some .raised
  · rcases last with _ | ⟨ended, o⟩
    · cases hraised
    obtain rfl : ended = .raised := Option.some.inj hraised
    cases hover : c.overflow with
    | false => simp [conclude_settled hlogged hover o, due, ← hoverflow, hover, records]
    | true =>
      rcases conclude_raised rt req i (c := c) (by simp [hover]) o with ⟨hno, -⟩ | ⟨call, a, hes, -⟩
      · rw [hrecordable _ o rfl] at hno
        cases hno
      · simp [hes, due, ← hoverflow, hover, records, Event.isRecord]
  · rw [due_of_released hoverflow hcloses hraised]
    rcases last with _ | ⟨_ | _ | _, o⟩
    · rfl
    · simp [conclude, hreturned rfl, records]
    · exact absurd rfl hraised
    · rfl

lemma quiet_recordable : Recordable quietHost readRequest ⟨[], .through, .fresh, []⟩ quietActs (some (.returned, quiet)) := by
  refine ⟨by decide, fun pre o hpre ho => ?_⟩
  obtain rfl : o = quiet := by simpa [quietActs, outside] using ho
  have hthrough : (run quietHost.runtime readRequest ⟨[], .through, .fresh, []⟩ pre).intake = .through := by
    obtain ⟨n, rfl⟩ : ∃ n, pre = quietActs.take n := ⟨_, List.prefix_iff_eq_take.mp hpre⟩
    rcases n with _ | _ | _ | n <;> rfl
  rw [hthrough]
  rfl

/-- Where the application returns, the client takes everything and the entry can be made, all of the answer goes out behind it. -/
theorem answer_whole (host : Host) (req : Request) (client : List Incoming) (acts : List Act) (fails : Option ℕ) (o : Outside)
    (s : Served) (hopened : opened host req client = some s) (hbehaves : Behaves host req client acts (some (.returned, o)))
    (hrecordable : Recordable host req s acts (some (.returned, o))) (hfails : o.fails = none) (hsends : sends acts ≠ []) :
    ∃ c a, Tells c (sends acts) ∧ outward (call host req client acts fails (some (.returned, o))) =
      .recorded c a :: ((sends acts).map (release a)).map .sent := by
  rw [call_of_opened hopened, outward_append]
  rcases run_opened hopened hbehaves with ⟨ph, h, -⟩ | ⟨hlast, -⟩
  · generalize hw : outward (run host.runtime req s acts).events = w at h
    generalize hc : (run host.runtime req s acts).capture = c at h
    cases h with
    | holding hph hms hsize =>
      rcases conclude_returned host.runtime req ((run host.runtime req s acts).intake) hsends o with
        ⟨hno | hno, -⟩ | ⟨call, a, n, htells, hes, hn⟩
      · rw [hrecordable.last] at hno
        cases hno
      · rw [hrecordable.1] at hno
        cases hno
      · refine ⟨call, a, htells, ?_⟩
        simp only [Option.elim_some, hes, outward_recorded, outward_sent, List.nil_append]
        rw [List.take_of_length_le (by rw [List.length_map, hn hfails])]
    | released call a hheld hlogged hstatus hoverflow hph hfresh htells =>
      exact ⟨call, a, htells, by simp [conclude, hheld]⟩
  · exact absurd rfl hlast

theorem answer_whole_read : ∃ c a, Tells c (sends quietActs) ∧
    outward (call quietHost readRequest [] quietActs none (some (.returned, quiet))) =
      .recorded c a :: ((sends quietActs).map (release a)).map .sent :=
  answer_whole quietHost readRequest [] quietActs none quiet ⟨[], .through, .fresh, []⟩ rfl quiet_behaves quiet_recordable rfl
    (by decide)

end ContinuityLedger.CallLog.Middleware
