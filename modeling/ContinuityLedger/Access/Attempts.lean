import ContinuityLedger.Access.Credentials
import ContinuityLedger.Access.Lifecycle
import ContinuityLedger.Access.WindowLaw

/-! Requests that present tenant keys, in any overlap: each reserves an attempt for every key that it names before a key is looked
at, and gives all of them back unless it is refused for its keys. -/

namespace ContinuityLedger.Access

open Foundations Foundations.SlidingWindow

/-- `_bearer`. -/
def bearer (authorization : Option String) : Option String :=
  let value := authorization.getD ""
  if PyText.startsWith (PyText.lower value) "bearer " then keyOf (some (String.ofList (value.toList.drop 7))) else none

def offer (out : List String) (raw : Option String) : List String :=
  raw.elim out fun raw => if PyText.startsWith raw tokenPrefix && raw ∉ out then out ++ [raw] else out

def tokenCandidates (h : Headers) : List String := [bearer h.authorization, keyOf h.xApiKey].foldl offer []

/-- `JARVIS_KEY_FAIL_LIMIT_PER_MINUTE`. -/
def failureLimit (env : Option String) : ℕ := ((PyText.intText (env.getD "20")).map (max 1)).elim 20 Int.toNat

/-- A malformed token has no key id. -/
def failureSubject (client token : String) : String := "keyfail:" ++ client ++ ":" ++ (parseToken token).elim "-" Prod.fst

def failureSubjects (candidates : List String) (client : String) : List String :=
  if candidates = [] then ["keyfail:" ++ client ++ ":-"] else candidates.map (failureSubject client)

/-- `KeyAuthUnavailable`, and everything else that ends a check. -/
inductive Failure
  | unavailable
  | raised

/-- The first candidate that authenticates. -/
def authenticate (resolve : String → Except Failure (Option ResolvedKey)) : List String → Except Failure (Option ResolvedKey)
  | [] => .ok none
  | token :: candidates =>
    match resolve token with
    | .error e => .error e
    | .ok (some key) => .ok (some key)
    | .ok none => authenticate resolve candidates

inductive Reply
  | tooMany
  | unavailable
  | raised
  | unauthorized
  | tenantUnavailable
  | forbidden
  | admitted (key : ResolvedKey)

def readScope : String := "memory.read"

def Reply.to (key : ResolvedKey) : Reply :=
  if key.tenantStatus ≠ .active then .tenantUnavailable else if readScope ∉ key.scopes then .forbidden else .admitted key

/-- Where a request is: in `reserve_attempt`, in `authenticate`, in `release_attempt`, or answered with what it left behind. -/
inductive Stage
  | reserving (taken : List (String × ℚ)) (todo : List String)
  | checking (taken : List (String × ℚ))
  | releasing (todo : List (String × ℚ)) (reply : Reply)
  | answered (reply : Reply) (left : List (String × ℚ))

structure KeyRequest where
  client : String
  candidates : List String
  stage : Stage

namespace KeyRequest

def subjects (q : KeyRequest) : List String := failureSubjects q.candidates q.client

/-- The call of the limiter that comes next. -/
def call (now : ℚ) (q : KeyRequest) : Option Attempt :=
  match q.stage with
  | .reserving _ (subject :: _) => some (.reserve now subject)
  | .releasing ((subject, reservation) :: _) _ => some (.release subject reservation)
  | _ => none

def goto (q : KeyRequest) (stage : Stage) : KeyRequest := { q with stage := stage }

/-- After the call, if there was one; `granted` is what `reserve` has returned. -/
def next (granted : Option ℚ) (q : KeyRequest) : KeyRequest :=
  match q.stage with
  | .reserving taken (subject :: todo) =>
    q.goto (granted.elim (.releasing taken .tooMany) fun reservation => .reserving (taken ++ [(subject, reservation)]) todo)
  | .reserving taken [] => q.goto (.checking taken)
  | .releasing (_ :: todo) reply => q.goto (.releasing todo reply)
  | .releasing [] reply => q.goto (.answered reply [])
  | _ => q

/-- The rest of the middleware's branch, once `authenticate` is over. -/
def checked (resolve : String → Except Failure (Option ResolvedKey)) (q : KeyRequest) : KeyRequest :=
  match q.stage with
  | .checking taken =>
    match authenticate resolve q.candidates with
    | .error .unavailable => q.goto (.releasing taken .unavailable)
    | .error .raised => q.goto (.releasing taken .raised)
    | .ok none => q.goto (.answered .unauthorized taken)
    | .ok (some key) => q.goto (.releasing taken (.to key))
  | _ => q

end KeyRequest

inductive RequestAction
  | arrive (client : String) (headers : Headers)
  | proceed (i : ℕ) (now : ℚ)
  | check (i : ℕ) (resolve : String → Except Failure (Option ResolvedKey))

structure Requests where
  limited : Limited
  requests : List KeyRequest

namespace Requests

def granted (window : ℚ) (limit : ℕ) (limiter : McpRateLimiter) : Attempt → Option ℚ
  | .reserve now subject => (limiter.reserve window now subject limit).2
  | .release _ _ => none

def step (window : ℚ) (limit : ℕ) (d : Requests) : RequestAction → Requests
  | .arrive client headers =>
    match tokenCandidates headers with
    | [] => d
    | candidates =>
      { d with requests := d.requests ++ [⟨client, candidates, .reserving [] (failureSubjects candidates client)⟩] }
  | .proceed i now =>
    match d.requests[i]? with
    | none => d
    | some q =>
      match q.call now with
      | none => { d with requests := d.requests.set i (q.next none) }
      | some a => ⟨d.limited.step window limit a, d.requests.set i (q.next (granted window limit d.limited.limiter a))⟩
  | .check i resolve =>
    match d.requests[i]? with
    | none => d
    | some q => { d with requests := d.requests.set i (q.checked resolve) }

/-- Time does not go backwards, and making room drops no queue that is in use. -/
def Fits (window : ℚ) (limit : ℕ) (d : Requests) : RequestAction → Prop
  | .proceed i now =>
    ∀ q a, d.requests[i]? = some q → q.call now = some a → a.Timely d.limited ∧ Spares window limit d.limited a
  | _ => True

end Requests

inductive RequestRun (window : ℚ) (limit : ℕ) : Requests → Prop
  | start (now : ℚ) : RequestRun window limit ⟨⟨⟨[], none⟩, fun _ => [], now⟩, []⟩
  | step {d : Requests} {a : RequestAction} (h : RequestRun window limit d) (hfits : d.Fits window limit a) :
      RequestRun window limit (d.step window limit a)

/-! ### What is counted -/

/-- The reservations of a request that have not been given back. -/
def Stage.owned : Stage → List (String × ℚ)
  | .reserving taken _ => taken
  | .checking taken => taken
  | .releasing todo _ => todo
  | .answered _ left => left

def ofSubject (subject : String) (reservations : List (String × ℚ)) : List ℚ :=
  (reservations.filter fun r => r.1 = subject).map Prod.snd

def Requests.counted (d : Requests) (subject : String) : List ℚ :=
  d.requests.flatMap fun q => ofSubject subject q.stage.owned

/-- Before it is checked a request has a reservation for each key that it names; answered, it has them still where it was refused
for its keys, and none where it was not. -/
def KeyRequest.Counted (q : KeyRequest) : Prop :=
  match q.stage with
  | .reserving taken todo => taken.map Prod.fst ++ todo = q.subjects
  | .checking taken => taken.map Prod.fst = q.subjects
  | .releasing _ reply => reply ≠ .unauthorized
  | .answered reply left => (reply = .unauthorized → left.map Prod.fst = q.subjects) ∧ (reply ≠ .unauthorized → left = [])

lemma flatMap_set_perm {A B : Type} (f : A → List B) {l : List A} {i : ℕ} {a : A} (h : l[i]? = some a) (b : A) :
    ∃ rest, (l.flatMap f).Perm (f a ++ rest) ∧ ((l.set i b).flatMap f).Perm (f b ++ rest) := by
  induction l generalizing i with
  | nil => cases h
  | cons c l ih =>
    cases i with
    | zero =>
      obtain rfl : c = a := Option.some.inj h
      exact ⟨l.flatMap f, .rfl, .rfl⟩
    | succ i =>
      obtain ⟨rest, hl, hset⟩ := ih h
      refine ⟨f c ++ rest, ?_, ?_⟩
      · exact (hl.append_left _).trans (List.perm_append_comm_assoc ..)
      · exact (hset.append_left _).trans (List.perm_append_comm_assoc ..)

variable {window : ℚ} {limit : ℕ} {d : Requests} {q : KeyRequest} {subject : String} {i : ℕ} {now : ℚ}

lemma ofSubject_append (subject : String) (a b : List (String × ℚ)) :
    ofSubject subject (a ++ b) = ofSubject subject a ++ ofSubject subject b := by
  rw [ofSubject, List.filter_append, List.map_append]
  rfl

lemma ofSubject_cons (subject : String) (r : String × ℚ) (l : List (String × ℚ)) :
    ofSubject subject (r :: l) = (if r.1 = subject then [r.2] else []) ++ ofSubject subject l := by
  by_cases h : r.1 = subject
  · rw [if_pos h, ofSubject, List.filter_cons_of_pos (by simpa using h)]
    rfl
  · rw [if_neg h, ofSubject, List.filter_cons_of_neg (by simpa using h)]
    rfl

/-- What the requests hold, the limiter has granted and not been given back. -/
def Requests.Balanced (d : Requests) : Prop := ∀ subject, (d.limited.held subject).Perm (d.counted subject)

lemma counted_set (hq : d.requests[i]? = some q) (limited : Limited) (q' : KeyRequest) (subject : String) :
    ∃ rest, (d.counted subject).Perm (ofSubject subject q.stage.owned ++ rest) ∧
      ((Requests.mk limited (d.requests.set i q')).counted subject).Perm (ofSubject subject q'.stage.owned ++ rest) :=
  flatMap_set_perm _ hq q'

lemma call_reserve {now' : ℚ} (h : q.call now = some (.reserve now' subject)) :
    now' = now ∧ ∃ taken todo, q.stage = .reserving taken (subject :: todo) := by
  unfold KeyRequest.call at h
  split at h <;> cases h
  exact ⟨rfl, _, _, by assumption⟩

lemma call_release {reservation : ℚ} (h : q.call now = some (.release subject reservation)) :
    ∃ todo reply, q.stage = .releasing ((subject, reservation) :: todo) reply := by
  unfold KeyRequest.call at h
  split at h <;> cases h
  exact ⟨_, _, by assumption⟩

lemma balanced_reserve (hd : d.Balanced) (hq : d.requests[i]? = some q) (hcall : q.call now = some (.reserve now subject)) :
    (⟨d.limited.step window limit (.reserve now subject),
      d.requests.set i (q.next (d.limited.limiter.reserve window now subject limit).2)⟩ : Requests).Balanced := by
  obtain ⟨-, taken, todo, hstage⟩ := call_reserve hcall
  intro s
  generalize hg : (d.limited.limiter.reserve window now subject limit).2 = granted
  obtain ⟨rest, hold, hnew⟩ :=
    counted_set hq (d.limited.step window limit (.reserve now subject)) (q.next granted) s
  have hheld : (d.limited.step window limit (.reserve now subject)).held =
      Function.update d.limited.held subject (d.limited.held subject ++ granted.toList) := by
    rw [← hg, Limited.step]
  rw [hstage] at hold
  have howned : ofSubject s (q.next granted).stage.owned =
      ofSubject s taken ++ if subject = s then granted.toList else [] := by
    rw [KeyRequest.next, hstage]
    cases granted with
    | none => simp [KeyRequest.goto, Stage.owned]
    | some r =>
      change ofSubject s (taken ++ [(subject, r)]) = _
      rw [ofSubject_append, ofSubject_cons]
      simp [ofSubject]
  rw [howned] at hnew
  dsimp only
  rw [hheld]
  by_cases hs : s = subject
  · subst hs
    rw [Function.update_self]
    rw [if_pos rfl] at hnew
    refine ((((hd s).trans hold).append_right _).trans ?_).trans hnew.symm
    change (ofSubject s taken ++ rest ++ granted.toList).Perm (ofSubject s taken ++ granted.toList ++ rest)
    rw [List.append_assoc, List.append_assoc]
    exact List.perm_append_comm.append_left _
  · rw [Function.update_of_ne hs]
    rw [if_neg (Ne.symm hs), List.append_nil] at hnew
    exact ((hd s).trans hold).trans hnew.symm

lemma balanced_release {reservation : ℚ} (hd : d.Balanced) (hq : d.requests[i]? = some q)
    (hcall : q.call now = some (.release subject reservation)) :
    (⟨d.limited.step window limit (.release subject reservation), d.requests.set i (q.next none)⟩ : Requests).Balanced := by
  obtain ⟨todo, reply, hstage⟩ := call_release hcall
  intro s
  obtain ⟨rest, hold, hnew⟩ := counted_set hq (d.limited.step window limit (.release subject reservation)) (q.next none) s
  have howned : ofSubject s (q.next none).stage.owned = ofSubject s todo := by
    rw [KeyRequest.next, hstage]
    rfl
  rw [howned] at hnew
  rw [hstage, Stage.owned, ofSubject_cons] at hold
  change (Function.update d.limited.held subject ((d.limited.held subject).erase reservation) s).Perm _
  by_cases hs : s = subject
  · subst hs
    rw [Function.update_self]
    rw [if_pos rfl] at hold
    have herase := (((hd s).trans hold).erase reservation)
    rw [List.append_assoc, List.singleton_append, List.erase_cons_head] at herase
    exact herase.trans hnew.symm
  · rw [Function.update_of_ne hs]
    rw [if_neg (Ne.symm hs), List.nil_append] at hold
    exact ((hd s).trans hold).trans hnew.symm

lemma balanced_same (hd : d.Balanced) (hq : d.requests[i]? = some q) {q' : KeyRequest}
    (hsame : q'.stage.owned = q.stage.owned) : ({ d with requests := d.requests.set i q' } : Requests).Balanced := by
  intro s
  obtain ⟨rest, hold, hnew⟩ := counted_set hq d.limited q' s
  rw [hsame] at hnew
  exact ((hd s).trans hold).trans hnew.symm

/-! ### A request by itself -/

lemma owned_next (h : q.call now = none) : (q.next none).stage.owned = q.stage.owned := by
  obtain ⟨client, candidates, stage⟩ := q
  match stage, h with
  | .reserving _ [], _ => rfl
  | .releasing [] _, _ => rfl
  | .checking _, _ => rfl
  | .answered _ _, _ => rfl

lemma owned_checked (resolve : String → Except Failure (Option ResolvedKey)) (q : KeyRequest) :
    (q.checked resolve).stage.owned = q.stage.owned := by
  unfold KeyRequest.checked
  split
  · rename_i hstage
    rw [hstage]
    split <;> rfl
  · rfl

lemma counted_arrived (client : String) (candidates : List String) :
    KeyRequest.Counted ⟨client, candidates, .reserving [] (failureSubjects candidates client)⟩ :=
  List.nil_append _

lemma counted_next (h : q.Counted) (g : Option ℚ) : (q.next g).Counted := by
  obtain ⟨client, candidates, stage⟩ := q
  match stage, h with
  | .reserving taken [], h =>
    change taken.map Prod.fst ++ [] = _ at h
    rw [List.append_nil] at h
    exact h
  | .reserving taken (subject :: todo), h =>
    cases g with
    | none => exact fun hr => nomatch hr
    | some r =>
      change (taken ++ [(subject, r)]).map Prod.fst ++ todo = _
      rw [List.map_append, List.append_assoc]
      exact h
  | .releasing [] reply, h => exact ⟨fun hr => absurd hr h, fun _ => rfl⟩
  | .releasing (_ :: _) _, h => exact h
  | .checking _, h => exact h
  | .answered _ _, h => exact h

lemma reply_to_ne (key : ResolvedKey) : Reply.to key ≠ .unauthorized := by
  unfold Reply.to
  split_ifs <;> exact fun h => nomatch h

lemma counted_checked (resolve : String → Except Failure (Option ResolvedKey)) (h : q.Counted) : (q.checked resolve).Counted := by
  obtain ⟨client, candidates, stage⟩ := q
  cases stage with
  | checking taken =>
    rw [KeyRequest.checked]
    dsimp only
    split
    · exact fun hr => nomatch hr
    · exact fun hr => nomatch hr
    · exact ⟨fun _ => h, fun hr => absurd rfl hr⟩
    · exact reply_to_ne _
  | _ => exact h

/-! ### The law -/

lemma RequestRun.limited (h : RequestRun window limit d) : LimiterRun window limit (Spares window limit) d.limited := by
  induction h with
  | start now => exact .start now
  | @step d a _ hfits ih =>
    cases a with
    | arrive client headers =>
      rw [Requests.step]
      split <;> exact ih
    | check i resolve =>
      rw [Requests.step]
      split <;> exact ih
    | proceed i now =>
      rw [Requests.step]
      cases hq : d.requests[i]? with
      | none => exact ih
      | some q =>
        dsimp only
        cases hcall : q.call now with
        | none => exact ih
        | some a => exact ih.step (hfits q a hq hcall).1 (hfits q a hq hcall).2

lemma RequestRun.counted (h : RequestRun window limit d) : ∀ q ∈ d.requests, q.Counted := by
  induction h with
  | start now => exact fun q hq => absurd hq List.not_mem_nil
  | @step d a _ hfits ih =>
    cases a with
    | arrive client headers =>
      rw [Requests.step]
      split
      · exact ih
      · intro q hq
        rcases List.mem_append.mp hq with hq | hq
        · exact ih q hq
        · obtain rfl := List.mem_singleton.mp hq
          exact counted_arrived client _
    | check i resolve =>
      rw [Requests.step]
      cases hq : d.requests[i]? with
      | none => exact ih
      | some q =>
        intro q' hq'
        rcases List.mem_or_eq_of_mem_set hq' with hq' | rfl
        · exact ih q' hq'
        · exact counted_checked resolve (ih q (List.mem_of_getElem? hq))
    | proceed i now =>
      rw [Requests.step]
      cases hq : d.requests[i]? with
      | none => exact ih
      | some q =>
        have hold := ih q (List.mem_of_getElem? hq)
        dsimp only
        cases hcall : q.call now with
        | none =>
          intro q' hq'
          rcases List.mem_or_eq_of_mem_set hq' with hq' | rfl
          · exact ih q' hq'
          · exact counted_next hold none
        | some a =>
          intro q' hq'
          rcases List.mem_or_eq_of_mem_set hq' with hq' | rfl
          · exact ih q' hq'
          · exact counted_next hold _

lemma RequestRun.balanced (h : RequestRun window limit d) : d.Balanced := by
  induction h with
  | start now => exact fun s => .rfl
  | @step d a _ hfits ih =>
    cases a with
    | arrive client headers =>
      rw [Requests.step]
      split
      · exact ih
      · intro s
        have hcounted : ∀ q : KeyRequest, q.stage.owned = [] →
            (Requests.mk d.limited (d.requests ++ [q])).counted s = d.counted s := by
          intro q hq
          rw [Requests.counted, List.flatMap_append, List.flatMap_singleton, hq]
          exact List.append_nil _
        dsimp only
        rw [hcounted _ rfl]
        exact ih s
    | check i resolve =>
      rw [Requests.step]
      cases hq : d.requests[i]? with
      | none => exact ih
      | some q => exact balanced_same ih hq (owned_checked resolve q)
    | proceed i now =>
      rw [Requests.step]
      cases hq : d.requests[i]? with
      | none => exact ih
      | some q =>
        dsimp only
        cases hcall : q.call now with
        | none => exact balanced_same ih hq (owned_next hcall)
        | some a =>
          cases a with
          | reserve now' subject =>
            obtain rfl := (call_reserve hcall).1
            exact balanced_reserve ih hq hcall
          | release subject reservation => exact balanced_release ih hq hcall

lemma bounded_perm {l l' : List ℚ} (h : l.Perm l') (hb : Bounded window limit l) : Bounded window limit l' := fun t => by
  rw [← (h.filter _).length_eq]
  exact hb t

lemma fits_of_room (hroom : d.limited.limiter.requests.length < maxBuckets) (hnow : d.limited.now ≤ now) :
    d.Fits window limit (.proceed i now) := by
  intro q a _ hcall
  cases a with
  | reserve now' subject =>
    obtain rfl := (call_reserve hcall).1
    exact ⟨hnow, fun hfull => absurd (of_decide_eq_true hfull) (not_le.mpr hroom)⟩
  | release subject reservation => exact ⟨trivial, trivial⟩

/-- A request whose one key is wrong. -/
def guessed : Requests :=
  (((Requests.mk ⟨⟨[], none⟩, fun _ => [], 0⟩ []).step 60 2 (.arrive "198.51.100.7" ⟨none, none, some "jlk_guess", none⟩)).step
    60 2 (.proceed 0 1)).step 60 2 (.proceed 0 1) |>.step 60 2 (.check 0 fun _ => .ok none)

lemma guessed_run : RequestRun 60 2 guessed := by
  have hstart : RequestRun 60 2 _ := .start 0
  have harrived := hstart.step (a := .arrive "198.51.100.7" ⟨none, none, some "jlk_guess", none⟩) trivial
  have hreserved := harrived.step (a := .proceed 0 1) (fits_of_room (by decide +kernel) (by decide +kernel))
  have hchecking := hreserved.step (a := .proceed 0 1) (fits_of_room (by decide +kernel) (by decide +kernel))
  exact hchecking.step (a := .check 0 fun _ => .ok none) trivial

lemma grant_eq_some {l : McpRateLimiter} {held : String → List ℚ} (h : Agrees window now l held) (subject : String) :
    (l.grant window now subject limit).2 = some now ↔ (live window now (held subject)).length < limit := by
  rw [McpRateLimiter.grant, trim_eq_live (h.sorted subject), h.live]
  split_ifs with hfull
  · exact ⟨fun hn => absurd hn (by simp), fun hlt => absurd hfull (not_le.mpr hlt)⟩
  · exact ⟨fun _ => not_le.mp hfull, fun _ => rfl⟩

end ContinuityLedger.Access
