import Mathlib.Algebra.Order.Ring.Rat
import ContinuityLedger.Foundations.Delimited
import ContinuityLedger.Foundations.Dict
import ContinuityLedger.Foundations.SlidingWindow

/-! The limiter of failed attempts: a table of queues of instants, one for each subject, that holds a number of queues at most.
While no queue in use is dropped, every window of every subject keeps to the limit; a flood of other subjects makes a reservation
disappear. -/

namespace ContinuityLedger.Access

open Foundations Foundations.SlidingWindow

structure McpRateLimiter where
  requests : Dict String (List ℚ)
  protectAt : Option ℕ

def maxBuckets : ℕ := 10000

namespace McpRateLimiter

/-- `not w or now - w[-1] >= self._window`. -/
def idle (window now : ℚ) (bucket : List ℚ) : Bool := bucket.getLast?.all fun last => window ≤ now - last

def awake (window now : ℚ) (l : McpRateLimiter) : Dict String (List ℚ) := l.requests.filter fun b => !idle window now b.2

def lastTouched (b : String × List ℚ) : ℚ := b.2.getLast?.getD 0

/-- `_evict`. -/
def evict (window now : ℚ) (l : McpRateLimiter) : McpRateLimiter :=
  let kept := awake window now l
  if kept.length < maxBuckets then { l with requests := kept }
  else
    let droppable := kept.filter fun b => l.protectAt.all fun keepAt => b.2.length < keepAt
    let dropped := (droppable.mergeSort fun a b => lastTouched a ≤ lastTouched b).take (maxBuckets / 2)
    { l with requests := kept.filter fun b => b.1 ∉ dropped.map Prod.fst }

def bucket (l : McpRateLimiter) (subject : String) : List ℚ := (l.requests.get subject).getD []

/-- The end of `reserve`, once the table has room for the subject. -/
def grant (window now : ℚ) (subject : String) (limit : ℕ) (l : McpRateLimiter) : McpRateLimiter × Option ℚ :=
  let queue := trim window now (l.bucket subject)
  if limit ≤ queue.length then ({ l with requests := l.requests.set subject queue }, none)
  else ({ l with requests := l.requests.set subject (queue ++ [now]) }, some now)

def full (l : McpRateLimiter) : Bool := maxBuckets ≤ l.requests.length

/-- `reserve`. -/
def reserve (window now : ℚ) (subject : String) (limit : ℕ) (l : McpRateLimiter) : McpRateLimiter × Option ℚ :=
  let l := { l with protectAt := some limit }
  if l.full && !l.requests.has subject then
    let l := l.evict window now
    if l.full then (l, none) else l.grant window now subject limit
  else l.grant window now subject limit

/-- `release`; an instant that is no longer in the queue has aged out of it. -/
def release (subject : String) (reservation : ℚ) (l : McpRateLimiter) : McpRateLimiter :=
  match l.requests.get subject with
  | none => l
  | some queue => if queue = [] then l else { l with requests := l.requests.set subject (queue.erase reservation) }

end McpRateLimiter

/-! ### Runs -/

/-- The limiter, what it has granted and not been given back, and the time of the last call. -/
structure Limited where
  limiter : McpRateLimiter
  held : String → List ℚ
  now : ℚ

inductive Attempt
  | reserve (now : ℚ) (subject : String)
  | release (subject : String) (reservation : ℚ)

def Limited.step (window : ℚ) (limit : ℕ) (st : Limited) : Attempt → Limited
  | .reserve now subject =>
    let (limiter, granted) := st.limiter.reserve window now subject limit
    ⟨limiter, Function.update st.held subject (st.held subject ++ granted.toList), now⟩
  | .release subject reservation =>
    ⟨st.limiter.release subject reservation, Function.update st.held subject ((st.held subject).erase reservation), st.now⟩

/-- Time does not go backwards. -/
def Attempt.Timely (st : Limited) : Attempt → Prop
  | .reserve now _ => st.now ≤ now
  | .release _ _ => True

/-- A run of calls that all meet a condition. -/
inductive LimiterRun (window : ℚ) (limit : ℕ) (ok : Limited → Attempt → Prop) : Limited → Prop
  | start (now : ℚ) : LimiterRun window limit ok ⟨⟨[], none⟩, fun _ => [], now⟩
  | step {st : Limited} {a : Attempt} (h : LimiterRun window limit ok st) (ht : a.Timely st) (hok : ok st a) :
      LimiterRun window limit ok (st.step window limit a)

/-- No window holds more than the limit of what a subject holds, and of what it holds all that has not expired is in the
table, and nothing else is. -/
def Lawful (window : ℚ) (limit : ℕ) (st : Limited) : Prop :=
  ∀ subject, Bounded window limit (st.held subject) ∧
    live window st.now (st.limiter.bucket subject) = live window st.now (st.held subject)

/-- Making room for a new subject drops no queue that is in use. -/
def Spares (window : ℚ) (limit : ℕ) (st : Limited) : Attempt → Prop
  | .reserve now subject => st.limiter.full = true → st.limiter.requests.has subject = false →
      (st.limiter.awake window now).length < maxBuckets ∨ ∀ b ∈ st.limiter.awake window now, limit ≤ b.2.length
  | .release _ _ => True

variable {window : ℚ} {limit : ℕ}

/-! ### The table -/

/-- The table holds what is held and has not expired. -/
structure Agrees (window now : ℚ) (l : McpRateLimiter) (held : String → List ℚ) : Prop where
  keyed : Dict.Keyed l.requests
  sorted : ∀ subject, (l.bucket subject).Pairwise (· ≤ ·)
  past : ∀ subject, ∀ r ∈ l.bucket subject, r ≤ now
  live : ∀ subject, live window now (l.bucket subject) = live window now (held subject)

lemma Agrees.later {now now' : ℚ} {l : McpRateLimiter} {held : String → List ℚ} (h : Agrees window now l held) (hle : now ≤ now') :
    Agrees window now' l held where
  keyed := h.keyed
  sorted := h.sorted
  past subject r hr := (h.past subject r hr).trans hle
  live subject := by rw [← live_live hle, h.live, live_live hle]

lemma bucket_set (l : McpRateLimiter) (subject s : String) (queue : List ℚ) :
    ({ l with requests := l.requests.set subject queue } : McpRateLimiter).bucket s = if subject = s then queue else l.bucket s := by
  rw [McpRateLimiter.bucket, Dict.get_set]
  split_ifs <;> rfl

/-- One queue takes the place of a subject's. -/
lemma Agrees.set {now : ℚ} {l : McpRateLimiter} {held : String → List ℚ} (h : Agrees window now l held) {subject : String}
    {queue instants : List ℚ} (hsorted : queue.Pairwise (· ≤ ·)) (hpast : ∀ r ∈ queue, r ≤ now)
    (hlive : SlidingWindow.live window now queue = SlidingWindow.live window now instants) :
    Agrees window now { l with requests := l.requests.set subject queue } (Function.update held subject instants) where
  keyed := Dict.keyed_set h.keyed _ _
  sorted s := by
    rw [bucket_set]
    split_ifs
    · exact hsorted
    · exact h.sorted s
  past s := by
    rw [bucket_set]
    split_ifs
    · exact hpast
    · exact h.past s
  live s := by
    rw [bucket_set]
    split_ifs with hs
    · rw [← hs, Function.update_self, hlive]
    · rw [Function.update_of_ne (Ne.symm hs), h.live]

lemma Agrees.awake {now : ℚ} {l : McpRateLimiter} {held : String → List ℚ} (h : Agrees window now l held) :
    Agrees window now { l with requests := l.awake window now } held := by
  have hbucket (subject : String) : ({ l with requests := l.awake window now } : McpRateLimiter).bucket subject =
      l.bucket subject ∨ ({ l with requests := l.awake window now } : McpRateLimiter).bucket subject = [] ∧
        SlidingWindow.live window now (l.bucket subject) = [] := by
    rw [McpRateLimiter.bucket, McpRateLimiter.awake, Dict.get_filter h.keyed, McpRateLimiter.bucket]
    cases hget : l.requests.get subject with
    | none => exact Or.inl rfl
    | some queue =>
      by_cases hidle : McpRateLimiter.idle window now queue = true
      · refine Or.inr ⟨by rw [Option.filter_some, hidle]; rfl, ?_⟩
        have hqueue : l.bucket subject = queue := by rw [McpRateLimiter.bucket, hget]; rfl
        refine live_eq_nil (hqueue ▸ h.sorted subject) fun r hr => ?_
        have hlast : queue.getLast? = some r := hqueue ▸ hr
        rw [McpRateLimiter.idle, hlast] at hidle
        exact of_decide_eq_true hidle
      · rw [Bool.not_eq_true] at hidle
        exact Or.inl (by rw [Option.filter_some, hidle]; rfl)
  refine ⟨h.keyed.sublist (List.filter_sublist.map _), fun s => ?_, fun s => ?_, fun s => ?_⟩
  · rcases hbucket s with heq | ⟨hnil, -⟩
    · exact heq ▸ h.sorted s
    · exact hnil ▸ List.Pairwise.nil
  · rcases hbucket s with heq | ⟨hnil, -⟩
    · exact heq ▸ h.past s
    · rw [hnil]
      exact fun r hr => absurd hr List.not_mem_nil
  · rw [← h.live s]
    rcases hbucket s with heq | ⟨hnil, hlive⟩
    · rw [heq]
    · rw [hnil, hlive]
      rfl

/-! ### The calls -/

lemma admit_agrees {now : ℚ} {l : McpRateLimiter} {held : String → List ℚ} (h : Agrees window now l held)
    (hb : ∀ s, Bounded window limit (held s)) (subject : String) :
    Agrees window now (l.grant window now subject limit).1
      (Function.update held subject (held subject ++ (l.grant window now subject limit).2.toList)) ∧
    Bounded window limit (held subject ++ (l.grant window now subject limit).2.toList) := by
  have hqueue : trim window now (l.bucket subject) = live window now (held subject) := by
    rw [trim_eq_live (h.sorted subject), h.live]
  have hsub : (live window now (l.bucket subject)).Sublist (l.bucket subject) := List.filter_sublist
  rw [McpRateLimiter.grant, hqueue]
  rw [← h.live] at hqueue ⊢
  split_ifs with hfull
  · refine ⟨?_, by simpa using hb subject⟩
    rw [Option.toList_none, List.append_nil]
    refine h.set ((h.sorted subject).sublist hsub) (fun r hr => h.past subject r (hsub.subset hr)) ?_
    rw [live_live le_rfl, h.live]
  · refine ⟨h.set ?_ ?_ ?_, (hb subject).push ?_⟩
    · refine List.pairwise_append.mpr ⟨(h.sorted subject).sublist hsub, List.pairwise_singleton _ _, fun a ha b hb => ?_⟩
      rw [List.mem_singleton.mp hb]
      exact h.past subject a (hsub.subset ha)
    · intro r hr
      rcases List.mem_append.mp hr with hr | hr
      · exact h.past subject r (hsub.subset hr)
      · exact (List.mem_singleton.mp hr).le
    · have happend (a b : List ℚ) : live window now (a ++ b) = live window now a ++ live window now b := List.filter_append _ _
      rw [happend, happend, live_live le_rfl, h.live]
      rfl
    · rw [← h.live]
      exact not_le.mp hfull

lemma evict_of_spares {now : ℚ} {l : McpRateLimiter}
    (h : (l.awake window now).length < maxBuckets ∨ ∀ b ∈ l.awake window now, limit ≤ b.2.length) :
    ({ l with protectAt := some limit } : McpRateLimiter).evict window now = ⟨l.awake window now, some limit⟩ := by
  have hawake : ({ l with protectAt := some limit } : McpRateLimiter).awake window now = l.awake window now := rfl
  rw [McpRateLimiter.evict, hawake]
  dsimp only
  rcases h with hlt | hall
  · rw [if_pos hlt]
  · split_ifs
    · rfl
    · have hnone : (l.awake window now).filter (fun b => (some limit).all fun keepAt => b.2.length < keepAt) = [] := by
        refine List.filter_eq_nil_iff.mpr fun b hb hlt => ?_
        exact absurd (of_decide_eq_true hlt) (not_lt.mpr (hall b hb))
      rw [hnone]
      simp

lemma reserve_agrees {st : Limited} {now : ℚ} {subject : String} (h : Agrees window now st.limiter st.held)
    (hb : ∀ s, Bounded window limit (st.held s)) (hok : Spares window limit st (.reserve now subject)) :
    Agrees window now (st.step window limit (.reserve now subject)).limiter (st.step window limit (.reserve now subject)).held ∧
    ∀ s, Bounded window limit ((st.step window limit (.reserve now subject)).held s) := by
  have hupdate {instants : List ℚ} (hi : Bounded window limit instants) :
      ∀ s, Bounded window limit (Function.update st.held subject instants s) := by
    intro s
    by_cases hs : s = subject
    · rw [hs, Function.update_self]
      exact hi
    · rw [Function.update_of_ne hs]
      exact hb s
  have hadmit {l : McpRateLimiter} (hl : Agrees window now l st.held) :=
    (admit_agrees hl hb subject).imp_right hupdate
  have hprotect : Agrees window now { st.limiter with protectAt := some limit } st.held := ⟨h.keyed, h.sorted, h.past, h.live⟩
  simp only [Limited.step, McpRateLimiter.reserve]
  split_ifs with hfull hstill
  · obtain ⟨hfull, hnew⟩ := Bool.and_eq_true_iff.mp hfull
    rw [evict_of_spares (hok hfull (by simpa using hnew))]
    refine ⟨?_, by simpa using hupdate (hb subject)⟩
    have hheld : Function.update st.held subject (st.held subject ++ (none : Option ℚ).toList) = st.held := by simp
    rw [hheld]
    exact hprotect.awake
  · obtain ⟨hfull, hnew⟩ := Bool.and_eq_true_iff.mp hfull
    rw [evict_of_spares (hok hfull (by simpa using hnew))]
    exact hadmit hprotect.awake
  · exact hadmit hprotect

lemma release_agrees {now : ℚ} {l : McpRateLimiter} {held : String → List ℚ} (h : Agrees window now l held) (subject : String)
    (reservation : ℚ) :
    Agrees window now (l.release subject reservation) (Function.update held subject ((held subject).erase reservation)) := by
  have herase : ∀ queue, l.bucket subject = queue →
      live window now (queue.erase reservation) = live window now ((held subject).erase reservation) := by
    rintro queue rfl
    rw [live_erase, live_erase, h.live]
  have hsame (hnil : l.bucket subject = []) : Agrees window now l (Function.update held subject ((held subject).erase reservation)) := by
    refine ⟨h.keyed, h.sorted, h.past, fun s => ?_⟩
    by_cases hs : s = subject
    · rw [hs, Function.update_self, ← herase [] hnil, hnil]
      rfl
    · rw [Function.update_of_ne hs, h.live]
  rw [McpRateLimiter.release]
  cases hget : l.requests.get subject with
  | none => exact hsame (by rw [McpRateLimiter.bucket, hget]; rfl)
  | some queue =>
    have hqueue : l.bucket subject = queue := by rw [McpRateLimiter.bucket, hget]; rfl
    dsimp only
    split_ifs with hnil
    · exact hsame (hqueue.trans hnil)
    · refine h.set ((hqueue ▸ h.sorted subject).sublist List.erase_sublist) (fun r hr => ?_) (herase queue hqueue)
      exact h.past subject r (hqueue ▸ List.mem_of_mem_erase hr)

/-! ### The law -/

lemma run_agrees {st : Limited} (h : LimiterRun window limit (Spares window limit) st) :
    Agrees window st.now st.limiter st.held ∧ ∀ s, Bounded window limit (st.held s) := by
  induction h with
  | start now =>
    exact ⟨⟨List.nodup_nil, fun _ => List.Pairwise.nil, fun _ _ hr => absurd hr List.not_mem_nil, fun _ => rfl⟩,
      fun _ => bounded_nil _ _⟩
  | @step st a _ ht hok ih =>
    obtain ⟨hagrees, hb⟩ := ih
    cases a with
    | reserve now subject => exact reserve_agrees (hagrees.later ht) hb hok
    | release subject reservation =>
      refine ⟨release_agrees hagrees subject reservation, fun s => ?_⟩
      simp only [Limited.step]
      by_cases hs : s = subject
      · rw [hs, Function.update_self]
        exact (hb subject).sublist List.erase_sublist
      · rw [Function.update_of_ne hs]
        exact hb s

/-- In every run in which making room drops no queue that is in use, every state keeps the law. -/
theorem window_law {st : Limited} (h : LimiterRun window limit (Spares window limit) st) : Lawful window limit st := by
  obtain ⟨hagrees, hb⟩ := run_agrees h
  exact fun subject => ⟨hb subject, hagrees.live subject⟩

/-- Two attempts, of which one is given back. -/
theorem window_law_attempts : Lawful 60 2 (((Limited.mk ⟨[], none⟩ (fun _ => []) 0).step 60 2 (.reserve 0 "keyfail:-")).step 60 2
    (.reserve 1 "keyfail:-") |>.step 60 2 (.release "keyfail:-" 0)) := by
  have hspares (st : Limited) (now : ℚ) (h : st.limiter.requests.length < maxBuckets) :
      Spares 60 2 st (.reserve now "keyfail:-") := by
    intro hfull
    exact absurd (of_decide_eq_true hfull) (Nat.not_le.mpr h)
  have hstart : LimiterRun 60 2 (Spares 60 2) ⟨⟨[], none⟩, fun _ => [], 0⟩ := .start 0
  have hfirst := hstart.step (a := .reserve 0 "keyfail:-") (le_refl (0 : ℚ)) (hspares _ _ (by decide))
  have hsecond := hfirst.step (a := .reserve 1 "keyfail:-") (by norm_num [Attempt.Timely, Limited.step])
    (hspares _ _ (by decide))
  exact window_law (hsecond.step (a := .release "keyfail:-" 0) trivial trivial)

/-! ### A flood -/

def attempted (n : ℕ) : String := "keyfail:198.51.100.7:" ++ toString (n : ℤ)

lemma attempted_injective : Function.Injective attempted := by
  intro m n h
  have hcast : (m : ℤ) = n := Delimited.int_text_injective (String.append_right_inj _ |>.mp h)
  exact Int.ofNat.inj hcast

def unlimited : Limited := ⟨⟨[], none⟩, fun _ => [], 0⟩

/-- One attempt for each subject, all at one time, with two attempts a minute. -/
def flooded (subjects : List String) : Limited := subjects.foldl (fun st s => st.step 60 2 (.reserve 0 s)) unlimited

lemma reserve_fresh {st : Limited} {subject : String} (hroom : st.limiter.requests.length < maxBuckets)
    (hfresh : subject ∉ st.limiter.requests.map Prod.fst) :
    st.step 60 2 (.reserve 0 subject) = ⟨⟨st.limiter.requests ++ [(subject, [0])], some 2⟩,
      Function.update st.held subject (st.held subject ++ [0]), 0⟩ := by
  have hfull : (⟨st.limiter.requests, some 2⟩ : McpRateLimiter).full = false := decide_eq_false (Nat.not_le.mpr hroom)
  have hget : st.limiter.requests.get subject = none := by
    rw [← Option.not_isSome_iff_eq_none]
    exact fun hs => hfresh (Dict.has_iff.mp hs)
  have hbucket : (⟨st.limiter.requests, some 2⟩ : McpRateLimiter).bucket subject = [] := by
    rw [McpRateLimiter.bucket, hget]
    rfl
  simp only [Limited.step, McpRateLimiter.reserve, hfull, Bool.false_and, Bool.false_eq_true, if_false, McpRateLimiter.grant,
    hbucket, trim, List.dropWhile_nil, List.length_nil, List.nil_append, Dict.set_of_not_has hfresh]
  rfl

lemma flooded_eq {subjects : List String} (hn : subjects.Nodup) (hlen : subjects.length ≤ maxBuckets) :
    (flooded subjects).limiter.requests = subjects.map (fun s => (s, [0])) ∧
      (∀ s ∈ subjects, (flooded subjects).held s = [0]) ∧ (∀ s ∉ subjects, (flooded subjects).held s = []) ∧
      LimiterRun 60 2 (fun _ _ => True) (flooded subjects) ∧ (flooded subjects).now = 0 := by
  induction subjects using List.reverseRecOn with
  | nil => exact ⟨rfl, by simp, fun _ _ => rfl, .start 0, rfl⟩
  | append_singleton subjects s ih =>
    obtain ⟨hn', -, hfresh⟩ := List.nodup_append.mp hn
    have hs : s ∉ subjects := fun hin => hfresh s hin s (List.mem_singleton_self s) rfl
    rw [List.length_append, List.length_singleton] at hlen
    obtain ⟨hrequests, hheld, hother, hrun, hnow⟩ := ih hn' (Nat.le_of_succ_le hlen)
    have hstep : flooded (subjects ++ [s]) = (flooded subjects).step 60 2 (.reserve 0 s) := List.foldl_append
    have hlater := hrun.step (a := .reserve 0 s) hnow.le trivial
    rw [← hstep] at hlater
    rw [reserve_fresh (by rw [hrequests, List.length_map]; exact hlen) (by rw [hrequests, List.map_map]; simpa using hs)] at hstep
    rw [hstep] at hlater ⊢
    refine ⟨by rw [hrequests, List.map_append]; rfl, fun t ht => ?_, fun t ht => ?_, hlater, rfl⟩
    · rcases List.mem_append.mp ht with ht | ht
      · have hne : t ≠ s := fun h => hs (h ▸ ht)
        exact (Function.update_of_ne hne _ _).trans (hheld t ht)
      · rw [List.mem_singleton.mp ht]
        exact (Function.update_self _ _ _).trans (by rw [hother s hs]; rfl)
    · have hne : t ≠ s := fun h => ht (List.mem_append_right _ (List.mem_singleton.mpr h))
      exact (Function.update_of_ne hne _ _).trans (hother t fun hin => ht (List.mem_append_left _ hin))

/-- With the table full of queues that are all in use and below the limit, the first of them goes. -/
lemma evict_first (subject : String) (subjects : List String) :
    ((⟨(subject :: subjects).map (fun s => (s, [0])), some 2⟩ : McpRateLimiter).evict 60 0).bucket subject = [] ∨
      (subject :: subjects).length < maxBuckets := by
  have hawake : (⟨(subject :: subjects).map (fun s => (s, [0])), some 2⟩ : McpRateLimiter).awake 60 0 =
      (subject :: subjects).map fun s => (s, [0]) := by
    have hused : McpRateLimiter.idle 60 0 [0] = false := by norm_num [McpRateLimiter.idle]
    refine List.filter_eq_self.mpr fun b hb => ?_
    obtain ⟨s, -, rfl⟩ := List.mem_map.mp hb
    exact congrArg not hused
  by_cases hfull : (subject :: subjects).length < maxBuckets
  · exact Or.inr hfull
  · refine Or.inl ?_
    rw [McpRateLimiter.evict, hawake, List.length_map, if_neg hfull]
    have hdroppable : ((subject :: subjects).map fun s => (s, ([0] : List ℚ))).filter
        (fun b => (some 2).all fun keepAt => b.2.length < keepAt) = (subject :: subjects).map fun s => (s, [0]) := by
      refine List.filter_eq_self.mpr fun b hb => ?_
      obtain ⟨s, -, rfl⟩ := List.mem_map.mp hb
      rfl
    have hsorted : ((subject :: subjects).map fun s => (s, ([0] : List ℚ))).mergeSort
        (fun a b => McpRateLimiter.lastTouched a ≤ McpRateLimiter.lastTouched b) =
        (subject :: subjects).map fun s => (s, [0]) := by
      refine List.mergeSort_of_pairwise (List.pairwise_map.mpr (List.pairwise_iff_forall_sublist.mpr fun {a b} _ => ?_))
      exact decide_eq_true (le_refl (0 : ℚ))
    rw [McpRateLimiter.bucket]
    dsimp only
    rw [hdroppable, hsorted]
    have hgone : Dict.get (((subject :: subjects).map fun s => (s, ([0] : List ℚ))).filter fun b =>
        b.1 ∉ ((((subject :: subjects).map fun s => (s, ([0] : List ℚ))).take (maxBuckets / 2)).map Prod.fst)) subject = none := by
      rw [← Option.not_isSome_iff_eq_none]
      intro hs
      obtain ⟨b, hb, hkey⟩ := List.mem_map.mp (Dict.has_iff.mp hs)
      exact of_decide_eq_true (List.mem_filter.mp hb).2 (by rw [hkey, List.map_cons]; exact List.mem_cons_self)
    rw [hgone]
    rfl

/-- Ten thousand attempts of other subjects make an attempt disappear that has not expired. -/
theorem flood_forgets : ¬ ∀ (window : ℚ) (limit : ℕ) (st : Limited), LimiterRun window limit (fun _ _ => True) st →
    Lawful window limit st := by
  intro h
  obtain ⟨subjects, hsubjects⟩ : ∃ subjects, subjects = (List.range 9999).map fun n => attempted (n + 1) := ⟨_, rfl⟩
  have hmem {s : String} (hs : s ∈ attempted 0 :: subjects) : ∃ n < maxBuckets, s = attempted n := by
    rcases List.mem_cons.mp hs with rfl | hs
    · exact ⟨0, by decide, rfl⟩
    · obtain ⟨n, hn, rfl⟩ := List.mem_map.mp (hsubjects ▸ hs)
      exact ⟨n + 1, Nat.succ_lt_succ (List.mem_range.mp hn), rfl⟩
  have hn : (attempted 0 :: subjects).Nodup := by
    rw [List.nodup_cons, hsubjects]
    refine ⟨fun hin => ?_, List.nodup_range.map fun a b hab => Nat.succ.inj (attempted_injective hab)⟩
    obtain ⟨n, -, heq⟩ := List.mem_map.mp hin
    exact Nat.succ_ne_zero n (attempted_injective heq)
  have hlen : (attempted 0 :: subjects).length = maxBuckets := by
    rw [List.length_cons, hsubjects, List.length_map, List.length_range]
    rfl
  obtain ⟨hrequests, hheld, -, hrun, hnow⟩ := flooded_eq hn hlen.le
  have hnew : attempted maxBuckets ∉ attempted 0 :: subjects := by
    intro hin
    obtain ⟨n, hlt, heq⟩ := hmem hin
    exact hlt.ne (attempted_injective heq).symm
  have hfull : (⟨(flooded (attempted 0 :: subjects)).limiter.requests, some 2⟩ : McpRateLimiter).full = true := by
    rw [McpRateLimiter.full, hrequests, List.length_map, hlen]
    exact decide_eq_true (le_refl _)
  have hhas : (flooded (attempted 0 :: subjects)).limiter.requests.has (attempted maxBuckets) = false := by
    rw [Bool.eq_false_iff]
    intro hs
    have hin := Dict.has_iff.mp hs
    rw [hrequests, List.map_map] at hin
    exact hnew (by simpa using hin)
  have hlater := h 60 2 _ (hrun.step (a := .reserve 0 (attempted maxBuckets)) hnow.le trivial)
  have hlive := (hlater (attempted 0)).2
  have hne : attempted 0 ≠ attempted maxBuckets := fun heq => absurd (attempted_injective heq) (by decide)
  have hevicted := (evict_first (attempted 0) subjects).resolve_right (by rw [hlen]; exact lt_irrefl _)
  simp only [Limited.step, McpRateLimiter.reserve, hfull, hhas, Bool.not_false, Bool.and_self, if_true, Function.update_of_ne hne,
    hheld _ List.mem_cons_self] at hlive
  rw [hrequests] at hlive
  have hforgotten : ((if (McpRateLimiter.evict 60 0 ⟨(attempted 0 :: subjects).map fun s => (s, [0]), some 2⟩).full = true then
      (McpRateLimiter.evict 60 0 ⟨(attempted 0 :: subjects).map fun s => (s, [0]), some 2⟩, (none : Option ℚ))
      else McpRateLimiter.grant 60 0 (attempted maxBuckets) 2
        (McpRateLimiter.evict 60 0 ⟨(attempted 0 :: subjects).map fun s => (s, [0]), some 2⟩)).1).bucket (attempted 0) = [] := by
    split_ifs
    · exact hevicted
    · rw [McpRateLimiter.grant]
      split_ifs
      · rw [bucket_set, if_neg (Ne.symm hne), hevicted]
      · rw [bucket_set, if_neg (Ne.symm hne), hevicted]
  rw [hforgotten] at hlive
  exact absurd hlive (by simp [live])

end ContinuityLedger.Access
