import Mathlib.Algebra.BigOperators.Fin
import ContinuityLedger.CallLog.Accounted

/-! Several processes that log to one directory: what each does under the locks is one step, and what it does behind an append that
failed is another. In every order of the steps each call stands in the books once, and the reads of one tenant over one transport are
counted by themselves. -/

namespace ContinuityLedger.CallLog

open Foundations Foundations.Calendar Conserved

/-! ### Steps -/

/-- Whether the locks are had, and what the clock and the disk do under them. -/
structure Weather where
  opens : Bool
  clock : ℕ → Instant
  landings : ℕ → Landing
  unlinks : Bool
  writable : Bool

/-- What a thread has yet to hand to `_mark_degraded`. -/
structure Owed (ι : Type) where
  process : ι
  unlogged : ℕ
  refused : ℕ

/-- What has become of the calls and the writes, and which summaries a process has closed for want of a log. -/
inductive Told
  | call (c : Call) (d : Disposal)
  | unlogged (c : Call)
  | raised (c : Call)
  | refused
  | closed (p : Process)

/-- The directory and the processes; of those that have ended, what was in their memory and what their threads still owed. -/
structure Books (ι : Type) where
  shared : Shared
  processes : ι → Process
  owed : List (Owed ι)
  told : List Told
  ended : List (Process × List (Owed ι))

inductive Action (ι : Type)
  | record (i : ι) (c : Call) (w : Weather)
  | preflight (i : ι) (w : Weather)
  | flush (i : ι) (w : Weather)
  | mark (n : ℕ) (persists : Bool) (now : Instant)
  | close (i : ι) (persists : Bool) (now : Instant)
  | exit (i : ι)

def Process.pending (p : Process) : ℕ := p.suppressed.elim 0 Summary.count + (p.readSuppressed.rows.map fun r => r.2.count).sum

/-- The delta of `_mark_degraded`. -/
def Process.delta (p : Process) (since : String) (unlogged refused : ℕ) : Outage :=
  match p.outage with
  | some o => ⟨o.since, o.unlogged + unlogged, o.refused + refused⟩
  | none => ⟨since, unlogged, refused⟩

namespace Books

variable {ι : Type} [DecidableEq ι]

def start : Books ι := ⟨.start, fun _ => .start, [], [], []⟩

/-- A program under the locks, with what it returns or raises. -/
def act {A : Type} (b : Books ι) (i : ι) (w : Weather) (m : Locked A) : Except Failure A × Books ι :=
  if w.opens then
    match m ⟨b.shared, b.processes i, w.clock, w.landings⟩ with
    | .ok a s => (.ok a, { b with shared := s.shared, processes := Function.update b.processes i s.process })
    | .error r s => (.error r, { b with shared := s.shared, processes := Function.update b.processes i s.process })
  else (.error .unavailable, b)

/-- `_mark_degraded`; the delta stays in memory where the file cannot be written. -/
def markDegraded (b : Books ι) (i : ι) (persists : Bool) (since : String) (unlogged refused : ℕ) : Books ι :=
  let delta := (b.processes i).delta since unlogged refused
  if persists then
    { b with
      shared := { b.shared with degraded := combine b.shared.degraded (some delta) }
      processes := Function.update b.processes i { b.processes i with outage := none } }
  else { b with processes := Function.update b.processes i { b.processes i with outage := some delta } }

/-- Both open summaries are dropped. -/
def drop (b : Books ι) (i : ι) : Books ι :=
  { b with processes := Function.update b.processes i { b.processes i with suppressed := none, readSuppressed := .none } }

def step (rt : Runtime) (cfg : Config) (lim : Limits) (b : Books ι) : Action ι → Books ι
  | .record i c w =>
    match b.act i w (appendHeld rt cfg lim w.unlinks c) with
    | (.ok d, b) => { b with told := b.told ++ [.call c d] }
    | (.error .unavailable, b) => { b with told := b.told ++ [.unlogged c], owed := b.owed ++ [⟨i, 1, 0⟩] }
    | (.error (.other _), b) => { b with told := b.told ++ [.raised c] }
  | .preflight i w =>
    match b.act i w (preflightHeld rt cfg w.writable w.unlinks) with
    | (.error .unavailable, b) => { b with told := b.told ++ [.refused], owed := b.owed ++ [⟨i, 0, 1⟩] }
    | (_, b) => b
  | .flush i w =>
    match b.act i w (flushHeld rt cfg) with
    | (.error .unavailable, b) =>
      if (b.processes i).suppressed.isSome || !(b.processes i).readSuppressed.rows.isEmpty then { b with owed := b.owed ++ [⟨i, 0, 0⟩] }
      else b
    | (_, b) => b
  | .mark n persists now =>
    match b.owed[n]? with
    | none => b
    | some o => { b.markDegraded o.process persists (ts cfg now) o.unlogged o.refused with owed := b.owed.eraseIdx n }
  -- `flush_for_shutdown` behind its `flush`
  | .close i persists now =>
    if (b.processes i).pending = 0 then b
    else
      { ((b.markDegraded i persists (ts cfg now) (b.processes i).pending 0).drop i) with told := b.told ++ [.closed (b.processes i)] }
  | .exit i =>
    { b with
      processes := Function.update b.processes i .start
      owed := b.owed.filter fun o => o.process ≠ i
      ended := b.ended ++ [(b.processes i, b.owed.filter fun o => o.process = i)] }

def run (rt : Runtime) (cfg : Config) (lim : Limits) (actions : List (Action ι)) : Books ι := actions.foldl (step rt cfg lim) start

end Books

/-! ### Weights -/

namespace Weights

variable (w : Weights) {ι : Type}

def owed (o : Owed ι) : ℤ := w.unlogged * o.unlogged + w.refused * o.refused

def owing (os : List (Owed ι)) : ℤ := (os.map w.owed).sum

/-- The summaries that are open. -/
def summaries (p : Process) : ℤ := p.suppressed.elim 0 (fun s => w.denied * s.count) + w.rows p.readSuppressed.rows

/-- What is closed for want of a log is unlogged from there on. -/
def told (lim : Limits) : Told → ℤ
  | .call c d => w.disposed lim c d
  | .unlogged _ => w.unlogged
  | .raised _ => 0
  | .refused => w.refused
  | .closed p => w.unlogged * p.pending - w.summaries p

def books [Fintype ι] (b : Books ι) : ℤ :=
  w.shared b.shared + ∑ i, w.memory (b.processes i) + w.owing b.owed + (b.ended.map fun p => w.memory p.1 + w.owing p.2).sum

end Weights

section

variable {ι : Type} {rt : Runtime} {cfg : Config} {lim : Limits} (w : Weights)

lemma owing_append (os os' : List (Owed ι)) : w.owing (os ++ os') = w.owing os + w.owing os' := by
  rw [Weights.owing, List.map_append, List.sum_append]
  rfl

lemma owing_eraseIdx {os : List (Owed ι)} {n : ℕ} {o : Owed ι} (h : os[n]? = some o) :
    w.owing (os.eraseIdx n) + w.owed o = w.owing os := by
  induction os generalizing n with
  | nil => cases h
  | cons o' os ih =>
    cases n with
    | zero =>
      obtain rfl := Option.some.inj h
      exact (add_comm _ _).trans (by simp [Weights.owing])
    | succ n =>
      have hrest := ih (n := n) h
      simp only [Weights.owing, List.eraseIdx_cons_succ, List.map_cons, List.sum_cons] at hrest ⊢
      omega

lemma owing_filter (os : List (Owed ι)) (p : Owed ι → Bool) :
    w.owing (os.filter fun o => !p o) + w.owing (os.filter p) = w.owing os := by
  induction os with
  | nil => rfl
  | cons o os ih =>
    cases hp : p o <;>
      simp only [Weights.owing, List.filter_cons, hp, Bool.not_true, Bool.not_false, if_true, Bool.false_eq_true, if_false,
        List.map_cons, List.sum_cons] at ih ⊢ <;> omega

lemma outage_delta (p : Process) (since : String) (unlogged refused : ℕ) :
    w.outage (p.delta since unlogged refused) = p.outage.elim 0 w.outage + (w.unlogged * unlogged + w.refused * refused) := by
  rw [Process.delta]
  cases p.outage with
  | none => simp [Weights.outage]
  | some o =>
    simp only [Weights.outage, Option.elim_some]
    push_cast
    ring

variable [DecidableEq ι] [Fintype ι] {b : Books ι}

lemma memory_update (f : ι → Process) (i : ι) (p : Process) :
    ∑ j, w.memory (Function.update f i p j) + w.memory (f i) = ∑ j, w.memory (f j) + w.memory p := by
  have hothers : ∑ j ∈ Finset.univ.erase i, w.memory (Function.update f i p j) = ∑ j ∈ Finset.univ.erase i, w.memory (f j) :=
    Finset.sum_congr rfl fun j hj => by rw [Function.update_of_ne (Finset.ne_of_mem_erase hj)]
  rw [← Finset.add_sum_erase _ _ (Finset.mem_univ i), ← Finset.add_sum_erase _ (fun j => w.memory (f j)) (Finset.mem_univ i),
    Function.update_self, hothers]
  omega

/-- What a program under the locks adds, it adds to the books. -/
lemma books_act {A : Type} {d : A → ℤ} {m : Locked A} (hm : Adds w.holding d m) (b : Books ι) (i : ι) (v : Weather) :
    w.books (b.act i v m).2 = w.books b + (b.act i v m).1.toOption.elim 0 d := by
  rw [Books.act]
  split_ifs with hopens
  · have hadds := hm ⟨b.shared, b.processes i, v.clock, v.landings⟩
    rw [AddsAt] at hadds
    split <;> rename_i s hrun <;> rw [hrun] at hadds
    all_goals
      have hmemory := memory_update w b.processes i s.process
      simp only [Weights.books, Weights.holding, Except.toOption, Option.elim_some, Option.elim_none] at hadds ⊢
      omega
  · exact (add_zero _).symm

omit [Fintype ι] in
lemma told_act {A : Type} (m : Locked A) (b : Books ι) (i : ι) (v : Weather) : (b.act i v m).2.told = b.told := by
  rw [Books.act]
  split_ifs
  · split <;> rfl
  · rfl

lemma books_markDegraded (b : Books ι) (i : ι) (persists : Bool) (since : String) (unlogged refused : ℕ) :
    w.books (b.markDegraded i persists since unlogged refused) = w.books b + (w.unlogged * unlogged + w.refused * refused) := by
  have hdelta := outage_delta w (b.processes i) since unlogged refused
  rw [Books.markDegraded]
  split_ifs with hpersists
  · have hmemory := memory_update w b.processes i { b.processes i with outage := none }
    have hcombine := w.outage_combine b.shared.degraded (some ((b.processes i).delta since unlogged refused))
    simp only [Option.elim_some] at hcombine
    simp only [Weights.books, Weights.shared, Weights.memory, Option.elim_none, hcombine] at hmemory ⊢
    omega
  · have hmemory := memory_update w b.processes i { b.processes i with outage := some ((b.processes i).delta since unlogged refused) }
    simp only [Weights.books, Weights.memory, Option.elim_some] at hmemory ⊢
    omega

omit [Fintype ι] in
lemma markDegraded_frame (b : Books ι) (i : ι) (persists : Bool) (since : String) (unlogged refused : ℕ) :
    (b.markDegraded i persists since unlogged refused).told = b.told ∧ (b.markDegraded i persists since unlogged refused).owed = b.owed ∧
      w.summaries ((b.markDegraded i persists since unlogged refused).processes i) = w.summaries (b.processes i) := by
  rw [Books.markDegraded]
  split_ifs <;> refine ⟨rfl, rfl, ?_⟩ <;> simp only [Function.update_self, Weights.summaries]

lemma books_drop (b : Books ι) (i : ι) : w.books (b.drop i) = w.books b - w.summaries (b.processes i) := by
  have hmemory := memory_update w b.processes i { b.processes i with suppressed := none, readSuppressed := .none }
  simp only [Books.drop, Weights.books, Weights.memory, Weights.summaries, Option.elim_none] at hmemory ⊢
  have hnone : w.rows OpenReads.none.rows = 0 := rfl
  rw [hnone] at hmemory
  omega

omit [DecidableEq ι] in
lemma books_owing (b : Books ι) (told : List Told) (o : Owed ι) :
    w.books { b with told := told, owed := b.owed ++ [o] } = w.books b + w.owed o := by
  have hone : w.owing [o] = w.owed o := add_zero _
  have howing := owing_append w b.owed [o]
  simp only [Weights.books, howing, hone]
  omega

omit [DecidableEq ι] in
lemma books_told (b : Books ι) (told : List Told) : w.books { b with told := told } = w.books b := rfl

variable (rt cfg lim) in
/-- What a step adds to the books is what it tells. -/
lemma books_step (b : Books ι) (a : Action ι) :
    ∃ told, (b.step rt cfg lim a).told = b.told ++ told ∧ w.books (b.step rt cfg lim a) = w.books b + (told.map (w.told lim)).sum := by
  cases a with
  | record i c v =>
    have hact := books_act w (adds_appendHeld w v.unlinks c : Adds w.holding (w.disposed lim c) (appendHeld rt cfg lim v.unlinks c)) b i v
    have htold := told_act (appendHeld rt cfg lim v.unlinks c) b i v
    rw [Books.step]
    split <;> rename_i hrun <;> rw [hrun] at hact htold <;>
      simp only [Except.toOption, Option.elim_some, Option.elim_none] at hact htold
    · refine ⟨[.call c _], by rw [htold], ?_⟩
      rw [books_told, hact]
      simp [Weights.told]
    · refine ⟨[.unlogged c], by rw [htold], ?_⟩
      rw [books_owing, hact]
      simp [Weights.told, Weights.owed]
    · refine ⟨[.raised c], by rw [htold], ?_⟩
      rw [books_told, hact]
      simp [Weights.told]
  | preflight i v =>
    have hact := books_act w (keeps_preflightHeld w v.writable v.unlinks : Keeps w.holding (preflightHeld rt cfg v.writable v.unlinks)) b i v
    have htold := told_act (preflightHeld rt cfg v.writable v.unlinks) b i v
    have hzero : (b.act i v (preflightHeld rt cfg v.writable v.unlinks)).1.toOption.elim 0 (fun _ => (0 : ℤ)) = 0 := by
      cases (b.act i v (preflightHeld rt cfg v.writable v.unlinks)).1.toOption <;> rfl
    rw [hzero, add_zero] at hact
    rw [Books.step]
    split <;> rename_i hrun <;> rw [hrun] at hact htold <;> dsimp only at hact htold
    · refine ⟨[.refused], by rw [htold], ?_⟩
      rw [books_owing, hact]
      simp [Weights.told, Weights.owed]
    · exact ⟨[], by rw [htold, List.append_nil], by rw [hact]; simp⟩
  | flush i v =>
    have hact := books_act w (keeps_flushHeld w : Keeps w.holding (flushHeld rt cfg)) b i v
    have htold := told_act (flushHeld rt cfg) b i v
    have hzero : (b.act i v (flushHeld rt cfg)).1.toOption.elim 0 (fun _ => (0 : ℤ)) = 0 := by
      cases (b.act i v (flushHeld rt cfg)).1.toOption <;> rfl
    rw [hzero, add_zero] at hact
    rw [Books.step]
    split <;> rename_i hrun <;> rw [hrun] at hact htold <;> dsimp only at hact htold
    · split_ifs with hopen
      · refine ⟨[], by rw [htold, List.append_nil], ?_⟩
        rw [books_owing, hact]
        simp [Weights.owed]
      · exact ⟨[], by rw [htold, List.append_nil], by rw [hact]; simp⟩
    · exact ⟨[], by rw [htold, List.append_nil], by rw [hact]; simp⟩
  | mark n persists now =>
    rw [Books.step]
    split <;> rename_i howed
    · exact ⟨[], (List.append_nil _).symm, by simp⟩
    · rename_i o
      obtain ⟨htold, howed', -⟩ := markDegraded_frame w b o.process persists (ts cfg now) o.unlogged o.refused
      refine ⟨[], by rw [htold, List.append_nil], ?_⟩
      have hmark := books_markDegraded w b o.process persists (ts cfg now) o.unlogged o.refused
      have herase := owing_eraseIdx w howed
      simp only [Weights.books, howed', Weights.owed] at hmark herase ⊢
      simp only [List.map_nil, List.sum_nil, add_zero]
      omega
  | close i persists now =>
    rw [Books.step]
    split_ifs with hpending
    · exact ⟨[], (List.append_nil _).symm, by simp⟩
    · obtain ⟨-, -, hsummaries⟩ := markDegraded_frame w b i persists (ts cfg now) (b.processes i).pending 0
      refine ⟨[.closed (b.processes i)], rfl, ?_⟩
      rw [books_told, books_drop, books_markDegraded, hsummaries]
      simp only [Weights.told, List.map_singleton, List.sum_singleton]
      push_cast
      ring
  | exit i =>
    have hmemory := memory_update w b.processes i .start
    have howing := owing_filter w b.owed fun o => o.process = i
    have hothers : (fun o : Owed ι => decide (o.process ≠ i)) = fun o => !decide (o.process = i) := funext fun o => decide_not
    have hstart : w.memory .start = 0 := rfl
    refine ⟨[], (List.append_nil _).symm, ?_⟩
    rw [Books.step]
    simp only [Weights.books, hothers, List.map_append, List.sum_append, List.map_singleton, List.sum_singleton, List.map_nil,
      List.sum_nil]
    rw [hstart] at hmemory
    omega

/-- In every order of the steps the books come to what has been told. -/
lemma books_run (actions : List (Action ι)) :
    w.books (Books.run rt cfg lim actions) = ((Books.run rt cfg lim actions).told.map (w.told lim)).sum := by
  induction actions using List.reverseRecOn with
  | nil =>
    have hstart : w.memory .start = 0 := rfl
    simp [Books.run, Books.start, Weights.books, Weights.shared, Shared.start, Weights.owing, hstart]
  | append_singleton actions a ih =>
    obtain ⟨told, htold, hstep⟩ := books_step rt cfg lim w (Books.run rt cfg lim actions) a
    have hrun : Books.run rt cfg lim (actions ++ [a]) = (Books.run rt cfg lim actions).step rt cfg lim a := by
      rw [Books.run, List.foldl_append]
      rfl
    rw [hrun, htold, hstep, ih, List.map_append, List.sum_append]

end

/-! ### Tallies -/

/-- A count of entries, outages, open summaries and of what has been told, from which a closed summary may take something away. -/
structure Tally (lim : Limits) where
  weights : Weights
  entry : Entered → ℕ
  outage : Outage → ℕ
  summaries : Process → ℕ
  told : Told → ℕ
  closed : Told → ℕ
  entry_eq : ∀ e, weights.entered e = entry e
  outage_eq : ∀ o, weights.outage o = outage o
  summaries_eq : ∀ p, weights.summaries p = summaries p
  told_eq : ∀ t, weights.told lim t = told t - closed t

lemma sum_casts {A : Type} {f : A → ℕ} {g : A → ℤ} (h : ∀ a, g a = f a) (l : List A) : (l.map g).sum = ((l.map f).sum : ℕ) := by
  induction l with
  | nil => rfl
  | cons a l ih => rw [List.map_cons, List.map_cons, List.sum_cons, List.sum_cons, h, ih, Nat.cast_add]

lemma elim_cast {A : Type} {f : A → ℕ} {g : A → ℤ} (h : ∀ a, g a = f a) (o : Option A) : o.elim 0 g = (o.elim 0 f : ℕ) := by
  cases o with
  | none => rfl
  | some a => exact h a

namespace Tally

variable {ι : Type} {lim : Limits} (T : Tally lim)

def memory (p : Process) : ℕ := p.outage.elim 0 T.outage + T.summaries p

def owing (os : List (Owed ι)) : ℕ := (os.map fun o => T.outage ⟨"", o.unlogged, o.refused⟩).sum

/-- What is in the log, in the DEGRADED file, in the memory of the processes and in the hands of their threads. -/
def books [Fintype ι] (b : Books ι) : ℕ :=
  (b.shared.entered.map T.entry).sum + b.shared.degraded.elim 0 T.outage + ∑ i, T.memory (b.processes i) + T.owing b.owed +
    (b.ended.map fun p => T.memory p.1 + T.owing p.2).sum

lemma memory_eq (p : Process) : T.weights.memory p = T.memory p := by
  have houtage := elim_cast T.outage_eq p.outage
  have hsummaries := T.summaries_eq p
  rw [Weights.summaries] at hsummaries
  rw [Weights.memory, memory, Nat.cast_add]
  omega

lemma owing_eq (os : List (Owed ι)) : T.weights.owing os = T.owing os := by
  have howed (o : Owed ι) : T.weights.owed o = T.outage ⟨"", o.unlogged, o.refused⟩ := T.outage_eq ⟨"", o.unlogged, o.refused⟩
  exact sum_casts howed os

lemma books_eq [Fintype ι] (b : Books ι) : T.weights.books b + (b.shared.unsynced.map T.entry).sum + (b.shared.kept.map T.outage).sum =
    T.books b := by
  have hended (p : Process × List (Owed ι)) : T.weights.memory p.1 + T.weights.owing p.2 = (T.memory p.1 + T.owing p.2 : ℕ) := by
    rw [memory_eq, owing_eq, Nat.cast_add]
  have hprocesses : ∑ i, T.weights.memory (b.processes i) = (∑ i, T.memory (b.processes i) : ℕ) := by
    rw [Nat.cast_sum]
    exact Finset.sum_congr rfl fun i _ => T.memory_eq _
  rw [Weights.books, Weights.shared, sum_casts T.entry_eq, sum_casts T.outage_eq, sum_casts T.entry_eq, elim_cast T.outage_eq,
    sum_casts hended, hprocesses, owing_eq, books]
  omega

lemma told_sum (ts : List Told) : (ts.map (T.weights.told lim)).sum + (ts.map T.closed).sum = ((ts.map T.told).sum : ℕ) := by
  induction ts with
  | nil => rfl
  | cons t ts ih =>
    have ht := T.told_eq t
    simp only [List.map_cons, List.sum_cons]
    omega

/-- In every order of the steps the books come to what has been told, and to what was written behind a failure a second time. -/
lemma run [DecidableEq ι] [Fintype ι] (rt : Runtime) (cfg : Config) (actions : List (Action ι)) {b : Books ι}
    (hb : Books.run rt cfg lim actions = b) : T.books b + (b.told.map T.closed).sum =
      (b.told.map T.told).sum + (b.shared.unsynced.map T.entry).sum + (b.shared.kept.map T.outage).sum := by
  have hrun : T.weights.books b = (b.told.map (T.weights.told lim)).sum := by
    rw [← hb]
    exact books_run T.weights actions
  have hbooks := T.books_eq b
  have htold := T.told_sum b.told
  omega

/-- Outages and what they become are not counted. -/
lemma run_summaries [DecidableEq ι] [Fintype ι] (rt : Runtime) (cfg : Config) (actions : List (Action ι)) {b : Books ι}
    (hb : Books.run rt cfg lim actions = b) (houtage : T.outage = fun _ => 0) :
    (b.shared.entered.map T.entry).sum + ∑ i, T.summaries (b.processes i) + (b.ended.map fun p => T.summaries p.1).sum +
      (b.told.map T.closed).sum = (b.told.map T.told).sum + (b.shared.unsynced.map T.entry).sum := by
  have hnone (o : Option Outage) : o.elim 0 T.outage = 0 := by
    rw [houtage]
    cases o <;> rfl
  have howing (os : List (Owed ι)) : T.owing os = 0 := by
    rw [owing, houtage]
    exact List.sum_map_zero
  have hkept : (b.shared.kept.map T.outage).sum = 0 := by
    rw [houtage]
    exact List.sum_map_zero
  have hrun := T.run rt cfg actions hb
  simp only [books, memory, hnone, howing, hkept, zero_add, add_zero] at hrun
  omega

end Tally

/-! ### Calls and refused writes -/

/-- How many calls an entry stands for. -/
def Entered.calls : Entered → ℕ
  | .call _ => 1
  | .gap state _ => state.unlogged
  | .denied s => s.count
  | .reads _ s => s.count

/-- How many refused writes an entry stands for. -/
def Entered.refusals : Entered → ℕ
  | .gap state _ => state.refused
  | _ => 0

def Told.isCall : Told → Bool
  | .call _ _ | .unlogged _ => true
  | _ => false

def Told.isRefusal : Told → Bool
  | .refused => true
  | _ => false

lemma countP_sum {A : Type} (p : A → Bool) (l : List A) : (l.map fun a => (p a).toNat).sum = l.countP p := by
  induction l with
  | nil => rfl
  | cons a l ih =>
    rw [List.map_cons, List.sum_cons, ih, List.countP_cons, add_comm]
    cases p a <;> rfl

namespace Weights

/-- Summaries of natural weights. -/
lemma summaries_cast (w : Weights) {d : ℕ} {r : ReadKey → ℕ} (hd : w.denied = d) (hr : ∀ key, w.read key = r key) (p : Process) :
    w.summaries p = (p.suppressed.elim 0 (fun s => d * s.count) + (p.readSuppressed.rows.map fun q => r q.1 * q.2.count).sum : ℕ) := by
  have hdenied (s : Summary) : w.denied * s.count = (d * s.count : ℕ) := by rw [hd, Nat.cast_mul]
  have hread (q : ReadKey × Summary) : w.read q.1 * q.2.count = (r q.1 * q.2.count : ℕ) := by rw [hr, Nat.cast_mul]
  rw [summaries, elim_cast hdenied, rows, sum_casts hread, Nat.cast_add]

end Weights

def callWeights : Weights := ⟨fun _ => 1, 1, 0, 1, fun _ => 1⟩

lemma callWeights_summaries (p : Process) : callWeights.summaries p = p.pending := by
  have h := callWeights.summaries_cast (d := 1) (r := fun _ => 1) rfl (fun _ => rfl) p
  simp only [one_mul] at h
  exact h

def callTally (lim : Limits) : Tally lim where
  weights := callWeights
  entry := Entered.calls
  outage := Outage.unlogged
  summaries := Process.pending
  told t := t.isCall.toNat
  closed _ := 0
  entry_eq e := by cases e <;> simp [Weights.entered, Weights.outage, Entered.calls, callWeights]
  outage_eq o := by simp [Weights.outage, callWeights]
  summaries_eq := callWeights_summaries
  told_eq t := by
    cases t with
    | call c d => cases d <;> simp [Weights.told, Weights.disposed, Told.isCall, callWeights]
    | closed p =>
      rw [Weights.told, callWeights_summaries]
      simp [Told.isCall, callWeights]
    | _ => simp [Weights.told, Told.isCall, callWeights]

def refusalWeights : Weights := ⟨fun _ => 0, 0, 1, 0, fun _ => 0⟩

lemma refusalWeights_summaries (p : Process) : refusalWeights.summaries p = 0 := by
  have h := refusalWeights.summaries_cast (d := 0) (r := fun _ => 0) rfl (fun _ => rfl) p
  cases hs : p.suppressed <;> simpa [hs] using h

def refusalTally (lim : Limits) : Tally lim where
  weights := refusalWeights
  entry := Entered.refusals
  outage := Outage.refused
  summaries _ := 0
  told t := t.isRefusal.toNat
  closed _ := 0
  entry_eq e := by cases e <;> simp [Weights.entered, Weights.outage, Entered.refusals, refusalWeights]
  outage_eq o := by simp [Weights.outage, refusalWeights]
  summaries_eq := refusalWeights_summaries
  told_eq t := by
    cases t with
    | call c d => cases d <;> simp [Weights.told, Weights.disposed, Told.isRefusal, refusalWeights]
    | closed p =>
      rw [Weights.told, refusalWeights_summaries]
      simp [Told.isRefusal, refusalWeights]
    | _ => simp [Weights.told, Told.isRefusal, refusalWeights]

/-! ### Entries of one kind -/

/-- An entry that is such a call by itself. -/
def Entered.isCall (P : Call → Bool) : Entered → Bool
  | .call c => P c
  | _ => false

/-- `append` has returned the entry of such a call. -/
def Told.isEntry (P : Call → Bool) : Told → Bool
  | .call c .entered => P c
  | _ => false

def entryWeights (P : Call → Bool) : Weights := ⟨fun c => (P c).toNat, 0, 0, 0, fun _ => 0⟩

lemma entryWeights_summaries (P : Call → Bool) (p : Process) : (entryWeights P).summaries p = 0 := by
  have h := (entryWeights P).summaries_cast (d := 0) (r := fun _ => 0) rfl (fun _ => rfl) p
  cases hs : p.suppressed <;> simpa [hs] using h

def entryTally (lim : Limits) (P : Call → Bool) : Tally lim where
  weights := entryWeights P
  entry e := (e.isCall P).toNat
  outage _ := 0
  summaries _ := 0
  told t := (t.isEntry P).toNat
  closed _ := 0
  entry_eq e := by cases e <;> simp [Weights.entered, Weights.outage, Entered.isCall, entryWeights]
  outage_eq o := by simp [Weights.outage, entryWeights]
  summaries_eq := entryWeights_summaries P
  told_eq t := by
    cases t with
    | call c d => cases d <;> simp [Weights.told, Weights.disposed, Told.isEntry, entryWeights]
    | closed p =>
      rw [Weights.told, entryWeights_summaries]
      simp [Told.isEntry, entryWeights]
    | _ => simp [Weights.told, Told.isEntry, entryWeights]

/-- How many denied calls an entry stands for that are not in the log by themselves. -/
def Entered.deniedCalls : Entered → ℕ
  | .denied s => s.count
  | _ => 0

def Process.openDenied (p : Process) : ℕ := p.suppressed.elim 0 Summary.count

def Told.isRolledDenied : Told → Bool
  | .call c .suppressed => c.isDenied
  | _ => false

def Told.closedDenied : Told → ℕ
  | .closed p => p.openDenied
  | _ => 0

def deniedWeights : Weights := ⟨fun _ => 0, 0, 0, 1, fun _ => 0⟩

lemma deniedWeights_summaries (p : Process) : deniedWeights.summaries p = p.openDenied := by
  have h := deniedWeights.summaries_cast (d := 1) (r := fun _ => 0) rfl (fun _ => rfl) p
  rw [Process.openDenied]
  cases hs : p.suppressed <;> simpa [hs] using h

def deniedTally (lim : Limits) : Tally lim where
  weights := deniedWeights
  entry := Entered.deniedCalls
  outage _ := 0
  summaries := Process.openDenied
  told t := t.isRolledDenied.toNat
  closed := Told.closedDenied
  entry_eq e := by cases e <;> simp [Weights.entered, Weights.outage, Entered.deniedCalls, deniedWeights]
  outage_eq o := by simp [Weights.outage, deniedWeights]
  summaries_eq := deniedWeights_summaries
  told_eq t := by
    cases t with
    | call c d =>
      cases d with
      | entered => simp [Weights.told, Weights.disposed, Told.isRolledDenied, Told.closedDenied, deniedWeights]
      | suppressed =>
        cases hc : c.isDenied <;> simp [Weights.told, Weights.disposed, Told.isRolledDenied, Told.closedDenied, deniedWeights, hc]
    | closed p =>
      rw [Weights.told, deniedWeights_summaries]
      simp [Told.isRolledDenied, Told.closedDenied, deniedWeights]
    | _ => simp [Weights.told, Told.isRolledDenied, Told.closedDenied, deniedWeights]

/-- How many reads with such a tenant and transport an entry stands for that are not in the log by themselves. -/
def Entered.readsOf (key : ReadKey) : Entered → ℕ
  | .reads k s => if k = key then s.count else 0
  | _ => 0

def Process.openReads (key : ReadKey) (p : Process) : ℕ := (Dict.get p.readSuppressed.rows key).elim 0 Summary.count

def Told.isRolledRead (lim : Limits) (key : ReadKey) : Told → Bool
  | .call c .suppressed => !c.isDenied && c.readKey lim = key
  | _ => false

def Told.closedReads (key : ReadKey) : Told → ℕ
  | .closed p => p.openReads key
  | _ => 0

def readWeights (key : ReadKey) : Weights := ⟨fun _ => 0, 0, 0, 0, fun k => if k = key then 1 else 0⟩

lemma readWeights_rows (key : ReadKey) {rows : Dict ReadKey Summary} (h : Dict.Keyed rows) :
    (readWeights key).rows rows = ((Dict.get rows key).elim 0 Summary.count : ℕ) := by
  induction rows with
  | nil => rfl
  | cons p rows ih =>
    obtain ⟨hp, hrows⟩ := List.nodup_cons.mp h
    have hrest := ih hrows
    rw [Weights.rows] at hrest ⊢
    rw [List.map_cons, List.sum_cons, hrest]
    by_cases hk : p.1 = key
    · have hnone : Dict.get rows key = none := by
        rw [← Option.not_isSome_iff_eq_none]
        exact fun hsome => hp (hk ▸ Dict.has_iff.mp hsome)
      subst hk
      rw [show p :: rows = (p.1, p.2) :: rows from rfl, Dict.get_cons_self, hnone]
      simp [readWeights]
    · rw [Dict.get_cons_ne hk]
      simp [readWeights, hk]

lemma readWeights_summaries (key : ReadKey) (p : Process) : (readWeights key).summaries p = p.openReads key := by
  rw [Weights.summaries, readWeights_rows key p.readSuppressed.keyed, Process.openReads]
  cases p.suppressed <;> simp [readWeights]

def readTally (lim : Limits) (key : ReadKey) : Tally lim where
  weights := readWeights key
  entry := Entered.readsOf key
  outage _ := 0
  summaries := Process.openReads key
  told t := (t.isRolledRead lim key).toNat
  closed := Told.closedReads key
  entry_eq e := by
    cases e with
    | reads k s => by_cases hk : k = key <;> simp [Weights.entered, Entered.readsOf, readWeights, hk]
    | _ => simp [Weights.entered, Weights.outage, Entered.readsOf, readWeights]
  outage_eq o := by simp [Weights.outage, readWeights]
  summaries_eq := readWeights_summaries key
  told_eq t := by
    cases t with
    | call c d =>
      cases d with
      | entered => simp [Weights.told, Weights.disposed, Told.isRolledRead, Told.closedReads, readWeights]
      | suppressed =>
        by_cases hk : c.readKey lim = key <;> cases hc : c.isDenied <;>
          simp [Weights.told, Weights.disposed, Told.isRolledRead, Told.closedReads, readWeights, hk, hc]
    | closed p =>
      rw [Weights.told, readWeights_summaries]
      simp [Told.isRolledRead, Told.closedReads, readWeights]
    | _ => simp [Weights.told, Told.isRolledRead, Told.closedReads, readWeights]

/-! ### Every order of the steps -/

section

variable {ι : Type}

/-- Nothing raises behind a line that is in its file, and the DEGRADED file goes when it is told to. -/
def Weather.Sound (v : Weather) : Prop := (∀ n, v.landings n ≠ .unsynced) ∧ v.unlinks = true

def Action.Sound : Action ι → Prop
  | .record _ _ v | .preflight _ v | .flush _ v => v.Sound
  | _ => True

/-- Nothing was written that is going to be written again. -/
def Shared.Single (s : Shared) : Prop := s.unsynced = [] ∧ s.kept = []

def Holding.Single (s : Holding) : Prop := (∀ n, s.landings n ≠ .unsynced) ∧ s.shared.Single

lemma moves_single (rt : Runtime) (cfg : Config) : Moves rt cfg true fun s s' => s.Single → s'.Single where
  refl _ := id
  trans _ _ _ h h' := h' ∘ h
  tick _ := id
  process _ _ := id
  clear _ := id
  enter e head now s := by
    rintro ⟨hlandings, hsingle⟩
    have hlater : ∀ n, s.landings (n + 1) ≠ .unsynced := fun n => hlandings (n + 1)
    rw [enterAt]
    split
    · exact ⟨hlandings, hsingle⟩
    · split
      · exact ⟨hlater, hsingle⟩
      · exact ⟨hlater, hsingle⟩
      · rename_i hnow
        exact absurd hnow (hlandings 0)

variable [DecidableEq ι] {rt : Runtime} {cfg : Config} {lim : Limits}

lemma single_act {A : Type} {m : Locked A} (hm : Within (fun s s' : Holding => s.Single → s'.Single) m) {b : Books ι} (i : ι)
    {v : Weather} (hv : ∀ n, v.landings n ≠ .unsynced) (hb : b.shared.Single) : (b.act i v m).2.shared.Single := by
  have hfinal := hm ⟨b.shared, b.processes i, v.clock, v.landings⟩ ⟨hv, hb⟩
  rw [Books.act]
  split_ifs
  · split <;> rename_i hrun <;> rw [hrun] at hfinal <;> exact hfinal.2
  · exact hb

lemma single_step {b : Books ι} {a : Action ι} (ha : a.Sound) (hb : b.shared.Single) : (b.step rt cfg lim a).shared.Single := by
  cases a with
  | record i c v =>
    have hact := single_act (@within_appendHeld rt cfg lim _ _ (ha.2 ▸ moves_single rt cfg) c) i ha.1 hb
    rw [Books.step]
    split <;> rename_i hrun <;> rw [hrun] at hact <;> exact hact
  | preflight i v =>
    have hact := single_act (within_preflightHeld (ha.2 ▸ moves_single rt cfg) v.writable) i ha.1 hb
    rw [Books.step]
    split <;> rename_i hrun <;> rw [hrun] at hact <;> exact hact
  | flush i v =>
    have hact := single_act (within_flushHeld (moves_single rt cfg)) i ha.1 hb
    rw [Books.step]
    split <;> rename_i hrun <;> rw [hrun] at hact
    · split_ifs <;> exact hact
    · exact hact
  | mark n persists now =>
    rw [Books.step]
    split
    · exact hb
    · rw [Books.markDegraded]
      split_ifs <;> exact hb
  | close i persists now =>
    rw [Books.step]
    split_ifs
    · exact hb
    · rw [Books.drop, Books.markDegraded]
      split_ifs <;> exact hb
  | exit i => exact hb

variable (rt cfg lim) in
lemma single_run {actions : List (Action ι)} (h : ∀ a ∈ actions, a.Sound) : (Books.run rt cfg lim actions).shared.Single := by
  rw [Books.run]
  induction actions using List.reverseRecOn with
  | nil => exact ⟨rfl, rfl⟩
  | append_singleton actions a ih =>
    rw [List.foldl_append]
    exact single_step (h a (by simp)) (ih fun a' ha' => h a' (List.mem_append_left _ ha'))

end

namespace Books

variable {ι : Type} [Fintype ι]

/-- The calls that stand somewhere: in the log, in the DEGRADED file, in the memory of the processes, in the hands of their threads,
and in what has ended with a process. -/
def calls (b : Books ι) : ℕ :=
  (b.shared.entered.map Entered.calls).sum + b.shared.degraded.elim 0 Outage.unlogged +
    ∑ i, ((b.processes i).outage.elim 0 Outage.unlogged + (b.processes i).pending) + (b.owed.map Owed.unlogged).sum +
      (b.ended.map fun p => p.1.outage.elim 0 Outage.unlogged + p.1.pending + (p.2.map Owed.unlogged).sum).sum

def refusals (b : Books ι) : ℕ :=
  (b.shared.entered.map Entered.refusals).sum + b.shared.degraded.elim 0 Outage.refused +
    ∑ i, (b.processes i).outage.elim 0 Outage.refused + (b.owed.map Owed.refused).sum +
      (b.ended.map fun p => p.1.outage.elim 0 Outage.refused + (p.2.map Owed.refused).sum).sum

end Books

section

variable {ι : Type} [DecidableEq ι] [Fintype ι]

/-- Each call that was told to be in the log is there by itself, and a summary stands for the calls that were rolled into it, those
of one tenant over one transport where they are reads. -/
theorem summaries_never_mix (rt : Runtime) (cfg : Config) (lim : Limits) (actions : List (Action ι)) :
    let b := Books.run rt cfg lim actions
    (∀ P, b.shared.entered.countP (Entered.isCall P) = b.told.countP (Told.isEntry P) + b.shared.unsynced.countP (Entered.isCall P)) ∧
      ((b.shared.entered.map Entered.deniedCalls).sum + ∑ i, (b.processes i).openDenied +
        (b.ended.map fun p => p.1.openDenied).sum + (b.told.map Told.closedDenied).sum =
          b.told.countP Told.isRolledDenied + (b.shared.unsynced.map Entered.deniedCalls).sum) ∧
      ∀ key, (b.shared.entered.map (Entered.readsOf key)).sum + ∑ i, (b.processes i).openReads key +
        (b.ended.map fun p => p.1.openReads key).sum + (b.told.map (Told.closedReads key)).sum =
          b.told.countP (Told.isRolledRead lim key) + (b.shared.unsynced.map (Entered.readsOf key)).sum := by
  intro b
  refine ⟨fun P => ?_, ?_, fun key => ?_⟩
  · have h := (entryTally lim P).run_summaries rt cfg actions (b := b) rfl rfl
    simpa only [entryTally, countP_sum, List.sum_map_zero, Finset.sum_const_zero, add_zero] using h
  · have h := (deniedTally lim).run_summaries rt cfg actions (b := b) rfl rfl
    simpa only [deniedTally, countP_sum] using h
  · have h := (readTally lim key).run_summaries rt cfg actions (b := b) rfl rfl
    simpa only [readTally, countP_sum] using h

end

end ContinuityLedger.CallLog
