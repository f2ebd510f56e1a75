import ContinuityLedger.Foundations.Conserved
import ContinuityLedger.CallLog.Accounts

/-! Under the locks no call is lost or counted twice: weighed in any way, what an append, a preflight or a flush moves from one
place to another weighs the same there. -/

namespace ContinuityLedger.CallLog

open Foundations Foundations.Calendar Conserved

/-! ### Weights -/

/-- What a call, a call or a write of an outage, and a call of a summary weigh. -/
structure Weights where
  call : Call → ℤ
  unlogged : ℤ
  refused : ℤ
  denied : ℤ
  read : ReadKey → ℤ

namespace Weights

variable (w : Weights)

def outage (o : Outage) : ℤ := w.unlogged * o.unlogged + w.refused * o.refused

def entered : Entered → ℤ
  | .call c => w.call c
  | .gap o _ => w.outage o
  | .denied s => w.denied * s.count
  | .reads key s => w.read key * s.count

def rows (rows : Dict ReadKey Summary) : ℤ := (rows.map fun r => w.read r.1 * r.2.count).sum

def memory (p : Process) : ℤ :=
  p.outage.elim 0 w.outage + p.suppressed.elim 0 (fun s => w.denied * s.count) + w.rows p.readSuppressed.rows

/-- An entry whose append has raised is written again, or its call is counted as unlogged; a state that stays in the file
has another gap to come. -/
def shared (s : Shared) : ℤ :=
  (s.entered.map w.entered).sum + s.degraded.elim 0 w.outage - (s.unsynced.map w.entered).sum - (s.kept.map w.outage).sum

def holding (s : Holding) : ℤ := w.shared s.shared + w.memory s.process

/-- What is owed for a call that `append` has disposed of. -/
def disposed (lim : Limits) (c : Call) : Disposal → ℤ
  | .entered => w.call c
  | .suppressed => if c.isDenied then w.denied else w.read (c.readKey lim)

lemma outage_combine (f d : Option Outage) : (combine f d).elim 0 w.outage = f.elim 0 w.outage + d.elim 0 w.outage := by
  cases f with
  | none => cases d <;> simp [combine]
  | some f =>
    cases d with
    | none => simp [combine]
    | some d =>
      simp only [combine, Option.elim_some, outage]
      push_cast
      ring

lemma rows_set {r : Dict ReadKey Summary} (h : Dict.Keyed r) (key : ReadKey) (s : Summary) :
    w.rows (Dict.set r key s) = w.rows r - (Dict.get r key).elim 0 (fun s => w.read key * s.count) + w.read key * s.count := by
  induction r with
  | nil => simp [rows, Dict.set, KeyedTable.upsert]
  | cons p r ih =>
    obtain ⟨hp, hr⟩ := List.nodup_cons.mp h
    by_cases hk : p.1 = key
    · subst hk
      rw [show p :: r = (p.1, p.2) :: r from rfl, Dict.set_cons_self hp, Dict.get_cons_self]
      simp only [rows, List.map_cons, List.sum_cons, Option.elim_some]
      ring
    · have hrest := ih hr
      rw [Dict.set_cons hk, Dict.get_cons_ne hk]
      simp only [rows, List.map_cons, List.sum_cons] at hrest ⊢
      rw [hrest]
      ring

lemma rows_remove {r : Dict ReadKey Summary} (h : Dict.Keyed r) {key : ReadKey} {s : Summary} (hget : Dict.get r key = some s) :
    w.rows (KeyedTable.remove Prod.fst key r) = w.rows r - w.read key * s.count := by
  induction r with
  | nil => cases hget
  | cons p r ih =>
    obtain ⟨hp, hr⟩ := List.nodup_cons.mp h
    by_cases hk : p.1 = key
    · subst hk
      have hrest : KeyedTable.remove Prod.fst p.1 (p :: r) = r := by
        have hkeep : r.filter (fun q => p.1 ≠ q.1) = r :=
          List.filter_eq_self.mpr fun q hq => by
            have hne : p.1 ≠ q.1 := fun he => hp (by rw [he]; exact List.mem_map_of_mem hq)
            simpa using hne
        rw [KeyedTable.remove, List.filter_cons_of_neg (by simp)]
        simpa [eq_comm] using hkeep
      rw [show p :: r = (p.1, p.2) :: r from rfl, Dict.get_cons_self] at hget
      obtain rfl := Option.some.inj hget
      rw [hrest]
      simp only [rows, List.map_cons, List.sum_cons]
      ring
    · have hrest := ih hr (Dict.get_cons_ne hk ▸ hget)
      rw [KeyedTable.remove, List.filter_cons_of_pos (by simpa using hk)]
      simp only [rows, KeyedTable.remove, List.map_cons, List.sum_cons] at hrest ⊢
      rw [hrest]
      ring

end Weights

/-! ### Under the locks -/

section

variable {rt : Runtime} {cfg : Config} {lim : Limits} {e : Entered} {head head' : Chain} {now : Instant} {s s' : Holding}
  (w : Weights)

lemma keeps_tick : Keeps w.holding tick := fun s => by
  change w.holding _ = w.holding s + 0
  rw [add_zero]
  rfl

lemma keeps_lockedHead : Keeps w.holding (lockedHead rt) := fun s => by
  rw [KeepsAt, AddsAt, lockedHead]
  split <;> rename_i hrun <;> split at hrun <;> cases hrun
  · exact (add_zero _).symm
  · rfl

lemma keeps_onProcess {f : Process → Process} (h : ∀ p, w.memory (f p) = w.memory p) : Keeps w.holding (onProcess f) :=
  fun s => keepsAt_modify (congrArg (w.shared s.shared + ·) (h s.process))

/-- What an append does, and where it raises. -/
inductive Entering (e : Entered) (s : Holding) : EStateM.Result Failure Holding Chain → Prop
  | lands (head : Chain) (s' : Holding) (shared : s'.shared = { s.shared with disk := s'.shared.disk, entered := s.shared.entered ++ [e] })
      (process : s'.process = s.process) : Entering e s (.ok head s')
  | fails (r : Failure) (s' : Holding) (shared : s'.shared = s.shared) (process : s'.process = s.process) : Entering e s (.error r s')
  | unsynced (r : Failure) (s' : Holding) (shared : s'.shared = { s.shared with
      disk := s'.shared.disk, entered := s.shared.entered ++ [e], unsynced := s.shared.unsynced ++ [e] })
      (process : s'.process = s.process) : Entering e s (.error r s')

lemma entering_enter (e : Entered) (head : Chain) (s : Holding) : Entering e s (enter rt cfg e head s) := by
  change Entering e s (enterAt rt cfg e head (s.clock 0) { s with clock := fun n => s.clock (n + 1) })
  rw [enterAt]
  split
  · exact .fails _ _ rfl rfl
  · split
    · exact .lands _ _ rfl rfl
    · exact .fails _ _ rfl rfl
    · exact .unsynced _ _ rfl rfl

lemma adds_enter (e : Entered) (head : Chain) : Adds w.holding (fun _ => w.entered e) (enter rt cfg e head) := fun s => by
  have h : Entering e s (enter rt cfg e head s) := entering_enter e head s
  rw [AddsAt]
  cases hrun : enter rt cfg e head s with
  | ok head' s' =>
    rw [hrun] at h
    cases h with
    | lands _ _ hshared hprocess =>
      dsimp only
      rw [Weights.holding, Weights.holding, hshared, hprocess]
      simp only [Weights.shared, List.map_append, List.sum_append, List.map_singleton, List.sum_singleton]
      ring
  | error r s' =>
    rw [hrun] at h
    cases h with
    | fails _ _ hshared hprocess =>
      dsimp only
      rw [Weights.holding, Weights.holding, hshared, hprocess]
    | unsynced _ _ hshared hprocess =>
      dsimp only
      rw [Weights.holding, Weights.holding, hshared, hprocess]
      simp only [Weights.shared, List.map_append, List.sum_append, List.map_singleton, List.sum_singleton]
      ring

lemma enter_frame (h : enter rt cfg e head s = .ok head' s') :
    s'.process = s.process ∧ s'.shared.degraded = s.shared.degraded := by
  have hrun : Entering e s (enter rt cfg e head s) := entering_enter e head s
  rw [h] at hrun
  cases hrun with
  | lands _ _ hshared hprocess => exact ⟨hprocess, by rw [hshared]⟩

/-- What is taken from another place once the entry stands weighs what the entry does. -/
lemma keepsAt_settle {f : Holding → Holding}
    (h : ∀ s', s'.process = s.process → s'.shared.degraded = s.shared.degraded → w.holding (f s') + w.entered e = w.holding s') :
    KeepsAt w.holding (settle rt cfg e f head) s := by
  refine (adds_enter w e head s).finish fun head' s' hrun => ?_
  obtain ⟨hprocess, hdegraded⟩ := enter_frame hrun
  have hadds := (adds_enter w e head s).ok hrun
  have hf := h s' hprocess hdegraded
  omega

lemma holding_clear {unlinks : Bool} {state : Outage} (hs : combine s.shared.degraded s.process.outage = some state) :
    w.holding (clearDegraded unlinks s) + w.outage state = w.holding s := by
  have hcombine := w.outage_combine s.shared.degraded s.process.outage
  rw [hs, Option.elim_some] at hcombine
  cases unlinks with
  | true =>
    simp only [clearDegraded, if_true, Weights.holding, Weights.shared, Weights.memory, Option.elim_none]
    omega
  | false =>
    have hkept : (s.shared.degraded.toList.map w.outage).sum = s.shared.degraded.elim 0 w.outage := by
      cases s.shared.degraded <;> simp
    simp only [clearDegraded, Bool.false_eq_true, if_false, Weights.holding, Weights.shared, Weights.memory, Option.elim_none,
      List.map_append, List.sum_append, hkept]
    omega

lemma keeps_recover (unlinks : Bool) (head : Chain) : Keeps w.holding (recover rt cfg unlinks head) := fun s => by
  refine addsAt_get ?_
  cases hs : s.degraded with
  | none => exact addsAt_pure rfl
  | some state =>
    refine (keeps_tick w s).bind fun windowEnd s' hrun => ?_
    obtain ⟨rfl, rfl⟩ := EStateM.Result.ok.inj hrun
    refine keepsAt_settle w fun s' hprocess hdegraded => ?_
    refine holding_clear w ?_
    rw [hprocess, hdegraded]
    exact hs

lemma keeps_flushSuppressed (head : Chain) : Keeps w.holding (flushSuppressed rt cfg head) := fun s => by
  refine addsAt_get ?_
  cases hs : s.process.suppressed with
  | none => exact addsAt_pure rfl
  | some summary =>
    refine keepsAt_settle w fun s' hprocess _ => ?_
    simp only [Weights.holding, Weights.memory, Weights.entered, hprocess, hs, Option.elim_none, Option.elim_some]
    omega

lemma keeps_flushKeys (keys : List ReadKey) (head : Chain) : Keeps w.holding (flushKeys rt cfg keys head) := by
  induction keys generalizing head with
  | nil => exact keeps_pure head
  | cons key keys ih =>
    refine fun s => addsAt_get ?_
    cases hs : Dict.get s.process.readSuppressed.rows key with
    | none => exact adds_throw _ s
    | some summary =>
      refine AddsAt.bind (keepsAt_settle w fun s' hprocess _ => ?_) fun head' s' _ => ih head' s'
      have hremove := w.rows_remove s.process.readSuppressed.keyed hs
      simp only [Weights.holding, Weights.memory, Weights.entered, hprocess, OpenReads.remove, hremove]
      omega

lemma keeps_flushReads (head : Chain) : Keeps w.holding (flushReads rt cfg head) :=
  fun s => addsAt_get (keeps_flushKeys w _ head s)

variable (cfg) in
lemma rolled_run (summary : Option Summary) (s : Holding) : ∃ r clock, rolled cfg summary s = .ok r { s with clock := clock } ∧
    r.count = summary.elim 0 Summary.count + 1 := by
  cases summary with
  | none => exact ⟨_, _, rfl, rfl⟩
  | some r => exact ⟨_, _, rfl, rfl⟩

lemma keeps_rolled (summary : Option Summary) : Keeps w.holding (rolled cfg summary) := fun s => by
  obtain ⟨r, clock, hrun, -⟩ := rolled_run cfg summary s
  rw [KeepsAt, AddsAt, hrun]
  exact (add_zero _).symm

lemma keeps_inDeniedWindow (window : String) (head : Chain) : Keeps w.holding (inDeniedWindow rt cfg window head) := by
  refine fun s => addsAt_get ?_
  split_ifs with hwindow
  · exact addsAt_pure rfl
  · refine Adds.bind (keeps_flushSuppressed w head) (fun head => ?_) s
    exact Adds.bind (keeps_onProcess w fun p => rfl) fun _ => keeps_pure head

lemma keeps_inReadWindow (window : String) (head : Chain) : Keeps w.holding (inReadWindow rt cfg window head) := by
  refine fun s => addsAt_get ?_
  split_ifs with hwindow
  · exact addsAt_pure rfl
  · refine Adds.bind (keeps_flushReads w head) (fun head => ?_) s
    exact Adds.bind (keeps_onProcess w fun p => rfl) fun _ => keeps_pure head

/-- The call is in the log by itself. -/
lemma adds_entered (c : Call) (head : Chain) :
    Adds w.holding (w.disposed lim c) (enter rt cfg (.call c) head >>= fun _ => pure .entered) :=
  fun s => (adds_enter w (.call c) head s).result fun _ => rfl

lemma adds_appendDenied {c : Call} (hc : c.isDenied = true) (head : Chain) :
    Adds w.holding (w.disposed lim c) (appendDenied rt cfg lim c head) := by
  refine Adds.bind (keeps_tick w) fun now => Adds.bind (keeps_inDeniedWindow w _ head) fun head => fun s => addsAt_get ?_
  refine AddsAt.bind (keeps_onProcess w (fun p => rfl) s) fun _ s' hrun => ?_
  split_ifs with hcap
  · refine addsAt_get ((keeps_rolled w _ s').finish fun r s'' hroll => ?_)
    obtain ⟨r', clock, hroll', hcount⟩ := rolled_run cfg s'.process.suppressed s'
    obtain ⟨rfl, rfl⟩ := EStateM.Result.ok.inj (hroll'.symm.trans hroll)
    simp only [Weights.holding, Weights.memory, Weights.disposed, hc, if_true, Option.elim_some, hcount]
    cases s'.process.suppressed <;> simp only [Option.elim_none, Option.elim_some] <;> push_cast <;> ring
  · exact adds_entered w c head s'

lemma adds_appendRead {c : Call} (hc : c.isDenied = false) (head : Chain) :
    Adds w.holding (w.disposed lim c) (appendRead rt cfg lim c head) := by
  refine Adds.bind (keeps_tick w) fun now => Adds.bind (keeps_inReadWindow w _ head) fun head => fun s => addsAt_get ?_
  refine AddsAt.bind (keeps_onProcess w (fun p => rfl) s) fun _ s' hrun => ?_
  split_ifs with hcap
  · refine addsAt_get ((keeps_rolled w _ s').finish fun r s'' hroll => ?_)
    obtain ⟨r', clock, hroll', hcount⟩ := rolled_run cfg (Dict.get s'.process.readSuppressed.rows (c.readKey lim)) s'
    obtain ⟨rfl, rfl⟩ := EStateM.Result.ok.inj (hroll'.symm.trans hroll)
    have hset := w.rows_set s'.process.readSuppressed.keyed (c.readKey lim) r'
    simp only [Weights.holding, Weights.memory, Weights.disposed, hc, Bool.false_eq_true, if_false, OpenReads.set, hset, hcount]
    cases Dict.get s'.process.readSuppressed.rows (c.readKey lim) <;> simp only [Option.elim_none, Option.elim_some] <;>
      push_cast <;> ring
  · exact adds_entered w c head s'

lemma adds_appendOther (c : Call) (head : Chain) : Adds w.holding (w.disposed lim c) (appendOther rt cfg c head) := by
  rw [appendOther]
  split_ifs with hwrite
  · exact Adds.bind (keeps_flushReads w head) fun head => adds_entered w c head
  · exact adds_entered w c head

lemma adds_appendHeld (unlinks : Bool) (c : Call) : Adds w.holding (w.disposed lim c) (appendHeld rt cfg lim unlinks c) := by
  refine Adds.bind (keeps_lockedHead w) fun head => Adds.bind (keeps_recover w unlinks head) fun head => ?_
  split_ifs with hdenied hread
  · exact adds_appendDenied w hdenied head
  · exact Adds.bind (keeps_flushSuppressed w head) fun head => adds_appendRead w (by simpa using hdenied) head
  · exact Adds.bind (keeps_flushSuppressed w head) fun head => adds_appendOther w c head

lemma keeps_preflightHeld (writable unlinks : Bool) : Keeps w.holding (preflightHeld rt cfg writable unlinks) := by
  refine Adds.bind (keeps_lockedHead w) fun head => ?_
  split_ifs with hwritable
  · exact adds_throw _
  · exact Adds.bind (keeps_recover w unlinks head) fun _ => keeps_pure _

lemma keeps_flushHeld : Keeps w.holding (flushHeld rt cfg) := by
  refine Adds.bind (keeps_lockedHead w) fun head => Adds.bind (keeps_flushSuppressed w head) fun head => ?_
  exact Adds.bind (keeps_flushReads w head) fun _ => keeps_pure _

end

/-! ### What the programs under the locks are made of -/

/-- What every clock reading, append and change of the memory does, every program does. -/
structure Moves (rt : Runtime) (cfg : Config) (unlinks : Bool) (r : Holding → Holding → Prop) : Prop where
  refl : ∀ s, r s s
  trans : ∀ s t u, r s t → r t u → r s u
  tick : ∀ s, r s { s with clock := fun n => s.clock (n + 1) }
  enter : ∀ e head now s, r s (final (enterAt rt cfg e head now s))
  process : ∀ s p, r s { s with process := p }
  clear : ∀ s, r s (clearDegraded unlinks s)

section

variable {rt : Runtime} {cfg : Config} {lim : Limits} {unlinks : Bool} {r : Holding → Holding → Prop} (h : Moves rt cfg unlinks r)

include h

lemma within_tick : Within r tick := h.tick

lemma within_onProcess (f : Process → Process) : Within r (onProcess f) := within_modify fun s => h.process s _

lemma within_lockedHead : Within r (lockedHead rt) := fun s => by
  rw [lockedHead]
  split <;> exact h.refl s

lemma within_enter (e : Entered) (head : Chain) : Within r (enter rt cfg e head) :=
  (within_tick h).bind h.trans fun now => h.enter e head now

lemma within_settle {f : Holding → Holding} (hf : ∀ s, r s (f s)) (e : Entered) (head : Chain) : Within r (settle rt cfg e f head) :=
  (within_enter h e head).bind h.trans fun head => (within_modify hf).bind h.trans fun _ => within_pure h.refl head

lemma within_recover (head : Chain) : Within r (recover rt cfg unlinks head) := within_get fun s => by
  cases s.degraded with
  | none => exact within_pure h.refl head
  | some state => exact (within_tick h).bind h.trans fun windowEnd => within_settle h h.clear _ head

lemma within_flushSuppressed (head : Chain) : Within r (flushSuppressed rt cfg head) := within_get fun s => by
  cases s.process.suppressed with
  | none => exact within_pure h.refl head
  | some summary => exact within_settle h (fun s => h.process s _) _ head

lemma within_flushKeys (keys : List ReadKey) (head : Chain) : Within r (flushKeys rt cfg keys head) := by
  induction keys generalizing head with
  | nil => exact within_pure h.refl head
  | cons key keys ih =>
    refine within_get fun s => ?_
    cases Dict.get s.process.readSuppressed.rows key with
    | none => exact within_throw h.refl _
    | some summary => exact (within_settle h (fun s => h.process s _) _ head).bind h.trans ih

lemma within_flushReads (head : Chain) : Within r (flushReads rt cfg head) := within_get fun _ => within_flushKeys h _ head

lemma within_rolled (summary : Option Summary) : Within r (rolled cfg summary) := by
  have hopened : Within r (opened cfg summary) := by
    cases summary with
    | none => exact (within_tick h).bind h.trans fun start => within_pure h.refl _
    | some s => exact within_pure h.refl s
  exact hopened.bind h.trans fun s => (within_tick h).bind h.trans fun finish => within_pure h.refl _

lemma within_inDeniedWindow (window : String) (head : Chain) : Within r (inDeniedWindow rt cfg window head) := within_get fun s => by
  split_ifs with hwindow
  · exact within_pure h.refl head
  · refine (within_flushSuppressed h head).bind h.trans fun head => ?_
    exact (within_onProcess h _).bind h.trans fun _ => within_pure h.refl head

lemma within_inReadWindow (window : String) (head : Chain) : Within r (inReadWindow rt cfg window head) := within_get fun s => by
  split_ifs with hwindow
  · exact within_pure h.refl head
  · refine (within_flushReads h head).bind h.trans fun head => ?_
    exact (within_onProcess h _).bind h.trans fun _ => within_pure h.refl head

lemma within_entered (c : Call) (head : Chain) : Within r (enter rt cfg (.call c) head >>= fun _ => pure Disposal.entered) :=
  (within_enter h (.call c) head).bind h.trans fun _ => within_pure h.refl _

lemma within_appendDenied (c : Call) (head : Chain) : Within r (appendDenied rt cfg lim c head) := by
  refine (within_tick h).bind h.trans fun now => (within_inDeniedWindow h _ head).bind h.trans fun head => within_get fun s => ?_
  refine (within_onProcess h _).bind h.trans fun _ => ?_
  split_ifs with hcap
  · refine within_get fun s => (within_rolled h _).bind h.trans fun summary => ?_
    exact (within_onProcess h _).bind h.trans fun _ => within_pure h.refl _
  · exact within_entered h c head

lemma within_appendRead (c : Call) (head : Chain) : Within r (appendRead rt cfg lim c head) := by
  refine (within_tick h).bind h.trans fun now => (within_inReadWindow h _ head).bind h.trans fun head => within_get fun s => ?_
  refine (within_onProcess h _).bind h.trans fun _ => ?_
  split_ifs with hcap
  · refine within_get fun s => (within_rolled h _).bind h.trans fun summary => ?_
    exact (within_onProcess h _).bind h.trans fun _ => within_pure h.refl _
  · exact within_entered h c head

lemma within_appendOther (c : Call) (head : Chain) : Within r (appendOther rt cfg c head) := by
  rw [appendOther]
  split_ifs with hwrite
  · exact (within_flushReads h head).bind h.trans fun head => within_entered h c head
  · exact within_entered h c head

lemma within_appendHeld (c : Call) : Within r (appendHeld rt cfg lim unlinks c) := by
  refine (within_lockedHead h).bind h.trans fun head => (within_recover h head).bind h.trans fun head => ?_
  split_ifs with hdenied hread
  · exact within_appendDenied h c head
  · exact (within_flushSuppressed h head).bind h.trans fun head => within_appendRead h c head
  · exact (within_flushSuppressed h head).bind h.trans fun head => within_appendOther h c head

lemma within_preflightHeld (writable : Bool) : Within r (preflightHeld rt cfg writable unlinks) := by
  refine (within_lockedHead h).bind h.trans fun head => ?_
  split_ifs with hwritable
  · exact within_throw h.refl _
  · exact (within_recover h head).bind h.trans fun _ => within_pure h.refl _

lemma within_flushHeld : Within r (flushHeld rt cfg) := by
  refine (within_lockedHead h).bind h.trans fun head => (within_flushSuppressed h head).bind h.trans fun head => ?_
  exact (within_flushReads h head).bind h.trans fun _ => within_pure h.refl _

end

end ContinuityLedger.CallLog
