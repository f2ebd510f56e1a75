import Mathlib.Data.Fintype.Basic
import Mathlib.Logic.Function.Basic
import Mathlib.Order.Defs.Unbundled

/-! A table whose rows are written under locks, as transactions see it that read what is committed: a transaction writes only rows
that it holds, a row that it holds or shares is written by nobody else, and what it has written of a row comes out of the row
that is committed. -/

namespace ContinuityLedger.Foundations.RowLocks

variable {T K V : Type}

/-- What an open transaction has written, and the rows that it shares or holds. -/
structure Txn (K V : Type) where
  written : K → Option V
  shares : K → Bool
  holds : K → Bool

namespace Txn

def none : Txn K V := ⟨fun _ => .none, fun _ => false, fun _ => false⟩

def Locks (x : Txn K V) (k : K) : Prop := x.holds k = true ∨ x.shares k = true

lemma not_locks_none {j : K} : ¬(none : Txn K V).Locks j := by
  rintro (h | h)
  · cases h
  · cases h

variable [DecidableEq K] (x : Txn K V) (k : K)

def share : Txn K V := { x with shares := Function.update x.shares k true }

def hold : Txn K V := { x with holds := Function.update x.holds k true }

def write (v : V) : Txn K V := { x.hold k with written := Function.update x.written k (some v) }

variable {x k} {j : K} {v : V}

@[simp] lemma holds_share : (x.share k).holds = x.holds := rfl

@[simp] lemma written_share : (x.share k).written = x.written := rfl

@[simp] lemma written_hold : (x.hold k).written = x.written := rfl

lemma locks_share_self : (x.share k).Locks k := .inr (Function.update_self ..)

lemma holds_hold_self : (x.hold k).holds k = true := Function.update_self ..

lemma holds_hold_of (h : x.holds j = true) : (x.hold k).holds j = true := by
  by_cases hj : j = k
  · rw [hj]
    exact holds_hold_self
  · exact (Function.update_of_ne hj _ _).trans h

lemma Locks.share (h : x.Locks j) : (x.share k).Locks j := by
  by_cases hj : j = k
  · rw [hj]
    exact locks_share_self
  · exact h.imp id fun h => (Function.update_of_ne hj _ _).trans h

lemma Locks.hold (h : x.Locks j) : (x.hold k).Locks j := h.imp holds_hold_of id

lemma Locks.write (h : x.Locks j) : (x.write k v).Locks j := Locks.hold h

lemma Locks.of_share (h : (x.share k).Locks j) : x.Locks j ∨ j = k := by
  by_cases hj : j = k
  · exact .inr hj
  · exact .inl (h.imp id fun h => (Function.update_of_ne hj _ _).symm.trans h)

lemma holds_of_hold (h : (x.hold k).holds j = true) : x.holds j = true ∨ j = k := by
  by_cases hj : j = k
  · exact .inr hj
  · exact .inl ((Function.update_of_ne hj _ _).symm.trans h)

lemma Locks.of_hold (h : (x.hold k).Locks j) : x.Locks j ∨ j = k := by
  rcases h with h | h
  · exact (holds_of_hold h).imp .inl id
  · exact .inl (.inr h)

lemma holds_write_self : (x.write k v).holds k = true := holds_hold_self

lemma holds_write_of (h : x.holds j = true) : (x.write k v).holds j = true := holds_hold_of h

lemma written_write_self : (x.write k v).written k = some v := Function.update_self ..

lemma written_write_other (h : j ≠ k) : (x.write k v).written j = x.written j := Function.update_of_ne h ..

end Txn

/-- `heap` has the key of every row that was ever written, also of those that are not committed. -/
structure Table (T K V : Type) where
  committed : K → Option V
  txn : T → Txn K V
  heap : List K

namespace Table

def empty : Table T K V := ⟨fun _ => none, fun _ => .none, []⟩

section
variable (s : Table T K V) (t : T) (k : K)

def view : Option V := ((s.txn t).written k).or (s.committed k)

def Shareable : Prop := ∀ u, u ≠ t → (s.txn u).holds k = false

def Free : Prop := ∀ u, u ≠ t → (s.txn u).holds k = false ∧ (s.txn u).shares k = false

instance [Fintype T] [DecidableEq T] : Decidable (s.Shareable t k) := inferInstanceAs (Decidable (∀ _, _ → _))

instance [Fintype T] [DecidableEq T] : Decidable (s.Free t k) := inferInstanceAs (Decidable (∀ _, _ → _))

/-- The keys of the rows that the transaction sees and that satisfy `p`. -/
def scan (p : V → Bool) : List K := s.heap.filter fun k => (s.view t k).any p

variable [DecidableEq T]

def put (x : Txn K V) : Table T K V := { s with txn := Function.update s.txn t x }

def rollback : Table T K V := s.put t .none

def commit : Table T K V := { s.put t .none with committed := s.view t }

variable [DecidableEq K]

def share : Table T K V := s.put t ((s.txn t).share k)

def hold : Table T K V := s.put t ((s.txn t).hold k)

def write (v : V) : Table T K V := { s.put t ((s.txn t).write k v) with heap := k :: s.heap }

end

variable {s s' : Table T K V} {t u : T} {k j : K} {v : V}

lemma view_of_written (h : (s.txn t).written k = some v) : s.view t k = some v := by rw [view, h, Option.some_or]

lemma view_of_not_written (h : (s.txn t).written k = none) : s.view t k = s.committed k := by rw [view, h, Option.none_or]

/-- What a transaction sees, it has written itself or it is committed. -/
lemma view_cases (h : s.view t k = some v) :
    (s.txn t).written k = some v ∨ ((s.txn t).written k = none ∧ s.committed k = some v) := by
  cases hw : (s.txn t).written k with
  | none => exact .inr ⟨rfl, (view_of_not_written hw).symm.trans h⟩
  | some w => exact .inl ((view_of_written hw).symm.trans h)

lemma view_congr (ht : s'.txn t = s.txn t) (hc : s'.committed k = s.committed k) : s'.view t k = s.view t k := by
  rw [view, view, ht, hc]

lemma Free.shareable (h : s.Free t k) : s.Shareable t k := fun u hu => (h u hu).1

lemma Free.not_locks (h : s.Free t k) (hu : u ≠ t) : ¬(s.txn u).Locks k := by
  rintro (hh | hh)
  · rw [(h u hu).1] at hh
    cases hh
  · rw [(h u hu).2] at hh
    cases hh

variable [DecidableEq T]

@[simp] lemma txn_put_self {x : Txn K V} : (s.put t x).txn t = x := Function.update_self ..

lemma txn_put_other {x : Txn K V} (h : u ≠ t) : (s.put t x).txn u = s.txn u := Function.update_of_ne h ..

@[simp] lemma txn_commit_self : (s.commit t).txn t = .none := txn_put_self

lemma txn_commit_other (h : u ≠ t) : (s.commit t).txn u = s.txn u := txn_put_other h

variable [DecidableEq K]

@[simp] lemma txn_share_self : (s.share t k).txn t = (s.txn t).share k := txn_put_self

@[simp] lemma txn_hold_self : (s.hold t k).txn t = (s.txn t).hold k := txn_put_self

@[simp] lemma txn_write_self : (s.write t k v).txn t = (s.txn t).write k v := txn_put_self

@[simp] lemma view_share : (s.share t k).view t = s.view t := by
  funext j
  rw [view, txn_share_self]
  rfl

@[simp] lemma view_hold : (s.hold t k).view t = s.view t := by
  funext j
  rw [view, txn_hold_self]
  rfl

lemma view_write_self : (s.write t k v).view t k = some v := by
  rw [view, txn_write_self, Txn.written_write_self, Option.some_or]

lemma view_write_other (h : j ≠ k) : (s.write t k v).view t j = s.view t j := by
  rw [view, txn_write_self, Txn.written_write_other h]
  rfl

end Table

/-- Nobody has a row that another holds; rows are written by who holds them, out of the row that is committed; and the heap has
every row. -/
structure Sound (R : V → V → Prop) (s : Table T K V) : Prop where
  apart : ∀ {t u k}, (s.txn t).holds k = true → (s.txn u).Locks k → u = t
  held : ∀ {t k v}, (s.txn t).written k = some v → (s.txn t).holds k = true
  derived : ∀ {t k v old}, (s.txn t).written k = some v → s.committed k = some old → R old v
  listed : ∀ {t k v}, s.view t k = some v → k ∈ s.heap

variable {R : V → V → Prop} {s s' : Table T K V} {t u : T} {k : K} {v old : V}

lemma sound_empty : Sound R (Table.empty : Table T K V) where
  apart h := nomatch h
  held h := nomatch h
  derived h := nomatch h
  listed h := nomatch h

lemma Sound.mem_heap (hs : Sound R s) (t : T) (h : s.committed k = some v) : k ∈ s.heap := by
  cases hw : (s.txn t).written k with
  | none => exact hs.listed ((Table.view_of_not_written hw).trans h)
  | some w => exact hs.listed (Table.view_of_written hw)

lemma Sound.mem_scan (hs : Sound R s) {p : V → Bool} (hv : s.view t k = some v) (hp : p v = true) : k ∈ s.scan t p := by
  refine List.mem_filter.mpr ⟨hs.listed hv, ?_⟩
  rw [hv]
  exact hp

lemma Sound.own (hs : Sound R s) (k : K) (v : V) (hw : (s.txn t).written k = some v) :
    (s.txn t).holds k = true ∧ k ∈ s.heap ∧ ∀ old, s.committed k = some old → R old v :=
  ⟨hs.held hw, hs.listed (Table.view_of_written hw), fun _ hc => hs.derived hw hc⟩

/-- What a transaction sees comes out of what is committed. -/
lemma Sound.view_evolves [Std.Refl R] (hs : Sound R s) (hc : s.committed k = some old) (hv : s.view t k = some v) : R old v := by
  rcases Table.view_cases hv with hw | ⟨-, hcv⟩
  · exact hs.derived hw hc
  · obtain rfl := Option.some.inj (hc.symm.trans hcv)
    exact refl old

variable [DecidableEq T]

/-- One transaction is replaced by one that has its rows and comes to no lock that another has. -/
lemma Sound.put (hs : Sound R s) {x : Txn K V} {heap : List K} (hheap : s.heap ⊆ heap)
    (hlocks : ∀ j, x.Locks j → (s.txn t).Locks j ∨ s.Shareable t j)
    (hholds : ∀ j, x.holds j = true → (s.txn t).holds j = true ∨ s.Free t j)
    (hwritten : ∀ j v, x.written j = some v →
      x.holds j = true ∧ j ∈ heap ∧ ∀ old, s.committed j = some old → R old v) :
    Sound R { s.put t x with heap := heap } where
  apart {a b j} ha hb := by
    change ((s.put t x).txn a).holds j = true at ha
    change ((s.put t x).txn b).Locks j at hb
    by_cases hat : a = t <;> by_cases hbt : b = t
    · rw [hat, hbt]
    · subst hat
      rw [Table.txn_put_self] at ha
      rw [Table.txn_put_other hbt] at hb
      rcases hholds j ha with hold | hfree
      · exact hs.apart hold hb
      · exact absurd hb (hfree.not_locks hbt)
    · subst hbt
      rw [Table.txn_put_other hat] at ha
      rw [Table.txn_put_self] at hb
      rcases hlocks j hb with hlock | hshare
      · exact hs.apart ha hlock
      · rw [hshare a hat] at ha
        cases ha
    · rw [Table.txn_put_other hat] at ha
      rw [Table.txn_put_other hbt] at hb
      exact hs.apart ha hb
  held {a j v} hw := by
    change ((s.put t x).txn a).written j = some v at hw
    change ((s.put t x).txn a).holds j = true
    by_cases ha : a = t
    · subst ha
      rw [Table.txn_put_self] at hw ⊢
      exact (hwritten j v hw).1
    · rw [Table.txn_put_other ha] at hw ⊢
      exact hs.held hw
  derived {a j v old} hw hc := by
    change ((s.put t x).txn a).written j = some v at hw
    by_cases ha : a = t
    · subst ha
      rw [Table.txn_put_self] at hw
      exact (hwritten j v hw).2.2 old hc
    · rw [Table.txn_put_other ha] at hw
      exact hs.derived hw hc
  listed {a j v} hv := by
    rcases Table.view_cases hv with hw | ⟨-, hc⟩
    · change ((s.put t x).txn a).written j = some v at hw
      by_cases ha : a = t
      · subst ha
        rw [Table.txn_put_self] at hw
        exact (hwritten j v hw).2.1
      · rw [Table.txn_put_other ha] at hw
        exact hheap (hs.listed (Table.view_of_written hw))
    · exact hheap (hs.mem_heap t hc)

lemma Sound.rollback (hs : Sound R s) : Sound R (s.rollback t) :=
  hs.put (List.Subset.refl _) (fun _ hl => absurd hl Txn.not_locks_none) (fun _ hh => nomatch hh) fun _ _ hw => nomatch hw

/-- A row that another transaction has a lock of is not changed by a commit. -/
lemma committed_of_locks (hs : Sound R s) (hu : u ≠ t) (hl : (s.txn u).Locks k) : (s.commit t).committed k = s.committed k := by
  refine Table.view_of_not_written ?_
  cases hw : (s.txn t).written k with
  | none => rfl
  | some v => exact absurd (hs.apart (hs.held hw) hl) hu

/-- What a commit makes of a row comes out of the row that was committed. -/
lemma committed_evolves [Std.Refl R] (hs : Sound R s) (hc : s.committed k = some old) :
    ∃ v, (s.commit t).committed k = some v ∧ R old v := by
  cases hw : (s.txn t).written k with
  | none => exact ⟨old, (Table.view_of_not_written hw).trans hc, refl old⟩
  | some v => exact ⟨v, Table.view_of_written hw, hs.derived hw hc⟩

lemma Sound.commit (hs : Sound R s) : Sound R (s.commit t) where
  apart {a b k} ha hb := (hs.rollback (t := t)).apart ha hb
  held {a k v} hw := (hs.rollback (t := t)).held hw
  derived {a k v old} hw hc := by
    have ha : a ≠ t := by
      rintro rfl
      rw [Table.txn_commit_self] at hw
      cases hw
    rw [Table.txn_commit_other ha] at hw
    rw [committed_of_locks hs ha (.inl (hs.held hw))] at hc
    exact hs.derived hw hc
  listed {a k v} hv := by
    rcases Table.view_cases hv with hw | ⟨-, hc⟩
    · exact (hs.rollback (t := t)).listed (Table.view_of_written hw)
    · exact hs.listed (t := t) hc

variable [DecidableEq K]

lemma Sound.share (hs : Sound R s) (h : s.Shareable t k) : Sound R (s.share t k) :=
  hs.put (List.Subset.refl _) (fun _ hl => hl.of_share.imp id fun hj => by rwa [hj]) (fun _ hh => .inl hh) hs.own

lemma Sound.hold (hs : Sound R s) (h : s.Free t k) : Sound R (s.hold t k) :=
  hs.put (List.Subset.refl _) (fun _ hl => hl.of_hold.imp id fun hj => by rw [hj]; exact h.shareable)
    (fun _ hh => (Txn.holds_of_hold hh).imp id fun hj => by rwa [hj])
    fun j v hw => ⟨Txn.holds_hold_of (hs.own j v hw).1, (hs.own j v hw).2⟩

lemma Sound.write [IsTrans V R] (hs : Sound R s) (h : s.Free t k) (hv : ∀ old, s.view t k = some old → R old v) :
    Sound R (s.write t k v) :=
  hs.put (List.subset_cons_self ..) (fun _ hl => (Txn.Locks.of_hold hl).imp id fun hj => by rw [hj]; exact h.shareable)
    (fun _ hh => (Txn.holds_of_hold hh).imp id fun hj => by rwa [hj]) fun j w hw => by
      by_cases hj : j = k
      · subst hj
        rw [Txn.written_write_self] at hw
        obtain rfl := Option.some.inj hw
        refine ⟨Txn.holds_write_self, List.mem_cons_self, fun old hc => ?_⟩
        cases hown : (s.txn t).written j with
        | none => exact hv old ((Table.view_of_not_written hown).trans hc)
        | some w => exact IsTrans.trans _ _ _ (hs.derived hown hc) (hv w (Table.view_of_written hown))
      · rw [Txn.written_write_other hj] at hw
        obtain ⟨hh, hmem, hd⟩ := hs.own j w hw
        exact ⟨Txn.holds_write_of hh, List.mem_cons_of_mem _ hmem, hd⟩

/-- What one transaction may do; a row that it writes anew is related to the one that it saw. -/
inductive Move (R : V → V → Prop) (t : T) : Table T K V → Table T K V → Prop
  | stay (s : Table T K V) : Move R t s s
  | share (s : Table T K V) (k : K) (h : s.Shareable t k) : Move R t s (s.share t k)
  | hold (s : Table T K V) (k : K) (h : s.Free t k) : Move R t s (s.hold t k)
  | write (s : Table T K V) (k : K) (v : V) (h : s.Free t k) (hr : ∀ old, s.view t k = some old → R old v) :
      Move R t s (s.write t k v)
  | rollback (s : Table T K V) : Move R t s (s.rollback t)
  | commit (s : Table T K V) : Move R t s (s.commit t)

namespace Move

lemma sound [IsTrans V R] (h : Move R t s s') (hs : Sound R s) : Sound R s' := by
  cases h with
  | stay => exact hs
  | share k hk => exact hs.share hk
  | hold k hk => exact hs.hold hk
  | write k v hk hr => exact hs.write hk hr
  | rollback => exact hs.rollback
  | commit => exact hs.commit

/-- Nobody else's transaction is touched. -/
lemma txn_other (h : Move R t s s') (hu : u ≠ t) : s'.txn u = s.txn u := by
  cases h with
  | stay => rfl
  | share k hk => exact Table.txn_put_other hu
  | hold k hk => exact Table.txn_put_other hu
  | write k v hk hr => exact Table.txn_put_other hu
  | rollback => exact Table.txn_put_other hu
  | commit => exact Table.txn_put_other hu

lemma evolves [Std.Refl R] (h : Move R t s s') (hs : Sound R s) (hc : s.committed k = some old) :
    ∃ v, s'.committed k = some v ∧ R old v := by
  cases h with
  | commit => exact committed_evolves hs hc
  | _ => exact ⟨old, hc, refl old⟩

/-- A row that a transaction has a lock of is not changed by another. -/
lemma committed_of_locks (h : Move R t s s') (hs : Sound R s) (hu : u ≠ t) (hl : (s.txn u).Locks k) :
    s'.committed k = s.committed k := by
  cases h with
  | commit => exact RowLocks.committed_of_locks hs hu hl
  | _ => rfl

end Move

end ContinuityLedger.Foundations.RowLocks
