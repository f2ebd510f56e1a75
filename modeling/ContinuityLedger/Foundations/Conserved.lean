import Mathlib.Algebra.Group.Defs
import Mathlib.Logic.Basic

/-! Computations that may raise and keep what they have done: the messages they have emitted stay emitted, and a quantity that they raise
by a known amount where they return is left as it was where they raise. -/

namespace ContinuityLedger.Foundations

structure Pass (M E A : Type) where
  messages : List M
  outcome : Except E A

namespace Pass

variable {M E A B : Type}

protected def bind (x : Pass M E A) (f : A → Pass M E B) : Pass M E B :=
  match x.outcome with
  | .error e => ⟨x.messages, .error e⟩
  | .ok a => ⟨x.messages ++ (f a).messages, (f a).outcome⟩

instance : Monad (Pass M E) where
  pure a := ⟨[], .ok a⟩
  bind := Pass.bind

def emit (m : M) : Pass M E Unit := ⟨[m], .ok ()⟩

def ofExcept (r : Except E A) : Pass M E A := ⟨[], r⟩

/-- Stop with `e` where `c` holds. -/
def refuse (c : Prop) [Decidable c] (e : E) : Pass M E Unit := ofExcept (if c then .error e else .ok ())

lemma bind_eq (x : Pass M E A) (f : A → Pass M E B) : x >>= f = Pass.bind x f := rfl

lemma subset_bind (x : Pass M E A) (f : A → Pass M E B) : x.messages ⊆ (x >>= f).messages := by
  rw [bind_eq]
  unfold Pass.bind
  cases x.outcome with
  | error e => exact List.Subset.refl _
  | ok a => exact List.subset_append_left _ _

lemma bind_subset {x : Pass M E A} {a : A} (h : x.outcome = .ok a) (f : A → Pass M E B) :
    (f a).messages ⊆ (x >>= f).messages := by
  rw [bind_eq]
  unfold Pass.bind
  rw [h]
  exact List.subset_append_right _ _

/-- A bind that comes to an end did so in both parts, and emitted what they emitted. -/
lemma bind_ok {x : Pass M E A} {f : A → Pass M E B} {b : B} (h : (x >>= f).outcome = .ok b) :
    ∃ a, x.outcome = .ok a ∧ (f a).outcome = .ok b ∧
      x.messages ⊆ (x >>= f).messages ∧ (f a).messages ⊆ (x >>= f).messages := by
  cases hx : x.outcome with
  | error e =>
    rw [bind_eq] at h
    simp [Pass.bind, hx] at h
  | ok a =>
    refine ⟨a, rfl, ?_, subset_bind x f, bind_subset hx f⟩
    rw [bind_eq] at h
    simpa only [Pass.bind, hx] using h

/-- Every message emitted has the property, however the computation ends. -/
def All (P : M → Prop) (x : Pass M E A) : Prop := ∀ m ∈ x.messages, P m

variable {P : M → Prop}

lemma all_pure (a : A) : All P (pure a : Pass M E A) := by simp [All, pure]

lemma all_emit {m : M} (h : P m) : All P (emit m : Pass M E Unit) := by simpa [All, emit] using h

lemma all_ofExcept (r : Except E A) : All P (ofExcept r : Pass M E A) := by simp [All, ofExcept]

lemma all_refuse (c : Prop) [Decidable c] (e : E) : All P (refuse c e : Pass M E Unit) := all_ofExcept _

lemma all_bind {x : Pass M E A} {f : A → Pass M E B} (hx : All P x)
    (hf : ∀ a, x.outcome = .ok a → All P (f a)) : All P (x >>= f) := by
  rw [bind_eq]
  unfold Pass.bind
  cases ho : x.outcome with
  | error e => exact hx
  | ok a =>
    intro m hm
    rcases List.mem_append.mp hm with hm | hm
    · exact hx m hm
    · exact hf a ho m hm

lemma ofExcept_ok {r : Except E A} {a : A} (h : (ofExcept r : Pass M E A).outcome = .ok a) : r = .ok a := h

lemma refuse_ok {c : Prop} [Decidable c] {e : E} {u : Unit} (h : (refuse c e : Pass M E Unit).outcome = .ok u) :
    ¬ c := by
  intro hc
  simp [refuse, ofExcept, hc] at h

end Pass

end ContinuityLedger.Foundations

namespace ContinuityLedger.Foundations.Conserved

variable {E S A B : Type} {M : Type*} [AddCommMonoid M]

/-- From here the program adds so much to the quantity where it returns, and nothing where it raises. -/
def AddsAt (q : S → M) (d : A → M) (m : EStateM E S A) (s : S) : Prop :=
  match m s with
  | .ok a s' => q s' = q s + d a
  | .error _ s' => q s' = q s

def Adds (q : S → M) (d : A → M) (m : EStateM E S A) : Prop := ∀ s, AddsAt q d m s

/-- The program leaves the quantity as it was, also where it raises. -/
abbrev KeepsAt (q : S → M) (m : EStateM E S A) (s : S) : Prop := AddsAt q (fun _ => 0) m s

abbrev Keeps (q : S → M) (m : EStateM E S A) : Prop := ∀ s, KeepsAt q m s

variable {q : S → M} {d : A → M} {m : EStateM E S A} {s s' : S} {a : A}

lemma AddsAt.ok (h : AddsAt q d m s) (hrun : m s = .ok a s') : q s' = q s + d a := by
  rwa [AddsAt, hrun] at h

lemma AddsAt.error {e : E} (h : AddsAt q d m s) (hrun : m s = .error e s') : q s' = q s := by
  rwa [AddsAt, hrun] at h

lemma addsAt_pure (h : d a = 0) : AddsAt q d (pure a : EStateM E S A) s := by
  change q s = q s + d a
  rw [h, add_zero]

lemma keeps_pure (a : A) : Keeps q (pure a : EStateM E S A) := fun _ => addsAt_pure rfl

lemma adds_throw (e : E) : Adds q d (throw e : EStateM E S A) := fun _ => rfl

/-- What comes first leaves the quantity as it was. -/
lemma AddsAt.bind {f : A → EStateM E S B} {d : B → M} (hm : KeepsAt q m s) (hf : ∀ a s', m s = .ok a s' → AddsAt q d (f a) s') :
    AddsAt q d (m >>= f) s := by
  have hbind : (m >>= f) s = EStateM.bind m f s := rfl
  rw [AddsAt, hbind, EStateM.bind]
  cases hrun : m s with
  | error e s' => exact hm.error hrun
  | ok a s' =>
    have hnext := hf a s' hrun
    rw [AddsAt, hm.ok hrun, add_zero] at hnext
    exact hnext

lemma Adds.bind {f : A → EStateM E S B} {d : B → M} (hm : Keeps q m) (hf : ∀ a, Adds q d (f a)) : Adds q d (m >>= f) :=
  fun s => (hm s).bind fun a s' _ => hf a s'

lemma addsAt_get {f : S → EStateM E S B} {d : B → M} (h : AddsAt q d (f s) s) : AddsAt q d (get >>= f) s := h

lemma keepsAt_modify {f : S → S} (h : q (f s) = q s) : KeepsAt q (modify f : EStateM E S PUnit) s := by
  change q (f s) = q s + 0
  rw [h, add_zero]

lemma AddsAt.result {g : A → B} {d' : B → M} (hm : AddsAt q d m s) (hd : ∀ a, d' (g a) = d a) :
    AddsAt q d' (m >>= fun a => pure (g a)) s := by
  have hbind : (m >>= fun a => pure (g a)) s = EStateM.bind m (fun a => pure (g a)) s := rfl
  rw [AddsAt, hbind, EStateM.bind]
  cases hrun : m s with
  | error e s' => exact hm.error hrun
  | ok a s' =>
    change q s' = q s + d' (g a)
    rw [hd, hm.ok hrun]

/-- The state is changed behind what comes first, and nothing raises from there on. -/
lemma AddsAt.finish {f : A → S → S} {g : A → B} {d' : B → M} (hm : AddsAt q d m s)
    (hf : ∀ a s', m s = .ok a s' → q (f a s') = q s + d' (g a)) :
    AddsAt q d' (m >>= fun a => modify (f a) >>= fun _ => pure (g a)) s := by
  have hbind : (m >>= fun a => modify (f a) >>= fun _ => pure (g a)) s =
    EStateM.bind m (fun a => modify (f a) >>= fun _ => pure (g a)) s := rfl
  rw [AddsAt, hbind, EStateM.bind]
  cases hrun : m s with
  | error e s' => exact hm.error hrun
  | ok a s' => exact hf a s' hrun

/-! ### Moves -/

/-- The state that the program leaves, also where it raises. -/
def final : EStateM.Result E S A → S
  | .ok _ s => s
  | .error _ s => s

/-- The program leaves a state only for one that is related to it. -/
def Within (r : S → S → Prop) (m : EStateM E S A) : Prop := ∀ s, r s (final (m s))

variable {r : S → S → Prop}

lemma within_pure (hr : ∀ s, r s s) (a : A) : Within r (pure a : EStateM E S A) := hr

lemma within_throw (hr : ∀ s, r s s) (e : E) : Within r (throw e : EStateM E S A) := hr

lemma Within.bind {f : A → EStateM E S B} (ht : ∀ s t u, r s t → r t u → r s u) (hm : Within r m) (hf : ∀ a, Within r (f a)) :
    Within r (m >>= f) := fun s => by
  have hbind : (m >>= f) s = EStateM.bind m f s := rfl
  have hfirst := hm s
  rw [hbind, EStateM.bind]
  cases hrun : m s with
  | error e s' =>
    rw [hrun] at hfirst
    exact hfirst
  | ok a s' =>
    rw [hrun] at hfirst
    exact ht _ _ _ hfirst (hf a s')

lemma within_get {f : S → EStateM E S A} (hf : ∀ s, Within r (f s)) : Within r (get >>= f) := fun s => hf s s

lemma within_modify {f : S → S} (hf : ∀ s, r s (f s)) : Within r (modify f : EStateM E S PUnit) := hf

end ContinuityLedger.Foundations.Conserved
