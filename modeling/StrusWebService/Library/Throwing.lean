import Mathlib.Data.List.Basic
import Mathlib.Order.Defs.Unbundled

/-! # Programs that keep their state when they throw

An exception of C++ does not undo what the program did before it. `EStateM` has
the same meaning, because its error carries the state. `Wp` gives a program two
postconditions, one for a normal return and one for an exception; the rules below
follow the constructors of the program.
-/

namespace Throwing

variable {ε σ α β : Type}

/-- A normal return meets `ok`, an exception meets `thrown`. -/
def Wp (m : EStateM ε σ α) (ok : α → σ → Prop) (thrown : ε → σ → Prop) (s : σ) : Prop :=
  match m s with
  | .ok a t => ok a t
  | .error e t => thrown e t

section Rules

variable {ok : α → σ → Prop} {thrown : ε → σ → Prop} {s : σ}

@[simp] theorem wp_pure (a : α) : Wp (pure a) ok thrown s ↔ ok a s := Iff.rfl

@[simp] theorem wp_throw (e : ε) : Wp (throw e) ok thrown s ↔ thrown e s := Iff.rfl

@[simp] theorem wp_get {ok : σ → σ → Prop} : Wp get ok thrown s ↔ ok s s := Iff.rfl

@[simp] theorem wp_modify {ok : PUnit → σ → Prop} (f : σ → σ) :
    Wp (modify f) ok thrown s ↔ ok ⟨⟩ (f s) := Iff.rfl

@[simp] theorem wp_bind (m : EStateM ε σ β) (f : β → EStateM ε σ α) :
    Wp (m >>= f) ok thrown s ↔ Wp m (fun b => Wp (f b) ok thrown) thrown s := by
  simp only [Wp, bind, EStateM.bind]
  cases m s with
  | ok b t => rfl
  | error e t => rfl

@[simp] theorem wp_tryCatch (m : EStateM ε σ α) (handler : ε → EStateM ε σ α) :
    Wp (tryCatch m handler) ok thrown s ↔
      Wp m ok (fun e => Wp (handler e) ok thrown) s := by
  simp only [Wp, tryCatch, tryCatchThe, MonadExceptOf.tryCatch, EStateM.tryCatch]
  cases m s with
  | ok a t => rfl
  | error e t => rfl

@[simp] theorem wp_ite (c : Prop) [Decidable c] (m k : EStateM ε σ α) :
    Wp (if c then m else k) ok thrown s ↔ if c then Wp m ok thrown s else Wp k ok thrown s := by
  split <;> rfl

/-- Weaker postconditions hold of the same program. -/
theorem Wp.mono {m : EStateM ε σ α} {ok' : α → σ → Prop} {thrown' : ε → σ → Prop}
    (h : Wp m ok thrown s) (hok : ∀ a t, ok a t → ok' a t)
    (hthrown : ∀ e t, thrown e t → thrown' e t) : Wp m ok' thrown' s := by
  unfold Wp at h ⊢
  cases hm : m s with
  | ok a t =>
      rw [hm] at h
      exact hok a t h
  | error e t =>
      rw [hm] at h
      exact hthrown e t h

/-- What two rules say of the same program holds together. -/
theorem Wp.and {m : EStateM ε σ α} {ok' : α → σ → Prop} {thrown' : ε → σ → Prop}
    (h : Wp m ok thrown s) (h' : Wp m ok' thrown' s) :
    Wp m (fun a t => ok a t ∧ ok' a t) (fun e t => thrown e t ∧ thrown' e t) s := by
  unfold Wp at h h' ⊢
  cases hm : m s with
  | ok a t =>
      rw [hm] at h h'
      exact ⟨h, h'⟩
  | error e t =>
      rw [hm] at h h'
      exact ⟨h, h'⟩

end Rules

/-- However the program is left, the state then is related to the one before. -/
def Within (rel : σ → σ → Prop) (m : EStateM ε σ α) : Prop :=
  ∀ s, Wp m (fun _ t => rel s t) (fun _ t => rel s t) s

section Within

variable {rel : σ → σ → Prop}

theorem Within.modify {f : σ → σ} (h : ∀ s, rel s (f s)) :
    Within rel (modify f : EStateM ε σ PUnit) := h

theorem Within.pure [Std.Refl rel] (a : α) : Within rel (pure a : EStateM ε σ α) := refl_of rel

theorem Within.throw [Std.Refl rel] (e : ε) : Within rel (throw e : EStateM ε σ α) := refl_of rel

theorem Within.bind [IsTrans σ rel] {m : EStateM ε σ β} {k : β → EStateM ε σ α}
    (hm : Within rel m) (hk : ∀ b, Within rel (k b)) : Within rel (m >>= k) := by
  intro s
  rw [wp_bind]
  apply (hm s).mono
  · intro b t ht
    apply (hk b t).mono
    · intro a u hu
      exact trans_of rel ht hu
    · intro e u hu
      exact trans_of rel ht hu
  · intro e t ht
    exact ht

theorem Within.tryCatch [IsTrans σ rel] {m : EStateM ε σ α} {handler : ε → EStateM ε σ α}
    (hm : Within rel m) (hhandler : ∀ e, Within rel (handler e)) :
    Within rel (tryCatch m handler) := by
  intro s
  rw [wp_tryCatch]
  apply (hm s).mono
  · intro a t ht
    exact ht
  · intro e t ht
    apply (hhandler e t).mono
    · intro a u hu
      exact trans_of rel ht hu
    · intro e' u hu
      exact trans_of rel ht hu

end Within

/-- The state a program leaves behind, whether it returned or threw. -/
def finalState (m : EStateM ε σ α) (s : σ) : σ :=
  match m s with
  | .ok _ t => t
  | .error _ t => t

/-- A fact about every outcome is a fact about the state left behind. -/
theorem finalState_of_wp {m : EStateM ε σ α} {p : σ → Prop} {s : σ}
    (h : Wp m (fun _ => p) (fun _ => p) s) : p (finalState m s) := by
  unfold Wp at h
  unfold finalState
  cases hm : m s with
  | ok a t =>
      rw [hm] at h
      exact h
  | error e t =>
      rw [hm] at h
      exact h

theorem finalState_of_within {rel : σ → σ → Prop} {m : EStateM ε σ α} (h : Within rel m) (s : σ) :
    rel s (finalState m s) :=
  finalState_of_wp (h s)

end Throwing
