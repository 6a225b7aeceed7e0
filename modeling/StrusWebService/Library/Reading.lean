import Mathlib.Init

/-! # Programs that read

A program reads from a source and may fail. Two sources are alike when the reads made
from them are, and then the whole program cannot tell them apart. With a relation that
holds of equal sources only, this is a rule for what is read and for what is left.
-/

section Reading

variable {σ α β : Type} {rel : σ → σ → Prop} {good : α → Prop} {good' : β → Prop}

theorem bind_congr_run {x : StateT σ Option α} {f g : α → StateT σ Option β} {s : σ}
    (h : ∀ a r, x s = some (a, r) → f a r = g a r) : (x >>= f) s = (x >>= g) s := by
  have hleft : (x >>= f) s = (x s).bind fun (a, r) => f a r := rfl
  have hright : (x >>= g) s = (x s).bind fun (a, r) => g a r := rfl
  rw [hleft, hright]
  cases hx : x s with
  | none => rfl
  | some y => exact h y.1 y.2 hx

theorem bind_of_some {x : StateT σ Option α} {f : α → StateT σ Option β} {s r : σ} {a : α}
    (h : x s = some (a, r)) : (x >>= f) s = f a r := by
  have hrun : (x >>= f) s = (x s).bind fun (a, r) => f a r := rfl
  rw [hrun, h]
  rfl

theorem bind_of_none {x : StateT σ Option α} {f : α → StateT σ Option β} {s : σ}
    (h : x s = none) : (x >>= f) s = none := by
  have hrun : (x >>= f) s = (x s).bind fun (a, r) => f a r := rfl
  rw [hrun, h]
  rfl

/-- On related sources the program fails on both or reads the same, which is good, and
leaves related sources. -/
def Alike (rel : σ → σ → Prop) (good : α → Prop) (x : StateT σ Option α) : Prop :=
  ∀ s s', rel s s' → x s = none ∧ x s' = none ∨
    ∃ a r r', x s = some (a, r) ∧ x s' = some (a, r') ∧ good a ∧ rel r r'

namespace Alike

theorem pure {a : α} (h : good a) : Alike rel good (Pure.pure a : StateT σ Option α) :=
  fun s s' hrel => Or.inr ⟨a, s, s', rfl, rfl, h, hrel⟩

theorem fail : Alike rel good (failure : StateT σ Option α) :=
  fun _ _ _ => Or.inl ⟨rfl, rfl⟩

theorem bind {x : StateT σ Option α} {f : α → StateT σ Option β} (hx : Alike rel good x)
    (hf : ∀ a, good a → Alike rel good' (f a)) : Alike rel good' (x >>= f) := by
  intro s s' hrel
  have hleft : (x >>= f) s = (x s).bind fun (a, r) => f a r := rfl
  have hright : (x >>= f) s' = (x s').bind fun (a, r) => f a r := rfl
  rw [hleft, hright]
  cases hx s s' hrel with
  | inl hnone =>
      rw [hnone.1, hnone.2]
      exact Or.inl ⟨rfl, rfl⟩
  | inr hsome =>
      rcases hsome with ⟨a, r, r', hr, hr', ha, hrest⟩
      rw [hr, hr']
      exact hf a ha r r' hrest

theorem fail_bind {f : α → StateT σ Option β} :
    Alike rel good' ((failure : StateT σ Option α) >>= f) :=
  fun _ _ _ => Or.inl ⟨rfl, rfl⟩

theorem mono {good₁ : α → Prop} {x : StateT σ Option α} (hx : Alike rel good x)
    (h : ∀ a, good a → good₁ a) : Alike rel good₁ x := by
  intro s s' hrel
  cases hx s s' hrel with
  | inl hnone => exact Or.inl hnone
  | inr hsome =>
      rcases hsome with ⟨a, r, r', hr, hr', ha, hrest⟩
      exact Or.inr ⟨a, r, r', hr, hr', h a ha, hrest⟩

theorem ite {c : Prop} [Decidable c] {x y : StateT σ Option α} (hx : c → Alike rel good x)
    (hy : ¬c → Alike rel good y) : Alike rel good (if c then x else y) := by
  split
  · rename_i hc
    exact hx hc
  · rename_i hc
    exact hy hc

/-- A loop whose turns are bounded by the size of the source. -/
theorem loop (loop : Nat → StateT σ Option α) (size : σ → Nat)
    (hfuel : ∀ n s, size s < n → loop (n + 1) s = loop n s)
    (hloop : ∀ n, Alike rel good (loop n)) : Alike rel good fun s => loop (size s + 1) s := by
  have hmore : ∀ n s, loop (size s + 1 + n) s = loop (size s + 1) s := by
    intro n s
    induction n with
    | zero => rfl
    | succ n ih => rw [← ih, ← Nat.add_assoc, hfuel _ s (by omega)]
  intro s s' hrel
  have hboth := hloop (size s + 1 + (size s' + 1)) s s' hrel
  have hright : size s + 1 + (size s' + 1) = size s' + 1 + (size s + 1) := Nat.add_comm _ _
  rw [hmore, hright, hmore] at hboth
  exact hboth

end Alike

end Reading
