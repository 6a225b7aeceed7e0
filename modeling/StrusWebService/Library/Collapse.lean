import Mathlib.Data.List.SplitBy
import Mathlib.Data.List.DropRight

/-! # Runs of blanks collapsed

A list is cut into its maximal runs of blanks and of other elements. Collapsed, every
run of blanks is one space, and a trailing run is dropped.
-/

namespace Collapse

variable {τ : Type*} {blank : τ → Bool} {space : τ}

def collapse (blank : τ → Bool) (space : τ) (t : List τ) : List τ :=
  ((t.rdropWhile blank).splitBy fun a b => blank a == blank b).flatMap fun run =>
    if run.all blank then [space] else run

section Runs

theorem rdropWhile_append {t t' : List τ} (h : ∃ c ∈ t', blank c = false) :
    (t ++ t').rdropWhile blank = t ++ t'.rdropWhile blank := by
  rcases h with ⟨c, hc, hblank⟩
  have hne : (t'.reverse.dropWhile blank).isEmpty = false := by
    rw [List.isEmpty_eq_false_iff, ne_eq, List.dropWhile_eq_nil_iff]
    intro hall
    have := hall c (List.mem_reverse.mpr hc)
    rw [hblank] at this
    cases this
  simp only [List.rdropWhile, List.reverse_append, List.dropWhile_append, hne,
    List.reverse_reverse, Bool.false_eq_true, if_false]

theorem rdropWhile_blanks {t t' : List τ} (h : ∀ c ∈ t', blank c = true) :
    (t ++ t').rdropWhile blank = t.rdropWhile blank := by
  have hempty : (t'.reverse.dropWhile blank).isEmpty = true := by
    rw [List.isEmpty_iff, List.dropWhile_eq_nil_iff]
    intro c hc
    exact h c (List.mem_reverse.mp hc)
  simp only [List.rdropWhile, List.reverse_append, List.dropWhile_append, hempty, if_true]

theorem splitBy_run {run : List τ} {b : Bool} (hrun : ∀ c ∈ run, blank c = b) (hne : run ≠ []) :
    run.splitBy (fun a b => blank a == blank b) = [run] := by
  apply List.splitBy_of_isChain hne
  apply List.Pairwise.isChain
  apply List.pairwise_of_forall_mem_list
  intro c hc d hd
  rw [hrun c hc, hrun d hd]
  exact beq_self_eq_true b

/-- A run and what is behind it, up to the last element that is no blank. -/
theorem collapse_run {run t : List τ} {b : Bool} (hrun : ∀ c ∈ run, blank c = b) (hne : run ≠ [])
    (ht : ∀ d ∈ t.head?, blank d = !b) (hsome : ∃ c ∈ run ++ t, blank c = false) :
    collapse blank space (run ++ t) = (if b then [space] else run) ++ collapse blank space t := by
  have hall : run.all blank = b := by
    cases b with
    | true => simpa using hrun
    | false =>
        obtain ⟨c, hc⟩ := List.exists_mem_of_ne_nil run hne
        rw [List.all_eq_false]
        exact ⟨c, hc, by simp [hrun c hc]⟩
  have hdrop : (run ++ t).rdropWhile blank = run ++ t.rdropWhile blank := by
    by_cases hex : ∃ c ∈ t, blank c = false
    · exact rdropWhile_append hex
    · have hblank : ∀ c ∈ t, blank c = true := by
        intro c hc
        by_contra hno
        exact hex ⟨c, hc, by simpa using hno⟩
      have hb : b = false := by
        rcases hsome with ⟨c, hc, hcb⟩
        rcases List.mem_append.mp hc with h | h
        · rw [← hrun c h, hcb]
        · rw [hblank c h] at hcb
          cases hcb
      have hnil : t.rdropWhile blank = [] := List.rdropWhile_eq_nil_iff.mpr hblank
      have hlast : ∀ h : run ≠ [], ¬blank (run.getLast h) = true := by
        intro h
        rw [hrun _ (List.getLast_mem h), hb]
        exact Bool.false_ne_true
      rw [rdropWhile_blanks hblank, List.rdropWhile_eq_self_iff.mpr hlast, hnil, List.append_nil]
  have hsplit : (run ++ t.rdropWhile blank).splitBy (fun a b => blank a == blank b) =
      [run] ++ (t.rdropWhile blank).splitBy fun a b => blank a == blank b := by
    rw [← splitBy_run hrun hne]
    apply List.splitBy_append
    intro c hc d hd
    have hcrun : c ∈ run := List.mem_of_getLast? hc
    have hdt : d ∈ t.head? := by
      obtain ⟨rest, hrest⟩ := List.rdropWhile_prefix blank t
      rw [← hrest, List.head?_append]
      simp [Option.mem_def.mp hd]
    rw [hrun c hcrun, ht d hdt]
    cases b <;> rfl
  rw [collapse, hdrop, hsplit, List.flatMap_append, List.flatMap_singleton, hall]
  rfl

end Runs

section Equations

theorem collapse_blanks {t : List τ} (h : ∀ c ∈ t, blank c = true) :
    collapse blank space t = [] := by
  rw [collapse, List.rdropWhile_eq_nil_iff.mpr h]
  rfl

/-- An element that is no blank stays. -/
theorem collapse_cons {c : τ} (hc : blank c = false) (t : List τ) :
    collapse blank space (c :: t) = c :: collapse blank space t := by
  let word := t.takeWhile fun d => !blank d
  let rest := t.dropWhile fun d => !blank d
  have ht : word ++ rest = t := List.takeWhile_append_dropWhile
  have hword : ∀ d ∈ word, blank d = false := by
    intro d hd
    simpa using List.mem_takeWhile_imp hd
  have hrest : ∀ d ∈ rest.head?, blank d = !false := by
    intro d hd
    have := List.head?_dropWhile_not (fun d => !blank d) t
    rw [Option.mem_def.mp hd] at this
    simpa using this
  have hcons : collapse blank space ((c :: word) ++ rest) = c :: word ++ collapse blank space rest := by
    apply collapse_run (b := false) _ (List.cons_ne_nil _ _) hrest ⟨c, by simp, hc⟩
    intro d hd
    cases List.mem_cons.mp hd with
    | inl heq => rw [heq, hc]
    | inr hmem => exact hword d hmem
  have htail : collapse blank space t = word ++ collapse blank space rest := by
    cases hw : word with
    | nil => rw [← ht, hw, List.nil_append, List.nil_append]
    | cons d word' =>
        have hmem : d ∈ word := hw ▸ List.mem_cons_self
        rw [← ht, ← hw]
        apply collapse_run (b := false) hword (hw ▸ List.cons_ne_nil _ _) hrest
        exact ⟨d, List.mem_append_left _ hmem, hword d hmem⟩
  rw [← ht, ← List.cons_append, hcons, ht, htail]
  rfl

theorem collapse_append {word : List τ} (hword : ∀ c ∈ word, blank c = false) (t : List τ) :
    collapse blank space (word ++ t) = word ++ collapse blank space t := by
  induction word with
  | nil => rfl
  | cons c word ih =>
      rw [List.cons_append, collapse_cons (hword c List.mem_cons_self),
        ih fun d hd => hword d (List.mem_cons_of_mem c hd)]
      rfl

/-- A run of blanks before another element is one space. -/
theorem collapse_gap {blanks : List τ} {d : τ} (hblanks : ∀ c ∈ blanks, blank c = true)
    (hne : blanks ≠ []) (hd : blank d = false) (t : List τ) :
    collapse blank space (blanks ++ d :: t) = space :: d :: collapse blank space t := by
  have hhead : ∀ c ∈ (d :: t).head?, blank c = !true := by
    intro c hc
    cases hc
    exact hd
  rw [collapse_run hblanks hne hhead ⟨d, by simp, hd⟩, collapse_cons hd]
  rfl

variable (blank) in
/-- The three ways a list starts. -/
theorem runs_induct {motive : List τ → Prop} (blanks : ∀ t, (∀ c ∈ t, blank c = true) → motive t)
    (cons : ∀ c t, blank c = false → motive t → motive (c :: t))
    (gap : ∀ run d t, (∀ c ∈ run, blank c = true) → run ≠ [] → blank d = false → motive t →
      motive (run ++ d :: t)) : ∀ t, motive t := by
  intro t
  induction hn : t.length using Nat.strong_induction_on generalizing t with
  | _ n ih =>
      cases t with
      | nil => exact blanks [] (by simp)
      | cons c t =>
          cases hc : blank c with
          | false => exact cons c t hc (ih t.length (by rw [← hn, List.length_cons]; omega) t rfl)
          | true =>
              have hsplit : t.takeWhile blank ++ t.dropWhile blank = t :=
                List.takeWhile_append_dropWhile
              have hrun : ∀ e ∈ c :: t.takeWhile blank, blank e = true := by
                intro e he
                cases List.mem_cons.mp he with
                | inl heq => rw [heq, hc]
                | inr hmem => exact List.mem_takeWhile_imp hmem
              cases hrest : t.dropWhile blank with
              | nil =>
                  apply blanks
                  rw [hrest, List.append_nil] at hsplit
                  rwa [hsplit] at hrun
              | cons d rest =>
                  have hd : blank d = false := by
                    have := List.head?_dropWhile_not blank t
                    rw [hrest] at this
                    simpa using this
                  rw [hrest] at hsplit
                  have hlength := congrArg List.length hsplit
                  rw [List.length_append, List.length_cons] at hlength
                  rw [← hsplit, ← List.cons_append]
                  apply gap _ d rest hrun (List.cons_ne_nil _ _) hd
                  exact ih rest.length (by rw [← hn, List.length_cons]; omega) rest rfl

/-- What starts with a blank starts with one space, or nothing is left of it. -/
theorem collapse_blank_cons {c : τ} (hc : blank c = true) (t : List τ) :
    collapse blank space (c :: t) = [] ∨ ∃ rest, collapse blank space (c :: t) = space :: rest := by
  cases hrest : t.dropWhile blank with
  | nil =>
      left
      apply collapse_blanks
      intro d hd
      cases List.mem_cons.mp hd with
      | inl heq => rw [heq, hc]
      | inr hmem => exact List.dropWhile_eq_nil_iff.mp hrest d hmem
  | cons d rest =>
      right
      have hd : blank d = false := by
        have := List.head?_dropWhile_not blank t
        rw [hrest] at this
        simpa using this
      have hblanks : ∀ e ∈ c :: t.takeWhile blank, blank e = true := by
        intro e he
        cases List.mem_cons.mp he with
        | inl heq => rw [heq, hc]
        | inr hmem => exact List.mem_takeWhile_imp hmem
      have hsplit : t.takeWhile blank ++ t.dropWhile blank = t := List.takeWhile_append_dropWhile
      rw [← hsplit, hrest, ← List.cons_append, collapse_gap hblanks (List.cons_ne_nil _ _) hd]
      exact ⟨_, rfl⟩

end Equations

section Elements

/-- Nothing but blanks is lost. -/
theorem filter_collapse (hspace : blank space = true) (t : List τ) :
    (collapse blank space t).filter (fun c => !blank c) = t.filter fun c => !blank c := by
  induction t using runs_induct blank with
  | blanks t h =>
      rw [collapse_blanks h]
      symm
      simpa using h
  | cons c t hc ih => simp [collapse_cons hc, hc, ih]
  | gap run d t hrun hne hd ih =>
      have hnone : run.filter (fun c => !blank c) = [] := by simpa using hrun
      simp [collapse_gap hrun hne hd, hspace, hd, ih, hnone]

theorem eq_space_of_mem_collapse {t : List τ} {c : τ} (hc : c ∈ collapse blank space t)
    (hblank : blank c = true) : c = space := by
  induction t using runs_induct blank with
  | blanks t h =>
      rw [collapse_blanks h] at hc
      cases hc
  | cons d t hd ih =>
      rw [collapse_cons hd] at hc
      cases List.mem_cons.mp hc with
      | inl heq =>
          rw [heq, hd] at hblank
          cases hblank
      | inr hmem => exact ih hmem
  | gap run d t hrun hne hd ih =>
      rw [collapse_gap hrun hne hd] at hc
      cases List.mem_cons.mp hc with
      | inl heq => exact heq
      | inr hmem =>
          cases List.mem_cons.mp hmem with
          | inl heq =>
              rw [heq, hd] at hblank
              cases hblank
          | inr hmem => exact ih hmem

end Elements

end Collapse
