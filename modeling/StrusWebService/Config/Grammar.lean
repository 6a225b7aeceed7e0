import StrusWebService.Config.Scan

/-! # The strings the scan stays inside

What the scan of a string without NUL reads behind a `{`: blanks, the longest name
and blanks again. `rewrite` is the left-to-right rewriting of the references by
these parts. The blanks are skipped without a look at the NUL, so the scan leaves
the buffer when the string ends in one of them, and only then.
-/

namespace StrusWebService.Config

/-- A C string: the bytes before its NUL. -/
structure CString where
  bytes : Str
  noNul : 0 ∉ bytes

def isBlank (c : UInt8) : Bool := c ≤ 32

def isNameByte (c : UInt8) : Bool := c > 32 && c ≠ braceClose

/-- The name behind a `{` and the blanks that follow it. -/
def nameBehind (t : Str) : Str := (t.dropWhile isBlank).takeWhile isNameByte

/-- The blanks behind the name. -/
def blanksBehind (t : Str) : Str := ((t.dropWhile isBlank).dropWhile isNameByte).takeWhile isBlank

/-- What stands behind the blanks, the name and the blanks. -/
def restBehind (t : Str) : Str := ((t.dropWhile isBlank).dropWhile isNameByte).dropWhile isBlank

/-- The bytes behind a `{` have the form of a reference. -/
def IsReference (t : Str) : Prop := (restBehind t).head? = some braceClose ∧ nameBehind t ≠ []

instance (t : Str) : Decidable (IsReference t) := inferInstanceAs (Decidable (_ ∧ _))

/-- The part already inspected when the form is seen not to match. -/
def inspected (t : Str) : Str := braceOpen :: (t.takeWhile isBlank ++ nameBehind t ++ blanksBehind t)

/-- Where the scan goes on: behind the `}`, or behind the part inspected. -/
def resumeAt (t : Str) : Str := if IsReference t then (restBehind t).tail else restBehind t

theorem length_restBehind_le (t : Str) : (restBehind t).length ≤ t.length := by
  have hblanks := (List.dropWhile_sublist isBlank (l := t)).length_le
  have hname := (List.dropWhile_sublist isNameByte (l := t.dropWhile isBlank)).length_le
  have hrest := (List.dropWhile_sublist isBlank
    (l := (t.dropWhile isBlank).dropWhile isNameByte)).length_le
  exact Nat.le_trans hrest (Nat.le_trans hname hblanks)

theorem length_resumeAt_le (t : Str) : (resumeAt t).length ≤ t.length := by
  have hrest := length_restBehind_le t
  unfold resumeAt
  split
  · rw [List.length_tail]
    omega
  · exact hrest

/-- The references are replaced from left to right; every other byte is copied. -/
def rewrite (get : Str → Str) : Str → Str
  | [] => []
  | c :: t =>
      if c = braceOpen then
        (if IsReference t then get (nameBehind t) else inspected t) ++ rewrite get (resumeAt t)
      else c :: rewrite get t
  termination_by s => s.length
  decreasing_by
    · exact Nat.lt_succ_of_le (length_resumeAt_le t)
    · exact Nat.lt_succ_self _

/-- The string does not end in what is skipped behind a `{` that is reached. -/
def Closed : Str → Prop
  | [] => True
  | c :: t => if c = braceOpen then restBehind t ≠ [] ∧ Closed (resumeAt t) else Closed t
  termination_by s => s.length
  decreasing_by
    · exact Nat.lt_succ_of_le (length_resumeAt_le t)
    · exact Nat.lt_succ_self _

/-! ### The loops over blanks and names -/

theorem skipBlanks_nul (t : Str) :
    skipBlanks (t ++ [0]) =
      if t.dropWhile isBlank = [] then none
      else some (t.takeWhile isBlank, t.dropWhile isBlank ++ [0]) := by
  induction t with
  | nil => rfl
  | cons c t ih =>
      rw [List.cons_append, skipBlanks]
      by_cases hc : c ≤ 32
      · have hblank : isBlank c = true := decide_eq_true hc
        rw [if_pos hc, ih, List.dropWhile_cons_of_pos hblank, List.takeWhile_cons_of_pos hblank]
        split <;> rfl
      · have hblank : ¬isBlank c = true := fun h => hc (of_decide_eq_true h)
        rw [if_neg hc, List.dropWhile_cons_of_neg hblank, List.takeWhile_cons_of_neg hblank]
        rfl

theorem scanVariable_nul (t : Str) :
    scanVariable (t ++ [0]) = some (t.takeWhile isNameByte, t.dropWhile isNameByte ++ [0]) := by
  induction t with
  | nil => rfl
  | cons c t ih =>
      rw [List.cons_append, scanVariable]
      by_cases hc : c > 32 ∧ c ≠ braceClose
      · have hname : isNameByte c = true := by simpa [isNameByte] using hc
        rw [if_pos hc, ih, List.dropWhile_cons_of_pos hname, List.takeWhile_cons_of_pos hname]
        rfl
      · have hname : ¬isNameByte c = true := by simpa [isNameByte] using hc
        rw [if_neg hc, List.dropWhile_cons_of_neg hname, List.takeWhile_cons_of_neg hname]
        rfl

/-! ### The scan -/

/-- One turn of the loop over the bytes before a `{` and what is skipped behind it. -/
theorem substLoop_turn (get : Str → Str) (fuel : Nat) (res : Str) {text : Str} (h : Copied text)
    (t : Str) :
    substLoop get (fuel + 1) res (text ++ braceOpen :: (t ++ [0])) =
      if restBehind t = [] then none
      else
        substLoop get fuel
          (res ++ text ++ if IsReference t then get (nameBehind t) else inspected t)
          (resumeAt t ++ [0]) := by
  have hfound : strchrBrace (text ++ braceOpen :: (t ++ [0])) =
      some (text, some (braceOpen :: (t ++ [0]))) := by
    rw [strchrBrace_append h]
    simp [strchrBrace]
  by_cases hblanks : t.dropWhile isBlank = []
  · have hrest : restBehind t = [] := by simp [restBehind, hblanks]
    have hfirst : skipBlanks (t ++ [0]) = none := by rw [skipBlanks_nul, if_pos hblanks]
    simp only [substLoop, hfound, hrest, hfirst, Option.bind_some, Option.bind_none,
      List.tail_cons, if_true]
  · have hfirst : skipBlanks (t ++ [0]) =
        some (t.takeWhile isBlank, t.dropWhile isBlank ++ [0]) := by
      rw [skipBlanks_nul, if_neg hblanks]
    have hname := scanVariable_nul (t.dropWhile isBlank)
    have hsecond := skipBlanks_nul ((t.dropWhile isBlank).dropWhile isNameByte)
    simp only [substLoop, hfound, hfirst, hname, hsecond, Option.bind_some, List.tail_cons]
    show ((if restBehind t = [] then none else some (blanksBehind t, restBehind t ++ [0])).bind
      fun _ => _) = _
    cases hrest : restBehind t with
    | nil => rfl
    | cons c rest =>
        rw [if_neg (List.cons_ne_nil c rest), if_neg (List.cons_ne_nil c rest), Option.bind_some]
        show (if some c = some braceClose ∧ nameBehind t ≠ [] then _ else _) = _
        unfold resumeAt
        by_cases href : IsReference t
        · have hc := href
          rw [IsReference, hrest, List.head?_cons] at hc
          rw [if_pos hc, if_pos href, if_pos href, hrest]
          rfl
        · have hc := href
          rw [IsReference, hrest, List.head?_cons] at hc
          rw [if_neg hc, if_neg href, if_neg href, hrest]
          rfl

theorem substLoop_end (get : Str → Str) (fuel : Nat) (res : Str) {text : Str} (h : Copied text) :
    substLoop get (fuel + 1) res (text ++ [0]) = some (res ++ text) := by
  have hfound : strchrBrace (text ++ [0]) = some (text, none) := by
    rw [strchrBrace_append h]
    simp [strchrBrace, braceOpen]
  rw [substLoop, hfound, Option.bind_some]

theorem Copied.nil : Copied [] := fun _ hc => nomatch hc

theorem copied_append_singleton {text : Str} (h : Copied text) {c : UInt8} (hzero : c ≠ 0)
    (hopen : c ≠ braceOpen) : Copied (text ++ [c]) := by
  intro d hd
  cases List.mem_append.mp hd with
  | inl hd => exact h d hd
  | inr hd =>
      rw [List.mem_singleton] at hd
      rw [hd]
      exact ⟨hzero, hopen⟩

theorem restBehind_subset (t : Str) : restBehind t ⊆ t := by
  have hname := List.dropWhile_subset (l := t.dropWhile isBlank) isNameByte
  have hblanks := List.dropWhile_subset (l := t) isBlank
  exact List.Subset.trans (List.dropWhile_subset isBlank) (List.Subset.trans hname hblanks)

theorem zero_not_mem_resumeAt {t : Str} (h : 0 ∉ t) : 0 ∉ resumeAt t := by
  intro hzero
  apply h
  apply restBehind_subset t
  unfold resumeAt at hzero
  split at hzero
  · exact List.mem_of_mem_tail hzero
  · exact hzero

/-- On a closed string the scan ends with the rewriting; `text` has been passed already. -/
theorem substLoop_closed (get : Str → Str) (str : Str) :
    0 ∉ str → Closed str → ∀ (fuel : Nat) (res text : Str), str.length < fuel → Copied text →
      substLoop get fuel res (text ++ (str ++ [0])) = some (res ++ text ++ rewrite get str) := by
  induction str using Closed.induct with
  | case1 =>
      intro _ _ fuel res text hfuel htext
      obtain ⟨fuel, rfl⟩ : ∃ n, fuel = n + 1 := ⟨fuel - 1, by omega⟩
      rw [rewrite, List.append_nil]
      exact substLoop_end get fuel res htext
  | case2 t ih =>
      intro hzero hclosed fuel res text hfuel htext
      obtain ⟨fuel, rfl⟩ : ∃ n, fuel = n + 1 := ⟨fuel - 1, by omega⟩
      rw [Closed, if_pos rfl] at hclosed
      have hlength := length_resumeAt_le t
      have hrest := ih (zero_not_mem_resumeAt fun h => hzero (List.mem_cons_of_mem _ h)) hclosed.2
        fuel (res ++ text ++ if IsReference t then get (nameBehind t) else inspected t) []
        (by simp at hfuel; omega) Copied.nil
      rw [List.cons_append, substLoop_turn get fuel res htext, if_neg hclosed.1, rewrite,
        if_pos rfl]
      simpa using hrest
  | case3 c t hopen ih =>
      intro hzero hclosed fuel res text hfuel htext
      rw [Closed, if_neg hopen] at hclosed
      have hc : c ≠ 0 := fun h => hzero (by rw [h]; exact List.mem_cons_self)
      have hrest := ih (fun h => hzero (List.mem_cons_of_mem _ h)) hclosed fuel res (text ++ [c])
        (by simp at hfuel; omega) (copied_append_singleton htext hc hopen)
      rw [rewrite, if_neg hopen]
      simpa using hrest

/-- On any other string it leaves the buffer, however many turns it is given. -/
theorem substLoop_not_closed (get : Str → Str) (str : Str) :
    0 ∉ str → ¬Closed str → ∀ (fuel : Nat) (res text : Str), Copied text →
      substLoop get fuel res (text ++ (str ++ [0])) = none := by
  induction str using Closed.induct with
  | case1 =>
      intro _ hclosed
      rw [Closed] at hclosed
      contradiction
  | case2 t ih =>
      intro hzero hclosed fuel res text htext
      cases fuel with
      | zero => rfl
      | succ fuel =>
          rw [Closed, if_pos rfl] at hclosed
          rw [List.cons_append, substLoop_turn get fuel res htext]
          split
          · rfl
          · rename_i hrest
            have hnot : ¬Closed (resumeAt t) := fun h => hclosed ⟨hrest, h⟩
            exact ih (zero_not_mem_resumeAt fun h => hzero (List.mem_cons_of_mem _ h)) hnot fuel _ []
              Copied.nil
  | case3 c t hopen ih =>
      intro hzero hclosed fuel res text htext
      rw [Closed, if_neg hopen] at hclosed
      have hc : c ≠ 0 := fun h => hzero (by rw [h]; exact List.mem_cons_self)
      have hrest := ih (fun h => hzero (List.mem_cons_of_mem _ h)) hclosed fuel res (text ++ [c])
        (copied_append_singleton htext hc hopen)
      simpa using hrest

/-- The scan stays inside the buffer and ends if and only if the string is closed. -/
theorem scan_ends_iff (get : Str → Str) (str : CString) :
    (∃ fuel res, substLoop get fuel [] (str.bytes ++ [0]) = some res) ↔ Closed str.bytes := by
  constructor
  · intro h
    by_contra hclosed
    rcases h with ⟨fuel, res, hres⟩
    have hnone := substLoop_not_closed get str.bytes str.noNul hclosed fuel [] [] Copied.nil
    rw [List.nil_append, hres] at hnone
    nomatch hnone
  · intro h
    exact ⟨_, _, substLoop_closed get str.bytes str.noNul h _ [] [] (Nat.lt_succ_self _)
      Copied.nil⟩

/-- `{` at the end of the string: the blanks are looked for behind the NUL. -/
theorem scan_leaves_buffer :
    ¬∃ fuel res, substLoop id fuel [] ([braceOpen] ++ [0]) = some res := by
  intro h
  have hopen : ¬Closed [braceOpen] := by
    rw [Closed, if_pos rfl]
    exact fun hclosed => hclosed.1 rfl
  rcases h with ⟨fuel, res, hres⟩
  have hnone := substLoop_not_closed id [braceOpen] (by decide) hopen fuel [] [] Copied.nil
  rw [List.nil_append, hres] at hnone
  nomatch hnone

/-- A closed string is rewritten from left to right. -/
theorem substConfigReferenceVariables_eq_rewrite (get : Str → Str) (str : CString)
    (h : Closed str.bytes) :
    substConfigReferenceVariables get str.bytes = some (rewrite get str.bytes) :=
  substLoop_closed get str.bytes str.noNul h (str.bytes.length + 2) [] [] (by omega)
    Copied.nil

/-- `a{ b }{}`: the reference is replaced, the empty one is copied. -/
theorem rewrite_sample :
    substConfigReferenceVariables (fun name => name ++ name) [97, 123, 32, 98, 32, 125, 123, 125] =
      some [97, 98, 98, 123, 125] := by
  have hclosed : Closed [97, 123, 32, 98, 32, 125, 123, 125] := by
    simp [Closed, restBehind, nameBehind, resumeAt, IsReference, isBlank, isNameByte, braceOpen,
      braceClose]
  have h := substConfigReferenceVariables_eq_rewrite (fun name => name ++ name)
    ⟨[97, 123, 32, 98, 32, 125, 123, 125], by decide⟩ hclosed
  rw [h]
  simp [rewrite, restBehind, nameBehind, blanksBehind, inspected, resumeAt, IsReference, isBlank,
    isNameByte, braceOpen, braceClose]

end StrusWebService.Config
