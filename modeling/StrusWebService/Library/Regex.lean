import Mathlib.Data.List.Basic

/-! # Expressions of characters and groups

The regular expressions that are written with characters that stand for themselves, with
groups `(\w+)` for a word and with groups `(.*)` for a rest of a line. What an expression
matches, and with which groups, is a relation. A matcher is correct if it finds groups for
just the texts that are matched; which of several it finds is left open.
-/

namespace Regex

inductive Piece where
  | char (c : Char)
  | word
  | line
  deriving DecidableEq

/-- The characters that do not stand for themselves. -/
def special : List Char :=
  ['\\', '^', '$', '.', '|', '?', '*', '+', '(', ')', '[', ']', '\x7b', '\x7d']

/-- All characters stand for themselves. -/
def Plain (chars : List Char) : Prop := ∀ c ∈ chars, c ∉ special

instance : DecidablePred Plain := List.decidableBAll (· ∉ special)

namespace Piece

def text : Piece → List Char
  | .char c => [c]
  | .word => ['(', '\\', 'w', '+', ')']
  | .line => ['(', '.', '*', ')']

def Literal : Piece → Prop
  | .char c => c ∉ special
  | _ => True

end Piece

def text (pieces : List Piece) : List Char := pieces.flatMap Piece.text

def isWord (c : Char) : Bool := c.isAlphanum || c == '_'

def IsWord (word : List Char) : Prop := word ≠ [] ∧ ∀ c ∈ word, isWord c = true

instance : DecidablePred IsWord := fun word =>
  have : Decidable (∀ c ∈ word, isWord c = true) := List.decidableBAll (isWord · = true) word
  inferInstanceAs (Decidable (word ≠ [] ∧ ∀ c ∈ word, isWord c = true))

/-- The whole of a text is matched with these groups. -/
inductive Matches : List Piece → List Char → List (List Char) → Prop where
  | nil : Matches [] [] []
  | char {pieces behind groups} (c : Char) (h : Matches pieces behind groups) :
      Matches (.char c :: pieces) (c :: behind) groups
  | word {pieces behind groups word} (hword : IsWord word) (h : Matches pieces behind groups) :
      Matches (.word :: pieces) (word ++ behind) (word :: groups)
  | line {pieces behind groups line} (hline : '\n' ∉ line) (h : Matches pieces behind groups) :
      Matches (.line :: pieces) (line ++ behind) (line :: groups)

section Matches

variable {pieces : List Piece} {src : List Char} {groups : List (List Char)}

theorem matches_nil_iff : Matches [] src groups ↔ src = [] ∧ groups = [] := by
  constructor
  · intro h
    cases h
    exact ⟨rfl, rfl⟩
  · intro h
    rcases h with ⟨rfl, rfl⟩
    exact .nil

theorem matches_chars_iff {chars : List Char} :
    Matches (chars.map .char ++ pieces) src groups ↔
      ∃ behind, src = chars ++ behind ∧ Matches pieces behind groups := by
  induction chars generalizing src with
  | nil => simp
  | cons c chars ih =>
      constructor
      · intro h
        cases h with
        | char _ h =>
            obtain ⟨behind, rfl, hbehind⟩ := ih.mp h
            exact ⟨behind, rfl, hbehind⟩
      · intro h
        rcases h with ⟨behind, rfl, hbehind⟩
        exact .char c (ih.mpr ⟨behind, rfl, hbehind⟩)

theorem matches_word_iff : Matches [.word] src groups ↔ IsWord src ∧ groups = [src] := by
  constructor
  · intro h
    cases h with
    | word hword h =>
        obtain ⟨rfl, rfl⟩ := matches_nil_iff.mp h
        rw [List.append_nil]
        exact ⟨hword, rfl⟩
  · intro h
    rcases h with ⟨hword, rfl⟩
    rw [← List.append_nil src]
    simpa using Matches.word hword .nil

theorem matches_line_iff : Matches [.line] src groups ↔ '\n' ∉ src ∧ groups = [src] := by
  constructor
  · intro h
    cases h with
    | line hline h =>
        obtain ⟨rfl, rfl⟩ := matches_nil_iff.mp h
        rw [List.append_nil]
        exact ⟨hline, rfl⟩
  · intro h
    rcases h with ⟨hline, rfl⟩
    rw [← List.append_nil src]
    simpa using Matches.line hline .nil

end Matches

/-! ## Correct matchers -/

/-- A matcher takes an expression and a text, and returns the groups. -/
structure Correct (regexMatch : String → String → Option (List String)) : Prop where
  sound : ∀ {pieces : List Piece} {src : String} {groups : List String},
    (∀ piece ∈ pieces, piece.Literal) →
    regexMatch (String.ofList (text pieces)) src = some groups →
    Matches pieces src.toList (groups.map String.toList)
  complete : ∀ {pieces : List Piece} {src : String} {groups : List (List Char)},
    (∀ piece ∈ pieces, piece.Literal) → Matches pieces src.toList groups →
    (regexMatch (String.ofList (text pieces)) src).isSome = true

section Correct

variable {regexMatch : String → String → Option (List String)} {dir src : String}
  {groups : List String}

theorem text_chars (dir : String) (pieces : List Piece) :
    String.ofList (text (dir.toList.map .char ++ pieces)) = dir ++ String.ofList (text pieces) := by
  have hchars : text (dir.toList.map .char) = dir.toList := by
    induction dir.toList with
    | nil => rfl
    | cons c chars ih => exact congrArg (c :: ·) ih
  have happend : text (dir.toList.map .char ++ pieces) =
      text (dir.toList.map .char) ++ text pieces := List.flatMap_append
  rw [happend, hchars, String.ofList_append, String.ofList_toList]

/-- With one way to match there is one result. -/
theorem Correct.eq_some_iff (correct : Correct regexMatch) {pieces : List Piece}
    (hliteral : ∀ piece ∈ pieces, piece.Literal)
    (hunique : ∀ {groups groups'}, Matches pieces src.toList groups →
      Matches pieces src.toList groups' → groups = groups') :
    regexMatch (String.ofList (text pieces)) src = some groups ↔
      Matches pieces src.toList (groups.map String.toList) := by
  constructor
  · exact correct.sound hliteral
  · intro h
    obtain ⟨found, hfound⟩ := Option.isSome_iff_exists.mp (correct.complete hliteral h)
    have hsame := hunique (correct.sound hliteral hfound) h
    have hinjective : Function.Injective String.toList := fun _ _ => String.toList_inj.mp
    rw [hfound, List.map_injective_iff.mpr hinjective hsame]

theorem literal_chars {pieces : List Piece} (hdir : Plain dir.toList)
    (hpieces : ∀ piece ∈ pieces, piece.Literal) :
    ∀ piece ∈ dir.toList.map Piece.char ++ pieces, piece.Literal := by
  intro piece hpiece
  rcases List.mem_append.mp hpiece with h | h
  · obtain ⟨c, hc, rfl⟩ := List.mem_map.mp h
    exact hdir c hc
  · exact hpieces piece h

/-- Characters match themselves. -/
theorem Correct.plain (correct : Correct regexMatch) (hdir : Plain dir.toList) :
    regexMatch dir src = some groups ↔ src = dir ∧ groups = [] := by
  have htext : String.ofList (text (dir.toList.map .char ++ [])) = dir := by
    rw [text_chars]
    exact String.append_empty
  have hmatches : ∀ {groups}, Matches (dir.toList.map .char ++ []) src.toList groups ↔
      src = dir ∧ groups = [] := by
    intro groups
    rw [matches_chars_iff, ← String.toList_inj]
    constructor
    · intro h
      rcases h with ⟨behind, hsrc, h⟩
      obtain ⟨rfl, rfl⟩ := matches_nil_iff.mp h
      exact ⟨hsrc.trans (List.append_nil _), rfl⟩
    · intro h
      rcases h with ⟨hsrc, rfl⟩
      exact ⟨[], hsrc.trans (List.append_nil _).symm, .nil⟩
  have hliteral := literal_chars hdir (List.forall_mem_nil fun piece : Piece => piece.Literal)
  have hiff := @Correct.eq_some_iff regexMatch src groups correct _ hliteral
    fun h h' => (hmatches.mp h).2.trans (hmatches.mp h').2.symm
  rw [htext, hmatches, List.map_eq_nil_iff] at hiff
  exact hiff

/-- One group behind characters takes what is behind them. -/
theorem Correct.group (correct : Correct regexMatch) {piece : Piece} (hpiece : piece.Literal)
    {p : List Char → Prop}
    (hgroup : ∀ {src groups}, Matches [piece] src groups ↔ p src ∧ groups = [src])
    (hdir : Plain dir.toList) :
    regexMatch (dir ++ String.ofList (text [piece])) src = some groups ↔
      ∃ behind : String, p behind.toList ∧ src = dir ++ behind ∧ groups = [behind] := by
  have hmatches : ∀ {groups}, Matches (dir.toList.map .char ++ [piece]) src.toList groups ↔
      ∃ behind, src.toList = dir.toList ++ behind ∧ p behind ∧ groups = [behind] := by
    intro groups
    rw [matches_chars_iff]
    exact exists_congr fun behind => and_congr_right fun _ => hgroup
  have hunique : ∀ {groups groups'}, Matches (dir.toList.map .char ++ [piece]) src.toList groups →
      Matches (dir.toList.map .char ++ [piece]) src.toList groups' → groups = groups' := by
    intro groups groups' h h'
    obtain ⟨behind, hsrc, -, rfl⟩ := hmatches.mp h
    obtain ⟨behind', hsrc', -, rfl⟩ := hmatches.mp h'
    rw [List.append_cancel_left (hsrc.symm.trans hsrc')]
  have hliteral := literal_chars hdir (List.forall_mem_singleton.mpr hpiece)
  have hiff := @Correct.eq_some_iff regexMatch src groups correct _ hliteral hunique
  rw [text_chars, hmatches] at hiff
  rw [hiff]
  constructor
  · intro h
    rcases h with ⟨behind, hsrc, hp, hgroups⟩
    refine ⟨String.ofList behind, by rwa [String.toList_ofList], ?_, ?_⟩
    · rw [← String.toList_inj, String.toList_append, String.toList_ofList, hsrc]
    · obtain ⟨group, rfl, hgroup⟩ := List.map_eq_singleton_iff.mp hgroups
      rw [← hgroup, String.ofList_toList]
  · intro h
    rcases h with ⟨behind, hp, rfl, rfl⟩
    exact ⟨behind.toList, String.toList_append, hp, rfl⟩

end Correct

/-! ## A matcher that tries the longest groups first -/

section Matcher

def parse : List Char → Option (List Piece)
  | [] => some []
  | '(' :: '\\' :: 'w' :: '+' :: ')' :: regex => (parse regex).map (.word :: ·)
  | '(' :: '.' :: '*' :: ')' :: regex => (parse regex).map (.line :: ·)
  | c :: regex => if c ∈ special then none else (parse regex).map (.char c :: ·)

def splits (src : List Char) : List (List Char × List Char) :=
  (List.range (src.length + 1)).reverse.map fun n => (src.take n, src.drop n)

/-- A group that meets `p`, in front of what the rest of the expression matches. -/
def matchGroup (p : List Char → Bool) (behind : List Char → Option (List (List Char)))
    (src : List Char) : Option (List (List Char)) :=
  (splits src).findSome? fun (group, rest) =>
    if p group then (behind rest).map (group :: ·) else none

def matchPieces : List Piece → List Char → Option (List (List Char))
  | [], src => if src = [] then some [] else none
  | .char c :: pieces, src => if src.head? = some c then matchPieces pieces src.tail else none
  | .word :: pieces, src => matchGroup (fun word => decide (IsWord word)) (matchPieces pieces) src
  | .line :: pieces, src => matchGroup (fun line => !line.contains '\n') (matchPieces pieces) src

def match? (regex src : String) : Option (List String) :=
  (parse regex.toList).bind fun pieces =>
    (matchPieces pieces src.toList).map fun groups => groups.map String.ofList

variable {pieces : List Piece} {src : List Char} {groups : List (List Char)}

theorem parse_text (hliteral : ∀ piece ∈ pieces, piece.Literal) :
    parse (text pieces) = some pieces := by
  induction pieces with
  | nil => rfl
  | cons piece pieces ih =>
      obtain ⟨hpiece, hpieces⟩ := List.forall_mem_cons.mp hliteral
      have hparsed := ih hpieces
      cases piece with
      | word =>
          show (parse (text pieces)).map (.word :: ·) = _
          rw [hparsed]
          rfl
      | line =>
          show (parse (text pieces)).map (.line :: ·) = _
          rw [hparsed]
          rfl
      | char c =>
          have hc : c ∉ special := hpiece
          have hopen : c ≠ '(' := fun h => hc (h ▸ by decide)
          have hstep : parse (c :: text pieces) =
              if c ∈ special then none else (parse (text pieces)).map (.char c :: ·) := by
            rw [parse]
            · exact fun _ h => absurd h hopen
            · exact fun _ h => absurd h hopen
          show parse (c :: text pieces) = _
          rw [hstep, if_neg hc, hparsed]
          rfl

theorem mem_splits {group rest : List Char} :
    (group, rest) ∈ splits src ↔ src = group ++ rest := by
  unfold splits
  rw [List.mem_map]
  constructor
  · intro h
    obtain ⟨n, -, hsplit⟩ := h
    obtain ⟨rfl, rfl⟩ := Prod.mk.inj hsplit
    exact (List.take_append_drop n src).symm
  · rintro rfl
    refine ⟨group.length, ?_, by rw [List.take_left, List.drop_left]⟩
    rw [List.mem_reverse, List.mem_range, List.length_append]
    omega

theorem matchGroup_eq_some {p : List Char → Bool}
    {behind : List Char → Option (List (List Char))}
    (h : matchGroup p behind src = some groups) :
    ∃ group rest groups', src = group ++ rest ∧ p group = true ∧ behind rest = some groups' ∧
      groups = group :: groups' := by
  obtain ⟨⟨group, rest⟩, hmem, hfound⟩ := List.exists_of_findSome?_eq_some h
  obtain ⟨hp, hmap⟩ := Option.ite_none_right_eq_some.mp hfound
  obtain ⟨groups', hbehind, rfl⟩ := Option.map_eq_some_iff.mp hmap
  exact ⟨group, rest, groups', mem_splits.mp hmem, hp, hbehind, rfl⟩

theorem isSome_matchGroup {p : List Char → Bool}
    {behind : List Char → Option (List (List Char))} {group rest : List Char}
    (hp : p group = true) (hbehind : (behind rest).isSome = true) :
    (matchGroup p behind (group ++ rest)).isSome = true := by
  unfold matchGroup
  rw [List.findSome?_isSome_iff]
  refine ⟨(group, rest), mem_splits.mpr rfl, ?_⟩
  dsimp only
  rw [if_pos hp, Option.isSome_map, hbehind]

theorem matches_of_matchPieces (h : matchPieces pieces src = some groups) :
    Matches pieces src groups := by
  induction pieces generalizing src groups with
  | nil =>
      obtain ⟨rfl, hgroups⟩ := Option.ite_none_right_eq_some.mp h
      cases hgroups
      exact .nil
  | cons piece pieces ih =>
      cases piece with
      | char c =>
          obtain ⟨hhead, htail⟩ := Option.ite_none_right_eq_some.mp h
          rw [List.eq_cons_of_mem_head? hhead]
          exact .char c (ih htail)
      | word =>
          obtain ⟨word, rest, groups', rfl, hword, hbehind, rfl⟩ := matchGroup_eq_some h
          exact .word (of_decide_eq_true hword) (ih hbehind)
      | line =>
          obtain ⟨line, rest, groups', rfl, hline, hbehind, rfl⟩ := matchGroup_eq_some h
          exact .line (by simpa using hline) (ih hbehind)

theorem isSome_matchPieces (h : Matches pieces src groups) :
    (matchPieces pieces src).isSome = true := by
  induction h with
  | nil => rfl
  | char c _ ih =>
      rw [matchPieces, List.head?_cons, if_pos rfl]
      exact ih
  | word hword _ ih => exact isSome_matchGroup (decide_eq_true hword) ih
  | line hline _ ih => exact isSome_matchGroup (by simpa using hline) ih

theorem correct_match? : Correct match? where
  sound hliteral h := by
    unfold match? at h
    rw [String.toList_ofList, parse_text hliteral, Option.bind_some] at h
    obtain ⟨groups, hgroups, rfl⟩ := Option.map_eq_some_iff.mp h
    have hsame : (groups.map String.ofList).map String.toList = groups := by
      simp [Function.comp_def]
    rw [hsame]
    exact matches_of_matchPieces hgroups
  complete hliteral h := by
    unfold match?
    rw [String.toList_ofList, parse_text hliteral, Option.bind_some, Option.isSome_map]
    exact isSome_matchPieces h

end Matcher

end Regex
