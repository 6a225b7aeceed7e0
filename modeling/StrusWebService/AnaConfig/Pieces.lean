import StrusWebService.AnaConfig.Lexer

/-! # The pieces of a token

The lexer of `convDocAnaConfigToJson.pl` on its two buffers `$g_src` and `$g_token`, with
a record of what `lexerTok` is called with and of the blanks skipped before. `die` and
running out of fuel are different here: `parses` says that the length of the source is
enough fuel, and what a call consumes. `agrees` connects the buffers with the reader that
gives a token and the rest.
-/

namespace StrusWebService.AnaConfig

open Json (quote comma)
open Text (isSpace)

/-- The regular expressions whose match is passed to `lexerTok`. -/
inductive PieceKind where
  | name
  | opens
  | closes
  | separator
  | path
  | string
  | arrow
  | mark
  deriving DecidableEq, Repr

/-- A match at the start of the source: `$1`, which is not empty, and `$2`. -/
structure Match (src : Bytes) where
  kind : PieceKind
  text : Bytes
  rest : Bytes
  ne : text ≠ []
  split : src = text ++ rest

/-- A call of `lexerTok` and the blanks skipped in front of it. -/
structure SourcePiece where
  blanks : Bytes
  kind : PieceKind
  text : Bytes
  blank : ∀ c ∈ blanks, isBlank c = true
  ne : text ≠ []

/-- What of the source a piece stands for. -/
def SourcePiece.consumed (p : SourcePiece) : Bytes := p.blanks ++ p.text

/-- `die` with the rest of the source, or because nothing is left of it. -/
inductive Death where
  | syntaxError (src : Bytes)
  | unexpectedEnd
  deriving DecidableEq, Repr

/-- `$g_src` and `$g_token` with the blanks skipped since the last piece and the pieces. -/
structure Buffers where
  src : Bytes
  token : Bytes
  skipped : Bytes
  pieces : List SourcePiece
  blank : ∀ c ∈ skipped, isBlank c = true

/-! ### The regular expressions -/

/-- `^([c…][…]*)(.*)$`, where `c` is the first byte. -/
def matchSpan (kind : PieceKind) (p : UInt8 → Bool) (c : UInt8)
    (src : Bytes) : Match (c :: src) where
  kind := kind
  text := c :: src.takeWhile p
  rest := src.dropWhile p
  ne := List.cons_ne_nil _ _
  split := by simp

/-- `^([c])(.*)`. -/
def matchByte (kind : PieceKind) (c : UInt8) : (src : Bytes) → Option (Match src)
  | [] => none
  | d :: src =>
      if d = c then
        some { kind := kind, text := [d], rest := src, ne := List.cons_ne_nil _ _, split := rfl }
      else none

/-- `^([\"][^\"]*[\"])(.*)$`, where the first byte is the quote. -/
def matchString (c : UInt8) (src : Bytes) (h : quote ∈ src) : Match (c :: src) where
  kind := .string
  text := c :: (src.takeWhile (· ≠ quote) ++ [quote])
  rest := (src.dropWhile (· ≠ quote)).tail
  ne := List.cons_ne_nil _ _
  split := by
    rw [List.cons_append, List.append_assoc, List.singleton_append, ← split_at_mem h]

/-- `^([-][>])(.*)$` and `^([\{\}\=\:\^])(.*)$`, of `n + 1` bytes. -/
def matchFixed (kind : PieceKind) (n : Nat) (c : UInt8) (src : Bytes) : Match (c :: src) where
  kind := kind
  text := c :: src.take n
  rest := src.drop n
  ne := List.cons_ne_nil _ _
  split := by simp

/-- The first of the alternatives of `lexerParseToken_` that matches. -/
def matchToken : (src : Bytes) → Option (Match src)
  | [] => none
  | c :: src =>
      if isIdent c then some (matchSpan .name isIdent c src)
      else if isPathStart c then some (matchSpan .path isPath c src)
      else if h : c = quote ∧ quote ∈ src then some (matchString c src h.2)
      else if c = 45 ∧ src.head? = some 62 then some (matchFixed .arrow 1 c src)
      else if isMark c then some (matchFixed .mark 0 c src)
      else none

/-! ### The lexer -/

/-- No result where the fuel is used up. -/
abbrev Outcome := Option (Except Death Buffers)

namespace Buffers

def lexerStartToken (src : Bytes) : Buffers where
  src := src
  token := []
  skipped := []
  pieces := []
  blank := fun _ hc => absurd hc List.not_mem_nil

def lexerSkipSpaces (s : Buffers) : Buffers where
  src := s.src.dropWhile isBlank
  token := s.token
  skipped := s.skipped ++ s.src.takeWhile isBlank
  pieces := s.pieces
  blank := List.forall_mem_append.mpr ⟨s.blank, fun _ hc => List.mem_takeWhile_imp hc⟩

def lexerTok (s : Buffers) (m : Match s.src) : Buffers where
  src := m.rest
  token := s.token ++ m.text
  skipped := []
  pieces := s.pieces ++
    [{ blanks := s.skipped, kind := m.kind, text := m.text, blank := s.blank, ne := m.ne }]
  blank := fun _ hc => absurd hc List.not_mem_nil

@[simp] theorem src_tok (s : Buffers) (m : Match s.src) : (s.lexerTok m).src = m.rest := rfl

@[simp] theorem token_skip (s : Buffers) : s.lexerSkipSpaces.token = s.token := rfl

@[simp] theorem token_tok (s : Buffers) (m : Match s.src) : (s.lexerTok m).token = s.token ++ m.text := rfl

/-- What is done behind a name. -/
def parseCall (lexerParseTokenList_ : Buffers → Outcome) (s : Buffers) : Outcome :=
  match matchByte .opens parenOpen s.src with
  | none => some (.ok s)
  | some m =>
      let s := (s.lexerTok m).lexerSkipSpaces
      match matchByte .closes parenClose s.src with
      | some m => some (.ok (s.lexerTok m))
      | none => lexerParseTokenList_ s

mutual

def lexerParseToken_ : Nat → Buffers → Outcome
  | 0, _ => none
  | fuel + 1, s =>
      let s := s.lexerSkipSpaces
      match matchToken s.src with
      | some m =>
          if m.kind = .name then parseCall (lexerParseTokenList_ fuel) (s.lexerTok m)
          else some (.ok (s.lexerTok m))
      | none =>
          some (.error (if s.src.all isSpace then .unexpectedEnd else .syntaxError s.src))

def lexerParseTokenList_ : Nat → Buffers → Outcome
  | 0, _ => none
  | fuel + 1, s =>
      match lexerParseToken_ fuel s with
      | none => none
      | some (.error death) => some (.error death)
      | some (.ok s) =>
          match matchByte .closes parenClose s.src with
          | some m => some (.ok (s.lexerTok m))
          | none =>
              match matchByte .separator comma s.src with
              | some m => lexerParseTokenList_ fuel (s.lexerTok m)
              | none => some (.error (.syntaxError s.src))

end

/-- Each call goes on with a source that is shorter by then, or with a token of the same. -/
def lexerParseToken (src : Bytes) : Outcome := lexerParseToken_ (src.length + 1) (lexerStartToken src)

end Buffers

/-! ### Matches -/

theorem matchByte_kind {kind : PieceKind} {c : UInt8} {src : Bytes} {m : Match src}
    (h : matchByte kind c src = some m) : m.kind = kind := by
  cases src with
  | nil => nomatch h
  | cons d src =>
      rw [matchByte] at h
      split at h
      · cases h
        rfl
      · nomatch h

/-- A token does not start with a parenthesis. -/
theorem matchToken_kind {src : Bytes} {m : Match src} (h : matchToken src = some m) :
    m.kind ≠ .opens ∧ m.kind ≠ .closes := by
  cases src with
  | nil => nomatch h
  | cons c src =>
      rw [matchToken] at h
      split_ifs at h
      all_goals
        cases h
        exact ⟨PieceKind.noConfusion, PieceKind.noConfusion⟩

theorem matchByte_some {kind : PieceKind} {c : UInt8} {src : Bytes} {m : Match src}
    (h : matchByte kind c src = some m) : m.text = [c] ∧ src = c :: m.rest := by
  cases src with
  | nil => nomatch h
  | cons d src =>
      rw [matchByte] at h
      split at h
      · rename_i heq
        subst heq
        cases h
        exact ⟨rfl, rfl⟩
      · nomatch h

theorem matchByte_none {kind : PieceKind} {c : UInt8} {src : Bytes}
    (h : matchByte kind c src = none) :
    src.head? ≠ some c := by
  cases src with
  | nil => exact fun heq => nomatch heq
  | cons d src =>
      rw [matchByte] at h
      split at h
      · nomatch h
      · rename_i hne
        exact fun heq => hne (Option.some.inj heq)

/-! ### Parentheses -/

/-- The number of open parentheses behind some pieces; `none` if one is closed that is not open. -/
def depthAfter : Nat → List SourcePiece → Option Nat
  | depth, [] => some depth
  | depth, p :: ps =>
      match p.kind, depth with
      | .opens, depth => depthAfter (depth + 1) ps
      | .closes, 0 => none
      | .closes, depth + 1 => depthAfter depth ps
      | _, depth => depthAfter depth ps

theorem depthAfter_append (depth : Nat) (ps qs : List SourcePiece) :
    depthAfter depth (ps ++ qs) = (depthAfter depth ps).bind fun depth => depthAfter depth qs := by
  induction ps generalizing depth with
  | nil => rfl
  | cons p ps ih =>
      rw [List.cons_append, depthAfter.eq_def, depthAfter.eq_def depth (p :: ps)]
      dsimp only
      split
      · exact ih _
      · rfl
      · exact ih _
      · exact ih _

theorem depthAfter_other {p : SourcePiece} (h : p.kind ≠ .opens ∧ p.kind ≠ .closes) (depth : Nat) :
    depthAfter depth [p] = some depth := by
  cases hkind : p.kind with
  | opens => exact absurd hkind h.1
  | closes => exact absurd hkind h.2
  | name | separator | path | string | arrow | mark => simp [depthAfter, hkind]

theorem depthAfter_opens {p : SourcePiece} (h : p.kind = .opens) (depth : Nat) :
    depthAfter depth [p] = some (depth + 1) := by
  simp [depthAfter, h]

theorem depthAfter_closes {p : SourcePiece} (h : p.kind = .closes) (depth : Nat) :
    depthAfter (depth + 1) [p] = some depth := by
  simp [depthAfter, h]

/-! ### What a call consumes -/

namespace Buffers

/-- What is left of the source with the blanks skipped since the last piece. -/
def pending (s : Buffers) : Bytes := s.skipped ++ s.src

/-- The pieces read between two states make up what is missing of the source and what has
been added to the token. -/
structure Consumes (s : Buffers) (ps : List SourcePiece) (s' : Buffers) : Prop where
  pieces : s'.pieces = s.pieces ++ ps
  token : s'.token = s.token ++ ps.flatMap SourcePiece.text
  pending : s.pending = ps.flatMap SourcePiece.consumed ++ s'.pending

variable {s s₁ s₂ : Buffers} {ps qs : List SourcePiece}

theorem Consumes.trans (h₁ : Consumes s ps s₁) (h₂ : Consumes s₁ qs s₂) :
    Consumes s (ps ++ qs) s₂ where
  pieces := by rw [h₂.pieces, h₁.pieces, List.append_assoc]
  token := by rw [h₂.token, h₁.token, List.flatMap_append, List.append_assoc]
  pending := by rw [h₁.pending, h₂.pending, List.flatMap_append, List.append_assoc]

theorem consumes_skip (s : Buffers) : Consumes s [] s.lexerSkipSpaces where
  pieces := (List.append_nil _).symm
  token := (List.append_nil _).symm
  pending := by simp [Buffers.pending, lexerSkipSpaces]

/-- The piece of a match. -/
def piece (s : Buffers) (m : Match s.src) : SourcePiece where
  blanks := s.skipped
  kind := m.kind
  text := m.text
  blank := s.blank
  ne := m.ne

theorem consumes_tok (s : Buffers) (m : Match s.src) : Consumes s [s.piece m] (s.lexerTok m) where
  pieces := rfl
  token := by simp [lexerTok, piece]
  pending := by simp [Buffers.pending, lexerTok, piece, SourcePiece.consumed, ← m.split]

/-- Behind a piece there is less of the source. -/
theorem Consumes.length_lt (h : Consumes s ps s₁) (hps : ps ≠ []) :
    s₁.pending.length < s.pending.length := by
  cases ps with
  | nil => exact absurd rfl hps
  | cons p ps =>
      have hpos := List.length_pos_iff.mpr p.ne
      rw [h.pending, List.flatMap_cons, SourcePiece.consumed]
      simp only [List.length_append]
      omega

/-- The pieces close `closing` parentheses that have been opened before. -/
def Closes (closing : Nat) (ps : List SourcePiece) : Prop :=
  ∀ depth, depthAfter (depth + closing) ps = some depth

/-- A call ends; where it does not die, it has read pieces and skipped blanks only in
front of them. -/
def Parses (closing : Nat) (s : Buffers) (o : Outcome) : Prop :=
  ∃ result, o = some result ∧ ∀ s', result = .ok s' →
    ∃ ps, Consumes s ps s' ∧ ps ≠ [] ∧ s'.skipped = [] ∧ Closes closing ps

variable {closing closing' : Nat} {o : Outcome}

theorem parses_error (death : Death) : Parses closing s (some (.error death)) :=
  ⟨_, rfl, fun _ h => nomatch h⟩

/-- The last piece of a call. -/
theorem parses_tok (m : Match s.src) (h : Closes closing [s.piece m]) :
    Parses closing s (some (.ok (s.lexerTok m))) := by
  refine ⟨_, rfl, ?_⟩
  intro s' hs'
  cases hs'
  exact ⟨[s.piece m], s.consumes_tok m, List.cons_ne_nil _ _, rfl, h⟩

/-- What a call does behind pieces that have been read before. -/
theorem Parses.after (h : Parses closing' s₁ o) (hread : Consumes s ps s₁)
    (hdepth : ∀ depth, depthAfter (depth + closing) ps = some (depth + closing')) :
    Parses closing s o := by
  rcases h with ⟨result, hresult, hparse⟩
  refine ⟨result, hresult, ?_⟩
  intro s' hs'
  obtain ⟨qs, hmore, hne, hskipped, hcloses⟩ := hparse s' hs'
  refine ⟨ps ++ qs, hread.trans hmore, ?_, hskipped, ?_⟩
  · exact fun hnil => hne (List.append_eq_nil_iff.mp hnil).2
  · intro depth
    rw [depthAfter_append, hdepth, Option.bind_some]
    exact hcloses depth

theorem Parses.skip (h : Parses closing s.lexerSkipSpaces o) : Parses closing s o :=
  h.after s.consumes_skip fun _ => rfl

theorem Parses.tok {m : Match s.src} (h : Parses closing' (s.lexerTok m) o)
    (hdepth : ∀ depth, depthAfter (depth + closing) [s.piece m] = some (depth + closing')) :
    Parses closing s o :=
  h.after (s.consumes_tok m) hdepth

theorem pending_skip (s : Buffers) : s.lexerSkipSpaces.pending = s.pending :=
  (s.consumes_skip).pending.symm

theorem pending_tok (s : Buffers) (m : Match s.src) :
    (s.lexerTok m).pending.length < s.pending.length :=
  (s.consumes_tok m).length_lt (List.cons_ne_nil _ _)

section Calls

variable {fuel : Nat}
  (hlist : ∀ s : Buffers, s.pending.length + 1 < fuel → Parses 1 s (lexerParseTokenList_ fuel s))

include hlist

/-- Behind a name: nothing, or the parentheses of a call. -/
theorem parses_call {m : Match s.src} (hkind : m.kind = .name)
    (hfuel : s.pending.length < fuel + 1) :
    Parses 0 s (parseCall (lexerParseTokenList_ fuel) (s.lexerTok m)) := by
  have hname : ∀ depth, depthAfter depth [s.piece m] = some depth := by
    apply depthAfter_other
    rw [piece, hkind]
    exact ⟨PieceKind.noConfusion, PieceKind.noConfusion⟩
  have hlt := s.pending_tok m
  unfold parseCall
  split
  · exact parses_tok m hname
  · rename_i m' hm'
    have hopens := depthAfter_opens (p := (s.lexerTok m).piece m') (matchByte_kind hm')
    have hlt' := (s.lexerTok m).pending_tok m'
    have hskip := ((s.lexerTok m).lexerTok m').pending_skip
    dsimp only
    -- the call closes the parenthesis that is open from here on
    apply @Parses.tok s 0 0 _ m _ hname
    apply @Parses.tok (s.lexerTok m) 0 1 _ m' _ hopens
    apply Parses.skip
    split
    · rename_i m'' hm''
      exact parses_tok m'' (depthAfter_closes (matchByte_kind hm''))
    · apply hlist
      rw [hskip]
      omega

theorem parses_token (hfuel : s.pending.length < fuel + 1) :
    Parses 0 s (lexerParseToken_ (fuel + 1) s) := by
  apply Parses.skip
  rw [lexerParseToken_]
  split
  · rename_i m hm
    split
    · rename_i hkind
      apply parses_call hlist hkind
      rw [pending_skip]
      exact hfuel
    · exact parses_tok m (depthAfter_other (matchToken_kind hm))
  · exact parses_error _

theorem parses_list (htoken : ∀ s : Buffers, s.pending.length < fuel → Parses 0 s (lexerParseToken_ fuel s))
    (hfuel : s.pending.length + 1 < fuel + 1) : Parses 1 s (lexerParseTokenList_ (fuel + 1) s) := by
  rw [lexerParseTokenList_]
  obtain ⟨result, hresult, hparse⟩ := htoken s (by omega)
  rw [hresult]
  cases result with
  | error death => exact parses_error death
  | ok s₁ =>
      obtain ⟨ps, hread, hne, hskipped, hcloses⟩ := hparse s₁ rfl
      have hlt := hread.length_lt hne
      have hdepth : ∀ depth, depthAfter (depth + 1) ps = some (depth + 1) := fun depth => hcloses _
      dsimp only
      split
      · rename_i m hm
        have hlast := parses_tok m (depthAfter_closes (matchByte_kind hm))
        exact hlast.after hread hdepth
      · split
        · rename_i m hm
          have hother : ∀ depth, depthAfter depth [s₁.piece m] = some depth := by
            apply depthAfter_other
            rw [piece, matchByte_kind hm]
            exact ⟨PieceKind.noConfusion, PieceKind.noConfusion⟩
          have hlt' := s₁.pending_tok m
          have hmore := hlist (s₁.lexerTok m) (by omega)
          exact (hmore.tok fun depth => hother _).after hread hdepth
        · exact parses_error _

end Calls

/-- The source left is enough fuel. -/
theorem parses (fuel : Nat) :
    (∀ s : Buffers, s.pending.length < fuel → Parses 0 s (lexerParseToken_ fuel s)) ∧
      ∀ s : Buffers, s.pending.length + 1 < fuel → Parses 1 s (lexerParseTokenList_ fuel s) := by
  induction fuel with
  | zero =>
      constructor
      · exact fun s h => nomatch h
      · exact fun s h => nomatch h
  | succ fuel ih =>
      constructor
      · exact fun s h => parses_token ih.2 h
      · exact fun s h => parses_list ih.2 ih.1 h

/-! ### The reader of a token -/

/-- Without the buffers, a call gives what it adds to the token and the rest of the source. -/
def Agrees (s : Buffers) : Outcome → Option (Bytes × Bytes) → Prop
  | some (.ok s'), read => ∃ token, s'.token = s.token ++ token ∧ read = some (token, s'.src)
  | _, read => read = none

/-- What has been added to the token before a call. -/
theorem Agrees.after {read : Option (Bytes × Bytes)} (h : Agrees s₁ o read) {token : Bytes}
    (htoken : s₁.token = s.token ++ token) :
    Agrees s o (read.map fun r => (token ++ r.1, r.2)) := by
  match o with
  | none =>
      rw [show read = none from h]
      rfl
  | some (.error death) =>
      rw [show read = none from h]
      rfl
  | some (.ok s') =>
      rcases h with ⟨token', htoken', hread⟩
      refine ⟨token ++ token', ?_, ?_⟩
      · rw [htoken', htoken, List.append_assoc]
      · rw [hread]
        rfl

theorem agrees_tok (m : Match s.src) : Agrees s (some (.ok (s.lexerTok m))) (some (m.text, m.rest)) :=
  ⟨m.text, rfl, rfl⟩

/-- What the reader makes of a match. -/
def readMatch (lexerParseTokenList_ : Bytes → Option (Bytes × Bytes)) {src : Bytes} :
    Option (Match src) → Option (Bytes × Bytes)
  | some m =>
      if m.kind = .name then lexerCall lexerParseTokenList_ m.text m.rest else some (m.text, m.rest)
  | none => none

theorem readMatch_string (lexerParseTokenList_ : Bytes → Option (Bytes × Bytes)) (src : Bytes) :
    (match src.dropWhile (· ≠ quote) with
      | [] => none
      | _ :: rest => some (quote :: (src.takeWhile (· ≠ quote) ++ [quote]), rest)) =
      readMatch lexerParseTokenList_ (matchToken (quote :: src)) := by
  have hident : isIdent quote = false := rfl
  have hpath : isPathStart quote = false := rfl
  have hmark : isMark quote = false := rfl
  by_cases hmem : quote ∈ src
  · have hne : src.dropWhile (· ≠ quote) ≠ [] := by
      intro hnil
      simpa using List.dropWhile_eq_nil_iff.mp hnil quote hmem
    cases hbehind : src.dropWhile (· ≠ quote) with
    | nil => exact absurd hbehind hne
    | cons d rest =>
        have htail : (src.dropWhile (· ≠ quote)).tail = rest := by
          rw [hbehind]
          rfl
        simp [matchToken, hident, hpath, hmem, readMatch, matchString] at htail ⊢
        exact htail.symm
  · have hnil : src.dropWhile (· ≠ quote) = [] := by
      apply List.dropWhile_eq_nil_iff.mpr
      intro c hc
      exact decide_eq_true fun heq => hmem (heq ▸ hc)
    have hminus : quote ≠ 45 := by decide
    rw [hnil]
    simp [matchToken, hident, hpath, hmark, hmem, hminus, readMatch]

theorem readMatch_arrow (lexerParseTokenList_ : Bytes → Option (Bytes × Bytes)) (src : Bytes) :
    (match src with
      | [] => none
      | d :: src => if d = 62 then some ([45, 62], src) else none) =
      readMatch lexerParseTokenList_ (matchToken (45 :: src)) := by
  have hident : isIdent 45 = false := rfl
  have hpath : isPathStart 45 = false := rfl
  have hmark : isMark 45 = false := rfl
  cases src with
  | nil => simp [matchToken, hident, hpath, hmark, readMatch, quote]
  | cons d src =>
      by_cases hd : d = 62
      · simp [matchToken, hident, hpath, readMatch, matchFixed, quote, hd]
      · simp [matchToken, hident, hpath, hmark, readMatch, quote, hd]

theorem lexerParseToken_match (fuel : Nat) (src : Bytes) :
    AnaConfig.lexerParseToken_ (fuel + 1) src =
      readMatch (AnaConfig.lexerParseTokenList_ fuel) (matchToken (AnaConfig.lexerSkipSpaces src)) := by
  rw [AnaConfig.lexerParseToken_]
  cases AnaConfig.lexerSkipSpaces src with
  | nil => rfl
  | cons c src =>
      dsimp only
      by_cases hident : isIdent c = true
      · simp [matchToken, hident, readMatch, matchSpan]
      · rw [if_neg hident]
        by_cases hpath : isPathStart c = true
        · simp [matchToken, hident, hpath, readMatch, matchSpan]
        · rw [if_neg hpath]
          by_cases hquote : c = quote
          · rw [if_pos hquote, hquote]
            exact readMatch_string _ src
          · rw [if_neg hquote]
            by_cases hminus : c = 45
            · rw [if_pos hminus, hminus]
              exact readMatch_arrow _ src
            · rw [if_neg hminus]
              by_cases hmark : isMark c = true
              · simp [matchToken, hident, hpath, hquote, hminus, hmark, readMatch, matchFixed]
              · simp [matchToken, hident, hpath, hquote, hminus, hmark, readMatch]

theorem lexerParseTokenList_nil (fuel : Nat) : AnaConfig.lexerParseTokenList_ fuel [] = none := by
  cases fuel with
  | zero => rfl
  | succ fuel =>
      rw [AnaConfig.lexerParseTokenList_]
      cases fuel with
      | zero => rfl
      | succ fuel => rfl

section Readers

variable {fuel : Nat}
  (hlist : ∀ s : Buffers, Agrees s (lexerParseTokenList_ fuel s) (AnaConfig.lexerParseTokenList_ fuel s.src))

include hlist

theorem agrees_call {m : Match s.src} :
    Agrees s (parseCall (lexerParseTokenList_ fuel) (s.lexerTok m))
      (lexerCall (AnaConfig.lexerParseTokenList_ fuel) m.text m.rest) := by
  unfold parseCall
  split
  · rename_i hnone
    refine ⟨m.text, rfl, ?_⟩
    have hother : m.rest.head? ≠ some parenOpen := matchByte_none hnone
    change lexerCall _ m.text m.rest = some (m.text, m.rest)
    cases hrest : m.rest with
    | nil => rfl
    | cons c src =>
        rw [hrest] at hother
        rw [lexerCall, if_neg fun heq => hother (congrArg some heq)]
  · rename_i m' hm'
    obtain ⟨htext, hsrc⟩ := matchByte_some hm'
    have hcall : m.rest = parenOpen :: m'.rest := hsrc
    rw [hcall, lexerCall, if_pos rfl]
    dsimp only
    split
    · rename_i m'' hm''
      obtain ⟨htext', hsrc'⟩ := matchByte_some hm''
      have hclose : AnaConfig.lexerSkipSpaces m'.rest = parenClose :: m''.rest := hsrc'
      rw [hclose]
      dsimp only
      rw [if_pos rfl]
      refine ⟨m.text ++ [parenOpen, parenClose], ?_, rfl⟩
      simp [htext, htext']
    · rename_i hnone
      have hother : (AnaConfig.lexerSkipSpaces m'.rest).head? ≠ some parenClose := matchByte_none hnone
      have htoken : ((s.lexerTok m).lexerTok m').lexerSkipSpaces.token =
          s.token ++ (m.text ++ [parenOpen]) := by
        rw [token_skip, token_tok, token_tok, htext, List.append_assoc]
      have hmore := (hlist ((s.lexerTok m).lexerTok m').lexerSkipSpaces).after htoken
      have hread : ((s.lexerTok m).lexerTok m').lexerSkipSpaces.src =
          AnaConfig.lexerSkipSpaces m'.rest := rfl
      rw [hread] at hmore
      cases hskip : AnaConfig.lexerSkipSpaces m'.rest with
      | nil =>
          rw [hskip, lexerParseTokenList_nil] at hmore
          exact hmore
      | cons d src =>
          rw [hskip] at hmore hother
          dsimp only
          rw [if_neg fun heq => hother (congrArg some heq)]
          simpa using hmore

theorem agrees_token (s : Buffers) :
    Agrees s (lexerParseToken_ (fuel + 1) s) (AnaConfig.lexerParseToken_ (fuel + 1) s.src) := by
  rw [lexerParseToken_, lexerParseToken_match]
  have hskip : AnaConfig.lexerSkipSpaces s.src = s.lexerSkipSpaces.src := rfl
  rw [hskip]
  -- skipping blanks adds nothing to the token
  suffices Agrees s.lexerSkipSpaces _ _ from this
  split
  · rename_i m hm
    rw [hm, readMatch]
    split
    · exact agrees_call hlist
    · exact agrees_tok m
  · rename_i hnone
    rw [hnone]
    rfl

theorem agrees_list (s : Buffers)
    (htoken : Agrees s (lexerParseToken_ fuel s) (AnaConfig.lexerParseToken_ fuel s.src)) :
    Agrees s (lexerParseTokenList_ (fuel + 1) s) (AnaConfig.lexerParseTokenList_ (fuel + 1) s.src) := by
  rw [lexerParseTokenList_, AnaConfig.lexerParseTokenList_]
  cases hparse : lexerParseToken_ fuel s with
  | none =>
      rw [hparse] at htoken
      rw [show AnaConfig.lexerParseToken_ fuel s.src = none from htoken]
      rfl
  | some result =>
      rw [hparse] at htoken
      cases result with
      | error death =>
          rw [show AnaConfig.lexerParseToken_ fuel s.src = none from htoken]
          rfl
      | ok s₁ =>
          rcases htoken with ⟨token, htok, hread⟩
          rw [hread, Option.bind_some]
          dsimp only
          split
          · rename_i m hm
            obtain ⟨htext, hsrc⟩ := matchByte_some hm
            rw [hsrc]
            dsimp only
            rw [if_pos rfl]
            refine ⟨token ++ [parenClose], ?_, rfl⟩
            rw [token_tok, htext, htok, List.append_assoc]
          · rename_i hclose
            split
            · rename_i m hm
              obtain ⟨htext, hsrc⟩ := matchByte_some hm
              have hadded : (s₁.lexerTok m).token = s.token ++ (token ++ [comma]) := by
                rw [token_tok, htext, htok, List.append_assoc]
              have hmore := (hlist (s₁.lexerTok m)).after hadded
              rw [hsrc]
              dsimp only
              rw [if_neg (by decide), if_pos rfl]
              simpa using hmore
            · rename_i hcomma
              have hnotClose := matchByte_none hclose
              have hnotComma := matchByte_none hcomma
              cases hsrc : s₁.src with
              | nil => rfl
              | cons c src =>
                  rw [hsrc] at hnotClose hnotComma
                  dsimp only
                  rw [if_neg fun heq => hnotClose (congrArg some heq),
                    if_neg fun heq => hnotComma (congrArg some heq)]
                  rfl

end Readers

theorem agrees (fuel : Nat) :
    (∀ s : Buffers, Agrees s (lexerParseToken_ fuel s) (AnaConfig.lexerParseToken_ fuel s.src)) ∧
      ∀ s : Buffers,
        Agrees s (lexerParseTokenList_ fuel s) (AnaConfig.lexerParseTokenList_ fuel s.src) := by
  induction fuel with
  | zero =>
      constructor
      · exact fun _ => rfl
      · exact fun _ => rfl
  | succ fuel ih =>
      constructor
      · exact agrees_token ih.2
      · exact fun s => agrees_list ih.2 s (ih.1 s)

/-- The buffers when a token has been read from a source: its pieces, with the blanks in
front of them, are what is missing of the source, and their parentheses match. -/
structure Progress (src : Bytes) (s : Buffers) : Prop where
  ne : s.token ≠ []
  token : s.token = s.pieces.flatMap SourcePiece.text
  source : src = s.pieces.flatMap SourcePiece.consumed ++ s.src
  shorter : s.src.length < src.length
  matched : depthAfter 0 s.pieces = some 0

/-- The lexer comes to an end for every source: it dies, or it has read a token. -/
theorem lexerParseToken_progress (src : Bytes) :
    (∃ death, lexerParseToken src = some (.error death) ∧ AnaConfig.lexerParseToken src = none) ∨
      ∃ s, lexerParseToken src = some (.ok s) ∧ Progress src s ∧
        AnaConfig.lexerParseToken src = some (s.token, s.src) := by
  obtain ⟨result, hresult, hparse⟩ := (parses (src.length + 1)).1 (lexerStartToken src) (Nat.lt_succ_self _)
  have hagrees := (agrees (src.length + 1)).1 (lexerStartToken src)
  rw [hresult] at hagrees
  cases result with
  | error death => exact Or.inl ⟨death, hresult, hagrees⟩
  | ok s =>
      obtain ⟨ps, hread, hne, hskipped, hcloses⟩ := hparse s rfl
      rcases hagrees with ⟨token, htoken, hreader⟩
      have htokenEq : s.token = token := htoken
      have hpieces : s.pieces = ps := hread.pieces
      have hpending : s.pending = s.src := by rw [Buffers.pending, hskipped, List.nil_append]
      have hsrc : src = ps.flatMap SourcePiece.consumed ++ s.pending := hread.pending
      have hlt : s.pending.length < src.length := hread.length_lt hne
      have htext : s.token = ps.flatMap SourcePiece.text := hread.token
      refine Or.inr ⟨s, hresult, ?_, ?_⟩
      · exact
          { ne := by
              rw [htext]
              cases ps with
              | nil => exact absurd rfl hne
              | cons p ps => exact fun hnil => p.ne (List.append_eq_nil_iff.mp hnil).1
            token := by rw [htext, hpieces]
            source := by rw [hpieces, ← hpending, ← hsrc]
            shorter := by rwa [hpending] at hlt
            matched := by
              rw [hpieces]
              exact hcloses 0 }
      · rw [htokenEq]
        exact hreader

end Buffers

end StrusWebService.AnaConfig
