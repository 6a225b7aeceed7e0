import StrusWebService.Library.Json.Parser
import StrusWebService.Library.Text

/-! # The tokens of a definition

The lexer of `convDocAnaConfigToJson.pl` on `$g_src`, which has no line breaks. A
function collects `$g_token` and leaves the rest of the source; `die` is `none`.
`Lexeme` lists the ways a token is written, and `lexerParseToken_iff` says that the
lexer reads one of them, provided that the text behind it does not go on with it.
-/

namespace StrusWebService.AnaConfig

open Json (quote comma)
open Text (isDigit isSpace)

def parenOpen : UInt8 := 40
def parenClose : UInt8 := 41

/-- `[ \t]`. -/
def isBlank (c : UInt8) : Bool := c == 32 || c == 9

/-- `[a-zA-Z0-9_]`. -/
def isWord (c : UInt8) : Bool :=
  isDigit c || (65 ≤ c && c ≤ 90) || (97 ≤ c && c ≤ 122) || c == 95

/-- `[a-zA-Z0-9_\.]`. -/
def isIdent (c : UInt8) : Bool := isWord c || c == 46

/-- `[\/\@]`. -/
def isPathStart (c : UInt8) : Bool := c == 47 || c == 64

/-- `[^; ]`. -/
def isPath (c : UInt8) : Bool := c ≠ 59 && c ≠ 32

/-- `[\{\}\=\:\^]`. -/
def isMark (c : UInt8) : Bool := c == 123 || c == 125 || c == 61 || c == 58 || c == 94

/-- The bytes a token starts with. -/
def isTokenStart (c : UInt8) : Bool :=
  isIdent c || isPathStart c || c == quote || c == 45 || isMark c

def lexerSkipSpaces (src : Bytes) : Bytes := src.dropWhile isBlank

/-- What is read behind a name: a call goes on with its arguments. -/
def lexerCall (lexerParseTokenList_ : Bytes → Option (Bytes × Bytes)) (name : Bytes) :
    Bytes → Option (Bytes × Bytes)
  | [] => some (name, [])
  | c :: src =>
      if c = parenOpen then
        match lexerSkipSpaces src with
        | [] => none
        | d :: src =>
            if d = parenClose then some (name ++ [parenOpen, parenClose], src)
            else
              (lexerParseTokenList_ (d :: src)).map fun (token, src) =>
                (name ++ parenOpen :: token, src)
      else some (name, c :: src)

mutual

/-- Each call made behind a parenthesis is on a shorter source, so the length bounds
the depth. -/
def lexerParseToken_ : Nat → Bytes → Option (Bytes × Bytes)
  | 0, _ => none
  | fuel + 1, src =>
      match lexerSkipSpaces src with
      | [] => none
      | c :: src =>
          if isIdent c then
            lexerCall (lexerParseTokenList_ fuel) (c :: src.takeWhile isIdent)
              (src.dropWhile isIdent)
          else if isPathStart c then some (c :: src.takeWhile isPath, src.dropWhile isPath)
          else if c = quote then
            match src.dropWhile (· ≠ quote) with
            | [] => none
            | _ :: rest => some (quote :: (src.takeWhile (· ≠ quote) ++ [quote]), rest)
          else if c = 45 then
            match src with
            | [] => none
            | d :: src => if d = 62 then some ([45, 62], src) else none
          else if isMark c then some ([c], src)
          else none

def lexerParseTokenList_ : Nat → Bytes → Option (Bytes × Bytes)
  | 0, _ => none
  | fuel + 1, src =>
      (lexerParseToken_ fuel src).bind fun (token, src) =>
        match src with
        | [] => none
        | c :: src =>
            if c = parenClose then some (token ++ [parenClose], src)
            else if c = comma then
              (lexerParseTokenList_ fuel src).map fun (tokens, src) =>
                (token ++ comma :: tokens, src)
            else none

end

/-- What reads from `$g_src`. -/
abbrev Lexer := StateT Bytes Option

def lexerParseToken : Lexer Bytes := fun src => lexerParseToken_ (src.length + 1) src

def lexerEof : Lexer Bool := fun src => some (src.all isSpace, src)

/-! ### The forms of a token -/

/-- The text goes on with a token written before it. -/
def runsOn (text : Bytes) (c : UInt8) : Bool :=
  if (text.head?.map isPathStart).getD false then isPath c
  else if text.all isIdent then isIdent c || c == parenOpen
  else false

def Delimits (text rest : Bytes) : Prop := ∀ c ∈ rest.head?, runsOn text c = false

instance (text rest : Bytes) : Decidable (Delimits text rest) :=
  inferInstanceAs (Decidable (∀ c ∈ rest.head?, _))

mutual

/-- A text and the token it is read as. Blanks inside of a call are not part of it. -/
inductive Lexeme : Bytes → Bytes → Prop
  | name {name : Bytes} (hne : name ≠ []) (hname : ∀ c ∈ name, isIdent c = true) : Lexeme name name
  | noArguments {name blanks : Bytes} (hne : name ≠ []) (hname : ∀ c ∈ name, isIdent c = true)
      (hblanks : ∀ c ∈ blanks, isBlank c = true) :
      Lexeme (name ++ parenOpen :: (blanks ++ [parenClose])) (name ++ [parenOpen, parenClose])
  | call {name text token : Bytes} (hne : name ≠ []) (hname : ∀ c ∈ name, isIdent c = true)
      (harguments : Arguments text token) :
      Lexeme (name ++ parenOpen :: text) (name ++ parenOpen :: token)
  | path {c : UInt8} {path : Bytes} (hc : isPathStart c = true) (hpath : ∀ d ∈ path, isPath d = true) :
      Lexeme (c :: path) (c :: path)
  | quoted {string : Bytes} (hstring : quote ∉ string) :
      Lexeme (quote :: (string ++ [quote])) (quote :: (string ++ [quote]))
  | arrow : Lexeme [45, 62] [45, 62]
  | mark {c : UInt8} (hc : isMark c = true) : Lexeme [c] [c]

/-- The arguments of a call with the closing parenthesis. -/
inductive Arguments : Bytes → Bytes → Prop
  | last {blanks text token : Bytes} (hblanks : ∀ c ∈ blanks, isBlank c = true)
      (htext : Lexeme text token) (hend : Delimits text [parenClose]) :
      Arguments (blanks ++ (text ++ [parenClose])) (token ++ [parenClose])
  | more {blanks text token texts tokens : Bytes} (hblanks : ∀ c ∈ blanks, isBlank c = true)
      (htext : Lexeme text token) (hend : Delimits text [comma])
      (hmore : Arguments texts tokens) :
      Arguments (blanks ++ (text ++ comma :: texts)) (token ++ comma :: tokens)

end

/-- The bytes of a token stand in its text. -/
theorem Lexeme.mem {text token : Bytes} (h : Lexeme text token) : ∀ c ∈ token, c ∈ text := by
  refine @Lexeme.rec (fun text token _ => ∀ c ∈ token, c ∈ text)
    (fun text token _ => ∀ c ∈ token, c ∈ text) ?_ ?_ ?_ ?_ ?_ ?_ ?_ ?_ ?_ text token h
  · intro name _ _ c hc
    exact hc
  · intro name blanks _ _ _ c hc
    simp only [List.mem_append, List.mem_cons, List.not_mem_nil, or_false] at hc ⊢
    grind
  · intro name text token _ _ _ ih c hc
    simp only [List.mem_append, List.mem_cons] at hc ⊢
    grind
  · intro c path _ _ d hd
    exact hd
  · intro string _ c hc
    exact hc
  · intro c hc
    exact hc
  · intro c _ d hd
    exact hd
  · intro blanks text token _ _ _ ih c hc
    simp only [List.mem_append, List.mem_singleton] at hc ⊢
    grind
  · intro blanks text token texts tokens _ _ _ _ ih ih' c hc
    simp only [List.mem_append, List.mem_cons] at hc ⊢
    grind

/-! ### What stands behind a token -/

theorem isPathStart_of_isIdent {c : UInt8} (h : isIdent c = true) : isPathStart c = false := by
  cases hc : isPathStart c with
  | false => rfl
  | true =>
      simp only [isPathStart, Bool.or_eq_true, beq_iff_eq] at hc
      cases hc with
      | inl heq => rw [heq] at h; exact absurd h (by decide)
      | inr heq => rw [heq] at h; exact absurd h (by decide)

theorem runsOn_name {name : Bytes} (hne : name ≠ []) (hname : ∀ c ∈ name, isIdent c = true)
    (c : UInt8) : runsOn name c = (isIdent c || c == parenOpen) := by
  cases name with
  | nil => exact absurd rfl hne
  | cons d name =>
      have hd := isPathStart_of_isIdent (hname d List.mem_cons_self)
      have hall : (d :: name).all isIdent = true := List.all_eq_true.mpr hname
      simp [runsOn, hd, hall]

theorem runsOn_path {d : UInt8} (path : Bytes) (hd : isPathStart d = true) (c : UInt8) :
    runsOn (d :: path) c = isPath c := by
  simp [runsOn, hd]

/-- Nothing runs on behind a closing parenthesis, a quote, an arrow or a mark. -/
theorem runsOn_closed {text : Bytes} {d : UInt8} (hstart : (text.head?.map isPathStart).getD false = false)
    (hd : d ∈ text) (hident : isIdent d = false) (c : UInt8) : runsOn text c = false := by
  have hall : text.all isIdent = false := List.all_eq_false.mpr ⟨d, hd, by simp [hident]⟩
  simp [runsOn, hstart, hall]

theorem runsOn_call {name : Bytes} (hne : name ≠ []) (hname : ∀ c ∈ name, isIdent c = true)
    (text : Bytes) (c : UInt8) : runsOn (name ++ parenOpen :: text) c = false := by
  apply runsOn_closed (d := parenOpen)
  · cases name with
    | nil => exact absurd rfl hne
    | cons d name => simp [isPathStart_of_isIdent (hname d List.mem_cons_self)]
  · simp
  · rfl

theorem delimits_of_runsOn {text rest : Bytes}
    (h : ∀ c, runsOn text c = false) : Delimits text rest :=
  fun c _ => h c

theorem Arguments.blanks {blanks text token : Bytes} (hblanks : ∀ c ∈ blanks, isBlank c = true)
    (h : Arguments text token) : Arguments (blanks ++ text) token := by
  cases h with
  | last hblanks' htext hend =>
      rw [← List.append_assoc]
      exact .last (List.forall_mem_append.mpr ⟨hblanks, hblanks'⟩) htext hend
  | more hblanks' htext hend hmore =>
      rw [← List.append_assoc]
      exact .more (List.forall_mem_append.mpr ⟨hblanks, hblanks'⟩) htext hend hmore

/-! ### The lexer reads the forms -/

/-- What is read: the blanks in front and a lexeme that does not run on. -/
structure Spelled (src token rest : Bytes) : Prop where
  ex : ∃ blanks text, (∀ c ∈ blanks, isBlank c = true) ∧ src = blanks ++ (text ++ rest) ∧
    Lexeme text token ∧ Delimits text rest

theorem Spelled.intro {src text token rest : Bytes} (hsrc : lexerSkipSpaces src = text ++ rest)
    (htext : Lexeme text token) (hend : Delimits text rest) : Spelled src token rest where
  ex := by
    refine ⟨src.takeWhile isBlank, text, fun c hc => List.mem_takeWhile_imp hc, ?_, htext, hend⟩
    rw [← hsrc]
    exact (List.takeWhile_append_dropWhile).symm

/-- A name with a parenthesis behind it is that of a function with its arguments. -/
theorem spelled_call {name src after token rest : Bytes} {fuel : Nat} (hne : name ≠ [])
    (hname : ∀ c ∈ name, isIdent c = true) (hsrc : lexerSkipSpaces src = name ++ parenOpen :: after)
    (hlist : ∀ src token rest, lexerParseTokenList_ fuel src = some (token, rest) →
      ∃ text, src = text ++ rest ∧ Arguments text token)
    (h : lexerCall (lexerParseTokenList_ fuel) name (parenOpen :: after) = some (token, rest)) :
    Spelled src token rest := by
  rw [lexerCall, if_pos rfl] at h
  have hblanks : after = after.takeWhile isBlank ++ lexerSkipSpaces after :=
    (List.takeWhile_append_dropWhile).symm
  have hmem : ∀ c ∈ after.takeWhile isBlank, isBlank c = true := fun c hc => List.mem_takeWhile_imp hc
  generalize after.takeWhile isBlank = blanks at *
  cases hafter : lexerSkipSpaces after with
  | nil =>
      rw [hafter] at h
      nomatch h
  | cons e after' =>
      rw [hafter] at h hblanks
      dsimp only at h
      split at h
      · rename_i hclose
        subst hclose
        cases h
        apply @Spelled.intro _ (name ++ parenOpen :: (blanks ++ [parenClose])) _ _
        · rw [hsrc, hblanks]
          simp
        · exact .noArguments hne hname hmem
        · exact delimits_of_runsOn (runsOn_call hne hname _)
      · obtain ⟨⟨token', rest'⟩, htoken, heq⟩ := Option.map_eq_some_iff.mp h
        cases heq
        obtain ⟨text, htext, harguments⟩ := hlist _ _ _ htoken
        apply @Spelled.intro _ (name ++ parenOpen :: (blanks ++ text)) _ _
        · rw [hsrc, hblanks, htext]
          simp
        · exact .call hne hname (harguments.blanks hmem)
        · exact delimits_of_runsOn (runsOn_call hne hname _)

theorem spelled_word {c : UInt8} {src behind token rest : Bytes} {fuel : Nat}
    (hsrc : lexerSkipSpaces src = c :: behind) (hc : isIdent c = true)
    (hlist : ∀ src token rest, lexerParseTokenList_ fuel src = some (token, rest) →
      ∃ text, src = text ++ rest ∧ Arguments text token)
    (h : lexerCall (lexerParseTokenList_ fuel) (c :: behind.takeWhile isIdent)
      (behind.dropWhile isIdent) = some (token, rest)) :
    Spelled src token rest := by
  have hne : c :: behind.takeWhile isIdent ≠ [] := List.cons_ne_nil _ _
  have hname : ∀ d ∈ c :: behind.takeWhile isIdent, isIdent d = true := by
    intro d hd
    cases List.mem_cons.mp hd with
    | inl heq => rw [heq]; exact hc
    | inr hmem => exact List.mem_takeWhile_imp hmem
  have hsplit : behind = behind.takeWhile isIdent ++ behind.dropWhile isIdent :=
    (List.takeWhile_append_dropWhile).symm
  have hstop := head_dropWhile isIdent behind
  generalize behind.takeWhile isIdent = name at *
  cases hbehind : behind.dropWhile isIdent with
  | nil =>
      rw [hbehind] at h hsplit
      cases h
      exact Spelled.intro (by rw [hsrc, hsplit]; simp) (.name hne hname) (fun c hc => nomatch hc)
  | cons d after =>
      rw [hbehind] at h hsplit hstop
      by_cases hparen : d = parenOpen
      · subst hparen
        exact spelled_call hne hname (by rw [hsrc, hsplit]; rfl) hlist h
      · rw [lexerCall, if_neg hparen] at h
        cases h
        apply @Spelled.intro _ (c :: name) _ _
        · rw [hsrc, hsplit]
          simp
        · exact .name hne hname
        · intro e he
          cases he
          rw [runsOn_name hne hname, hstop d rfl]
          simpa using hparen

theorem spelled_path {c : UInt8} {src behind : Bytes} (hsrc : lexerSkipSpaces src = c :: behind)
    (hc : isPathStart c = true) :
    Spelled src (c :: behind.takeWhile isPath) (behind.dropWhile isPath) := by
  apply @Spelled.intro _ (c :: behind.takeWhile isPath) _ _
  · rw [hsrc, List.cons_append, List.takeWhile_append_dropWhile]
  · exact .path hc fun d hd => List.mem_takeWhile_imp hd
  · intro d hd
    rw [runsOn_path _ hc]
    exact head_dropWhile isPath behind d hd

/-- A lexeme that starts with another byte than a name or a path does not run on. -/
theorem runsOn_start {c : UInt8} (hident : isIdent c = false) (hpath : isPathStart c = false)
    (text : Bytes) (d : UInt8) : runsOn (c :: text) d = false :=
  runsOn_closed (by simpa using hpath) List.mem_cons_self hident d

theorem spelled_quoted {src behind rest : Bytes} {d : UInt8}
    (hsrc : lexerSkipSpaces src = quote :: behind)
    (hbehind : behind.dropWhile (· ≠ quote) = d :: rest) :
    Spelled src (quote :: (behind.takeWhile (· ≠ quote) ++ [quote])) rest := by
  have hsplit := (List.takeWhile_append_dropWhile (p := (· ≠ quote)) (l := behind)).symm
  have hstop := head_dropWhile (· ≠ quote) behind
  rw [hbehind] at hsplit hstop
  obtain rfl : d = quote := by simpa using hstop d rfl
  apply @Spelled.intro _ (quote :: (behind.takeWhile (· ≠ quote) ++ [quote])) _ _
  · rw [hsrc]
    simpa using hsplit
  · apply Lexeme.quoted
    intro hmem
    simpa using List.mem_takeWhile_imp hmem
  · exact delimits_of_runsOn (runsOn_start rfl rfl _)

/-- What `lexerParseToken_` reads, if its lists are read well. -/
theorem spelled_token {fuel : Nat} {src token rest : Bytes}
    (hlist : ∀ src token rest, lexerParseTokenList_ fuel src = some (token, rest) →
      ∃ text, src = text ++ rest ∧ Arguments text token)
    (h : lexerParseToken_ (fuel + 1) src = some (token, rest)) : Spelled src token rest := by
  rw [lexerParseToken_] at h
  cases hsrc : lexerSkipSpaces src with
  | nil =>
      rw [hsrc] at h
      nomatch h
  | cons c behind =>
      rw [hsrc] at h
      dsimp only at h
      split at h
      · rename_i hc
        exact spelled_word hsrc hc hlist h
      · rename_i hident
        split at h
        · rename_i hc
          cases h
          exact spelled_path hsrc hc
        · rename_i hpath
          have hclosed := runsOn_start (Bool.eq_false_iff.mpr hident) (Bool.eq_false_iff.mpr hpath)
          split at h
          · rename_i hquote
            subst hquote
            cases hbehind : behind.dropWhile (· ≠ quote) with
            | nil =>
                rw [hbehind] at h
                nomatch h
            | cons d rest' =>
                rw [hbehind] at h
                cases h
                exact spelled_quoted hsrc hbehind
          · split at h
            · rename_i hminus
              subst hminus
              cases behind with
              | nil => nomatch h
              | cons d after =>
                  dsimp only at h
                  split at h
                  · rename_i hd
                    subst hd
                    cases h
                    exact Spelled.intro hsrc .arrow (delimits_of_runsOn (hclosed _))
                  · nomatch h
            · split at h
              · rename_i hmark
                cases h
                exact Spelled.intro hsrc (.mark hmark) (delimits_of_runsOn (hclosed _))
              · nomatch h

/-- What `lexerParseTokenList_` reads, if its tokens and the rest of the list are. -/
theorem spelled_list {fuel : Nat} {src token rest : Bytes}
    (htokenRead : ∀ src token rest, lexerParseToken_ fuel src = some (token, rest) →
      Spelled src token rest)
    (hlistRead : ∀ src token rest, lexerParseTokenList_ fuel src = some (token, rest) →
      ∃ text, src = text ++ rest ∧ Arguments text token)
    (h : lexerParseTokenList_ (fuel + 1) src = some (token, rest)) :
    ∃ text, src = text ++ rest ∧ Arguments text token := by
  rw [lexerParseTokenList_] at h
  obtain ⟨⟨token', behind⟩, htoken, hmore⟩ := Option.bind_eq_some_iff.mp h
  obtain ⟨blanks, text, hblanks, hsrc, htext, hend⟩ := (htokenRead _ _ _ htoken).ex
  dsimp only at hmore
  cases behind with
  | nil => nomatch hmore
  | cons c behind =>
      dsimp only at hmore
      split at hmore
      · rename_i hc
        subst hc
        cases hmore
        exact ⟨blanks ++ (text ++ [parenClose]), by rw [hsrc]; simp, .last hblanks htext hend⟩
      · split at hmore
        · rename_i hc
          subst hc
          obtain ⟨⟨tokens, rest'⟩, htokens, heq⟩ := Option.map_eq_some_iff.mp hmore
          cases heq
          obtain ⟨texts, htexts, harguments⟩ := hlistRead _ _ _ htokens
          refine ⟨blanks ++ (text ++ comma :: texts), ?_, .more hblanks htext hend harguments⟩
          rw [hsrc, htexts]
          simp
        · nomatch hmore

theorem spelled_of_lexer (fuel : Nat) :
    (∀ src token rest, lexerParseToken_ fuel src = some (token, rest) → Spelled src token rest) ∧
      ∀ src token rest, lexerParseTokenList_ fuel src = some (token, rest) →
        ∃ text, src = text ++ rest ∧ Arguments text token := by
  induction fuel with
  | zero =>
      constructor
      · exact fun _ _ _ h => nomatch h
      · exact fun _ _ _ h => nomatch h
  | succ fuel ih =>
      constructor
      · exact fun src token rest h => spelled_token ih.2 h
      · exact fun src token rest h => spelled_list ih.1 ih.2 h

theorem lexerSkipSpaces_append {blanks rest : Bytes} (hblanks : ∀ c ∈ blanks, isBlank c = true) :
    lexerSkipSpaces (blanks ++ rest) = lexerSkipSpaces rest :=
  List.dropWhile_append_of_pos hblanks

theorem lexerSkipSpaces_cons {c : UInt8} (hc : isBlank c = false) (rest : Bytes) :
    lexerSkipSpaces (c :: rest) = c :: rest :=
  List.dropWhile_cons_of_neg (by simp [hc])

/-- The lexer on a text that starts with a name. -/
theorem lexerParseToken_word {name behind src : Bytes} (hne : name ≠ [])
    (hname : ∀ c ∈ name, isIdent c = true) (hbehind : ∀ c ∈ behind.head?, isIdent c = false)
    (hsrc : lexerSkipSpaces src = name ++ behind) (fuel : Nat) :
    lexerParseToken_ (fuel + 1) src = lexerCall (lexerParseTokenList_ fuel) name behind := by
  cases name with
  | nil => exact absurd rfl hne
  | cons c name =>
      have htail : ∀ d ∈ name, isIdent d = true := fun d hd => hname d (List.mem_cons_of_mem c hd)
      rw [lexerParseToken_, hsrc]
      dsimp only [List.cons_append]
      rw [if_pos (hname c List.mem_cons_self), takeWhile_append_stop htail hbehind,
        dropWhile_append_stop htail hbehind]

theorem ne_of_isTokenStart {c d : UInt8} (hc : isTokenStart c = true)
    (hd : isTokenStart d = false) :
    c ≠ d := by
  intro heq
  rw [heq, hd] at hc
  nomatch hc

theorem isSpace_of_isTokenStart {c : UInt8} (hc : isTokenStart c = true) : isSpace c = false := by
  cases hspace : isSpace c with
  | false => rfl
  | true =>
      simp only [isSpace, Bool.or_eq_true, beq_iff_eq, Bool.and_eq_true,
        decide_eq_true_eq] at hspace
      cases hspace with
      | inl heq => exact absurd heq (ne_of_isTokenStart hc rfl)
      | inr hrange =>
          have hlow := UInt8.le_iff_toNat_le.mp hrange.1
          have hhigh := UInt8.le_iff_toNat_le.mp hrange.2
          have hmem : c.toNat ∈ [9, 10, 11, 12, 13] := by
            simp at hlow hhigh ⊢
            omega
          have hall : ∀ n ∈ [9, 10, 11, 12, 13], isTokenStart (UInt8.ofNat n) = false := by decide
          have hnot := hall _ hmem
          rw [UInt8.ofNat_toNat, hc] at hnot
          nomatch hnot

theorem isBlank_of_isTokenStart {c : UInt8} (hc : isTokenStart c = true) : isBlank c = false := by
  have hspace := ne_of_isTokenStart hc (d := 32) rfl
  have htab := ne_of_isTokenStart hc (d := 9) rfl
  simp [isBlank, hspace, htab]

theorem Lexeme.start {text token : Bytes} (h : Lexeme text token) :
    ∃ c behind, text = c :: behind ∧ isTokenStart c = true := by
  have hword : ∀ {name : Bytes} (behind : Bytes), name ≠ [] → (∀ c ∈ name, isIdent c = true) →
      ∃ c rest, name ++ behind = c :: rest ∧ isTokenStart c = true := by
    intro name behind hne hname
    cases name with
    | nil => exact absurd rfl hne
    | cons c name => exact ⟨c, name ++ behind, rfl, by simp [isTokenStart, hname c List.mem_cons_self]⟩
  cases h with
  | name hne hname =>
      have hstart := hword [] hne hname
      rwa [List.append_nil] at hstart
  | noArguments hne hname hblanks => exact hword _ hne hname
  | call hne hname harguments => exact hword _ hne hname
  | @path c path hc hpath => exact ⟨c, path, rfl, by simp [isTokenStart, hc]⟩
  | quoted hstring => exact ⟨quote, _, rfl, rfl⟩
  | arrow => exact ⟨45, [62], rfl, rfl⟩
  | @mark c hc => exact ⟨c, [], rfl, by simp [isTokenStart, hc]⟩

theorem Lexeme.skip {text token : Bytes} (h : Lexeme text token) {blanks : Bytes}
    (hblanks : ∀ c ∈ blanks, isBlank c = true) (rest : Bytes) :
    lexerSkipSpaces (blanks ++ (text ++ rest)) = text ++ rest := by
  obtain ⟨c, behind, rfl, hc⟩ := h.start
  rw [lexerSkipSpaces_append hblanks]
  exact lexerSkipSpaces_cons (isBlank_of_isTokenStart hc) _

/-- The arguments without the blanks in front, which start with a lexeme. -/
theorem Arguments.skip {text token : Bytes} (h : Arguments text token) (rest : Bytes) :
    ∃ c behind, lexerSkipSpaces (text ++ rest) = c :: (behind ++ rest) ∧ c ≠ parenClose ∧
      Arguments (c :: behind) token ∧ (c :: behind).length ≤ text.length := by
  have hnone : ∀ c ∈ ([] : Bytes), isBlank c = true := fun c hc => nomatch hc
  cases h with
  | @last blanks text token hblanks htext hend =>
      have hskip := htext.skip hblanks (parenClose :: rest)
      obtain ⟨c, behind, rfl, hc⟩ := htext.start
      refine ⟨c, behind ++ [parenClose], ?_, ne_of_isTokenStart hc rfl,
        Arguments.last hnone htext hend, by simp⟩
      simpa using hskip
  | @more blanks text token texts tokens hblanks htext hend hmore =>
      have hskip := htext.skip hblanks (comma :: (texts ++ rest))
      obtain ⟨c, behind, rfl, hc⟩ := htext.start
      refine ⟨c, behind ++ comma :: texts, ?_, ne_of_isTokenStart hc rfl,
        Arguments.more hnone htext hend hmore, by simp⟩
      simpa using hskip

theorem isMark_excludes {c : UInt8} (hc : isMark c = true) :
    isIdent c = false ∧ isPathStart c = false ∧ c ≠ quote ∧ c ≠ 45 := by
  simp only [isMark, Bool.or_eq_true, beq_iff_eq] at hc
  rcases hc with (((h | h) | h) | h) | h
  all_goals
    rw [h]
    decide

section Read

variable {fuel : Nat} {src rest : Bytes}

theorem lexer_name {name : Bytes} (hne : name ≠ []) (hname : ∀ c ∈ name, isIdent c = true)
    (hend : Delimits name rest) (hsrc : lexerSkipSpaces src = name ++ rest) :
    lexerParseToken_ (fuel + 1) src = some (name, rest) := by
  have hbehind : ∀ c ∈ rest.head?, isIdent c = false ∧ c ≠ parenOpen := by
    intro c hc
    have hruns := hend c hc
    rw [runsOn_name hne hname, Bool.or_eq_false_iff] at hruns
    exact ⟨hruns.1, by simpa using hruns.2⟩
  rw [lexerParseToken_word hne hname (fun c hc => (hbehind c hc).1) hsrc]
  cases rest with
  | nil => rfl
  | cons c rest => rw [lexerCall, if_neg (hbehind c rfl).2]

/-- A name with a parenthesis behind it goes on as a call. -/
theorem lexer_paren {name text : Bytes} (hne : name ≠ []) (hname : ∀ c ∈ name, isIdent c = true)
    (hsrc : lexerSkipSpaces src = name ++ parenOpen :: text) :
    lexerParseToken_ (fuel + 1) src =
      lexerCall (lexerParseTokenList_ fuel) name (parenOpen :: text) := by
  apply lexerParseToken_word hne hname _ hsrc
  intro c hc
  cases hc
  rfl

theorem lexer_call {name text token : Bytes} (hne : name ≠ [])
    (hname : ∀ c ∈ name, isIdent c = true) (harguments : Arguments text token)
    (hlist : ∀ text', Arguments text' token → text'.length ≤ text.length →
      lexerParseTokenList_ fuel (text' ++ rest) = some (token, rest))
    (hsrc : lexerSkipSpaces src = name ++ parenOpen :: text ++ rest) :
    lexerParseToken_ (fuel + 1) src = some (name ++ parenOpen :: token, rest) := by
  obtain ⟨c, behind, hskip, hc, hargs, hlength⟩ := harguments.skip rest
  have hread := hlist (c :: behind) hargs hlength
  rw [List.cons_append] at hread
  rw [lexer_paren hne hname (by rw [hsrc, List.append_assoc, List.cons_append]), lexerCall,
    if_pos rfl, hskip]
  dsimp only
  rw [if_neg hc, hread]
  rfl

theorem lexer_path {c : UInt8} {path : Bytes} (hc : isPathStart c = true)
    (hpath : ∀ d ∈ path, isPath d = true) (hend : Delimits (c :: path) rest)
    (hsrc : lexerSkipSpaces src = c :: path ++ rest) :
    lexerParseToken_ (fuel + 1) src = some (c :: path, rest) := by
  have hident : isIdent c = false := by
    cases hc' : isIdent c with
    | false => rfl
    | true =>
        rw [isPathStart_of_isIdent hc'] at hc
        nomatch hc
  have hstop : ∀ d ∈ rest.head?, isPath d = false := by
    intro d hd
    have hruns := hend d hd
    rwa [runsOn_path _ hc] at hruns
  rw [lexerParseToken_, hsrc]
  dsimp only [List.cons_append]
  rw [if_neg (by simp [hident]), if_pos hc, takeWhile_append_stop hpath hstop,
    dropWhile_append_stop hpath hstop]

theorem lexer_quoted {string : Bytes} (hstring : quote ∉ string)
    (hsrc : lexerSkipSpaces src = quote :: (string ++ [quote]) ++ rest) :
    lexerParseToken_ (fuel + 1) src = some (quote :: (string ++ [quote]), rest) := by
  have hall : ∀ c ∈ string, decide (c ≠ quote) = true := by
    intro c hc
    exact decide_eq_true fun heq => hstring (heq ▸ hc)
  have hstop : ∀ c ∈ ([quote] ++ rest).head?, decide (c ≠ quote) = false := by
    intro c hc
    cases hc
    rfl
  rw [lexerParseToken_, hsrc]
  dsimp only [List.cons_append]
  rw [if_neg (by decide), if_neg (by decide), if_pos rfl, List.append_assoc,
    takeWhile_append_stop hall hstop, dropWhile_append_stop hall hstop]
  rfl

theorem lexer_mark {c : UInt8} (hc : isMark c = true)
    (hsrc : lexerSkipSpaces src = [c] ++ rest) :
    lexerParseToken_ (fuel + 1) src = some ([c], rest) := by
  obtain ⟨hident, hpath, hquote, hminus⟩ := isMark_excludes hc
  rw [lexerParseToken_, hsrc]
  dsimp only [List.cons_append, List.nil_append]
  rw [if_neg (by simp [hident]), if_neg (by simp [hpath]), if_neg hquote, if_neg hminus,
    if_pos hc]

end Read

/-- The tokens of a list are read one after the other. -/
theorem lexerList_of_arguments {fuel : Nat} {text token : Bytes} (rest : Bytes)
    (hread : ∀ src text token rest, Lexeme text token → Delimits text rest →
      lexerSkipSpaces src = text ++ rest → text.length ≤ fuel →
        lexerParseToken_ fuel src = some (token, rest))
    (hlist : ∀ text token rest, Arguments text token → text.length ≤ fuel →
      lexerParseTokenList_ fuel (text ++ rest) = some (token, rest))
    (h : Arguments text token) (hfuel : text.length ≤ fuel + 1) :
    lexerParseTokenList_ (fuel + 1) (text ++ rest) = some (token, rest) := by
  cases h with
  | @last blanks text token hblanks htext hend =>
      have htoken := hread _ text token (parenClose :: rest) htext hend (htext.skip hblanks _)
        (by simp at hfuel; omega)
      have hsrc : blanks ++ (text ++ [parenClose]) ++ rest =
          blanks ++ (text ++ parenClose :: rest) := by simp
      rw [lexerParseTokenList_, hsrc, htoken]
      rfl
  | @more blanks text token texts tokens hblanks htext hend hmore =>
      have htoken := hread _ text token (comma :: (texts ++ rest)) htext hend
        (htext.skip hblanks _) (by simp at hfuel; omega)
      have htokens := hlist texts tokens rest hmore (by simp at hfuel; omega)
      have hsrc : blanks ++ (text ++ comma :: texts) ++ rest =
          blanks ++ (text ++ comma :: (texts ++ rest)) := by simp
      rw [lexerParseTokenList_, hsrc, htoken, Option.bind_some]
      dsimp only
      rw [if_neg (by decide), if_pos rfl, htokens]
      rfl

/-- A lexeme is read at any depth not below its length. -/
theorem lexer_of_lexeme (fuel : Nat) :
    (∀ src text token rest, Lexeme text token → Delimits text rest →
      lexerSkipSpaces src = text ++ rest → text.length ≤ fuel →
        lexerParseToken_ fuel src = some (token, rest)) ∧
      ∀ text token rest, Arguments text token → text.length ≤ fuel →
        lexerParseTokenList_ fuel (text ++ rest) = some (token, rest) := by
  induction fuel with
  | zero =>
      constructor
      · intro src text token rest h _ _ hfuel
        obtain ⟨c, behind, rfl, -⟩ := h.start
        nomatch hfuel
      · intro text token rest h hfuel
        obtain ⟨c, behind, -, -, -, hlength⟩ := h.skip []
        rw [List.length_cons] at hlength
        omega
  | succ fuel ih =>
      constructor
      · intro src text token rest h hend hsrc hfuel
        cases h with
        | name hne hname => exact lexer_name hne hname hend hsrc
        | @noArguments name blanks hne hname hblanks =>
            have hparen : lexerSkipSpaces src =
                name ++ parenOpen :: (blanks ++ parenClose :: rest) := by
              rw [hsrc]
              simp
            rw [lexer_paren hne hname hparen, lexerCall, if_pos rfl, lexerSkipSpaces_append hblanks]
            rfl
        | call hne hname harguments =>
            apply lexer_call hne hname harguments _ hsrc
            intro text' hargs hlength
            exact ih.2 text' _ rest hargs (by simp at hfuel; omega)
        | path hc hpath => exact lexer_path hc hpath hend hsrc
        | quoted hstring => exact lexer_quoted hstring hsrc
        | arrow =>
            rw [lexerParseToken_, hsrc]
            rfl
        | mark hc => exact lexer_mark hc hsrc
      · exact fun text token rest h hfuel => lexerList_of_arguments rest ih.1 ih.2 h hfuel

/-- The lexer reads blanks and one of the forms, up to a byte that does not go on with it. -/
theorem lexerParseToken_iff (src token rest : Bytes) :
    lexerParseToken src = some (token, rest) ↔ Spelled src token rest := by
  constructor
  · exact (spelled_of_lexer _).1 src token rest
  · intro ⟨blanks, text, hblanks, hsrc, htext, hend⟩
    apply (lexer_of_lexeme _).1 src text token rest htext hend
    · rw [hsrc]
      exact htext.skip hblanks rest
    · rw [hsrc]
      simp only [List.length_append]
      omega

end StrusWebService.AnaConfig
