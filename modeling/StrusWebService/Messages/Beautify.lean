import StrusWebService.Library.Text

/-! # Error messages for people

`beautifyErrorMessage` copies a message and puts line breaks into it. What stands in
quotes or in parentheses is a section and is not broken: the scanner looks for the end of
the section first. For a parenthesis without an end it returns to where it started.
-/

namespace StrusWebService.Messages

/-! ### The code

A pointer into the message is the list of the bytes from it on. Behind the terminating NUL
there is none. -/

/-- `for (eb=*si,start=si++; *si && *si != eb; ++si) if (*si == '\\' && si[1]) ++si;` -/
def quoteLoop (eb : UInt8) : List UInt8 → Option (List UInt8)
  | [] => none
  | [c] => if c = 0 ∨ c = eb then some [c] else none
  | c :: d :: si =>
      if c = 0 ∨ c = eb then some (c :: d :: si)
      else if c = 92 ∧ d ≠ 0 then quoteLoop eb si
      else quoteLoop eb (d :: si)

/-- The loop to the next `)`, counting the brackets on the way. -/
def parenLoop : Int32 → List UInt8 → Option (Int32 × List UInt8)
  | _, [] => none
  | cnt, c :: si =>
      if c = 0 ∨ c = 41 then some (cnt, c :: si)
      else parenLoop (if c = 91 ∨ c = 123 then cnt + 1 else cnt) si

/-- `while (*si == ' ') ++si;` -/
def spaceLoop : List UInt8 → Option (List UInt8)
  | [] => none
  | c :: si => if c = 32 then spaceLoop si else some (c :: si)

/-- `rt.append( start, si - start)` -/
def appendSection (rt start si : List UInt8) : List UInt8 :=
  rt ++ start.take (start.length - si.length)

/-- The cases of the switch, with the character and the pointer behind it. -/
def beautifyStep (rt : List UInt8) (ch : UInt8) (si : List UInt8) :
    Option (List UInt8 × List UInt8) :=
  if ch = 34 ∨ ch = 39 then
    (quoteLoop ch si).bind fun sectionEnd => sectionEnd.head?.bind fun stop =>
      let behind := if stop ≠ 0 then sectionEnd.tail else sectionEnd
      some (appendSection rt (ch :: si) behind, behind)
  else if ch = 58 then
    si.head?.bind fun next =>
      if next = 32 then (spaceLoop si).map fun behind => (rt ++ [58, 10, 32], behind)
      else some (rt ++ [58], si)
  else if ch = 40 then
    (parenLoop 0 si).bind fun (cnt, sectionEnd) => sectionEnd.head?.bind fun stop =>
      if stop = 41 then
        let rt := if cnt ≠ 0 then rt ++ [10, 10] else rt
        some (appendSection rt (ch :: si) sectionEnd.tail, sectionEnd.tail)
      else some (rt ++ [40], si)
  else some (rt ++ [ch], si)

/-- Every turn of the loop but the last one passes a byte. -/
def beautifyLoop : Nat → List UInt8 → List UInt8 → Option (List UInt8)
  | 0, _, _ => none
  | _ + 1, _, [] => none
  | fuel + 1, rt, ch :: si =>
      if ch = 0 then some rt
      else (beautifyStep rt ch si).bind fun (rt, si) => beautifyLoop fuel rt si

def beautifyErrorMessage (msg : List UInt8) : Option (List UInt8) :=
  beautifyLoop (msg.length + 1) [] (msg ++ [0])

/-! ### Sections -/

/-- No space and no line feed. -/
def visible (c : UInt8) : Bool := c ≠ 32 ∧ c ≠ 10

/-- What can stand before the end of a quote. A backslash takes the next byte with it. -/
inductive Quoted (eb : UInt8) : List UInt8 → Prop
  | nil : Quoted eb []
  | byte {c : UInt8} {body : List UInt8} (hend : c ≠ eb) (hescape : c ≠ 92)
      (hbody : Quoted eb body) : Quoted eb (c :: body)
  | escaped {c : UInt8} {body : List UInt8} (hbody : Quoted eb body) : Quoted eb (92 :: c :: body)

/-- A section, and what stands behind it in the message. -/
inductive Section : List UInt8 → List UInt8 → Prop
  | quote {eb : UInt8} {body : List UInt8} (heb : eb = 34 ∨ eb = 39) (hbody : Quoted eb body)
      (behind : List UInt8) : Section (eb :: (body ++ [eb])) behind
  | openQuote {eb : UInt8} {body : List UInt8} (heb : eb = 34 ∨ eb = 39)
      (hbody : Quoted eb body) : Section (eb :: body) []
  | openEscape {eb : UInt8} {body : List UInt8} (heb : eb = 34 ∨ eb = 39)
      (hbody : Quoted eb body) : Section (eb :: (body ++ [92])) []
  | parens {body : List UInt8} (hbody : 41 ∉ body) (behind : List UInt8) :
      Section (40 :: (body ++ [41])) behind

def StartsSection (text : List UInt8) : Prop :=
  ∃ s behind, text = s ++ behind ∧ Section s behind

/-- The sections met outside of the other ones. -/
inductive Entered (s : List UInt8) : List UInt8 → Prop
  | here {behind : List UInt8} (h : Section s behind) : Entered s (s ++ behind)
  | behind {t behind : List UInt8} (h : Section t behind) (hrest : Entered s behind) :
      Entered s (t ++ behind)
  | pass {c : UInt8} {rest : List UInt8} (h : ¬StartsSection (c :: rest))
      (hrest : Entered s rest) : Entered s (c :: rest)

/-! ### The inner loops -/

section Loops

variable {eb c : UInt8} {body behind : List UInt8}

theorem quoteLoop_stop (h : c = 0 ∨ c = eb) (si : List UInt8) :
    quoteLoop eb (c :: si) = some (c :: si) := by
  cases si with
  | nil => rw [quoteLoop, if_pos h]
  | cons d si => rw [quoteLoop, if_pos h]

theorem quoteLoop_byte (h : ¬(c = 0 ∨ c = eb)) (hescape : c ≠ 92) {d : UInt8} (si : List UInt8) :
    quoteLoop eb (c :: d :: si) = quoteLoop eb (d :: si) := by
  rw [quoteLoop, if_neg h, if_neg fun hc => hescape hc.1]

/-- The loop passes what stands before the end of the quote. -/
theorem quoteLoop_append (h : Quoted eb body) (heb : eb ≠ 92) (hnul : 0 ∉ body) (d : UInt8)
    (si : List UInt8) : quoteLoop eb (body ++ d :: si) = quoteLoop eb (d :: si) := by
  induction h with
  | nil => rfl
  | @byte c body hend hescape hbody ih =>
      obtain ⟨hc, hrest⟩ := List.ne_and_not_mem_of_not_mem_cons hnul
      have hstop : ¬(c = 0 ∨ c = eb) := fun h => h.elim (fun h => hc h.symm) hend
      rw [← ih hrest]
      cases body with
      | nil => exact quoteLoop_byte hstop hescape si
      | cons e body => exact quoteLoop_byte hstop hescape _
  | @escaped c body hbody ih =>
      have hrest := List.not_mem_of_not_mem_cons hnul
      obtain ⟨hc, hrest⟩ := List.ne_and_not_mem_of_not_mem_cons hrest
      have hstop : ¬((92 : UInt8) = 0 ∨ 92 = eb) := fun h => h.elim (by decide) fun h => heb h.symm
      rw [List.cons_append, List.cons_append, quoteLoop, if_neg hstop, if_pos ⟨rfl, Ne.symm hc⟩]
      exact ih hrest

/-- A backslash with nothing behind it is passed alone. -/
theorem quoteLoop_escape (heb : eb ≠ 92) : quoteLoop eb [92, 0] = some [0] := by
  have hstop : ¬((92 : UInt8) = 0 ∨ 92 = eb) := fun h => h.elim (by decide) fun h => heb h.symm
  rw [quoteLoop, if_neg hstop, if_neg fun h => h.2 rfl]
  exact quoteLoop_stop (Or.inl rfl) []

/-- A quote ends somewhere, at the latest with the message. -/
theorem exists_quoted (eb : UInt8) : ∀ text : List UInt8,
    (∃ body behind, text = body ++ eb :: behind ∧ Quoted eb body) ∨ Quoted eb text ∨
      ∃ body, text = body ++ [92] ∧ Quoted eb body
  | [] => Or.inr (Or.inl Quoted.nil)
  | [c] => by
      by_cases hend : c = eb
      · exact Or.inl ⟨[], [], by rw [hend]; rfl, Quoted.nil⟩
      · by_cases hescape : c = 92
        · exact Or.inr (Or.inr ⟨[], by rw [hescape]; rfl, Quoted.nil⟩)
        · exact Or.inr (Or.inl (Quoted.byte hend hescape Quoted.nil))
  | c :: d :: text => by
      by_cases hend : c = eb
      · exact Or.inl ⟨[], d :: text, by rw [hend]; rfl, Quoted.nil⟩
      · by_cases hescape : c = 92
        · subst hescape
          rcases exists_quoted eb text with
            ⟨body, behind, htext, hbody⟩ | hbody | ⟨body, htext, hbody⟩
          · exact Or.inl ⟨92 :: d :: body, behind, by rw [htext]; rfl, Quoted.escaped hbody⟩
          · exact Or.inr (Or.inl (Quoted.escaped hbody))
          · exact Or.inr (Or.inr ⟨92 :: d :: body, by rw [htext]; rfl, Quoted.escaped hbody⟩)
        · rcases exists_quoted eb (d :: text) with
            ⟨body, behind, htext, hbody⟩ | hbody | ⟨body, htext, hbody⟩
          · exact Or.inl ⟨c :: body, behind, by rw [htext]; rfl, Quoted.byte hend hescape hbody⟩
          · exact Or.inr (Or.inl (Quoted.byte hend hescape hbody))
          · exact Or.inr (Or.inr ⟨c :: body, by rw [htext]; rfl, Quoted.byte hend hescape hbody⟩)

/-- The loop stops at the first `)` or at the end. -/
theorem parenLoop_append (hnul : 0 ∉ body) (hbody : 41 ∉ body) {d : UInt8} (hd : d = 0 ∨ d = 41)
    (si : List UInt8) (cnt : Int32) : ∃ cnt', parenLoop cnt (body ++ d :: si) = some (cnt', d :: si) := by
  induction body generalizing cnt with
  | nil => exact ⟨cnt, by rw [List.nil_append, parenLoop, if_pos hd]⟩
  | cons c body ih =>
      obtain ⟨hc, hrest⟩ := List.ne_and_not_mem_of_not_mem_cons hnul
      obtain ⟨hc', hrest'⟩ := List.ne_and_not_mem_of_not_mem_cons hbody
      have hstop : ¬(c = 0 ∨ c = 41) := fun h => h.elim (Ne.symm hc) (Ne.symm hc')
      rw [List.cons_append, parenLoop, if_neg hstop]
      exact ih hrest hrest' _

theorem spaceLoop_append (text : List UInt8) :
    ∃ spaces behind, text = spaces ++ behind ∧ (∀ c ∈ spaces, c = 32) ∧
      spaceLoop (text ++ [0]) = some (behind ++ [0]) := by
  induction text with
  | nil => exact ⟨[], [], rfl, by simp, rfl⟩
  | cons c text ih =>
      by_cases hc : c = 32
      · rcases ih with ⟨spaces, behind, htext, hspaces, hloop⟩
        refine ⟨c :: spaces, behind, by rw [htext]; rfl, ?_, ?_⟩
        · intro c' hc'
          rcases List.mem_cons.mp hc' with rfl | hmem
          · exact hc
          · exact hspaces c' hmem
        · rw [List.cons_append, spaceLoop, if_pos hc, hloop]
      · exact ⟨[], c :: text, rfl, by simp, by rw [List.cons_append, spaceLoop, if_neg hc]⟩

end Loops

/-! ### One turn -/

section Turn

variable {rt s behind : List UInt8}

theorem quote_ne_escape {eb : UInt8} (heb : eb = 34 ∨ eb = 39) : eb ≠ 92 := by
  rintro rfl
  exact absurd heb (by decide)

theorem startsSection_quote {eb : UInt8} (heb : eb = 34 ∨ eb = 39) (text : List UInt8) :
    StartsSection (eb :: text) := by
  rcases exists_quoted eb text with ⟨body, behind, htext, hbody⟩ | hbody | ⟨body, htext, hbody⟩
  · refine ⟨eb :: (body ++ [eb]), behind, ?_, Section.quote heb hbody behind⟩
    rw [htext, List.cons_append, List.append_assoc, List.singleton_append]
  · exact ⟨eb :: text, [], (List.append_nil _).symm, Section.openQuote heb hbody⟩
  · exact ⟨eb :: (body ++ [92]), [], by rw [htext, List.append_nil], Section.openEscape heb hbody⟩

theorem startsSection_paren {text : List UInt8} (h : 41 ∈ text) : StartsSection (40 :: text) := by
  refine ⟨40 :: (text.takeWhile (· ≠ 41) ++ [41]), (text.dropWhile (· ≠ 41)).tail, ?_,
    Section.parens ?_ _⟩
  · rw [List.cons_append, List.append_assoc, List.singleton_append, ← split_at_mem h]
  · intro hmem
    simpa using List.mem_takeWhile_imp hmem

theorem appendSection_append (rt s behind : List UInt8) :
    appendSection rt (s ++ behind) behind = rt ++ s := by
  rw [appendSection, List.length_append, Nat.add_sub_cancel, List.take_left]

theorem beautifyStep_quote {eb : UInt8} (heb : eb = 34 ∨ eb = 39) {si rest : List UInt8}
    (hloop : quoteLoop eb si = some (eb :: rest)) (rt : List UInt8) :
    beautifyStep rt eb si = some (appendSection rt (eb :: si) rest, rest) := by
  have hne : eb ≠ 0 := by
    rintro rfl
    exact absurd heb (by decide)
  rw [beautifyStep, if_pos heb, hloop, Option.bind_some, List.head?_cons, Option.bind_some]
  simp only [hne, ne_eq, not_false_eq_true, if_true, List.tail_cons]

theorem beautifyStep_openQuote {eb : UInt8} (heb : eb = 34 ∨ eb = 39) {si : List UInt8}
    (hloop : quoteLoop eb si = some [0]) (rt : List UInt8) :
    beautifyStep rt eb si = some (appendSection rt (eb :: si) [0], [0]) := by
  rw [beautifyStep, if_pos heb, hloop, Option.bind_some, List.head?_cons, Option.bind_some]
  simp only [ne_eq, not_true_eq_false, if_false]

theorem beautifyStep_paren {si : List UInt8} {stop : UInt8} {rest : List UInt8} {cnt : Int32}
    (hloop : parenLoop 0 si = some (cnt, stop :: rest)) (rt : List UInt8) :
    beautifyStep rt 40 si =
      if stop = 41 then
        some (appendSection (if cnt ≠ 0 then rt ++ [10, 10] else rt) (40 :: si) rest, rest)
      else some (rt ++ [40], si) := by
  rw [beautifyStep, if_neg (by decide), if_neg (by decide), if_pos rfl, hloop, Option.bind_some]
  rfl

/-- The turn at a section copies it, behind line breaks at most. -/
theorem beautifyStep_section (h : Section s behind) (hnul : 0 ∉ s) (rt : List UInt8) :
    ∃ ch rest breaks, s = ch :: rest ∧ (∀ c ∈ breaks, c = 10) ∧
      beautifyStep rt ch (rest ++ (behind ++ [0])) = some (rt ++ breaks ++ s, behind ++ [0]) := by
  have hsection {ch : UInt8} {rest : List UInt8} (rt : List UInt8) :
      appendSection rt (ch :: (rest ++ (behind ++ [0]))) (behind ++ [0]) = rt ++ (ch :: rest) :=
    appendSection_append rt (ch :: rest) (behind ++ [0])
  cases h with
  | @quote eb body heb hbody =>
      have hrest := List.not_mem_of_not_mem_cons hnul
      have hloop : quoteLoop eb (body ++ [eb] ++ (behind ++ [0])) = some (eb :: (behind ++ [0])) := by
        rw [List.append_assoc, List.singleton_append, quoteLoop_append hbody (quote_ne_escape heb)]
        · exact quoteLoop_stop (Or.inr rfl) _
        · exact fun hmem => hrest (List.mem_append_left _ hmem)
      refine ⟨eb, body ++ [eb], [], rfl, by simp, ?_⟩
      rw [beautifyStep_quote heb hloop, hsection, List.append_nil]
  | @openQuote eb body heb hbody =>
      have hrest := List.not_mem_of_not_mem_cons hnul
      have hloop : quoteLoop eb (body ++ [0]) = some [0] := by
        rw [quoteLoop_append hbody (quote_ne_escape heb) hrest]
        exact quoteLoop_stop (Or.inl rfl) []
      refine ⟨eb, body, [], rfl, by simp, ?_⟩
      rw [List.nil_append, beautifyStep_openQuote heb hloop, List.append_nil]
      exact congrArg (fun t => some (t, [0])) (hsection rt)
  | @openEscape eb body heb hbody =>
      have hrest := List.not_mem_of_not_mem_cons hnul
      have hloop : quoteLoop eb (body ++ [92] ++ [0]) = some [0] := by
        rw [List.append_assoc, List.singleton_append, quoteLoop_append hbody (quote_ne_escape heb)]
        · exact quoteLoop_escape (quote_ne_escape heb)
        · exact fun hmem => hrest (List.mem_append_left _ hmem)
      refine ⟨eb, body ++ [92], [], rfl, by simp, ?_⟩
      rw [List.nil_append, beautifyStep_openQuote heb hloop, List.append_nil]
      exact congrArg (fun t => some (t, [0])) (hsection rt)
  | @parens body hbody =>
      have hrest := List.not_mem_of_not_mem_cons hnul
      obtain ⟨cnt, hloop⟩ := parenLoop_append (fun hmem => hrest (List.mem_append_left _ hmem)) hbody
        (Or.inr rfl) (behind ++ [0]) 0
      have hloop : parenLoop 0 (body ++ [41] ++ (behind ++ [0])) =
          some (cnt, 41 :: (behind ++ [0])) := by
        rwa [List.append_assoc]
      refine ⟨40, body ++ [41], if cnt ≠ 0 then [10, 10] else [], rfl, ?_, ?_⟩
      · split <;> simp
      · rw [beautifyStep_paren hloop, if_pos rfl, hsection]
        split
        · rfl
        · rw [List.append_nil]

/-- The turn at another byte passes it, and of the spaces behind it some. -/
theorem beautifyStep_pass {c : UInt8} {rest : List UInt8} (h : ¬StartsSection (c :: rest))
    (hnul : 0 ∉ rest) (rt : List UInt8) :
    ∃ spaces behind blanks, rest = spaces ++ behind ∧ (∀ c ∈ spaces, c = 32) ∧
      (∀ c ∈ blanks, visible c = false) ∧
      beautifyStep rt c (rest ++ [0]) = some (rt ++ c :: blanks, behind ++ [0]) := by
  have hquote : ¬(c = 34 ∨ c = 39) := fun hc => h (startsSection_quote hc rest)
  by_cases hcolon : c = 58
  · subst hcolon
    obtain ⟨spaces, behind, hrest, hspaces, hloop⟩ := spaceLoop_append rest
    cases rest with
    | nil => exact ⟨[], [], [], rfl, by simp, by simp, rfl⟩
    | cons d rest =>
        by_cases hd : d = 32
        · refine ⟨spaces, behind, [10, 32], hrest, hspaces, by decide, ?_⟩
          rw [beautifyStep, if_neg (by decide), if_pos rfl, List.cons_append, List.head?_cons,
            Option.bind_some, if_pos hd, ← List.cons_append, hloop]
          rfl
        · refine ⟨[], d :: rest, [], rfl, by simp, by simp, ?_⟩
          rw [beautifyStep, if_neg (by decide), if_pos rfl, List.cons_append, List.head?_cons,
            Option.bind_some, if_neg hd]
  · by_cases hparen : c = 40
    · subst hparen
      have hbody : 41 ∉ rest := fun hmem => h (startsSection_paren hmem)
      obtain ⟨cnt, hloop⟩ := parenLoop_append hnul hbody (Or.inl rfl) [] 0
      exact ⟨[], rest, [], rfl, by simp, by simp, by rw [beautifyStep_paren hloop, if_neg (by decide)]⟩
    · refine ⟨[], rest, [], rfl, by simp, by simp, ?_⟩
      rw [beautifyStep, if_neg hquote, if_neg hcolon, if_neg hparen]

end Turn

/-! ### The whole message -/

section Message

variable {s t behind text : List UInt8}

theorem Section.head (h : Section s behind) :
    ∃ c rest, s = c :: rest ∧ (c = 34 ∨ c = 39 ∨ c = 40) := by
  cases h with
  | quote heb hbody => exact ⟨_, _, rfl, heb.elim Or.inl fun h => Or.inr (Or.inl h)⟩
  | openQuote heb hbody => exact ⟨_, _, rfl, heb.elim Or.inl fun h => Or.inr (Or.inl h)⟩
  | openEscape heb hbody => exact ⟨_, _, rfl, heb.elim Or.inl fun h => Or.inr (Or.inl h)⟩
  | parens hbody => exact ⟨_, _, rfl, Or.inr (Or.inr rfl)⟩

theorem not_entered_nil (s : List UInt8) : ¬Entered s [] := by
  intro h
  generalize hwhole : ([] : List UInt8) = whole at h
  cases h with
  | here hs =>
      obtain ⟨c, rest, rfl, -⟩ := hs.head
      nomatch hwhole
  | behind ht hrest =>
      obtain ⟨c, rest, rfl, -⟩ := ht.head
      nomatch hwhole
  | pass hnot hrest => nomatch hwhole

theorem filter_blank {blanks : List UInt8} (h : ∀ c ∈ blanks, visible c = false) :
    blanks.filter visible = [] := by
  rw [List.filter_eq_nil_iff]
  intro c hc
  rw [h c hc]
  decide

theorem beautifyLoop_step {ch : UInt8} {rt rt' si si' : List UInt8} (hch : ch ≠ 0)
    (hstep : beautifyStep rt ch si = some (rt', si')) (fuel : Nat) :
    beautifyLoop (fuel + 1) rt (ch :: si) = beautifyLoop fuel rt' si' := by
  rw [beautifyLoop, if_neg hch, hstep, Option.bind_some]

/-- A message starts with one section only. -/
theorem Section.unique {behind' : List UInt8} (h : Section s behind) (h' : Section t behind')
    (htext : s ++ behind = t ++ behind') (hnul : 0 ∉ s ++ behind) : s = t ∧ behind = behind' := by
  have hs : 0 ∉ s := fun hmem => hnul (List.mem_append_left _ hmem)
  have ht : 0 ∉ t := fun hmem => hnul (htext ▸ List.mem_append_left _ hmem)
  obtain ⟨ch, rest, breaks, hcons, -, hstep⟩ := beautifyStep_section h hs []
  obtain ⟨ch', rest', breaks', hcons', -, hstep'⟩ := beautifyStep_section h' ht []
  have hsame : ch :: (rest ++ (behind ++ [0])) = ch' :: (rest' ++ (behind' ++ [0])) := by
    rw [← List.cons_append, ← List.cons_append, ← hcons, ← hcons', ← List.append_assoc,
      ← List.append_assoc, htext]
  obtain ⟨hch, hrest⟩ := List.cons.inj hsame
  rw [hch, hrest, hstep'] at hstep
  have hbehind : behind' = behind :=
    List.append_cancel_right (congrArg Prod.snd (Option.some.inj hstep))
  subst hbehind
  exact ⟨List.append_cancel_right htext, rfl⟩

theorem Entered.of_section {u : List UInt8} (h : Entered u text) (htext : text = t ++ behind)
    (ht : Section t behind) (hnul : 0 ∉ text) : u = t ∨ Entered u behind := by
  cases h with
  | here hu => exact Or.inl (hu.unique ht htext hnul).1
  | behind hother hrest =>
      obtain ⟨-, rfl⟩ := hother.unique ht htext hnul
      exact Or.inr hrest
  | pass hnot hrest => exact (hnot ⟨t, behind, htext, ht⟩).elim

theorem Entered.of_pass {u : List UInt8} {c : UInt8} (h : Entered u (c :: text))
    (hnot : ¬StartsSection (c :: text)) : Entered u text := by
  generalize hwhole : c :: text = whole at h hnot
  cases h with
  | here hu => exact (hnot ⟨_, _, rfl, hu⟩).elim
  | behind hother hrest => exact (hnot ⟨_, _, rfl, hother⟩).elim
  | pass _ hrest =>
      cases hwhole
      exact hrest

/-- No section starts with a space. -/
theorem Entered.of_spaces {u spaces : List UInt8} (h : Entered u (spaces ++ behind))
    (hspaces : ∀ c ∈ spaces, c = 32) : Entered u behind := by
  induction spaces with
  | nil => exact h
  | cons c spaces ih =>
      obtain ⟨hc, hrest⟩ := List.forall_mem_cons.mp hspaces
      apply ih _ hrest
      apply h.of_pass
      rintro ⟨s, behind', htext, hsection⟩
      obtain ⟨c', rest, rfl, hc'⟩ := hsection.head
      obtain ⟨rfl, -⟩ := List.cons.inj htext
      subst hc
      exact absurd hc' (by decide)

/-- What is printed has the bytes of the text that can be seen, and its sections as they are. -/
structure Keeps (text printed : List UInt8) : Prop where
  seen : printed.filter visible = text.filter visible
  sections : ∀ s, Entered s text → s <:+: printed

theorem Keeps.copy {printed breaks : List UInt8} (h : Keeps behind printed) (ht : Section t behind)
    (hnul : 0 ∉ t ++ behind) (hbreaks : ∀ c ∈ breaks, c = 10) :
    Keeps (t ++ behind) (breaks ++ t ++ printed) where
  seen := by
    have hblank : breaks.filter visible = [] := filter_blank fun c hc => by rw [hbreaks c hc]; rfl
    rw [List.filter_append, List.filter_append, List.filter_append, hblank, h.seen, List.nil_append]
  sections := by
    intro s hs
    rcases hs.of_section rfl ht hnul with rfl | hrest
    · exact ⟨breaks, printed, rfl⟩
    · exact (h.sections s hrest).trans (List.suffix_append _ _).isInfix

theorem Keeps.pass {c : UInt8} {printed spaces blanks : List UInt8} (h : Keeps behind printed)
    (hnot : ¬StartsSection (c :: (spaces ++ behind))) (hspaces : ∀ c ∈ spaces, c = 32)
    (hblanks : ∀ c ∈ blanks, visible c = false) :
    Keeps (c :: (spaces ++ behind)) (c :: blanks ++ printed) where
  seen := by
    have hblank : spaces.filter visible = [] := filter_blank fun c hc => by rw [hspaces c hc]; rfl
    rw [List.cons_append, List.filter_cons, List.filter_cons, List.filter_append, List.filter_append,
      filter_blank hblanks, hblank, h.seen]
  sections := by
    intro s hs
    have hbehind := (hs.of_pass hnot).of_spaces hspaces
    exact (h.sections s hbehind).trans (List.suffix_append _ _).isInfix

/-- The loop ends, and every turn of it keeps what it passes. -/
theorem beautifyLoop_spec (fuel : Nat) (rt text : List UInt8) (hnul : 0 ∉ text)
    (hfuel : text.length < fuel) :
    ∃ printed, beautifyLoop fuel rt (text ++ [0]) = some (rt ++ printed) ∧ Keeps text printed := by
  induction fuel generalizing rt text with
  | zero => omega
  | succ fuel ih =>
      by_cases hsection : StartsSection text
      · rcases hsection with ⟨t, behind, rfl, ht⟩
        obtain ⟨ch, rest, breaks, rfl, hbreaks, hstep⟩ :=
          beautifyStep_section ht (fun hmem => hnul (List.mem_append_left _ hmem)) rt
        have hch : ch ≠ 0 := fun h => hnul (h ▸ List.mem_cons_self)
        obtain ⟨printed, hloop, hkeeps⟩ :=
          ih (rt ++ breaks ++ ch :: rest) behind (fun hmem => hnul (List.mem_append_right _ hmem))
            (by rw [List.length_append, List.length_cons] at hfuel; omega)
        refine ⟨breaks ++ ch :: rest ++ printed, ?_, hkeeps.copy ht hnul hbreaks⟩
        rw [List.append_assoc, List.cons_append, beautifyLoop_step hch hstep, hloop]
        simp only [List.append_assoc]
      · cases text with
        | nil =>
            refine ⟨[], ?_, rfl, fun s hs => (not_entered_nil s hs).elim⟩
            rw [List.append_nil]
            rfl
        | cons c text =>
            obtain ⟨hc, hrest⟩ := List.ne_and_not_mem_of_not_mem_cons hnul
            obtain ⟨spaces, behind, blanks, rfl, hspaces, hblanks, hstep⟩ :=
              beautifyStep_pass hsection hrest rt
            obtain ⟨printed, hloop, hkeeps⟩ :=
              ih (rt ++ c :: blanks) behind (fun hmem => hrest (List.mem_append_right _ hmem))
                (by rw [List.length_cons, List.length_append] at hfuel; omega)
            refine ⟨c :: blanks ++ printed, ?_, hkeeps.pass hsection hspaces hblanks⟩
            rw [List.cons_append, beautifyLoop_step (Ne.symm hc) hstep, hloop, List.append_assoc]

/-- Nothing behind the message is read, and the result has the bytes of the message that can
be seen and its sections as they are. -/
theorem beautifyErrorMessage_keeps (msg : List UInt8) (hnul : 0 ∉ msg) :
    ∃ rt, beautifyErrorMessage msg = some rt ∧ rt.filter visible = msg.filter visible ∧
      ∀ s, Entered s msg → s <:+: rt := by
  obtain ⟨rt, hloop, hkeeps⟩ := beautifyLoop_spec (msg.length + 1) [] msg hnul (Nat.lt_succ_self _)
  exact ⟨rt, hloop, hkeeps.seen, hkeeps.sections⟩

/-- `a: ("` -/
theorem beautifyErrorMessage_keeps_colon :
    0 ∉ ([97, 58, 32, 40, 34] : List UInt8) ∧
      ∃ rt, beautifyErrorMessage [97, 58, 32, 40, 34] = some rt ∧
        rt.filter visible = [97, 58, 40, 34] ∧
          ∀ s, Entered s [97, 58, 32, 40, 34] → s <:+: rt :=
  ⟨by decide, beautifyErrorMessage_keeps [97, 58, 32, 40, 34] (by decide)⟩

/-- `e: (a [x])` gets line breaks in front of its parenthesis and behind its colon. -/
example : beautifyErrorMessage [101, 58, 32, 40, 97, 91, 120, 93, 41] =
    some [101, 58, 10, 32, 10, 10, 40, 97, 91, 120, 93, 41] := by decide

end Message

end StrusWebService.Messages
