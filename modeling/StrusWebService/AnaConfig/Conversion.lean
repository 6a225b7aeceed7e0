import StrusWebService.AnaConfig.Values

/-! # The conversion of a configuration

The main loop of `convDocAnaConfigToJson.pl` over the lines of its input and the text
printed at the end. `die` ends the program before anything is printed. `commands`
are the commands that the loop reads, with the sections they stand in, and
`convert_eq` says that the text printed is `document` of them.
-/

namespace StrusWebService.AnaConfig

open Json (quote comma openBrace closeBrace newline)
open Text (isSpace str)

/-! ### Lines -/

/-- The lines as `<>` and `chomp` give them. -/
def lines : Bytes → List Bytes
  | [] => []
  | c :: input =>
      if c = 10 then [] :: lines input
      else
        match lines input with
        | [] => [[c]]
        | ln :: lns => (c :: ln) :: lns

def lc (name : Bytes) : Bytes := name.map fun c => if 65 ≤ c ∧ c ≤ 90 then c + 32 else c

/-- A section without a channel is not implemented. -/
def sectionNameMap : List (Bytes × Option Channel) :=
  [(str "content", some .content), (str "document", some .document),
    (str "searchindex", some .search), (str "forwardindex", some .forward),
    (str "metadata", some .metadata), (str "attribute", some .attribute),
    (str "patternlexem", some .lexem), (str "aggregator", some .aggregator),
    (str "field", some .field), (str "structure", some .structure), (str "patternmatch", none)]

/-- What the main loop makes of a line. -/
inductive Line where
  | comment
  | header (channel : Channel)
  | ends (src : Bytes)
  | part (src : Bytes)
  deriving DecidableEq, Repr

def classify (ln : Bytes) : Option Line :=
  if (ln.dropWhile isSpace).head? = some 35 then some .comment
  else if ln.head? = some 91 ∧ 93 ∈ ln.tail then
    let rest := (ln.tail.dropWhile (· ≠ 93)).tail
    if rest.all isSpace then
      (sectionNameMap.lookup (lc (ln.tail.takeWhile (· ≠ 93)))).join.map .header
    else none
  else if ln.getLast? = some 59 then some (.ends ln.dropLast)
  else some (.part ln)

/-! ### The main loop -/

structure Converter where
  src : Bytes
  out : Output

def start : Converter where
  src := []
  out :=
    { outputmap := fun _ => none
      curchan := .search
      indentstr := 0
      cntstk := [1] }

section Convert

variable (json : Json.Encoder)

/-- What is done at the end of a command. Where the end of the source has been checked
before printing, it is still reached. -/
def command (s : Converter) : Option Converter := do
  let (c, src) ← readCommand s.out.curchan s.src
  let out ← s.out.printCommand json c
  let (eof, _) ← lexerEof src
  if !eof then failure
  pure { src := [], out := out }

def processLine (s : Converter) (ln : Bytes) : Option Converter :=
  (classify ln).bind fun
    | .comment => some s
    | .header channel => some { s with out := { s.out with curchan := channel } }
    | .ends src => command json { s with src := s.src ++ src }
    | .part src => some { s with src := s.src ++ src }

/-- The keys of `%outputmap`. -/
def channelName : Channel → Bytes
  | .content => str "content"
  | .document => str "document"
  | .search => str "search"
  | .forward => str "forward"
  | .metadata => str "metadata"
  | .attribute => str "attribute"
  | .lexem => str "lexem"
  | .aggregator => str "aggregator"
  | .field => str "field"
  | .structure => str "structure"
  | .all => str "ALL"

def printSection (o : Output) (arg : Channel) : Output :=
  match o.outputmap arg with
  | none => o
  | some content =>
      if content = [] ∨ content = [48] then o
      else
        ((o.printDelim.printName (channelName arg)).printOpenar.printChan
          (Json.reindent (1 + o.indentstr) content)).printClosear

def printClass (o : Output) : Output :=
  ((o.printOpen.printName (str "mimetype")).printValue json (str "application/xml")).printClose

def printFeatures (o : Output) : Output :=
  let o := printSection (printSection (printSection o.printOpen .forward) .search) .attribute
  (printSection (printSection (printSection o .aggregator) .metadata) .lexem).printClose

def printDocanalyzer (o : Output) : Output :=
  let o := printClass json (o.printOpen.printDelim.printName (str "class"))
  let o := printSection (printSection o .content) .document
  let o := printFeatures (o.printDelim.printName (str "feature"))
  (printSection (printSection o .field) .structure).printClose

/-- The text printed for the sections, without the line break at its end. -/
def printResult (o : Output) : Output :=
  let o := ({ o with curchan := .all }).printChan [openBrace]
  (printDocanalyzer json (o.printName (str "docanalyzer"))).printChan (newline 0 ++ [closeBrace])

/-- The output for an input, if the program does not die. -/
def convert (input : Bytes) : Option Bytes :=
  ((lines input).foldlM (processLine json) start).map fun s =>
    ((printResult json s.out).outputmap .all).getD [] ++ [10]

end Convert

/-! ### The commands of an input -/

/-- What has been read so far: the commands with their sections, in order. -/
structure Draft where
  src : Bytes
  channel : Channel
  commands : List (Channel × Command)

def Draft.command (d : Draft) : Option Draft :=
  (readCommand d.channel d.src).bind fun (c, src) =>
    if c.entry.isSome ∧ src.all isSpace then
      some { src := [], channel := d.channel, commands := d.commands ++ [(d.channel, c)] }
    else none

def Draft.processLine (d : Draft) (ln : Bytes) : Option Draft :=
  (classify ln).bind fun
    | .comment => some d
    | .header channel => some { d with channel := channel }
    | .ends src => Draft.command { d with src := d.src ++ src }
    | .part src => some { d with src := d.src ++ src }

def Draft.start : Draft where
  src := []
  channel := .search
  commands := []

def draft (input : Bytes) : Option Draft := (lines input).foldlM Draft.processLine Draft.start

/-- The commands of an input, if all are accepted. -/
def commands (input : Bytes) : Option (List (Channel × Command)) := (draft input).map Draft.commands

/-- The objects of the commands of a section. -/
def entries (cs : List (Channel × Command)) (channel : Channel) : List Json :=
  (cs.filter (·.1 = channel)).filterMap (·.2.entry)

/-- A section is printed if it has commands. -/
def sectionMember (cs : List (Channel × Command)) (channel : Channel) : List (Bytes × Json) :=
  if entries cs channel = [] then [] else [(channelName channel, .array (entries cs channel))]

/-- The members of the object that is printed. -/
def document (cs : List (Channel × Command)) : List (Bytes × Json) :=
  [(str "docanalyzer", .object
    ((str "class", .object [member (str "mimetype") (str "application/xml")]) ::
      ([.content, .document].flatMap (sectionMember cs) ++
        (str "feature", .object ([.forward, .search, .attribute, .aggregator, .metadata,
          .lexem].flatMap (sectionMember cs))) ::
        [.field, .structure].flatMap (sectionMember cs))))]

/-! ### Line breaks -/

theorem lines_noBreak (input : Bytes) : ∀ ln ∈ lines input, 10 ∉ ln := by
  induction input with
  | nil => exact fun ln hln => nomatch hln
  | cons c input ih =>
      rw [lines]
      split
      · exact List.forall_mem_cons.mpr ⟨List.not_mem_nil, ih⟩
      · rename_i hc
        cases hlines : lines input with
        | nil =>
            intro ln hln
            rw [List.mem_singleton.mp hln, List.mem_singleton]
            exact fun heq => hc heq.symm
        | cons ln lns =>
            rw [hlines] at ih
            obtain ⟨hln, hlns⟩ := List.forall_mem_cons.mp ih
            apply List.forall_mem_cons.mpr ⟨?_, hlns⟩
            intro hmem
            cases List.mem_cons.mp hmem with
            | inl heq => exact hc heq.symm
            | inr hmem => exact hln hmem

/-- A command that has been read. -/
structure Accepted (channel : Channel) (c : Command) : Prop where
  channel : channel ≠ .all
  entry : c.entry.isSome
  noBreak : ∀ o ∈ c.options, 10 ∉ o.1

/-- What holds of everything read so far. -/
structure Draft.Valid (d : Draft) : Prop where
  src : 10 ∉ d.src
  channel : d.channel ≠ .all
  commands : ∀ c ∈ d.commands, Accepted c.1 c.2

theorem lookup_sectionNameMap {name : Bytes} {channel : Channel}
    (h : (sectionNameMap.lookup name).join = some channel) : channel ≠ .all := by
  intro heq
  rw [heq, Option.join_eq_some_iff] at h
  have hmem := List.lookup_eq_some_iff.mp h
  rcases hmem with ⟨before, behind, hsplit, -⟩
  have hin : (name, some Channel.all) ∈ sectionNameMap := by simp [hsplit]
  simp [sectionNameMap] at hin

/-- The source of a line has no line breaks, its channel is that of a section. -/
def Line.Valid : Line → Prop
  | .comment => True
  | .header channel => channel ≠ .all
  | .ends src => 10 ∉ src
  | .part src => 10 ∉ src

theorem classify_valid {ln : Bytes} (hln : 10 ∉ ln) {l : Line}
    (h : classify ln = some l) : l.Valid := by
  unfold classify at h
  split at h
  · cases h
    trivial
  · split at h
    · dsimp only at h
      split at h
      · obtain ⟨channel, hchannel, heq⟩ := Option.map_eq_some_iff.mp h
        cases heq
        exact lookup_sectionNameMap hchannel
      · nomatch h
    · split at h
      · cases h
        exact fun hmem => hln (List.dropLast_subset ln hmem)
      · cases h
        exact hln

theorem append_noBreak {src src' : Bytes} (h : 10 ∉ src) (h' : 10 ∉ src') : 10 ∉ src ++ src' := by
  intro hmem
  cases List.mem_append.mp hmem with
  | inl hmem => exact h hmem
  | inr hmem => exact h' hmem

theorem Draft.Valid.command {d d' : Draft} (h : d.Valid) (hd : d.command = some d') : d'.Valid := by
  obtain ⟨⟨c, rest⟩, hread, hmore⟩ := Option.bind_eq_some_iff.mp hd
  dsimp only at hmore
  split at hmore
  · rename_i hentry
    cases hmore
    exact
      { src := List.not_mem_nil
        channel := h.channel
        commands := by
          intro c' hc'
          cases List.mem_append.mp hc' with
          | inl hmem => exact h.commands c' hmem
          | inr hmem =>
              rw [List.mem_singleton.mp hmem]
              exact
                { channel := h.channel
                  entry := hentry.1
                  noBreak := readCommand_noBreak h.src hread } }
  · nomatch hmore

theorem Draft.Valid.processLine {d d' : Draft} (h : d.Valid) {ln : Bytes} (hln : 10 ∉ ln)
    (hd : d.processLine ln = some d') : d'.Valid := by
  obtain ⟨l, hl, hmore⟩ := Option.bind_eq_some_iff.mp hd
  have hvalid := classify_valid hln hl
  cases l with
  | comment =>
      cases hmore
      exact h
  | header channel =>
      cases hmore
      exact { h with channel := hvalid }
  | ends src =>
      have hsrc : Draft.Valid { d with src := d.src ++ src } :=
        { h with src := append_noBreak h.src hvalid }
      exact hsrc.command hmore
  | part src =>
      cases hmore
      exact { h with src := append_noBreak h.src hvalid }

theorem draft_valid {input : Bytes} {d : Draft} (h : draft input = some d) : d.Valid := by
  have hrun : ∀ (lns : List Bytes) (d d' : Draft), (∀ ln ∈ lns, 10 ∉ ln) → d.Valid →
      lns.foldlM Draft.processLine d = some d' → d'.Valid := by
    intro lns
    induction lns with
    | nil =>
        intro d d' _ hvalid hd
        cases hd
        exact hvalid
    | cons ln lns ih =>
        intro d d' hlns hvalid hd
        rw [List.foldlM_cons] at hd
        obtain ⟨d₁, hd₁, hmore⟩ := Option.bind_eq_some_iff.mp hd
        obtain ⟨hln, hlns⟩ := List.forall_mem_cons.mp hlns
        exact ih d₁ d' hlns (hvalid.processLine hln hd₁) hmore
  apply hrun _ _ _ (lines_noBreak input) _ h
  exact
    { src := List.not_mem_nil
      channel := by decide
      commands := fun c hc => nomatch hc }

/-! ### The text of the sections -/

section Renders

variable (json : Json.Encoder)

/-- What has been printed for the commands of a section. -/
def sectionText (vs : List Json) : Option Bytes :=
  if vs = [] then none else some (List.intercalate [comma] (Json.writeElements json 0 vs))

/-- The converter has printed what has been read. -/
structure Renders (d : Draft) (s : Converter) : Prop where
  src : s.src = d.src
  curchan : s.out.curchan = d.channel
  indentstr : s.out.indentstr = 0
  cntstk : ∃ n, s.out.cntstk = [n + 1]
  outputmap : ∀ channel, s.out.outputmap channel = sectionText json (entries d.commands channel)

theorem entries_append {c : Command} {v : Json} (hv : c.entry = some v)
    (cs : List (Channel × Command)) (channel channel' : Channel) :
    entries (cs ++ [(channel, c)]) channel' =
      entries cs channel' ++ if channel = channel' then [v] else [] := by
  unfold entries
  rw [List.filter_append, List.filterMap_append]
  by_cases hchannel : channel = channel'
  · simp [hchannel, hv]
  · simp [hchannel]

theorem sectionText_append (vs : List Json) (v : Json) :
    sectionText json (vs ++ [v]) =
      some ((sectionText json vs).getD [] ++
        ((if vs = [] then [] else [comma]) ++ Json.write json 0 v)) := by
  have hne : vs ++ [v] ≠ [] := by simp
  rw [sectionText, if_neg hne, Json.writeElements_eq, List.map_append, List.map_singleton,
    Output.intercalate_concat, List.length_map, sectionText, Json.writeElements_eq]
  cases vs with
  | nil => rfl
  | cons first vs => simp

/-- A comma is printed where the section has commands. -/
theorem printInitDelim_eq {d : Draft} {s : Converter} (h : Renders json d s) :
    ∃ n, s.out.printInitDelim =
      { s.out.printChan (if entries d.commands d.channel = [] then [] else [comma]) with
        outputmap := if entries d.commands d.channel = [] then s.out.outputmap
          else (s.out.printChan [comma]).outputmap
        cntstk := [n + 1] } := by
  obtain ⟨n, hn⟩ := h.cntstk
  have hmap := h.outputmap d.channel
  rw [← h.curchan] at hmap ⊢
  unfold Output.printInitDelim
  by_cases hvs : entries d.commands s.out.curchan = []
  · rw [sectionText, if_pos hvs] at hmap
    exact ⟨n, by simp [hmap, hvs, Output.printChan, ← hn]⟩
  · rw [sectionText, if_neg hvs] at hmap
    exact ⟨n + 1, by simp [hmap, hvs, Output.printDelim, Output.printChan, hn]⟩

theorem renders_printed {d : Draft} {s : Converter} (h : Renders json d s) {c : Command} {v : Json}
    (hv : c.entry = some v) :
    Renders json
      { src := []
        channel := d.channel
        commands := d.commands ++ [(d.channel, c)] }
      { src := []
        out := s.out.printInitDelim.printChan (Json.write json s.out.printInitDelim.indentstr v) } := by
  obtain ⟨n, hn⟩ := printInitDelim_eq json h
  rw [hn]
  exact
    { src := rfl
      curchan := h.curchan
      indentstr := h.indentstr
      cntstk := ⟨n, rfl⟩
      outputmap := by
        intro channel
        rw [entries_append hv]
        by_cases hchannel : d.channel = channel
        · rw [if_pos hchannel, sectionText_append, ← h.outputmap, ← hchannel, ← h.curchan]
          by_cases hvs : entries d.commands s.out.curchan = []
          · simp [Output.printChan, hvs, h.indentstr]
          · simp [Output.printChan, hvs, h.indentstr]
        · have hne : channel ≠ s.out.curchan := by
            rw [h.curchan]
            exact fun heq => hchannel heq.symm
          rw [if_neg hchannel, List.append_nil, ← h.outputmap]
          by_cases hvs : entries d.commands d.channel = []
          · simp [Output.printChan, hvs, hne]
          · simp [Output.printChan, hvs, hne] }

theorem renders_command {d : Draft} {s : Converter} (h : Renders json d s) :
    Option.Rel (Renders json) d.command (command json s) := by
  unfold Draft.command command
  rw [h.src, h.curchan]
  cases readCommand d.channel d.src with
  | none => exact Option.Rel.none
  | some r =>
      rcases r with ⟨c, rest⟩
      simp only [Option.bind_eq_bind, Option.bind_some, Output.printCommand_eq]
      cases hv : c.entry with
      | none => exact Option.Rel.none
      | some v =>
          simp only [Option.map_some, Option.bind_some, lexerEof, Option.isSome_some, true_and]
          cases hrest : rest.all isSpace with
          | false => exact Option.Rel.none
          | true => exact Option.Rel.some (renders_printed json h hv)

theorem renders_processLine {d : Draft} {s : Converter} (h : Renders json d s) (ln : Bytes) :
    Option.Rel (Renders json) (d.processLine ln) (processLine json s ln) := by
  unfold Draft.processLine processLine
  cases classify ln with
  | none => exact Option.Rel.none
  | some l =>
      cases l with
      | comment => exact Option.Rel.some h
      | header channel => exact Option.Rel.some { h with curchan := rfl }
      | ends src =>
          apply renders_command
          exact { h with src := by rw [h.src] }
      | part src => exact Option.Rel.some { h with src := by rw [h.src] }

/-! ### The text printed at the end -/

/-- The sections of these commands are to be printed. -/
structure Final (cs : List (Channel × Command)) (o : Output) : Prop where
  curchan : o.curchan = .all
  outputmap : ∀ channel ≠ .all, o.outputmap channel = sectionText json (entries cs channel)

variable {json} {cs : List (Channel × Command)} {o : Output}

theorem Final.printChan (h : Final json cs o) (arg : Bytes) : Final json cs (o.printChan arg) where
  curchan := h.curchan
  outputmap := by
    intro channel hchannel
    rw [← h.outputmap channel hchannel]
    exact Function.update_of_ne (by rwa [h.curchan]) _ _

theorem Final.inObject (h : Final json cs o) (members : List (Bytes × Json)) :
    Final json cs (o.inObject json members) where
  curchan := h.curchan
  outputmap := (h.printChan _).outputmap

theorem Final.printDelim (h : Final json cs o) : Final json cs o.printDelim := by
  unfold Output.printDelim
  split
  · exact h
  · split
    · exact
        { curchan := h.curchan
          outputmap := (h.printChan _).outputmap }
    · exact
        { curchan := h.curchan
          outputmap := h.outputmap }

theorem Final.printName (h : Final json cs o) (tagname : Bytes) :
    Final json cs (o.printName tagname) := h.printChan _

/-- The objects of a section are objects whose texts have the line breaks that the
layout gives them. -/
theorem entries_layout (hcs : ∀ c ∈ cs, Accepted c.1 c.2) {channel : Channel} {v : Json}
    (hv : v ∈ entries cs channel) : v.All (10 ∉ ·) (10 ∉ ·) ∧ ∃ members, v = .object members := by
  obtain ⟨c, hc, hentry⟩ := List.mem_filterMap.mp hv
  have haccepted := hcs c (List.mem_of_mem_filter hc)
  refine ⟨?_, Command.entry_object hentry⟩
  rw [Command.entry_all (by decide) hentry]
  exact ⟨fun val _ hraw => printedRaw_noBreak hraw, haccepted.noBreak⟩

theorem printSection_inObject (hcs : ∀ c ∈ cs, Accepted c.1 c.2) (h : Final json cs o)
    (members : List (Bytes × Json)) {arg : Channel} (harg : arg ≠ .all) :
    printSection (o.inObject json members) arg =
      o.inObject json (members ++ sectionMember cs arg) := by
  have hmap := (h.inObject members).outputmap arg harg
  unfold printSection sectionMember
  rw [hmap, sectionText]
  cases hvs : entries cs arg with
  | nil => simp
  | cons v vs =>
      have hlayout : ∀ w ∈ v :: vs, w.All (10 ∉ ·) (10 ∉ ·) ∧ ∃ members, w = .object members := by
        intro w hw
        rw [← hvs] at hw
        exact entries_layout hcs hw
      have hcontent : ∃ behind, List.intercalate [comma] (Json.writeElements json 0 (v :: vs)) =
          openBrace :: behind := by
        obtain ⟨members, hv⟩ := (hlayout v List.mem_cons_self).2
        rw [hv, Json.writeElements, intercalate_cons, Json.write]
        exact ⟨_, rfl⟩
      have hmoved : ∀ indent, Json.reindent (1 + indent)
          (List.intercalate [comma] (Json.writeElements json 0 (v :: vs))) =
          List.intercalate [comma] (Json.writeElements json (indent + 1) (v :: vs)) := by
        intro indent
        rw [Json.reindent_intercalate, Json.writeElements_eq, Json.writeElements_eq, List.map_map]
        congr 1
        apply List.map_congr_left
        intro w hw
        rw [Function.comp_apply, Json.reindent_write json _ w (hlayout w hw).1, Nat.add_zero,
          Nat.add_comm]
      have hprints : Output.Prints json (fun o => (o.printOpenar.printChan (List.intercalate [comma]
          (Json.writeElements json (o.indentstr + 1) (v :: vs)))).printClosear)
          (.array (v :: vs)) := by
        intro o
        simp [Output.printOpenar, Output.printClosear, Output.printChan, Json.write]
      rcases hcontent with ⟨behind, hbehind⟩
      rw [if_neg (List.cons_ne_nil v vs), if_neg (List.cons_ne_nil v vs)]
      dsimp only
      have hlong : ¬ (List.intercalate [comma] (Json.writeElements json 0 (v :: vs)) = [] ∨
          List.intercalate [comma] (Json.writeElements json 0 (v :: vs)) = [48]) := by
        rw [hbehind]
        intro hbad
        cases hbad with
        | inl hnil => cases hnil
        | inr hzero => exact absurd (List.cons.inj hzero).1 (by decide)
      rw [if_neg hlong, hmoved]
      have hmember := o.print_member json hprints members (channelName arg)
      rwa [Output.printName_indentstr, Output.printDelim_indentstr] at hmember

theorem prints_class : Output.Prints json (printClass json)
    (.object [member (str "mimetype") (str "application/xml")]) := by
  intro o
  have hvalue := Output.prints_value json (str "application/xml")
    (o.printOpen.printName (str "mimetype"))
  dsimp only at hvalue
  rw [printClass, hvalue]
  simp [Output.printOpen, Output.printClose, Output.printName, Output.printChan, Json.write,
    Json.writeMembers, member]

theorem printFeatures_eq (hcs : ∀ c ∈ cs, Accepted c.1 c.2) (h : Final json cs o) :
    printFeatures o = o.printChan (Json.write json o.indentstr (.object ([.forward, .search,
      .attribute, .aggregator, .metadata, .lexem].flatMap (sectionMember cs)))) := by
  have hsection := fun members {arg : Channel} (harg : arg ≠ .all) =>
    printSection_inObject hcs h members harg
  rw [printFeatures, Output.printOpen_eq json, hsection _ (by decide), hsection _ (by decide),
    hsection _ (by decide), hsection _ (by decide), hsection _ (by decide), hsection _ (by decide),
    Output.printClose_inObject]
  simp

/-- The object of the document that is printed for the commands. -/
theorem printDocanalyzer_eq (hcs : ∀ c ∈ cs, Accepted c.1 c.2) (h : Final json cs o) :
    ∃ v, printDocanalyzer json o = o.printChan (Json.write json o.indentstr v) ∧
      document cs = [(str "docanalyzer", v)] := by
  have hsection := fun members {arg : Channel} (harg : arg ≠ .all) =>
    printSection_inObject hcs h members harg
  have hclass := o.print_member json prints_class [] (str "class")
  let before := [.content, .document].flatMap (sectionMember cs)
  let features := Json.object ([.forward, .search, .attribute, .aggregator, .metadata,
    .lexem].flatMap (sectionMember cs))
  have hprints : Output.Prints json
      (fun o => o.printChan (Json.write json o.indentstr features)) features := fun o => rfl
  have hfeatures : printFeatures (((o.inObject json ((str "class",
      .object [member (str "mimetype") (str "application/xml")]) :: before)).printDelim).printName
        (str "feature")) = _ :=
    (printFeatures_eq hcs ((h.inObject _).printDelim.printName _)).trans
      (o.print_member json hprints _ (str "feature"))
  refine ⟨_, ?_, rfl⟩
  rw [printDocanalyzer, Output.printOpen_eq json, hclass, hsection _ (by decide),
    hsection _ (by decide)]
  have hbefore : [] ++ [(str "class", Json.object [member (str "mimetype") (str "application/xml")])] ++
      sectionMember cs .content ++ sectionMember cs .document =
      (str "class", Json.object [member (str "mimetype") (str "application/xml")]) :: before := by
    simp [before]
  rw [hbefore, hfeatures, hsection _ (by decide), hsection _ (by decide),
    Output.printClose_inObject]
  simp [before, features]

theorem printResult_eq (hcs : ∀ c ∈ cs, Accepted c.1 c.2) (hindent : o.indentstr = 0)
    (hmap : ∀ channel, o.outputmap channel = sectionText json (entries cs channel)) :
    ((printResult json o).outputmap .all).getD [] ++ [10] = Json.writeText json (document cs) := by
  have hnone : o.outputmap .all = none := by
    have hentries : entries cs .all = [] := by
      unfold entries
      rw [List.filter_eq_nil_iff.mpr]
      · rfl
      · intro c hc
        simpa using (hcs c hc).channel
    rw [hmap, hentries]
    rfl
  have hstart : Final json cs { o with curchan := .all } :=
    { curchan := rfl
      outputmap := fun channel _ => hmap channel }
  obtain ⟨v, hprint, hdocument⟩ := printDocanalyzer_eq hcs
    ((hstart.printChan [openBrace]).printName (str "docanalyzer"))
  rw [printResult, hprint, hdocument, Json.writeText, Json.listed_singleton, Json.writeMember]
  simp [Output.printName, Output.printChan, hnone, hindent]

end Renders

/-- What is printed for an input is the document of its commands. -/
theorem convert_eq (json : Json.Encoder) (input : Bytes) :
    convert json input = (commands input).map fun cs => Json.writeText json (document cs) := by
  have hrun : ∀ (lns : List Bytes) (d : Draft) (s : Converter), Renders json d s →
      Option.Rel (Renders json) (lns.foldlM Draft.processLine d) (lns.foldlM (processLine json) s) := by
    intro lns
    induction lns with
    | nil => exact fun d s h => Option.Rel.some h
    | cons ln lns ih =>
        intro d s h
        rw [List.foldlM_cons, List.foldlM_cons]
        have hstep := renders_processLine json h ln
        generalize d.processLine ln = next, processLine json s ln = next' at hstep ⊢
        cases hstep with
        | none => exact Option.Rel.none
        | some hnext => exact ih _ _ hnext
  have hstart : Renders json Draft.start start :=
    { src := rfl
      curchan := rfl
      indentstr := rfl
      cntstk := ⟨0, rfl⟩
      outputmap := fun _ => rfl }
  have hrel := hrun (lines input) _ _ hstart
  have hvalid := fun d => @draft_valid input d
  unfold convert commands
  unfold draft at hvalid ⊢
  generalize (lines input).foldlM Draft.processLine _ = result at hrel hvalid ⊢
  generalize (lines input).foldlM (processLine json) start = result' at hrel ⊢
  cases hrel with
  | none => rfl
  | some h =>
      have hcs := (hvalid _ rfl).commands
      rw [Option.map_some, Option.map_some, Option.map_some,
        printResult_eq hcs h.indentstr h.outputmap]

end StrusWebService.AnaConfig
