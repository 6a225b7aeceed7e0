import StrusWebService.AnaConfig.Conversion
import Mathlib.Tactic.IntervalCases

/-! # The text printed as JSON

The text printed is read as the document of the commands for most inputs. Names of
options and values that look like numbers are printed as they are, so it is read unless
such a name has a quote, a backslash or a control character or such a value is no number
of JSON, one with a leading zero or without a fraction behind its point.
-/

namespace StrusWebService.AnaConfig

open Json (quote backslash)
open Text (str)

/-- What is printed without a look at it may be printed so. -/
structure Command.Legal (c : Command) : Prop where
  values : ∀ val ∈ c.values, printedRaw val = true → Json.isNumber val = true
  options : ∀ o ∈ c.options, Json.Plain o.1

/-! ### The document of commands -/

section Document

variable {cs : List (Channel × Command)} {p q : Bytes → Prop}

/-- Every command of a section has its object in the section, in order. -/
theorem entries_forall₂ (hcs : ∀ c ∈ cs, Accepted c.1 c.2) (channel : Channel) :
    List.Forall₂ (fun c v => c.2.entry = some v ∧ ∃ members, v = .object members)
      (cs.filter (·.1 = channel)) (entries cs channel) := by
  unfold entries
  have hall : ∀ c ∈ cs.filter (·.1 = channel), c.2.entry.isSome := fun c hc =>
    (hcs c (List.mem_of_mem_filter hc)).entry
  generalize cs.filter (·.1 = channel) = commands at hall
  induction commands with
  | nil => exact List.Forall₂.nil
  | cons c commands ih =>
      obtain ⟨hc, hsection⟩ := List.forall_mem_cons.mp hall
      obtain ⟨v, hv⟩ := Option.isSome_iff_exists.mp hc
      rw [List.filterMap_cons_some (f := fun c : Channel × Command => c.2.entry) hv]
      exact List.Forall₂.cons ⟨hv, Command.entry_object hv⟩ (ih hsection)

theorem sectionMember_all (htags : ∀ tag ∈ tags, q tag) (hcs : ∀ c ∈ cs, Accepted c.1 c.2)
    (channel : Channel) :
    (∀ m ∈ sectionMember cs channel, q m.1 ∧ m.2.All p q) ↔
      ∀ c ∈ cs, c.1 = channel →
        (∀ val ∈ c.2.values, printedRaw val = true → p val) ∧ ∀ o ∈ c.2.options, q o.1 := by
  have hentries : (∀ v ∈ entries cs channel, v.All p q) ↔ ∀ c ∈ cs, c.1 = channel →
      (∀ val ∈ c.2.values, printedRaw val = true → p val) ∧ ∀ o ∈ c.2.options, q o.1 := by
    constructor
    · intro h c hc hchannel
      obtain ⟨v, hv⟩ := Option.isSome_iff_exists.mp (hcs c hc).entry
      rw [← Command.entry_all htags hv]
      apply h
      exact List.mem_filterMap.mpr ⟨c, List.mem_filter.mpr ⟨hc, by simpa using hchannel⟩, hv⟩
    · intro h v hv
      obtain ⟨c, hc, hentry⟩ := List.mem_filterMap.mp hv
      rw [Command.entry_all htags hentry]
      exact h c (List.mem_of_mem_filter hc) (by simpa using (List.mem_filter.mp hc).2)
  have hname : q (channelName channel) := by
    apply htags
    cases channel <;> simp [channelName, tags]
  rw [← hentries, sectionMember]
  split
  · rename_i hnil
    simp [hnil]
  · rw [List.forall_mem_singleton, Json.all_array]
    simp only [hname, true_and]

theorem document_all (htags : ∀ tag ∈ tags, q tag) (hcs : ∀ c ∈ cs, Accepted c.1 c.2) :
    (Json.object (document cs)).All p q ↔ ∀ c ∈ cs,
      (∀ val ∈ c.2.values, printedRaw val = true → p val) ∧ ∀ o ∈ c.2.options, q o.1 := by
  have hsections : ∀ channels : List Channel,
      (∀ m ∈ channels.flatMap (sectionMember cs), q m.1 ∧ m.2.All p q) ↔ ∀ c ∈ cs, c.1 ∈ channels →
        (∀ val ∈ c.2.values, printedRaw val = true → p val) ∧ ∀ o ∈ c.2.options, q o.1 := by
    intro channels
    simp only [List.forall_mem_flatMap, sectionMember_all htags hcs]
    constructor
    · intro h c hc hchannel
      exact h c.1 hchannel c hc rfl
    · intro h channel hchannel c hc heq
      exact h c hc (heq ▸ hchannel)
  have hclass : printedRaw (str "application/xml") = false := by decide
  rw [document, Json.all_object, List.forall_mem_singleton, Json.all_object, List.forall_mem_cons,
    List.forall_mem_append, List.forall_mem_cons, Json.all_object, Json.all_object,
    List.forall_mem_singleton, member_all htags (by simp [tags]), hsections, hsections, hsections]
  simp only [htags _ (by simp [tags] : str "docanalyzer" ∈ tags),
    htags _ (by simp [tags] : str "class" ∈ tags), htags _ (by simp [tags] : str "feature" ∈ tags),
    hclass, Bool.false_eq_true, false_imp_iff, true_and]
  constructor
  · rintro ⟨hbefore, hfeatures, hbehind⟩ c hc
    have hchannel := (hcs c hc).channel
    have hbefore' := hbefore c hc
    have hfeatures' := hfeatures c hc
    have hbehind' := hbehind c hc
    revert hchannel hbefore' hfeatures' hbehind'
    cases c.1 <;> simp
  · intro h
    exact ⟨fun c hc _ => h c hc, fun c hc _ => h c hc, fun c hc _ => h c hc⟩

end Document

/-- What is printed is read as the document of the commands, with the objects of each
section in order, if and only if all that is printed as it is may be printed so. -/
theorem convert_parses_iff (json : Json.Encoder) {input output : Bytes}
    (h : convert json input = some output) :
    ∃ cs, commands input = some cs ∧
      (∀ channel, List.Forall₂ (fun c v => c.2.entry = some v ∧ ∃ members, v = .object members)
        (cs.filter (·.1 = channel)) (entries cs channel)) ∧
      (Json.parse output = some (.object (document cs)) ↔ ∀ c ∈ cs, c.2.Legal) := by
  rw [convert_eq] at h
  obtain ⟨cs, hcommands, hwrite⟩ := Option.map_eq_some_iff.mp h
  obtain ⟨d, hd, rfl⟩ := Option.map_eq_some_iff.mp hcommands
  have hcs := (draft_valid hd).commands
  have hnumerals : (Json.object (document d.commands)).All Json.Numeral fun _ => True := by
    rw [document_all (fun _ _ => trivial) hcs]
    intro c _
    exact ⟨fun val _ hraw => numeral_of_printedRaw hraw, fun _ _ => trivial⟩
  refine ⟨d.commands, hcommands, entries_forall₂ hcs, ?_⟩
  rw [← hwrite, Json.parse_writeText_iff json _ hnumerals, document_all (by decide) hcs]
  constructor
  · intro hall c hc
    exact ⟨(hall c hc).1, (hall c hc).2⟩
  · intro hall c hc
    exact ⟨(hall c hc).values, (hall c hc).options⟩

/-! ### An encoder -/

def hexDigitOf (n : UInt8) : UInt8 := if n < 10 then 48 + n else 87 + n

/-- `JSON->encode` on one byte of a string. -/
def jsonEncodeByte (c : UInt8) : Bytes :=
  if c = quote ∨ c = backslash then [backslash, c]
  else if c = 8 then [backslash, 98]
  else if c = 9 then [backslash, 116]
  else if c = 10 then [backslash, 110]
  else if c = 12 then [backslash, 102]
  else if c = 13 then [backslash, 114]
  else if c < 32 then [backslash, 117, 48, 48, hexDigitOf (c / 16), hexDigitOf (c % 16)]
  else [c]

theorem character_jsonEncodeByte (c : UInt8) (rest : Bytes) :
    Json.character (jsonEncodeByte c ++ rest) = some ([c], rest) := by
  by_cases hlow : c < 32
  · have hcases : ∀ n < 32, Json.character (jsonEncodeByte (.ofNat n) ++ rest) =
        some ([.ofNat n], rest) := by
      intro n hn
      interval_cases n
      all_goals rfl
    have htoNat := hcases c.toNat (UInt8.lt_iff_toNat_lt.mp hlow)
    rwa [UInt8.ofNat_toNat] at htoNat
  · by_cases hescaped : c = quote ∨ c = backslash
    · cases hescaped with
      | inl heq => rw [heq]; rfl
      | inr heq => rw [heq]; rfl
    · obtain ⟨hquote, hback⟩ := not_or.mp hescaped
      have hne : ∀ d : UInt8, d < 32 → c ≠ d := fun d hd heq => hlow (heq ▸ hd)
      rw [jsonEncodeByte, if_neg hescaped, if_neg (hne 8 (by decide)), if_neg (hne 9 (by decide)),
        if_neg (hne 10 (by decide)), if_neg (hne 12 (by decide)), if_neg (hne 13 (by decide)),
        if_neg hlow, List.singleton_append, Json.character, if_neg hback,
        if_neg (not_or.mpr ⟨hlow, hquote⟩)]

def jsonEncode (s : Bytes) : Bytes := Json.quoted (s.flatMap jsonEncodeByte)

theorem characters_jsonEncode (s rest : Bytes) (fuel : Nat) (hfuel : s.length < fuel) :
    Json.characters fuel (s.flatMap jsonEncodeByte ++ quote :: rest) = some (s, rest) := by
  induction s generalizing fuel with
  | nil =>
      obtain ⟨fuel, rfl⟩ : ∃ n, fuel = n + 1 := ⟨fuel - 1, by omega⟩
      rfl
  | cons c s ih =>
      obtain ⟨fuel, rfl⟩ : ∃ n, fuel = n + 1 := ⟨fuel - 1, by omega⟩
      have hc := character_jsonEncodeByte c (s.flatMap jsonEncodeByte ++ quote :: rest)
      have hs := ih fuel (Nat.lt_of_succ_lt_succ hfuel)
      rw [List.flatMap_cons, List.append_assoc, Json.characters, if_neg, hc]
      · simp [hs]
      · intro hhead
        cases htext : jsonEncodeByte c ++ (s.flatMap jsonEncodeByte ++ quote :: rest) with
        | nil =>
            rw [htext] at hhead
            cases hhead
        | cons d behind =>
            rw [htext] at hhead hc
            cases hhead
            have hnone : Json.character (quote :: behind) = none := rfl
            rw [hnone] at hc
            cases hc

theorem length_le_jsonEncode (s : Bytes) : s.length ≤ (s.flatMap jsonEncodeByte).length := by
  induction s with
  | nil => exact Nat.le_refl 0
  | cons c s ih =>
      have hpos : 1 ≤ (jsonEncodeByte c).length := by
        unfold jsonEncodeByte
        split_ifs <;> simp
      rw [List.flatMap_cons, List.length_append, List.length_cons]
      omega

theorem noBreak_jsonEncodeByte (c : UInt8) : 10 ∉ jsonEncodeByte c := by
  by_cases hlow : c < 32
  · have hcases : ∀ n < 32, 10 ∉ jsonEncodeByte (.ofNat n) := by
      intro n hn
      interval_cases n
      all_goals decide
    have htoNat := hcases c.toNat (UInt8.lt_iff_toNat_lt.mp hlow)
    rwa [UInt8.ofNat_toNat] at htoNat
  · have hne : ∀ d : UInt8, d < 32 → d ≠ c := fun d hd heq => hlow (heq ▸ hd)
    have hten := hne 10 (by decide)
    unfold jsonEncodeByte
    split_ifs
    · simp [hten, backslash]
    · simp [backslash]
    · simp [backslash]
    · simp [backslash]
    · simp [backslash]
    · simp [backslash]
    · simp [hten]

theorem read_jsonEncode (s rest : Bytes) : Json.string? (jsonEncode s ++ rest) = some (s, rest) := by
  have hlength := length_le_jsonEncode s
  have htext : jsonEncode s ++ rest = quote :: (s.flatMap jsonEncodeByte ++ quote :: rest) := by
    simp [jsonEncode, Json.quoted]
  rw [htext, Json.string?, if_pos rfl]
  apply characters_jsonEncode
  rw [List.length_append]
  omega

theorem noBreak_jsonEncode (s : Bytes) : 10 ∉ jsonEncode s := by
  intro hmem
  simp only [jsonEncode, Json.quoted, List.mem_cons, List.mem_append, List.mem_flatMap,
    List.not_mem_nil, or_false] at hmem
  obtain hbad | ⟨c, -, hc⟩ | hbad := hmem
  · cases hbad
  · exact noBreak_jsonEncodeByte c hc
  · cases hbad

/-- The encoder of the module `JSON`. -/
def jsonEncoder : Json.Encoder where
  encode := jsonEncode
  read := read_jsonEncode
  noBreak := noBreak_jsonEncode

theorem convert_parses_seven :
    ∃ output cs, convert jsonEncoder (str "[document]\nx = 7;\n") = some output ∧
      commands (str "[document]\nx = 7;\n") = some cs ∧
      Json.parse output = some (.object (document cs)) := by
  have hcommands : commands (str "[document]\nx = 7;\n") =
      some [(.document, .document (str "x") (str "7"))] := by decide
  have hconvert : (convert jsonEncoder (str "[document]\nx = 7;\n")).isSome := by
    rw [convert_eq, hcommands]
    rfl
  obtain ⟨output, houtput⟩ := Option.isSome_iff_exists.mp hconvert
  obtain ⟨cs, hcs, -, hiff⟩ := convert_parses_iff jsonEncoder houtput
  refine ⟨output, cs, houtput, hcs, hiff.mpr ?_⟩
  rw [hcommands] at hcs
  cases hcs
  intro c hc
  rw [List.mem_singleton.mp hc]
  exact
    { values := by decide
      options := fun o ho => nomatch ho }

/-- A number with zeros in front is not accepted. -/
theorem convert_parses_fails :
    ¬ ∀ input output, convert jsonEncoder input = some output → (Json.parse output).isSome := by
  intro h
  have hconvert : (convert jsonEncoder (str "[document]\nx = 007;\n")).map
      (fun output => (Json.parse output).isSome) = some false := by decide +kernel
  obtain ⟨output, houtput, hparse⟩ := Option.map_eq_some_iff.mp hconvert
  have hsome := h _ output houtput
  rw [hparse] at hsome
  nomatch hsome

end StrusWebService.AnaConfig
