import StrusWebService.Logger.Reduce
import StrusWebService.Logger.MessageBuf

/-! # What a logged content shows

The log methods that take a pointer to a content and its size. The content is the start of
a region of memory with something behind it, and a read behind the region has no result.
Whether a method reads behind the content is decided by the content.
-/

namespace StrusWebService.Logger

open CString
open Text (str)

def MaxLogContentSize : Nat := 2048
def MaxLogBinaryItemSize : Nat := 32
def MaxLogReadableItemSize : Nat := 256

/-- What a call of `logMessage` starts with: its buffer as it is, and the label of the thread. -/
structure Frame where
  buf : List UInt8
  label : CStr
  buf_length : buf.length = 4096
  label_length : label.bytes.length ≤ 7

def logMessage (frame : Frame) (text : List UInt8) : Option (List UInt8) :=
  (logMessageBuf frame.buf frame.label.bytes text).bind fun s => CString.text s.buf

/-- Whether one of the bytes of the sample is a blank. -/
def isReadableText : List UInt8 → Nat → Option Bool
  | _, 0 => some false
  | [], _ + 1 => none
  | ch :: sample, samplesize + 1 =>
      if ch ≤ 32 then some true else isReadableText sample samplesize

/-- The text printed for a content that was reduced. -/
def Reduced.str (content : List UInt8) : Reduced → Option (List UInt8)
  | .content => CString.text content
  | .contentbuf buf => CString.text (buf ++ [0])

/-- `reduceContentSize` with an empty buffer, and its result printed. -/
def contentStr (content : List UInt8) (contentsize maxsize : Nat) : Option (List UInt8) :=
  (reduceContentSize [] content contentsize maxsize).bind fun reduced => reduced.str content

section Methods

variable (frame : Frame) (content : List UInt8) (contentsize : Nat)

def logRequest : Option (List UInt8) :=
  (contentStr content contentsize MaxLogContentSize).bind fun content =>
    logMessage frame (str "request content [" ++ content ++ str "]")

def logRequestAnswer : Option (List UInt8) :=
  if contentsize ≠ 0 then
    (contentStr content contentsize MaxLogContentSize).bind fun content =>
      logMessage frame (str "request answer content [" ++ content ++ str "]")
  else logMessage frame (str "request no answer content")

def logDelegateRequest (address method : CStr) : Option (List UInt8) :=
  if contentsize = 0 then
    logMessage frame (str "delegate " ++ method.bytes ++ str " '" ++ address.bytes ++ str "'")
  else
    (contentStr content contentsize MaxLogContentSize).bind fun content =>
      logMessage frame (str "delegate " ++ method.bytes ++ str " '" ++ address.bytes ++ str "': '" ++
        content ++ str "'")

/-- The title of an event, and its item if there is one. -/
def eventTitle (title : CStr) (item : Option CStr) : List UInt8 :=
  match item with
  | none => str "event " ++ title.bytes
  | some item =>
      if item.bytes = [] then str "event " ++ title.bytes
      else str "event " ++ title.bytes ++ str " " ++ item.bytes

/-- The content is missing when its pointer is null. -/
def logContentEvent (title : CStr) (item : Option CStr) (content : Option (List UInt8)) :
    Option (List UInt8) :=
  match content with
  | none => logMessage frame (eventTitle title item)
  | some content =>
      (isReadableText content 64).bind fun readable =>
        let maxsize := if readable then MaxLogReadableItemSize else MaxLogBinaryItemSize
        (contentStr content contentsize maxsize).bind fun content =>
          logMessage frame (eventTitle title item ++ str ": " ++ content)

end Methods

section Reads

/-- Two memories with the same content give the same log line, and no byte behind the content
is read. -/
structure ShowsOnly (log : List UInt8 → Option (List UInt8)) (content : List UInt8) : Prop where
  same : ∀ behind behind', log (content ++ behind) = log (content ++ behind')
  inside : (log content).isSome

variable {content : List UInt8} {frame : Frame}

/-- A program with one result for a content, whatever is behind it. -/
theorem ShowsOnly.of_forall {log : List UInt8 → Option (List UInt8)} {line : List UInt8}
    (h : ∀ behind, log (content ++ behind) = some line) : ShowsOnly log content := by
  constructor
  · intro behind behind'
    rw [h behind, h behind']
  · have hself := h []
    rw [List.append_nil] at hself
    rw [hself]
    rfl

variable (frame) in
theorem logMessage_eq {text : List UInt8} (h : 0 ∉ text) :
    logMessage frame text =
      some (Collapse.collapse blank 32 (printedLine frame.label.bytes text)) := by
  obtain ⟨s, hlog, hline, -⟩ := logMessageBuf_spec frame.buf_length frame.label_length
    frame.label.nul_not_mem h
  rw [logMessage, hlog, Option.bind_some, hline]

/-- A content that is too long or has an end is printed without what is behind it. -/
theorem contentStr_of {maxsize : Nat} (h : maxsize < content.length ∨ 0 ∈ content) :
    ∃ shown, 0 ∉ shown ∧
      ∀ behind, contentStr (content ++ behind) content.length maxsize = some shown := by
  by_cases hlong : maxsize < content.length
  · obtain ⟨e, s, -, -, hreduce⟩ := reduceContentSize_of_lt [] (Nat.le_of_lt hlong) hlong
    obtain ⟨shown, hstr⟩ := Option.isSome_iff_exists.mp
      (isSome_text_iff.mpr (List.mem_append_right _ (List.mem_singleton_self (0 : UInt8))) :
        (CString.text ([] ++ content.take (keptLength e s) ++ ellipsis ++ [0])).isSome)
    refine ⟨shown, nul_not_mem_text hstr, ?_⟩
    intro behind
    rw [contentStr, hreduce _ (List.take_append_of_le_length (Nat.le_of_lt hlong)),
      Option.bind_some]
    exact hstr
  · obtain ⟨shown, hstr⟩ := Option.isSome_iff_exists.mp (isSome_text_iff.mpr (h.resolve_left hlong))
    refine ⟨shown, nul_not_mem_text hstr, ?_⟩
    intro behind
    rw [contentStr, reduceContentSize_of_le (Nat.le_of_not_lt hlong), Option.bind_some]
    exact text_append hstr behind

theorem contentStr_eq_none {maxsize : Nat} (h : ¬(maxsize < content.length ∨ 0 ∈ content)) :
    contentStr content content.length maxsize = none := by
  obtain ⟨hlong, hnul⟩ := not_or.mp h
  rw [contentStr, reduceContentSize_of_le (Nat.le_of_not_lt hlong), Option.bind_some]
  show CString.text content = none
  rw [← Option.not_isSome_iff_eq_none, isSome_text_iff]
  exact hnul

/-- When a message with a content shows only the content. -/
theorem showsOnly_iff {maxsize : Nat} {message : List UInt8 → List UInt8}
    (hmessage : ∀ shown, 0 ∉ shown → 0 ∉ message shown) :
    ShowsOnly (fun content' => (contentStr content' content.length maxsize).bind fun shown =>
        logMessage frame (message shown)) content ↔ maxsize < content.length ∨ 0 ∈ content := by
  constructor
  · intro h
    by_contra hno
    have hinside := h.inside
    rw [contentStr_eq_none hno] at hinside
    cases hinside
  · intro h
    obtain ⟨shown, hnul, hstr⟩ := contentStr_of h
    apply ShowsOnly.of_forall
    intro behind
    rw [hstr behind, Option.bind_some, logMessage_eq frame (hmessage shown hnul)]

theorem isReadableText_true {samplesize : Nat} (h : ∃ c ∈ content.take samplesize, c ≤ 32)
    (behind : List UInt8) : isReadableText (content ++ behind) samplesize = some true := by
  induction content generalizing samplesize with
  | nil => simp at h
  | cons ch content ih =>
      cases samplesize with
      | zero => simp at h
      | succ samplesize =>
          rw [List.cons_append, isReadableText]
          split
          · rfl
          · rename_i hch
            apply ih
            simpa [hch] using h

theorem isReadableText_false {samplesize : Nat} (h : ∀ c ∈ content.take samplesize, 32 < c)
    (behind : List UInt8) :
    isReadableText (content ++ behind) samplesize =
      isReadableText behind (samplesize - content.length) := by
  induction content generalizing samplesize with
  | nil => rfl
  | cons ch content ih =>
      cases samplesize with
      | zero => simp [isReadableText]
      | succ samplesize =>
          have hch : ¬ch ≤ 32 := UInt8.not_le.mpr (h ch (by simp))
          rw [List.cons_append, isReadableText, if_neg hch, ih, List.length_cons,
            Nat.add_sub_add_right]
          intro c hc
          exact h c (by simp [hc])

theorem ShowsOnly.congr {log log' : List UInt8 → Option (List UInt8)}
    (h : ∀ behind, log (content ++ behind) = log' (content ++ behind)) :
    ShowsOnly log content ↔ ShowsOnly log' content := by
  have hself := h []
  rw [List.append_nil] at hself
  constructor
  · intro hlog
    exact ⟨fun behind behind' => by rw [← h behind, ← h behind', hlog.same],
      by rw [← hself]; exact hlog.inside⟩
  · intro hlog
    exact ⟨fun behind behind' => by rw [h behind, h behind', hlog.same],
      by rw [hself]; exact hlog.inside⟩

end Reads

section Shown

variable (frame : Frame) (content : List UInt8)

theorem logRequest_iff :
    ShowsOnly (fun content' => logRequest frame content' content.length) content ↔
      MaxLogContentSize < content.length ∨ 0 ∈ content := by
  apply showsOnly_iff
  intro shown hnul
  simp only [List.mem_append, not_or]
  exact ⟨⟨by decide, hnul⟩, by decide⟩

theorem logRequestAnswer_iff :
    ShowsOnly (fun content' => logRequestAnswer frame content' content.length) content ↔
      content = [] ∨ MaxLogContentSize < content.length ∨ 0 ∈ content := by
  by_cases hempty : content = []
  · apply iff_of_true _ (Or.inl hempty)
    apply ShowsOnly.of_forall
    intro behind
    have hnul : 0 ∉ str "request no answer content" := by decide
    rw [logRequestAnswer, hempty, if_neg (by simp), logMessage_eq frame hnul]
  · have hsize : content.length ≠ 0 := fun h => hempty (List.length_eq_zero_iff.mp h)
    simp only [logRequestAnswer, if_pos hsize, hempty, false_or]
    apply showsOnly_iff
    intro shown hnul
    simp only [List.mem_append, not_or]
    exact ⟨⟨by decide, hnul⟩, by decide⟩

theorem logDelegateRequest_iff (address method : CStr) :
    ShowsOnly (fun content' => logDelegateRequest frame content' content.length address method)
        content ↔
      content = [] ∨ MaxLogContentSize < content.length ∨ 0 ∈ content := by
  have hstart : 0 ∉ str "delegate " ++ method.bytes ++ str " '" ++ address.bytes := by
    simp only [List.mem_append, not_or]
    exact ⟨⟨⟨by decide, method.nul_not_mem⟩, by decide⟩, address.nul_not_mem⟩
  by_cases hempty : content = []
  · apply iff_of_true _ (Or.inl hempty)
    apply ShowsOnly.of_forall
    intro behind
    have hnul : 0 ∉ str "delegate " ++ method.bytes ++ str " '" ++ address.bytes ++ str "'" := by
      rw [List.mem_append, not_or]
      exact ⟨hstart, by decide⟩
    rw [logDelegateRequest, hempty, if_pos List.length_nil, logMessage_eq frame hnul]
  · have hsize : content.length ≠ 0 := fun h => hempty (List.length_eq_zero_iff.mp h)
    simp only [logDelegateRequest, if_neg hsize, hempty, false_or]
    apply showsOnly_iff
    intro shown hnul
    rw [List.mem_append, List.mem_append, List.mem_append, not_or, not_or, not_or]
    exact ⟨⟨⟨hstart, by decide⟩, hnul⟩, by decide⟩

theorem nul_not_mem_eventTitle (title : CStr) (item : Option CStr) : 0 ∉ eventTitle title item := by
  have htitle : 0 ∉ str "event " ++ title.bytes := by
    rw [List.mem_append, not_or]
    exact ⟨by decide, title.nul_not_mem⟩
  unfold eventTitle
  split
  · exact htitle
  · rename_i item
    split
    · exact htitle
    · rw [List.mem_append, List.mem_append, not_or, not_or]
      exact ⟨⟨htitle, by decide⟩, item.nul_not_mem⟩

/-- The method once the sampling has said whether the content is readable. -/
theorem logContentEvent_sampled (title : CStr) (item : Option CStr) {readable : Bool}
    (hreadable : ∀ behind, isReadableText (content ++ behind) 64 = some readable) :
    ShowsOnly (fun content' => logContentEvent frame content.length title item (some content'))
        content ↔
      (if readable then MaxLogReadableItemSize else MaxLogBinaryItemSize) < content.length ∨
        0 ∈ content := by
  have hmessage : ∀ shown, 0 ∉ shown → 0 ∉ eventTitle title item ++ str ": " ++ shown := by
    intro shown hnul
    rw [List.mem_append, List.mem_append, not_or, not_or]
    exact ⟨⟨nul_not_mem_eventTitle title item, by decide⟩, hnul⟩
  rw [← @showsOnly_iff _ frame _ _ hmessage]
  apply ShowsOnly.congr
  intro behind
  rw [logContentEvent, hreadable behind]
  rfl

/-- A content without a blank that is shorter than the sample is read behind its end. -/
theorem logContentEvent_short (title : CStr) (item : Option CStr)
    (hall : ∀ c ∈ content, 32 < c) (hshort : content.length < 64) :
    ¬ShowsOnly (fun content' => logContentEvent frame content.length title item (some content'))
      content := by
  have hnone : isReadableText content 64 = none := by
    have hbehind := @isReadableText_false content 64
      (fun c hc => hall c (List.mem_of_mem_take hc)) []
    obtain ⟨more, hmore⟩ : ∃ more, 64 - content.length = more + 1 :=
      ⟨63 - content.length, by omega⟩
    rwa [List.append_nil, hmore, isReadableText] at hbehind
  intro h
  have hinside := h.inside
  rw [logContentEvent, hnone] at hinside
  cases hinside

theorem logContentEvent_iff (title : CStr) (item : Option CStr) :
    ShowsOnly (fun content' => logContentEvent frame content.length title item (some content'))
        content ↔
      0 ∈ content ∨ MaxLogReadableItemSize < content.length ∨
        (64 ≤ content.length ∧ ∀ c ∈ content.take 64, 32 < c) := by
  by_cases hblank : ∃ c ∈ content.take 64, c ≤ 32
  · have hno : ¬(64 ≤ content.length ∧ ∀ c ∈ content.take 64, 32 < c) := by
      intro h
      rcases hblank with ⟨c, hc, hle⟩
      exact absurd hle (UInt8.not_le.mpr (h.2 c hc))
    rw [logContentEvent_sampled frame content title item (isReadableText_true hblank), if_pos rfl,
      or_iff_left hno]
    exact or_comm
  · have hall : ∀ c ∈ content.take 64, 32 < c := by
      intro c hc
      exact UInt8.not_le.mp fun hle => hblank ⟨c, hc, hle⟩
    by_cases hlong : 64 ≤ content.length
    · have hfalse : ∀ behind, isReadableText (content ++ behind) 64 = some false := by
        intro behind
        rw [isReadableText_false hall behind, Nat.sub_eq_zero_of_le hlong, isReadableText]
      rw [logContentEvent_sampled frame content title item hfalse, if_neg Bool.false_ne_true]
      exact iff_of_true (Or.inl (Nat.lt_of_lt_of_le (by decide) hlong))
        (Or.inr (Or.inr ⟨hlong, hall⟩))
    · rw [List.take_of_length_le (by omega)] at hall
      apply iff_of_false (logContentEvent_short frame content title item hall (by omega))
      intro h
      rcases h with hnul | hmax | hlong'
      · exact absurd (hall 0 hnul) (by decide)
      · unfold MaxLogReadableItemSize at hmax
        omega
      · exact hlong hlong'.1

/-- When a log line shows only the content handed over. A content of at most the maximum size
is printed up to the first NUL byte, wherever that is, and the readability of a content is
decided by 64 bytes, however long it is. -/
theorem showsOnly_content_iff (address method title : CStr) (item : Option CStr) :
    (ShowsOnly (fun content' => logRequest frame content' content.length) content ↔
      MaxLogContentSize < content.length ∨ 0 ∈ content) ∧
    (ShowsOnly (fun content' => logRequestAnswer frame content' content.length) content ↔
      content = [] ∨ MaxLogContentSize < content.length ∨ 0 ∈ content) ∧
    (ShowsOnly (fun content' => logDelegateRequest frame content' content.length address method)
        content ↔
      content = [] ∨ MaxLogContentSize < content.length ∨ 0 ∈ content) ∧
    (ShowsOnly (fun content' => logContentEvent frame content.length title item (some content'))
        content ↔
      0 ∈ content ∨ MaxLogReadableItemSize < content.length ∨
        (64 ≤ content.length ∧ ∀ c ∈ content.take 64, 32 < c)) :=
  ⟨logRequest_iff frame content, logRequestAnswer_iff frame content,
    logDelegateRequest_iff frame content address method, logContentEvent_iff frame content title item⟩

def sampleFrame : Frame :=
  { buf := List.replicate 4096 0
    label := { bytes := str "1", nul_not_mem := by decide }
    buf_length := List.length_replicate
    label_length := by decide }

/-- Three bytes of content and what is behind them in the log. -/
theorem showsOnly_unterminated_not :
    logRequest sampleFrame (str "abc" ++ [0]) 3 = some (str "#1 request content [abc]") ∧
      logRequest sampleFrame (str "abc" ++ (str "def" ++ [0])) 3 =
        some (str "#1 request content [abcdef]") ∧
      ¬ShowsOnly (fun content' => logRequest sampleFrame content' 3) (str "abc") := by
  have habc : logRequest sampleFrame (str "abc" ++ [0]) 3 = some (str "#1 request content [abc]") := by
    have hstr : contentStr (str "abc" ++ [0]) 3 MaxLogContentSize = some (str "abc") := by decide
    rw [logRequest, hstr, Option.bind_some, logMessage_eq sampleFrame (by decide)]
    decide
  have hdef : logRequest sampleFrame (str "abc" ++ (str "def" ++ [0])) 3 =
      some (str "#1 request content [abcdef]") := by
    have hstr : contentStr (str "abc" ++ (str "def" ++ [0])) 3 MaxLogContentSize =
        some (str "abcdef") := by decide
    rw [logRequest, hstr, Option.bind_some, logMessage_eq sampleFrame (by decide)]
    decide
  refine ⟨habc, hdef, ?_⟩
  intro h
  have hsame : logRequest sampleFrame (str "abc" ++ [0]) 3 =
      logRequest sampleFrame (str "abc" ++ (str "def" ++ [0])) 3 := h.same _ _
  rw [habc, hdef] at hsame
  exact absurd hsame (by decide)

end Shown

end StrusWebService.Logger
