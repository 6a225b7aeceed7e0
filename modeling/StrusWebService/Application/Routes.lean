import StrusWebService.Application.Cors

/-! # Which URL reaches which handler

An expression of the URL map matches just the URLs that are its directory followed by its
word or its rest, so the first expression that matches can be read off the URL. Expressions
and dispatcher are those of the framework, of which nothing is used but what it documents.
With it follows when a request shuts the service down.
-/

namespace StrusWebService.Application

open Throwing

/-- The dispatcher of the framework tries the expressions in their order, and calls with the
groups of the first that matches the whole URL. -/
structure FirstMatch (regexMatch : String → String → Option (List String))
    (dispatcher : UrlDispatcher) : Prop where
  correct : Regex.Correct regexMatch
  first : ∀ {mappings url}, dispatcher mappings url =
    mappings.findSome? fun mapping => (regexMatch mapping.1 url).map mapping.2

/-! ## The URL map -/

/-- The URLs a handler is for. -/
def Handler.Names : Handler → String → Prop
  | .ping, url => url = "/ping"
  | .version0, url => url = "/version"
  | .version component, url => url = "/version/" ++ component ∧ Regex.IsWord component.toList
  | .serviceIdentifier, url => url = "/id"
  | .quit, url => url = "/quit"
  | .request path, url => url = "/" ++ path ∧ '\n' ∉ path.toList

section Entries

variable {regexMatch : String → String → Option (List String)} {dir url : String}
  {handler handler0 : Handler}

/-- The handler an entry of the URL map leads to. -/
def handlerOf (regexMatch : String → String → Option (List String)) (url : String)
    (mapping : UrlMapping) : Option Handler :=
  (regexMatch mapping.1 url).map mapping.2

theorem urlRegex_plain (hdir : dir ≠ "") :
    urlRegex dir 0 false Bool.noConfusion = "/" ++ dir := by
  unfold urlRegex
  rw [if_neg hdir]
  simp

theorem urlRegex_version : urlRegex "version" 1 false (fun _ => Nat.one_ne_zero) =
    "/version/" ++ String.ofList (Regex.text [.word]) := by decide

theorem urlRegex_request : urlRegex "" 1 true (fun _ => Nat.one_ne_zero) =
    "/" ++ String.ofList (Regex.text [.line]) := by decide

theorem handlerOf_urlmap0 (correct : Regex.Correct regexMatch) (hdir : dir ≠ "")
    (hplain : Regex.Plain ("/" ++ dir).toList) :
    handlerOf regexMatch url (urlmap0 dir handler0) = some handler ↔
      url = "/" ++ dir ∧ handler0 = handler := by
  unfold handlerOf urlmap0
  rw [urlRegex_plain hdir, Option.map_eq_some_iff]
  constructor
  · intro h
    rcases h with ⟨groups, hgroups, rfl⟩
    exact ⟨((correct.plain hplain).mp hgroups).1, rfl⟩
  · intro h
    rcases h with ⟨hurl, rfl⟩
    exact ⟨[], (correct.plain hplain).mpr ⟨hurl, rfl⟩, rfl⟩

theorem handlerOf_version (correct : Regex.Correct regexMatch) :
    handlerOf regexMatch url (urlmap1 "version" .version false) = some handler ↔
      ∃ component, (Handler.version component).Names url ∧ .version component = handler := by
  have hgroups : ∀ {groups}, regexMatch (urlmap1 "version" .version false).1 url = some groups ↔
      ∃ component : String, Regex.IsWord component.toList ∧ url = "/version/" ++ component ∧
        groups = [component] := by
    intro groups
    unfold urlmap1
    rw [urlRegex_version]
    have hliteral : Regex.Piece.word.Literal := trivial
    exact correct.group hliteral Regex.matches_word_iff (by decide)
  unfold handlerOf
  rw [Option.map_eq_some_iff]
  constructor
  · intro h
    rcases h with ⟨groups, hmatch, rfl⟩
    obtain ⟨component, hword, hurl, rfl⟩ := hgroups.mp hmatch
    exact ⟨component, ⟨hurl, hword⟩, rfl⟩
  · intro h
    rcases h with ⟨component, ⟨hurl, hword⟩, rfl⟩
    exact ⟨[component], hgroups.mpr ⟨component, hword, hurl, rfl⟩, rfl⟩

theorem handlerOf_request (correct : Regex.Correct regexMatch) :
    handlerOf regexMatch url (urlmap1 "" .request true) = some handler ↔
      ∃ path, (Handler.request path).Names url ∧ .request path = handler := by
  have hgroups : ∀ {groups}, regexMatch (urlmap1 "" .request true).1 url = some groups ↔
      ∃ path : String, '\n' ∉ path.toList ∧ url = "/" ++ path ∧ groups = [path] := by
    intro groups
    unfold urlmap1
    rw [urlRegex_request]
    have hliteral : Regex.Piece.line.Literal := trivial
    exact correct.group hliteral Regex.matches_line_iff (by decide)
  unfold handlerOf
  rw [Option.map_eq_some_iff]
  constructor
  · intro h
    rcases h with ⟨groups, hmatch, rfl⟩
    obtain ⟨path, hline, hurl, rfl⟩ := hgroups.mp hmatch
    exact ⟨path, ⟨hurl, hline⟩, rfl⟩
  · intro h
    rcases h with ⟨path, ⟨hurl, hline⟩, rfl⟩
    exact ⟨[path], hgroups.mpr ⟨path, hline, hurl, rfl⟩, rfl⟩

end Entries

/-! ### The first entry that matches -/

/-- The entries in front of the one of `exec_request`. -/
def fixedEntries (quitEnabled : Bool) : List UrlMapping :=
  [urlmap0 "ping" .ping,
    urlmap0 "version" .version0,
    urlmap1 "version" .version false,
    urlmap0 "id" .serviceIdentifier] ++
  if quitEnabled then [urlmap0 "quit" .quit] else []

section Dispatch

variable {regexMatch : String → String → Option (List String)} {dispatcher : UrlDispatcher}
  {quitEnabled : Bool} {url : String} {handler : Handler}

theorem dispatcher_eq_or (first : FirstMatch regexMatch dispatcher) :
    dispatcher (initDispatchers quitEnabled) url =
      ((fixedEntries quitEnabled).findSome? (handlerOf regexMatch url)).or
        (handlerOf regexMatch url (urlmap1 "" .request true)) := by
  have hentries : initDispatchers quitEnabled =
      fixedEntries quitEnabled ++ [urlmap1 "" .request true] := rfl
  rw [first.first, hentries, List.findSome?_append, List.findSome?_singleton]
  rfl

/-- The URLs of two handlers with fixed URLs are different. -/
theorem Handler.Names.unique {url : String} {handler handler' : Handler}
    (hfixed : handler.isRequest = false) (hfixed' : handler'.isRequest = false)
    (hnames : handler.Names url) (hnames' : handler'.Names url) : handler = handler' := by
  -- `/version/` begins no other URL of the map
  have hversion : ∀ {component url' : String}, "/version/".toList.isPrefixOf url'.toList = false →
      "/version/" ++ component ≠ url' := by
    rintro component url' hbegins rfl
    rw [String.toList_append, List.isPrefixOf_iff_prefix.mpr (List.prefix_append _ _)] at hbegins
    cases hbegins
  cases handler with
  | request path => cases hfixed
  | version component =>
      obtain ⟨rfl, -⟩ := hnames
      cases handler' with
      | request path => cases hfixed'
      | version component' =>
          have htext := congrArg String.toList hnames'.1
          rw [String.toList_append, String.toList_append] at htext
          rw [String.toList_inj.mp (List.append_cancel_left htext)]
      | _ => exact absurd hnames' (hversion (by decide))
  | _ =>
      cases hnames
      cases handler' with
      | request path => cases hfixed'
      | version component' => exact absurd hnames'.1.symm (hversion (by decide))
      | _ => first | rfl | exact absurd hnames' (by simp [Handler.Names])

theorem exists_fixed_iff (correct : Regex.Correct regexMatch) :
    (∃ entry ∈ fixedEntries quitEnabled, handlerOf regexMatch url entry = some handler) ↔
      handler.isRequest = false ∧ handler.Names url ∧ (handler = .quit → quitEnabled = true) := by
  constructor
  · intro h
    rcases h with ⟨entry, hentry, h⟩
    rcases List.mem_append.mp hentry with hentry | hentry
    · simp only [List.mem_cons, List.not_mem_nil, or_false] at hentry
      rcases hentry with rfl | rfl | rfl | rfl
      · obtain ⟨hurl, rfl⟩ := (handlerOf_urlmap0 correct (by decide) (by decide)).mp h
        exact ⟨rfl, hurl, Handler.noConfusion⟩
      · obtain ⟨hurl, rfl⟩ := (handlerOf_urlmap0 correct (by decide) (by decide)).mp h
        exact ⟨rfl, hurl, Handler.noConfusion⟩
      · obtain ⟨component, hnames, rfl⟩ := (handlerOf_version correct).mp h
        exact ⟨rfl, hnames, Handler.noConfusion⟩
      · obtain ⟨hurl, rfl⟩ := (handlerOf_urlmap0 correct (by decide) (by decide)).mp h
        exact ⟨rfl, hurl, Handler.noConfusion⟩
    · cases quitEnabled with
      | false => cases hentry
      | true =>
          cases List.mem_singleton.mp hentry
          obtain ⟨hurl, rfl⟩ := (handlerOf_urlmap0 correct (by decide) (by decide)).mp h
          exact ⟨rfl, hurl, fun _ => rfl⟩
  · intro h
    rcases h with ⟨hfixed, hnames, hquit⟩
    cases handler with
    | ping =>
        exact ⟨urlmap0 "ping" .ping, by simp [fixedEntries],
          (handlerOf_urlmap0 correct (by decide) (by decide)).mpr ⟨hnames, rfl⟩⟩
    | version0 =>
        exact ⟨urlmap0 "version" .version0, by simp [fixedEntries],
          (handlerOf_urlmap0 correct (by decide) (by decide)).mpr ⟨hnames, rfl⟩⟩
    | version component =>
        exact ⟨urlmap1 "version" .version false, by simp [fixedEntries],
          (handlerOf_version correct).mpr ⟨component, hnames, rfl⟩⟩
    | serviceIdentifier =>
        exact ⟨urlmap0 "id" .serviceIdentifier, by simp [fixedEntries],
          (handlerOf_urlmap0 correct (by decide) (by decide)).mpr ⟨hnames, rfl⟩⟩
    | quit =>
        exact ⟨urlmap0 "quit" .quit, by simp [fixedEntries, hquit rfl],
          (handlerOf_urlmap0 correct (by decide) (by decide)).mpr ⟨hnames, rfl⟩⟩
    | request path => cases hfixed

/-- The order of the fixed entries does not matter. -/
theorem findSome?_fixed_iff (correct : Regex.Correct regexMatch) :
    (fixedEntries quitEnabled).findSome? (handlerOf regexMatch url) = some handler ↔
      handler.isRequest = false ∧ handler.Names url ∧ (handler = .quit → quitEnabled = true) := by
  rw [← exists_fixed_iff correct]
  constructor
  · exact List.exists_of_findSome?_eq_some
  · intro h
    rcases h with ⟨entry, hentry, h⟩
    obtain ⟨first, hfirst⟩ := Option.isSome_iff_exists.mp
      (List.findSome?_isSome_iff.mpr ⟨entry, hentry, Option.isSome_iff_exists.mpr ⟨_, h⟩⟩)
    obtain ⟨hfixed, hnames, -⟩ :=
      (exists_fixed_iff correct).mp (List.exists_of_findSome?_eq_some hfirst)
    obtain ⟨hfixed', hnames', -⟩ := (exists_fixed_iff correct).mp ⟨entry, hentry, h⟩
    rw [hfirst, hnames.unique hfixed hfixed' hnames']

end Dispatch

section Request

variable {regexMatch : String → String → Option (List String)} {closure : ServiceClosure}
  {env : Environment} {request : HttpRequest} {handler : Handler}

/-- A fixed URL has its handler, `/quit` only where it is enabled, and every other URL that
begins with a slash and has no line break is a request. -/
theorem dispatch_eq_some_iff (first : FirstMatch regexMatch env.dispatcher) :
    dispatch closure env request = some handler ↔
      handler.Names request.pathInfo ∧ (handler = .quit → closure.quitEnabled = true) ∧
        (handler.isRequest = true → ∀ fixed : Handler, fixed.isRequest = false →
          fixed.Names request.pathInfo → fixed = .quit ∧ closure.quitEnabled = false) := by
  have hfixedIff := @findSome?_fixed_iff regexMatch closure.quitEnabled request.pathInfo
  unfold dispatch
  rw [dispatcher_eq_or first, Option.or_eq_some_iff, hfixedIff first.correct,
    handlerOf_request first.correct]
  constructor
  · intro h
    rcases h with ⟨hfixed, hnames, hquit⟩ | ⟨hnone, path, hnames, rfl⟩
    · exact ⟨hnames, hquit, fun hrequest => absurd hrequest (by simp [hfixed])⟩
    · refine ⟨hnames, Handler.noConfusion, fun _ fixed hfixed hfixedNames => ?_⟩
      -- an entry for this URL would have come first
      by_contra hnot
      have hsome := (hfixedIff first.correct).mpr
        ⟨hfixed, hfixedNames, fun h => by simpa [h] using hnot⟩
      rw [hnone] at hsome
      cases hsome
  · intro h
    rcases h with ⟨hnames, hquit, hrequest⟩
    cases handler with
    | request path =>
        refine Or.inr ⟨Option.eq_none_iff_forall_ne_some.mpr ?_, path, hnames, rfl⟩
        intro fixed hsome
        obtain ⟨hfixed, hfixedNames, henabled⟩ := (hfixedIff first.correct).mp hsome
        obtain ⟨hisQuit, hdisabled⟩ := hrequest rfl fixed hfixed hfixedNames
        rw [henabled hisQuit] at hdisabled
        cases hdisabled
    | _ => exact Or.inl ⟨rfl, hnames, hquit⟩

theorem firstMatch_willing : FirstMatch Regex.match? willing.dispatcher where
  correct := Regex.correct_match?
  first := rfl

/-- Where it is not enabled `/quit` is a request. -/
theorem dispatch_quit_disabled :
    dispatch { quitEnabled := false } willing { pathInfo := "/quit" } =
      some (.request "quit") := by
  apply (dispatch_eq_some_iff firstMatch_willing).mpr
  refine ⟨⟨rfl, by decide⟩, Handler.noConfusion, fun _ fixed hfixed hnames => ?_⟩
  have hquit : Handler.quit.Names "/quit" := rfl
  exact ⟨hnames.unique hfixed rfl hquit, rfl⟩

theorem dispatch_eq_quit_iff (first : FirstMatch regexMatch env.dispatcher) :
    dispatch closure env request = some .quit ↔
      request.pathInfo = "/quit" ∧ closure.quitEnabled = true := by
  unfold dispatch
  rw [dispatcher_eq_or first, Option.or_eq_some_iff, findSome?_fixed_iff first.correct,
    handlerOf_request first.correct]
  constructor
  · intro h
    rcases h with ⟨-, hurl, henabled⟩ | ⟨-, path, -, hpath⟩
    · exact ⟨hurl, henabled rfl⟩
    · cases hpath
  · intro h
    rcases h with ⟨hurl, henabled⟩
    exact Or.inl ⟨rfl, hurl, fun _ => henabled⟩

end Request

/-! ## Who may shut the service down -/

/-- The origin of the request is not asked for, not given or allowed. -/
def Passes (closure : ServiceClosure) (request : HttpRequest) : Prop :=
  closure.corsEnabled = false ∨ request.httpOrigin = "" ∨ request.httpOrigin ∈ closure.corsHosts

section Shutdown

variable {closure : ServiceClosure} {env : Environment} {request : HttpRequest}

/-- The service is not shut down in between. -/
def NoShutdown (s t : Exchange) : Prop :=
  Operation.shutdown ∈ t.operations → Operation.shutdown ∈ s.operations

instance : Std.Refl NoShutdown := ⟨fun _ => id⟩

instance : IsTrans Exchange NoShutdown := ⟨fun _ _ _ h h' => h ∘ h'⟩

theorem respond_noShutdown (f : Response → Response) : Within NoShutdown (respond f) :=
  Within.modify fun _ => id

theorem perform_noShutdown {o : Operation} (ho : o ≠ .shutdown) :
    Within NoShutdown (perform o) := by
  apply Within.modify
  intro s h
  rcases List.mem_append.mp h with h | h
  · exact h
  · exact absurd (List.mem_singleton.mp h).symm ho

theorem catchExecError_noShutdown (e : Thrown) : Within NoShutdown (catchExecError env e) := by
  cases e with
  | runtimeError what => exact Within.modify fun _ => id
  | badAlloc => exact Within.modify fun _ => id
  | other => exact Within.modify fun _ => id
  | undefined => exact Within.throw Thrown.undefined

theorem execSimple_noShutdown {body : Code Unit} (hbody : Within NoShutdown body) :
    Within NoShutdown (execSimple closure env request body) := by
  apply Within.tryCatch _ catchExecError_noShutdown
  have hcors : Within NoShutdown (handlePreflightCors closure request) := by
    unfold handlePreflightCors
    split
    · exact Within.pure _
    · split
      · exact Within.pure _
      · split
        · exact Within.bind (respond_noShutdown _) fun _ => Within.pure _
        · exact Within.pure _
  have hmethod : Within NoShutdown (checkRequestMethod env request "GET") := by
    unfold checkRequestMethod
    split
    · exact Within.bind (respond_noShutdown _) fun _ => Within.pure _
    · exact Within.pure _
  apply Within.bind hcors
  intro passed
  split
  · apply Within.bind hmethod
    intro isGet
    split
    · exact hbody
    · exact Within.pure _
  · exact Within.pure _

theorem reportMessage_noShutdown (key message : String) :
    Within NoShutdown (reportMessage closure env request key message) := by
  apply Within.bind (perform_noShutdown Operation.noConfusion)
  intro _
  split
  · exact respond_noShutdown _
  · exact Within.throw _

theorem runRequest_noShutdown (content : WebRequestContent) :
    Within NoShutdown (runRequest env request content) := by
  apply Within.bind (perform_noShutdown Operation.noConfusion)
  intro _
  apply Within.bind (respond_noShutdown _)
  intro _
  split
  · exact Within.pure _
  · exact Within.throw _

theorem executeRequest_noShutdown : Within NoShutdown (executeRequest env request) := by
  unfold executeRequest
  split
  · split
    · exact runRequest_noShutdown _
    · split
      · exact Within.throw _
      · exact runRequest_noShutdown _
  · split
    · exact respond_noShutdown _
    · exact runRequest_noShutdown _

theorem execRequest_noShutdown (path : String) :
    Within NoShutdown (execRequest closure env request path) := by
  apply Within.tryCatch _ catchExecError_noShutdown
  unfold requestBody
  split
  · exact Within.throw _
  · split
    · exact respond_noShutdown _
    · split
      · exact Within.throw _
      · exact Within.bind (perform_noShutdown Operation.noConfusion) fun _ => respond_noShutdown _
      · exact Within.bind (perform_noShutdown Operation.noConfusion) fun _ =>
          executeRequest_noShutdown

theorem exec_noShutdown {handler : Handler} (h : handler ≠ .quit) :
    Within NoShutdown (handler.exec closure env request) := by
  cases handler with
  | ping => exact execSimple_noShutdown (reportMessage_noShutdown _ _)
  | version0 => exact execSimple_noShutdown (reportMessage_noShutdown _ _)
  | version component =>
      apply execSimple_noShutdown
      unfold versionBody
      split
      · exact reportMessage_noShutdown _ _
      · exact Within.throw _
  | serviceIdentifier => exact execSimple_noShutdown (reportMessage_noShutdown _ _)
  | quit => exact absurd rfl h
  | request path => exact execRequest_noShutdown path

theorem wp_passes (s : Exchange) :
    Wp (handlePreflightCors closure request)
      (fun passed t => (passed = true ↔ Passes closure request) ∧ t.operations = s.operations)
      (fun _ _ => False) s := by
  unfold handlePreflightCors ServiceClosure.hasPreflightCorsOrigin
  simp only [List.contains_eq_mem, decide_eq_true_eq, wp_ite, wp_pure, wp_bind]
  split
  · rename_i hcors
    exact ⟨iff_of_true trivial (Or.inl hcors), trivial⟩
  · rename_i hcors
    split
    · rename_i hempty
      exact ⟨iff_of_true trivial (Or.inr (Or.inl hempty)), trivial⟩
    · rename_i hempty
      split
      · rename_i hmem
        exact ⟨iff_of_true rfl (Or.inr (Or.inr hmem)), rfl⟩
      · rename_i hmem
        refine ⟨iff_of_false Bool.false_ne_true ?_, trivial⟩
        intro h
        rcases h with h | h | h
        · exact hcors h
        · exact hempty h
        · exact hmem h

theorem wp_isGet (s : Exchange) :
    Wp (checkRequestMethod env request "GET")
      (fun isGet t => (isGet = true ↔ request.requestMethod = "GET") ∧
        t.operations = s.operations)
      (fun _ _ => False) s := by
  unfold checkRequestMethod
  rw [wp_ite]
  split
  · rename_i hmethod
    exact ⟨iff_of_false Bool.false_ne_true hmethod, rfl⟩
  · rename_i hmethod
    exact ⟨iff_of_true rfl (not_not.mp hmethod), rfl⟩

/-- `exec_quit` shuts down for a GET request whose origin passes. -/
theorem shutdown_mem_execQuit :
    Operation.shutdown ∈ (finalState (execQuit closure env request) {}).operations ↔
      Passes closure request ∧ request.requestMethod = "GET" := by
  apply finalState_of_wp (p := fun t : Exchange => Operation.shutdown ∈ t.operations ↔
    Passes closure request ∧ request.requestMethod = "GET")
  unfold execQuit execSimple
  rw [wp_tryCatch, wp_bind]
  apply (wp_passes _).mono
  · rintro passed s ⟨hpassed, hs⟩
    rw [wp_ite]
    split
    · rename_i htrue
      rw [wp_bind]
      apply (wp_isGet s).mono
      · rintro isGet t ⟨hisGet, ht⟩
        rw [wp_ite]
        split
        · rename_i hget
          exact iff_of_true (List.mem_append_right _ List.mem_cons_self)
            ⟨hpassed.mp htrue, hisGet.mp hget⟩
        · rename_i hget
          show Operation.shutdown ∈ t.operations ↔ _
          rw [ht, hs]
          exact iff_of_false List.not_mem_nil fun h => hget (hisGet.mpr h.2)
      · intro _ _ h
        exact h.elim
    · rename_i hfalse
      show Operation.shutdown ∈ s.operations ↔ _
      rw [hs]
      exact iff_of_false List.not_mem_nil fun h => hfalse (hpassed.mpr h.1)
  · intro _ _ h
    exact h.elim

theorem served_quit (hquit : dispatch closure env request = some .quit) :
    served closure env request = finalState (execQuit closure env request) {} := by
  unfold served serve
  rw [hquit]
  rfl

/-- Only the handler of `/quit` shuts the service down. -/
theorem served_noShutdown (hquit : dispatch closure env request ≠ some .quit) :
    Operation.shutdown ∉ (served closure env request).operations := by
  have hserved : Within NoShutdown (serve closure env request) := by
    unfold serve
    split
    · rename_i handler hhandler
      exact exec_noShutdown fun h => hquit (h ▸ hhandler)
    · exact respond_noShutdown _
  intro hmem
  exact absurd (finalState_of_within hserved {} hmem) List.not_mem_nil

/-- Whatever the dispatcher does, a shutdown is a GET that it leads to `exec_quit`. -/
theorem shutdown_mem_served :
    Operation.shutdown ∈ (served closure env request).operations ↔
      dispatch closure env request = some .quit ∧ Passes closure request ∧
        request.requestMethod = "GET" := by
  by_cases hquit : dispatch closure env request = some .quit
  · rw [served_quit hquit, shutdown_mem_execQuit, and_iff_right hquit]
  · exact iff_of_false (served_noShutdown hquit) fun h => hquit h.1

/-- Nothing but a GET of `/quit` from an origin that passes shuts the service down, and this
only where it is enabled. -/
theorem shutdown_mem_iff {regexMatch : String → String → Option (List String)}
    (first : FirstMatch regexMatch env.dispatcher) :
    Operation.shutdown ∈ (served closure env request).operations ↔
      closure.quitEnabled = true ∧ request.pathInfo = "/quit" ∧
        request.requestMethod = "GET" ∧ Passes closure request := by
  rw [shutdown_mem_served, dispatch_eq_quit_iff first]
  constructor
  · intro h
    rcases h with ⟨⟨hurl, henabled⟩, hpasses, hget⟩
    exact ⟨henabled, hurl, hget, hpasses⟩
  · intro h
    rcases h with ⟨henabled, hurl, hget, hpasses⟩
    exact ⟨⟨hurl, henabled⟩, hpasses, hget⟩

theorem shutdown_mem_quit : Operation.shutdown ∈
    (served { quitEnabled := true } willing { pathInfo := "/quit" }).operations :=
  (shutdown_mem_iff firstMatch_willing).mpr ⟨rfl, rfl, rfl, Or.inr (Or.inl rfl)⟩

end Shutdown

end StrusWebService.Application
