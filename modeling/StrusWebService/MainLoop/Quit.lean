import StrusWebService.MainLoop.Loop
import Mathlib.Data.List.Pairwise

/-! # Leaving the main loop

The loop is meant to be left by a `/quit` only, and no instance is to be created
after one. The flag that tells a SIGHUP from a `/quit` is cleared after the
instance has been constructed, so a SIGHUP before that looks like a `/quit`; and a
SIGHUP that overlaps with a `/quit` makes the `/quit` look like a reload. Without
these overlaps each statement of the loop has an assertion that holds whenever it
is reached.
-/

namespace StrusWebService.MainLoop

variable {α : Type*} {s t : State α} {a : Action}

namespace Event

def isQuit : Event α → Bool
  | .quit => true
  | _ => false

def isCreate : Event α → Bool
  | .create => true
  | _ => false

end Event

/-- A `/quit` was executed. -/
def State.quitted (s : State α) : Bool := s.trace.any Event.isQuit

/-- No service instance is created after an executed `/quit`. -/
def NoCreateAfterQuit (events : List (Event α)) : Prop :=
  events.Pairwise fun e e' => ¬(e.isQuit = true ∧ e'.isCreate = true)

/-- The loop is left only if a `/quit` was executed, and no service instance is
created after an executed `/quit`. -/
def LeftByQuit (s : State α) : Prop :=
  (s.position = .left → s.quitted = true) ∧ NoCreateAfterQuit s.trace

/-- The statements between the construction of the service and the reset of the
SIGHUP flag. -/
def Position.early : Position → Bool
  | .initRest | .mount | .clearSighup => true
  | _ => false

/-- A SIGHUP that sets the flag does not come before the flag is cleared for an
instance already constructed, nor between a `/quit` and the end it causes; and a
`/quit` is not executed while the flag is set. -/
def Separate (s : State α) : Action → Prop
  | .main => True
  | .sighup => s.gotSighup = true ∨
      (s.position.early = false ∧ (s.quitted = true → s.terminate = true))
  | .quit => s.gotSighup = false ∨ s.terminate = true

instance (s : State α) (a : Action) : Decidable (Separate s a) :=
  match a with
  | .main => isTrue trivial
  | .sighup => inferInstanceAs (Decidable (_ ∨ (_ ∧ _)))
  | .quit => inferInstanceAs (Decidable (_ ∨ _))

/-! ## The assertions -/

/-- What the assertions look at, apart from the position. -/
structure View where
  terminate : Bool
  gotSighup : Bool
  quitted : Bool
  serving : Bool
  shutdownCalled : Bool
  constructed : Bool

def State.view (s : State α) : View where
  terminate := s.terminate
  gotSighup := s.gotSighup
  quitted := s.quitted
  serving := s.serving
  shutdownCalled := s.shutdownCalled
  constructed := s.constructed

/-- Before an instance is run a `/quit` was not executed, and the threads of the
last instance only run on after a SIGHUP. -/
def View.Reloading (v : View) : Prop :=
  v.terminate = false ∧ v.quitted = false ∧ (v.serving = true → v.gotSighup = true)

/-- A new instance is not run yet. -/
def View.Starting (v : View) : Prop :=
  v.terminate = false ∧ v.quitted = false ∧ v.serving = false

/-- The assertion at each statement of the loop. -/
def Position.Assertion (v : View) : Position → Prop
  | .testTerminate => (v.terminate = true ∧ v.quitted = true) ∨ v.Reloading
  | .configure | .free => v.Reloading
  | .create => v.Starting
  | .construct => v.Starting ∧ v.shutdownCalled = false ∧ v.constructed = false
  | .initRest | .mount | .clearSighup => v.Starting ∧ v.shutdownCalled = false
  | .run => v.Starting ∧ (v.shutdownCalled = true → v.gotSighup = true)
  | .running =>
      v.terminate = false ∧ (v.quitted = true → v.gotSighup = false) ∧
        (v.shutdownCalled = true → v.gotSighup = true ∨ v.quitted = true)
  | .testSighup =>
      v.terminate = false ∧ (v.quitted = true → v.gotSighup = false) ∧
        (v.gotSighup = true ∨ v.quitted = true)
  | .setTerminate => v.terminate = false ∧ v.quitted = true ∧ v.gotSighup = false
  | .shutdown | .left => v.terminate = true ∧ v.quitted = true

/-- The assertion at the current position, and the order of the events. -/
structure State.Valid (s : State α) : Prop where
  assertion : s.position.Assertion s.view
  order : NoCreateAfterQuit s.trace

section Operations

variable (s)

@[simp] theorem view_goto (p : Position) : (s.goto p).view = s.view := rfl

@[simp] theorem view_configurePort : s.configurePort.view = s.view := by
  unfold State.configurePort
  split <;> rfl

@[simp] theorem view_configureName : s.configureName.view = s.view := by
  unfold State.configureName
  split <;> rfl

@[simp] theorem trace_configurePort : s.configurePort.trace = s.trace := by
  unfold State.configurePort
  split <;> rfl

@[simp] theorem trace_configureName : s.configureName.trace = s.trace := by
  unfold State.configureName
  split <;> rfl

/-- Only an instance whose service was constructed is shut down. -/
theorem view_shutdown : (s.callService .shutdown).view =
    { s.view with shutdownCalled := s.shutdownCalled || s.constructed } := by
  unfold State.callService State.view State.serving State.shutdownCalled State.constructed
  cases s.serviceClosure with
  | none => rfl
  | some c =>
      rcases c with ⟨service, shutdownCalled, serving⟩
      cases service <;> simp [ServiceClosure.shutdown, State.quitted]

theorem view_emit (e : Event α) :
    (s.emit e).view = { s.view with quitted := s.quitted || e.isQuit } := by
  simp [State.emit, State.view, State.quitted, State.serving, State.shutdownCalled,
    State.constructed]

theorem view_construct : (s.callService .construct).view =
    { s.view with constructed := s.serviceClosure.isSome } := by
  unfold State.callService State.view State.serving State.shutdownCalled State.constructed
  cases s.serviceClosure <;> rfl

theorem view_run : (s.callService .run).view =
    { s.view with serving := s.serving || s.constructed } := by
  unfold State.callService State.view State.serving State.shutdownCalled State.constructed
  cases s.serviceClosure with
  | none => rfl
  | some c =>
      rcases c with ⟨service, shutdownCalled, serving⟩
      cases service <;> simp [ServiceClosure.run, State.quitted]

end Operations

theorem order_append {events : List (Event α)} {e : Event α} (h : NoCreateAfterQuit events)
    (he : e.isCreate = true → events.any Event.isQuit = false) :
    NoCreateAfterQuit (events ++ [e]) := by
  apply List.pairwise_append.mpr
  refine ⟨h, List.pairwise_singleton _ _, ?_⟩
  rintro e' he' _ hmem ⟨hquit, hcreate⟩
  rw [List.mem_singleton.mp hmem] at hcreate
  have hnone := List.any_eq_false.mp (he hcreate) e' he'
  exact hnone hquit

/-- The assertion at a statement leads to the assertion at the next one. -/
theorem assertion_mainStep (hassert : s.position.Assertion s.view) (h : mainStep s = some t) :
    t.position.Assertion t.view := by
  unfold mainStep at h
  cases hp : s.position
  all_goals rw [hp] at hassert h
  all_goals simp only [Option.some.injEq, reduceCtorEq] at h
  case testTerminate =>
    subst h
    rcases hassert with hassert | hassert
    · have hterminate : s.terminate = true := hassert.1
      rw [if_pos hterminate]
      exact hassert
    · have hterminate : s.terminate = false := hassert.1
      rw [if_neg (by simp [hterminate])]
      exact hassert
  case configure =>
    subst h
    rw [view_goto, view_configureName, view_configurePort]
    exact hassert
  case free =>
    subst h
    exact ⟨hassert.1, hassert.2.1, rfl⟩
  case create =>
    subst h
    rw [view_goto, view_emit]
    rcases hassert with ⟨hterminate, hquitted, -⟩
    exact ⟨⟨hterminate, (Bool.or_false _).trans hquitted, rfl⟩, rfl, rfl⟩
  case construct =>
    subst h
    rw [view_goto, view_emit, view_construct]
    rcases hassert with ⟨⟨hterminate, hquitted, hserving⟩, hshutdown, -⟩
    exact ⟨⟨hterminate, (Bool.or_false _).trans hquitted, hserving⟩, hshutdown⟩
  case initRest =>
    subst h
    exact hassert
  case mount =>
    subst h
    exact hassert
  case clearSighup =>
    subst h
    rcases hassert with ⟨hstarting, hshutdown⟩
    have hshutdown : s.shutdownCalled = false := hshutdown
    refine ⟨hstarting, fun h => ?_⟩
    exact absurd (hshutdown.symm.trans h) (by simp)
  case run =>
    subst h
    rw [view_goto, view_run]
    rcases hassert with ⟨⟨hterminate, hquitted, -⟩, hshutdown⟩
    have hquitted : s.quitted = false := hquitted
    exact ⟨hterminate, fun h => by simp [State.view, hquitted] at h, fun h => .inl (hshutdown h)⟩
  case running =>
    rw [Option.ite_none_right_eq_some, Option.some.injEq] at h
    rcases h with ⟨hcalled, rfl⟩
    rcases hassert with ⟨hterminate, hquit, hshutdown⟩
    exact ⟨hterminate, hquit, hshutdown hcalled⟩
  case testSighup =>
    subst h
    rcases hassert with ⟨hterminate, hquit, hcause⟩
    by_cases hgot : s.gotSighup = true
    · have hquitted : s.quitted = false := by
        by_contra hne
        have hquitted : s.quitted = true := by simpa using hne
        have hclear : s.gotSighup = false := hquit hquitted
        simp [hgot] at hclear
      rw [if_pos hgot]
      exact .inr ⟨hterminate, hquitted, fun _ => hgot⟩
    · have hquitted := hcause.resolve_left hgot
      have hclear : s.gotSighup = false := by simpa using hgot
      rw [if_neg hgot]
      exact ⟨hterminate, hquitted, hclear⟩
  case setTerminate =>
    have hterminate : s.terminate = false := hassert.1
    simp only [setFlag, hterminate] at h
    subst h
    exact ⟨rfl, hassert.2.1⟩
  case shutdown =>
    subst h
    rw [view_goto, view_shutdown]
    exact .inl hassert

theorem order_mainStep (hassert : s.position.Assertion s.view) (horder : NoCreateAfterQuit s.trace)
    (h : mainStep s = some t) : NoCreateAfterQuit t.trace := by
  unfold mainStep at h
  cases hp : s.position
  all_goals rw [hp] at hassert h
  all_goals simp only [Option.ite_none_right_eq_some, Option.some.injEq, reduceCtorEq] at h
  case create =>
    subst h
    exact order_append horder fun _ => hassert.2.1
  case construct =>
    subst h
    exact order_append horder (by simp [Event.isCreate])
  case configure =>
    subst h
    simpa [State.goto] using horder
  case running =>
    rcases h with ⟨-, rfl⟩
    exact horder
  all_goals
    subst h
    exact horder

theorem sighup_eq : sighup s = if s.gotSighup = true then s else
    ({ s with gotSighup := true } : State α).callService .shutdown := by
  cases hgot : s.gotSighup with
  | false => simp [sighup, setFlag, hgot]
  | true =>
      rcases s with ⟨position, terminate, gotSighup⟩
      obtain rfl : gotSighup = true := hgot
      simp [sighup, setFlag]

theorem sighup_position : (sighup s).position = s.position := by
  rw [sighup_eq]
  split <;> rfl

theorem sighup_trace : (sighup s).trace = s.trace := by
  rw [sighup_eq]
  split <;> rfl

theorem view_sighup (hclear : s.gotSighup = false) : (sighup s).view =
    { s.view with gotSighup := true, shutdownCalled := s.shutdownCalled || s.constructed } := by
  rw [sighup_eq, if_neg (by simp [hclear]), view_shutdown]
  rfl

/-- A SIGHUP keeps every assertion, if it does not overlap. -/
theorem assertion_sighup (hassert : s.position.Assertion s.view) (ok : Separate s .sighup) :
    (sighup s).position.Assertion (sighup s).view := by
  rw [sighup_position]
  by_cases hgot : s.gotSighup = true
  · rwa [sighup_eq, if_pos hgot]
  · obtain ⟨hearly, hquit⟩ := ok.resolve_left hgot
    rw [view_sighup (by simpa using hgot)]
    cases hp : s.position
    all_goals rw [hp] at hassert hearly
    case testTerminate => exact hassert.imp id fun h => ⟨h.1, h.2.1, fun _ => rfl⟩
    case configure => exact ⟨hassert.1, hassert.2.1, fun _ => rfl⟩
    case free => exact ⟨hassert.1, hassert.2.1, fun _ => rfl⟩
    case create => exact hassert
    case construct =>
      rcases hassert with ⟨hstarting, hshutdown, hconstructed⟩
      have hnone : (s.shutdownCalled || s.constructed) = false :=
        Bool.or_eq_false_iff.mpr ⟨hshutdown, hconstructed⟩
      exact ⟨hstarting, hnone, hconstructed⟩
    case initRest => cases hearly
    case mount => cases hearly
    case clearSighup => cases hearly
    case run => exact ⟨hassert.1, fun _ => rfl⟩
    case running =>
      have hterminate : s.terminate = false := hassert.1
      refine ⟨hterminate, fun h => ?_, fun _ => .inl rfl⟩
      simp [hterminate] at hquit
      exact absurd h (by simp [State.view, hquit])
    case testSighup =>
      have hterminate : s.terminate = false := hassert.1
      refine ⟨hterminate, fun h => ?_, .inl rfl⟩
      simp [hterminate] at hquit
      exact absurd h (by simp [State.view, hquit])
    case setTerminate =>
      have hterminate : s.terminate = false := hassert.1
      have hquitted := hquit hassert.2.1
      simp [hterminate] at hquitted
    case shutdown => exact hassert
    case left => exact hassert

theorem view_execQuit : (execQuit s).view =
    { s.view with quitted := true, shutdownCalled := s.shutdownCalled || s.constructed } := by
  unfold execQuit
  rw [view_emit, view_shutdown]
  simp [Event.isQuit]

/-- So does a `/quit`. -/
theorem assertion_execQuit (hassert : s.position.Assertion s.view) (hserving : s.serving = true)
    (ok : Separate s .quit) : (execQuit s).position.Assertion (execQuit s).view := by
  have hposition : (execQuit s).position = s.position := rfl
  rw [hposition, view_execQuit]
  have hno : s.view.Starting → False := fun h => by
    have : s.serving = false := h.2.2
    simp [hserving] at this
  have hnot : s.view.Reloading → False := fun h => by
    have hgot : s.gotSighup = true := h.2.2 hserving
    have hterminate : s.terminate = false := h.1
    simp [Separate, hgot, hterminate] at ok
  cases hp : s.position
  all_goals rw [hp] at hassert
  case testTerminate =>
    cases hassert with
    | inl h => exact .inl ⟨h.1, rfl⟩
    | inr h => exact (hnot h).elim
  case configure => exact (hnot hassert).elim
  case free => exact (hnot hassert).elim
  case create => exact (hno hassert).elim
  case construct => exact (hno hassert.1).elim
  case initRest => exact (hno hassert.1).elim
  case mount => exact (hno hassert.1).elim
  case clearSighup => exact (hno hassert.1).elim
  case run => exact (hno hassert.1).elim
  case running =>
    have hterminate : s.terminate = false := hassert.1
    exact ⟨hterminate, fun _ => ok.resolve_right (by simp [hterminate]), fun _ => .inr rfl⟩
  case testSighup =>
    have hterminate : s.terminate = false := hassert.1
    exact ⟨hterminate, fun _ => ok.resolve_right (by simp [hterminate]), .inr rfl⟩
  case setTerminate => exact ⟨hassert.1, rfl, hassert.2.2⟩
  case shutdown => exact ⟨hassert.1, rfl⟩
  case left => exact ⟨hassert.1, rfl⟩

theorem valid_step (inv : s.Valid) (ok : Separate s a) (h : step s a = some t) : t.Valid := by
  cases a with
  | main => exact ⟨assertion_mainStep inv.assertion h, order_mainStep inv.assertion inv.order h⟩
  | sighup =>
      obtain rfl : sighup s = t := by simpa [step] using h
      refine ⟨assertion_sighup inv.assertion ok, ?_⟩
      rw [sighup_trace]
      exact inv.order
  | quit =>
      simp only [step, Option.ite_none_right_eq_some, Option.some.injEq] at h
      rcases h with ⟨hserving, rfl⟩
      exact ⟨assertion_execQuit inv.assertion hserving ok,
        order_append inv.order (by simp [Event.isCreate])⟩

/-- In runs without overlaps the loop is left by a `/quit` only. -/
theorem leftByQuit_of_separate (config : Configuration α) (port : Int) (servicename : String)
    (acts : List Action) (s : State α)
    (ok : StepSystem.Along step Separate (initial config port servicename) acts)
    (h : StepSystem.run step (initial config port servicename) acts = some s) :
    LeftByQuit s := by
  have start : (initial config port servicename).Valid :=
    ⟨.inr ⟨rfl, rfl, fun h => by cases h⟩, List.Pairwise.nil⟩
  have inv : s.Valid :=
    StepSystem.invariant_run State.Valid (fun _ _ _ => valid_step) start ok h
  refine ⟨fun hleft => ?_, inv.order⟩
  have hassert := inv.assertion
  rw [hleft] at hassert
  exact hassert.2

/-- A SIGHUP while the first instance is set up. -/
def sighupAtStart : List Action :=
  [.main, .main, .main, .main, .main, .sighup] ++ List.replicate 9 .main

/-- A SIGHUP after a `/quit` was executed. -/
def sighupAfterQuit : List Action :=
  List.replicate 9 .main ++ [.quit, .sighup] ++ List.replicate 6 .main

theorem leftByQuit_fails :
    (∃ s, StepSystem.run step (initial (⟨none, none, ()⟩ : Configuration Unit) 0 "")
        sighupAtStart = some s ∧ ¬LeftByQuit s) ∧
    (∃ s, StepSystem.run step (initial (⟨none, none, ()⟩ : Configuration Unit) 0 "")
        sighupAfterQuit = some s ∧ ¬LeftByQuit s) := by
  refine ⟨⟨_, rfl, fun h => ?_⟩, ⟨_, rfl, fun h => ?_⟩⟩
  · exact absurd (h.1 rfl) (by decide)
  · have horder := h.2
    unfold NoCreateAfterQuit at horder
    exact absurd horder (by decide)

/-- A reload, and then a `/quit` with a SIGHUP behind it. -/
def reloadThenQuit : List Action :=
  List.replicate 9 .main ++ [.sighup] ++ List.replicate 11 .main ++ [.quit] ++
    List.replicate 3 .main ++ [.sighup] ++ List.replicate 2 .main

theorem leftByQuit_reloadThenQuit :
    ∃ s, StepSystem.run step (initial (⟨none, none, ()⟩ : Configuration Unit) 0 "")
        reloadThenQuit = some s ∧ s.position = .left ∧ LeftByQuit s :=
  ⟨_, rfl, rfl, leftByQuit_of_separate ⟨none, none, ()⟩ 0 "" reloadThenQuit _ (by decide) rfl⟩

end StrusWebService.MainLoop
