import StrusWebService.MainLoop.Quit
import StrusWebService.Application.Routes

/-! # The process around the main loop

Here the statements of `main` may throw, those of its handlers too. A method of the instance is
called by `callService`, which catches the exception, so the loop goes on and is only left at its
next test. An exception of any other statement of the loop is caught by the loop, also one that is
thrown while `callService` handles another. What is no `std::exception`, or is thrown by the
handler of the loop or behind the loop, gets to the handlers of `main`; what these throw ends the
process. Every handler of `main` has its error code. The requests that shut the instance down are
those of the handlers.
-/

namespace StrusWebService.MainLoop

open Application (Environment HttpRequest Operation)

structure ErrorCodes where
  syntaxError : Int
  outOfMem : Int
  runtimeError : Int
  uncaughtException : Int
  syntaxError_ne_zero : syntaxError ≠ 0
  outOfMem_ne_zero : outOfMem ≠ 0
  runtimeError_ne_zero : runtimeError ≠ 0
  uncaughtException_ne_zero : uncaughtException ≠ 0

/-- An exception, by the handlers of `main`. -/
inductive Exception where
  | badValueCast
  | badAlloc
  /-- With the codes that are read from the error buffer, one after the other. -/
  | runtimeError (read : List Int)
  | other
  /-- No `std::exception`. -/
  | unknown

namespace Exception

def isStd : Exception → Bool
  | .unknown => false
  | _ => true

/-- The code of `main` behind its handler. A code is kept, but for the last one in the error
buffer; the buffer ends with a negative code. -/
def code (codes : ErrorCodes) (rt : Int) : Exception → Int
  | .badValueCast => if rt = 0 then codes.syntaxError else rt
  | .badAlloc => if rt = 0 then codes.outOfMem else rt
  | .runtimeError read =>
      let rt := (read.takeWhile (0 ≤ ·)).foldl (fun rt ec => if ec ≠ 0 then ec else rt) rt
      if rt = 0 then codes.runtimeError else rt
  | .other | .unknown => if rt = 0 then codes.uncaughtException else rt

end Exception

/-- Why the loop is left. -/
inductive Cause where
  | quit (request : HttpRequest)
  /-- The flag of this SIGHUP is cleared before it is tested. -/
  | sighup
  /-- An exception caught by `callService`. -/
  | service
  /-- An exception caught by the loop. -/
  | caught
  /-- An exception caught by a handler of `main`. -/
  | left (e : Exception)

namespace Cause

def isError : Cause → Bool
  | .caught | .left _ => true
  | _ => false

def code (codes : ErrorCodes) (rt : Int) : Cause → Int
  | .caught => codes.uncaughtException
  | .left e => e.code codes rt
  | _ => rt

end Cause

/-- What the causes, in their order, make of the code of `main`. -/
def ErrorCodes.code (codes : ErrorCodes) (causes : List Cause) : Int :=
  causes.foldl (Cause.code codes) 0

/-- Where the process is. -/
inductive Stage where
  | loop
  /-- In the handler of `callService`, which returns in front of `next`. -/
  | serviceHandler (next : Position)
  | loopHandler
  | behindLoop
  | handler (e : Exception)
  | cleanup

inductive Status where
  | running
  | returned (rt : Int)
  /-- An exception has left `main` or the signal handler. -/
  | terminated

structure Process (α : Type*) where
  loop : State α
  stage : Stage := .loop
  rt : Int := 0
  status : Status := .running
  causes : List Cause := []

/-- How the handler of a SIGHUP ends. -/
inductive Signalled where
  | returns
  /-- `shutdown` throws, which `callService` catches. -/
  | caught
  /-- An exception leaves the signal handler. -/
  | escapes

inductive Act where
  | main
  /-- The next statement throws, or `run` does while it is running. -/
  | throws (e : Exception)
  | sighup (signalled : Signalled)
  | request (env : Environment) (haltedForMaintenance : Bool) (request : HttpRequest)

/-- Who gets the exception of a statement of the loop. -/
inductive Catcher where
  | nobody
  | callService (next : Position)
  | loop

def Position.catcher : Position → Catcher
  | .configure | .create | .construct | .initRest => .loop
  | .mount => .callService .clearSighup
  | .run | .running => .callService .testSighup
  | .shutdown => .callService .testTerminate
  -- the lines these write to the log
  | .clearSighup | .testSighup | .setTerminate => .loop
  -- a flag is read, an instance is freed
  | .testTerminate | .free | .left => .nobody

namespace Process

variable {α : Type*}

section Step

variable (codes : ErrorCodes) (settings : α → Application.ServiceClosure) (p : Process α)

def cause (c : Cause) : Process α := { p with causes := p.causes ++ [c] }

/-- The end of a handler that lets the loop go on to its test. -/
def setTerminate (next : Position) : Process α :=
  { p with loop := { p.loop with terminate := true }.goto next, stage := .loop }

def leave (e : Exception) : Process α :=
  { p with loop := p.loop.goto .left, stage := .handler e }

def terminate : Process α := { p with status := .terminated }

/-- An exception in the scope of the handler of the loop, which is for `std::exception`. -/
def throwInLoop (e : Exception) : Process α :=
  if e.isStd then { p with stage := .loopHandler } else p.leave e

def throws (e : Exception) : Option (Process α) :=
  match p.stage with
  | .loop =>
      match p.loop.position.catcher with
      | .loop => some (p.throwInLoop e)
      | .callService next =>
          some (if e.isStd then { p with stage := .serviceHandler next } else p.leave e)
      | .nobody => none
  | .serviceHandler _ => some (p.throwInLoop e)
  | .loopHandler | .behindLoop => some (p.leave e)
  | .handler _ => some p.terminate
  -- the last shutdown
  | .cleanup => if p.loop.constructed then some p.terminate else none

def moved (loop : State α) : Process α :=
  { p with loop := loop, stage := if loop.position = .left then .behindLoop else .loop }

def finish : Process α :=
  { p with
    loop := { p.loop.callService .shutdown with serviceClosure := none }
    status := .returned p.rt }

def main : Option (Process α) :=
  match p.stage with
  | .loop => (mainStep p.loop).map p.moved
  | .serviceHandler next => some ((p.setTerminate next).cause .service)
  | .loopHandler =>
      some ({ p.setTerminate .testTerminate with rt := codes.uncaughtException }.cause .caught)
  | .behindLoop => some { p with stage := .cleanup }
  | .handler e => some ({ p with stage := .cleanup, rt := e.code codes p.rt }.cause (.left e))
  | .cleanup => some p.finish

/-- The flag is set for the instance that is being set up, and cleared for it later. -/
def isEarly : Bool := p.loop.position.early && !p.loop.gotSighup

def sighup : Signalled → Option (Process α)
  | .returns =>
      let shut := { p with loop := MainLoop.sighup p.loop }
      some (if p.isEarly then shut.cause .sighup else shut)
  | .caught =>
      if p.loop.gotSighup = false ∧ p.loop.constructed = true then
        some ({ p with loop := { p.loop with gotSighup := true, terminate := true } }.cause .service)
      else none
  | .escapes =>
      if p.loop.gotSighup = false ∧ p.loop.constructed = true then some p.terminate else none

def serve (env : Environment) (haltedForMaintenance : Bool) (request : HttpRequest) : Process α :=
  let closure := { settings p.loop.config.others with haltedForMaintenance := haltedForMaintenance }
  if Operation.shutdown ∈ (Application.served closure env request).operations then
    { p with loop := execQuit p.loop }.cause (.quit request)
  else p

def step (a : Act) : Option (Process α) :=
  match p.status with
  | .running =>
      match a with
      | .main => p.main codes
      | .throws e => p.throws e
      | .sighup signalled => p.sighup signalled
      | .request env haltedForMaintenance request =>
          if p.loop.serving then some (p.serve settings env haltedForMaintenance request)
          else none
  | _ => none

end Step

def start (config : Configuration α) (port : Int) (servicename : String) : Process α :=
  { loop := initial config port servicename }

end Process

/-! ## Nothing has happened yet -/

/-- The assertion at each statement as long as nothing has happened that leaves the loop. -/
def Position.Calm (v : View) : Position → Prop
  | .testTerminate | .configure | .free | .create => v.terminate = false
  | .construct => v.terminate = false ∧ v.shutdownCalled = false ∧ v.constructed = false
  | .initRest | .mount | .clearSighup => v.terminate = false ∧ v.shutdownCalled = false
  | .run | .running => v.terminate = false ∧ (v.shutdownCalled = true → v.gotSighup = true)
  | .testSighup => v.terminate = false ∧ v.gotSighup = true
  | .setTerminate | .shutdown | .left => False

section Calm

variable {α : Type*} {s t : State α}

theorem calm_mainStep (calm : s.position.Calm s.view) (h : mainStep s = some t) :
    t.position.Calm t.view := by
  unfold mainStep at h
  cases hp : s.position
  all_goals rw [hp] at calm h
  all_goals simp only [Option.ite_none_right_eq_some, Option.some.injEq, reduceCtorEq] at h
  case testTerminate =>
    subst h
    have hterminate : s.terminate = false := calm
    rw [if_neg (by simp [hterminate])]
    exact hterminate
  case configure =>
    subst h
    rw [view_goto, view_configureName, view_configurePort]
    exact calm
  case free =>
    subst h
    exact calm
  case create =>
    subst h
    exact ⟨calm, rfl, rfl⟩
  case construct =>
    subst h
    rw [view_goto, view_emit, view_construct]
    exact ⟨calm.1, calm.2.1⟩
  case initRest =>
    subst h
    exact calm
  case mount =>
    subst h
    exact calm
  case clearSighup =>
    subst h
    rcases calm with ⟨hterminate, hshutdown⟩
    exact ⟨hterminate, fun h => absurd (hshutdown.symm.trans h) Bool.false_ne_true⟩
  case run =>
    subst h
    rw [view_goto, view_run]
    exact calm
  case running =>
    rcases h with ⟨hcalled, rfl⟩
    exact ⟨calm.1, calm.2 hcalled⟩
  case testSighup =>
    subst h
    have hgot : s.gotSighup = true := calm.2
    rw [if_pos hgot]
    exact calm.1
  case setTerminate => exact calm.elim
  case shutdown => exact calm.elim

/-- A SIGHUP that does not come early only leads to a reload. -/
theorem calm_sighup (calm : s.position.Calm s.view)
    (hearly : s.gotSighup = false → s.position.early = false) :
    (sighup s).position.Calm (sighup s).view := by
  rw [sighup_position]
  by_cases hgot : s.gotSighup = true
  · rwa [sighup_eq, if_pos hgot]
  · have hclear : s.gotSighup = false := by simpa using hgot
    have hnot := hearly hclear
    rw [view_sighup hclear]
    cases hp : s.position
    all_goals rw [hp] at calm hnot
    case testTerminate => exact calm
    case configure => exact calm
    case free => exact calm
    case create => exact calm
    case construct => exact ⟨calm.1, Bool.or_eq_false_iff.mpr calm.2, calm.2.2⟩
    case initRest => cases hnot
    case mount => cases hnot
    case clearSighup => cases hnot
    case run => exact ⟨calm.1, fun _ => rfl⟩
    case running => exact ⟨calm.1, fun _ => rfl⟩
    case testSighup => exact ⟨calm.1, rfl⟩
    case setTerminate => exact calm.elim
    case shutdown => exact calm.elim
    case left => exact calm.elim

theorem others_mainStep (h : mainStep s = some t) : t.config.others = s.config.others := by
  have hport : s.configurePort.config.others = s.config.others := by
    unfold State.configurePort
    split <;> rfl
  have hname : ∀ u : State α, u.configureName.config.others = u.config.others := by
    intro u
    unfold State.configureName
    split <;> rfl
  unfold mainStep at h
  cases hp : s.position
  all_goals rw [hp] at h
  all_goals simp only [Option.ite_none_right_eq_some, Option.some.injEq, reduceCtorEq] at h
  case configure =>
    subst h
    exact (hname _).trans hport
  case running =>
    rcases h with ⟨-, rfl⟩
    rfl
  all_goals
    subst h
    rfl

end Calm

/-! ## The code of `main` -/

section Codes

variable {codes : ErrorCodes} {causes : List Cause} {c : Cause} {e : Exception} {rt : Int}

theorem Exception.code_ne_zero (codes : ErrorCodes) (e : Exception) (rt : Int) :
    e.code codes rt ≠ 0 := by
  have hset : ∀ {code rt : Int}, code ≠ 0 → (if rt = 0 then code else rt) ≠ 0 := by
    intro code rt hcode
    split
    · exact hcode
    · assumption
  cases e with
  | badValueCast => exact hset codes.syntaxError_ne_zero
  | badAlloc => exact hset codes.outOfMem_ne_zero
  | runtimeError read => exact hset codes.runtimeError_ne_zero
  | other => exact hset codes.uncaughtException_ne_zero
  | unknown => exact hset codes.uncaughtException_ne_zero

theorem ErrorCodes.code_append (codes : ErrorCodes) (causes : List Cause) (c : Cause) :
    codes.code (causes ++ [c]) = c.code codes (codes.code causes) := List.foldl_append

theorem ErrorCodes.code_eq_zero_iff :
    codes.code causes = 0 ↔ ∀ c ∈ causes, c.isError = false := by
  induction causes using List.reverseRecOn with
  | nil => exact iff_of_true rfl (List.forall_mem_nil _)
  | append_singleton causes c ih =>
      rw [codes.code_append, List.forall_mem_append, List.forall_mem_singleton, ← ih]
      cases c with
      | quit request => exact (and_iff_left rfl).symm
      | sighup => exact (and_iff_left rfl).symm
      | service => exact (and_iff_left rfl).symm
      | caught =>
          exact iff_of_false codes.uncaughtException_ne_zero fun h => Bool.noConfusion h.2
      | left e => exact iff_of_false (e.code_ne_zero codes _) fun h => Bool.noConfusion h.2

end Codes

/-! ## What holds in every run -/

/-- A request that shuts the service down. -/
structure Admitted (closure : Application.ServiceClosure) (env : Environment)
    (request : HttpRequest) : Prop where
  dispatched : Application.dispatch closure env request = some .quit
  method : request.requestMethod = "GET"
  passes : Application.Passes closure request

/-- The actions have brought this about. -/
def Cause.Witnessed (closure : Application.ServiceClosure) (acts : List Act) : Cause → Prop
  | .quit request => ∃ env halted, Act.request env halted request ∈ acts ∧
      Admitted closure env request
  | .sighup => Act.sighup .returns ∈ acts
  | .service => (∃ e, Act.throws e ∈ acts) ∨ Act.sighup .caught ∈ acts
  | .caught => ∃ e, e.isStd = true ∧ Act.throws e ∈ acts
  | .left e => Act.throws e ∈ acts

/-- The exception that is being handled was thrown. -/
def Stage.Witnessed (acts : List Act) : Stage → Prop
  | .serviceHandler _ | .loopHandler => ∃ e, e.isStd = true ∧ Act.throws e ∈ acts
  | .handler e => Act.throws e ∈ acts
  | _ => True

/-- As long as nothing has happened the loop is not left, but by an exception. -/
def Stage.Calm {α : Type*} (loop : State α) : Stage → Prop
  | .loop | .serviceHandler _ | .loopHandler => loop.position.Calm loop.view
  | .handler _ => True
  | .behindLoop | .cleanup => False

theorem Cause.Witnessed.mono {closure : Application.ServiceClosure} {acts acts' : List Act}
    (hsub : acts ⊆ acts') {c : Cause} (h : c.Witnessed closure acts) :
    c.Witnessed closure acts' := by
  cases c with
  | quit request =>
      rcases h with ⟨env, halted, hact, hadmitted⟩
      exact ⟨env, halted, hsub hact, hadmitted⟩
  | sighup => exact hsub h
  | service =>
      rcases h with ⟨e, hact⟩ | hact
      · exact Or.inl ⟨e, hsub hact⟩
      · exact Or.inr (hsub hact)
  | caught =>
      rcases h with ⟨e, hstd, hact⟩
      exact ⟨e, hstd, hsub hact⟩
  | left e => exact hsub h

theorem Stage.Witnessed.mono {acts acts' : List Act} (hsub : acts ⊆ acts') {stage : Stage}
    (h : stage.Witnessed acts) : stage.Witnessed acts' := by
  cases stage with
  | serviceHandler next =>
      rcases h with ⟨e, hstd, hact⟩
      exact ⟨e, hstd, hsub hact⟩
  | loopHandler =>
      rcases h with ⟨e, hstd, hact⟩
      exact ⟨e, hstd, hsub hact⟩
  | handler e => exact hsub h
  | _ => trivial

namespace Process

variable {α : Type*} {codes : ErrorCodes} {settings : α → Application.ServiceClosure}
  {p q : Process α} {others : α} {acts acts' : List Act} {e : Exception}

/-- What the process says of itself. -/
structure Explained (codes : ErrorCodes) (settings : α → Application.ServiceClosure) (others : α)
    (acts : List Act) (p : Process α) : Prop where
  code : p.rt = codes.code p.causes
  calm : p.causes = [] → p.stage.Calm p.loop
  pending : p.stage.Witnessed acts
  witnessed : ∀ c ∈ p.causes, c.Witnessed (settings others) acts
  others : p.loop.config.others = others
  returned : ∀ code, p.status = .returned code →
    p.loop.serviceClosure = none ∧ code = p.rt ∧ p.causes ≠ []

theorem Explained.mono (explained : p.Explained codes settings others acts)
    (hsub : acts ⊆ acts') : p.Explained codes settings others acts' where
  code := explained.code
  calm := explained.calm
  pending := explained.pending.mono hsub
  witnessed c hc := (explained.witnessed c hc).mono hsub
  others := explained.others
  returned := explained.returned

/-- Where nothing is caused the loop has to stay calm. -/
theorem Explained.move (explained : p.Explained codes settings others acts) {loop : State α}
    {stage : Stage} (hcalm : p.stage.Calm p.loop → stage.Calm loop)
    (hpending : stage.Witnessed acts) (hothers : loop.config.others = p.loop.config.others)
    (hrunning : p.status = .running) :
    ({ p with loop := loop, stage := stage } : Process α).Explained codes settings others acts where
  code := explained.code
  calm h := hcalm (explained.calm h)
  pending := hpending
  witnessed := explained.witnessed
  others := hothers.trans explained.others
  returned _ h := absurd (hrunning.symm.trans h) Status.noConfusion

/-- A new cause comes with its code. -/
theorem Explained.cause (explained : p.Explained codes settings others acts) {c : Cause}
    (hcauses : q.causes = p.causes) (hrt : q.rt = c.code codes p.rt)
    (hpending : q.stage.Witnessed acts) (hwitnessed : c.Witnessed (settings others) acts)
    (hothers : q.loop.config.others = p.loop.config.others) (hrunning : q.status = .running) :
    (q.cause c).Explained codes settings others acts where
  code := by
    show q.rt = codes.code (q.causes ++ [c])
    rw [codes.code_append, hcauses, ← explained.code, hrt]
  calm h := absurd h (List.append_ne_nil_of_right_ne_nil _ (List.cons_ne_nil c []))
  pending := hpending
  witnessed d h := by
    rcases List.mem_append.mp h with h | h
    · rw [hcauses] at h
      exact explained.witnessed d h
    · rwa [List.mem_singleton.mp h]
  others := hothers.trans explained.others
  returned _ h := absurd (hrunning.symm.trans h) Status.noConfusion

theorem explained_terminate (explained : p.Explained codes settings others acts) :
    p.terminate.Explained codes settings others acts :=
  { explained with returned := fun _ => Status.noConfusion }

theorem explained_leave (explained : p.Explained codes settings others acts)
    (hrunning : p.status = .running) (hact : Act.throws e ∈ acts) :
    (p.leave e).Explained codes settings others acts :=
  explained.move (fun _ => trivial) hact rfl hrunning

theorem explained_throwInLoop (explained : p.Explained codes settings others acts)
    (hrunning : p.status = .running) (hact : Act.throws e ∈ acts)
    (hcalm : p.stage.Calm p.loop → p.loop.position.Calm p.loop.view) :
    (p.throwInLoop e).Explained codes settings others acts := by
  unfold throwInLoop
  split
  · rename_i hstd
    exact explained.move hcalm ⟨e, hstd, hact⟩ rfl hrunning
  · exact explained_leave explained hrunning hact

theorem explained_throws (explained : p.Explained codes settings others acts)
    (hrunning : p.status = .running) (hact : Act.throws e ∈ acts) (h : p.throws e = some q) :
    q.Explained codes settings others acts := by
  unfold throws at h
  cases hstage : p.stage
  all_goals rw [hstage] at h
  case loop =>
    have hcalm : p.stage.Calm p.loop → p.loop.position.Calm p.loop.view := by
      rw [hstage]
      exact id
    dsimp only at h
    split at h
    · cases h
      exact explained_throwInLoop explained hrunning hact hcalm
    · cases h
      split
      · rename_i hstd
        exact explained.move hcalm ⟨e, hstd, hact⟩ rfl hrunning
      · exact explained_leave explained hrunning hact
    · cases h
  case serviceHandler next =>
    cases h
    apply explained_throwInLoop explained hrunning hact
    rw [hstage]
    exact id
  case loopHandler =>
    cases h
    exact explained_leave explained hrunning hact
  case behindLoop =>
    cases h
    exact explained_leave explained hrunning hact
  case handler =>
    cases h
    exact explained_terminate explained
  case cleanup =>
    obtain ⟨-, hterminated⟩ := Option.ite_none_right_eq_some.mp h
    cases hterminated
    exact explained_terminate explained

theorem explained_moved (explained : p.Explained codes settings others acts)
    (hrunning : p.status = .running) (hstage : p.stage = .loop) {loop : State α}
    (h : mainStep p.loop = some loop) : (p.moved loop).Explained codes settings others acts := by
  have hothers := others_mainStep h
  have hcalm : p.stage.Calm p.loop → loop.position.Calm loop.view := by
    rw [hstage]
    exact fun calm => calm_mainStep calm h
  unfold moved
  split
  · rename_i hleft
    have hpending : Stage.behindLoop.Witnessed acts := trivial
    apply explained.move _ hpending hothers hrunning
    intro calm
    have hnot := hcalm calm
    rw [hleft] at hnot
    exact hnot
  · have hpending : Stage.loop.Witnessed acts := trivial
    exact explained.move hcalm hpending hothers hrunning

theorem explained_finish (explained : p.Explained codes settings others acts)
    (hstage : p.stage = .cleanup) : p.finish.Explained codes settings others acts := by
  have hcauses : p.causes ≠ [] := by
    intro h
    have hcalm := explained.calm h
    rw [hstage] at hcalm
    exact hcalm
  exact
    { code := explained.code
      calm := fun h => absurd h hcauses
      pending := explained.pending
      witnessed := explained.witnessed
      others := explained.others
      returned := by
        intro code h
        cases h
        exact ⟨rfl, rfl, hcauses⟩ }

/-- The handlers end with a cause; the other statements have none. -/
theorem explained_main (explained : p.Explained codes settings others acts)
    (hrunning : p.status = .running) (h : p.main codes = some q) :
    q.Explained codes settings others acts := by
  have hpending := explained.pending
  unfold main at h
  cases hstage : p.stage
  all_goals rw [hstage] at h hpending
  case loop =>
    obtain ⟨loop, hloop, rfl⟩ := Option.map_eq_some_iff.mp h
    exact explained_moved explained hrunning hstage hloop
  case serviceHandler next =>
    cases h
    rcases hpending with ⟨e, -, hact⟩
    have hwitnessed : Cause.service.Witnessed (settings others) acts := Or.inl ⟨e, hact⟩
    exact explained.cause rfl rfl trivial hwitnessed rfl hrunning
  case loopHandler =>
    cases h
    have hwitnessed : Cause.caught.Witnessed (settings others) acts := hpending
    exact explained.cause rfl rfl trivial hwitnessed rfl hrunning
  case behindLoop =>
    cases h
    have hpending : Stage.cleanup.Witnessed acts := trivial
    apply explained.move _ hpending rfl hrunning
    rw [hstage]
    exact id
  case handler e =>
    cases h
    have hwitnessed : (Cause.left e).Witnessed (settings others) acts := hpending
    exact explained.cause rfl rfl trivial hwitnessed rfl hrunning
  case cleanup =>
    cases h
    exact explained_finish explained hstage

theorem explained_sighup (explained : p.Explained codes settings others acts)
    (hrunning : p.status = .running) {signalled : Signalled}
    (hact : Act.sighup signalled ∈ acts) (h : p.sighup signalled = some q) :
    q.Explained codes settings others acts := by
  have hothers : (MainLoop.sighup p.loop).config.others = p.loop.config.others := by
    rw [sighup_eq]
    split <;> rfl
  cases signalled with
  | returns =>
      cases h
      by_cases hearly : p.isEarly = true
      · rw [if_pos hearly]
        have hwitnessed : Cause.sighup.Witnessed (settings others) acts := hact
        exact explained.cause rfl rfl explained.pending hwitnessed hothers hrunning
      · rw [if_neg hearly]
        apply explained.move _ explained.pending hothers hrunning
        have hshut : p.loop.position.Calm p.loop.view →
            (MainLoop.sighup p.loop).position.Calm (MainLoop.sighup p.loop).view := by
          intro calm
          apply calm_sighup calm
          intro hclear
          simpa [isEarly, hclear] using hearly
        cases p.stage with
        | loop => exact hshut
        | serviceHandler next => exact hshut
        | loopHandler => exact hshut
        | _ => exact id
  | caught =>
      obtain ⟨-, hcaught⟩ := Option.ite_none_right_eq_some.mp h
      cases hcaught
      have hwitnessed : Cause.service.Witnessed (settings others) acts := Or.inr hact
      exact explained.cause rfl rfl explained.pending hwitnessed rfl hrunning
  | escapes =>
      obtain ⟨-, hescapes⟩ := Option.ite_none_right_eq_some.mp h
      cases hescapes
      exact explained_terminate explained

theorem explained_serve (explained : p.Explained codes settings others acts)
    (hrunning : p.status = .running) {env : Environment} {halted : Bool} {request : HttpRequest}
    (hact : Act.request env halted request ∈ acts) :
    (p.serve settings env halted request).Explained codes settings others acts := by
  unfold serve
  dsimp only
  split
  · rename_i hmem
    obtain ⟨hdispatched, hpasses, hmethod⟩ := Application.shutdown_mem_served.mp hmem
    rw [explained.others] at hdispatched hpasses
    have hadmitted : Admitted (settings others) env request := ⟨hdispatched, hmethod, hpasses⟩
    have hwitnessed : (Cause.quit request).Witnessed (settings others) acts :=
      ⟨env, halted, hact, hadmitted⟩
    exact explained.cause rfl rfl explained.pending hwitnessed rfl hrunning
  · exact explained

theorem explained_step {a : Act} (before : p.Explained codes settings others acts)
    (h : p.step codes settings a = some q) :
    q.Explained codes settings others (acts ++ [a]) := by
  have explained := before.mono (List.subset_append_left acts [a])
  have hact : a ∈ acts ++ [a] := List.mem_append_right acts List.mem_cons_self
  unfold step at h
  split at h
  · rename_i hrunning
    cases a with
    | main => exact explained_main explained hrunning h
    | throws e => exact explained_throws explained hrunning hact h
    | sighup signalled => exact explained_sighup explained hrunning hact h
    | request env halted request =>
        obtain ⟨-, hserved⟩ := Option.ite_none_right_eq_some.mp h
        cases hserved
        exact explained_serve explained hrunning hact
  · cases h

theorem explained_start (config : Configuration α) (port : Int) (servicename : String) :
    (start config port servicename).Explained codes settings config.others [] where
  code := rfl
  calm _ := rfl
  pending := trivial
  witnessed _ h := absurd h List.not_mem_nil
  others := rfl
  returned _ := Status.noConfusion

/-- When `main` returns no instance is left, and there is a cause: a request that was admitted, a
SIGHUP that came early, or an exception. The code is what the exceptions of the loop and the
handlers of `main` make of it, and 0 if there was none of these. -/
theorem returned_of_run {config : Configuration α} {port : Int} {servicename : String}
    {code : Int}
    (h : StepSystem.run (step codes settings) (start config port servicename) acts = some p)
    (hreturned : p.status = .returned code) :
    p.loop.serviceClosure = none ∧ p.causes ≠ [] ∧ code = codes.code p.causes ∧
      (code = 0 ↔ ∀ c ∈ p.causes, c.isError = false) ∧
      ∀ c ∈ p.causes, c.Witnessed (settings config.others) acts := by
  have explained : p.Explained codes settings config.others ([] ++ acts) :=
    StepSystem.run_induction (Explained codes settings config.others)
      (fun _ _ _ _ before _ hstep => explained_step before hstep) []
      (explained_start config port servicename)
      (StepSystem.along_of_forall (fun _ _ => trivial) _) h
  obtain ⟨hnone, hrt, hcauses⟩ := explained.returned code hreturned
  have hcode : code = codes.code p.causes := hrt.trans explained.code
  refine ⟨hnone, hcauses, hcode, ?_, explained.witnessed⟩
  rw [hcode]
  exact ErrorCodes.code_eq_zero_iff

def sampleCodes : ErrorCodes where
  syntaxError := 1
  outOfMem := 12
  runtimeError := 2
  uncaughtException := 3
  syntaxError_ne_zero := by decide
  outOfMem_ne_zero := by decide
  runtimeError_ne_zero := by decide
  uncaughtException_ne_zero := by decide

/-- The service cannot listen on its port, so `run` throws; then there is no memory for the line
behind the loop. -/
def runThrows : List Act :=
  List.replicate 9 .main ++ [.throws (.runtimeError []), .main, .main, .main, .main,
    .throws .badAlloc, .main, .main]

theorem returned_runThrows : ∃ p : Process Unit,
    StepSystem.run (step sampleCodes fun _ => {}) (start ⟨none, none, ()⟩ 0 "") runThrows =
        some p ∧
      p.status = .returned 12 ∧ p.loop.serviceClosure = none ∧
      ∃ c ∈ p.causes, c.isError = true := by
  have hrun : ∃ p : Process Unit,
      StepSystem.run (step sampleCodes fun _ => {}) (start ⟨none, none, ()⟩ 0 "") runThrows =
          some p ∧ p.status = .returned 12 := ⟨_, rfl, rfl⟩
  obtain ⟨p, hp, hreturned⟩ := hrun
  obtain ⟨hnone, -, -, hzero, -⟩ := returned_of_run hp hreturned
  refine ⟨p, hp, hreturned, hnone, ?_⟩
  by_contra hnot
  have hcode : (12 : Int) = 0 := hzero.mpr fun c hc => by simpa using fun h => hnot ⟨c, hc, h⟩
  exact absurd hcode (by decide)

end Process

end StrusWebService.MainLoop
