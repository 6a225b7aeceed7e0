import StrusWebService.Library.StepSystem

/-! # The main loop

`main` runs one service instance after the other. Signals and requests act on it
from outside: a SIGHUP sets a flag and shuts the running instance down, a `/quit`
only shuts it down, and the code behind `run` tells the two apart by the flag. A
step of the main loop is one statement; the signal handler runs to its end
between two of them, and a `/quit` is executed by a thread of an instance that has
been run. Nothing throws.
-/

namespace StrusWebService.MainLoop

/-- The configuration; the loop only looks at the port and the service name. -/
structure Configuration (α : Type*) where
  servicePort : Option Int
  serviceName : Option String
  others : α

/-- A `ServiceClosure` with the parts that `run` and `shutdown` look at. -/
structure ServiceClosure where
  /-- `m_service` is not null. -/
  service : Bool := false
  /-- `shutdown` was called on `m_service`. -/
  shutdownCalled : Bool := false
  /-- `run` was called; its threads can execute requests. -/
  serving : Bool := false
  deriving DecidableEq, Repr

namespace ServiceClosure

def shutdown (c : ServiceClosure) : ServiceClosure :=
  if c.service then { c with shutdownCalled := true } else c

/-- `init` constructs `m_service`. -/
def construct (c : ServiceClosure) : ServiceClosure := { c with service := true }

def run (c : ServiceClosure) : ServiceClosure :=
  if c.service then { c with serving := true } else c

end ServiceClosure

/-- The statement the main loop executes next. -/
inductive Position where
  | testTerminate
  | configure
  | free
  | create
  | construct
  | initRest
  | mount
  | clearSighup
  | run
  | running
  | testSighup
  | setTerminate
  | shutdown
  | left
  deriving DecidableEq, Repr

inductive Event (α : Type*) where
  | create
  | init (config : Configuration α)
  | quit

structure State (α : Type*) where
  position : Position := .testTerminate
  terminate : Bool := false
  gotSighup : Bool := false
  serviceClosure : Option ServiceClosure := none
  config : Configuration α
  port : Int := 0
  servicename : String := ""
  trace : List (Event α) := []

inductive Action where
  | main
  | sighup
  | quit
  deriving DecidableEq, Repr

variable {α : Type*}

/-- `AtomicFlag::set` returns whether it changed the flag. -/
def setFlag (flag value : Bool) : Bool × Bool := (value, flag != value)

namespace State

variable (s : State α)

def goto (p : Position) : State α := { s with position := p }

def callService (method : ServiceClosure → ServiceClosure) : State α :=
  { s with serviceClosure := s.serviceClosure.map method }

def emit (e : Event α) : State α := { s with trace := s.trace ++ [e] }

/-- A port given on the command line wins over the configuration; otherwise the
configured one, or its default, is kept for the next turn. -/
def configurePort : State α :=
  if s.port ≠ 0 then { s with config := { s.config with servicePort := some s.port } }
  else { s with port := s.config.servicePort.getD 80 }

/-- The same for the name. -/
def configureName : State α :=
  if s.servicename ≠ "" then
    { s with config := { s.config with serviceName := some s.servicename } }
  else { s with servicename := s.config.serviceName.getD "strus" }

/-- `/quit` is executed by a thread of an instance that was run. -/
def serving : Bool := s.serviceClosure.any (·.serving)

def shutdownCalled : Bool := s.serviceClosure.any (·.shutdownCalled)

/-- The instance has a service that a shutdown would reach. -/
def constructed : Bool := s.serviceClosure.any (·.service)

end State

/-- The next statement of the main loop. -/
def mainStep (s : State α) : Option (State α) :=
  match s.position with
  | .testTerminate => some (s.goto (if s.terminate then .left else .configure))
  | .configure => some (s.configurePort.configureName.goto .free)
  | .free => some ({ s with serviceClosure := none }.goto .create)
  | .create => some (({ s with serviceClosure := some {} }.emit .create).goto .construct)
  | .construct => some (((s.callService .construct).emit (.init s.config)).goto .initRest)
  | .initRest => some (s.goto .mount)
  | .mount => some (s.goto .clearSighup)
  | .clearSighup => some ({ s with gotSighup := false }.goto .run)
  | .run => some ((s.callService .run).goto .running)
  -- `run` returns once `shutdown` was called on the service
  | .running => if s.shutdownCalled then some (s.goto .testSighup) else none
  | .testSighup => some (s.goto (if s.gotSighup then .testTerminate else .setTerminate))
  | .setTerminate =>
      let set := setFlag s.terminate true
      some ({ s with terminate := set.1 }.goto (if set.2 then .shutdown else .testTerminate))
  | .shutdown => some ((s.callService .shutdown).goto .testTerminate)
  | .left => none

/-- `signal_handler` for SIGHUP. -/
def sighup (s : State α) : State α :=
  let set := setFlag s.gotSighup true
  let s := { s with gotSighup := set.1 }
  if set.2 then s.callService .shutdown else s

/-- `ApplicationImpl::exec_quit`. -/
def execQuit (s : State α) : State α := (s.callService .shutdown).emit .quit

def step (s : State α) : Action → Option (State α)
  | .main => mainStep s
  | .sighup => some (sighup s)
  | .quit => if s.serving then some (execQuit s) else none

def initial (config : Configuration α) (port : Int) (servicename : String) : State α :=
  { config := config, port := port, servicename := servicename }

end StrusWebService.MainLoop
