import StrusWebService.MainLoop.Loop

/-! # Reloading the configuration

A SIGHUP is meant to bring a changed configuration file into effect. `main` reads
the file once, before the loop, and fills in what is not defined; the loop only
writes the port and the name back into the configuration it was entered with. The
file is written by the environment, between any two statements.
-/

namespace StrusWebService.MainLoop

/-- The parts of the configuration that `main` looks at besides port and name. -/
structure Settings (ρ : Type*) where
  /-- `context.rpc` is defined. -/
  contextRpc : Bool
  contextThreads : Option Int
  workerThreads : Option Int
  applicationsPoolSize : Option Int
  loggingLevel : Option String
  rest : ρ
  deriving DecidableEq

deriving instance DecidableEq for Configuration

/-- A port 0, an empty name and a verbosity 0 are not given. -/
structure CommandLine where
  port : Int := 0
  name : String := ""
  verbosity : Nat := 0

variable {φ ρ : Type*}

/-- The number of threads to use, if not explicitly defined. -/
def Settings.evaluateThreads (nofCores : Int) (c : Settings ρ) : Settings ρ :=
  let nofCores := if nofCores ≤ 0 then 4 else nofCores
  let nofThreads := c.workerThreads.getD nofCores
  if c.contextRpc then c
  else
    { c with
      contextThreads := some nofThreads
      workerThreads := some nofThreads
      applicationsPoolSize := some (c.applicationsPoolSize.getD nofThreads) }

namespace CommandLine

variable (cmd : CommandLine)

/-- The logging level is overwritten with the verbosity of the command line. -/
def overrideLevel (c : Settings ρ) : Settings ρ :=
  if cmd.verbosity ≠ 0 then { c with loggingLevel := some "debug" } else c

/-- A configuration with only the values of the command line overriding it. -/
def override (c : Configuration (Settings ρ)) : Configuration (Settings ρ) where
  servicePort := if cmd.port ≠ 0 then some cmd.port else c.servicePort
  serviceName := if cmd.name ≠ "" then some cmd.name else c.serviceName
  others := cmd.overrideLevel c.others

/-- The configuration the loop is entered with. -/
def evaluate (nofCores : Int) (c : Configuration (Settings ρ)) : Configuration (Settings ρ) :=
  { c with others := cmd.overrideLevel (c.others.evaluateThreads nofCores) }

/-- Nothing is left to fill in: port and name are defined on the command line or in
the file, and so are the numbers of threads. -/
structure Settled (nofCores : Int) (c : Configuration (Settings ρ)) : Prop where
  port : cmd.port ≠ 0 ∨ c.servicePort.isSome
  name : cmd.name ≠ "" ∨ c.serviceName.isSome
  threads : c.others.evaluateThreads nofCores = c.others

end CommandLine

/-- The process and the configuration file. -/
structure Host (φ ρ : Type*) where
  loop : State (Settings ρ)
  file : φ
  /-- The contents of the file since the last SIGHUP that set the flag. -/
  since : List φ
  /-- The contents of the file since the SIGHUP that causes the next creation; for
  the first instance since the start of the program. -/
  readable : List φ
  /-- The configuration of each instance and the contents it could be read from. -/
  inits : List (Configuration (Settings ρ) × List φ) := []

inductive Occurrence (φ : Type*) where
  | loop (a : Action)
  | write (content : φ)

namespace Host

variable (h : Host φ ρ)

/-- What a step of the loop does to the records about the file. -/
def observe : Action → Host φ ρ
  | .main =>
      match h.loop.position with
      | .testSighup => if h.loop.gotSighup then { h with readable := h.since } else h
      | .construct => { h with inits := h.inits ++ [(h.loop.config, h.readable)] }
      | _ => h
  | .sighup => if h.loop.gotSighup then h else { h with since := [h.file] }
  | .quit => h

def step : Occurrence φ → Option (Host φ ρ)
  | .loop a => (MainLoop.step h.loop a).map fun loop => { h.observe a with loop := loop }
  | .write content =>
      some { h with
        file := content
        since := h.since ++ [content]
        readable := h.readable ++ [content] }

end Host

/-- `main` up to the loop. -/
def enterLoop (configFromFile : φ → Option (Configuration (Settings ρ))) (nofCores : Int)
    (cmd : CommandLine) (file : φ) : Option (Host φ ρ) :=
  (configFromFile file).map fun config =>
    { loop := initial (cmd.evaluate nofCores config) cmd.port cmd.name
      file := file
      since := [file]
      readable := [file] }

/-- Each instance is initialised with the configuration read at or after the SIGHUP
that caused its creation, overridden by the command line. -/
def Current (configFromFile : φ → Option (Configuration (Settings ρ))) (cmd : CommandLine)
    (h : Host φ ρ) : Prop :=
  ∀ i ∈ h.inits, ∃ content ∈ i.2, (configFromFile content).map cmd.override = some i.1

/-- When an instance is initialised, the file reads as it did at the start of the
program, or has done so at some time since the SIGHUP. -/
def ReadsAsAtStart (configFromFile : φ → Option (Configuration (Settings ρ)))
    (cmd : CommandLine) (start : φ) (h : Host φ ρ) : Occurrence φ → Prop
  | .loop .main => h.loop.position = .construct → ∃ content ∈ h.readable,
      (configFromFile content).map cmd.override = (configFromFile start).map cmd.override
  | _ => True

instance [DecidableEq ρ] (configFromFile : φ → Option (Configuration (Settings ρ)))
    (cmd : CommandLine) (start : φ) (h : Host φ ρ) (o : Occurrence φ) :
    Decidable (ReadsAsAtStart configFromFile cmd start h o) :=
  match o with
  | .loop .main => inferInstanceAs (Decidable (_ → ∃ content ∈ h.readable, _))
  | .loop .sighup => isTrue trivial
  | .loop .quit => isTrue trivial
  | .write _ => isTrue trivial

/-! ## The configuration of the loop -/

section Loop

variable {α : Type*} {s t : State α} {target : Configuration α} {a : Action}

def Event.init? : Event α → Option (Configuration α)
  | .init config => some config
  | _ => none

def State.configs (s : State α) : List (Configuration α) := s.trace.filterMap Event.init?

def Position.configured : Position → Bool
  | .free | .create | .construct => true
  | _ => false

/-- The configuration of the loop is `target`, at the latest when it is used. -/
structure State.Keeps (target : Configuration α) (s : State α) : Prop where
  port : s.port ≠ 0 → target.servicePort = some s.port
  noPort : s.port = 0 →
    s.config.servicePort = target.servicePort ∧ target.servicePort.isSome
  name : s.servicename ≠ "" → target.serviceName = some s.servicename
  noName : s.servicename = "" →
    s.config.serviceName = target.serviceName ∧ target.serviceName.isSome
  others : s.config.others = target.others
  used : s.position.configured = true → s.config = target

theorem captured_mainStep (hp : s.position ≠ .configure) (h : mainStep s = some t) :
    t.config = s.config ∧ t.port = s.port ∧ t.servicename = s.servicename := by
  unfold mainStep at h
  cases hpos : s.position
  all_goals rw [hpos] at h hp
  all_goals simp only [Option.ite_none_right_eq_some, Option.some.injEq, reduceCtorEq] at h
  case configure => exact absurd rfl hp
  case running =>
    rcases h with ⟨-, rfl⟩
    exact ⟨rfl, rfl, rfl⟩
  all_goals
    subst h
    exact ⟨rfl, rfl, rfl⟩

/-- The positions at which the configuration is used follow on `configure`. -/
theorem configured_mainStep (hp : s.position ≠ .configure) (h : mainStep s = some t)
    (hused : t.position.configured = true) : s.position.configured = true := by
  unfold mainStep at h
  cases hpos : s.position
  all_goals rw [hpos] at h hp
  all_goals simp only [Option.ite_none_right_eq_some, Option.some.injEq, reduceCtorEq] at h
  case configure => exact absurd rfl hp
  case running =>
    rcases h with ⟨-, rfl⟩
    cases hused
  case testTerminate =>
    subst h
    cases hterminate : s.terminate with
    | false => simp [hterminate, State.goto, Position.configured] at hused
    | true => simp [hterminate, State.goto, Position.configured] at hused
  case testSighup =>
    subst h
    cases hgot : s.gotSighup with
    | false => simp [hgot, State.goto, Position.configured] at hused
    | true => simp [hgot, State.goto, Position.configured] at hused
  case setTerminate =>
    subst h
    cases hterminate : s.terminate with
    | false => simp [setFlag, hterminate, State.goto, Position.configured] at hused
    | true => simp [setFlag, hterminate, State.goto, Position.configured] at hused
  all_goals
    subst h
    first
    | rfl
    | cases hused

theorem configurePort_servicePort (keeps : s.Keeps target) :
    s.configurePort.config.servicePort = target.servicePort := by
  unfold State.configurePort
  by_cases hport : s.port ≠ 0
  · rw [if_pos hport]
    exact (keeps.port hport).symm
  · rw [if_neg hport]
    exact (keeps.noPort (not_not.mp hport)).1

theorem keeps_configurePort (keeps : s.Keeps target) (hp : s.position.configured = false) :
    s.configurePort.Keeps target := by
  have hservice := configurePort_servicePort keeps
  unfold State.configurePort at hservice ⊢
  by_cases hport : s.port ≠ 0
  · rw [if_pos hport] at hservice ⊢
    exact ⟨keeps.port, fun h => absurd h hport, keeps.name, keeps.noName, keeps.others,
      fun h => absurd (hp.symm.trans h) (by simp)⟩
  · rw [if_neg hport] at hservice ⊢
    obtain ⟨heq, hsome⟩ := keeps.noPort (not_not.mp hport)
    refine ⟨fun _ => ?_, fun _ => ⟨heq, hsome⟩, keeps.name, keeps.noName, keeps.others,
      fun h => absurd (hp.symm.trans h) (by simp)⟩
    show target.servicePort = some (s.config.servicePort.getD 80)
    rw [heq, ← Option.get_eq_getD (h := hsome), Option.some_get]

theorem configureName_serviceName (keeps : s.Keeps target) :
    s.configureName.config.serviceName = target.serviceName := by
  unfold State.configureName
  by_cases hname : s.servicename ≠ ""
  · rw [if_pos hname]
    exact (keeps.name hname).symm
  · rw [if_neg hname]
    exact (keeps.noName (not_not.mp hname)).1

theorem keeps_configureName (keeps : s.Keeps target) (hp : s.position.configured = false) :
    s.configureName.Keeps target := by
  have hservice := configureName_serviceName keeps
  unfold State.configureName at hservice ⊢
  by_cases hname : s.servicename ≠ ""
  · rw [if_pos hname] at hservice ⊢
    exact ⟨keeps.port, keeps.noPort, keeps.name, fun h => absurd h hname, keeps.others,
      fun h => absurd (hp.symm.trans h) (by simp)⟩
  · rw [if_neg hname] at hservice ⊢
    obtain ⟨heq, hsome⟩ := keeps.noName (not_not.mp hname)
    refine ⟨keeps.port, keeps.noPort, fun _ => ?_, fun _ => ⟨heq, hsome⟩, keeps.others,
      fun h => absurd (hp.symm.trans h) (by simp)⟩
    show target.serviceName = some (s.config.serviceName.getD "strus")
    rw [heq, ← Option.get_eq_getD (h := hsome), Option.some_get]

theorem configureName_servicePort :
    s.configureName.config.servicePort = s.config.servicePort := by
  unfold State.configureName
  split <;> rfl

theorem configurePort_position : s.configurePort.position = s.position := by
  unfold State.configurePort
  split <;> rfl

/-- The turn of the loop ends up with the configuration it had at the start. -/
theorem keeps_configure (keeps : s.Keeps target) (hp : s.position = .configure) :
    (s.configurePort.configureName.goto .free).Keeps target := by
  have hfirst := keeps_configurePort keeps (by rw [hp]; rfl)
  have hposition : s.configurePort.position.configured = false := by
    rw [configurePort_position, hp]
    rfl
  have hboth := keeps_configureName hfirst hposition
  refine ⟨hboth.port, hboth.noPort, hboth.name, hboth.noName, hboth.others, fun _ => ?_⟩
  have hport : s.configurePort.configureName.config.servicePort = target.servicePort := by
    rw [configureName_servicePort, configurePort_servicePort keeps]
  have hname := configureName_serviceName hfirst
  have hothers := hboth.others
  show s.configurePort.configureName.config = target
  cases hconfig : s.configurePort.configureName.config with
  | mk servicePort serviceName others =>
      rw [hconfig] at hport hname hothers
      cases target
      cases hport
      cases hname
      cases hothers
      rfl

theorem State.Keeps.transfer (keeps : s.Keeps target) (hconfig : t.config = s.config)
    (hport : t.port = s.port) (hname : t.servicename = s.servicename)
    (hused : t.position.configured = true → s.position.configured = true) : t.Keeps target := by
  constructor
  · rw [hport]
    exact keeps.port
  · rw [hport, hconfig]
    exact keeps.noPort
  · rw [hname]
    exact keeps.name
  · rw [hname, hconfig]
    exact keeps.noName
  · rw [hconfig]
    exact keeps.others
  · intro hnow
    rw [hconfig]
    exact keeps.used (hused hnow)

theorem sighup_same : (sighup s).config = s.config ∧ (sighup s).port = s.port ∧
    (sighup s).servicename = s.servicename ∧ (sighup s).position = s.position ∧
    (sighup s).trace = s.trace := by
  unfold sighup
  dsimp only
  split <;> exact ⟨rfl, rfl, rfl, rfl, rfl⟩

theorem keeps_step (keeps : s.Keeps target) (h : step s a = some t) : t.Keeps target := by
  cases a with
  | main =>
      by_cases hp : s.position = .configure
      · simp only [step, mainStep, hp, Option.some.injEq] at h
        subst h
        exact keeps_configure keeps hp
      · obtain ⟨hconfig, hport, hname⟩ := captured_mainStep hp h
        exact keeps.transfer hconfig hport hname (configured_mainStep hp h)
  | sighup =>
      obtain rfl : sighup s = t := Option.some.inj h
      obtain ⟨hconfig, hport, hname, hposition, -⟩ := sighup_same (s := s)
      exact keeps.transfer hconfig hport hname (fun hnow => hposition ▸ hnow)
  | quit =>
      simp only [step, Option.ite_none_right_eq_some, Option.some.injEq] at h
      rcases h with ⟨-, rfl⟩
      exact keeps.transfer rfl rfl rfl id

theorem configs_emit (e : Event α) : (s.emit e).configs = s.configs ++ (Event.init? e).toList := by
  unfold State.configs State.emit
  rw [List.filterMap_append]
  cases e <;> rfl

theorem configs_mainStep (h : mainStep s = some t) : t.configs =
    if s.position = .construct then s.configs ++ [s.config] else s.configs := by
  unfold mainStep at h
  cases hpos : s.position
  all_goals rw [hpos] at h
  all_goals simp only [Option.ite_none_right_eq_some, Option.some.injEq, reduceCtorEq] at h
  case configure =>
    subst h
    have htrace : (s.configurePort.configureName.goto .free).trace = s.trace := by
      unfold State.configureName State.configurePort
      split <;> split <;> rfl
    exact congrArg (List.filterMap Event.init?) htrace
  case create =>
    subst h
    exact (configs_emit .create).trans (List.append_nil _)
  case construct =>
    subst h
    exact configs_emit (.init s.config)
  case running =>
    rcases h with ⟨-, rfl⟩
    rfl
  all_goals
    subst h
    rfl

end Loop

/-! ## The configurations of the instances -/

section Host

variable {configFromFile : φ → Option (Configuration (Settings ρ))} {cmd : CommandLine}
  {h h' : Host φ ρ} {start : φ} {target : Configuration (Settings ρ)} {o : Occurrence φ}

/-- The records agree with the trace of the loop. -/
structure Host.Recorded (target : Configuration (Settings ρ)) (h : Host φ ρ) : Prop where
  configs : h.inits.map Prod.fst = h.loop.configs
  keeps : h.loop.Keeps target

theorem observe_main_inits : (h.observe .main).inits =
    if h.loop.position = .construct then h.inits ++ [(h.loop.config, h.readable)]
    else h.inits := by
  unfold Host.observe
  cases h.loop.position
  case construct => rfl
  case testSighup =>
    dsimp only
    split <;> rfl
  all_goals rfl

theorem observe_other_inits {a : Action} (ha : a ≠ .main) : (h.observe a).inits = h.inits := by
  cases a with
  | main => exact absurd rfl ha
  | sighup =>
      unfold Host.observe
      dsimp only
      split <;> rfl
  | quit => rfl

theorem configs_other {s t : State (Settings ρ)} {a : Action} (ha : a ≠ .main)
    (hs : step s a = some t) : t.configs = s.configs := by
  cases a with
  | main => exact absurd rfl ha
  | sighup =>
      obtain rfl : sighup s = t := Option.some.inj hs
      exact congrArg (List.filterMap Event.init?) sighup_same.2.2.2.2
  | quit =>
      simp only [step, Option.ite_none_right_eq_some, Option.some.injEq] at hs
      rcases hs with ⟨-, rfl⟩
      exact (configs_emit .quit).trans (List.append_nil _)

theorem recorded_step (recorded : h.Recorded target) (hs : h.step o = some h') :
    h'.Recorded target := by
  cases o with
  | write content =>
      obtain rfl := Option.some.inj hs
      exact ⟨recorded.configs, recorded.keeps⟩
  | loop a =>
      obtain ⟨t, ht, rfl⟩ := Option.map_eq_some_iff.mp hs
      refine ⟨?_, keeps_step recorded.keeps ht⟩
      show (h.observe a).inits.map Prod.fst = t.configs
      by_cases ha : a = .main
      · subst ha
        rw [observe_main_inits, configs_mainStep ht, ← recorded.configs]
        split
        · exact List.map_append
        · rfl
      · rw [observe_other_inits ha, configs_other ha ht, recorded.configs]

/-- A step keeps the instances current, unless it initialises one from a
configuration that the file does not hold any more. -/
theorem current_step (recorded : h.Recorded target)
    (htarget : (configFromFile start).map cmd.override = some target) (hs : h.step o = some h') :
    Current configFromFile cmd h' ↔
      Current configFromFile cmd h ∧ ReadsAsAtStart configFromFile cmd start h o := by
  cases o with
  | write content =>
      obtain rfl := Option.some.inj hs
      exact (and_iff_left trivial).symm
  | loop a =>
      obtain ⟨t, ht, rfl⟩ := Option.map_eq_some_iff.mp hs
      show (∀ i ∈ (h.observe a).inits, _) ↔ _
      by_cases ha : a = .main
      · subst ha
        rw [observe_main_inits]
        by_cases hp : h.loop.position = .construct
        · have hconfig : h.loop.config = target := recorded.keeps.used (by rw [hp]; rfl)
          rw [if_pos hp, List.forall_mem_append, List.forall_mem_singleton]
          apply and_congr_right'
          show _ ↔ (h.loop.position = .construct → _)
          rw [forall_prop_of_true hp, htarget, hconfig]
        · rw [if_neg hp]
          exact (and_iff_left fun h => absurd h hp).symm
      · rw [observe_other_inits ha]
        apply (and_iff_left _).symm
        cases a with
        | main => exact absurd rfl ha
        | sighup => trivial
        | quit => trivial

theorem current_run {acts : List (Occurrence φ)} (recorded : h.Recorded target)
    (htarget : (configFromFile start).map cmd.override = some target)
    (hrun : StepSystem.run Host.step h acts = some h') :
    Current configFromFile cmd h' ↔ Current configFromFile cmd h ∧
      StepSystem.Along Host.step (ReadsAsAtStart configFromFile cmd start) h acts := by
  induction acts generalizing h with
  | nil =>
      cases hrun
      exact (and_iff_left trivial).symm
  | cons o acts ih =>
      obtain ⟨v, hv, hrest⟩ := StepSystem.run_cons.mp hrun
      rw [ih (recorded_step recorded hv) hrest, current_step recorded htarget hv,
        StepSystem.along_cons_of_step hv, and_assoc]

/-- The loop is entered with the configuration it keeps. -/
theorem recorded_enterLoop {nofCores : Int} {config : Configuration (Settings ρ)}
    (hread : configFromFile start = some config) (settled : cmd.Settled nofCores config)
    (henter : enterLoop configFromFile nofCores cmd start = some h) :
    h.Recorded (cmd.override config) := by
  unfold enterLoop at henter
  rw [hread, Option.map_some, Option.some.injEq] at henter
  subst henter
  refine ⟨rfl, ?_, ?_, ?_, ?_, ?_, fun hused => by cases hused⟩
  · intro hport
    exact if_pos hport
  · intro hport
    have hnone : ¬cmd.port ≠ 0 := not_not.mpr hport
    show config.servicePort = (cmd.override config).servicePort ∧ _
    rw [show (cmd.override config).servicePort = config.servicePort from if_neg hnone]
    exact ⟨rfl, settled.port.resolve_left hnone⟩
  · intro hname
    exact if_pos hname
  · intro hname
    have hnone : ¬cmd.name ≠ "" := not_not.mpr hname
    show config.serviceName = (cmd.override config).serviceName ∧ _
    rw [show (cmd.override config).serviceName = config.serviceName from if_neg hnone]
    exact ⟨rfl, settled.name.resolve_left hnone⟩
  · show cmd.overrideLevel (config.others.evaluateThreads nofCores) = cmd.overrideLevel config.others
    rw [settled.threads]

/-- Where nothing is left to fill in, exactly those runs reload the configuration in
which the file reads as at the start whenever an instance is initialised. -/
theorem current_iff_readsAsAtStart (configFromFile : φ → Option (Configuration (Settings ρ)))
    (nofCores : Int) (cmd : CommandLine) (file : φ) (config : Configuration (Settings ρ))
    (hread : configFromFile file = some config) (settled : cmd.Settled nofCores config)
    (entered h : Host φ ρ) (henter : enterLoop configFromFile nofCores cmd file = some entered)
    (acts : List (Occurrence φ)) (hrun : StepSystem.run Host.step entered acts = some h) :
    Current configFromFile cmd h ↔
      StepSystem.Along Host.step (ReadsAsAtStart configFromFile cmd file) entered acts := by
  have recorded := recorded_enterLoop hread settled henter
  have htarget : (configFromFile file).map cmd.override = some (cmd.override config) := by
    rw [hread]
    rfl
  rw [current_run recorded htarget hrun]
  apply and_iff_right
  have hinits : entered.inits = [] := by
    obtain ⟨c, -, rfl⟩ := Option.map_eq_some_iff.mp henter
    rfl
  intro i hi
  rw [hinits] at hi
  cases hi

end Host

/-- A file that sets everything; the files are the configurations they hold. -/
def shippedConfig : Configuration (Settings Unit) where
  servicePort := some 80
  serviceName := some "strus"
  others :=
    { contextRpc := true
      contextThreads := some 4
      workerThreads := some 4
      applicationsPoolSize := some 4
      loggingLevel := none
      rest := () }

/-- The port is changed in the file and changed back, then it is reloaded. -/
def portRestored : List (Occurrence (Configuration (Settings Unit))) :=
  List.replicate 9 (.loop .main) ++
    [.write { shippedConfig with servicePort := some 8080 }, .write shippedConfig, .loop .sighup] ++
    List.replicate 7 (.loop .main)

theorem current_portRestored : ∃ entered h, enterLoop some 4 {} shippedConfig = some entered ∧
    StepSystem.run Host.step entered portRestored = some h ∧ h.inits.length = 2 ∧
    Current some {} h := by
  refine ⟨_, _, rfl, rfl, rfl, ?_⟩
  apply (current_iff_readsAsAtStart some 4 {} shippedConfig shippedConfig rfl
    ⟨.inr rfl, .inr rfl, rfl⟩ _ _ rfl portRestored rfl).mpr
  decide

/-- The port is changed in the file while the first instance runs, then it is reloaded. -/
def portChanged : List (Occurrence (Configuration (Settings Unit))) :=
  List.replicate 9 (.loop .main) ++
    [.write { shippedConfig with servicePort := some 8080 }, .loop .sighup] ++
    List.replicate 7 (.loop .main)

theorem current_fails : ∃ entered h, enterLoop some 4 {} shippedConfig = some entered ∧
    StepSystem.run Host.step entered portChanged = some h ∧ ¬Current some {} h := by
  refine ⟨_, _, rfl, rfl, ?_⟩
  unfold Current
  decide

end StrusWebService.MainLoop
