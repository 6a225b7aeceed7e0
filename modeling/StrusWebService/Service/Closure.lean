import Mathlib.Data.List.Basic

/-! # Shared data of the service closure

The part of `ServiceClosure` that worker threads share to give maintenance
requests exclusive access: the atomic flag, the atomic counter of running
requests, the mutex and the list of waiting requests. A request is named by the
number of its `startRunRequest`. The remaining members (configuration, logger,
event loop, request handler) take no part in the protocol.
-/

namespace StrusWebService.Service

/-- A request, numbered in the order of `startRunRequest`. -/
abbrev Request := Nat

structure ServiceClosure (Tid : Type*) where
  waitForExclusiveAccess : Bool := false
  runningRequestCounter : Int := 0
  mutexWaitingContextList : Option Tid := none
  waitingContextList : List Request := []
  deriving DecidableEq, Repr

namespace ServiceClosure

variable {Tid : Type*}

def haltedForMaintenance (c : ServiceClosure Tid) : Bool := c.waitForExclusiveAccess

def startRunRequest (c : ServiceClosure Tid) : ServiceClosure Tid :=
  { c with runningRequestCounter := c.runningRequestCounter + 1 }

/-- `allocDecrement` returns the value before the decrement. -/
def doneRunRequest (c : ServiceClosure Tid) : ServiceClosure Tid × Bool :=
  let before := c.runningRequestCounter
  ({ c with runningRequestCounter := before - 1 }, 0 == before - 1)

/-- The constructor of `strus::unique_lock`; it blocks while the mutex is held. -/
def lock (c : ServiceClosure Tid) (t : Tid) : Option (ServiceClosure Tid) :=
  match c.mutexWaitingContextList with
  | none => some { c with mutexWaitingContextList := some t }
  | some _ => none

/-- The destructor of `strus::unique_lock`, run when its scope is left. -/
def unlock (c : ServiceClosure Tid) : ServiceClosure Tid :=
  { c with mutexWaitingContextList := none }

def setWaitForExclusiveAccess (c : ServiceClosure Tid) (value : Bool) : ServiceClosure Tid :=
  { c with waitForExclusiveAccess := value }

def pushBack (c : ServiceClosure Tid) (r : Request) : ServiceClosure Tid :=
  { c with waitingContextList := c.waitingContextList ++ [r] }

def clear (c : ServiceClosure Tid) : ServiceClosure Tid :=
  { c with waitingContextList := [] }

theorem doneRunRequest_zero {c : ServiceClosure Tid} :
    c.doneRunRequest.2 = true ↔ c.runningRequestCounter = 1 := by
  simp only [doneRunRequest, beq_iff_eq]
  omega

theorem lock_eq_some {c c' : ServiceClosure Tid} {t : Tid} :
    c.lock t = some c' ↔
      c.mutexWaitingContextList = none ∧ c' = { c with mutexWaitingContextList := some t } := by
  unfold lock
  cases c.mutexWaitingContextList with
  | none => simp [eq_comm]
  | some holder => simp

end ServiceClosure

end StrusWebService.Service
