import DistributedDisk.WaitableQueue.Fifo

/-! `Logger`: any number of threads that log and set the level, the logging thread, and
the destructor. Each access to an atomic or to the file, and each turn with the mutex
of the queue, is a step of its own. -/
namespace DistributedDisk
open Transition

namespace Logger

inductive MessageLevel where
  | none
  | error
  | warning
  | information
  | debug
  deriving DecidableEq

def MessageLevel.value : MessageLevel → Nat
  | .none => 0
  | .error => 1
  | .warning => 2
  | .information => 3
  | .debug => 4

inductive Thread (ι : Type) where
  | caller (i : ι)
  | logging
  | destructor
  deriving DecidableEq

/-- A thread that calls `Log`, between its load of the level and the `Push`. -/
inductive Caller where
  | idle
  | pushing (message : String)

inductive Point where
  | tests (holder : String)
  | writes (holder : String)
  | pops
  | returned

inductive Destructor where
  | stores
  | pushes
  | joins
  | returned
  deriving DecidableEq

inductive Event (ι : Type) where
  | setsLevel (level : MessageLevel)
  | logs (i : ι) (level current : MessageLevel) (message : String)
  | queue (thread : Thread ι) (e : WaitableQueue.Event String)
  | loads
  | writes
  | stores
  | joins

end Logger

/-- `logFd` has a line for each `holder` that was written with `std::endl`. -/
structure Logger (ι : Type) where
  messageQ : WaitableQueue (Logger.Thread ι) (List String)
  currentLevel : Logger.MessageLevel
  stopFlag : Bool
  logFd : List String
  callers : ι → Logger.Caller
  thread : Logger.Point
  destructor : Logger.Destructor

namespace Logger
variable {ι : Type} [DecidableEq ι]

/-- The thread is started by the constructor, with an empty `holder`. -/
def new : Logger ι where
  messageQ := WaitableQueue.start (stdQueue String)
  currentLevel := .debug
  stopFlag := false
  logFd := []
  callers := fun _ => .idle
  thread := .tests ""
  destructor := .stores

def logs (level current : MessageLevel) (message : String) : Caller :=
  if level.value ≤ current.value then .pushing message else .idle

/-- One step of one thread. -/
inductive Step (s : Logger ι) : Event ι → Logger ι → Prop where
  | setsLevel (level : MessageLevel) :
      Step s (.setsLevel level) { s with currentLevel := level }
  | logs (i : ι) (level : MessageLevel) (message : String) : s.callers i = .idle →
      Step s (.logs i level s.currentLevel message)
        { s with
          callers := Function.update s.callers i (Logger.logs level s.currentLevel message) }
  | pushes : s.callers i = .pushing message →
      WaitableQueue.Step (stdQueue String) s.messageQ (.caller i, .pushes message) q →
      Step s (.queue (.caller i) (.pushes message))
        { s with messageQ := q, callers := Function.update s.callers i .idle }
  | loads : s.thread = .tests holder →
      Step s .loads { s with thread := if s.stopFlag then .returned else .writes holder }
  | writes : s.thread = .writes holder →
      Step s .writes { s with logFd := s.logFd ++ [holder], thread := .pops }
  | waits : s.thread = .pops →
      WaitableQueue.Step (stdQueue String) s.messageQ (.logging, .waits) q →
      q.threads .logging = .blocked none →
      Step s (.queue .logging .waits) { s with messageQ := q }
  | wakes : WaitableQueue.Step (stdQueue String) s.messageQ (.logging, .wakes) q →
      Step s (.queue .logging .wakes) { s with messageQ := q }
  | takes : s.thread = .pops →
      WaitableQueue.Step (stdQueue String) s.messageQ (.logging, .takes message) q →
      Step s (.queue .logging (.takes message)) { s with messageQ := q, thread := .tests message }
  | stores : s.destructor = .stores →
      Step s .stores { s with stopFlag := true, destructor := .pushes }
  | pushesStop : s.destructor = .pushes →
      WaitableQueue.Step (stdQueue String) s.messageQ (.destructor, .pushes "stop") q →
      Step s (.queue .destructor (.pushes "stop"))
        { s with messageQ := q, destructor := .joins }
  | joins : s.destructor = .joins → s.thread = .returned →
      Step s .joins { s with destructor := .returned }

end Logger
end DistributedDisk
