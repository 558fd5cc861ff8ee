import DistributedDisk.Core.Transition

/-! `Reactor`: the handlers, the stop flag, and the thread that is in `Run`. Each access
to the map or the flag is a step of its own; a handler is one step here. -/
namespace DistributedDisk

namespace Reactor

inductive ModeType where
  | read
  | write
  | exception
  deriving DecidableEq

structure FdAndMode where
  fd : Int32
  mode : ModeType
  deriving DecidableEq

/-- What the thread does next. `Do` looks at the map before and after `select`. -/
inductive Point (H : Type) where
  | run
  | loop
  | setArgs
  | select (sets : FdAndMode → Bool)
  | invoke (ready : List FdAndMode)
  | find (pair : FdAndMode) (rest : List FdAndMode)
  | call (handler : H) (rest : List FdAndMode)
  | returned
  | aborted

inductive Event (H : Type) where
  | stores
  | tests
  | setsArgs
  | selects (ready : List FdAndMode)
  | fails
  | invokes
  | finds
  | calls (handler : H)

end Reactor

structure Reactor (H : Type) where
  map : Reactor.FdAndMode → Option H
  stopFlag : Bool
  thread : Reactor.Point H

namespace Reactor
variable {H : Type}

/-- The constructor sets the flag; the thread is about to enter `Run`. -/
def new : Reactor H where
  map := fun _ => none
  stopFlag := true
  thread := .run

def add (r : Reactor H) (fd : Int32) (mode : ModeType) (handler : H) : Reactor H :=
  { r with map := Function.update r.map ⟨fd, mode⟩ (some handler) }

/-- `none` is the `logic_error`. -/
def remove (r : Reactor H) (fd : Int32) (mode : ModeType) : Option (Reactor H) :=
  match r.map ⟨fd, mode⟩ with
  | none => none
  | some _ => some { r with map := Function.update r.map ⟨fd, mode⟩ none }

theorem remove_eq_some {r r' : Reactor H} (removed : r.remove fd mode = some r') :
    (r.map ⟨fd, mode⟩).isSome ∧ r' = { r with map := Function.update r.map ⟨fd, mode⟩ none } := by
  rw [remove] at removed
  split at removed
  · cases removed
  case h_2 found =>
    rw [found]
    exact ⟨rfl, (Option.some.inj removed).symm⟩

theorem remove_eq_none {r : Reactor H} (throws : r.remove fd mode = none) :
    r.map ⟨fd, mode⟩ = none := by
  rw [remove] at throws
  split at throws
  · assumption
  · cases throws

def stop (r : Reactor H) : Reactor H := { r with stopFlag := true }

/-- The loop of `InvokeHandlers`, past its test of the flag. -/
def Point.next : List FdAndMode → Point H
  | [] => .loop
  | pair :: rest => .find pair rest

/-- One step of the thread in `Run`. `CreateList` lists pairs of the map that `SetArgs`
has put in a set. A `select` that fails throws out of the thread. -/
inductive Advance (r : Reactor H) : Event H → Reactor H → Prop where
  | stores : r.thread = .run → Advance r .stores { r with stopFlag := false, thread := .loop }
  | tests : r.thread = .loop →
      Advance r .tests { r with thread := if r.stopFlag then .returned else .setArgs }
  | setsArgs : r.thread = .setArgs →
      Advance r .setsArgs { r with thread := .select fun pair => (r.map pair).isSome }
  | selects (ready : List FdAndMode) : r.thread = .select sets → ready.Nodup →
      (∀ pair ∈ ready, sets pair = true ∧ (r.map pair).isSome) →
      Advance r (.selects ready) { r with thread := .invoke ready }
  | fails : r.thread = .select sets → Advance r .fails { r with thread := .aborted }
  | invokes : r.thread = .invoke ready →
      Advance r .invokes { r with thread := if r.stopFlag then .loop else .next ready }
  | finds : r.thread = .find pair rest →
      Advance r .finds { r with thread := (r.map pair).elim (.invoke rest) (.call · rest) }
  | calls : r.thread = .call handler rest →
      Advance r (.calls handler) { r with thread := .invoke rest }

theorem Advance.map_eq {r r' : Reactor H} (step : Advance r e r') : r'.map = r.map := by
  cases step with
  | stores | tests | setsArgs | selects | fails | invokes | finds | calls => rfl

end Reactor
end DistributedDisk
