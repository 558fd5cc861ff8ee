import DistributedDisk.Reactor
import Mathlib.Algebra.GroupWithZero.Nat

/-! `Reactor::Stop` and the join after it, as in the destructor of `Mediator`, while the
reactor's thread is anywhere in `Run`. -/
namespace DistributedDisk
open Transition

namespace Reactor

/-- The thread that calls `Stop`, once, and joins. -/
inductive Caller where
  | before
  | stopped
  | joined
  deriving DecidableEq

structure Shutdown (H : Type) where
  reactor : Reactor H
  caller : Caller

inductive Shutdown.Event (H : Type) where
  | runs (e : Reactor.Event H)
  | changes
  | stops
  | joins

variable {H : Type}

def launch : Shutdown H := ⟨new, .before⟩

/-- Handlers are added and removed at any time. -/
inductive Shutdown.Step (s : Shutdown H) : Shutdown.Event H → Shutdown H → Prop where
  | runs : Advance s.reactor e r → Step s (.runs e) { s with reactor := r }
  | adds (fd : Int32) (mode : ModeType) (handler : H) :
      Step s .changes { s with reactor := s.reactor.add fd mode handler }
  | removes (fd : Int32) (mode : ModeType) : s.reactor.remove fd mode = some r →
      Step s .changes { s with reactor := r }
  | stops : s.caller = .before → Step s .stops { reactor := s.reactor.stop, caller := .stopped }
  | joins : s.caller = .stopped → s.reactor.thread = .returned →
      Step s .joins { s with caller := .joined }

/-- How many steps are left to a thread that finds the flag set. -/
def Point.rank : Point H → Nat
  | .run => 5
  | .setArgs | .find .. => 4
  | .select _ | .call .. => 3
  | .invoke _ => 2
  | .loop => 1
  | .returned | .aborted => 0

/-- How many times it will still come to `select`. -/
def Point.rounds : Point H → Nat
  | .run | .setArgs | .select _ => 1
  | _ => 0

def Event.rounds : Event H → Nat
  | .selects _ | .fails => 1
  | _ => 0

def Shutdown.Event.moves : Shutdown.Event H → Nat
  | .runs _ => 1
  | _ => 0

def Shutdown.Event.rounds : Shutdown.Event H → Nat
  | .runs e => e.rounds
  | _ => 0

theorem Point.rounds_le (point : Point H) : point.rounds ≤ 1 := by
  cases point with
  | run | loop | setArgs | select | invoke | find | call | returned | aborted =>
    simp [Point.rounds]

theorem Point.rank_le {point : Point H} (entered : point ≠ .run) : point.rank ≤ 4 := by
  cases point with
  | run => exact absurd rfl entered
  | loop | setArgs | select | invoke | find | call | returned | aborted => simp [Point.rank]

/-- With the flag set, and the first store of `Run` done, each step leads out of `Run`. -/
theorem Advance.leaves {r r' : Reactor H} (step : Advance r e r') (flag : r.stopFlag = true)
    (entered : r.thread ≠ .run) : r'.stopFlag = true ∧ r'.thread ≠ .run ∧
      r'.thread.rank < r.thread.rank ∧ e.rounds + r'.thread.rounds ≤ r.thread.rounds := by
  cases step with
  | stores here => exact absurd here entered
  | tests here | invokes here =>
    rw [if_pos flag, here]
    exact ⟨flag, nofun, by simp [Point.rank], by simp [Point.rounds, Event.rounds]⟩
  | setsArgs here | selects _ here | fails here | calls here =>
    rw [here]
    exact ⟨flag, nofun, by simp [Point.rank], by simp [Point.rounds, Event.rounds]⟩
  | finds here =>
    rw [here]
    refine ⟨flag, ?_⟩
    cases r.map _ with
    | none | some => exact ⟨nofun, by simp [Point.rank], by simp [Point.rounds, Event.rounds]⟩

/-- The thread is never stuck inside `Run`. -/
theorem Advance.available {r : Reactor H} (inside : r.thread ≠ .returned)
    (running : r.thread ≠ .aborted) : ∃ e r', Advance r e r' := by
  cases here : r.thread with
  | run => exact ⟨_, _, .stores here⟩
  | loop => exact ⟨_, _, .tests here⟩
  | setArgs => exact ⟨_, _, .setsArgs here⟩
  | select => exact ⟨_, _, .selects [] here .nil nofun⟩
  | invoke => exact ⟨_, _, .invokes here⟩
  | find => exact ⟨_, _, .finds here⟩
  | call => exact ⟨_, _, .calls here⟩
  | returned => exact absurd here inside
  | aborted => exact absurd here running

/-- What holds after `Stop`, `tr` being the steps since: the flag stays set, `Run` comes to
`select` at most once and ends soon, and the join returns. -/
structure Stopped (tr : List (Shutdown.Event H)) (s : Shutdown H) : Prop where
  flag : s.reactor.stopFlag = true
  rounds : (tr.map Shutdown.Event.rounds).sum ≤ 1
  moves : (tr.map Shutdown.Event.moves).sum ≤ 4
  goes : s.caller = .joined ∨ s.reactor.thread = .aborted ∨ ∃ e t, s.Step e t ∧ e ≠ .changes

/-- The bounds that make it so. -/
structure Leaving (tr : List (Shutdown.Event H)) (s : Shutdown H) : Prop where
  flag : s.reactor.stopFlag = true
  entered : s.reactor.thread ≠ .run
  called : s.caller ≠ .before
  rounds : (tr.map Shutdown.Event.rounds).sum + s.reactor.thread.rounds ≤ 1
  moves : (tr.map Shutdown.Event.moves).sum + s.reactor.thread.rank ≤ 4

variable {s t u v : Shutdown H} {tr : List (Shutdown.Event H)}

theorem Leaving.start (entered : s.reactor.thread ≠ .run) (step : s.Step .stops t) :
    Leaving [] t := by
  cases step with
  | stops =>
    constructor
    · rfl
    · exact entered
    · nofun
    · exact Nat.le_trans (Nat.le_of_eq (Nat.zero_add _)) s.reactor.thread.rounds_le
    · exact Nat.le_trans (Nat.le_of_eq (Nat.zero_add _)) (Point.rank_le entered)

/-- A step that leaves `Run` and pays for what it does. -/
theorem Leaving.pay (leaving : Leaving tr s) (flag : t.reactor.stopFlag = true)
    (entered : t.reactor.thread ≠ .run) (called : t.caller ≠ .before)
    (rounds : e.rounds + t.reactor.thread.rounds ≤ s.reactor.thread.rounds)
    (moves : e.moves + t.reactor.thread.rank ≤ s.reactor.thread.rank) :
    Leaving (tr ++ [e]) t := by
  have roundsBefore := leaving.rounds
  have movesBefore := leaving.moves
  constructor
  · exact flag
  · exact entered
  · exact called
  · rw [List.map_append, List.sum_append, List.map_singleton, List.sum_singleton]
    omega
  · rw [List.map_append, List.sum_append, List.map_singleton, List.sum_singleton]
    omega

/-- A step of another thread that leaves the flag as it is. -/
theorem Leaving.quiet (leaving : Leaving tr s) (flag : t.reactor.stopFlag = s.reactor.stopFlag)
    (thread : t.reactor.thread = s.reactor.thread) (called : t.caller ≠ .before)
    (rounds : e.rounds = 0) (moves : e.moves = 0) : Leaving (tr ++ [e]) t := by
  apply leaving.pay
  · exact flag.trans leaving.flag
  · exact thread ▸ leaving.entered
  · exact called
  · exact Nat.le_of_eq (by rw [rounds, thread, Nat.zero_add])
  · exact Nat.le_of_eq (by rw [moves, thread, Nat.zero_add])

theorem Leaving.step (leaving : Leaving tr s) (step : s.Step e t) : Leaving (tr ++ [e]) t := by
  cases step with
  | runs advance =>
    obtain ⟨flag, entered, lower, spent⟩ := advance.leaves leaving.flag leaving.entered
    apply leaving.pay
    · exact flag
    · exact entered
    · exact leaving.called
    · exact spent
    · rwa [Shutdown.Event.moves, Nat.one_add]
  | adds => exact leaving.quiet rfl rfl leaving.called rfl rfl
  | removes _ _ removed =>
    obtain ⟨_, rfl⟩ := remove_eq_some removed
    exact leaving.quiet rfl rfl leaving.called rfl rfl
  | stops before => exact absurd before leaving.called
  | joins => exact leaving.quiet rfl rfl nofun rfl rfl

theorem Leaving.stopped (leaving : Leaving tr s) : Stopped tr s := by
  refine ⟨leaving.flag, Nat.le_of_add_right_le leaving.rounds,
    Nat.le_of_add_right_le leaving.moves, ?_⟩
  by_cases quit : s.reactor.thread = .aborted
  · exact .inr (.inl quit)
  by_cases returned : s.reactor.thread = .returned
  · cases caller : s.caller with
    | before => exact absurd caller leaving.called
    | stopped => exact .inr (.inr ⟨_, _, .joins caller returned, nofun⟩)
    | joined => exact .inl rfl
  · obtain ⟨e, r, advance⟩ := Advance.available returned quit
    exact .inr (.inr ⟨_, _, .runs advance, nofun⟩)

/-- `Stop` is kept, whatever follows, exactly when `Run` has stored its `false` before. -/
theorem stop_kept_iff (step : u.Step .stops v) :
    (∀ tr s, Run Shutdown.Step v tr s → Stopped tr s) ↔ u.reactor.thread ≠ .run := by
  constructor
  · intro kept early
    cases step with
    | stops =>
      have lost := kept _ _ (.single (.runs (.stores early)))
      cases lost.flag
  · intro entered tr s run
    apply Leaving.stopped
    apply run.history (Leaving.start entered step)
    intro tr s e t leaving step
    exact leaving.step step

/-- `Run` has come to its loop when `Stop` is called. -/
theorem stop_kept_iff_entered : ∃ u v : Shutdown Unit,
    Run Shutdown.Step launch [.runs .stores] u ∧ u.Step .stops v ∧
      ∀ tr s, Run Shutdown.Step v tr s → Stopped tr s :=
  ⟨_, _, .single (.runs (.stores rfl)), .stops rfl, (stop_kept_iff (.stops rfl)).mpr nofun⟩

/-- `Stop` is called while the thread is on its way to `Run`. -/
theorem stop_lost : ∃ s : Shutdown Unit, Run Shutdown.Step launch [.stops, .runs .stores] s ∧
    s.caller = .stopped ∧ s.reactor.stopFlag = false :=
  ⟨_, .next (.stops rfl) (.single (.runs (.stores rfl))), rfl, rfl⟩

end Reactor
end DistributedDisk
