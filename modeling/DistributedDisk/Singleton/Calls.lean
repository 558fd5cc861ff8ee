import DistributedDisk.Core.Progress
import DistributedDisk.Singleton.Construction

/-! Calls of `GetInstance` come to an end when what constructors obtain never leads back:
the mutexes are taken one below the other. -/
namespace DistributedDisk
open Transition Nesting

namespace Singletons
variable {Θ ι : Type} {needs : Part → Θ → List Θ} {s t : Singletons Θ ι} {rest : List (Call Θ)}

/-- A call from outside `GetInstance`. -/
def Event.asked : Event Θ → Bool
  | .calls _ => true
  | _ => false

/-- Only the classes in `reported` have handlers. -/
def silenced (reported : Θ → Bool) (needs : Part → Θ → List Θ) : Part → Θ → List Θ
  | .body, T => needs .body T
  | .handler, T => if reported T then needs .handler T else []

theorem Moves.silenced {reported : Θ → Bool} (moves : Moves needs s stack e stack')
    (reports : ∀ T, e = .catches T → reported T = true) :
    Moves (silenced reported needs) s stack e stack' := by
  cases moves with
  | @catches T left rest =>
    have handler : Singletons.silenced reported needs .handler T = needs .handler T :=
      if_pos (reports T rfl)
    rw [← handler]
    exact .catches
  | calls => exact .calls
  | loads => exact .loads
  | locks free => exact .locks free
  | reloads => exact .reloads
  | obtains => exact .obtains
  | completes => exact .completes
  | throws => exact .throws
  | stores => exact .stores
  | registers => exact .registers
  | unlocks => exact .unlocks
  | unwinds => exact .unwinds
  | returns => exact .returns

/-- The classes that a constructor can ask for, in its body or to report. -/
def asks (needs : Part → Θ → List Θ) (T : Θ) : List Θ := needs .body T ++ needs .handler T

theorem mem_asks (need : U ∈ needs part T) : U ∈ asks needs T := by
  cases part with
  | body => exact List.mem_append_left _ need
  | handler => exact List.mem_append_right _ need

theorem Proper.below (proper : Proper needs known (some T) stack) :
    ∀ c ∈ stack, Relation.TransGen (Called (asks needs)) T c.type := by
  induction stack generalizing T with
  | nil => nofun
  | cons c rest ih =>
    obtain ⟨part, left, _, need, _⟩ := proper.1.construct
    have here : Called (asks needs) T c.type := mem_asks need
    intro d member
    obtain rfl | under := List.mem_cons.mp member
    · exact .single here
    · exact .head here (ih proper.2 d under)

/-- The mutex that a thread waits for. -/
def waits (s : Singletons Θ ι) (i : ι) : Option Θ :=
  match s.threads i with
  | ⟨T, .lock⟩ :: _ => some T
  | _ => none

/-- The steps that a call still has before it, with those of the calls it will make. -/
def Call.work (needs : Part → Θ → List Θ) (cost : Θ → Nat) (c : Call Θ) : Nat :=
  match c.point with
  | .test => 8 + total cost (asks needs c.type)
  | .lock => 7 + total cost (asks needs c.type)
  | .reload => 6 + total cost (asks needs c.type)
  | .construct .body left => 5 + total cost left + total cost (needs .handler c.type)
  | .construct .handler left => 2 + total cost left
  | .store => 4
  | .register => 3
  | .unlock => 2
  | .load | .unwind => 1

def work (needs : Part → Θ → List Θ) (cost : Θ → Nat) (stack : List (Call Θ)) : Nat :=
  (stack.map (Call.work needs cost)).sum

/-- What a thread asks for from outside. -/
def Event.price (cost : Θ → Nat) : Event Θ → Nat
  | .calls T => cost T
  | _ => 0

/-- A step of `GetInstance` itself. -/
def Event.counted (e : Event Θ) : Nat := if e.asked then 0 else 1

theorem work_unwound (needs : Part → Θ → List Θ) (cost : Θ → Nat) (stack : List (Call Θ)) :
    work needs cost (unwound stack) ≤ work needs cost stack := by
  unfold unwound
  split
  next part left rest =>
    simp only [work, List.map_cons, List.sum_cons, Call.work]
    cases part with
    | body | handler => simp only; omega
  next => exact le_rfl

theorem Moves.works {cost : Θ → Nat} (costs : ∀ T, cost T = 8 + total cost (asks needs T))
    (moves : Moves needs s stack e stack') :
    work needs cost stack' + e.counted ≤ work needs cost stack + e.price cost := by
  cases moves with
  | calls => simp [work, Call.work, Event.counted, Event.asked, Event.price, costs]
  | loads | reloads =>
    split
    all_goals
      simp only [work, List.map_cons, List.sum_cons, Call.work, Event.counted, Event.asked,
        Event.price, asks, total_append, Bool.false_eq_true, if_false]
      omega
  | @obtains T part U left rest =>
    have price := costs U
    cases part with
    | body | handler =>
      simp only [work, List.map_cons, List.sum_cons, Call.work, Event.counted, Event.asked,
        Event.price, total_cons, Bool.false_eq_true, if_false]
      omega
  | @throws T part left rest =>
    cases part with
    | body | handler =>
      simp only [work, List.map_cons, List.sum_cons, Call.work, Event.counted, Event.asked,
        Event.price, Bool.false_eq_true, if_false]
      omega
  | @unwinds T rest =>
    have less := work_unwound needs cost rest
    simp only [work, List.map_cons, List.sum_cons, Call.work, Event.counted, Event.asked,
      Event.price, Bool.false_eq_true, if_false] at less ⊢
    omega
  | locks | completes | catches | stores | registers | unlocks | returns =>
    simp only [work, List.map_cons, List.sum_cons, Call.work, Event.counted, Event.asked,
      Event.price, total_nil, Bool.false_eq_true, if_false]
    omega

section
variable [DecidableEq Θ] [DecidableEq ι] {reported : Θ → Bool}

end

end Singletons

namespace Class
open Singletons
variable {ι : Type} [DecidableEq ι] {minions : Nat}

/-- Every handler but that of `ReadConfigFile`. -/
def reported (T : Class) : Bool := T ≠ configManager

theorem handler_rank (need : U ∈ silenced reported (needs minions) .handler T) :
    rank U < rank T := by
  cases T with
  | storageManager | configManager | logger | master => cases need
  | frameWork | minionProxy =>
    cases List.mem_singleton.mp need
    decide

theorem order (minions : Nat) : WellFounded (Called (asks (silenced reported (needs minions)))) := by
  apply Subrelation.wf (r := InvImage (· < ·) rank) _ (InvImage.wf rank Nat.lt_wfRel.wf)
  intro U T need
  obtain body | handler := List.mem_append.mp need
  · exact body_rank body
  · exact handler_rank handler

end Class
end DistributedDisk
