import DistributedDisk.Singleton.Classes
import DistributedDisk.Singleton.Founded

/-! The order of the `ExitFunc` calls: `exit` runs what `atexit` registered, last first. -/
namespace DistributedDisk
open Transition

namespace Singletons
variable {Θ ι : Type} {needs : Part → Θ → List Θ} {s t : Singletons Θ ι}

/-- Each class is registered after those that its constructor obtains. -/
inductive Ordered (needs : Part → Θ → List Θ) : List Θ → Prop where
  | nil : Ordered needs []
  | concat : Ordered needs l → (∀ U ∈ needs .body T, U ∈ l) → Ordered needs (l ++ [T])

/-- No thread sees an instance, past the mutex, before `atexit` was called for its class. -/
def Registered (s : Singletons Θ ι) (label : ι × Event Θ) : Prop :=
  ∀ T, label.2 = .loads T → s.stored T = true → T ∈ s.exits

/-- What is stored is registered, or its thread is about to. -/
def Registering (s : Singletons Θ ι) : Prop :=
  ∀ T, s.stored T = true → T ∈ s.exits ∨ ∃ i rest, s.threads i = ⟨T, .register⟩ :: rest

/-- A thread with the mutex finds a stored class registered. -/
theorem Registering.reloads (registering : Registering s) (exclusive : Exclusive s)
    (here : s.threads i = ⟨T, .reload⟩ :: rest) (set : s.stored T = true) : T ∈ s.exits := by
  obtain done | ⟨j, rest', there⟩ := registering T set
  · exact done
  · have mine : s.mutex T = some i := (exclusive.owner T i).mpr (here ▸ List.mem_cons_self)
    have theirs : s.mutex T = some j := (exclusive.owner T j).mpr (there ▸ List.mem_cons_self)
    cases Option.some.inj (mine.symm.trans theirs)
    cases here.symm.trans there

/-- The classes whose `atexit` has been called are in order, and what constructors are past
is among them. -/
structure Orderly (needs : Part → Θ → List Θ) (s : Singletons Θ ι) : Prop where
  sound : Sound needs s
  registering : Registering s
  proper : ∀ i, Proper needs (· ∈ s.exits) none (s.threads i)
  ordered : Ordered needs s.exits

theorem Orderly.initial : Orderly needs (start : Singletons Θ ι) where
  sound := .initial
  registering _ := nofun
  proper _ := trivial
  ordered := .nil

theorem Orderly.registers (orderly : Orderly needs s)
    (moves : Moves needs s (s.threads i) (.registers T) stack) :
    ∀ U ∈ needs .body T, U ∈ s.exits := by
  have proper := orderly.proper i
  generalize s.threads i = before at moves proper
  cases moves with
  | registers => exact proper.1.2

section
variable [DecidableEq Θ]

theorem exits_kept (member : T ∈ s.exits) (i : ι) (e : Event Θ) : T ∈ (s.after i e).exits := by
  cases e with
  | registers => exact List.mem_append_left _ member
  | calls | loads | locks | reloads | obtains | completes | catches | throws | stores | unlocks
  | unwinds | returns => exact member

theorem Orderly.learns (orderly : Orderly needs s) (registered : Registered s (i, e))
    (moves : Moves needs s (s.threads i) e stack) : Learns s (· ∈ (s.after i e).exits) e := by
  cases e with
  | loads T => exact fun set => registered T rfl set
  | reloads T =>
    have found : ∀ rest, s.threads i = ⟨T, .reload⟩ :: rest → s.stored T = true → T ∈ s.exits :=
      fun _ => orderly.registering.reloads orderly.sound.exclusive
    generalize s.threads i = before at moves found
    cases moves with
    | reloads => exact found _ rfl
  | registers T => exact List.mem_append_right _ (List.mem_singleton_self T)
  | calls | locks | obtains | completes | catches | throws | stores | unlocks | unwinds
  | returns => trivial

variable [DecidableEq ι]

theorem Registering.step (registering : Registering s) (step : Step needs s label t) :
    Registering t := by
  obtain ⟨i, moves⟩ := step
  rename_i e stack
  intro T set
  obtain old | rfl := stored_of_after set
  · obtain done | ⟨j, rest, there⟩ := registering T old
    · exact .inl (exits_kept done i e)
    · by_cases same : j = i
      · subst same
        rw [there] at moves
        cases moves with
        | registers => exact .inl (List.mem_append_right _ (List.mem_singleton_self T))
      · exact .inr ⟨j, rest, (moved_ne same).trans there⟩
  · generalize s.threads i = before at moves
    cases moves with
    | stores => exact .inr ⟨i, _, moved_self⟩

theorem Orderly.step (orderly : Orderly needs s) (step : Under Registered (Step needs) s label t) :
    Orderly needs t := by
  obtain ⟨step, registered⟩ := step
  refine ⟨orderly.sound.step step, orderly.registering.step step, ?_, ?_⟩
  · obtain ⟨i, moves⟩ := step
    rename_i e stack
    intro j
    by_cases same : j = i
    · subst same
      rw [moved_self]
      exact (orderly.proper j).moves moves (fun T member => exits_kept member j e)
        (orderly.learns registered moves)
    · rw [moved_ne same]
      exact (orderly.proper j).mono fun T member => exits_kept member i e
  · obtain ⟨i, moves⟩ := step
    rename_i e stack
    cases e with
    | registers T => exact orderly.ordered.concat (orderly.registers moves)
    | calls | loads | locks | reloads | obtains | completes | catches | throws | stores | unlocks
    | unwinds | returns => exact orderly.ordered

/-- Another thread gets the configuration between its store and its `atexit`: the logger,
constructed after it, is still there when the configuration is deleted. -/
example : ∃ tr s, Run (Step (Class.needs 2)) (start : Singletons Class (Fin 2)) tr s ∧
    s.exits.reverse = [.configManager, .logger] :=
  ⟨_, _, .next (.moves 0 (.calls (T := .configManager))) <| .next (.moves 0 .loads) <|
    .next (.moves 0 (.locks rfl)) <| .next (.moves 0 .reloads) <| .next (.moves 0 .completes) <|
    .next (.moves 0 .stores) <| .next (.moves 1 (.calls (T := .logger))) <|
    .next (.moves 1 .loads) <| .next (.moves 1 (.locks rfl)) <| .next (.moves 1 .reloads) <|
    .next (.moves 1 .obtains) <| .next (.moves 1 .loads) <| .next (.moves 1 .returns) <|
    .next (.moves 1 .completes) <| .next (.moves 1 .stores) <| .next (.moves 1 .registers) <|
    .single (.moves 0 .registers), rfl⟩

end

end Singletons
end DistributedDisk
