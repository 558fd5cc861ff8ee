import DistributedDisk.Core.Nesting
import DistributedDisk.Singleton.Nested

/-! What the nested calls of `GetInstance` keep: a class is stored once, by the thread that
has its mutex, and after every class that its constructor obtains. -/
namespace DistributedDisk
open Transition

namespace Singletons
variable {Θ ι : Type} {s t : Singletons Θ ι} {needs : Part → Θ → List Θ}

/-- What a thread has still to do for the class whose mutex it has. -/
def Pending (s : Singletons Θ ι) (c : Call Θ) : Prop :=
  match c.point with
  | .construct _ _ | .store => s.stored c.type = false
  | .register => s.stored c.type = true ∧ c.type ∉ s.exits
  | _ => True

/-- The steps that change what is pending for a class. -/
def Publishes (T : Θ) (e : Event Θ) : Prop := e = .stores T ∨ e = .registers T

theorem Pending.of_unlocked (outside : c.point.locked = false) :
    Pending s c := by
  obtain ⟨T, point⟩ := c
  cases point with
  | construct | store | register => cases outside
  | test | lock | reload | unlock | unwind | load => trivial

theorem Moves.top (moves : Moves needs s stack e stack')
    (publishes : Publishes T e) : ∃ point rest, stack = ⟨T, point⟩ :: rest ∧
      point.locked = true := by
  obtain rfl | rfl := publishes
  · cases moves with
    | stores => exact ⟨_, _, rfl, rfl⟩
  · cases moves with
    | registers => exact ⟨_, _, rfl, rfl⟩

theorem pending_unwound (pending : ∀ c ∈ rest, Pending s c) : ∀ c ∈ unwound rest, Pending s c := by
  unfold unwound
  split
  · intro c member
    obtain rfl | below := List.mem_cons.mp member
    · trivial
    · exact pending c (List.mem_cons_of_mem _ below)
  · exact pending

/-- While a thread publishes a class, no other call is in the block of that class. -/
theorem Exclusive.apart (exclusive : Exclusive s) (moves : Moves needs s (s.threads i) e stack)
    (member : c ∈ s.threads j) (other : j ≠ i ∨ c ∈ (s.threads i).tail)
    (inside : c.point.locked = true) : ¬ Publishes c.type e := by
  intro publishes
  obtain ⟨point, rest, here, locked⟩ := moves.top publishes
  have top : held (s.threads i) = c.type :: held rest := here ▸ held_cons_locked locked rest
  have mine : s.mutex c.type = some i := (exclusive.owner _ i).mpr (by simp [top])
  have holds : ∀ stack : List (Call Θ), c ∈ stack → c.type ∈ held stack := fun stack member =>
    List.mem_map_of_mem (List.mem_filter.mpr ⟨member, inside⟩)
  obtain other | below := other
  · have theirs : s.mutex c.type = some j := (exclusive.owner _ j).mpr (holds _ member)
    exact other (Option.some.inj (theirs.symm.trans mine))
  · have nodup := exclusive.nodup i
    rw [top] at nodup
    rw [here] at below
    exact (List.nodup_cons.mp nodup).1 (holds rest below)

/-- What holds in every reachable state: who has which mutex, what the calls rely on and have
still to do, and that a stored class was founded on stored classes. -/
structure Sound (needs : Part → Θ → List Θ) (s : Singletons Θ ι) : Prop where
  exclusive : Exclusive s
  proper : ∀ i, Proper needs (fun T => s.stored T = true) none (s.threads i)
  pending : ∀ i, ∀ c ∈ s.threads i, Pending s c
  closed : ∀ T, s.stored T = true → ∀ U ∈ needs .body T, s.stored U = true
  founded : ∀ T, s.stored T = true → Acc (Nesting.Called (needs .body)) T
  exits : ∀ T ∈ s.exits, s.stored T = true
  nodup : s.exits.Nodup

theorem Sound.initial : Sound needs (start : Singletons Θ ι) where
  exclusive := .initial
  proper _ := trivial
  pending _ _ := nofun
  closed _ := nofun
  founded _ := nofun
  exits _ := nofun
  nodup := .nil

/-- The class that a step publishes was waiting for it, above classes that are stored. -/
theorem Sound.stores (sound : Sound needs s) (moves : Moves needs s (s.threads i) (.stores T) stack) :
    ∀ U ∈ needs .body T, s.stored U = true := by
  have proper := sound.proper i
  generalize s.threads i = before at moves proper
  cases moves with
  | stores => exact proper.1.2

theorem Sound.registers (sound : Sound needs s)
    (moves : Moves needs s (s.threads i) (.registers T) stack) :
    s.stored T = true ∧ T ∉ s.exits := by
  have pending := sound.pending i
  generalize s.threads i = before at moves pending
  cases moves with
  | registers => exact pending _ List.mem_cons_self

section
variable [DecidableEq Θ]

theorem stored_after (set : s.stored T = true) : (s.after i e).stored T = true := by
  cases e with
  | stores U =>
    by_cases same : T = U
    · subst same
      exact Function.update_self ..
    · exact (Function.update_of_ne same ..).trans set
  | calls | loads | locks | reloads | obtains | completes | catches | throws | registers | unlocks
  | unwinds | returns => exact set

theorem Pending.after (pending : Pending s c)
    (apart : c.point.locked = true → ¬ Publishes c.type e) : Pending (s.after i e) c := by
  by_cases inside : c.point.locked = true
  · obtain ⟨T, point⟩ := c
    replace apart := apart inside
    cases e with
    | stores U =>
      have other : T ≠ U := fun same => apart (.inl (congrArg _ same.symm))
      unfold Pending at pending ⊢
      simpa only [Singletons.after, Function.update_of_ne other] using pending
    | registers U =>
      have other : T ≠ U := fun same => apart (.inr (congrArg _ same.symm))
      unfold Pending at pending ⊢
      simpa only [Singletons.after, List.mem_append, List.mem_singleton, other, or_false]
        using pending
    | calls | loads | locks | reloads | obtains | completes | catches | throws | unlocks | unwinds
    | returns => exact pending
  · exact .of_unlocked (Bool.eq_false_iff.mpr inside)

theorem Moves.pending (moves : Moves needs s stack e stack') (pending : ∀ c ∈ stack, Pending s c)
    (apart : ∀ c ∈ stack.tail, c.point.locked = true → ¬ Publishes c.type e)
    (exits : ∀ T ∈ s.exits, s.stored T = true) : ∀ c ∈ stack', Pending (s.after i e) c := by
  have tail : ∀ c ∈ stack.tail, Pending (s.after i e) c := fun c member =>
    (pending c (List.mem_of_mem_tail member)).after (apart c member)
  cases moves with
  | calls =>
    rintro c (_ | ⟨_, ⟨⟩⟩)
    trivial
  | loads =>
    rintro c (_ | ⟨_, below⟩)
    · exact .of_unlocked (by split <;> rfl)
    · exact tail c below
  | reloads =>
    rintro c (_ | ⟨_, below⟩)
    · split
      next => trivial
      next absent => exact Bool.eq_false_iff.mpr absent
    · exact tail c below
  | obtains =>
    have top := pending _ List.mem_cons_self
    rintro c (_ | ⟨_, below⟩)
    · trivial
    · obtain rfl | below := List.mem_cons.mp below
      · exact top
      · exact tail c below
  | completes | catches =>
    have top := pending _ List.mem_cons_self
    rintro c (_ | ⟨_, below⟩)
    · exact top
    · exact tail c below
  | @stores T rest =>
    have absent : s.stored T = false := pending _ List.mem_cons_self
    rintro c (_ | ⟨_, below⟩)
    · refine ⟨Function.update_self .., fun member => ?_⟩
      rw [exits T member] at absent
      cases absent
    · exact tail c below
  | locks | throws | registers | unlocks =>
    rintro c (_ | ⟨_, below⟩)
    · trivial
    · exact tail c below
  | unwinds => exact pending_unwound tail
  | returns => exact tail

theorem stored_of_after (set : (s.after i e).stored T = true) :
    s.stored T = true ∨ e = .stores T := by
  cases e with
  | stores U =>
    by_cases same : T = U
    · exact .inr (congrArg _ same.symm)
    · exact .inl ((Function.update_of_ne same ..).symm.trans set)
  | calls | loads | locks | reloads | obtains | completes | catches | throws | registers | unlocks
  | unwinds | returns => exact .inl set

theorem exits_after (member : T ∈ (s.after i e).exits) : T ∈ s.exits ∨ e = .registers T := by
  cases e with
  | registers U =>
    obtain old | new := List.mem_append.mp member
    · exact .inl old
    · exact .inr (congrArg _ (List.mem_singleton.mp new).symm)
  | calls | loads | locks | reloads | obtains | completes | catches | throws | stores | unlocks
  | unwinds | returns => exact .inl member

theorem Sound.learns (sound : Sound needs s) (moves : Moves needs s (s.threads i) e stack) :
    Learns s (fun T => (s.after i e).stored T = true) e := by
  cases e with
  | loads | reloads => exact stored_after
  | registers => exact stored_after (sound.registers moves).1
  | calls | locks | obtains | completes | catches | throws | stores | unlocks | unwinds
  | returns => trivial

theorem Sound.exits_nodup (sound : Sound needs s) (moves : Moves needs s (s.threads i) e stack) :
    (s.after i e).exits.Nodup := by
  cases e with
  | registers T =>
    have absent := (sound.registers moves).2
    exact List.nodup_append.mpr ⟨sound.nodup, List.nodup_singleton T, fun U old V new same =>
      absent (List.mem_singleton.mp new ▸ same ▸ old)⟩
  | calls | loads | locks | reloads | obtains | completes | catches | throws | stores | unlocks
  | unwinds | returns => exact sound.nodup

variable [DecidableEq ι]

theorem Sound.step (sound : Sound needs s) (step : Step needs s label t) : Sound needs t := by
  have exclusive := sound.exclusive.step step
  obtain ⟨i, moves⟩ := step
  rename_i e stack
  have apart {j c} := sound.exclusive.apart (j := j) (c := c) moves
  have keeps {T} (set : s.stored T = true) : (s.after i e).stored T = true := stored_after set
  constructor
  · exact exclusive
  · intro j
    by_cases same : j = i
    · subst same
      rw [moved_self]
      exact (sound.proper j).moves moves (fun T => stored_after) (sound.learns moves)
    · rw [moved_ne same]
      exact (sound.proper j).mono fun T => stored_after
  · intro j c member
    by_cases same : j = i
    · subst same
      rw [moved_self] at member
      refine moves.pending (sound.pending j) (fun c below => ?_) sound.exits c member
      exact apart (List.mem_of_mem_tail below) (.inr below)
    · rw [moved_ne same] at member
      exact (sound.pending j c member).after (apart member (.inl same))
  · intro T set U need
    obtain old | rfl := stored_of_after set
    · exact keeps (sound.closed T old U need)
    · exact keeps (sound.stores moves U need)
  · intro T set
    obtain old | rfl := stored_of_after set
    · exact sound.founded T old
    · exact .intro T fun U need => sound.founded U (sound.stores moves U need)
  · intro T member
    obtain old | rfl := exits_after member
    · exact keeps (sound.exits T old)
    · exact keeps (sound.registers moves).1
  · exact sound.exits_nodup moves

theorem Sound.of_run (run : Run (Step needs) (start : Singletons Θ ι) tr s) : Sound needs s :=
  run.invariant Sound.step .initial

end

end Singletons
end DistributedDisk
