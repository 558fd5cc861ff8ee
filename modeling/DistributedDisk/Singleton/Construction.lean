import DistributedDisk.Singleton.Classes
import DistributedDisk.Singleton.Founded

/-! Which classes ever get an instance, and where a thread that asks for the class it is
constructing stays. -/
namespace DistributedDisk
open Transition Nesting

namespace Singletons
variable {Θ ι : Type} {needs : Part → Θ → List Θ}

variable {s t : Singletons Θ ι} {rest : List (Call Θ)}

theorem Moves.loads_absent (absent : s.stored T = false) :
    Moves needs s (⟨T, .test⟩ :: rest) (.loads T) (⟨T, .lock⟩ :: rest) := by
  simpa only [absent, Bool.false_eq_true, if_false] using Moves.loads (s := s) (T := T)

theorem Moves.loads_set (set : s.stored T = true) :
    Moves needs s (⟨T, .test⟩ :: rest) (.loads T) (⟨T, .load⟩ :: rest) := by
  simpa only [set, if_true] using Moves.loads (s := s) (T := T)

theorem Moves.reloads_absent (absent : s.stored T = false) :
    Moves needs s (⟨T, .reload⟩ :: rest) (.reloads T)
      (⟨T, .construct .body (needs .body T)⟩ :: rest) := by
  simpa only [absent, Bool.false_eq_true, if_false] using Moves.reloads (s := s) (T := T)

section
variable [DecidableEq Θ] [DecidableEq ι]

theorem Moves.step (moves : Moves needs s stack e stack') (here : s.threads i = stack) :
    Step needs s (i, e) (s.moved i e stack') := .moves i (here ▸ moves)

/-- A thread takes the mutex of a class that is not stored and begins its constructor. -/
theorem enters (here : s.threads i = ⟨T, .test⟩ :: rest) (absent : s.stored T = false)
    (free : s.mutex T = none) : ∃ tr t, Run (Step needs) s tr t ∧
      t.threads i = ⟨T, .construct .body (needs .body T)⟩ :: rest ∧
      t.mutex = Function.update s.mutex T (some i) := by
  refine ⟨_, _, .next (Moves.step (.loads_absent absent) here) <|
    .next (Moves.step (.locks ?_) moved_self) <|
    .single (Moves.step (.reloads_absent ?_) moved_self), moved_self, rfl⟩
  · exact free
  · exact absent

/-- The constructor has returned: the thread publishes the instance and leaves. -/
theorem leaves (here : s.threads i = ⟨T, .construct .body []⟩ :: rest) :
    ∃ tr t, Run (Step needs) s tr t ∧ t.threads i = rest ∧
      t.mutex = Function.update s.mutex T none ∧ t.stored T = true := by
  refine ⟨_, _, .next (Moves.completes.step here) <| .next (Moves.stores.step moved_self) <|
    .next (Moves.registers.step moved_self) <| .next (Moves.unlocks.step moved_self) <|
    .single (Moves.returns.step moved_self), moved_self, rfl, ?_⟩
  exact Function.update_self ..

/-- A thread by itself gets the instance, when the class and those below it have no owner. -/
def Builds (needs : Part → Θ → List Θ) (i : ι) (T : Θ) : Prop :=
  ∀ s rest, s.threads i = ⟨T, .test⟩ :: rest →
    (∀ U, Relation.ReflTransGen (Called (needs .body)) U T → s.mutex U = none) →
    ∃ tr t, Run (Step needs) s tr t ∧ t.threads i = rest ∧ t.mutex = s.mutex ∧ t.stored T = true

theorem builds_left (each : ∀ U ∈ left, Builds needs i U)
    (here : s.threads i = ⟨T, .construct .body left⟩ :: rest)
    (free : ∀ U ∈ left, ∀ V, Relation.ReflTransGen (Called (needs .body)) V U → s.mutex V = none) :
    ∃ tr t, Run (Step needs) s tr t ∧ t.threads i = ⟨T, .construct .body []⟩ :: rest ∧
      t.mutex = s.mutex := by
  induction left generalizing s with
  | nil => exact ⟨[], s, .refl s, here, rfl⟩
  | cons U left ih =>
    have asks : Step needs s (i, .obtains U) _ := Moves.step .obtains here
    obtain ⟨tr, t, run, below, mutex, _⟩ := each U List.mem_cons_self
      (s.moved i (.obtains U) (⟨U, .test⟩ :: ⟨T, .construct .body left⟩ :: rest)) _ moved_self
      (free U List.mem_cons_self)
    obtain ⟨tr', t', run', done, mutex'⟩ :=
      ih (fun V member => each V (List.mem_cons_of_mem _ member)) below fun V member W under =>
        (congrFun mutex W).trans (free V (List.mem_cons_of_mem _ member) W under)
    exact ⟨_, t', .next asks (run.trans run'), done, mutex'.trans mutex⟩

theorem builds (acc : Acc (Called (needs .body)) T) (i : ι) : Builds needs i T := by
  induction acc with
  | intro T below ih =>
    intro s rest here free
    have mine : s.mutex T = none := free T .refl
    cases set : s.stored T with
    | true =>
      exact ⟨_, _, .next ((Moves.loads_set set).step here) <| .single (Moves.returns.step moved_self),
        moved_self, rfl, set⟩
    | false =>
      obtain ⟨tr, t, run, inside, mutex⟩ := enters here set mine
      have apart : ∀ U ∈ needs .body T, ∀ V,
          Relation.ReflTransGen (Called (needs .body)) V U → t.mutex V = none := by
        intro U need V under
        have path : Relation.TransGen (Called (needs .body)) V T := .tail' under need
        have other : V ≠ T := by
          rintro rfl
          exact acyclic (.intro V below) path
        rw [mutex, Function.update_of_ne other]
        exact free V path.to_reflTransGen
      obtain ⟨tr', t', run', ready, mutex'⟩ := builds_left (fun U need => ih U need) inside apart
      obtain ⟨tr'', t'', run'', done, mutex'', stored⟩ := leaves ready
      refine ⟨_, t'', run.trans (run'.trans run''), done, ?_, stored⟩
      rw [mutex'', mutex', mutex, Function.update_idem, ← mine, Function.update_eq_self]

theorem obtainable (acc : Acc (Called (needs .body)) T) (i : ι) :
    ∃ tr s, Run (Step needs) (start : Singletons Θ ι) tr s ∧ s.threads i = [] ∧
      s.stored T = true := by
  obtain ⟨tr, t, run, done, _, stored⟩ := builds acc i
    (start.moved i (.calls T) [⟨T, .test⟩]) [] moved_self fun _ _ => rfl
  exact ⟨_, t, .next (Moves.step .calls rfl) run, done, stored⟩

/-- A class gets an instance in some run, of any threads, if and only if no constructor that
is reached from it, through the instances that constructors obtain, comes back to its own
class. -/
theorem constructible_iff (needs : Part → Θ → List Θ) (i : ι) (T : Θ) :
    (∃ tr s, Run (Step needs) (start : Singletons Θ ι) tr s ∧ s.stored T = true) ↔
      Acc (Called (needs .body)) T := by
  constructor
  · rintro ⟨tr, s, run, set⟩
    exact (Sound.of_run run).founded T set
  · intro acc
    obtain ⟨tr, s, run, _, stored⟩ := obtainable acc i
    exact ⟨tr, s, run, stored⟩

/-- Class 0 obtains class 1, which obtains itself; class 2 obtains none. -/
theorem constructible_iff_itself :
    let needs : Part → Fin 3 → List (Fin 3) := fun _ T => if T = 2 then [] else [1]
    (∃ tr s, Run (Step needs) (start : Singletons (Fin 3) Bool) tr s ∧ s.stored 2 = true) ∧
      ¬∃ tr s, Run (Step needs) (start : Singletons (Fin 3) Bool) tr s ∧ s.stored 0 = true := by
  intro needs
  constructor
  · rw [constructible_iff needs false]
    exact .intro 2 fun U need => absurd need List.not_mem_nil
  · rw [constructible_iff needs false]
    intro acc
    have below : Called (needs .body) 1 0 := List.mem_singleton_self 1
    have itself : Called (needs .body) 1 1 := List.mem_singleton_self 1
    exact acyclic (acc.inv below) (.single itself)

end

/-- What is stored was founded on stored classes. -/
theorem Sound.founded_on (sound : Sound needs s) (set : s.stored U = true)
    (path : Relation.TransGen (Called (needs .body)) T U) : s.stored T = true := by
  induction path using Relation.TransGen.head_induction_on with
  | single need => exact sound.closed _ set _ need
  | head need _ ih => exact sound.closed _ ih _ need

/-- While a class is being constructed, by its constructor or what reports its failure, no
class whose constructor comes back to it gets past the call: the instance is not there. -/
theorem Sound.waits (sound : Sound needs s)
    (here : s.threads i = ⟨T, .construct part left⟩ :: rest) (need : U ∈ needs part T)
    (path : Relation.TransGen (Called (needs .body)) T U) : U ∈ left := by
  have proper := sound.proper i
  have pending := sound.pending i
  rw [here] at proper pending
  obtain waiting | none | past := proper.1.2 U need
  · exact waiting
  · cases none
  · have absent : s.stored T = false := pending _ List.mem_cons_self
    rw [sound.founded_on past path] at absent
    cases absent

section
variable [DecidableEq Θ] [DecidableEq ι]

/-- A thread that waits for a mutex it has never moves again. -/
theorem Exclusive.stays (exclusive : Exclusive s) (here : s.threads i = ⟨T, .lock⟩ :: rest)
    (mine : T ∈ held rest) (run : Run (Step needs) s tr t) : t.threads i = s.threads i := by
  suffices kept : Exclusive t ∧ t.threads i = ⟨T, .lock⟩ :: rest from kept.2.trans here.symm
  apply run.invariant (P := fun s => Exclusive s ∧ s.threads i = ⟨T, .lock⟩ :: rest) ?_
    ⟨exclusive, here⟩
  rintro s ⟨j, e⟩ t ⟨exclusive, here⟩ step
  refine ⟨exclusive.step step, ?_⟩
  cases step with
  | moves _ moves =>
    by_cases same : i = j
    · subst same
      have owned : s.mutex T = some i := (exclusive.owner T i).mpr (here ▸ mine)
      rw [here] at moves
      cases moves with
      | locks free =>
        rw [free] at owned
        cases owned
    · rwa [moved_ne same]

end

end Singletons

namespace Class
open Singletons
variable {ι : Type} [DecidableEq ι] {minions : Nat}

/-- Each thread can get an instance of each class of the program. -/
theorem obtained (minions : Nat) (i : ι) (T : Class) : ∃ tr s,
    Run (Step (needs minions)) (start : Singletons Class ι) tr s ∧ s.threads i = [] ∧
      s.stored T = true :=
  obtainable (founded minions T) i

/-- A thread in the handler of `ReadConfigFile`, where only an exception such as `bad_alloc`
leads, never throws `ConfigFailException`: the logger that `LOG_ERROR` asks for needs the
configuration, and a thread that waits for it holds the mutex it waits for, and stays. -/
theorem configFail_hangs {tr : List (ι × Event Class)} {s : Singletons Class ι}
    (run : Run (Step (needs minions)) start tr s) (i : ι) (rest : List (Call Class)) :
    s.threads i ≠ ⟨configManager, .construct .handler []⟩ :: rest ∧
    ∀ above, s.threads i =
        ⟨configManager, .lock⟩ :: above ++ ⟨configManager, .construct .handler []⟩ :: rest →
      ∀ tr' t, Run (Step (needs minions)) s tr' t → t.threads i = s.threads i := by
  have sound := Sound.of_run run
  have back : Relation.TransGen (Called (needs minions .body)) configManager logger :=
    .single (List.mem_singleton_self _)
  constructor
  · intro here
    have left := sound.waits here (U := logger) (List.mem_singleton_self _) back
    cases left
  · intro above here tr' t later
    refine sound.exclusive.stays here ?_ later
    simp [held, Point.locked]

/-- An exception leads the first thread to the handler, and it waits for itself. -/
theorem configFail_hangs_alone : ∃ tr s, Run (Step (needs 2)) (start : Singletons Class (Fin 2)) tr s ∧
    s.threads 0 = [⟨configManager, .lock⟩, ⟨logger, .construct .body []⟩,
      ⟨configManager, .construct .handler []⟩] ∧
    ∀ tr' t, Run (Step (needs 2)) s tr' t → t.threads 0 = s.threads 0 := by
  have run : ∃ tr s, Run (Step (needs 2)) (start : Singletons Class (Fin 2)) tr s ∧
      s.threads 0 = [⟨configManager, .lock⟩, ⟨logger, .construct .body []⟩,
        ⟨configManager, .construct .handler []⟩] :=
    ⟨[(0, .calls configManager), (0, .loads configManager), (0, .locks configManager),
      (0, .reloads configManager), (0, .catches configManager), (0, .obtains logger),
      (0, .loads logger), (0, .locks logger), (0, .reloads logger), (0, .obtains configManager),
      (0, .loads configManager)], _,
      .next (Moves.step .calls rfl) <| .next (Moves.step .loads rfl) <|
      .next (Moves.step (.locks rfl) rfl) <| .next (Moves.step .reloads rfl) <|
      .next (Moves.step .catches rfl) <| .next (Moves.step .obtains rfl) <|
      .next (Moves.step .loads rfl) <| .next (Moves.step (.locks rfl) rfl) <|
      .next (Moves.step .reloads rfl) <| .next (Moves.step .obtains rfl) <|
      .single (Moves.step .loads rfl), rfl⟩
  obtain ⟨tr, s, run, here⟩ := run
  exact ⟨tr, s, run, here, (configFail_hangs run 0 []).2 [⟨logger, .construct .body []⟩] here⟩

end Class
end DistributedDisk
