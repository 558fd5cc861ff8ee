import DistributedDisk.Core.Transition

/-! Sequential programs that talk to an outside world: in each state the program
emits an output, waits for an input, or has returned. Only the inputs are open;
everything else about a run is determined by the program. -/
namespace Reactive
open Transition
variable {O Q I S T : Type}

/-- What the program does next. A wait names what it waits on (`Q`). -/
inductive Action (O Q I S : Type) where
  | output (o : O) (next : S)
  | input (q : Q) (next : I → S)
  | halt

inductive Event (O Q I : Type) where
  | output (o : O)
  | input (q : Q) (i : I)

inductive Fires : Action O Q I S → Event O Q I → S → Prop where
  | output (o : O) (s : S) : Fires (.output o s) (.output o) s
  | input (q : Q) (i : I) (k : I → S) : Fires (.input q k) (.input q i) (k i)

def Step (next : S → Action O Q I S) (s : S) (e : Event O Q I) (t : S) : Prop := Fires (next s) e t

def Action.map (f : S → T) : Action O Q I S → Action O Q I T
  | .output o s => .output o (f s)
  | .input q k => .input q fun i => f (k i)
  | .halt => .halt

theorem Fires.map {a : Action O Q I S} (f : S → T) (fires : Fires a e s) :
    Fires (a.map f) e (f s) := by
  cases fires with
  | output o s => exact .output o (f s)
  | input q i k => exact .input q i fun i => f (k i)

theorem Fires.of_map {a : Action O Q I S} {f : S → T} (fires : Fires (a.map f) e t) :
    ∃ s, Fires a e s ∧ t = f s := by
  cases a with
  | output o s => cases fires; exact ⟨s, .output o s, rfl⟩
  | input q k => cases fires with | input q i k' => exact ⟨k i, .input q i k, rfl⟩
  | halt => cases fires

def inputs (tr : List (Event O Q I)) : List I :=
  tr.filterMap fun | .input _ i => some i | .output _ => none

def outputs (tr : List (Event O Q I)) : List O :=
  tr.filterMap fun | .output o => some o | .input _ _ => none

section
variable (o : O) (q : Q) (i : I) (tr tr' : List (Event O Q I))

@[simp] theorem inputs_nil : inputs ([] : List (Event O Q I)) = [] := rfl
@[simp] theorem outputs_nil : outputs ([] : List (Event O Q I)) = [] := rfl
@[simp] theorem inputs_input : inputs (.input q i :: tr) = i :: inputs tr := rfl
@[simp] theorem inputs_output : inputs (.output o :: tr) = inputs tr := rfl
@[simp] theorem outputs_input : outputs (.input q i :: tr) = outputs tr := rfl
@[simp] theorem outputs_output : outputs (.output o :: tr) = o :: outputs tr := rfl

@[simp] theorem inputs_append : inputs (tr ++ tr') = inputs tr ++ inputs tr' :=
  List.filterMap_append

@[simp] theorem outputs_append : outputs (tr ++ tr') = outputs tr ++ outputs tr' :=
  List.filterMap_append

end

theorem mem_inputs {i : I} {tr : List (Event O Q I)} : i ∈ inputs tr ↔ ∃ q, .input q i ∈ tr := by
  constructor
  · intro member
    obtain ⟨e, he, same⟩ := List.mem_filterMap.mp member
    cases e with
    | output o => cases same
    | input q i' => cases same; exact ⟨q, he⟩
  · rintro ⟨q, member⟩
    exact List.mem_filterMap.mpr ⟨_, member, rfl⟩

end Reactive

namespace Transition.Run
open Reactive
variable {O Q I S T : Type} {next : S → Action O Q I S}

/-- A program that has returned makes no further step. -/
theorem of_halt (run : Run (Step next) s tr t) (halted : next s = .halt) : tr = [] ∧ t = s := by
  cases run with
  | refl => exact ⟨rfl, rfl⟩
  | next head _ =>
    rw [Step, halted] at head
    cases head

/-- A program about to emit `o` does nothing else first. -/
theorem of_output (run : Run (Step next) s tr t) (emits : next s = .output o s') :
    (tr = [] ∧ t = s) ∨ ∃ rest, tr = .output o :: rest ∧ Run (Step next) s' rest t := by
  cases run with
  | refl => exact .inl ⟨rfl, rfl⟩
  | next head rest =>
    rw [Step, emits] at head
    cases head
    exact .inr ⟨_, rfl, rest⟩

/-- A waiting program takes one input on what it waits for. -/
theorem of_input (run : Run (Step next) s tr t) (waits : next s = .input q k) :
    (tr = [] ∧ t = s) ∨ ∃ i rest, tr = .input q i :: rest ∧ Run (Step next) (k i) rest t := by
  cases run with
  | refl => exact .inl ⟨rfl, rfl⟩
  | next head rest =>
    rw [Step, waits] at head
    cases head with
    | input q i k => exact .inr ⟨i, _, rfl, rest⟩

/-- A program inside a larger one, with the same actions, has the same runs. -/
theorem map {next' : T → Action O Q I T} (f : S → T) (inside : ∀ s, next' (f s) = (next s).map f)
    (run : Run (Step next) s tr t) : Run (Step next') (f s) tr (f t) := by
  induction run with
  | refl => exact .refl _
  | next head _ ih =>
    refine .next ?_ ih
    rw [Step, inside]
    exact head.map f

theorem of_map {next' : T → Action O Q I T} (f : S → T)
    (inside : ∀ s, next' (f s) = (next s).map f) (run : Run (Step next') (f s) tr u) :
    ∃ t, u = f t ∧ Run (Step next) s tr t := by
  induction tr generalizing s with
  | nil =>
    cases run
    exact ⟨s, rfl, .refl s⟩
  | cons e tr ih =>
    cases run with
    | next head rest =>
      rw [Step, inside] at head
      obtain ⟨s', fires, rfl⟩ := head.of_map
      obtain ⟨t, rfl, run⟩ := ih rest
      exact ⟨t, rfl, .next fires run⟩

end Transition.Run
