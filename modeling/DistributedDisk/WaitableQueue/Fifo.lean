import DistributedDisk.WaitableQueue

/-! The values that go through a `WaitableQueue` on a `std::queue`, and what a timed `Pop`
that returns false leaves in it. -/
namespace DistributedDisk
open Transition

namespace WaitableQueue
variable {ι T : Type}

/-- The values of the `Push`es, in the order in which they had `m_mutex`. -/
def pushed (tr : List (ι × Event T)) : List T :=
  tr.filterMap fun | (_, .pushes data) => some data | _ => none

/-- The values of the successful `Pop`s, in the order in which they removed them. -/
def taken (tr : List (ι × Event T)) : List T :=
  tr.filterMap fun | (_, .takes data) => some data | _ => none

theorem pushed_append (tr tr' : List (ι × Event T)) :
    pushed (tr ++ tr') = pushed tr ++ pushed tr' := List.filterMap_append

theorem taken_append (tr tr' : List (ι × Event T)) :
    taken (tr ++ tr') = taken tr ++ taken tr' := List.filterMap_append

/-- The queue holds what was pushed and is not taken yet, in the order of the pushes. -/
def Fifo (tr : List (ι × Event T)) (queue : List T) : Prop := taken tr ++ queue = pushed tr

theorem Fifo.empty_iff {tr : List (ι × Event T)} {queue : List T} (fifo : Fifo tr queue) :
    queue = [] ↔ (taken tr).length = (pushed tr).length := by
  have total := congrArg List.length fifo
  rw [List.length_append] at total
  constructor
  · intro none
    rw [← total, none]
    rfl
  · intro all
    apply List.eq_nil_of_length_eq_zero
    omega

variable [DecidableEq ι]

def Event.isWait : Event T → Bool
  | .waits => true
  | _ => false

/-- The events since the thread `i` last found the queue empty. -/
def since (i : ι) (tr : List (ι × Event T)) : List (ι × Event T) :=
  tr.foldl (fun past label =>
    if label.1 = i ∧ label.2.isWait then [] else past ++ [label]) []

theorem since_append (i : ι) (tr : List (ι × Event T)) (label : ι × Event T) :
    since i (tr ++ [label]) =
      if label.1 = i ∧ label.2.isWait then [] else since i tr ++ [label] := by
  rw [since, List.foldl_append, List.foldl_cons, List.foldl_nil]
  rfl

variable {s t : WaitableQueue ι (List T)} {past tr : List (ι × Event T)} {items left : List T}

omit [DecidableEq ι] in
theorem Fifo.tests (fifo : Fifo past items)
    (tests : Tests (stdQueue T) items deadline e left client) (i : ι) : Fifo (past ++ [(i, e)]) left := by
  cases tests with
  | waits => simpa [Fifo, pushed, taken] using fifo
  | takes full =>
    cases items with
    | nil => cases full
    | cons head rest => simpa [Fifo, pushed, taken, stdQueue] using fifo

theorem Fifo.step (fifo : Fifo past s.queue) (step : Step (stdQueue T) s (i, e) t) :
    Fifo (past ++ [(i, e)]) t.queue := by
  cases step with
  | pushes data =>
    have more := congrArg (· ++ [data]) fifo
    simpa [Fifo, pushed, taken, stdQueue] using more
  | enters _ _ tests | resumes _ tests => exact fifo.tests tests i
  | timesOut | wakes | expires => simpa [Fifo, pushed, taken] using fifo

theorem inside_of_update {threads : ι → Client} (old : threads i ≠ .idle)
    (now : Function.update threads i client j ≠ .idle) : threads j ≠ .idle := by
  by_cases same : j = i
  · rwa [same]
  · rwa [Function.update_of_ne same] at now

/-- A thread in a `Pop` has just found the queue empty, or was in it before. -/
theorem Tests.inside {threads : ι → Client}
    (tests : Tests (stdQueue T) items deadline e left client)
    (now : Function.update threads i client j ≠ .idle) :
    (i = j ∧ e.isWait = true) ∧ left = [] ∨
      ¬(i = j ∧ e.isWait = true) ∧ threads j ≠ .idle := by
  by_cases same : j = i
  · subst same
    rw [Function.update_self] at now
    cases tests with
    | waits none => exact .inl ⟨⟨rfl, rfl⟩, List.isEmpty_iff.mp none⟩
    | takes => exact absurd rfl now
  · rw [Function.update_of_ne same] at now
    exact .inr ⟨fun here => same here.1.symm, now⟩

theorem Step.inside (step : Step (stdQueue T) s (i, e) t) (now : t.threads j ≠ .idle) :
    (i = j ∧ e.isWait = true) ∧ t.queue = [] ∨
      ¬(i = j ∧ e.isWait = true) ∧ s.threads j ≠ .idle := by
  cases step with
  | pushes data _ notify =>
    refine .inr ⟨fun here => Bool.false_ne_true here.2, ?_⟩
    cases notify with
    | none => exact now
    | one k blocked => exact inside_of_update (by rw [blocked]; nofun) now
  | enters _ _ tests | resumes _ tests => exact tests.inside now
  | timesOut woken =>
    exact .inr ⟨fun here => Bool.false_ne_true here.2,
      inside_of_update (by rw [woken]; nofun) now⟩
  | wakes blocked =>
    exact .inr ⟨fun here => Bool.false_ne_true here.2,
      inside_of_update (by rw [blocked]; nofun) now⟩
  | expires expires =>
    refine .inr ⟨fun here => Bool.false_ne_true here.2, inside_of_update ?_ now⟩
    intro idle
    rw [idle] at expires
    cases expires

/-- The queue is a FIFO from the start, and from the last wait of each thread in a `Pop`. -/
structure Ordered (tr : List (ι × Event T)) (s : WaitableQueue ι (List T)) : Prop where
  whole : Fifo tr s.queue
  since : ∀ i, s.threads i ≠ .idle → Fifo (since i tr) s.queue

theorem Ordered.step (ordered : Ordered tr s) (step : Step (stdQueue T) s (i, e) t) :
    Ordered (tr ++ [(i, e)]) t := by
  constructor
  · exact ordered.whole.step step
  · intro j now
    rw [since_append]
    obtain ⟨here, none⟩ | ⟨elsewhere, before⟩ := step.inside now
    · rw [if_pos here, none]
      rfl
    · rw [if_neg elsewhere]
      exact (ordered.since j before).step step

theorem ordered (run : Run (Step (stdQueue T)) (start (stdQueue T)) tr s) : Ordered tr s := by
  apply run.history
  · exact ⟨rfl, fun i inside => absurd rfl inside⟩
  · intro tr t label u ordered step
    exact ordered.step step

/-- Since the thread `i` last found the queue empty, every value that was pushed has been
taken by another thread. -/
def Overtaken (i : ι) (tr : List (ι × Event T)) : Prop :=
  (taken (since i tr)).length = (pushed (since i tr)).length

/-- What was taken is what was pushed, in the order of the pushes, up to what is queued,
and a timed `Pop` returns false on an empty queue only where others have taken all that
was pushed while it waited. -/
theorem fifo (run : Run (Step (stdQueue T)) (start (stdQueue T)) tr s) :
    taken tr ++ s.queue = pushed tr ∧
      ∀ i t, Step (stdQueue T) s (i, .timesOut) t → (s.queue = [] ↔ Overtaken i tr) := by
  have ordered := ordered run
  constructor
  · exact ordered.whole
  · intro i t step
    have inside : s.threads i ≠ .idle := by
      cases step with
      | enters _ _ tests | resumes _ tests => cases tests
      | timesOut woken =>
        rw [woken]
        nofun
    exact (ordered.since i inside).empty_iff

/-- The element that was pushed while thread 0 waited is taken by thread 2. -/
theorem fifo_overtaken : ∃ tr s t, Run (Step (stdQueue Nat))
    (start (stdQueue Nat) : WaitableQueue (Fin 3) (List Nat)) tr s ∧
      Step (stdQueue Nat) s (0, .timesOut) t ∧ taken tr ++ s.queue = [7] ∧ s.queue = [] := by
  have run : ∃ s, Run (Step (stdQueue Nat))
      (start (stdQueue Nat) : WaitableQueue (Fin 3) (List Nat))
      [(0, .waits), (1, .pushes 7), (2, .takes 7), (0, .expires)] s ∧
        s.threads 0 = .woken (some true) :=
    ⟨_, .next (.enters (some false) rfl (.waits rfl)) <| .next (.pushes 7 rfl (.one 0 rfl)) <|
      .next (.enters none rfl (.takes rfl)) <| .single (.expires .woken), rfl⟩
  obtain ⟨s, run, woken⟩ := run
  obtain ⟨order, empty_iff⟩ := fifo run
  exact ⟨_, s, _, run, .timesOut woken, order, (empty_iff 0 _ (.timesOut woken)).mpr rfl⟩

/-- Nobody takes it, and the deadline passes before thread 0 has `m_mutex` back. -/
theorem fifo_fails : ∃ tr s t, Run (Step (stdQueue Nat))
    (start (stdQueue Nat) : WaitableQueue (Fin 2) (List Nat)) tr s ∧
      Step (stdQueue Nat) s (0, .timesOut) t ∧ s.queue = [7] :=
  ⟨[(0, .waits), (1, .pushes 7), (0, .expires)], _, _,
    .next (.enters (some false) rfl (.waits rfl)) <| .next (.pushes 7 rfl (.one 0 rfl)) <|
      .single (.expires .woken), .timesOut rfl, rfl⟩

end WaitableQueue
end DistributedDisk
