import DistributedDisk.ThreadPool
import DistributedDisk.WaitableQueue.Fifo
import Mathlib.Data.List.Sort
import Mathlib.Data.Multiset.AddSub

/-! The queue of the pool's tasks: a `WaitableQueue` on a `PQWrapper`, ordered by
`std::less` on pairs of a priority and a shared pointer. -/
namespace DistributedDisk
open Transition

/-- `std::priority_queue` under a comparison: its `top` is an element that is less than
no other. -/
structure PriorityQueue (C T : Type) (less : T → T → Prop) extends Container C T where
  contents : C → Multiset T
  contents_new : contents new = 0
  contents_push : ∀ c data, contents (push c data) = data ::ₘ contents c
  contents_pop : ∀ c full, front c full ::ₘ contents (pop c) = contents c
  greatest : ∀ c full, ∀ other ∈ contents c, ¬ less (front c full) other

namespace WaitableQueue
variable {ι C T : Type} {less : T → T → Prop}

/-- The queue holds what was pushed and is not taken yet. -/
def Holds (pq : PriorityQueue C T less) (tr : List (ι × Event T)) (queue : C) : Prop :=
  ↑(taken tr) + pq.contents queue = ↑(pushed tr)

variable {pq : PriorityQueue C T less} {past tr : List (ι × Event T)} {items left : C}

theorem Holds.tests (holds : Holds pq past items)
    (tests : Tests pq.toContainer items deadline e left client) (i : ι) :
    Holds pq (past ++ [(i, e)]) left := by
  cases tests with
  | waits => simpa [Holds, pushed, taken] using holds
  | takes full =>
    have more : taken (past ++ [(i, .takes (pq.front items full))]) =
        taken past ++ [pq.front items full] := List.filterMap_append
    have same : pushed (past ++ [(i, .takes (pq.front items full))]) = pushed past :=
      List.filterMap_append.trans (List.append_nil _)
    rw [Holds, more, same, ← Multiset.coe_add, add_assoc, Multiset.coe_singleton,
      Multiset.singleton_add, pq.contents_pop]
    exact holds

variable [DecidableEq ι] {s t : WaitableQueue ι C}

theorem Holds.step (holds : Holds pq past s.queue) (step : Step pq.toContainer s (i, e) t) :
    Holds pq (past ++ [(i, e)]) t.queue := by
  cases step with
  | pushes data =>
    have same : taken (past ++ [(i, .pushes data)]) = taken past :=
      List.filterMap_append.trans (List.append_nil _)
    have more : pushed (past ++ [(i, .pushes data)]) = pushed past ++ [data] :=
      List.filterMap_append
    rw [Holds, same, more, pq.contents_push, ← Multiset.coe_add, ← holds,
      Multiset.coe_singleton, Multiset.add_cons, add_comm _ ({data} : Multiset T),
      Multiset.singleton_add]
  | enters _ _ tests | resumes _ tests => exact holds.tests tests i
  | timesOut | wakes | expires => simpa [Holds, pushed, taken] using holds

theorem holds (run : Run (Step pq.toContainer) (start pq.toContainer) tr s) :
    Holds pq tr s.queue := by
  apply run.history
  · exact (zero_add _).trans pq.contents_new
  · intro tr t label u holds step
    exact holds.step step

theorem Step.takes {container : Container C T} (step : Step container s (i, .takes data) t) :
    ∃ full, data = container.front s.queue full ∧ t.queue = container.pop s.queue := by
  cases step with
  | enters _ _ tests | resumes _ tests =>
    cases tests with
    | takes full => exact ⟨full, rfl, rfl⟩

end WaitableQueue

namespace ThreadPool
open WaitableQueue

/-- The first component decides, and between equal ones the control blocks by which the
shared pointers are compared. -/
theorem Pair.not_less {a b : Pair} : ¬ a.Less b ↔ b.priority.value ≤ a.priority.value ∧
    (b.priority.value = a.priority.value → ¬ a.pointer.Less b.pointer) := by
  simp only [Pair.Less, SharedPtr.Less]
  omega

instance (a b : SharedPtr) : Decidable (a.Less b) := inferInstanceAs (Decidable (_ < _))

instance (a b : Pair) : Decidable (a.Less b) := inferInstanceAs (Decidable (_ ∨ _))

/-- The order in which pairs leave the queue. -/
abbrev Pair.Precedes (a b : Pair) : Prop := ¬ a.Less b

instance : Std.Total Pair.Precedes where
  total a b := by
    simp only [Pair.Precedes, Pair.not_less, SharedPtr.Less]
    omega

instance : IsTrans Pair Pair.Precedes where
  trans a b c first second := by
    simp only [Pair.Precedes, Pair.not_less, SharedPtr.Less] at first second ⊢
    omega

/-- `PQWrapper` on the pool's pairs, here as a list in the order in which they leave. -/
def pqWrapper : PriorityQueue {queue : List Pair // queue.Pairwise Pair.Precedes} Pair
    Pair.Less where
  new := ⟨[], .nil⟩
  size queue := queue.1.length
  empty queue := queue.1.isEmpty
  push queue data := ⟨queue.1.orderedInsert Pair.Precedes data, queue.2.orderedInsert data _⟩
  front queue full := queue.1.head (List.isEmpty_eq_false_iff.mp full)
  pop queue := ⟨queue.1.tail, queue.2.tail⟩
  contents queue := ↑queue.1
  size_new := rfl
  empty_iff queue := by rw [List.isEmpty_iff, List.length_eq_zero_iff]
  size_push queue data := List.orderedInsert_length ..
  size_pop queue full := by
    obtain ⟨_ | ⟨head, rest⟩, sorted⟩ := queue
    · cases full
    · rfl
  contents_new := rfl
  contents_push queue data := Multiset.coe_eq_coe.mpr (List.perm_orderedInsert ..)
  contents_pop queue full := by
    obtain ⟨_ | ⟨head, rest⟩, sorted⟩ := queue
    · cases full
    · rfl
  greatest queue full other member := by
    obtain ⟨_ | ⟨head, rest⟩, sorted⟩ := queue
    · cases full
    · obtain rfl | later := List.mem_cons.mp (Multiset.mem_coe.mp member)
      · simp [Pair.not_less]
      · exact (List.pairwise_cons.mp sorted).1 other later

variable {ι C : Type} [DecidableEq ι] {pq : PriorityQueue C Pair Pair.Less}
  {tr : List (ι × WaitableQueue.Event Pair)} {s t : WaitableQueue ι C}

/-- A worker gets one of the tasks that were added and are not taken yet: of the
highest priority, whose shared pointer is less than none of its equals'. -/
theorem takes_greatest (run : Run (WaitableQueue.Step pq.toContainer) (WaitableQueue.start
    pq.toContainer) tr s) (step : WaitableQueue.Step pq.toContainer s (i, .takes pair) t) :
    ↑(taken tr) + pq.contents s.queue = ↑(pushed tr) ∧
      pair ::ₘ pq.contents t.queue = pq.contents s.queue ∧
      ∀ other ∈ pq.contents s.queue, other.priority.value ≤ pair.priority.value ∧
        (other.priority = pair.priority → ¬ pair.pointer.Less other.pointer) := by
  obtain ⟨full, rfl, popped⟩ := step.takes
  refine ⟨holds run, ?_, fun other queued => ?_⟩
  · rw [popped, pq.contents_pop]
  · obtain ⟨priority, pointer⟩ := Pair.not_less.mp (pq.greatest _ full other queued)
    exact ⟨priority, fun same => pointer (congrArg Priority.value same)⟩

/-- Two tasks as a proxy adds them, the second with its control block behind the first's. -/
def earlier : Pair := ⟨.normal, 1, .user 0⟩

def later : Pair := ⟨.normal, 2, .user 1⟩

/-- The second task is taken before the first, which was added before it. -/
theorem takes_later : ∃ s, Run (WaitableQueue.Step pqWrapper.toContainer)
    (WaitableQueue.start pqWrapper.toContainer : WaitableQueue (Fin 2) _)
    [(0, .pushes earlier), (0, .pushes later), (1, .takes later), (1, .takes earlier)] s ∧
      earlier.priority = later.priority :=
  ⟨_, .next (.pushes earlier rfl (.none nofun)) <| .next (.pushes later rfl (.none nofun)) <|
    .next (.enters none rfl (.takes rfl)) <| .single (.enters none rfl (.takes rfl)), rfl⟩

/-- The first of the two pops of that run, with what is left for the other. -/
theorem takes_greatest_second : ∃ s t : WaitableQueue (Fin 2) _,
    WaitableQueue.Step pqWrapper.toContainer s (1, .takes later) t ∧
      pqWrapper.contents s.queue = {later, earlier} ∧ pqWrapper.contents t.queue = {earlier} ∧
      ∀ other ∈ pqWrapper.contents s.queue, other.priority.value ≤ later.priority.value ∧
        (other.priority = later.priority → ¬ later.pointer.Less other.pointer) := by
  have run : ∃ s t, Run (WaitableQueue.Step pqWrapper.toContainer)
      (WaitableQueue.start pqWrapper.toContainer : WaitableQueue (Fin 2) _)
      [(0, .pushes earlier), (0, .pushes later)] s ∧
        WaitableQueue.Step pqWrapper.toContainer s (1, .takes later) t ∧
        pqWrapper.contents s.queue = {later, earlier} ∧ pqWrapper.contents t.queue = {earlier} :=
    ⟨_, _, .next (.pushes earlier rfl (.none nofun)) <| .single (.pushes later rfl (.none nofun)),
      .enters none rfl (.takes rfl), rfl, rfl⟩
  obtain ⟨s, t, run, step, before, after⟩ := run
  exact ⟨s, t, step, before, after, (takes_greatest run step).2.2⟩

end ThreadPool
end DistributedDisk
