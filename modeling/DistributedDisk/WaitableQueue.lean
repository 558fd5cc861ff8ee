import DistributedDisk.Core.Transition
import DistributedDisk.Core.Counting

/-! `WaitableQueue`: any number of threads in `Push`, `Pop` and the timed `Pop`. What a
thread does from when it gets `m_mutex` until it gives it back, or waits, is one
step. -/
namespace DistributedDisk
open Transition

/-- What `WaitableQueue` asks of its `CONTAINER`; there is no `front` of an empty one. -/
structure Container (C T : Type) where
  new : C
  size : C → Nat
  empty : C → Bool
  push : C → T → C
  front : (c : C) → empty c = false → T
  pop : C → C
  size_new : size new = 0
  empty_iff : ∀ c, empty c = true ↔ size c = 0
  size_push : ∀ c data, size (push c data) = size c + 1
  size_pop : ∀ c, empty c = false → size (pop c) + 1 = size c

def stdQueue (T : Type) : Container (List T) T where
  new := []
  size := List.length
  empty := List.isEmpty
  push queue data := queue ++ [data]
  front queue full := queue.head (List.isEmpty_eq_false_iff.mp full)
  pop := List.tail
  size_new := rfl
  empty_iff queue := by rw [List.isEmpty_iff, List.length_eq_zero_iff]
  size_push queue data := List.length_append
  size_pop queue full := by
    cases queue with
    | nil => cases full
    | cons => rfl

namespace WaitableQueue

/-- Where a thread is. A `Pop` without a timeout has no `deadline`; that of a timed
one tells whether `wakeup` has passed. A `woken` thread was notified, or woke up
otherwise, and does not have `m_mutex` yet. -/
inductive Client where
  | idle
  | blocked (deadline : Option Bool)
  | woken (deadline : Option Bool)
  deriving DecidableEq

/-- `takes` is a `Pop` that removes an element, `timesOut` one that returns false. -/
inductive Event (T : Type) where
  | pushes (data : T)
  | waits
  | wakes
  | expires
  | takes (data : T)
  | timesOut

end WaitableQueue

structure WaitableQueue (ι C : Type) where
  queue : C
  threads : ι → WaitableQueue.Client

namespace WaitableQueue

inductive NotifyOne {ι : Type} [DecidableEq ι] (threads : ι → Client) : (ι → Client) → Prop where
  | none : (∀ i deadline, threads i ≠ .blocked deadline) → NotifyOne threads threads
  | one (i : ι) : threads i = .blocked deadline →
      NotifyOne threads (Function.update threads i (.woken deadline))

inductive Expires : Client → Client → Prop where
  | blocked : Expires (.blocked (some false)) (.blocked (some true))
  | woken : Expires (.woken (some false)) (.woken (some true))

variable {ι C T : Type} [DecidableEq ι] (container : Container C T)

def start : WaitableQueue ι C where
  queue := container.new
  threads := fun _ => .idle

/-- The test of the loop of a `Pop`, with what follows until `m_mutex` is given back. -/
inductive Tests (queue : C) (deadline : Option Bool) : Event T → C → Client → Prop where
  | waits : container.empty queue = true → Tests queue deadline .waits queue (.blocked deadline)
  | takes (full : container.empty queue = false) :
      Tests queue deadline (.takes (container.front queue full)) (container.pop queue) .idle

/-- One thread moves. The deadline of a timed `Pop` may have passed before it gets
`m_mutex` for the first time; `wait_until` may tell a notified thread of a timeout. -/
inductive Step (s : WaitableQueue ι C) : ι × Event T → WaitableQueue ι C → Prop where
  | pushes (data : T) : s.threads i = .idle → NotifyOne s.threads clients →
      Step s (i, .pushes data) { queue := container.push s.queue data, threads := clients }
  | enters (deadline : Option Bool) : s.threads i = .idle →
      Tests container s.queue deadline e left client →
      Step s (i, e) { queue := left, threads := Function.update s.threads i client }
  | resumes : s.threads i = .woken deadline → Tests container s.queue deadline e left client →
      Step s (i, e) { queue := left, threads := Function.update s.threads i client }
  | timesOut : s.threads i = .woken (some true) →
      Step s (i, .timesOut) { s with threads := Function.update s.threads i .idle }
  | wakes : s.threads i = .blocked deadline →
      Step s (i, .wakes) { s with threads := Function.update s.threads i (.woken deadline) }
  | expires : Expires (s.threads i) client →
      Step s (i, .expires) { s with threads := Function.update s.threads i client }

end WaitableQueue
end DistributedDisk
