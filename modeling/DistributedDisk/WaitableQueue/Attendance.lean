import DistributedDisk.WaitableQueue
import Mathlib.Data.Fintype.Basic

/-! The notifications of a `WaitableQueue`. `Push` wakes one thread for each element, and
a timed `Pop` that gives up may be the one that was woken. -/
namespace DistributedDisk
open Transition Counting

namespace WaitableQueue

/-- The thread will test the queue again. -/
def Client.attends : Client → Bool
  | .woken _ => true
  | _ => false

variable {ι C T : Type} [DecidableEq ι]

theorem Expires.keeps (expires : Expires client client') :
    client'.attends = client.attends ∧ client' ≠ .blocked none := by
  cases expires with
  | blocked | woken => exact ⟨rfl, nofun⟩

theorem blocked_of_update {threads : ι → Client} (client : Client) (other : client ≠ .blocked none)
    (here : Function.update threads i client j = .blocked none) : threads j = .blocked none := by
  by_cases same : j = i
  · rw [same, Function.update_self] at here
    exact absurd here other
  · rwa [Function.update_of_ne same] at here

variable [Fintype ι] (container : Container C T)

def attending (s : WaitableQueue ι C) : Nat := tally .univ Client.attends s.threads

/-- While a thread is blocked in `Pop`, each element has a thread that will come for
it. -/
def Attended (s : WaitableQueue ι C) : Prop :=
  ∀ i, s.threads i = .blocked none → container.size s.queue ≤ s.attending

/-- A timed `Pop` returns false only when the queue is empty, no thread is blocked in
`Pop`, or more threads attend to the queue than it has elements. -/
def Timely (s : WaitableQueue ι C) : ι × Event T → Prop
  | (_, .timesOut) => container.empty s.queue = true ∨ (∀ i, s.threads i ≠ .blocked none) ∨
      container.size s.queue < s.attending
  | _ => True

variable {container}

/-- A `Pop` blocks only when it has found the queue empty. -/
theorem Tests.cases {deadline : Option Bool} {e : Event T}
    (tests : Tests container before deadline e after client) : container.size after = 0 ∨
      client = .idle ∧ container.size after + 1 = container.size before := by
  cases tests with
  | waits none => exact .inl ((container.empty_iff before).mp none)
  | takes full => exact .inr ⟨rfl, container.size_pop before full⟩

variable {s t : WaitableQueue ι C}

theorem attending_wakes (blocked : s.threads i = .blocked deadline) (q : C) :
    attending ⟨q, Function.update s.threads i (.woken deadline)⟩ = s.attending + 1 :=
  tally_gains (Finset.mem_univ i) (by rw [blocked]; rfl) rfl

theorem attending_leaves (woken : s.threads i = .woken deadline) (q : C) :
    attending ⟨q, Function.update s.threads i .idle⟩ + 1 = s.attending :=
  tally_loses (Finset.mem_univ i) (by rw [woken]; rfl) rfl

theorem attending_stays (same : client.attends = (s.threads i).attends) (q : C) :
    attending ⟨q, Function.update s.threads i client⟩ = s.attending := tally_keeps _ same

theorem attended_timesOut (woken : s.threads i = .woken deadline) :
    Attended container { s with threads := Function.update s.threads i .idle } ↔
      Timely container s (i, .timesOut) := by
  have leaves := attending_leaves woken s.queue
  constructor
  · intro after
    by_cases quiet : ∀ j, s.threads j ≠ .blocked none
    · exact .inr (.inl quiet)
    · push Not at quiet
      obtain ⟨j, blocked⟩ := quiet
      have other : j ≠ i := by
        rintro rfl
        rw [blocked] at woken
        cases woken
      have enough := after j ((Function.update_of_ne other ..).trans blocked)
      exact .inr (.inr ((Nat.succ_le_succ enough).trans_eq leaves))
  · intro timely j here
    have blocked := blocked_of_update .idle nofun here
    obtain none | quiet | more := timely
    · rw [(container.empty_iff s.queue).mp none]
      exact Nat.zero_le _
    · exact absurd blocked (quiet j)
    · exact Nat.le_of_lt_succ (more.trans_eq leaves.symm)

theorem Attended.step (attended : Attended container s) (step : Step container s (i, e) t)
    (other : e ≠ .timesOut) : Attended container t := by
  intro j here
  cases step with
  | pushes data _ notify =>
    rw [container.size_push]
    cases notify with
    | none alone => exact absurd here (alone j none)
    | one k blocked =>
      rw [attending_wakes blocked]
      exact Nat.succ_le_succ (attended j (blocked_of_update (.woken _) nofun here))
  | enters _ idle tests =>
    obtain none | ⟨rfl, taken⟩ := tests.cases
    · rw [none]
      exact Nat.zero_le _
    · have old := attended j (blocked_of_update .idle nofun here)
      rw [attending_stays (by rw [idle])]
      exact (Nat.le_of_lt (Nat.lt_of_succ_le taken.le)).trans old
  | resumes woken tests =>
    obtain none | ⟨rfl, taken⟩ := tests.cases
    · rw [none]
      exact Nat.zero_le _
    · have old := attended j (blocked_of_update .idle nofun here)
      rw [← taken, ← attending_leaves woken] at old
      exact Nat.le_of_succ_le_succ old
  | timesOut => exact absurd rfl other
  | wakes blocked =>
    rw [attending_wakes blocked]
    exact Nat.le_succ_of_le (attended j (blocked_of_update (.woken _) nofun here))
  | expires expires =>
    obtain ⟨same, unblocked⟩ := expires.keeps
    rw [attending_stays same]
    exact attended j (blocked_of_update _ unblocked here)

/-- A timed `Pop` that gives up at the wrong moment is the only step to leave an
element behind. -/
theorem Attended.step_iff (attended : Attended container s) (step : Step container s (i, e) t) :
    Attended container t ↔ Timely container s (i, e) := by
  by_cases out : e = .timesOut
  · subst out
    cases step with
    | enters _ _ tests | resumes _ tests => cases tests
    | timesOut woken => exact attended_timesOut woken
  · refine iff_of_true (attended.step step out) ?_
    cases e with
    | timesOut => exact absurd rfl out
    | pushes | waits | wakes | expires | takes => trivial

/-- As long as timed `Pop`s return false in time, each element has its thread, and the
first one that does not leaves an element behind. -/
theorem attended_iff
    (run : Run (Under (Timely container) (Step container)) (start container) tr s) :
    Attended container s ∧
      ∀ e t, Step container s e t → (Attended container t ↔ Timely container s e) := by
  have attended : Attended container s := by
    apply run.invariant
    · intro s e t attended step
      exact (attended.step_iff step.1).mpr step.2
    · intro i blocked
      cases blocked
  exact ⟨attended, fun e t step => attended.step_iff step⟩

/-- One thread is blocked in `Pop`; another, in a timed `Pop`, was notified and is late. -/
theorem contested : ∃ tr s, Run (Under (Timely (stdQueue Nat)) (Step (stdQueue Nat)))
    (start (stdQueue Nat) : WaitableQueue (Fin 3) (List Nat)) tr s ∧ s.queue = [7] ∧
      s.threads 0 = .blocked none ∧ s.threads 1 = .woken (some true) ∧ s.attending = 1 :=
  ⟨[(0, .waits), (1, .waits), (2, .pushes 7), (1, .expires)], _,
    .next ⟨.enters none rfl (.waits rfl), trivial⟩ <|
    .next ⟨.enters (some false) rfl (.waits rfl), trivial⟩ <|
    .next ⟨.pushes 7 rfl (.one 1 rfl), trivial⟩ <| .single ⟨.expires .woken, trivial⟩,
    rfl, rfl, rfl, rfl⟩

/-- The late thread takes the element all the same. -/
theorem attended_iff_contested : ∃ tr s t, Run (Under (Timely (stdQueue Nat)) (Step (stdQueue Nat)))
    (start (stdQueue Nat) : WaitableQueue (Fin 3) (List Nat)) tr s ∧
      s.threads 0 = .blocked none ∧ 0 < s.queue.length ∧ Attended (stdQueue Nat) s ∧
      Step (stdQueue Nat) s (1, .takes 7) t ∧ Attended (stdQueue Nat) t := by
  obtain ⟨tr, s, run, queue, blocked, woken, _⟩ := contested
  have takes : ∃ t, Step (stdQueue Nat) s (1, .takes 7) t := by
    obtain ⟨left, threads⟩ := s
    cases queue
    exact ⟨_, .resumes woken (.takes rfl)⟩
  obtain ⟨t, takes⟩ := takes
  obtain ⟨attended, after⟩ := attended_iff run
  have some : 0 < s.queue.length := by
    rw [queue]
    decide
  exact ⟨tr, s, t, run, blocked, some, attended, takes, (after _ t takes).mpr trivial⟩

/-- The late thread gives up. -/
theorem attended_fails : ∃ tr s, Run (Step (stdQueue Nat))
    (start (stdQueue Nat) : WaitableQueue (Fin 3) (List Nat)) tr s ∧
      s.threads 0 = .blocked none ∧ s.queue.length = 1 ∧ s.attending = 0 := by
  obtain ⟨tr, s, run, queue, blocked, woken, alone⟩ := contested
  have leaves := attending_leaves woken s.queue
  rw [alone] at leaves
  have rest : Function.update s.threads 1 .idle 0 = s.threads 0 :=
    Function.update_of_ne (by decide) ..
  exact ⟨_, _, run.guarded.trans (.single (.timesOut woken)), rest.trans blocked,
    by rw [queue]; rfl, Nat.succ.inj leaves⟩

end WaitableQueue
end DistributedDisk
