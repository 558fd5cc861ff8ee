import DistributedDisk.Core.Progress
import DistributedDisk.Logger.Shutdown
import Mathlib.Data.Fintype.Basic

/-! `~Logger` returns, and what is in the file meanwhile: the logging thread finds "stop" in
the queue when it has to be woken, and the flag when it has taken something. -/
namespace DistributedDisk
open Transition Counting

namespace Logger
variable {ι : Type} {s t : Logger ι} {tr : List (Event ι)}

/-- What other code calls, and a wake-up that nobody has notified. -/
def Event.outside : Event ι → Bool
  | .setsLevel _ | .logs .. | .stores | .queue .logging .wakes => true
  | _ => false

/-- The thread goes on to its `Pop` without another look at the flag. -/
def Point.passed : Point → Bool
  | .writes _ | .pops => true
  | .tests _ | .returned => false

/-- Only the logging thread waits, on an empty queue, and it is not left there: the
destructor's message is in the queue until the thread has taken something. -/
structure Attentive (s : Logger ι) : Prop where
  others : ∀ i, i ≠ .logging → s.messageQ.threads i = .idle
  inside : s.messageQ.threads .logging ≠ .idle → s.thread = .pops
  blocked : ∀ deadline, s.messageQ.threads .logging = .blocked deadline → s.messageQ.queue = []
  flag : s.stopFlag = true ↔ s.destructor ≠ .stores
  last : s.destructor = .joins → s.thread.passed = true → s.messageQ.queue ≠ []

theorem Attentive.new [DecidableEq ι] : Attentive (new : Logger ι) where
  others _ _ := rfl
  inside inside := absurd rfl inside
  blocked _ := nofun
  flag := iff_of_false nofun fun started => started rfl
  last := nofun

theorem Attentive.outside_pop (attentive : Attentive s) (other : s.thread ≠ .pops) :
    s.messageQ.threads .logging = .idle := by
  by_contra inside
  exact other (attentive.inside inside)

section
variable [DecidableEq ι]

/-- After a `Push` the logging thread is not blocked. -/
structure Pushed (q q' : WaitableQueue (Thread ι) (List String)) (message : String) : Prop where
  queue : q'.queue = q.queue ++ [message]
  others : ∀ i, i ≠ .logging → q'.threads i = .idle
  inside : q'.threads .logging ≠ .idle → q.threads .logging ≠ .idle
  awake : ∀ deadline, q'.threads .logging ≠ .blocked deadline

theorem Attentive.pushed (attentive : Attentive s)
    (moves : WaitableQueue.Step (stdQueue String) s.messageQ (i, .pushes message) q) :
    Pushed s.messageQ q message := by
  have others := attentive.others
  cases moves with
  | enters _ _ tests | resumes _ tests => cases tests
  | pushes _ _ notify =>
    cases notify with
    | none nobody => exact ⟨rfl, others, id, nobody .logging⟩
    | @one deadline j blocked =>
      have logging : j = .logging := by
        by_contra other
        rw [others j other] at blocked
        cases blocked
      subst logging
      refine ⟨rfl, fun i other => ?_, fun _ idle => ?_, fun _ here => ?_⟩
      · exact (Function.update_of_ne other ..).trans (others i other)
      · rw [blocked] at idle
        cases idle
      · simp only [Function.update_self] at here
        cases here

/-- The logging thread tests the queue in `Pop`. -/
theorem Attentive.tested (attentive : Attentive s)
    (moves : WaitableQueue.Step (stdQueue String) s.messageQ (.logging, .waits) q) :
    q.queue = [] ∧ s.messageQ.queue = [] ∧ (∀ i, i ≠ .logging → q.threads i = .idle) ∧
      ∀ deadline, s.messageQ.threads .logging ≠ .blocked deadline := by
  cases moves with
  | enters _ before tests | resumes before tests =>
    cases tests with
    | waits none =>
      have none : s.messageQ.queue = [] := List.isEmpty_iff.mp none
      refine ⟨none, none, fun i other => ?_, fun _ => by rw [before]; nofun⟩
      exact (Function.update_of_ne other ..).trans (attentive.others i other)

theorem Attentive.took (attentive : Attentive s)
    (moves : WaitableQueue.Step (stdQueue String) s.messageQ (.logging, .takes message) q) :
    q.queue.length + 1 = s.messageQ.queue.length ∧ ∀ i, q.threads i = .idle := by
  cases moves with
  | enters _ _ tests | resumes _ tests =>
    cases tests with
    | takes full =>
      refine ⟨(stdQueue String).size_pop _ full, fun i => ?_⟩
      by_cases here : i = .logging
      · simp only [here, Function.update_self]
      · exact (Function.update_of_ne here ..).trans (attentive.others i here)

theorem Attentive.step (attentive : Attentive s) (step : Step s e t) : Attentive t := by
  obtain ⟨others, inside, blocked, flag, last⟩ := attentive
  have attentive : Attentive s := ⟨others, inside, blocked, flag, last⟩
  cases step with
  | setsLevel | logs => exact ⟨others, inside, blocked, flag, last⟩
  | pushes _ moves =>
    have pushed := attentive.pushed moves
    refine ⟨pushed.others, fun now => inside (pushed.inside now), fun deadline here => ?_, flag,
      fun _ _ none => ?_⟩
    · exact absurd here (pushed.awake deadline)
    · simp [pushed.queue] at none
  | pushesStop before moves =>
    have pushed := attentive.pushed moves
    refine ⟨pushed.others, fun now => inside (pushed.inside now), fun deadline here => ?_, ?_,
      fun _ _ none => ?_⟩
    · exact absurd here (pushed.awake deadline)
    · exact iff_of_true (flag.mpr (by rw [before]; nofun)) nofun
    · simp [pushed.queue] at none
  | loads tests =>
    have idle := attentive.outside_pop (by rw [tests]; nofun)
    refine ⟨others, fun now => absurd idle now, blocked, flag, fun joins passed => ?_⟩
    rw [if_pos (flag.mpr (by rw [joins]; nofun))] at passed
    cases passed
  | writes writes =>
    exact ⟨others, fun _ => rfl, blocked, flag, fun joins _ => last joins (by rw [writes]; rfl)⟩
  | waits pops moves here =>
    obtain ⟨none, before, others, _⟩ := attentive.tested moves
    refine ⟨others, fun _ => pops, fun _ _ => none, flag, fun joins passed => ?_⟩
    exact absurd before (last joins passed)
  | wakes moves =>
    cases moves with
    | enters _ _ tests | resumes _ tests => cases tests
    | wakes here =>
      have none := blocked _ here
      refine ⟨fun i other => ?_, fun _ => inside (by rw [here]; nofun), fun _ now => ?_, flag, last⟩
      · exact (Function.update_of_ne other ..).trans (others i other)
      · simp only [Function.update_self] at now
        cases now
  | takes pops moves =>
    obtain ⟨_, idle⟩ := attentive.took moves
    refine ⟨fun i _ => idle i, fun now => absurd (idle .logging) now, fun _ here => ?_, flag,
      fun _ => nofun⟩
    rw [idle] at here
    cases here
  | stores => exact ⟨others, inside, blocked, iff_of_true rfl nofun, nofun⟩
  | joins before =>
    exact ⟨others, inside, blocked, iff_of_true (flag.mpr (by rw [before]; nofun)) nofun, nofun⟩

theorem attentive (run : Run Step (new : Logger ι) tr s) : Attentive s :=
  run.invariant Attentive.step .new

/-- What the destructor still has to do, with the message it queues. -/
def Destructor.effort : Destructor → Nat
  | .stores | .returned => 0
  | .pushes => 7
  | .joins => 1

/-- What the logging thread does before it has taken a message or waits. -/
def Point.turn : Point → WaitableQueue.Client → Nat
  | .tests _, _ => 3
  | .writes _, _ => 2
  | .pops, .blocked _ => 0
  | .pops, _ => 1
  | .returned, _ => 0

/-- A client that is notified gets at most another turn. -/
theorem Point.turn_le (point : Point) (client client' : WaitableQueue.Client) :
    point.turn client' ≤ point.turn client + 1 := by
  cases point with
  | tests | writes | returned => exact Nat.le_succ _
  | pops => cases client' <;> simp [turn]

def Caller.busy : Caller → Bool
  | .idle => false
  | .pushing _ => true

variable [Fintype ι]

/-- A bound on the steps that are left while nobody calls. -/
def effort (s : Logger ι) : Nat :=
  4 * s.messageQ.queue.length + 6 * tally .univ Caller.busy s.callers +
    s.thread.turn (s.messageQ.threads .logging) + s.destructor.effort

theorem busy_ends (pushing : s.callers i = .pushing message) :
    tally .univ Caller.busy (Function.update s.callers i .idle) + 1 =
      tally .univ Caller.busy s.callers :=
  tally_loses (Finset.mem_univ i) (by rw [pushing]; rfl) rfl

theorem busy_logs (idle : s.callers i = .idle) (level current : MessageLevel) (message : String) :
    tally .univ Caller.busy (Function.update s.callers i (logs level current message)) ≤
      tally .univ Caller.busy s.callers + 1 := by
  unfold logs
  split
  · exact (tally_gains (Finset.mem_univ i) (by rw [idle]; rfl) rfl).le
  · exact (tally_keeps .univ (by rw [idle])).le.trans (Nat.le_succ _)

theorem Attentive.descends (attentive : Attentive s) :
    Descends Event.outside 7 effort (Step (ι := ι)) s := by
  constructor
  · intro e t step own
    cases step with
    | setsLevel | logs | wakes | stores => cases own
    | @pushes _ _ q pushing moves =>
      have pushed := attentive.pushed moves
      have less := busy_ends pushing
      have turn := s.thread.turn_le (s.messageQ.threads .logging) (q.threads .logging)
      simp only [effort, pushed.queue, List.length_append, List.length_singleton]
      omega
    | @pushesStop q before moves =>
      have pushed := attentive.pushed moves
      have turn := s.thread.turn_le (s.messageQ.threads .logging) (q.threads .logging)
      simp only [effort, pushed.queue, List.length_append, List.length_singleton, before,
        Destructor.effort]
      omega
    | loads tests =>
      simp only [effort, tests]
      split
      all_goals
        simp only [Point.turn]
        omega
    | writes writes =>
      have idle := attentive.outside_pop (by rw [writes]; nofun)
      simp only [effort, writes, idle, Point.turn]
      omega
    | waits pops moves here =>
      obtain ⟨none, before, _, awake⟩ := attentive.tested moves
      simp only [effort, pops, here, none, before, Point.turn]
      omega
    | takes pops moves =>
      obtain ⟨shorter, idle⟩ := attentive.took moves
      simp only [effort, pops, Point.turn]
      omega
    | joins before returned =>
      simp only [effort, before, Destructor.effort]
      omega
  · intro e t step other
    cases step with
    | pushes | loads | writes | waits | takes | pushesStop | joins => cases other
    | setsLevel => exact Nat.le_add_right ..
    | logs i level message idle =>
      have more := busy_logs idle level s.currentLevel message
      simp only [effort]
      omega
    | @wakes q moves =>
      have turn := s.thread.turn_le (s.messageQ.threads .logging) (q.threads .logging)
      cases moves with
      | enters _ _ tests | resumes _ tests => cases tests
      | wakes =>
        simp only [effort] at turn ⊢
        omega
    | stores before =>
      simp only [effort, before, Destructor.effort]
      omega

omit [Fintype ι] in
/-- What is possible when the destructor has begun and waits for the logging thread. -/
theorem Attentive.quiet (attentive : Attentive s) (quiet : Quiet Event.outside Step s)
    (started : s.destructor ≠ .stores) : s.destructor = .returned := by
  have moves {e t} (step : Step s e t) (own : e.outside = false) : False := by
    have other := quiet e t step
    rw [own] at other
    cases other
  have notified : ∃ clients, WaitableQueue.NotifyOne s.messageQ.threads clients := by
    by_cases blocked : ∃ i deadline, s.messageQ.threads i = .blocked deadline
    · obtain ⟨i, deadline, here⟩ := blocked
      exact ⟨_, .one i here⟩
    · push Not at blocked
      exact ⟨_, .none blocked⟩
  cases destructor : s.destructor with
  | stores => exact absurd destructor started
  | returned => rfl
  | pushes =>
    obtain ⟨clients, notify⟩ := notified
    have idle := attentive.others .destructor nofun
    exact (moves (.pushesStop destructor (.pushes "stop" idle notify)) rfl).elim
  | joins =>
    cases thread : s.thread with
    | returned => exact (moves (.joins destructor thread) rfl).elim
    | tests => exact (moves (.loads thread) rfl).elim
    | writes => exact (moves (.writes thread) rfl).elim
    | pops =>
      have some := attentive.last destructor (by rw [thread]; rfl)
      have full : (stdQueue String).empty s.messageQ.queue = false :=
        List.isEmpty_eq_false_iff.mpr some
      cases client : s.messageQ.threads .logging with
      | blocked => exact absurd (attentive.blocked _ client) some
      | idle => exact (moves (.takes thread (.enters none client (.takes full))) rfl).elim
      | woken => exact (moves (.takes thread (.resumes client (.takes full))) rfl).elim

/-- In every run the logger's own steps are bounded by what other threads call, and when it
has none left, a destructor that has begun has returned. -/
theorem destructor_returns (run : Run Step (new : Logger ι) tr s) :
    inner Event.outside tr + s.effort ≤ 3 + 7 * outer Event.outside tr ∧
      (Quiet Event.outside Step s → s.destructor ≠ .stores → s.destructor = .returned) := by
  constructor
  · have bounded := run.bounded (P := Attentive) Attentive.step Attentive.descends .new
    have idle : tally .univ Caller.busy (new : Logger ι).callers = 0 :=
      tally_eq_zero fun _ _ => rfl
    have first : effort (new : Logger ι) = 3 := by
      rw [effort, idle]
      rfl
    rwa [first] at bounded
  · exact (attentive run).quiet

/-- The destructor waits for a thread that is about to write "mounted". -/
theorem destructor_returns_mounted : ∃ tr s, Run Step (new : Logger Unit) tr s ∧
    s.destructor = .joins ∧ ¬ Quiet Event.outside Step s ∧
    inner Event.outside tr + s.effort ≤ 3 + 7 * outer Event.outside tr := by
  have run : ∃ tr s, Run Step (new : Logger Unit) tr s ∧ s.destructor = .joins :=
    ⟨[.loads, .writes, .queue .logging .waits, .logs () .information .debug "mounted",
      .queue (.caller ()) (.pushes "mounted"), .queue .logging (.takes "mounted"), .loads,
      .stores, .queue .destructor (.pushes "stop")], _,
      .next (.loads rfl) <| .next (.writes rfl) <|
      .next (.waits rfl (.enters none rfl (.waits rfl)) rfl) <|
      .next (.logs () .information "mounted" rfl) <|
      .next (.pushes rfl (.pushes "mounted" rfl (.one .logging rfl))) <|
      .next (.takes rfl (.resumes rfl (.takes rfl))) <| .next (.loads rfl) <|
      .next (.stores rfl) <|
      .single (.pushesStop rfl (.pushes "stop" rfl (.none (by rintro (_ | _ | _) <;> nofun)))), rfl⟩
  obtain ⟨tr, s, run, joins⟩ := run
  obtain ⟨bounded, returns⟩ := destructor_returns run
  refine ⟨tr, s, run, joins, fun quiet => ?_, bounded⟩
  have returned := returns quiet (by rw [joins]; nofun)
  rw [joins] at returned
  cases returned

end

/-- What was taken is in the file, or in the hand of the thread; a thread that has returned
has dropped what it had. -/
def InHand (tr : List (Event ι)) (s : Logger ι) : Prop :=
  ∃ unwritten, s.logFd ++ unwritten = "" :: WaitableQueue.taken (queued tr) ∧
    (s.thread ≠ .returned → unwritten = s.thread.holds) ∧ unwritten.length ≤ 1

/-- A step that takes nothing. -/
theorem InHand.keep (inHand : InHand tr s) (file : t.logFd = s.logFd) (thread : t.thread = s.thread)
    (takes : WaitableQueue.taken e.queued.toList = []) : InHand (tr ++ [e]) t := by
  obtain ⟨unwritten, written, holds, most⟩ := inHand
  refine ⟨unwritten, ?_, thread ▸ holds, most⟩
  rw [file, written, queued_append, WaitableQueue.taken_append, takes, List.append_nil]

theorem InHand.step [DecidableEq ι] (inHand : InHand tr s) (step : Step s e t) :
    InHand (tr ++ [e]) t := by
  cases step with
  | setsLevel | logs | pushes | waits | wakes | stores | pushesStop | joins =>
    exact inHand.keep rfl rfl rfl
  | @loads holder tests =>
    obtain ⟨unwritten, written, holds, most⟩ := inHand
    have here := holds (by rw [tests]; nofun)
    rw [tests] at here
    refine ⟨unwritten, ?_, fun inside => ?_, most⟩
    · rw [written, queued_append, WaitableQueue.taken_append]
      exact (List.append_nil _).symm
    · rw [here]
      cases flag : s.stopFlag with
      | true => simp [flag] at inside
      | false => rfl
  | @writes holder writes =>
    obtain ⟨unwritten, written, holds, _⟩ := inHand
    have here := holds (by rw [writes]; nofun)
    rw [writes] at here
    refine ⟨[], ?_, fun _ => rfl, Nat.zero_le _⟩
    rw [List.append_nil, queued_append, WaitableQueue.taken_append]
    exact (here ▸ written).trans (List.append_nil _).symm
  | @takes message q pops moves =>
    obtain ⟨unwritten, written, holds, _⟩ := inHand
    have here := holds (by rw [pops]; nofun)
    rw [pops] at here
    subst here
    refine ⟨[message], ?_, fun _ => rfl, le_rfl⟩
    rw [Point.holds, List.append_nil] at written
    rw [written, queued_append, WaitableQueue.taken_append]
    rfl

/-- In every run, also while the destructor runs, the file has the messages in the order of
their `Push`es, up to one that the thread has in its hand or has dropped and those in the
queue, and the `Push`es of each caller are its calls in their order. -/
theorem file_in_order [DecidableEq ι] (run : Run Step (new : Logger ι) tr s) :
    (∃ unwritten, unwritten.length ≤ 1 ∧
      s.logFd ++ unwritten ++ s.messageQ.queue = "" :: WaitableQueue.pushed (queued tr)) ∧
    ∀ i, own i (enqueued tr) ++ (s.callers i).pending = own i (accepted tr) := by
  have inHand : InHand tr s := by
    apply run.history
    · exact ⟨[""], rfl, fun _ => rfl, le_rfl⟩
    · exact fun inHand step => inHand.step step
  obtain ⟨unwritten, written, _, most⟩ := inHand
  refine ⟨⟨unwritten, most, ?_⟩, sent run⟩
  rw [written, List.cons_append, messageQ_fifo run]

/-- The thread has "mounted" in its hand, and finds the flag set. -/
theorem file_in_order_mounted : ∃ tr s, Run Step (new : Logger Unit) tr s ∧
    s.thread = .returned ∧ s.logFd = [""] ∧ s.messageQ.queue = [] ∧
    ∃ unwritten, unwritten.length ≤ 1 ∧
      s.logFd ++ unwritten ++ s.messageQ.queue = "" :: WaitableQueue.pushed (queued tr) := by
  have run : ∃ tr s, Run Step (new : Logger Unit) tr s ∧ s.thread = .returned ∧
      s.logFd = [""] ∧ s.messageQ.queue = [] :=
    ⟨[.loads, .writes, .queue .logging .waits, .logs () .information .debug "mounted",
      .queue (.caller ()) (.pushes "mounted"), .queue .logging (.takes "mounted"), .stores,
      .loads], _,
      .next (.loads rfl) <| .next (.writes rfl) <|
      .next (.waits rfl (.enters none rfl (.waits rfl)) rfl) <|
      .next (.logs () .information "mounted" rfl) <|
      .next (.pushes rfl (.pushes "mounted" rfl (.one .logging rfl))) <|
      .next (.takes rfl (.resumes rfl (.takes rfl))) <| .next (.stores rfl) <|
      .single (.loads rfl), rfl, rfl, rfl⟩
  obtain ⟨tr, s, run, returned, file, queue⟩ := run
  exact ⟨tr, s, run, returned, file, queue, (file_in_order run).1⟩

end Logger
end DistributedDisk
