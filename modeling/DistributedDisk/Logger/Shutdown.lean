import DistributedDisk.Logger

/-! What is in the log file when `~Logger` has returned. The logging thread tests the flag
between the `Pop` of a message and the write of it. -/
namespace DistributedDisk
open Transition

namespace Logger
variable {ι : Type}

/-- A `Log` that has read a level which its message may have. -/
def Event.accepts : Event ι → Option (ι × String)
  | .logs i level current message =>
    if level.value ≤ current.value then some (i, message) else none
  | _ => none

def Event.enqueues : Event ι → Option (ι × String)
  | .queue (.caller i) (.pushes message) => some (i, message)
  | _ => none

def Event.queued : Event ι → Option (Thread ι × WaitableQueue.Event String)
  | .queue thread e => some (thread, e)
  | _ => none

def accepted (tr : List (Event ι)) : List (ι × String) := tr.filterMap Event.accepts
def enqueued (tr : List (Event ι)) : List (ι × String) := tr.filterMap Event.enqueues
def queued (tr : List (Event ι)) : List (Thread ι × WaitableQueue.Event String) :=
  tr.filterMap Event.queued

def texts (tr : List (Event ι)) : List String := (enqueued tr).map Prod.snd

@[simp] theorem accepted_append (tr : List (Event ι)) (e : Event ι) :
    accepted (tr ++ [e]) = accepted tr ++ e.accepts.toList := filterMap_concat ..

@[simp] theorem enqueued_append (tr : List (Event ι)) (e : Event ι) :
    enqueued (tr ++ [e]) = enqueued tr ++ e.enqueues.toList := filterMap_concat ..

@[simp] theorem queued_append (tr : List (Event ι)) (e : Event ι) :
    queued (tr ++ [e]) = queued tr ++ e.queued.toList := filterMap_concat ..

/-- The callers have returned when the destructor starts, and nobody logs after that. -/
def Settled (s : Logger ι) : Event ι → Prop
  | .stores => ∀ i, s.callers i = .idle
  | .logs .. => s.destructor = .stores
  | _ => True

def Caller.pending : Caller → List String
  | .idle => []
  | .pushing message => [message]

/-- The message that the thread has not written yet. -/
def Point.holds : Point → List String
  | .tests holder | .writes holder => [holder]
  | .pops | .returned => []

/-- What the file will have when the thread finds the flag set. -/
def flushed (s : Logger ι) : List String :=
  match s.thread with
  | .writes holder => s.logFd ++ [holder]
  | _ => s.logFd

/-- Nothing is queued, and the thread has no message in its hand whose turn it has not
begun. With an empty file it still holds what it was started with. -/
structure Written (s : Logger ι) : Prop where
  queue : s.messageQ.queue = []
  holder : ∀ holder, s.thread = .tests holder → s.logFd = []

variable {s t u v : Logger ι} {tr tr' : List (Event ι)}

/-- Before the flag is set: the lines of the file, and the message in hand, are the
messages taken so far behind the empty `holder`. -/
structure Serving (tr : List (Event ι)) (s : Logger ι) : Prop where
  flag : s.stopFlag = false
  inside : s.thread ≠ .returned
  written : s.logFd ++ s.thread.holds = "" :: WaitableQueue.taken (queued tr)
  enqueued : texts tr = WaitableQueue.pushed (queued tr)

/-- A step that takes nothing, and leaves the file and the hand of the thread together as
they are. -/
theorem Serving.keep (serving : Serving tr s) (flag : t.stopFlag = false)
    (inside : t.thread ≠ .returned)
    (same : t.logFd ++ t.thread.holds = s.logFd ++ s.thread.holds)
    (takes : WaitableQueue.taken e.queued.toList = [])
    (pushes : e.enqueues.toList.map Prod.snd = WaitableQueue.pushed e.queued.toList) :
    Serving (tr ++ [e]) t := by
  refine ⟨flag, inside, ?_, ?_⟩
  · rw [same, serving.written, queued_append, WaitableQueue.taken_append, takes, List.append_nil]
  · rw [texts, enqueued_append, List.map_append, pushes, queued_append,
      WaitableQueue.pushed_append, ← serving.enqueued, texts]

theorem Serving.texts_eq (serving : Serving tr u)
    (fifo : WaitableQueue.Fifo (queued tr) u.messageQ.queue) :
    texts tr = WaitableQueue.taken (queued tr) ++ u.messageQ.queue :=
  serving.enqueued.trans fifo.symm

/-- The turn of every message that was taken has begun. -/
theorem Serving.flushed_begun (serving : Serving tr u)
    (fifo : WaitableQueue.Fifo (queued tr) u.messageQ.queue)
    (lines : u.flushed = "" :: WaitableQueue.taken (queued tr))
    (begun : ∀ holder, u.thread ≠ .tests holder) : u.flushed.tail = texts tr ↔ Written u := by
  rw [serving.texts_eq fifo, lines, List.tail_cons, List.self_eq_append_right]
  constructor
  · intro none
    exact ⟨none, fun holder tests => absurd tests (begun holder)⟩
  · exact Written.queue

/-- What the file will have is all that was enqueued, but for a message in hand and the
messages in the queue. -/
theorem Serving.flushed_iff (serving : Serving tr u)
    (fifo : WaitableQueue.Fifo (queued tr) u.messageQ.queue) :
    u.flushed.tail = texts tr ↔ Written u := by
  have written := serving.written
  cases thread : u.thread with
  | tests holder =>
    rw [thread, Point.holds] at written
    rw [serving.texts_eq fifo, flushed, thread]
    cases file : u.logFd with
    | nil =>
      -- The thread has not begun; what it holds is no message.
      rw [file] at written
      rw [← (List.cons.inj written).2]
      constructor
      · intro none
        exact ⟨none.symm, fun _ _ => file⟩
      · intro written
        exact written.queue.symm
    | cons line lines =>
      rw [file] at written
      have taken : lines ++ [holder] = _ := (List.cons.inj written).2
      rw [← taken]
      constructor
      · intro same
        have short := congrArg List.length same
        simp only [List.tail_cons, List.length_append, List.length_singleton] at short
        omega
      · intro written
        cases file.symm.trans (written.holder holder thread)
  | writes holder =>
    rw [thread] at written
    apply serving.flushed_begun fifo
    · rw [flushed, thread]
      exact written
    · intro holder tests
      cases thread.symm.trans tests
  | pops =>
    rw [thread, Point.holds, List.append_nil] at written
    apply serving.flushed_begun fifo
    · rw [flushed, thread]
      exact written
    · intro holder tests
      cases thread.symm.trans tests
  | returned => exact absurd thread serving.inside

variable [DecidableEq ι]

theorem Step.messageQ (step : Step s e t) : e.queued = none ∧ t.messageQ = s.messageQ ∨
    ∃ label, e.queued = some label ∧
      WaitableQueue.Step (stdQueue String) s.messageQ label t.messageQ := by
  cases step with
  | setsLevel | logs | loads | writes | stores | joins => exact .inl ⟨rfl, rfl⟩
  | pushes _ moves | waits _ moves | wakes moves | takes _ moves | pushesStop _ moves =>
    exact .inr ⟨_, rfl, moves⟩

/-- The queue of the logger is a `WaitableQueue`. -/
theorem messageQ_run (run : Run Step s tr t) :
    Run (WaitableQueue.Step (stdQueue String)) s.messageQ (queued tr) t.messageQ := by
  induction run with
  | refl => exact .refl _
  | @next s e t rest u head _ ih =>
    obtain ⟨quiet, same⟩ | ⟨label, loud, moves⟩ := head.messageQ
    · rw [queued, List.filterMap_cons_none quiet, ← same]
      exact ih
    · rw [queued, List.filterMap_cons_some loud]
      exact .next moves ih

theorem messageQ_fifo (run : Run Step new tr s) :
    WaitableQueue.Fifo (queued tr) s.messageQ.queue :=
  (WaitableQueue.ordered (messageQ_run run)).whole

theorem Step.starts (step : Step s e t) (before : t.destructor = .stores) :
    s.destructor = .stores := by
  cases step with
  | setsLevel | logs | pushes | loads | writes | waits | wakes | takes => exact before
  | stores | pushesStop | joins => cases before

theorem Serving.step (serving : Serving tr s) (step : Step s e t)
    (before : t.destructor = .stores) : Serving (tr ++ [e]) t := by
  have flag := serving.flag
  have inside := serving.inside
  cases step with
  | setsLevel | logs | pushes | waits | wakes => exact serving.keep flag inside rfl rfl rfl
  | loads tests =>
    rw [if_neg (Bool.eq_false_iff.mp flag)]
    exact serving.keep flag nofun (by rw [tests]; rfl) rfl rfl
  | writes writes =>
    refine serving.keep flag nofun ?_ rfl rfl
    rw [writes]
    exact List.append_nil _
  | takes pops =>
    have written := serving.written
    rw [pops, Point.holds, List.append_nil] at written
    refine ⟨flag, nofun, ?_, ?_⟩
    · rw [written, queued_append, WaitableQueue.taken_append]
      rfl
    · simpa [texts, Event.queued, Event.enqueues, WaitableQueue.pushed] using serving.enqueued
  | stores | pushesStop | joins => cases before

theorem serving (run : Run Step new tr u) (before : u.destructor = .stores) : Serving tr u := by
  suffices invariant : u.destructor = .stores → Serving tr u from invariant before
  apply run.history
  · exact fun _ => ⟨rfl, nofun, rfl, rfl⟩
  · intro tr t e u serving step before
    exact (serving (step.starts before)).step step before

/-- What a thread has enqueued is what it has logged, but for the `Push` it is about to make. -/
def Sent (tr : List (Event ι)) (s : Logger ι) : Prop :=
  ∀ i, own i (enqueued tr) ++ (s.callers i).pending = own i (accepted tr)

/-- A step of caller `j`: what it has begun and what it has pushed stay in balance. -/
theorem Sent.moves (sent : Sent tr s) (j : ι) (pushes logs : List String)
    (enqueues : e.enqueues.toList = pushes.map (Prod.mk j))
    (accepts : e.accepts.toList = logs.map (Prod.mk j))
    (callers : t.callers = Function.update s.callers j caller)
    (balance : (s.callers j).pending ++ logs = pushes ++ caller.pending) :
    Sent (tr ++ [e]) t := by
  intro i
  rw [enqueued_append, accepted_append, own_append, own_append, enqueues, accepts, ← sent i,
    callers, List.append_assoc, List.append_assoc]
  by_cases here : j = i
  · subst here
    rw [own_map, own_map, Function.update_self, balance]
  · rw [own_map_ne here, own_map_ne here, Function.update_of_ne (Ne.symm here), List.nil_append,
      List.append_nil]

theorem Sent.step (sent : Sent tr s) (step : Step s e t) : Sent (tr ++ [e]) t := by
  cases step with
  | setsLevel | loads | writes | waits | wakes | takes | stores | pushesStop | joins =>
    intro i
    have before := sent i
    simpa [Event.enqueues, Event.accepts] using before
  | logs j level message idle =>
    by_cases passes : level.value ≤ s.currentLevel.value
    · apply sent.moves j [] [message]
      · rfl
      · exact congrArg Option.toList (if_pos passes)
      · rfl
      · rw [idle, logs, if_pos passes]
        rfl
    · apply sent.moves j [] []
      · rfl
      · exact congrArg Option.toList (if_neg passes)
      · rfl
      · rw [idle, logs, if_neg passes]
        rfl
  | @pushes j message _ pushing =>
    apply sent.moves j [message] []
    · rfl
    · rfl
    · rfl
    · rw [pushing]
      rfl

theorem sent (run : Run Step new tr u) : Sent tr u := by
  apply run.history
  · exact fun _ => rfl
  · intro tr t e u sent step
    exact sent.step step

/-- After the flag is set: what the file will have does not change any more. -/
structure Stopping (lines : List String) (s : Logger ι) : Prop where
  flag : s.stopFlag = true
  idle : ∀ i, s.callers i = .idle
  started : s.destructor ≠ .stores
  joined : s.destructor = .returned → s.thread = .returned
  flushed : s.flushed = lines

theorem Stopping.start (step : Under Settled Step u .stores v) : Stopping u.flushed v := by
  obtain ⟨step, settled⟩ := step
  cases step with
  | stores => exact ⟨rfl, settled, nofun, nofun, rfl⟩

theorem Stopping.step (stopping : Stopping lines s) (step : Under Settled Step s e t) :
    Stopping lines t ∧ e.enqueues = none ∧ e.accepts = none := by
  obtain ⟨flag, idle, started, joined, flushed⟩ := stopping
  obtain ⟨step, settled⟩ := step
  cases step with
  | setsLevel | waits | wakes => exact ⟨⟨flag, idle, started, joined, flushed⟩, rfl, rfl⟩
  | logs => exact absurd settled started
  | @pushes i _ _ pushing => cases pushing.symm.trans (idle i)
  | loads tests =>
    rw [if_pos flag]
    refine ⟨⟨flag, idle, started, fun _ => rfl, ?_⟩, rfl, rfl⟩
    rwa [Logger.flushed, tests] at flushed
  | writes writes =>
    refine ⟨⟨flag, idle, started, ?_, ?_⟩, rfl, rfl⟩
    · intro returned
      cases writes.symm.trans (joined returned)
    · rwa [Logger.flushed, writes] at flushed
  | takes pops =>
    refine ⟨⟨flag, idle, started, ?_, ?_⟩, rfl, rfl⟩
    · intro returned
      cases pops.symm.trans (joined returned)
    · rwa [Logger.flushed, pops] at flushed
  | stores before => exact absurd before started
  | pushesStop => exact ⟨⟨flag, idle, nofun, nofun, flushed⟩, rfl, rfl⟩
  | joins _ returned => exact ⟨⟨flag, idle, nofun, fun _ => returned, flushed⟩, rfl, rfl⟩

theorem Stopping.run (stopping : Stopping lines v) (run : Run (Under Settled Step) v tr s) :
    Stopping lines s ∧ enqueued tr = [] ∧ accepted tr = [] := by
  apply run.history
  · exact ⟨stopping, rfl, rfl⟩
  · intro tr t e u before step
    obtain ⟨stopping, enqueued, accepted⟩ := before
    obtain ⟨stopping, enqueues, accepts⟩ := stopping.step step
    refine ⟨stopping, ?_, ?_⟩
    · rw [enqueued_append, enqueued, enqueues]
      rfl
    · rw [accepted_append, accepted, accepts]
      rfl

/-- No message is lost: behind the line of the first, empty `holder` are the messages in the
order in which they were enqueued, and those are what each caller has logged. -/
structure Logged (tr : List (Event ι)) (s : Logger ι) : Prop where
  lines : s.logFd.tail = texts tr
  calls : ∀ i, own i (enqueued tr) = own i (accepted tr)

/-- The file has every message exactly if all were written, or had their turn begun, when
the destructor sets the flag. -/
theorem logged_iff (before : Run (Under Settled Step) new tr u)
    (step : Under Settled Step u .stores v) (after : Run (Under Settled Step) v tr' s)
    (returned : s.destructor = .returned) : Logged (tr ++ .stores :: tr') s ↔ Written u := by
  have begins : u.destructor = .stores := by
    cases step.1 with
    | stores begins => exact begins
  have idle : ∀ i, u.callers i = .idle := step.2
  have served := serving before.guarded begins
  obtain ⟨stopping, noneEnqueued, noneAccepted⟩ := (Stopping.start step).run after
  have file : s.logFd = u.flushed := by
    have last := stopping.flushed
    rwa [flushed, stopping.joined returned] at last
  have enqueues : enqueued (tr ++ .stores :: tr') = enqueued tr := by
    rw [enqueued, List.filterMap_append]
    exact (congrArg _ noneEnqueued).trans (List.append_nil _)
  have accepts : accepted (tr ++ .stores :: tr') = accepted tr := by
    rw [accepted, List.filterMap_append]
    exact (congrArg _ noneAccepted).trans (List.append_nil _)
  rw [← served.flushed_iff (messageQ_fifo before.guarded)]
  constructor
  · intro logged
    have lines := logged.lines
    rwa [file, texts, enqueues] at lines
  · intro lines
    constructor
    · rwa [file, texts, enqueues]
    · intro i
      have all := sent before.guarded i
      rwa [idle i, Caller.pending, List.append_nil, ← enqueues, ← accepts] at all

/-- One message, which is written before the destructor starts. -/
theorem logged_iff_mounted : ∃ (tr tr' : List (Event Unit)) (u v s : Logger Unit),
    Run (Under Settled Step) new tr u ∧ Under Settled Step u .stores v ∧
      Run (Under Settled Step) v tr' s ∧ s.destructor = .returned ∧
      s.logFd = ["", "mounted"] ∧ Logged (tr ++ .stores :: tr') s := by
  have written {u v s : Logger Unit} (tr tr' : List (Event Unit))
      (before : Run (Under Settled Step) new tr u) (step : Under Settled Step u .stores v)
      (after : Run (Under Settled Step) v tr' s) (queue : u.messageQ.queue = [])
      (thread : u.thread = .pops) (returned : s.destructor = .returned)
      (file : s.logFd = ["", "mounted"]) : Run (Under Settled Step) new tr u ∧
        Under Settled Step u .stores v ∧ Run (Under Settled Step) v tr' s ∧
        s.destructor = .returned ∧ s.logFd = ["", "mounted"] ∧ Logged (tr ++ .stores :: tr') s := by
    refine ⟨before, step, after, returned, file, (logged_iff before step after returned).mpr ?_⟩
    exact ⟨queue, fun _ tests => by cases thread.symm.trans tests⟩
  exact ⟨_, _, _, _, _, written
    [.loads, .writes, .queue .logging .waits, .logs () .information .debug "mounted",
      .queue (.caller ()) (.pushes "mounted"), .queue .logging (.takes "mounted"), .loads,
      .writes, .queue .logging .waits]
    [.queue .destructor (.pushes "stop"), .queue .logging (.takes "stop"), .loads, .joins]
    (.next ⟨.loads rfl, trivial⟩ <| .next ⟨.writes rfl, trivial⟩ <|
      .next ⟨.waits rfl (.enters none rfl (.waits rfl)) rfl, trivial⟩ <|
      .next ⟨.logs () .information "mounted" rfl, rfl⟩ <|
      .next ⟨.pushes rfl (.pushes "mounted" rfl (.one .logging rfl)), trivial⟩ <|
      .next ⟨.takes rfl (.resumes rfl (.takes rfl)), trivial⟩ <|
      .next ⟨.loads rfl, trivial⟩ <| .next ⟨.writes rfl, trivial⟩ <|
      .single ⟨.waits rfl (.enters none rfl (.waits rfl)) rfl, trivial⟩)
    ⟨.stores rfl, fun _ => rfl⟩
    (.next ⟨.pushesStop rfl (.pushes "stop" rfl (.one .logging rfl)), trivial⟩ <|
      .next ⟨.takes rfl (.resumes rfl (.takes rfl)), trivial⟩ <|
      .next ⟨.loads rfl, trivial⟩ <| .single ⟨.joins rfl rfl, trivial⟩) rfl rfl rfl rfl⟩

/-- The thread has taken the message, and finds the flag set before it writes it. -/
theorem mounted_lost : ∃ (tr tr' : List (Event Unit)) (u v s : Logger Unit),
    Run (Under Settled Step) new tr u ∧ Under Settled Step u .stores v ∧
      Run (Under Settled Step) v tr' s ∧ s.destructor = .returned ∧
      accepted (tr ++ .stores :: tr') = [((), "mounted")] ∧ s.logFd = [""] ∧
      ¬ Logged (tr ++ .stores :: tr') s := by
  refine ⟨[.loads, .writes, .queue .logging .waits, .logs () .information .debug "mounted",
      .queue (.caller ()) (.pushes "mounted"), .queue .logging (.takes "mounted")],
    [.loads, .queue .destructor (.pushes "stop"), .joins], _, _, _,
    .next ⟨.loads rfl, trivial⟩ <| .next ⟨.writes rfl, trivial⟩ <|
      .next ⟨.waits rfl (.enters none rfl (.waits rfl)) rfl, trivial⟩ <|
      .next ⟨.logs () .information "mounted" rfl, rfl⟩ <|
      .next ⟨.pushes rfl (.pushes "mounted" rfl (.one .logging rfl)), trivial⟩ <|
      .single ⟨.takes rfl (.resumes rfl (.takes rfl)), trivial⟩,
    ⟨.stores rfl, fun _ => rfl⟩,
    .next ⟨.loads rfl, trivial⟩ <|
      .next ⟨.pushesStop rfl (.pushes "stop" rfl (.none ?_)), trivial⟩ <|
      .single ⟨.joins rfl rfl, trivial⟩, rfl, rfl, rfl, ?_⟩
  · intro i
    cases i with
    | caller | logging | destructor => exact nofun
  · intro logged
    cases logged.lines

end Logger
end DistributedDisk
