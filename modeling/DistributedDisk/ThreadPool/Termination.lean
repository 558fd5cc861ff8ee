import DistributedDisk.Core.Progress
import DistributedDisk.ThreadPool.Stop

/-! `ThreadPool::Stop` comes to its end: a bound on the steps of the threads, and none of
them waits for ever. -/
namespace DistributedDisk
open Transition Counting

namespace ThreadPool
variable {s s' : ThreadPool}

/-! ### What is left to do -/

def Worker.effort : Worker → Nat
  | .unborn | .ended => 0
  | .popping | .apple true => 1
  | .running _ | .peel .test => 2
  | .peel .unlock => 3
  | .peel .notified => 4
  | .peel .blocked => 5
  | .peel .wait => 6
  | .peel .lock | .apple false => 7
  | .popped _ => 8

def Reaper.effort : Reaper → Nat
  | .popping => 0
  | .erasing _ => 1
  | .joining _ => 2
  | .found _ => 3
  | .popped _ => 4

def StopPoint.effort (threads : Nat) : StopPoint → Nat
  | .interruptReaper => 2 * threads + 4
  | .joinReaper => 2 * threads + 3
  | .interrupt left => left.length + threads + 2
  | .join left => left.length + 1
  | .returned => 0

/-- More than the number of steps that the threads of the pool can still take. -/
def effort (s : ThreadPool) : Nat :=
  8 * s.tasks.length + (∑ i ∈ .range s.created, (s.workers i).effort) + s.reaper.effort +
    5 * s.readyToDie.length

def Stopping.effort (s : Stopping) : Nat :=
  s.pool.effort + (if s.reaperEnded then 0 else 1) + s.point.effort s.pool.threads.card

theorem Peels.effort (peels : Peels f i m point m' point') (awake : f ≠ .pause) :
    (Worker.peel point').effort < (Worker.peel point).effort := by
  cases peels with
  | test _ paused => exact absurd paused awake
  | lock | wait | wake | relock | unlock => decide

theorem effort_entry (task : Task) : task.entry.effort < 8 := by
  cases task <;> simp [Task.entry, Worker.effort]

theorem effort_interruptible {worker : Worker} (here : worker.interruptible = true) :
    0 < worker.effort := by
  unfold Worker.interruptible at here
  split at here
  all_goals first | exact Nat.zero_lt_succ _ | cases here

/-- While the flag is not `PAUSE`, a worker gets on with every move. -/
theorem effort_works (tracked : Tracked s) (awake : s.flag ≠ .pause) (works : Works s i move s') :
    s'.effort < s.effort := by
  obtain ⟨_, _, moves⟩ := works.moves
  have sum (a b : Nat) (worker : Worker) (before : (s.workers i).effort = a)
      (after : worker.effort = b) :
      (∑ j ∈ .range s.created, (Function.update s.workers i worker j).effort) + a =
        (∑ j ∈ .range s.created, (s.workers j).effort) + b := by
    rw [← before, ← after]
    exact sum_update Worker.effort s.workers (tracked.within moves.alive.1) worker
  cases works with
  | pops before after pair here tasks =>
    have change := sum 1 8 (.popped pair.task) (by rw [here]; rfl) rfl
    simp only [effort, tasks, List.length_append, List.length_cons]
    omega
  | @begins task here =>
    have change := sum 8 _ task.entry (by rw [here]; rfl) rfl
    have less := effort_entry task
    simp only [effort]
    omega
  | finishes here | leaves here =>
    have change := sum 2 1 .popping (by rw [here]; rfl) rfl
    simp only [effort]
    omega
  | @peels point point' _ here peels =>
    have change := sum _ _ (.peel point') (congrArg Worker.effort here) rfl
    have less := peels.effort awake
    simp only [effort]
    omega
  | pushes here =>
    have change := sum 7 1 (.apple true) (by rw [here]; rfl) rfl
    simp only [effort, List.length_append, List.length_singleton]
    omega
  | dies _ here =>
    have change := sum _ 0 .ended rfl rfl
    have less := effort_interruptible here
    simp only [effort]
    omega

theorem effort_reaps (reaps : Reaps s s') :
    s'.effort < s.effort ∧ s'.threads.card ≤ s.threads.card := by
  cases reaps with
  | pops id here ready =>
    simp only [effort, here, ready, Reaper.effort, List.length_cons, le_refl, and_true]
    omega
  | erases id here =>
    simp only [effort, here, Reaper.effort, Finset.card_erase_le, and_true]
    omega
  | finds id here | interrupts id here | joins id here =>
    simp only [effort, here, Reaper.effort, le_refl, and_true]
    omega

theorem StopPoint.effort_mono (point : StopPoint) (fewer : n ≤ m) :
    point.effort n ≤ point.effort m := by
  cases point <;> simp only [effort] <;> omega

theorem effort_stops {t u : Stopping} (stops : Stopping.Stops t u) : u.effort < t.effort := by
  have listed {ids : List Nat} (all : (ids : Multiset Nat) = t.pool.threads.val) :
      ids.length = t.pool.threads.card := congrArg Multiset.card all
  cases stops with
  | interruptsReaper here | interrupts _ here | joins _ here _ | returns here =>
    simp only [Stopping.effort, effort, here, StopPoint.effort, List.length_cons]
    omega
  | joinsReaper ids here _ all | passes ids here all =>
    have length := listed all
    simp only [Stopping.effort, effort, here, StopPoint.effort, List.length_nil]
    omega

theorem Winding.descends {t : Stopping} (winding : Winding t) :
    Descends Stopping.Event.outside 8 Stopping.effort Stopping.Step t := by
  constructor
  · intro e u step inner
    cases step with
    | adds => cases inner
    | stop stops => exact effort_stops stops
    | works _ works | dies _ works =>
      have less := effort_works winding.tracked winding.flag works
      have frame := works.frame
      simp only [Stopping.effort, frame.threads]
      omega
    | reaper _ reaps =>
      obtain ⟨less, fewer⟩ := effort_reaps reaps
      have point := t.point.effort_mono fewer
      simp only [Stopping.effort]
      omega
    | reaperEnds there =>
      simp only [Stopping.effort, there, if_true, Bool.false_eq_true, if_false]
      omega
  · intro e u step outside
    cases step with
    | adds =>
      simp only [Stopping.effort, effort, List.length_append, List.length_singleton]
      omega
    | stop | works | dies | reaper | reaperEnds => cases outside

/-! ### Nobody waits for ever -/

theorem Pair.Less.trans {a b c : Pair} (first : a.Less b) (second : b.Less c) : a.Less c := by
  unfold Less SharedPtr.Less at *
  omega

/-- A queue that is not empty has an element for `Pop` to take. -/
theorem exists_greatest (pairs : List Pair) (some : pairs ≠ []) :
    ∃ pair ∈ pairs, ∀ other ∈ pairs, ¬ pair.Less other := by
  have irrefl (pair : Pair) : ¬ pair.Less pair := by
    unfold Pair.Less SharedPtr.Less
    omega
  induction pairs with
  | nil => exact absurd rfl some
  | cons head rest ih =>
    by_cases last : rest = []
    · subst last
      exact ⟨head, List.mem_singleton_self _, by simpa using irrefl head⟩
    · obtain ⟨pair, member, greatest⟩ := ih last
      by_cases less : pair.Less head
      · refine ⟨head, List.mem_cons_self, fun other there => ?_⟩
        obtain rfl | later := List.mem_cons.mp there
        · exact irrefl other
        · exact fun more => greatest other later (less.trans more)
      · refine ⟨pair, List.mem_cons_of_mem _ member, fun other there => ?_⟩
        obtain rfl | later := List.mem_cons.mp there
        · exact less
        · exact greatest other later

/-- A task that neither returns nor comes to an interruption point keeps its worker. -/
def Caught (conduct : Conduct) (t : Stopping) : Prop :=
  ∃ i serial, t.pool.workers i = .running serial ∧
    ¬ conduct.returns serial ∧ ¬ conduct.interruptible serial

/-- A step of the pool itself that the tasks admit; no interruption of a `Pop` that finds
a task is needed. -/
def Moving (conduct : Conduct) : Stopping → Stopping.Event → Stopping → Prop :=
  Under Stopping.Waits (Under (Stopping.Admits conduct) Stopping.Step)

section
variable {conduct : Conduct} {t : Stopping}

/-- The worker that has `m_mutex` goes on. -/
theorem Locked.moves (locked : Locked s) (held : s.mutex = some i) :
    ∃ point point' after, s.workers i = .peel point ∧ Peels s.flag i s.mutex point after point' := by
  have inside := (locked.mutex i).mp held
  rw [held]
  generalize s.workers i = worker at inside
  unfold Worker.locks at inside
  split at inside
  · exact ⟨.wait, .blocked, none, rfl, .wait⟩
  · exact ⟨.unlock, .test, none, rfl, .unlock⟩
  · cases inside

theorem moves_of_peels (here : t.pool.workers i = .peel point) (held : t.pool.mutex = m)
    (peels : Peels t.pool.flag i m point after point') :
    ∃ e u, Moving conduct t e u ∧ e.outside = false := by
  subst held
  exact ⟨_, _, ⟨⟨.works i (.peels _ here peels) nofun, trivial⟩, trivial⟩, rfl⟩

/-- An interrupted worker, or the one that it waits for, can go on to its end. -/
theorem Winding.worker_moves (winding : Winding t) (interrupted : i ∈ t.pool.interrupted)
    (member : i ∈ t.pool.threads) (alive : t.pool.workers i ≠ .ended)
    (loose : ¬ Caught conduct t) : ∃ e u, Moving conduct t e u ∧ e.outside = false := by
  have dies (worker : Worker) (here : t.pool.workers i = worker)
      (point : worker.interruptible = true) (waits : worker ≠ .popping)
      (quiet : ∀ serial, worker ≠ .running serial) :
      ∃ e u, Moving conduct t e u ∧ e.outside = false := by
    subst here
    exact ⟨_, _, ⟨⟨.dies i (.dies interrupted point), fun serial here =>
      absurd here (quiet serial)⟩, fun here => absurd here waits⟩, rfl⟩
  cases here : t.pool.workers i with
  | ended => exact absurd here alive
  | unborn =>
    have late := (winding.tracked.born i).mp here
    exact absurd (winding.tracked.known i member) (Nat.not_lt.mpr late)
  | popped task => exact dies _ here rfl nofun nofun
  | popping =>
    by_cases empty : t.pool.tasks = []
    · have point : (t.pool.workers i).interruptible = true := here ▸ rfl
      refine ⟨_, _, ⟨⟨.dies i (.dies interrupted point), fun serial running => ?_⟩,
        fun _ => empty⟩, rfl⟩
      cases here.symm.trans running
    · obtain ⟨pair, listed, greatest⟩ := exists_greatest t.pool.tasks empty
      obtain ⟨before, after, tasks⟩ := List.append_of_mem listed
      exact ⟨_, _, ⟨⟨.works i (.pops before after pair here tasks greatest) nofun, trivial⟩,
        trivial⟩, rfl⟩
  | running serial =>
    by_cases returns : conduct.returns serial
    · exact ⟨_, _, ⟨⟨.works i (.finishes here) nofun, returns⟩, trivial⟩, rfl⟩
    · have point : (t.pool.workers i).interruptible = true := here ▸ rfl
      have interruptible : conduct.interruptible serial := by
        by_contra never
        exact loose ⟨i, serial, here, returns, never⟩
      refine ⟨_, _, ⟨⟨.dies i (.dies interrupted point), fun other running => ?_⟩,
        fun popping => ?_⟩, rfl⟩
      · cases here.symm.trans running
        exact interruptible
      · cases here.symm.trans popping
  | apple pushed =>
    cases pushed with
    | false => exact ⟨_, _, ⟨⟨.works i (.pushes here) nofun, trivial⟩, trivial⟩, rfl⟩
    | true => exact dies _ here rfl nofun nofun
  | peel point =>
    cases point with
    | blocked | notified => exact dies _ here rfl nofun nofun
    | test =>
      exact ⟨_, _, ⟨⟨.works i (.leaves here winding.flag) nofun, trivial⟩, trivial⟩, rfl⟩
    | lock =>
      cases held : t.pool.mutex with
      | none => exact moves_of_peels here held .lock
      | some j =>
        obtain ⟨point, point', after, there, peels⟩ := winding.locked.moves held
        exact moves_of_peels there rfl peels
    | wait => exact moves_of_peels here ((winding.locked.mutex i).mpr (by rw [here]; rfl)) .wait
    | unlock =>
      exact moves_of_peels here ((winding.locked.mutex i).mpr (by rw [here]; rfl)) .unlock

/-- The reaper comes to its end when it was interrupted. -/
theorem Winding.reaper_moves (winding : Winding t) (there : t.reaperEnded = false)
    (requested : t.interruptRequested = true) :
    ∃ e u, Moving conduct t e u ∧ e.outside = false := by
  have free : t.pool.mapLock = false := by
    by_contra held
    obtain ⟨id, inserting⟩ := winding.locked.map (Bool.eq_true_of_not_eq_false held)
    rw [Inserting, winding.todo] at inserting
    cases inserting
  have reaps {after : ThreadPool} (reaps : Reaps t.pool after) :
      ∃ e u, Moving conduct t e u ∧ e.outside = false :=
    ⟨_, _, ⟨⟨.reaper there reaps, trivial⟩, trivial⟩, rfl⟩
  have ends (point : Stopping.Reaper.interruptible t.pool.reaper = true) :
      ∃ e u, Moving conduct t e u ∧ e.outside = false :=
    ⟨_, _, ⟨⟨.reaperEnds there requested point, trivial⟩, trivial⟩, rfl⟩
  have holds := (winding.doomed there).holds
  cases here : t.pool.reaper with
  | popping | joining => exact ends (by rw [here]; rfl)
  | popped id => exact reaps (.finds id here free)
  | found it =>
    rw [here] at holds
    obtain ⟨id, rfl, _⟩ := holds
    exact reaps (.interrupts id here)
  | erasing id => exact reaps (.erases id here free)

theorem Winding.progress (winding : Winding t) (loose : ¬ Caught conduct t)
    (inside : t.point ≠ .returned) : ∃ e u, Moving conduct t e u ∧ e.outside = false := by
  have stops {u : Stopping} (stops : Stopping.Stops t u) :
      ∃ e u, Moving conduct t e u ∧ e.outside = false :=
    ⟨_, _, ⟨⟨.stop stops, trivial⟩, trivial⟩, rfl⟩
  have all : (t.pool.threads.toList : Multiset Nat) = t.pool.threads.val := Finset.coe_toList _
  have passed := winding.passed
  cases here : t.point with
  | interruptReaper => exact stops (.interruptsReaper here)
  | joinReaper =>
    cases there : t.reaperEnded with
    | true => exact stops (.joinsReaper _ here there all)
    | false =>
      rw [here] at passed
      exact winding.reaper_moves there passed
  | interrupt left =>
    cases left with
    | nil => exact stops (.passes _ here all)
    | cons id left => exact stops (.interrupts id here)
  | join left =>
    cases left with
    | nil => exact stops (.returns here)
    | cons id left =>
      by_cases ended : t.pool.workers id = .ended
      · exact stops (.joins id here ended)
      · rw [here] at passed
        obtain ⟨member, interrupted⟩ := passed.2.1 id List.mem_cons_self
        exact winding.worker_moves interrupted member ended loose
  | returned => exact absurd here inside

/-- `Stop` comes to its end: the threads of the pool take a bounded number of steps, each
task that is added meanwhile allowing for eight more, and when none of them can go on it has
returned, unless a task neither returns nor comes to an interruption point. -/
theorem stop_returns_iff (threadCount : Nat) (before : Run Step (start threadCount) past s)
    (idle : s.call = none)
    (run : Run (Under (Stopping.Admits conduct) Stopping.Step) (.enter s) tr t) :
    inner Stopping.Event.outside tr ≤
        (Stopping.enter s).effort + 8 * outer Stopping.Event.outside tr ∧
      (Quiet Stopping.Event.outside (Moving conduct) t →
        (t.point = .returned ↔ ¬ Caught conduct t)) := by
  have initial := winding_enter (sound_of_run threadCount before)
    (locked_of_run threadCount before) idle
  have winding : Winding t := run.guarded.invariant Winding.step initial
  constructor
  · have bound := run.guarded.bounded (P := Winding) Winding.step Winding.descends initial
    omega
  · intro quiet
    constructor
    · rintro returned ⟨i, serial, running, _⟩
      obtain here | here := winding.none_left returned i
      · cases running.symm.trans here
      · cases running.symm.trans here
    · intro loose
      by_contra inside
      obtain ⟨e, u, step, own⟩ := winding.progress loose inside
      cases own.symm.trans (quiet e u step)

end

theorem stop_returns_iff_single : ∃ (past : List Event) (s : ThreadPool)
    (tr : List Stopping.Event) (t : Stopping), Run Step (start 1) past s ∧
      t.point = .returned ∧ ¬ Caught .plain t ∧
      inner Stopping.Event.outside tr ≤
        (Stopping.enter s).effort + 8 * outer Stopping.Event.outside tr := by
  obtain ⟨past, s, before, idle, tr, t, run, returned, _⟩ := single_dropped
  have winding : Winding t := run.guarded.invariant Winding.step
    (winding_enter (sound_of_run 1 before) (locked_of_run 1 before) idle)
  obtain ⟨bound, returns⟩ := stop_returns_iff 1 before idle run
  refine ⟨past, s, tr, t, before, returned, ?_, bound⟩
  refine (returns fun e u step => ?_).mp returned
  obtain ⟨priority, rfl⟩ := winding.idles returned step.1.1
  rfl

end ThreadPool
end DistributedDisk
