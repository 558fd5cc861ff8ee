import DistributedDisk.Core.Transition
import DistributedDisk.Core.Counting

/-! `ThreadPool`: the owner's calls, the workers and the reaper
(`AngleOfDeathThread`) as threads that take turns. A critical section of one
mutex that only the holder can see is one step; the sections of `m_mutex` and of
`m_map_lock` in which others move on are not. -/
namespace DistributedDisk
open Transition Counting

namespace ThreadPool

inductive Priority where
  | low
  | normal
  | high
  | critical
  deriving DecidableEq

def Priority.value : Priority → Nat
  | .low => 1
  | .normal => 2
  | .high => 3
  | .critical => 4

/-- A task of the user is named by the number of tasks that were added before it. -/
inductive Task where
  | user (serial : Nat)
  | sleepingPeel
  | poisonApple
  deriving DecidableEq

/-- `boost::shared_ptr<Task>`, with the address of the block in which its owners are counted. -/
structure SharedPtr where
  controlBlock : Nat
  task : Task
  deriving DecidableEq

/-- `operator<` of shared pointers is `owner_before`; where the tasks are plays no part. -/
@[simp] def SharedPtr.Less (a b : SharedPtr) : Prop := a.controlBlock < b.controlBlock

/-- `std::pair<Priority, boost::shared_ptr<Task>>`. -/
structure Pair where
  priority : Priority
  pointer : SharedPtr
  deriving DecidableEq

def Pair.task (pair : Pair) : Task := pair.pointer.task

@[simp] theorem Pair.task_mk (priority : Priority) (pointer : SharedPtr) :
    Pair.task ⟨priority, pointer⟩ = pointer.task := rfl

/-- `std::less` on such pairs, by which `std::priority_queue` orders them. -/
def Pair.Less (a b : Pair) : Prop :=
  a.priority.value < b.priority.value ∨
    a.priority.value = b.priority.value ∧ a.pointer.Less b.pointer

inductive Flag where
  | pause
  | run
  deriving DecidableEq

/-- Where a worker is in `SleepingPeel::Do`. It is `blocked` until something wakes
it, and `notified` until it has `m_mutex` back. -/
inductive PeelPoint where
  | test
  | lock
  | wait
  | blocked
  | notified
  | unlock
  deriving DecidableEq

/-- Where a worker is in `RunThread`. An id whose thread was not created yet is
`unborn`; `apple` is `PoisonApple::Do` before and after its `Push`. -/
inductive Worker where
  | unborn
  | popping
  | popped (task : Task)
  | running (serial : Nat)
  | peel (point : PeelPoint)
  | apple (pushed : Bool)
  | ended
  deriving DecidableEq

/-- Where the reaper is; `found` has the result of `m_threads.find`. -/
inductive Reaper where
  | popping
  | popped (id : Nat)
  | found (it : Option Nat)
  | joining (id : Nat)
  | erasing (id : Nat)
  deriving DecidableEq

/-- The calls of the owner, the constructor first. -/
inductive Call where
  | construct (threadCount : Nat)
  | add (priority : Priority)
  | run
  | pause
  | resize (newThreadCount : Nat)
  deriving DecidableEq

/-- What a call does. `create` locks `m_map_lock` and starts a thread, `insert`
puts it into `m_threads` and unlocks; `size` reads `m_threads.size()`. -/
inductive Action where
  | addUser (priority : Priority)
  | addCritical (task : Task)
  | setFlag (flag : Flag)
  | notifyAll
  | size
  | create
  | insert (id : Nat)
  deriving DecidableEq

def insertPoisonApples (count : Nat) : List Action :=
  .replicate count (.addCritical .poisonApple)

def insertSleepingPeels (count : Nat) : List Action :=
  .replicate count (.addCritical .sleepingPeel)

/-- Each `create` is followed by the `insert` of its thread. -/
def addThreads (count : Nat) : List Action := .replicate count .create

def Call.body : Call → List Action
  | .construct threadCount => insertSleepingPeels threadCount ++ addThreads threadCount
  | .add priority => [.addUser priority]
  | .run => [.setFlag .run, .notifyAll]
  | .pause => [.setFlag .pause, .size]
  | .resize _ => [.size]

/-- How a call goes on when it has read the size. -/
def Call.sized (len : Nat) : Call → List Action
  | .pause => insertSleepingPeels len
  | .resize newThreadCount =>
    if newThreadCount < len then insertPoisonApples (len - newThreadCount)
    else addThreads (newThreadCount - len)
  | _ => []

inductive Move where
  | pops (task : Task)
  | begins (task : Task)
  | finishes (serial : Nat)
  | peels
  | leaves
  | pushes
  | dies
  deriving DecidableEq

inductive Event where
  | calls (call : Call)
  | acts (action : Action)
  | returns (call : Call)
  | worker (id : Nat) (move : Move)
  | reaper
  deriving DecidableEq

end ThreadPool

open ThreadPool in
/-- `mapLock` says that the owner holds `m_map_lock`, `mutex` which worker holds
`m_mutex`. `created` counts the threads, whose ids are their numbers, `added` the
tasks of the user, and `done` lists those whose `Do` has returned. -/
structure ThreadPool where
  tasks : List Pair
  threads : Finset Nat
  readyToDie : List Nat
  flag : Flag
  mutex : Option Nat
  mapLock : Bool
  workers : Nat → Worker
  interrupted : Finset Nat
  created : Nat
  added : Nat
  done : List Nat
  reaper : Reaper
  call : Option ThreadPool.Call
  todo : List Action

namespace ThreadPool

/-- The constructor has set its fields and goes on with its body. -/
def start (threadCount : Nat) : ThreadPool where
  tasks := []
  threads := ∅
  readyToDie := []
  flag := .pause
  mutex := none
  mapLock := false
  workers := fun _ => .unborn
  interrupted := ∅
  created := 0
  added := 0
  done := []
  reaper := .popping
  call := some (.construct threadCount)
  todo := (Call.construct threadCount).body

/-- The first point in `Do` of a task. -/
def Task.entry : Task → Worker
  | .user serial => .running serial
  | .sleepingPeel => .peel .test
  | .poisonApple => .apple false

/-- The calls that the owner may make later; a user does not use `CRITICAL`. -/
def Call.Allowed : Call → Prop
  | .construct _ => False
  | .add priority => priority ≠ .critical
  | _ => True

/-- `notify_all` reaches a worker that is blocked. -/
def Worker.notified : Worker → Worker
  | .peel .blocked => .peel .notified
  | worker => worker

/-- The points at which an interrupted worker throws `thread_interrupted`. -/
def Worker.interruptible : Worker → Bool
  | .popping | .popped _ | .running _ | .peel .blocked | .peel .notified | .apple true => true
  | _ => false

inductive Owns (s : ThreadPool) : Event → ThreadPool → Prop where
  | calls (call : Call) : s.call = none → call.Allowed →
      Owns s (.calls call) { s with call := some call, todo := call.body }
  | returns (call : Call) : s.call = some call → s.todo = [] →
      Owns s (.returns call) { s with call := none }
  | addUser (controlBlock : Nat) : s.todo = .addUser priority :: rest →
      Owns s (.acts (.addUser priority)) { s with
        tasks := s.tasks ++ [⟨priority, controlBlock, .user s.added⟩]
        added := s.added + 1, todo := rest }
  | addCritical (controlBlock : Nat) : s.todo = .addCritical task :: rest →
      Owns s (.acts (.addCritical task)) { s with
        tasks := s.tasks ++ [⟨.critical, controlBlock, task⟩], todo := rest }
  | setFlag (flag : Flag) : s.todo = .setFlag flag :: rest →
      Owns s (.acts (.setFlag flag)) { s with flag := flag, todo := rest }
  | notifyAll : s.todo = .notifyAll :: rest →
      Owns s (.acts .notifyAll) { s with workers := fun i => (s.workers i).notified, todo := rest }
  | size (call : Call) : s.call = some call → s.todo = .size :: rest →
      Owns s (.acts .size) { s with todo := call.sized s.threads.card ++ rest }
  | create : s.todo = .create :: rest → s.mapLock = false →
      Owns s (.acts .create) { s with
        mapLock := true, workers := Function.update s.workers s.created .popping
        created := s.created + 1, todo := .insert s.created :: rest }
  | insert (id : Nat) : s.todo = .insert id :: rest →
      Owns s (.acts (.insert id)) { s with
        threads := Insert.insert id s.threads, mapLock := false, todo := rest }

/-- `SleepingPeel::Do` on worker `i`, but for leaving its loop. A blocked worker may
wake up spuriously. -/
inductive Peels (flag : Flag) (i : Nat) :
    Option Nat → PeelPoint → Option Nat → PeelPoint → Prop where
  | test (mutex : Option Nat) : flag = .pause → Peels flag i mutex .test mutex .lock
  | lock : Peels flag i none .lock (some i) .wait
  | wait : Peels flag i (some i) .wait none .blocked
  | wake (mutex : Option Nat) : Peels flag i mutex .blocked mutex .notified
  | relock : Peels flag i none .notified (some i) .unlock
  | unlock : Peels flag i (some i) .unlock none .test

/-- The worker `i`. `Pop` takes a greatest element; `interruption_point` stands
between `Pop` and `Do`. -/
inductive Works (s : ThreadPool) (i : Nat) : Move → ThreadPool → Prop where
  | pops (before after : List Pair) (pair : Pair) : s.workers i = .popping →
      s.tasks = before ++ pair :: after → (∀ other ∈ s.tasks, ¬ pair.Less other) →
      Works s i (.pops pair.task) { s with
        tasks := before ++ after, workers := Function.update s.workers i (.popped pair.task) }
  | begins : s.workers i = .popped task → i ∉ s.interrupted →
      Works s i (.begins task) { s with workers := Function.update s.workers i task.entry }
  | finishes : s.workers i = .running serial →
      Works s i (.finishes serial) { s with
        workers := Function.update s.workers i .popping, done := s.done ++ [serial] }
  | peels (mutex : Option Nat) : s.workers i = .peel point →
      Peels s.flag i s.mutex point mutex point' →
      Works s i .peels { s with
        workers := Function.update s.workers i (.peel point'), mutex := mutex }
  | leaves : s.workers i = .peel .test → s.flag ≠ .pause →
      Works s i .leaves { s with workers := Function.update s.workers i .popping }
  | pushes : s.workers i = .apple false →
      Works s i .pushes { s with
        workers := Function.update s.workers i (.apple true), readyToDie := s.readyToDie ++ [i] }
  | dies : i ∈ s.interrupted → (s.workers i).interruptible = true →
      Works s i .dies { s with workers := Function.update s.workers i .ended }

/-- The reaper. There is no step behind a `find` that gave `end()`. -/
inductive Reaps (s : ThreadPool) : ThreadPool → Prop where
  | pops (id : Nat) : s.reaper = .popping → s.readyToDie = id :: rest →
      Reaps s { s with readyToDie := rest, reaper := .popped id }
  | finds (id : Nat) : s.reaper = .popped id → s.mapLock = false →
      Reaps s { s with reaper := .found (if id ∈ s.threads then some id else none) }
  | interrupts (id : Nat) : s.reaper = .found (some id) →
      Reaps s { s with interrupted := Insert.insert id s.interrupted, reaper := .joining id }
  | joins (id : Nat) : s.reaper = .joining id → s.workers id = .ended →
      Reaps s { s with reaper := .erasing id }
  | erases (id : Nat) : s.reaper = .erasing id → s.mapLock = false →
      Reaps s { s with threads := s.threads.erase id, reaper := .popping }

inductive Step : ThreadPool → Event → ThreadPool → Prop where
  | owner : Owns s e s' → Step s e s'
  | worker (i : Nat) : Works s i move s' → Step s (.worker i move) s'
  | reaper : Reaps s s' → Step s .reaper s'

/-! ### What a notification does to the workers -/

theorem notified_eq_iff {worker : Worker} (target : Worker) (blocked : target ≠ .peel .blocked)
    (notified : target ≠ .peel .notified) : worker.notified = target ↔ worker = target := by
  unfold Worker.notified
  split
  · exact iff_of_false notified.symm blocked.symm
  · rfl

/-- A count that does not tell a blocked worker from a notified one. -/
theorem tally_notified (threads : Finset Nat) {p : Worker → Bool} (workers : Nat → Worker)
    (same : p (.peel .notified) = p (.peel .blocked)) :
    tally threads p (fun i => (workers i).notified) = tally threads p workers := by
  apply tally_congr
  intro i _
  unfold Worker.notified
  split
  · rename_i blocked
    rw [blocked, same]
  · rfl

/-! ### The owner within a call -/

def Call.Grows : Call → Prop
  | .construct _ | .resize _ => True
  | _ => False

/-- What is left to do of a call. -/
inductive Doing : Option Call → List Action → Prop where
  | idle : Doing none []
  | done (call : Call) : Doing (some call) []
  | addUser (priority : Priority) : Doing (some (.add priority)) [.addUser priority]
  | setRun : Doing (some .run) [.setFlag .run, .notifyAll]
  | notifyAll : Doing (some .run) [.notifyAll]
  | setPause : Doing (some .pause) [.setFlag .pause, .size]
  | sizePause : Doing (some .pause) [.size]
  | sizeResize (count : Nat) : Doing (some (.resize count)) [.size]
  | peel (peels : Nat) :
      Doing (some .pause) (.addCritical .sleepingPeel :: insertSleepingPeels peels)
  | firstPeel (count peels threads : Nat) : Doing (some (.construct count))
      (.addCritical .sleepingPeel :: (insertSleepingPeels peels ++ addThreads threads))
  | apple (count apples : Nat) :
      Doing (some (.resize count)) (.addCritical .poisonApple :: insertPoisonApples apples)
  | create (call : Call) (threads : Nat) : call.Grows →
      Doing (some call) (.create :: addThreads threads)
  | insert (call : Call) (id threads : Nat) : call.Grows →
      Doing (some call) (.insert id :: addThreads threads)

theorem Doing.threads (call : Call) (grows : call.Grows) (threads : Nat) :
    Doing (some call) (addThreads threads) := by
  cases threads with
  | zero => exact .done call
  | succ threads => exact .create call threads grows

theorem Doing.peels (count : Nat) : Doing (some .pause) (insertSleepingPeels count) := by
  cases count with
  | zero => exact .done .pause
  | succ count => exact .peel count

theorem Doing.firstPeels (count peels threads : Nat) :
    Doing (some (.construct count)) (insertSleepingPeels peels ++ addThreads threads) := by
  cases peels with
  | zero => exact .threads (.construct count) trivial threads
  | succ peels => exact .firstPeel count peels threads

theorem Doing.apples (count apples : Nat) :
    Doing (some (.resize count)) (insertPoisonApples apples) := by
  cases apples with
  | zero => exact .done _
  | succ apples => exact .apple count apples

theorem Doing.body (call : Call) : Doing (some call) call.body := by
  cases call with
  | construct count => exact .firstPeels count count count
  | add priority => exact .addUser priority
  | run => exact .setRun
  | pause => exact .setPause
  | resize count => exact .sizeResize count

/-- Behind most actions the call goes on with the next one. -/
theorem Doing.tail (doing : Doing current (action :: rest)) (size : action ≠ .size)
    (create : action ≠ .create) : Doing current rest := by
  cases doing with
  | addUser | notifyAll => exact .done _
  | setRun => exact .notifyAll
  | setPause => exact .sizePause
  | sizePause | sizeResize => exact absurd rfl size
  | peel peels => exact .peels peels
  | firstPeel count peels threads => exact .firstPeels count peels threads
  | apple count apples => exact .apples count apples
  | create => exact absurd rfl create
  | insert call id threads grows => exact .threads call grows threads

theorem Doing.sized {call : Call} (doing : Doing (some call) (.size :: rest)) (len : Nat) :
    Doing (some call) (call.sized len ++ rest) := by
  cases doing with
  | sizePause =>
    rw [List.append_nil]
    exact .peels len
  | sizeResize count =>
    rw [List.append_nil, Call.sized]
    split
    · exact .apples count _
    · exact .threads (.resize count) trivial _

theorem Doing.created (doing : Doing current (.create :: rest)) (id : Nat) :
    Doing current (.insert id :: rest) := by
  cases doing with
  | create call threads grows => exact .insert call id threads grows

theorem Doing.of_idle (doing : Doing none left) : left = [] := by
  cases doing
  rfl

theorem Doing.of_size (doing : Doing current (.size :: rest)) : rest = [] := by
  cases doing <;> rfl

theorem Doing.of_setFlag (doing : Doing current (.setFlag flag' :: rest)) :
    current = some .run ∧ flag' = .run ∧ rest = [.notifyAll] ∨
      current = some .pause ∧ flag' = .pause ∧ rest = [.size] := by
  cases doing with
  | setRun => exact .inl ⟨rfl, rfl, rfl⟩
  | setPause => exact .inr ⟨rfl, rfl, rfl⟩

theorem Doing.step {s s' : ThreadPool} (doing : Doing s.call s.todo) (step : Step s e s') :
    Doing s'.call s'.todo := by
  cases step with
  | worker _ works => cases works <;> exact doing
  | reaper reaps => cases reaps <;> exact doing
  | owner owns =>
    cases owns with
    | calls call => exact .body call
    | returns call _ todo =>
      rw [todo]
      exact .idle
    | addUser _ todo | addCritical _ todo | setFlag _ todo | notifyAll todo | insert _ todo =>
      rw [todo] at doing
      exact doing.tail nofun nofun
    | size call same todo =>
      rw [todo, same] at doing
      rw [same]
      exact doing.sized _
    | create todo =>
      rw [todo] at doing
      exact doing.created _

theorem doing_start (threadCount : Nat) :
    Doing (start threadCount).call (start threadCount).todo := .body (.construct threadCount)

end ThreadPool
end DistributedDisk
