import DistributedDisk.ThreadPool

/-! The reaper against the workers and the owner. A thread is in `m_threads` from
the end of its `AddThreads` round until the reaper has joined it, and only the
workers inside `PoisonApple::Do` are interrupted. -/
namespace DistributedDisk
open Transition Counting

namespace ThreadPool

/-- The owner has started this thread and not put it into `m_threads` yet. -/
def Inserting (s : ThreadPool) (id : Nat) : Prop := s.todo.head? = some (.insert id)

theorem replicate_not_inserting (count : Nat) {action : Action} {id : Nat}
    (other : action ≠ .insert id) : (List.replicate count action).head? ≠ some (.insert id) := by
  cases count with
  | zero => nofun
  | succ => exact fun same => other (Option.some.inj same)

theorem Doing.not_inserting (doing : Doing current (action :: rest)) (id : Nat) :
    rest.head? ≠ some (.insert id) := by
  cases doing with
  | addUser | setRun | notifyAll | setPause | sizePause | sizeResize => nofun
  | peel peels | apple _ apples | create _ threads | insert _ _ threads =>
    exact replicate_not_inserting _ nofun
  | firstPeel count peels threads =>
    cases peels with
    | zero => exact replicate_not_inserting threads nofun
    | succ peels => nofun

theorem Call.body_not_inserting (call : Call) (id : Nat) :
    call.body.head? ≠ some (.insert id) := by
  cases call with
  | construct count => cases count <;> nofun
  | add | run | pause | resize => nofun

theorem Call.sized_not_inserting (call : Call) (len id : Nat) :
    (call.sized len).head? ≠ some (.insert id) := by
  cases call with
  | construct | add | run =>
    intro same
    cases same
  | pause =>
    apply replicate_not_inserting
    intro same
    cases same
  | resize count =>
    simp only [Call.sized]
    split <;>
    · apply replicate_not_inserting
      intro same
      cases same

/-- What a move leaves alone. -/
structure Works.Frame (s s' : ThreadPool) : Prop where
  threads : s'.threads = s.threads
  interrupted : s'.interrupted = s.interrupted
  created : s'.created = s.created
  added : s'.added = s.added
  mapLock : s'.mapLock = s.mapLock
  reaper : s'.reaper = s.reaper
  flag : s'.flag = s.flag
  call : s'.call = s.call
  todo : s'.todo = s.todo

theorem Works.frame (works : Works s i move s') : Frame s s' := by
  cases works <;> exact ⟨rfl, rfl, rfl, rfl, rfl, rfl, rfl, rfl, rfl⟩

/-- Where a move may lead a worker. -/
structure Moves (s : ThreadPool) (i : Nat) (worker : Worker) : Prop where
  alive : s.workers i ≠ .unborn ∧ s.workers i ≠ .ended
  born : worker ≠ .unborn
  ends : worker = .ended → i ∈ s.interrupted
  sleeps : s.workers i = .apple true → worker = .ended

theorem Works.moves (works : Works s i move s') :
    ∃ worker, s'.workers = Function.update s.workers i worker ∧ Moves s i worker := by
  cases works with
  | @begins task here =>
    refine ⟨task.entry, rfl, ?_⟩
    constructor <;> cases task <;> simp [here, Task.entry]
  | dies interrupted here =>
    refine ⟨.ended, rfl, ⟨?_, ?_⟩, nofun, fun _ => interrupted, fun _ => rfl⟩ <;>
    · intro same
      rw [same] at here
      cases here
  | pops _ _ _ here | finishes here | peels _ here | leaves here | pushes here =>
    refine ⟨_, rfl, ?_⟩
    constructor <;> simp [here]

/-- What the owner leaves alone but for `AddThreads`. -/
structure Owns.Quiet (s s' : ThreadPool) : Prop where
  threads : s'.threads = s.threads
  created : s'.created = s.created
  workers : ∀ i, s'.workers i = s.workers i ∨ s'.workers i = (s.workers i).notified
  before : ∀ id, ¬ s.Inserting id
  after : ∀ id, ¬ s'.Inserting id

theorem Owns.quiet (owns : Owns s e s') (doing : Doing s.call s.todo)
    (create : e ≠ .acts .create) (insert : ∀ id, e ≠ .acts (.insert id)) : Quiet s s' := by
  have before {action rest} (todo : s.todo = action :: rest) (other : ∀ id, action ≠ .insert id) :
      ∀ id, ¬ s.Inserting id := by
    intro id inserting
    rw [Inserting, todo] at inserting
    exact other id (Option.some.inj inserting)
  cases owns with
  | create => exact absurd rfl create
  | insert id => exact absurd rfl (insert id)
  | calls call idle =>
    rw [idle] at doing
    refine ⟨rfl, rfl, fun _ => .inl rfl, fun id inserting => ?_, call.body_not_inserting⟩
    rw [Inserting, doing.of_idle] at inserting
    cases inserting
  | returns call _ todo =>
    have none (id : Nat) : ¬ s.Inserting id := by
      rw [Inserting, todo]
      nofun
    exact ⟨rfl, rfl, fun _ => .inl rfl, none, none⟩
  | addUser _ todo | addCritical _ todo | setFlag _ todo =>
    rw [todo] at doing
    exact ⟨rfl, rfl, fun _ => .inl rfl, before todo nofun, doing.not_inserting⟩
  | notifyAll todo =>
    rw [todo] at doing
    exact ⟨rfl, rfl, fun _ => .inr rfl, before todo nofun, doing.not_inserting⟩
  | size call _ todo =>
    rw [todo] at doing
    refine ⟨rfl, rfl, fun _ => .inl rfl, before todo nofun, fun id => ?_⟩
    rw [Inserting, doing.of_size, List.append_nil]
    exact call.sized_not_inserting _ id

/-! ### The threads of the map -/

structure Tracked (s : ThreadPool) : Prop where
  born : ∀ i, s.workers i = .unborn ↔ s.created ≤ i
  known : ∀ i ∈ s.threads, i < s.created
  inserting : ∀ id, s.Inserting id → id < s.created ∧ id ∉ s.threads ∧ s.mapLock = true
  present : ∀ i < s.created, s.workers i ≠ .ended → i ∈ s.threads ∨ s.Inserting i

/-- A worker that may still move was created. -/
theorem Tracked.created (tracked : Tracked s) (alive : s.workers i ≠ .unborn) : i < s.created := by
  by_contra late
  exact alive ((tracked.born i).mpr (Nat.le_of_not_lt late))

theorem Tracked.within (tracked : Tracked s) (alive : s.workers i ≠ .unborn) :
    i ∈ Finset.range s.created := Finset.mem_range.mpr (tracked.created alive)

theorem Tracked.works {s s' : ThreadPool} (tracked : Tracked s) (works : Works s i move s') :
    Tracked s' := by
  have frame := works.frame
  obtain ⟨worker, workers, moves⟩ := works.moves
  have within := tracked.created moves.alive.1
  refine ⟨fun j => ?_, ?_, ?_, fun j early awake => ?_⟩
  · rw [workers, frame.created, ← tracked.born j]
    by_cases same : j = i
    · simp [same, moves.born, moves.alive.1]
    · rw [Function.update_of_ne same]
  · rw [frame.threads, frame.created]
    exact tracked.known
  · rw [frame.created, frame.threads, frame.mapLock]
    intro id inserting
    rw [Inserting, frame.todo] at inserting
    exact tracked.inserting id inserting
  · rw [frame.created] at early
    rw [frame.threads, Inserting, frame.todo]
    refine tracked.present j early fun ended => awake ?_
    by_cases same : j = i
    · rw [same] at ended
      exact absurd ended moves.alive.2
    · rw [workers, Function.update_of_ne same, ended]

theorem Tracked.owns {s s' : ThreadPool} (tracked : Tracked s) (doing : Doing s.call s.todo)
    (owns : Owns s e s') : Tracked s' := by
  by_cases create : e = .acts .create
  · subst create
    cases owns with
    | create todo =>
      refine ⟨fun i => ?_, fun i member => ?_, fun id inserting => ?_, fun i early awake => ?_⟩
      · by_cases same : i = s.created
        · simp [same]
        · simp only [Function.update_of_ne same, tracked.born i]
          exact ⟨fun late => Nat.lt_of_le_of_ne late (Ne.symm same), Nat.le_of_succ_le⟩
      · exact Nat.lt_succ_of_lt (tracked.known i member)
      · cases inserting
        refine ⟨Nat.lt_succ_self _, fun member => ?_, rfl⟩
        exact absurd (tracked.known _ member) (Nat.lt_irrefl _)
      · by_cases same : i = s.created
        · exact .inr (by rw [same, Inserting]; rfl)
        · simp only [Function.update_of_ne same] at awake
          have old : i < s.created := lt_of_le_of_ne (Nat.lt_succ_iff.mp early) same
          refine .inl ((tracked.present i old awake).resolve_right fun inserting => ?_)
          rw [Inserting, todo] at inserting
          cases inserting
  by_cases insert : ∃ id, e = .acts (.insert id)
  · obtain ⟨id, rfl⟩ := insert
    cases owns with
    | insert _ todo =>
      have new : s.Inserting id := by rw [Inserting, todo]; rfl
      have rest := doing
      rw [todo] at rest
      refine ⟨tracked.born, fun i member => ?_,
        fun id inserting => absurd inserting (rest.not_inserting id), fun i early awake => ?_⟩
      · rcases Finset.mem_insert.mp member with rfl | member
        · exact (tracked.inserting i new).1
        · exact tracked.known i member
      · refine .inl (Finset.mem_insert.mpr ?_)
        rcases tracked.present i early awake with member | inserting
        · exact .inr member
        · rw [Inserting, todo] at inserting
          cases inserting
          exact .inl rfl
  have quiet := owns.quiet doing create fun id same => insert ⟨id, same⟩
  constructor
  · intro i
    rw [quiet.created, ← tracked.born i]
    rcases quiet.workers i with same | same <;> rw [same]
    exact notified_eq_iff .unborn nofun nofun
  · rw [quiet.threads, quiet.created]
    exact tracked.known
  · exact fun id inserting => absurd inserting (quiet.after id)
  · intro i early awake
    rw [quiet.created] at early
    rw [quiet.threads]
    refine .inl ((tracked.present i early fun ended => awake ?_).resolve_right (quiet.before i))
    rcases quiet.workers i with same | same <;> rw [same, ended]
    rfl

/-! ### The threads that are to be joined -/

/-- The ids that the reaper has taken and not interrupted yet. -/
def Reaper.doomed : Reaper → List Nat
  | .popped id | .found (some id) => [id]
  | _ => []

/-- What the reaper holds on to is in `m_threads`. -/
def Holds (s : ThreadPool) : Reaper → Prop
  | .found it => ∃ id ∈ it, id ∈ s.threads
  | .joining id => id ∈ s.threads
  | .erasing id => id ∈ s.threads ∧ s.workers id = .ended
  | _ => True

structure Doomed (s : ThreadPool) : Prop where
  nodup : (s.reaper.doomed ++ s.readyToDie).Nodup
  waiting : ∀ id ∈ s.reaper.doomed ++ s.readyToDie, s.workers id = .apple true ∧ id ∉ s.interrupted
  interrupted : ∀ i ∈ s.interrupted,
    s.workers i = .ended ∨ s.workers i = .apple true ∧ s.reaper = .joining i
  holds : s.Holds s.reaper

theorem Tracked.reaps {s s' : ThreadPool} (tracked : Tracked s) (doomed : Doomed s)
    (reaps : Reaps s s') : Tracked s' := by
  cases reaps with
  | pops | finds | interrupts | joins =>
    exact ⟨tracked.born, tracked.known, tracked.inserting, tracked.present⟩
  | erases id here =>
    have held := doomed.holds
    rw [here] at held
    refine ⟨tracked.born, fun i member => tracked.known i (Finset.mem_of_mem_erase member),
      fun id' inserting => ?_, fun i early awake => ?_⟩
    · obtain ⟨early, new, locked⟩ := tracked.inserting id' inserting
      exact ⟨early, fun member => new (Finset.mem_of_mem_erase member), locked⟩
    · refine (tracked.present i early awake).imp_left fun member => ?_
      refine Finset.mem_erase.mpr ⟨?_, member⟩
      rintro rfl
      exact awake held.2

theorem Works.readyToDie (works : Works s i move s') : s'.readyToDie = s.readyToDie ∨
    s.workers i = .apple false ∧ s'.workers i = .apple true ∧
      s'.readyToDie = s.readyToDie ++ [i] := by
  cases works with
  | pushes here => exact .inr ⟨here, Function.update_self .., rfl⟩
  | pops | begins | finishes | peels | leaves | dies => exact .inl rfl

theorem Doomed.works {s s' : ThreadPool} (doomed : Doomed s) (works : Works s i move s') :
    Doomed s' := by
  have frame := works.frame
  obtain ⟨worker, workers, moves⟩ := works.moves
  -- a worker that waits for the reaper does not move before it is interrupted
  have stays (id : Nat) (waits : id ∈ s.reaper.doomed ++ s.readyToDie) :
      s'.workers id = .apple true ∧ id ∉ s'.interrupted := by
    obtain ⟨asleep, alone⟩ := doomed.waiting id waits
    have other : id ≠ i := by
      rintro rfl
      exact alone (moves.ends (moves.sleeps asleep))
    rw [workers, Function.update_of_ne other, frame.interrupted]
    exact ⟨asleep, alone⟩
  have interrupted (j : Nat) (member : j ∈ s'.interrupted) :
      s'.workers j = .ended ∨ s'.workers j = .apple true ∧ s'.reaper = .joining j := by
    rw [frame.interrupted] at member
    rw [workers, frame.reaper]
    by_cases same : j = i
    · subst same
      rw [Function.update_self]
      rcases doomed.interrupted j member with ended | ⟨asleep, _⟩
      · exact absurd ended moves.alive.2
      · exact .inl (moves.sleeps asleep)
    · rw [Function.update_of_ne same]
      exact doomed.interrupted j member
  have holds : s'.Holds s'.reaper := by
    have old := doomed.holds
    rw [frame.reaper]
    cases here : s.reaper with
    | popping | popped => trivial
    | found | joining => rw [here] at old; simpa only [Holds, frame.threads] using old
    | erasing id =>
      rw [here] at old
      have other : id ≠ i := by
        rintro rfl
        exact moves.alive.2 old.2
      simpa only [Holds, frame.threads, workers, Function.update_of_ne other] using old
  rcases works.readyToDie with same | ⟨awake, asleep, grown⟩
  · refine ⟨?_, ?_, interrupted, holds⟩ <;> rw [frame.reaper, same]
    · exact doomed.nodup
    · exact stays
  · have alone : i ∉ s.reaper.doomed ++ s.readyToDie := by
      intro waits
      rw [(doomed.waiting i waits).1] at awake
      cases awake
    refine ⟨?_, ?_, interrupted, holds⟩ <;> rw [frame.reaper, grown, ← List.append_assoc]
    · exact List.nodup_append.mpr ⟨doomed.nodup, List.nodup_singleton i,
        fun id waits j last same => alone (by rwa [← List.mem_singleton.mp last, ← same])⟩
    · intro id waits
      rcases List.mem_append.mp waits with waits | last
      · exact stays id waits
      · obtain rfl := List.mem_singleton.mp last
        refine ⟨asleep, fun member => ?_⟩
        rw [frame.interrupted] at member
        rcases doomed.interrupted id member with ended | ⟨asleep, _⟩
        · exact moves.alive.2 ended
        · rw [asleep] at awake
          cases awake

theorem Owns.frame (owns : Owns s e s') : s'.readyToDie = s.readyToDie ∧
    s'.interrupted = s.interrupted ∧ s'.reaper = s.reaper ∧ s'.done = s.done := by
  cases owns <;> exact ⟨rfl, rfl, rfl, rfl⟩

theorem Owns.threads (owns : Owns s e s') : s.threads ⊆ s'.threads := by
  cases owns with
  | insert id => exact Finset.subset_insert id s.threads
  | calls | returns | addUser | addCritical | setFlag | notifyAll | size | create =>
    exact Finset.Subset.refl _

/-- A worker that waits for the reaper or has ended is not disturbed by the owner. -/
theorem Owns.parked {s s' : ThreadPool} (owns : Owns s e s') (tracked : Tracked s)
    (parked : s.workers i = .apple true ∨ s.workers i = .ended) :
    s'.workers i = s.workers i := by
  cases owns with
  | create =>
    apply Function.update_of_ne
    rintro rfl
    rw [(tracked.born _).mpr le_rfl] at parked
    rcases parked with parked | parked <;> cases parked
  | notifyAll =>
    have same : (s.workers i).notified = s.workers i := by
      rcases parked with here | here <;> rw [here] <;> rfl
    exact same
  | calls | returns | addUser | addCritical | setFlag | size | insert => rfl

theorem Doomed.owns {s s' : ThreadPool} (doomed : Doomed s) (tracked : Tracked s)
    (owns : Owns s e s') : Doomed s' := by
  obtain ⟨ready, interrupted, reaper, _⟩ := owns.frame
  constructor
  · rw [ready, reaper]
    exact doomed.nodup
  · rw [ready, reaper, interrupted]
    intro id waits
    obtain ⟨asleep, alone⟩ := doomed.waiting id waits
    exact ⟨(owns.parked tracked (.inl asleep)).trans asleep, alone⟩
  · rw [interrupted, reaper]
    intro i member
    rcases doomed.interrupted i member with ended | ⟨asleep, joining⟩
    · exact .inl ((owns.parked tracked (.inr ended)).trans ended)
    · exact .inr ⟨(owns.parked tracked (.inl asleep)).trans asleep, joining⟩
  · have held := doomed.holds
    rw [reaper]
    cases here : s.reaper with
    | popping | popped => trivial
    | found it =>
      rw [here] at held
      obtain ⟨id, same, member⟩ := held
      exact ⟨id, same, owns.threads member⟩
    | joining id =>
      rw [here] at held
      exact owns.threads held
    | erasing id =>
      rw [here] at held
      exact ⟨owns.threads held.1, (owns.parked tracked (.inr held.2)).trans held.2⟩

/-- An id that the reaper has popped is in the map, because the section of
`AddThreads` that started its thread is over. -/
theorem Doomed.found {s : ThreadPool} {id : Nat} (doomed : Doomed s) (tracked : Tracked s)
    (here : s.reaper = .popped id) (free : s.mapLock = false) : id ∈ s.threads := by
  have asleep := (doomed.waiting id (by simp [here, Reaper.doomed])).1
  have early : id < s.created := tracked.created (by rw [asleep]; nofun)
  refine (tracked.present id early (by rw [asleep]; nofun)).resolve_right fun inserting => ?_
  have locked := (tracked.inserting id inserting).2.2
  rw [free] at locked
  cases locked

theorem Doomed.reaps {s s' : ThreadPool} (doomed : Doomed s) (tracked : Tracked s)
    (reaps : Reaps s s') : Doomed s' := by
  have elsewhere {i} (member : i ∈ s.interrupted) (idle : ∀ id, s.reaper ≠ .joining id) :
      s.workers i = .ended :=
    (doomed.interrupted i member).resolve_right fun asleep => idle i asleep.2
  have found {id} (here : s.reaper = .popped id) (free : s.mapLock = false) : id ∈ s.threads :=
    doomed.found tracked here free
  obtain ⟨nodup, waiting, interrupted, holds⟩ := doomed
  cases reaps with
  | pops id here ready =>
    rw [here, ready] at nodup waiting
    exact ⟨nodup, waiting, fun i member => .inl (elsewhere member (by rw [here]; nofun)), trivial⟩
  | finds id here free =>
    have member := found here free
    rw [here] at nodup waiting
    rw [if_pos member]
    exact ⟨nodup, waiting, fun i member => .inl (elsewhere member (by rw [here]; nofun)),
      id, rfl, member⟩
  | interrupts id here =>
    rw [here] at nodup waiting holds
    obtain ⟨_, ⟨⟩, member⟩ := holds
    obtain ⟨alone, rest⟩ := List.nodup_cons.mp nodup
    refine ⟨rest, fun id' waits => ?_, fun i member => ?_, member⟩
    · obtain ⟨asleep, quiet⟩ := waiting id' (List.mem_cons_of_mem id waits)
      refine ⟨asleep, fun member => ?_⟩
      rcases Finset.mem_insert.mp member with rfl | member
      · exact alone waits
      · exact quiet member
    · rcases Finset.mem_insert.mp member with rfl | member
      · exact .inr ⟨(waiting i List.mem_cons_self).1, rfl⟩
      · exact .inl (elsewhere member (by rw [here]; nofun))
  | joins id here ended =>
    rw [here] at nodup waiting holds
    refine ⟨nodup, waiting, fun i member => .inl ?_, holds, ended⟩
    rcases interrupted i member with ended | ⟨_, joining⟩
    · exact ended
    · rw [here] at joining
      cases joining
      exact ended
  | erases id here =>
    rw [here] at nodup waiting
    exact ⟨nodup, waiting, fun i member => .inl (elsewhere member (by rw [here]; nofun)), trivial⟩

/-- The invariants of the threads. -/
structure Sound (s : ThreadPool) : Prop where
  doing : Doing s.call s.todo
  tracked : Tracked s
  doomed : Doomed s
  alive : ∀ id, s.Inserting id → s.workers id ≠ .ended

/-- A worker ends only when the reaper waits for it, so its thread is in the map. -/
theorem Doomed.dying {s : ThreadPool} {i : Nat} (doomed : Doomed s)
    (interrupted : i ∈ s.interrupted) (alive : s.workers i ≠ .ended) :
    s.workers i = .apple true ∧ i ∈ s.threads := by
  obtain ⟨asleep, joining⟩ := (doomed.interrupted i interrupted).resolve_left alive
  have held := doomed.holds
  rw [joining] at held
  exact ⟨asleep, held⟩

theorem Sound.alive_step {s s' : ThreadPool} (sound : Sound s) (step : Step s e s') :
    ∀ id, s'.Inserting id → s'.workers id ≠ .ended := by
  obtain ⟨doing, tracked, doomed, alive⟩ := sound
  intro id inserting ended
  cases step with
  | reaper reaps => cases reaps <;> exact alive id inserting ended
  | worker i works =>
    have frame := works.frame
    obtain ⟨worker, workers, moves⟩ := works.moves
    rw [Inserting, frame.todo] at inserting
    by_cases same : id = i
    · subst same
      rw [workers, Function.update_self] at ended
      have member := (doomed.dying (moves.ends ended) moves.alive.2).2
      exact (tracked.inserting id inserting).2.1 member
    · rw [workers, Function.update_of_ne same] at ended
      exact alive id inserting ended
  | owner owns =>
    by_cases create : e = .acts .create
    · subst create
      cases owns with
      | create =>
        cases inserting
        simp only [Function.update_self] at ended
        cases ended
    by_cases insert : ∃ id, e = .acts (.insert id)
    · obtain ⟨_, rfl⟩ := insert
      cases owns with
      | insert _ todo =>
        rw [todo] at doing
        exact doing.not_inserting id inserting
    exact (owns.quiet doing create fun id same => insert ⟨id, same⟩).after id inserting

theorem Sound.step {s s' : ThreadPool} (sound : Sound s) (step : Step s e s') : Sound s' := by
  refine ⟨sound.doing.step step, ?_, ?_, sound.alive_step step⟩
  · cases step with
    | owner owns => exact sound.tracked.owns sound.doing owns
    | worker _ works => exact sound.tracked.works works
    | reaper reaps => exact sound.tracked.reaps sound.doomed reaps
  · cases step with
    | owner owns => exact sound.doomed.owns sound.tracked owns
    | worker _ works => exact sound.doomed.works works
    | reaper reaps => exact sound.doomed.reaps sound.tracked reaps

theorem sound_start (threadCount : Nat) : Sound (start threadCount) := by
  have none (id : Nat) : ¬ (start threadCount).Inserting id :=
    (Call.construct threadCount).body_not_inserting id
  refine ⟨doing_start threadCount, ⟨?_, ?_, fun id inserting => absurd inserting (none id), ?_⟩,
    ⟨List.nodup_nil, ?_, ?_, trivial⟩, fun id inserting => absurd inserting (none id)⟩
  · simp [start]
  · simp [start]
  · simp [start]
  · simp [start, Reaper.doomed]
  · simp [start]

theorem sound_of_run (threadCount : Nat) (run : Run Step (start threadCount) tr s) : Sound s :=
  run.invariant Sound.step (sound_start threadCount)

/-! ### The places of a task -/

/-- The worker has popped this task of the user and its `Do` has not returned. -/
def Worker.holds (serial : Nat) : Worker → Bool
  | .popped (.user other) | .running other => other = serial
  | _ => false

/-- In how many places a task of the user is: in the queue, with a worker, done. -/
def places (s : ThreadPool) (serial : Nat) : Nat :=
  s.tasks.countP (·.task = .user serial) +
    tally (.range s.created) (Worker.holds serial) s.workers + s.done.count serial

def Placed (s : ThreadPool) : Prop :=
  ∀ serial, s.places serial = if serial < s.added then 1 else 0

theorem Doing.not_user (doing : Doing current (.addCritical task :: rest)) (serial : Nat) :
    task ≠ .user serial := by
  cases doing <;> nofun

theorem Placed.owns {s s' : ThreadPool} (placed : Placed s) (doing : Doing s.call s.todo)
    (owns : Owns s e s') : Placed s' := by
  intro serial
  have old := placed serial
  cases owns with
  | calls | returns | setFlag | size | insert => exact old
  | addUser controlBlock todo =>
    simp only [places, List.countP_append, List.countP_singleton, Pair.task_mk, Task.user.injEq,
      decide_eq_true_eq] at old ⊢
    split <;> split at old <;> split <;> omega
  | addCritical controlBlock todo =>
    rw [todo] at doing
    simpa only [places, List.countP_append, List.countP_singleton, Pair.task_mk, doing.not_user,
      decide_false, Bool.false_eq_true, if_false, Nat.add_zero] using old
  | notifyAll todo =>
    have same : tally (.range s.created) (Worker.holds serial) (fun i => (s.workers i).notified) =
        tally (.range s.created) (Worker.holds serial) s.workers :=
      tally_notified _ s.workers rfl
    simpa only [places, same] using old
  | create todo =>
    simpa [places, tally_range_succ, Worker.holds] using old

theorem Placed.works {s s' : ThreadPool} (placed : Placed s) (tracked : Tracked s)
    (doomed : Doomed s) (works : Works s i move s') : Placed s' := by
  intro serial
  have old := placed serial
  obtain ⟨_, _, moves⟩ := works.moves
  have within := tracked.within moves.alive.1
  simp only [places] at old ⊢
  -- most moves take the worker to a point where it holds what it held
  have keep (worker : Worker) (same : worker.holds serial = (s.workers i).holds serial) :
      tally (.range s.created) (Worker.holds serial) (Function.update s.workers i worker) =
        tally (.range s.created) (Worker.holds serial) s.workers := tally_keeps _ same
  cases works with
  | pops before after pair here tasks =>
    simp only [tasks, List.countP_append, List.countP_cons] at old ⊢
    by_cases taken : pair.task = .user serial
    · have gains : tally (.range s.created) (Worker.holds serial)
          (Function.update s.workers i (.popped pair.task)) =
          tally (.range s.created) (Worker.holds serial) s.workers + 1 :=
        tally_gains within (by rw [here]; rfl) (by simp [taken, Worker.holds])
      simp only [taken, decide_true, if_true] at old gains ⊢
      omega
    · rw [keep]
      · simpa [taken] using old
      · rw [here]
        cases task : pair.task <;> simp_all [Worker.holds]
  | @begins task here =>
    rw [keep]
    · exact old
    · rw [here]
      cases task <;> rfl
  | @finishes other here =>
    by_cases mine : other = serial
    · have loses : tally (.range s.created) (Worker.holds serial)
          (Function.update s.workers i .popping) + 1 =
          tally (.range s.created) (Worker.holds serial) s.workers :=
        tally_loses within (by simp [here, mine, Worker.holds]) rfl
      simp only [mine, List.count_append, List.count_singleton_self]
      omega
    · rw [keep]
      · simpa [mine] using old
      · simp [here, mine, Worker.holds]
  | peels _ here | leaves here | pushes here =>
    rw [keep]
    · exact old
    · rw [here]
      rfl
  | dies interrupted interruptible =>
    rw [keep]
    · exact old
    · rcases doomed.interrupted i interrupted with here | ⟨here, _⟩
      · rw [here] at interruptible
        cases interruptible
      · rw [here]
        rfl

theorem Placed.step {s s' : ThreadPool} (placed : Placed s) (sound : Sound s)
    (step : Step s e s') : Placed s' := by
  cases step with
  | owner owns => exact placed.owns sound.doing owns
  | worker _ works => exact placed.works sound.tracked sound.doomed works
  | reaper reaps => cases reaps <;> exact placed

theorem placed_start (threadCount : Nat) : Placed (start threadCount) := by
  intro serial
  simp [places, start]

/-- The reaper finds what it looks for and interrupts only workers that are inside
`PoisonApple::Do`, and every task of the user is in one place. -/
structure Orderly (s : ThreadPool) : Prop where
  found : s.reaper ≠ .found none
  interrupts : ∀ id, s.reaper = .found (some id) → s.workers id = .apple true
  interrupted : ∀ i ∈ s.interrupted, s.workers i = .apple true ∨ s.workers i = .ended
  placed : ∀ serial < s.added, s.places serial = 1

/-- However the owner resizes the pool, no task is lost or done twice and no busy
worker is interrupted. -/
theorem orderly_of_run (threadCount : Nat) (run : Run Step (start threadCount) tr s) :
    Orderly s := by
  have kept : Sound s ∧ Placed s := by
    apply run.invariant
    · intro s e t ⟨sound, placed⟩ step
      exact ⟨sound.step step, placed.step sound step⟩
    · exact ⟨sound_start threadCount, placed_start threadCount⟩
  obtain ⟨⟨_, _, doomed, _⟩, placed⟩ := kept
  refine ⟨fun lost => ?_, fun id here => ?_, fun i member => ?_, fun serial added => ?_⟩
  · have held := doomed.holds
    rw [lost] at held
    obtain ⟨_, none, _⟩ := held
    cases none
  · exact (doomed.waiting id (by simp [here, Reaper.doomed])).1
  · exact (doomed.interrupted i member).elim .inr fun asleep => .inl asleep.1
  · rw [placed serial, if_pos added]

/-- A pool grows to one thread and shrinks again while that thread has a task. -/
theorem orderly_of_run_shrunk : ∃ tr s, Run Step (start 0) tr s ∧ s.added = 1 ∧ s.done = [0] ∧
    s.reaper = .found (some 0) ∧ Orderly s := by
  have run : ∃ tr s, Run Step (start 0) tr s ∧ s.added = 1 ∧ s.done = [0] ∧
      s.reaper = .found (some 0) := by
    refine ⟨_, _, .next (.owner (.returns _ rfl rfl)) <|
      .next (.owner (.calls (.resize 1) rfl trivial)) <| .next (.owner (.size _ rfl rfl)) <|
      .next (.owner (.create rfl rfl)) <| .next (.owner (.insert 0 rfl)) <|
      .next (.owner (.returns _ rfl rfl)) <|
      .next (.owner (.calls (.add .normal) rfl nofun)) <| .next (.owner (.addUser 7 rfl)) <|
      .next (.owner (.returns _ rfl rfl)) <|
      .next (.worker 0 (.pops [] [] ⟨.normal, 7, .user 0⟩ rfl rfl ?_)) <|
      .next (.worker 0 (.begins rfl (Finset.notMem_empty 0))) <|
      .next (.owner (.calls (.resize 0) rfl trivial)) <| .next (.owner (.size _ rfl rfl)) <|
      .next (.owner (.addCritical 7 rfl)) <| .next (.worker 0 (.finishes rfl)) <|
      .next (.worker 0 (.pops [] [] ⟨.critical, 7, .poisonApple⟩ rfl rfl ?_)) <|
      .next (.worker 0 (.begins rfl (Finset.notMem_empty 0))) <| .next (.worker 0 (.pushes rfl)) <|
      .next (.reaper (.pops 0 rfl rfl)) <| .single (.reaper (.finds 0 rfl rfl)), rfl, rfl, rfl⟩
    · simp [Pair.Less, start]
    · simp [Pair.Less]
  obtain ⟨tr, s, run, added, done, found⟩ := run
  exact ⟨tr, s, run, added, done, found, orderly_of_run 0 run⟩

end ThreadPool
end DistributedDisk
