import DistributedDisk.Core.Transition
import DistributedDisk.Core.Counting

/-! `Singleton<T>::GetInstance`, called by any number of threads. Each access to
`m_instance` and each operation on the mutex is a step. -/
namespace DistributedDisk
open Transition

namespace Singleton

/-- What a thread does next in `GetInstance`. A constructor runs on an object, by address. -/
inductive Point where
  | idle
  | lock
  | reload
  | allocate
  | construct (p : Nat)
  | store (p : Nat)
  | register
  | unlock
  | unwind
  | load
  deriving DecidableEq

inductive Event where
  | loads
  | locks
  | reloads
  | allocates
  | completes
  | throws
  | stores
  | registers
  | unlocks
  | unwinds
  | returns (p : Option Nat)
  deriving DecidableEq

end Singleton

/-- The memory of the static members, and of the objects whose constructor has returned. -/
structure Singleton (ι : Type) where
  pointer : Option Nat
  mutex : Option ι
  threads : ι → Singleton.Point
  built : Nat → Bool
  fresh : Nat

namespace Singleton
variable {ι : Type} [DecidableEq ι]

def start : Singleton ι where
  pointer := none
  mutex := none
  threads := fun _ => .idle
  built := fun _ => false
  fresh := 0

def move (s : Singleton ι) (i : ι) (point : Point) : Singleton ι :=
  { s with threads := Function.update s.threads i point }

/-- `new T()` throws when there is no memory or out of the constructor; the lock is
released as the exception leaves the block. -/
inductive Step (s : Singleton ι) : ι × Event → Singleton ι → Prop where
  | loads : s.threads i = .idle →
      Step s (i, .loads) (s.move i (if s.pointer.isNone then .lock else .load))
  | locks : s.threads i = .lock → s.mutex = none →
      Step s (i, .locks) { s.move i .reload with mutex := some i }
  | reloads : s.threads i = .reload →
      Step s (i, .reloads) (s.move i (if s.pointer.isNone then .allocate else .unlock))
  | allocates : s.threads i = .allocate →
      Step s (i, .allocates) { s.move i (.construct s.fresh) with fresh := s.fresh + 1 }
  | completes : s.threads i = .construct p →
      Step s (i, .completes) { s.move i (.store p) with built := Function.update s.built p true }
  | throws : s.threads i = .allocate ∨ s.threads i = .construct p →
      Step s (i, .throws) (s.move i .unwind)
  | stores : s.threads i = .store p →
      Step s (i, .stores) { s.move i .register with pointer := some p }
  | registers : s.threads i = .register → Step s (i, .registers) (s.move i .unlock)
  | unlocks : s.threads i = .unlock → Step s (i, .unlocks) { s.move i .load with mutex := none }
  | unwinds : s.threads i = .unwind → Step s (i, .unwinds) { s.move i .idle with mutex := none }
  | returns : s.threads i = .load → Step s (i, .returns s.pointer) (s.move i .idle)

/-- The constructors that returned. -/
def completions (tr : List (ι × Event)) : Nat := tr.countP fun label => label.2 = .completes

/-- The calls of `atexit(ExitFunc)`. -/
def registrations (tr : List (ι × Event)) : Nat := tr.countP fun label => label.2 = .registers

def Point.locked : Point → Bool
  | .idle | .lock | .load => false
  | _ => true

/-- Where the thread with the mutex is, `idle` when there is none. -/
def holder (s : Singleton ι) : Point := s.mutex.elim .idle s.threads

/-- Before the object is published, and after. -/
def Point.early : Point → Bool
  | .idle | .reload | .allocate | .construct _ | .unwind => true
  | _ => false

def Point.late : Point → Bool
  | .idle | .reload | .unlock => true
  | _ => false

/-- What the thread with the mutex has done, by where it is: the pointer, the constructors
that returned, the registrations. -/
inductive Fits : Point → Option Nat → Nat → Nat → Prop where
  | absent : point.early = true → Fits point none 0 0
  | constructed (p : Nat) : Fits (.store p) none 1 0
  | stored (p : Nat) : Fits .register (some p) 1 0
  | present (p : Nat) : point.late = true → Fits point (some p) 1 1

/-- The pointers that are around lead to the one object. -/
structure Published (tr : List (ι × Event)) (s : Singleton ι) : Prop where
  load : ∀ i, s.threads i = .load → s.pointer ≠ none
  returned : ∀ i p, (i, .returns p) ∈ tr → p ≠ none ∧ p = s.pointer
  built : ∀ p, s.pointer = some p ∨ (∃ i, s.threads i = .store p) → s.built p = true

variable {s t : Singleton ι} {tr : List (ι × Event)}

section
omit [DecidableEq ι]

@[simp] theorem completions_append (tr : List (ι × Event)) (i : ι) (e : Event) :
    completions (tr ++ [(i, e)]) = completions tr + if e = .completes then 1 else 0 := by
  simp [completions, List.countP_append, List.countP_cons]

@[simp] theorem registrations_append (tr : List (ι × Event)) (i : ι) (e : Event) :
    registrations (tr ++ [(i, e)]) = registrations tr + if e = .registers then 1 else 0 := by
  simp [registrations, List.countP_append, List.countP_cons]

theorem holder_of_mutex (here : s.mutex = some i) : s.holder = s.threads i := by
  rw [holder, here]
  rfl

theorem holder_of_free (free : s.mutex = none) : s.holder = .idle := by
  rw [holder, free]
  rfl

end

theorem holder_move_self (here : s.mutex = some i) (point : Point) :
    (s.move i point).holder = point :=
  (holder_of_mutex (s := s.move i point) here).trans (Function.update_self ..)

theorem holder_move_ne (other : s.mutex ≠ some i) (point : Point) :
    (s.move i point).holder = s.holder := by
  rw [holder, holder, move]
  cases here : s.mutex with
  | none => rfl
  | some j =>
    have apart : j ≠ i := fun same => other (here.trans (congrArg some same))
    exact Function.update_of_ne apart ..

/-- The mutex has at most one holder, and the threads in the block are it. -/
def Exclusive (s : Singleton ι) : Prop := ∀ i, (s.threads i).locked = true ↔ s.mutex = some i

theorem Exclusive.moves (exclusive : Exclusive s) (same : point.locked = (s.threads i).locked) :
    Exclusive (s.move i point) := by
  intro j
  rw [move, Counting.apply_update_same Point.locked same]
  exact exclusive j

theorem Exclusive.releases (exclusive : Exclusive s) (here : (s.threads i).locked = true)
    (out : point.locked = false) : Exclusive { s.move i point with mutex := none } := by
  intro j
  refine iff_of_false ?_ nofun
  by_cases same : j = i
  · subst same
    simp [move, out]
  · have held := (exclusive i).mp here
    simp only [move, Function.update_of_ne same, exclusive j, held]
    exact fun both => same (Option.some.inj both).symm

theorem Exclusive.step (exclusive : Exclusive s) (step : Step s (i, e) t) : Exclusive t := by
  cases step with
  | loads here =>
    refine exclusive.moves ?_
    rw [here]
    split <;> rfl
  | locks here free =>
    intro j
    by_cases same : j = i
    · subst same
      simp [move, Point.locked]
    · have apart : (some i : Option ι) ≠ some j := fun both => same (Option.some.inj both).symm
      simp only [move, Function.update_of_ne same, exclusive j, free, apart, reduceCtorEq]
  | reloads here =>
    refine exclusive.moves ?_
    rw [here]
    split <;> rfl
  | allocates here | completes here | stores here | registers here | returns here =>
    exact exclusive.moves (by rw [here]; rfl)
  | throws here =>
    refine exclusive.moves ?_
    obtain here | here := here
    · rw [here]
      rfl
    · rw [here]
      rfl
  | unlocks here | unwinds here => exact exclusive.releases (by rw [here]; rfl) rfl

omit [DecidableEq ι] in
theorem Exclusive.held (exclusive : Exclusive s) (here : s.threads i = point)
    (inside : point.locked = true) : s.mutex = some i ∧ s.holder = point := by
  have held := (exclusive i).mp (here ▸ inside)
  exact ⟨held, (holder_of_mutex held).trans here⟩

omit [DecidableEq ι] in
theorem Exclusive.not_held (exclusive : Exclusive s) (here : s.threads i = point)
    (outside : point.locked = false) : s.mutex ≠ some i := by
  intro held
  have inside := (exclusive i).mpr held
  rw [here, outside] at inside
  cases inside

section
variable {pointer : Option Nat} {built registered : Nat}

theorem Fits.locks (fits : Fits .idle pointer built registered) :
    Fits .reload pointer built registered := by
  cases fits with
  | absent => exact .absent rfl
  | present p => exact .present p rfl

theorem Fits.reloads (fits : Fits .reload pointer built registered) :
    Fits (if pointer.isNone then .allocate else .unlock) pointer built registered := by
  cases fits with
  | absent => exact .absent rfl
  | present p => exact .present p rfl

theorem Fits.allocates (fits : Fits .allocate pointer built registered) (p : Nat) :
    Fits (.construct p) pointer built registered := by
  cases fits with
  | absent => exact .absent rfl
  | present _ late => cases late

theorem Fits.completes (fits : Fits (.construct p) pointer built registered) :
    Fits (.store p) pointer (built + 1) registered := by
  cases fits with
  | absent => exact .constructed p
  | present _ late => cases late

theorem Fits.throws (fits : Fits point pointer built registered)
    (here : point = .allocate ∨ point = .construct p) : Fits .unwind pointer built registered := by
  obtain rfl | rfl := here
  all_goals
    cases fits with
    | absent => exact .absent rfl
    | present _ late => cases late

theorem Fits.stores (fits : Fits (.store p) pointer built registered) :
    pointer = none ∧ Fits .register (some p) built registered := by
  cases fits with
  | absent early => cases early
  | constructed => exact ⟨rfl, .stored p⟩
  | present _ late => cases late

theorem Fits.registers (fits : Fits .register pointer built registered) :
    Fits .unlock pointer built (registered + 1) := by
  cases fits with
  | absent early => cases early
  | stored p => exact .present p rfl
  | present _ late => cases late

theorem Fits.unlocks (fits : Fits .unlock pointer built registered) :
    pointer ≠ none ∧ Fits .idle pointer built registered := by
  cases fits with
  | absent early => cases early
  | present p => exact ⟨nofun, .present p rfl⟩

theorem Fits.unwinds (fits : Fits .unwind pointer built registered) :
    pointer = none ∧ Fits .idle pointer built registered := by
  cases fits with
  | absent => exact ⟨rfl, .absent rfl⟩
  | present _ late => cases late

theorem Fits.at_most (fits : Fits point pointer built registered) : built ≤ 1 ∧ registered ≤ 1 := by
  cases fits with
  | absent | constructed | stored | present => decide

end

/-- The thread with the mutex constructs when there is no object, publishes what it has
constructed, and registers once. -/
theorem Fits.step (fits : Fits s.holder s.pointer (completions tr) (registrations tr))
    (exclusive : Exclusive s) (step : Step s (i, e) t) :
    Fits t.holder t.pointer (completions (tr ++ [(i, e)])) (registrations (tr ++ [(i, e)])) := by
  rw [completions_append, registrations_append]
  cases step with
  | loads here | returns here =>
    rw [holder_move_ne (exclusive.not_held here rfl)]
    exact fits
  | locks here free =>
    rw [holder_of_free free] at fits
    have now : ({ s.move i .reload with mutex := some i } : Singleton ι).holder = .reload :=
      Function.update_self ..
    rw [now]
    exact fits.locks
  | reloads here =>
    obtain ⟨held, now⟩ := exclusive.held here rfl
    rw [holder_move_self held]
    exact (now ▸ fits).reloads
  | allocates here =>
    obtain ⟨held, now⟩ := exclusive.held here rfl
    have next := holder_move_self held (.construct s.fresh)
    exact next.symm ▸ (now ▸ fits).allocates _
  | @completes i p here =>
    obtain ⟨held, now⟩ := exclusive.held here rfl
    have next := holder_move_self held (.store p)
    exact next.symm ▸ (now ▸ fits).completes
  | throws here =>
    have inside : (s.threads i).locked = true := by
      obtain here | here := here
      · rw [here]
        rfl
      · rw [here]
        rfl
    obtain ⟨held, now⟩ := exclusive.held rfl inside
    rw [holder_move_self held]
    rw [now] at fits
    exact fits.throws here
  | @stores i p here =>
    obtain ⟨held, now⟩ := exclusive.held here rfl
    have next := holder_move_self held .register
    exact next.symm ▸ (now ▸ fits).stores.2
  | registers here =>
    obtain ⟨held, now⟩ := exclusive.held here rfl
    rw [holder_move_self held]
    exact (now ▸ fits).registers
  | unlocks here =>
    obtain ⟨_, now⟩ := exclusive.held here rfl
    exact (now ▸ fits).unlocks.2
  | unwinds here =>
    obtain ⟨_, now⟩ := exclusive.held here rfl
    exact (now ▸ fits).unwinds.2

/-- The pointer is set once, from NULL. -/
theorem pointer_kept (fits : Fits s.holder s.pointer m n) (exclusive : Exclusive s)
    (step : Step s e t) (set : s.pointer ≠ none) : t.pointer = s.pointer := by
  cases step with
  | stores here =>
    obtain ⟨_, now⟩ := exclusive.held here rfl
    exact absurd (now ▸ fits).stores.1 set
  | loads | locks | reloads | allocates | completes | throws | registers | unlocks | unwinds
  | returns => rfl

theorem of_move {threads : ι → Point} (here : Function.update threads i point j = target)
    (other : point ≠ target) : threads j = target := by
  by_cases same : j = i
  · rw [same, Function.update_self] at here
    exact absurd here other
  · rwa [Function.update_of_ne same] at here

/-- A thread that is about to return has seen the pointer set. -/
theorem loads_set (load : ∀ j, s.threads j = .load → s.pointer ≠ none)
    (fits : Fits s.holder s.pointer m n) (exclusive : Exclusive s) (step : Step s (i, e) t) :
    ∀ j, t.threads j = .load → t.pointer ≠ none := by
  intro j here
  cases step with
  | loads =>
    by_cases set : s.pointer = none
    · rw [set] at here
      exact load j (of_move here nofun)
    · exact set
  | stores => nofun
  | unlocks now =>
    obtain ⟨_, now⟩ := exclusive.held now rfl
    exact (now ▸ fits).unlocks.1
  | reloads =>
    refine load j (of_move here ?_)
    split <;> nofun
  | locks | allocates | completes | throws | registers | unwinds | returns =>
    exact load j (of_move here nofun)

/-- An object gets around only after its constructor has returned. -/
theorem built_step
    (built : ∀ p, s.pointer = some p ∨ (∃ j, s.threads j = .store p) → s.built p = true)
    (step : Step s (i, e) t) :
    ∀ p, t.pointer = some p ∨ (∃ j, t.threads j = .store p) → t.built p = true := by
  intro p around
  cases step with
  | @completes _ q =>
    by_cases same : p = q
    · simp [same]
    · simp only [Function.update_of_ne same]
      apply built p
      refine around.imp_right fun ⟨j, here⟩ => ⟨j, of_move here ?_⟩
      exact fun both => same (Point.store.inj both).symm
  | stores now =>
    obtain rfl | ⟨j, here⟩ := around.imp_left Option.some.inj
    · exact built _ (.inr ⟨_, now⟩)
    · exact built p (.inr ⟨j, of_move here nofun⟩)
  | loads | reloads =>
    apply built p
    refine around.imp_right fun ⟨j, here⟩ => ⟨j, of_move here ?_⟩
    split <;> nofun
  | locks | allocates | throws | registers | unlocks | unwinds | returns =>
    exact built p (around.imp_right fun ⟨j, here⟩ => ⟨j, of_move here nofun⟩)

theorem Published.step (published : Published tr s) (fits : Fits s.holder s.pointer m n)
    (exclusive : Exclusive s) (step : Step s (i, e) t) : Published (tr ++ [(i, e)]) t := by
  constructor
  · exact loads_set published.load fits exclusive step
  · intro j p member
    obtain old | new := List.mem_append.mp member
    · obtain ⟨set, same⟩ := published.returned j p old
      exact ⟨set, same.trans (pointer_kept fits exclusive step (same ▸ set)).symm⟩
    · cases List.mem_singleton.mp new
      cases step with
      | returns here => exact ⟨published.load _ here, rfl⟩
  · exact built_step published.built step

theorem constructs (free : s.mutex = none) (absent : s.pointer = none)
    (idle : s.threads j = .idle) :
    ∃ u p, Run Step s [(j, .loads), (j, .locks), (j, .reloads), (j, .allocates), (j, .completes),
      (j, .stores), (j, .registers), (j, .unlocks), (j, .returns (some p))] u := by
  obtain ⟨pointer, mutex, threads, built, fresh⟩ := s
  cases free
  cases absent
  refine ⟨_, fresh, .next (.loads idle) <| .next (.locks ?_ rfl) <| .next (.reloads ?_) <|
    .next (.allocates ?_) <| .next (.completes (p := fresh) ?_) <|
    .next (.stores (p := fresh) ?_) <| .next (.registers ?_) <| .next (.unlocks ?_) <|
    .single (.returns ?_)⟩
  all_goals simp [move]

/-- What holds throughout: one object, one registration, and every call returns the object.
An exception leaves the mutex free, and any thread can construct the object then. -/
structure Unique (tr : List (ι × Event)) (s : Singleton ι) : Prop where
  completes : completions tr ≤ 1
  registers : registrations tr ≤ 1
  returns : ∀ i p, (i, .returns p) ∈ tr → ∃ q, p = some q ∧ s.built q = true ∧
    ∀ j p', (j, .returns p') ∈ tr → p' = p
  throws : ∀ i t, Step s (i, .throws) t → ∃ u, Step t (i, .unwinds) u
  unwinds : ∀ i t, Step s (i, .unwinds) t → t.mutex = none ∧
    ∀ j, t.threads j = .idle → ∃ u p, Run Step t [(j, .loads), (j, .locks), (j, .reloads),
      (j, .allocates), (j, .completes), (j, .stores), (j, .registers), (j, .unlocks),
      (j, .returns (some p))] u

theorem singleton_unique (run : Run Step (start : Singleton ι) tr s) : Unique tr s := by
  have invariant : Exclusive s ∧
      Fits s.holder s.pointer (completions tr) (registrations tr) ∧ Published tr s := by
    apply run.history (P := fun tr s => Exclusive s ∧
      Fits s.holder s.pointer (completions tr) (registrations tr) ∧ Published tr s)
    · refine ⟨?_, .absent rfl, ⟨nofun, nofun, ?_⟩⟩
      · intro i
        exact iff_of_false nofun nofun
      · rintro p (set | ⟨i, here⟩)
        · cases set
        · cases here
    · rintro tr s ⟨i, e⟩ t ⟨exclusive, fits, published⟩ step
      exact ⟨exclusive.step step, fits.step exclusive step, published.step fits exclusive step⟩
  obtain ⟨exclusive, fits, published⟩ := invariant
  constructor
  · exact fits.at_most.1
  · exact fits.at_most.2
  · intro i p member
    obtain ⟨set, same⟩ := published.returned i p member
    obtain ⟨q, found⟩ := Option.ne_none_iff_exists'.mp set
    refine ⟨q, found, published.built q (.inl (same.symm.trans found)), fun j p' member' => ?_⟩
    exact (published.returned j p' member').2.trans same.symm
  · intro i t step
    cases step with
    | throws => exact ⟨_, .unwinds (Function.update_self ..)⟩
  · intro i t step
    have pointer : t.pointer = none ∧ t.mutex = none := by
      cases step with
      | unwinds here =>
        obtain ⟨_, now⟩ := exclusive.held here rfl
        exact ⟨(now ▸ fits).unwinds.1, rfl⟩
    exact ⟨pointer.2, fun j idle => constructs pointer.2 pointer.1 idle⟩

/-- The constructor throws for one thread and returns for the other. -/
theorem singleton_unique_second : ∃ tr s, Run Step (start : Singleton (Fin 2)) tr s ∧
    (1, .returns (some 1)) ∈ tr ∧ s.built 1 = true ∧ completions tr ≤ 1 := by
  have run : ∃ tr s, Run Step (start : Singleton (Fin 2)) tr s ∧ (1, .returns (some 1)) ∈ tr :=
    ⟨[(0, .loads), (0, .locks), (1, .loads), (0, .reloads), (0, .allocates), (0, .throws),
      (0, .unwinds), (1, .locks), (1, .reloads), (1, .allocates), (1, .completes), (1, .stores),
      (1, .registers), (1, .unlocks), (1, .returns (some 1))], _,
      .next (.loads rfl) <| .next (.locks rfl rfl) <| .next (.loads rfl) <|
      .next (.reloads rfl) <| .next (.allocates rfl) <| .next (.throws (p := 0) (.inr rfl)) <|
      .next (.unwinds rfl) <| .next (.locks rfl rfl) <| .next (.reloads rfl) <|
      .next (.allocates rfl) <| .next (.completes (p := 1) rfl) <|
      .next (.stores (p := 1) rfl) <| .next (.registers rfl) <| .next (.unlocks rfl) <|
      .single (.returns rfl), by decide⟩
  obtain ⟨tr, s, run, member⟩ := run
  have unique := singleton_unique run
  obtain ⟨q, same, built, _⟩ := unique.returns 1 (some 1) member
  cases same
  exact ⟨tr, s, run, member, built, unique.completes⟩

end Singleton
end DistributedDisk
