import DistributedDisk.Core.Transition
import DistributedDisk.Core.Counting

/-! `Singleton<T>::GetInstance` for every class at once: a constructor obtains the
instances of other classes, so the calls of a thread are nested. -/
namespace DistributedDisk
open Transition

namespace Singletons

/-- The body of a constructor, and what reports an exception before it leaves. -/
inductive Part where
  | body
  | handler

/-- Where a call of `GetInstance` is. A constructor has the instances it will still obtain. -/
inductive Point (Θ : Type) where
  | test
  | lock
  | reload
  | construct (part : Part) (left : List Θ)
  | store
  | register
  | unlock
  | unwind
  | load

inductive Event (Θ : Type) where
  | calls (T : Θ)
  | loads (T : Θ)
  | locks (T : Θ)
  | reloads (T : Θ)
  | obtains (T : Θ)
  | completes
  | catches (T : Θ)
  | throws
  | stores (T : Θ)
  | registers (T : Θ)
  | unlocks (T : Θ)
  | unwinds (T : Θ)
  | returns

/-- A call of `Singleton<type>::GetInstance` that has not returned. -/
structure Call (Θ : Type) where
  type : Θ
  point : Point Θ

/-- An exception that leaves a call leaves the constructor that made it. -/
def unwound : List (Call Θ) → List (Call Θ)
  | ⟨T, .construct _ _⟩ :: rest => ⟨T, .unwind⟩ :: rest
  | stack => stack

end Singletons

/-- The static members of every class, the calls of each thread, innermost first, and the
functions registered with `atexit`. -/
structure Singletons (Θ ι : Type) where
  stored : Θ → Bool
  mutex : Θ → Option ι
  threads : ι → List (Singletons.Call Θ)
  exits : List Θ

namespace Singletons
variable {Θ ι : Type}

def start : Singletons Θ ι where
  stored := fun _ => false
  mutex := fun _ => none
  threads := fun _ => []
  exits := []

/-- What the innermost call of a thread does. The classes whose instances a constructor
obtains, and those its handler does, are `needs`. -/
inductive Moves (needs : Part → Θ → List Θ) (s : Singletons Θ ι) :
    List (Call Θ) → Event Θ → List (Call Θ) → Prop where
  | calls : Moves needs s [] (.calls T) [⟨T, .test⟩]
  | loads : Moves needs s (⟨T, .test⟩ :: rest) (.loads T)
      (⟨T, if s.stored T then .load else .lock⟩ :: rest)
  | locks : s.mutex T = none →
      Moves needs s (⟨T, .lock⟩ :: rest) (.locks T) (⟨T, .reload⟩ :: rest)
  | reloads : Moves needs s (⟨T, .reload⟩ :: rest) (.reloads T)
      (⟨T, if s.stored T then .unlock else .construct .body (needs .body T)⟩ :: rest)
  | obtains : Moves needs s (⟨T, .construct part (U :: left)⟩ :: rest) (.obtains U)
      (⟨U, .test⟩ :: ⟨T, .construct part left⟩ :: rest)
  | completes : Moves needs s (⟨T, .construct .body []⟩ :: rest) .completes (⟨T, .store⟩ :: rest)
  | catches : Moves needs s (⟨T, .construct .body left⟩ :: rest) (.catches T)
      (⟨T, .construct .handler (needs .handler T)⟩ :: rest)
  | throws : Moves needs s (⟨T, .construct part left⟩ :: rest) .throws (⟨T, .unwind⟩ :: rest)
  | stores : Moves needs s (⟨T, .store⟩ :: rest) (.stores T) (⟨T, .register⟩ :: rest)
  | registers : Moves needs s (⟨T, .register⟩ :: rest) (.registers T) (⟨T, .unlock⟩ :: rest)
  | unlocks : Moves needs s (⟨T, .unlock⟩ :: rest) (.unlocks T) (⟨T, .load⟩ :: rest)
  | unwinds : Moves needs s (⟨T, .unwind⟩ :: rest) (.unwinds T) (unwound rest)
  | returns : Moves needs s (⟨T, .load⟩ :: rest) .returns rest

section
variable [DecidableEq Θ]

/-- What a thread's step changes in the memory the threads share. -/
def after (s : Singletons Θ ι) (i : ι) : Event Θ → Singletons Θ ι
  | .locks T => { s with mutex := Function.update s.mutex T (some i) }
  | .stores T => { s with stored := Function.update s.stored T true }
  | .registers T => { s with exits := s.exits ++ [T] }
  | .unlocks T | .unwinds T => { s with mutex := Function.update s.mutex T none }
  | _ => s

variable [DecidableEq ι]

def moved (s : Singletons Θ ι) (i : ι) (e : Event Θ) (stack : List (Call Θ)) : Singletons Θ ι :=
  { s.after i e with threads := Function.update s.threads i stack }

inductive Step (needs : Part → Θ → List Θ) (s : Singletons Θ ι) :
    ι × Event Θ → Singletons Θ ι → Prop where
  | moves (i : ι) : Moves needs s (s.threads i) e stack → Step needs s (i, e) (s.moved i e stack)

variable {s : Singletons Θ ι} {e : Event Θ} {stack : List (Call Θ)}

@[simp] theorem moved_self : (s.moved i e stack).threads i = stack := Function.update_self ..

theorem moved_ne (other : j ≠ i) : (s.moved i e stack).threads j = s.threads j :=
  Function.update_of_ne other ..

end

/-- The call is in the block of the lock guard. -/
def Point.locked : Point Θ → Bool
  | .test | .lock | .load => false
  | _ => true

/-- The classes whose mutex a thread has. -/
def held (stack : List (Call Θ)) : List Θ := (stack.filter (·.point.locked)).map Call.type

/-- What a step does with the mutexes that a thread has. -/
inductive Holds (mutex : Θ → Option ι) : Event Θ → List Θ → List Θ → Prop where
  | locks : mutex T = none → Holds mutex (.locks T) l (T :: l)
  | unlocks : Holds mutex (.unlocks T) (T :: l) l
  | unwinds : Holds mutex (.unwinds T) (T :: l) l
  | keeps : (∀ T, e ≠ .locks T ∧ e ≠ .unlocks T ∧ e ≠ .unwinds T) → Holds mutex e l l

@[simp] theorem held_cons_locked (inside : c.point.locked = true) (rest : List (Call Θ)) :
    held (c :: rest) = c.type :: held rest := by simp [held, inside]

@[simp] theorem held_cons_unlocked (outside : c.point.locked = false) (rest : List (Call Θ)) :
    held (c :: rest) = held rest := by simp [held, outside]

@[simp] theorem held_unwound (stack : List (Call Θ)) : held (unwound stack) = held stack := by
  unfold unwound
  split
  · rfl
  · rfl

theorem Moves.holds {s : Singletons Θ ι} (moves : Moves needs s stack e stack') :
    Holds s.mutex e (held stack) (held stack') := by
  cases moves with
  | locks free => exact .locks free
  | unlocks => exact .unlocks
  | unwinds =>
    rw [held_unwound]
    exact .unwinds
  | loads =>
    rw [held_cons_unlocked rfl, held_cons_unlocked (by split <;> rfl)]
    exact .keeps (by simp)
  | reloads =>
    rw [held_cons_locked rfl, held_cons_locked (by split <;> rfl)]
    exact .keeps (by simp)
  | calls | obtains | completes | catches | throws | stores | registers | returns =>
    exact .keeps (by simp)

/-- The mutex of a class is of the thread that is in its block, and no thread is in a block
twice. -/
structure Exclusive (s : Singletons Θ ι) : Prop where
  nodup : ∀ i, (held (s.threads i)).Nodup
  owner : ∀ T i, s.mutex T = some i ↔ T ∈ held (s.threads i)

theorem Exclusive.initial : Exclusive (start : Singletons Θ ι) :=
  ⟨fun _ => .nil, fun _ _ => iff_of_false nofun nofun⟩

section
variable [DecidableEq Θ] [DecidableEq ι] {s t : Singletons Θ ι} {needs : Part → Θ → List Θ}

omit [DecidableEq Θ] in
/-- The stack of one thread changes, and mutexes only between it and nobody. -/
theorem Exclusive.changes (exclusive : Exclusive s) (nodup : (held stack).Nodup)
    (mine : ∀ U, t.mutex U = some i ↔ U ∈ held stack)
    (theirs : ∀ U j, j ≠ i → (t.mutex U = some j ↔ s.mutex U = some j))
    (threads : t.threads = Function.update s.threads i stack) : Exclusive t := by
  constructor
  · intro j
    rw [threads]
    by_cases same : j = i
    · subst same
      rwa [Function.update_self]
    · rw [Function.update_of_ne same]
      exact exclusive.nodup j
  · intro U j
    rw [threads]
    by_cases same : j = i
    · subst same
      rw [Function.update_self]
      exact mine U
    · rw [Function.update_of_ne same, theirs U j same]
      exact exclusive.owner U j

omit [DecidableEq ι] in
theorem after_mutex (keeps : ∀ T : Θ, e ≠ .locks T ∧ e ≠ .unlocks T ∧ e ≠ .unwinds T) :
    (s.after i e).mutex = s.mutex := by
  cases e with
  | locks T => exact absurd rfl (keeps T).1
  | unlocks T => exact absurd rfl (keeps T).2.1
  | unwinds T => exact absurd rfl (keeps T).2.2
  | _ => rfl

/-- A mutex that `i` has goes free. -/
theorem Exclusive.frees (exclusive : Exclusive s) (held_eq : held (s.threads i) = T :: held stack)
    (mutex : t.mutex = Function.update s.mutex T none)
    (threads : t.threads = Function.update s.threads i stack) : Exclusive t := by
  have nodup := exclusive.nodup i
  rw [held_eq] at nodup
  obtain ⟨absent, nodup⟩ := List.nodup_cons.mp nodup
  have owned : s.mutex T = some i := (exclusive.owner T i).mpr (by simp [held_eq])
  refine exclusive.changes nodup (fun U => ?_) (fun U j other => ?_) threads
  · rw [mutex]
    by_cases same : U = T
    · subst same
      rw [Function.update_self]
      exact iff_of_false nofun absent
    · rw [Function.update_of_ne same, exclusive.owner U i, held_eq, List.mem_cons]
      exact or_iff_right same
  · rw [mutex]
    by_cases same : U = T
    · subst same
      rw [Function.update_self, owned]
      exact iff_of_false nofun fun both => other (Option.some.inj both).symm
    · rw [Function.update_of_ne same]

theorem Exclusive.step (exclusive : Exclusive s) (step : Step needs s label t) : Exclusive t := by
  obtain ⟨i, moves⟩ := step
  rename_i e stack
  have threads : (s.moved i e stack).threads = Function.update s.threads i stack := rfl
  have holds := moves.holds
  generalize old : held (s.threads i) = l at holds
  generalize new : held stack = l' at holds
  cases holds with
  | @locks T _ free =>
    have absent : T ∉ held (s.threads i) := by
      rw [← exclusive.owner T i, free]
      nofun
    refine exclusive.changes ?_ (fun U => ?_) (fun U j other => ?_) threads
    · rw [new, ← old]
      exact List.nodup_cons.mpr ⟨absent, exclusive.nodup i⟩
    · rw [new, ← old, List.mem_cons]
      by_cases same : U = T
      · subst same
        simp [moved, after]
      · simp [moved, after, exclusive.owner U i, same]
    · by_cases same : U = T
      · subst same
        simp [moved, after, free, other.symm]
      · simp [moved, after, Function.update_of_ne same]
  | unlocks | unwinds => exact exclusive.frees (old.trans (new ▸ rfl)) rfl rfl
  | keeps keeps =>
    have same : (s.moved i e stack).mutex = s.mutex := after_mutex keeps
    refine exclusive.changes ?_ (fun U => ?_) (fun U j other => ?_) threads
    · rw [new, ← old]
      exact exclusive.nodup i
    · rw [new, ← old, ← exclusive.owner U i, same]
    · rw [same]

end

/-- What a call relies on: the classes that a constructor is past are known, but for the class
of the call above. -/
def Ready (needs : Part → Θ → List Θ) (known : Θ → Prop) (above : Option Θ) (c : Call Θ) : Prop :=
  match c.point with
  | .construct part left =>
      (∀ U, U ∈ left ∨ above = some U → U ∈ needs part c.type) ∧
      ∀ U ∈ needs part c.type, U ∈ left ∨ above = some U ∨ known U
  | .store | .register => above = none ∧ ∀ U ∈ needs .body c.type, known U
  | .unlock | .load => above = none ∧ known c.type
  | .test | .lock | .reload | .unwind => above = none

def Proper (needs : Part → Θ → List Θ) (known : Θ → Prop) : Option Θ → List (Call Θ) → Prop
  | _, [] => True
  | above, c :: rest => Ready needs known above c ∧ Proper needs known (some c.type) rest

/-- What a thread learns in a step. -/
def Learns (s : Singletons Θ ι) (known : Θ → Prop) : Event Θ → Prop
  | .loads T | .reloads T => s.stored T = true → known T
  | .registers T => known T
  | _ => True

section
variable {needs : Part → Θ → List Θ} {known known' : Θ → Prop}

theorem Ready.mono (ready : Ready needs known above c) (more : ∀ T, known T → known' T) :
    Ready needs known' above c := by
  obtain ⟨T, point⟩ := c
  cases point with
  | construct part left =>
    exact ⟨ready.1, fun U need => (ready.2 U need).imp_right (Or.imp_right (more U))⟩
  | store | register => exact ⟨ready.1, fun U need => more U (ready.2 U need)⟩
  | unlock | load => exact ⟨ready.1, more T ready.2⟩
  | test | lock | reload | unwind => exact ready

theorem Proper.mono (proper : Proper needs known above stack) (more : ∀ T, known T → known' T) :
    Proper needs known' above stack := by
  induction stack generalizing above with
  | nil => trivial
  | cons c rest ih => exact ⟨proper.1.mono more, ih proper.2⟩

theorem Ready.construct (ready : Ready needs known (some T) c) :
    ∃ part left, c.point = .construct part left ∧ T ∈ needs part c.type ∧
      ∀ U ∈ needs part c.type, U ∈ left ∨ T = U ∨ known U := by
  obtain ⟨S, point⟩ := c
  cases point with
  | construct part left =>
    refine ⟨part, left, rfl, ready.1 T (.inr rfl), fun U need => ?_⟩
    exact (ready.2 U need).imp_right (Or.imp_left Option.some.inj)
  | store | register | unlock | load => cases ready.1
  | test | lock | reload | unwind => cases ready

/-- A call that returns has the instance of its class, which its caller then is past. -/
theorem Proper.returned (proper : Proper needs known (some T) rest) (found : known T) :
    Proper needs known none rest := by
  cases rest with
  | nil => trivial
  | cons c rest =>
    refine ⟨?_, proper.2⟩
    obtain ⟨S, point⟩ := c
    obtain ⟨part, left, rfl, need, past⟩ := proper.1.construct
    refine ⟨fun U member => proper.1.1 U (member.imp_right nofun), fun U need => ?_⟩
    obtain waiting | rfl | past := past U need
    · exact .inl waiting
    · exact .inr (.inr found)
    · exact .inr (.inr past)

theorem Proper.unwound (proper : Proper needs known (some T) rest) :
    Proper needs known none (unwound rest) := by
  cases rest with
  | nil => trivial
  | cons c rest =>
    obtain ⟨S, point⟩ := c
    obtain ⟨part, left, rfl, need, past⟩ := proper.1.construct
    exact ⟨rfl, proper.2⟩

theorem Proper.moves {s : Singletons Θ ι} (proper : Proper needs known none stack)
    (moves : Moves needs s stack e stack') (more : ∀ T, known T → known' T)
    (learns : Learns s known' e) : Proper needs known' none stack' := by
  replace proper := proper.mono more
  cases moves with
  | calls => exact ⟨rfl, trivial⟩
  | @loads T _ =>
    refine ⟨?_, proper.2⟩
    split
    next set => exact ⟨rfl, learns set⟩
    next => exact rfl
  | locks => exact ⟨rfl, proper.2⟩
  | @reloads T _ =>
    refine ⟨?_, proper.2⟩
    split
    next set => exact ⟨rfl, learns set⟩
    next => exact ⟨fun U member => member.resolve_right nofun, fun U need => .inl need⟩
  | @obtains T part U left rest =>
    obtain ⟨⟨inside, past⟩, below⟩ := proper
    refine ⟨rfl, ⟨fun V member => inside V (.inl ?_), fun V need => ?_⟩, below⟩
    · obtain waiting | same := member
      · exact List.mem_cons_of_mem _ waiting
      · cases same
        exact List.mem_cons_self
    · obtain waiting | none | past := past V need
      · obtain rfl | waiting := List.mem_cons.mp waiting
        · exact .inr (.inl rfl)
        · exact .inl waiting
      · cases none
      · exact .inr (.inr past)
  | completes =>
    refine ⟨⟨rfl, fun U need => ?_⟩, proper.2⟩
    obtain waiting | none | past := proper.1.2 U need
    · cases waiting
    · cases none
    · exact past
  | catches => exact ⟨⟨fun U member => member.resolve_right nofun, fun U need => .inl need⟩, proper.2⟩
  | throws => exact ⟨rfl, proper.2⟩
  | stores => exact proper
  | registers => exact ⟨⟨rfl, learns⟩, proper.2⟩
  | unlocks => exact proper
  | unwinds => exact proper.2.unwound
  | returns => exact proper.2.returned proper.1.2

end

end Singletons
end DistributedDisk
