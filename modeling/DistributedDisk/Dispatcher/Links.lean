import DistributedDisk.Dispatcher

/-! The pointers between dispatchers and callbacks, over any subscriptions and
destructions. A callback knows one dispatcher only, the last it was subscribed to. -/
namespace DistributedDisk
open Transition

namespace Dispatchers
variable {δ γ : Type}

structure Linked (w : Dispatchers δ γ) : Prop where
  callback : ∀ d c, w.liveDispatcher d = true → w.Lists d c → w.liveCallback c = true
  dispatcher : ∀ c d, w.liveCallback c = true → w.dispatcher c = some d →
    w.liveDispatcher d = true

/-- A callback is destroyed only while the live dispatchers that list it are the one it
knows. -/
def Tied (w : Dispatchers δ γ) : Event δ γ → Prop
  | .destroysCallback c => ∀ d, w.liveDispatcher d = true → w.Lists d c → w.dispatcher c = some d
  | _ => True

structure Bound (w : Dispatchers δ γ) : Prop where
  lists : ∀ c d, w.liveCallback c = true → w.dispatcher c = some d → w.Lists d c
  live : ∀ c d, w.liveCallback c = true → w.dispatcher c = some d → w.liveDispatcher d = true

variable [DecidableEq δ] [DecidableEq γ] {w w' : Dispatchers δ γ}

theorem subscribe_lists (w : Dispatchers δ γ) (d d' : δ) (c c' : γ) :
    (w.subscribe d c).Lists d' c' ↔ w.Lists d' c' ∨ d' = d ∧ c' = c := by
  by_cases same : d' = d
  · subst same
    simp [Lists, subscribe, setDispatcher, or_comm, eq_comm]
  · simp [Lists, subscribe, setDispatcher, same]

theorem destroyCallback_lists (w : Dispatchers δ γ) (d : δ) (c c' : γ) :
    (w.destroyCallback c).Lists d c' ↔ w.Lists d c' ∧ (c' = c → w.dispatcher c ≠ some d) := by
  rw [Lists, destroyCallback_subscribers]
  split
  case isTrue known =>
    constructor
    · rintro ⟨node, member, rfl⟩
      obtain ⟨member, other⟩ := List.mem_filter.mp member
      exact ⟨⟨node, member, rfl⟩, fun same => absurd same (of_decide_eq_true other)⟩
    · rintro ⟨⟨node, member, rfl⟩, other⟩
      refine ⟨node, List.mem_filter.mpr ⟨member, decide_eq_true ?_⟩, rfl⟩
      exact fun same => other same known
  case isFalse unknown => exact ⟨fun lists => ⟨lists, fun _ => unknown⟩, And.left⟩

theorem destroyDispatcher_dispatcher (still : (w.destroyDispatcher d).dispatcher c = some d') :
    w.dispatcher c = some d' ∧ ¬w.Lists d c := by
  obtain ⟨before, others⟩ := setDispatchers_dispatcher (w.subscribers d) still
  refine ⟨before, ?_⟩
  rintro ⟨node, member, same⟩
  exact others node member same

theorem Bound.step (bound : Bound w) (step : w.Step e w') : Bound w' := by
  cases step with
  | subscribes d c live =>
    constructor
    · intro c' d' alive known
      rw [subscribe_lists]
      by_cases same : c' = c
      · simp only [subscribe, setDispatcher, same, Function.update_self] at known
        exact .inr ⟨(Option.some.inj known).symm, same⟩
      · simp only [subscribe, setDispatcher, Function.update_of_ne same] at known
        exact .inl (bound.lists c' d' alive known)
    · intro c' d' alive known
      by_cases same : c' = c
      · simp only [subscribe, setDispatcher, same, Function.update_self] at known
        exact Option.some.inj known ▸ live
      · simp only [subscribe, setDispatcher, Function.update_of_ne same] at known
        exact bound.live c' d' alive known
  | destroysCallback c =>
    constructor
    · intro c' d alive known
      rw [destroyCallback_dispatcher] at known
      obtain ⟨other, alive⟩ := destroyCallback_alive.mp alive
      exact (destroyCallback_lists ..).mpr
        ⟨bound.lists c' d alive known, fun same => absurd same other⟩
    · intro c' d alive known
      rw [destroyCallback_dispatcher] at known
      rw [destroyCallback_liveDispatcher]
      exact bound.live c' d (destroyCallback_alive.mp alive).2 known
  | destroysDispatcher d =>
    constructor
    · intro c d' alive known
      rw [destroyDispatcher_liveCallback] at alive
      rw [Lists, destroyDispatcher_subscribers]
      exact bound.lists c d' alive (destroyDispatcher_dispatcher known).1
    · intro c d' alive known
      rw [destroyDispatcher_liveCallback] at alive
      obtain ⟨before, unlisted⟩ := destroyDispatcher_dispatcher known
      have other : d' ≠ d := by
        rintro rfl
        exact unlisted (bound.lists c d' alive before)
      exact destroyDispatcher_alive.mpr ⟨other, bound.live c d' alive before⟩

/-- The lists are left without a dangling pointer exactly by the steps that meet the
condition. -/
theorem Linked.step_iff (linked : Linked w) (bound : Bound w') (step : w.Step e w') :
    Linked w' ↔ Tied w e := by
  cases step with
  | subscribes d c _ alive =>
    refine iff_of_true ⟨fun d' c' live lists => ?_, bound.live⟩ trivial
    obtain lists | ⟨_, rfl⟩ := (subscribe_lists ..).mp lists
    · exact linked.callback d' c' live lists
    · exact alive
  | destroysCallback c =>
    constructor
    · intro after d live lists
      by_contra unknown
      have dead := after.callback d c ((destroyCallback_liveDispatcher w c).symm ▸ live)
        ((destroyCallback_lists ..).mpr ⟨lists, fun _ => unknown⟩)
      exact (destroyCallback_alive.mp dead).1 rfl
    · intro tied
      refine ⟨fun d c' live lists => ?_, bound.live⟩
      rw [destroyCallback_liveDispatcher] at live
      obtain ⟨before, unknown⟩ := (destroyCallback_lists ..).mp lists
      refine destroyCallback_alive.mpr ⟨?_, linked.callback d c' live before⟩
      rintro rfl
      exact unknown rfl (tied d live before)
  | destroysDispatcher d =>
    refine iff_of_true ⟨fun d' c live lists => ?_, bound.live⟩ trivial
    rw [Lists, destroyDispatcher_subscribers] at lists
    rw [destroyDispatcher_liveCallback]
    exact linked.callback d' c (destroyDispatcher_alive.mp live).2 lists

/-- As long as callbacks are destroyed under the condition no pointer dangles, and the first
one that is not leaves a list with a pointer to it. -/
theorem linked_iff (run : Run (Under Tied Step) new tr w) :
    Linked w ∧ ∀ e w', w.Step e w' → (Linked w' ↔ Tied w e) := by
  have invariant : Linked w ∧ Bound w := by
    apply run.invariant (P := fun w => Linked w ∧ Bound w)
    · rintro w e w' ⟨linked, bound⟩ ⟨step, tied⟩
      have bound' := bound.step step
      exact ⟨(linked.step_iff bound' step).mpr tied, bound'⟩
    · exact ⟨⟨fun _ _ _ _ => rfl, fun _ _ _ _ => rfl⟩, ⟨nofun, nofun⟩⟩
  obtain ⟨linked, bound⟩ := invariant
  exact ⟨linked, fun e w' step => linked.step_iff (bound.step step) step⟩

/-- Callback 0 is subscribed to one dispatcher twice, and destroyed. -/
theorem linked_iff_twice : ∃ tr w, Run (Under Tied Step) (new : Dispatchers Nat Nat) tr w ∧
    w.subscribers 0 = [] ∧ w.liveCallback 0 = false ∧ Linked w := by
  have tied : Tied (((new : Dispatchers Nat Nat).subscribe 0 0).subscribe 0 0)
      (.destroysCallback 0) := by
    intro d _ lists
    by_cases same : d = 0
    · subst same
      rfl
    · simp [Lists, subscribe, setDispatcher, new, same] at lists
  have run : Run (Under Tied Step) (new : Dispatchers Nat Nat)
      [.subscribes 0 0, .subscribes 0 0, .destroysCallback 0] _ :=
    .next ⟨.subscribes 0 0 rfl rfl, trivial⟩ <| .next ⟨.subscribes 0 0 rfl rfl, trivial⟩ <|
      .single ⟨.destroysCallback 0 rfl, tied⟩
  exact ⟨_, _, run, rfl, rfl, (linked_iff run).1⟩

/-- Callback 0 is subscribed to two dispatchers and knows the second. -/
theorem linked_fails : ∃ tr w, Run Step (new : Dispatchers Nat Nat) tr w ∧
    w.liveDispatcher 0 = true ∧ w.Lists 0 0 ∧ w.liveCallback 0 = false :=
  ⟨[.subscribes 0 0, .subscribes 1 0, .destroysCallback 0], _,
    .next (.subscribes 0 0 rfl rfl) <| .next (.subscribes 1 0 rfl rfl) <|
      .single (.destroysCallback 0 rfl), rfl, ⟨⟨0, 0⟩, .head _, rfl⟩, rfl⟩

end Dispatchers
end DistributedDisk
