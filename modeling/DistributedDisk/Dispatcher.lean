import DistributedDisk.Core.Transition

/-! `Dispatcher` and `CallbackBase`: lists of pointers to callbacks, and the pointer of a
callback to its dispatcher. Objects that are not in use yet count as live. -/
namespace DistributedDisk

/-- A node of a list. No two nodes have the same address. -/
structure Node (γ : Type) where
  address : Nat
  callback : γ

structure Dispatchers (δ γ : Type) where
  subscribers : δ → List (Node γ)
  dispatcher : γ → Option δ
  liveDispatcher : δ → Bool
  liveCallback : γ → Bool
  fresh : Nat

namespace Dispatchers
variable {δ γ : Type} [DecidableEq δ] [DecidableEq γ]

def new : Dispatchers δ γ where
  subscribers := fun _ => []
  dispatcher := fun _ => none
  liveDispatcher := fun _ => true
  liveCallback := fun _ => true
  fresh := 0

def setDispatcher (w : Dispatchers δ γ) (c : γ) (dispatcher : Option δ) : Dispatchers δ γ :=
  { w with dispatcher := Function.update w.dispatcher c dispatcher }

def subscribe (w : Dispatchers δ γ) (d : δ) (c : γ) : Dispatchers δ γ :=
  { w with
    subscribers := Function.update w.subscribers d (⟨w.fresh, c⟩ :: w.subscribers d)
    fresh := w.fresh + 1 }.setDispatcher c (some d)

/-- `list::remove`, of every node that points to `c`. -/
def unSubscribe (w : Dispatchers δ γ) (d : δ) (c : γ) : Dispatchers δ γ :=
  { w with
    subscribers :=
      Function.update w.subscribers d ((w.subscribers d).filter fun node => node.callback ≠ c) }

def callBackDeath (w : Dispatchers δ γ) (c : γ) : Dispatchers δ γ :=
  match w.dispatcher c with
  | none => w
  | some d => w.unSubscribe d c

/-- `~CallbackBase`. -/
def destroyCallback (w : Dispatchers δ γ) (c : γ) : Dispatchers δ γ :=
  { w.callBackDeath c with liveCallback := Function.update w.liveCallback c false }

/-- The loop of `~Dispatcher`, for functions `DispatcherDeath` that do nothing here. -/
def setDispatchers (w : Dispatchers δ γ) (nodes : List (Node γ)) : Dispatchers δ γ :=
  nodes.foldl (fun w node => w.setDispatcher node.callback none) w

def destroyDispatcher (w : Dispatchers δ γ) (d : δ) : Dispatchers δ γ :=
  { w.setDispatchers (w.subscribers d) with
    liveDispatcher := Function.update w.liveDispatcher d false }

inductive Event (δ γ : Type) where
  | subscribes (d : δ) (c : γ)
  | destroysCallback (c : γ)
  | destroysDispatcher (d : δ)

/-- The callers use live objects only. `~Dispatcher` calls each of its callbacks. -/
inductive Step (w : Dispatchers δ γ) : Event δ γ → Dispatchers δ γ → Prop where
  | subscribes (d : δ) (c : γ) : w.liveDispatcher d = true → w.liveCallback c = true →
      Step w (.subscribes d c) (w.subscribe d c)
  | destroysCallback (c : γ) : w.liveCallback c = true →
      Step w (.destroysCallback c) (w.destroyCallback c)
  | destroysDispatcher (d : δ) : w.liveDispatcher d = true →
      (∀ node ∈ w.subscribers d, w.liveCallback node.callback = true) →
      Step w (.destroysDispatcher d) (w.destroyDispatcher d)

/-- The dispatcher has a pointer to the callback in its list. -/
def Lists (w : Dispatchers δ γ) (d : δ) (c : γ) : Prop :=
  ∃ node ∈ w.subscribers d, node.callback = c

variable {w w' : Dispatchers δ γ}

omit [DecidableEq δ] in
/-- Only a callback that is not listed keeps its dispatcher. -/
theorem setDispatchers_dispatcher (nodes : List (Node γ))
    (still : (w.setDispatchers nodes).dispatcher c = some d) :
    w.dispatcher c = some d ∧ ∀ node ∈ nodes, node.callback ≠ c := by
  induction nodes generalizing w with
  | nil => exact ⟨still, nofun⟩
  | cons node rest ih =>
    obtain ⟨before, others⟩ := ih still
    by_cases same : c = node.callback
    · simp only [setDispatcher, same, Function.update_self] at before
      cases before
    · simp only [setDispatcher, Function.update_of_ne same] at before
      refine ⟨before, fun node' member => ?_⟩
      obtain rfl | member := List.mem_cons.mp member
      · exact Ne.symm same
      · exact others node' member

theorem update_false {α : Type} [DecidableEq α] {live : α → Bool} {a b : α} :
    Function.update live a false b = true ↔ b ≠ a ∧ live b = true := by
  by_cases same : b = a
  · simp [same]
  · simp [same]

theorem destroyCallback_alive :
    (w.destroyCallback c).liveCallback c' = true ↔ c' ≠ c ∧ w.liveCallback c' = true := update_false

theorem destroyDispatcher_alive : (w.destroyDispatcher d).liveDispatcher d' = true ↔
    d' ≠ d ∧ w.liveDispatcher d' = true := update_false

section
variable (w : Dispatchers δ γ) (nodes : List (Node γ)) (c : γ) (d : δ)

omit [DecidableEq δ] in
/-- What the loop of `~Dispatcher` does not write. -/
theorem setDispatchers_keeps : (w.setDispatchers nodes).subscribers = w.subscribers ∧
    (w.setDispatchers nodes).liveDispatcher = w.liveDispatcher ∧
      (w.setDispatchers nodes).liveCallback = w.liveCallback ∧
        (w.setDispatchers nodes).fresh = w.fresh := by
  induction nodes generalizing w with
  | nil => exact ⟨rfl, rfl, rfl, rfl⟩
  | cons node rest ih => exact ih (w.setDispatcher node.callback none)

@[simp] theorem destroyDispatcher_subscribers :
    (w.destroyDispatcher d).subscribers = w.subscribers := (setDispatchers_keeps ..).1

@[simp] theorem destroyDispatcher_liveCallback :
    (w.destroyDispatcher d).liveCallback = w.liveCallback := (setDispatchers_keeps ..).2.2.1

@[simp] theorem destroyDispatcher_fresh : (w.destroyDispatcher d).fresh = w.fresh :=
  (setDispatchers_keeps ..).2.2.2

@[simp] theorem destroyCallback_dispatcher : (w.destroyCallback c).dispatcher = w.dispatcher := by
  rw [destroyCallback, callBackDeath]
  cases w.dispatcher c with
  | none | some => rfl

@[simp] theorem destroyCallback_liveDispatcher :
    (w.destroyCallback c).liveDispatcher = w.liveDispatcher := by
  rw [destroyCallback, callBackDeath]
  cases w.dispatcher c with
  | none | some => rfl

@[simp] theorem destroyCallback_fresh : (w.destroyCallback c).fresh = w.fresh := by
  rw [destroyCallback, callBackDeath]
  cases w.dispatcher c with
  | none | some => rfl

/-- The destructor of a callback takes it off the list of its dispatcher, and no other. -/
theorem destroyCallback_subscribers : (w.destroyCallback c).subscribers d =
    if w.dispatcher c = some d then (w.subscribers d).filter fun node => node.callback ≠ c
    else w.subscribers d := by
  rw [destroyCallback, callBackDeath]
  cases w.dispatcher c with
  | none => rfl
  | some d' =>
    by_cases same : d = d'
    · subst same
      simp [unSubscribe]
    · simp [unSubscribe, Function.update_of_ne same, Ne.symm same]

end

end Dispatchers
end DistributedDisk
