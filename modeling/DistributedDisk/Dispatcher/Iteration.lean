import DistributedDisk.Dispatcher

/-! The loops of `Broadcast` and `~Dispatcher`, whose callbacks subscribe and destroy
callbacks while the loop is at a node of the list. -/
namespace DistributedDisk
open Transition

/-- What is left of a list from the node at an address on. -/
def suffix {γ : Type} (it : Nat) (nodes : List (Node γ)) : List (Node γ) :=
  nodes.dropWhile fun node => node.address ≠ it

section
variable {γ : Type} {nodes rest : List (Node γ)}

theorem suffix_cons_self (node : Node γ) (rest : List (Node γ)) :
    suffix node.address (node :: rest) = node :: rest :=
  List.dropWhile_cons_of_neg (by simp)

theorem suffix_cons_ne (other : node.address ≠ it) (nodes : List (Node γ)) :
    suffix it (node :: nodes) = suffix it nodes :=
  List.dropWhile_cons_of_pos (decide_eq_true other)

theorem suffix_absent (absent : it ∉ nodes.map Node.address) : suffix it nodes = [] := by
  induction nodes with
  | nil => rfl
  | cons node rest ih =>
    rw [List.map_cons, List.mem_cons, not_or] at absent
    rw [suffix_cons_ne (Ne.symm absent.1)]
    exact ih absent.2

theorem suffix_of_split (distinct : (nodes.map Node.address).Nodup)
    (split : nodes = before ++ node :: rest) : suffix node.address nodes = node :: rest := by
  subst split
  induction before with
  | nil => exact suffix_cons_self node rest
  | cons head before ih =>
    rw [List.cons_append, List.map_cons, List.nodup_cons] at distinct
    rw [List.cons_append, suffix_cons_ne]
    · exact ih distinct.2
    · intro same
      apply distinct.1
      rw [same]
      simp

theorem suffix_split (it : Nat) (nodes : List (Node γ)) :
    ∃ before, nodes = before ++ suffix it nodes :=
  ⟨_, List.takeWhile_append_dropWhile.symm⟩

/-- Nodes are erased: the rest of the list is what is left of the rest, as long as the node
at the address is not among them. -/
theorem suffix_filter (p : Node γ → Bool) (distinct : (nodes.map Node.address).Nodup) :
    suffix it (nodes.filter p) =
      match suffix it nodes with
      | [] => []
      | node :: rest => if p node then node :: rest.filter p else [] := by
  induction nodes with
  | nil => rfl
  | cons head rest ih =>
    rw [List.map_cons, List.nodup_cons] at distinct
    obtain ⟨absent, distinct⟩ := distinct
    by_cases here : head.address = it
    · subst here
      rw [suffix_cons_self]
      by_cases kept : p head = true
      · rw [List.filter_cons_of_pos kept, suffix_cons_self]
        exact (if_pos kept).symm
      · rw [List.filter_cons_of_neg kept, suffix_absent]
        · exact (if_neg kept).symm
        · intro member
          exact absent (List.map_subset _ (List.filter_subset_self rest) member)
    · rw [suffix_cons_ne here, ← ih distinct]
      by_cases kept : p head = true
      · rw [List.filter_cons_of_pos kept, suffix_cons_ne here]
      · rw [List.filter_cons_of_neg kept]

end

namespace Iteration

/-- Where the dispatcher is: in no function, in `Notify` or `DispatcherDeath` of the
callback at `it`, destroyed, or past a use of an erased node or a destroyed callback. -/
inductive Point where
  | idle
  | notifying (it : Nat)
  | telling (it : Nat)
  | dead
  | broken

inductive Event (δ γ : Type) where
  | acts (e : Dispatchers.Event δ γ)
  | broadcasts
  | dies
  | returns

end Iteration

/-- One dispatcher among others. -/
structure Iteration (δ γ : Type) where
  world : Dispatchers δ γ
  point : Iteration.Point

namespace Iteration
variable {δ γ : Type}

def start : Iteration δ γ := ⟨.new, .idle⟩

/-- The head of a loop: the end, or the call of the function of the next callback. -/
def Point.next (live : γ → Bool) (call : Nat → Point) (done : Point) : List (Node γ) → Point
  | [] => done
  | node :: _ => if live node.callback then call node.address else .broken

/-- What follows the call of `Notify`: `++it` needs the node. -/
def afterNotify (s : Iteration δ γ) (d : δ) (it : Nat) : Iteration δ γ :=
  match suffix it (s.world.subscribers d) with
  | [] => { s with point := .broken }
  | _ :: rest => { s with point := .next s.world.liveCallback .notifying .idle rest }

/-- What follows the call of `DispatcherDeath`: `(*it)->SetDispatcher(NULL)`, `++it`. -/
def afterDispatcherDeath [DecidableEq γ] (s : Iteration δ γ) (d : δ) (it : Nat) : Iteration δ γ :=
  match suffix it (s.world.subscribers d) with
  | [] => { s with point := .broken }
  | node :: rest =>
    if s.world.liveCallback node.callback then
      { world := s.world.setDispatcher node.callback none
        point := .next s.world.liveCallback .telling .dead rest }
    else { s with point := .broken }

variable [DecidableEq δ] [DecidableEq γ] (d : δ)

/-- The functions of the callbacks, and whoever has the dispatcher when it is idle, do as
they like with all callbacks and with the other dispatchers. -/
inductive Step (s : Iteration δ γ) : Event δ γ → Iteration δ γ → Prop where
  | acts : s.point ≠ .dead → s.point ≠ .broken → s.world.Step e w → e ≠ .destroysDispatcher d →
      Step s (.acts e) { s with world := w }
  | broadcasts : s.point = .idle →
      Step s .broadcasts { s with
        point := .next s.world.liveCallback .notifying .idle (s.world.subscribers d) }
  | dies : s.point = .idle →
      Step s .dies { s with
        point := .next s.world.liveCallback .telling .dead (s.world.subscribers d) }
  | notified : s.point = .notifying it → Step s .returns (s.afterNotify d it)
  | told : s.point = .telling it → Step s .returns (s.afterDispatcherDeath d it)

/-- All callbacks of the list are live. -/
def Live (live : γ → Bool) (nodes : List (Node γ)) : Prop :=
  ∀ node ∈ nodes, live node.callback = true

omit [DecidableEq δ] [DecidableEq γ] in
theorem live_cons {live : γ → Bool} (alive : live node.callback = true) :
    Live live (node :: rest) ↔ Live live rest := by
  rw [Live, List.forall_mem_cons]
  exact and_iff_right alive

/-- The node of the loop is there, and every callback that is still to be called is live. -/
def Sound (s : Iteration δ γ) : Prop :=
  match s.point with
  | .idle => Live s.world.liveCallback (s.world.subscribers d)
  | .notifying it => suffix it (s.world.subscribers d) ≠ [] ∧
      Live s.world.liveCallback (s.world.subscribers d)
  | .telling it => suffix it (s.world.subscribers d) ≠ [] ∧
      Live s.world.liveCallback (suffix it (s.world.subscribers d))
  | .dead => True
  | .broken => False

/-- The callbacks the dispatcher has still to call, and the one whose function runs. -/
def ahead (s : Iteration δ γ) : List (Node γ) :=
  match s.point with
  | .telling it => suffix it (s.world.subscribers d)
  | _ => s.world.subscribers d

def running (s : Iteration δ γ) : Option γ :=
  match s.point with
  | .notifying it | .telling it => (suffix it (s.world.subscribers d)).head?.map Node.callback
  | _ => none

/-- No function destroys its own callback, and a callback is destroyed only while it knows
the dispatcher, if that is still to call it. -/
def Gentle (s : Iteration δ γ) : Event δ γ → Prop
  | .acts (.destroysCallback c) => s.running d ≠ some c ∧
      ((∃ node ∈ s.ahead d, node.callback = c) → s.world.dispatcher c = some d)
  | _ => True

/-- The address of the node the loop is at. -/
def Point.it : Point → Option Nat
  | .notifying it | .telling it => some it
  | _ => none

/-- The addresses of the list are distinct and in use, and so is that of the loop. -/
structure Ordered (s : Iteration δ γ) : Prop where
  distinct : ((s.world.subscribers d).map Node.address).Nodup
  used : ∀ node ∈ s.world.subscribers d, node.address < s.world.fresh
  loop : ∀ it, s.point.it = some it → it < s.world.fresh

section
variable {d} {w : Dispatchers δ γ} {rest : List (Node γ)}

omit [DecidableEq δ] [DecidableEq γ] in
theorem next_notifying (distinct : ((w.subscribers d).map Node.address).Nodup)
    (split : w.subscribers d = before ++ rest) :
    Sound d ⟨w, .next w.liveCallback .notifying .idle rest⟩ ↔
      Live w.liveCallback (w.subscribers d) := by
  cases rest with
  | nil => rfl
  | cons node rest =>
    have here := suffix_of_split distinct split
    rw [Point.next]
    split
    case isTrue =>
      apply and_iff_right
      rw [here]
      nofun
    case isFalse gone =>
      refine iff_of_false id fun all => gone (all node ?_)
      rw [split]
      simp

omit [DecidableEq δ] [DecidableEq γ] in
theorem next_telling (distinct : ((w.subscribers d).map Node.address).Nodup)
    (split : w.subscribers d = before ++ rest) :
    Sound d ⟨w, .next w.liveCallback .telling .dead rest⟩ ↔ Live w.liveCallback rest := by
  cases rest with
  | nil => exact iff_of_true trivial nofun
  | cons node rest =>
    have here := suffix_of_split distinct split
    rw [Point.next]
    split
    case isTrue =>
      simp only [Sound, here]
      exact and_iff_right nofun
    case isFalse gone => exact iff_of_false id fun all => gone (all node (.head _))

end

section
variable {live : γ → Bool} {nodes : List (Node γ)} {k : Prop} [Decidable k]

omit [DecidableEq δ] in
/-- What the destruction of a callback leaves of a list. -/
theorem live_destroyed (alive : live c = true) : Live (Function.update live c false)
    (if k then nodes.filter fun node => node.callback ≠ c else nodes) ↔
      Live live nodes ∧ ((∃ node ∈ nodes, node.callback = c) → k) := by
  constructor
  · intro after
    constructor
    · intro node member
      by_cases same : node.callback = c
      · rwa [same]
      · have left : node ∈ if k then nodes.filter fun node => node.callback ≠ c else nodes := by
          split
          · exact List.mem_filter.mpr ⟨member, decide_eq_true same⟩
          · exact member
        exact (Dispatchers.update_false.mp (after node left)).2
    · rintro ⟨node, member, same⟩
      by_contra unknown
      rw [if_neg unknown] at after
      exact (Dispatchers.update_false.mp (after node member)).1 same
  · rintro ⟨all, known⟩ node member
    apply Dispatchers.update_false.mpr
    split at member
    · obtain ⟨member, other⟩ := List.mem_filter.mp member
      exact ⟨of_decide_eq_true other, all node member⟩
    case isFalse unknown =>
      exact ⟨fun same => unknown (known ⟨node, member, same⟩), all node member⟩

omit [DecidableEq δ] in
theorem suffix_destroyed (distinct : (nodes.map Node.address).Nodup)
    (here : suffix it nodes = node :: rest) :
    suffix it (if k then nodes.filter fun node => node.callback ≠ c else nodes) =
      if k ∧ node.callback = c then []
      else if k then (node :: rest).filter fun node => node.callback ≠ c else node :: rest := by
  by_cases known : k
  · rw [if_pos known, suffix_filter _ distinct, here]
    by_cases same : node.callback = c
    · simp [known, same]
    · simp [known, same]
  · rw [if_neg known, here, if_neg fun both => known both.1, if_neg known]

omit [DecidableEq δ] in
theorem suffix_destroyed_nil (distinct : (nodes.map Node.address).Nodup)
    (here : suffix it nodes = []) :
    suffix it (if k then nodes.filter fun node => node.callback ≠ c else nodes) = [] := by
  split
  · rw [suffix_filter _ distinct, here]
  · exact here

end

variable {d} {s t : Iteration δ γ}

/-- The destruction of a callback by a function of the loop, or between the loops. -/
theorem Sound.destroys_iff (ordered : Ordered d s) (running : s.point ≠ .dead)
    (alive : s.world.liveCallback c = true) :
    Sound d { s with world := s.world.destroyCallback c } ↔
      Sound d s ∧ Gentle d s (.acts (.destroysCallback c)) := by
  have distinct := ordered.distinct
  obtain ⟨w, point⟩ := s
  cases point with
  | idle =>
    simp only [Sound, Gentle, Iteration.running, ahead, Dispatchers.destroyCallback_subscribers]
    rw [Dispatchers.destroyCallback, live_destroyed alive]
    simp
  | notifying it =>
    simp only [Sound, Gentle, Iteration.running, ahead, Dispatchers.destroyCallback_subscribers]
    rw [Dispatchers.destroyCallback, live_destroyed alive]
    cases here : suffix it (w.subscribers d) with
    | nil =>
      rw [suffix_destroyed_nil distinct here]
      simp
    | cons node rest =>
      rw [suffix_destroyed distinct here]
      by_cases same : node.callback = c
      · have listed : ∃ node ∈ w.subscribers d, node.callback = c := by
          obtain ⟨before, split⟩ := suffix_split it (w.subscribers d)
          rw [here] at split
          exact ⟨node, by rw [split]; simp, same⟩
        refine iff_of_false ?_ fun sound => sound.2.1 (congrArg some same)
        rintro ⟨held, _, known⟩
        exact held (if_pos ⟨known listed, same⟩)
      · by_cases known : w.dispatcher c = some d
        · simp [same, known]
        · simp [same, known]
  | telling it =>
    simp only [Sound, Gentle, Iteration.running, ahead, Dispatchers.destroyCallback_subscribers]
    cases here : suffix it (w.subscribers d) with
    | nil =>
      rw [suffix_destroyed_nil distinct here]
      simp
    | cons node rest =>
      rw [suffix_destroyed distinct here]
      by_cases same : node.callback = c
      · refine iff_of_false ?_ fun sound => sound.2.1 (congrArg some same)
        rintro ⟨held, all⟩
        by_cases known : w.dispatcher c = some d
        · exact held (if_pos ⟨known, same⟩)
        · rw [if_neg fun both => known both.1, if_neg known] at all
          exact (Dispatchers.destroyCallback_alive.mp (all node (.head _))).1 same
      · rw [if_neg fun both => same both.2, Dispatchers.destroyCallback, live_destroyed alive]
        by_cases known : w.dispatcher c = some d
        · simp [same, known]
        · simp [same, known]
  | dead => exact absurd rfl running
  | broken => simp [Sound]

theorem Sound.subscribes_iff (ordered : Ordered d s) (alive : s.world.liveCallback c = true)
    (d' : δ) : Sound d { s with world := s.world.subscribe d' c } ↔ Sound d s := by
  obtain ⟨w, point⟩ := s
  by_cases same : d = d'
  · subst same
    have nodes : (w.subscribe d c).subscribers d = ⟨w.fresh, c⟩ :: w.subscribers d :=
      Function.update_self ..
    have all : Live w.liveCallback (⟨w.fresh, c⟩ :: w.subscribers d) ↔
        Live w.liveCallback (w.subscribers d) := live_cons alive
    cases point with
    | idle =>
      simp only [Sound, nodes]
      exact all
    | notifying it =>
      have old := ordered.loop it rfl
      have held : suffix it (⟨w.fresh, c⟩ :: w.subscribers d) = suffix it (w.subscribers d) :=
        suffix_cons_ne (Nat.ne_of_gt old) _
      simp only [Sound, nodes, held]
      exact and_congr_right fun _ => all
    | telling it =>
      have old := ordered.loop it rfl
      have held : suffix it (⟨w.fresh, c⟩ :: w.subscribers d) = suffix it (w.subscribers d) :=
        suffix_cons_ne (Nat.ne_of_gt old) _
      simp only [Sound, nodes, held]
      exact .rfl
    | dead | broken => exact .rfl
  · have nodes : (w.subscribe d' c).subscribers d = w.subscribers d := Function.update_of_ne same ..
    simp only [Sound, nodes]
    exact .rfl

omit [DecidableEq δ] [DecidableEq γ] in
theorem Sound.notified_iff (ordered : Ordered d s) (here : s.point = .notifying it) :
    Sound d (s.afterNotify d it) ↔ Sound d s := by
  obtain ⟨w, point⟩ := s
  obtain rfl : point = .notifying it := here
  obtain ⟨before, split⟩ := suffix_split it (w.subscribers d)
  rw [afterNotify]
  cases left : suffix it (w.subscribers d) with
  | nil => exact iff_of_false id fun sound => sound.1 left
  | cons node rest =>
    rw [left, List.append_cons] at split
    rw [next_notifying ordered.distinct split]
    exact (and_iff_right (left ▸ List.cons_ne_nil node rest)).symm

omit [DecidableEq δ] in
theorem Sound.told_iff (ordered : Ordered d s) (here : s.point = .telling it) :
    Sound d (s.afterDispatcherDeath d it) ↔ Sound d s := by
  obtain ⟨w, point⟩ := s
  obtain rfl : point = .telling it := here
  obtain ⟨before, split⟩ := suffix_split it (w.subscribers d)
  rw [afterDispatcherDeath]
  cases left : suffix it (w.subscribers d) with
  | nil => exact iff_of_false id fun sound => sound.1 left
  | cons node rest =>
    rw [left, List.append_cons] at split
    by_cases alive : w.liveCallback node.callback = true
    · have moved : Sound d ⟨w.setDispatcher node.callback none,
          .next w.liveCallback .telling .dead rest⟩ ↔ Live w.liveCallback rest :=
        next_telling ordered.distinct split
      have before : Sound d ⟨w, .telling it⟩ ↔ Live w.liveCallback (node :: rest) := by
        simp only [Sound, left]
        exact and_iff_right (List.cons_ne_nil node rest)
      simp only [alive, if_true]
      rw [moved, before]
      exact (live_cons alive).symm
    · simp only [alive]
      refine iff_of_false id fun sound => alive (sound.2 node ?_)
      rw [left]
      exact .head _

/-- The functions of the loop do no harm but by what they destroy, and a loop goes on from
one sound state to the next. What is not sound any more is not mended. -/
theorem Sound.step_iff (ordered : Ordered d s) (step : s.Step d e t) :
    Sound d t ↔ Sound d s ∧ Gentle d s e := by
  have distinct := ordered.distinct
  cases step with
  | acts running unbroken act other =>
    cases act with
    | subscribes d' c _ alive =>
      exact (Sound.subscribes_iff ordered alive d').trans (and_iff_left trivial).symm
    | destroysCallback c alive => exact Sound.destroys_iff ordered running alive
    | destroysDispatcher d' =>
      simp only [Sound, Dispatchers.destroyDispatcher_subscribers,
        Dispatchers.destroyDispatcher_liveCallback]
      exact (and_iff_left trivial).symm
  | broadcasts idle =>
    rw [next_notifying distinct (List.nil_append _).symm]
    simp [Sound, Gentle, idle]
  | dies idle =>
    rw [next_telling distinct (List.nil_append _).symm]
    simp [Sound, Gentle, idle]
  | notified here => exact (Sound.notified_iff ordered here).trans (and_iff_left trivial).symm
  | told here => exact (Sound.told_iff ordered here).trans (and_iff_left trivial).symm

section
omit [DecidableEq δ] [DecidableEq γ]

/-- Nodes are erased. -/
theorem Ordered.erased (ordered : Ordered d s) (fresh : s.world.fresh ≤ t.world.fresh)
    (erased : (t.world.subscribers d).Sublist (s.world.subscribers d))
    (loop : ∀ it, t.point.it = some it → it < t.world.fresh) : Ordered d t where
  distinct := ordered.distinct.sublist (erased.map _)
  used node member := Nat.lt_of_lt_of_le (ordered.used node (erased.subset member)) fresh
  loop := loop

/-- A loop goes on at a node of the list, or is over. -/
theorem Ordered.next {call : Nat → Point} {done : Point} {w : Dispatchers δ γ}
    {live : γ → Bool} {rest : List (Node γ)} (ordered : Ordered d s)
    (same : w.subscribers d = s.world.subscribers d) (fresh : w.fresh = s.world.fresh)
    (within : rest ⊆ s.world.subscribers d) (calls : ∀ it, (call it).it = some it)
    (ends : done.it = none) : Ordered d ⟨w, .next live call done rest⟩ := by
  apply ordered.erased (Nat.le_of_eq fresh.symm)
  · rw [same]
  · intro it here
    cases rest with
    | nil =>
      rw [Point.next, ends] at here
      cases here
    | cons node rest =>
      rw [Point.next] at here
      split at here
      · rw [calls] at here
        cases here
        rw [fresh]
        exact ordered.used node (within (.head _))
      · cases here

theorem Ordered.broken (ordered : Ordered d s) : Ordered d { s with point := .broken } :=
  ordered.erased (Nat.le_refl _) (.refl _) nofun

theorem suffix_rest {nodes : List (Node γ)} (left : suffix it nodes = node :: rest) :
    rest ⊆ nodes := by
  have whole : suffix it nodes ⊆ nodes := List.dropWhile_subset _
  exact fun other member => whole (left ▸ .tail _ member)

end

theorem Ordered.subscribes (ordered : Ordered d s) (d' : δ) (c : γ) :
    Ordered d { s with world := s.world.subscribe d' c } := by
  have later := Nat.le_succ s.world.fresh
  have loop : ∀ it, s.point.it = some it → it < s.world.fresh + 1 :=
    fun it here => Nat.lt_succ_of_lt (ordered.loop it here)
  by_cases same : d = d'
  · subst same
    have nodes : (s.world.subscribe d c).subscribers d =
        ⟨s.world.fresh, c⟩ :: s.world.subscribers d := Function.update_self ..
    constructor
    · simp only [nodes, List.map_cons, List.nodup_cons]
      refine ⟨fun member => ?_, ordered.distinct⟩
      obtain ⟨node, member, taken⟩ := List.mem_map.mp member
      exact Nat.ne_of_lt (ordered.used node member) taken
    · intro node member
      simp only [nodes] at member
      obtain rfl | member := List.mem_cons.mp member
      · exact Nat.lt_succ_self _
      · exact Nat.lt_succ_of_lt (ordered.used node member)
    · exact loop
  · apply ordered.erased later _ loop
    have nodes : (s.world.subscribe d' c).subscribers d = s.world.subscribers d :=
      Function.update_of_ne same ..
    simp only [nodes]
    exact .refl _

theorem Ordered.step (ordered : Ordered d s) (step : s.Step d e t) : Ordered d t := by
  cases step with
  | acts running unbroken act other =>
    cases act with
    | subscribes d' c => exact ordered.subscribes d' c
    | destroysCallback c =>
      apply ordered.erased
      · simp only [Dispatchers.destroyCallback_fresh, Nat.le_refl]
      · simp only [Dispatchers.destroyCallback_subscribers]
        split
        · exact List.filter_sublist
        · exact .refl _
      · simpa only [Dispatchers.destroyCallback_fresh] using ordered.loop
    | destroysDispatcher d' =>
      apply ordered.erased
      · simp only [Dispatchers.destroyDispatcher_fresh, Nat.le_refl]
      · simp only [Dispatchers.destroyDispatcher_subscribers, List.Sublist.refl]
      · simpa only [Dispatchers.destroyDispatcher_fresh] using ordered.loop
  | broadcasts => exact ordered.next rfl rfl (List.Subset.refl _) (fun _ => rfl) rfl
  | dies => exact ordered.next rfl rfl (List.Subset.refl _) (fun _ => rfl) rfl
  | notified =>
    rw [afterNotify]
    split
    · exact ordered.broken
    case h_2 left => exact ordered.next rfl rfl (suffix_rest left) (fun _ => rfl) rfl
  | told =>
    rw [afterDispatcherDeath]
    split
    · exact ordered.broken
    case h_2 left =>
      split
      · exact ordered.next rfl rfl (suffix_rest left) (fun _ => rfl) rfl
      · exact ordered.broken

/-- As long as no function does the harm, the loops use only nodes of the list and live
callbacks. After the first that does, the dispatcher never comes to a good end. -/
theorem iteration_iff (run : Run (Under (Gentle d) (Step d)) start tr s) :
    Sound d s ∧ ∀ e t, s.Step d e t → (Sound d t ↔ Gentle d s e) ∧
      (¬Gentle d s e → ∀ tr' u, Run (Step d) t tr' u → ¬Sound d u) := by
  have invariant : Ordered d s ∧ Sound d s := by
    apply run.invariant (P := fun s => Ordered d s ∧ Sound d s)
    · rintro s e t ⟨ordered, sound⟩ ⟨step, gentle⟩
      exact ⟨ordered.step step, (Sound.step_iff ordered step).mpr ⟨sound, gentle⟩⟩
    · exact ⟨⟨.nil, nofun, nofun⟩, nofun⟩
  obtain ⟨ordered, sound⟩ := invariant
  refine ⟨sound, fun e t step => ?_⟩
  have sound_iff := (Sound.step_iff ordered step).trans (and_iff_right sound)
  refine ⟨sound_iff, fun harm tr' u run => ?_⟩
  have unsound : Ordered d u ∧ ¬Sound d u := by
    apply run.invariant (P := fun s => Ordered d s ∧ ¬Sound d s)
    · rintro s e t ⟨ordered, unsound⟩ step
      exact ⟨ordered.step step, fun sound => unsound ((Sound.step_iff ordered step).mp sound).1⟩
    · exact ⟨ordered.step step, fun sound => harm (sound_iff.mp sound)⟩
  exact unsound.2

/-- The function of callback 1 destroys callback 0, which is next on the list. -/
theorem iteration_iff_other : ∃ tr s, Run (Under (Gentle 0) (Step 0))
    (start : Iteration Nat Nat) tr s ∧ s.point = .notifying 1 ∧
      s.world.liveCallback 0 = false ∧ Sound 0 s := by
  have run : ∃ s, Run (Under (Gentle 0) (Step 0)) (start : Iteration Nat Nat)
      [.acts (.subscribes 0 0), .acts (.subscribes 0 1), .broadcasts] s ∧
        s.point = .notifying 1 ∧ s.world.dispatcher 0 = some 0 ∧ s.running 0 = some 1 ∧
        s.world.liveCallback 0 = true :=
    ⟨_, .next ⟨.acts nofun nofun (.subscribes 0 0 rfl rfl) nofun, trivial⟩ <|
      .next ⟨.acts nofun nofun (.subscribes 0 1 rfl rfl) nofun, trivial⟩ <|
      .single ⟨.broadcasts rfl, trivial⟩, rfl, rfl, rfl, rfl⟩
  obtain ⟨s, run, here, known, running, alive⟩ := run
  have gentle : Gentle 0 s (.acts (.destroysCallback 0)) := by
    refine ⟨?_, fun _ => known⟩
    rw [running]
    decide
  have destroys : s.Step 0 (.acts (.destroysCallback 0)) _ :=
    .acts (by rw [here]; nofun) (by rw [here]; nofun) (.destroysCallback 0 alive) nofun
  have run := run.trans (.single ⟨destroys, gentle⟩)
  exact ⟨_, _, run, here, by simp [Dispatchers.destroyCallback], (iteration_iff run).1⟩

/-- The function of callback 0 destroys callback 0. -/
theorem iteration_breaks : ∃ tr s, Run (Step 0) (start : Iteration Nat Nat) tr s ∧
    s.point = .broken :=
  ⟨[.acts (.subscribes 0 0), .broadcasts, .acts (.destroysCallback 0), .returns], _,
    .next (.acts nofun nofun (.subscribes 0 0 rfl rfl) nofun) <| .next (.broadcasts rfl) <|
      .next (.acts nofun nofun (.destroysCallback 0 rfl) nofun) <| .single (.notified rfl), rfl⟩

end Iteration
end DistributedDisk
