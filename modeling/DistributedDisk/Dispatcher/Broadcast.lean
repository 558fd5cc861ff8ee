import DistributedDisk.Dispatcher.Iteration
import DistributedDisk.Dispatcher.Links

/-! One `Broadcast`, whose callbacks subscribe new callbacks and destroy others on both
sides of the one that is notified. -/
namespace DistributedDisk
open Transition

namespace Iteration
variable {δ γ : Type}

/-- What happens in a `Broadcast`: a function acts, or it returns and the loop comes to the
callback it notifies next, if there is one. -/
inductive Label (δ γ : Type) where
  | acts (e : Dispatchers.Event δ γ)
  | turns (c : Option γ)

/-- The callbacks that are notified, in the order of the calls. -/
def notified (tr : List (Label δ γ)) : List γ :=
  tr.filterMap fun | .turns c => c | .acts _ => none

/-- The loop has come to a callback, or to its end. -/
def Label.isTurn : Label δ γ → Bool
  | .turns _ => true
  | .acts _ => false

/-- The callbacks that are subscribed to a dispatcher, in the order of the calls. -/
def subscribed [DecidableEq δ] (d : δ) (tr : List (Event δ γ)) : List γ :=
  tr.filterMap fun | .acts (.subscribes d' c) => if d' = d then some c else none | _ => none

variable [DecidableEq γ]

/-- The callback is destroyed before its turn: while only callbacks that stand before it on
the list have been notified. -/
def Early (listed : List γ) (tr : List (Label δ γ)) (c : γ) : Prop :=
  ∃ before after, tr = before ++ .acts (.destroysCallback c) :: after ∧
    ∀ c' ∈ notified before, c' ∈ listed.takeWhile (· ≠ c)

variable [DecidableEq δ] (d : δ)

/-- The steps from the first call of `Notify` to the end of the loop. -/
inductive Inside (s : Iteration δ γ) : Label δ γ → Iteration δ γ → Prop where
  | acts : s.point = .notifying it → s.Step d (.acts e) t → Inside s (.acts e) t
  | turns : s.point = .notifying it → s.Step d .returns t → Inside s (.turns (t.running d)) t

/-- The functions subscribe callbacks that are not on the list, and destroy callbacks other
than their own. -/
def Polite (s : Iteration δ γ) : Label δ γ → Prop
  | .acts (.subscribes d' c) => d' = d ∧ ¬s.world.Lists d c
  | .acts (.destroysCallback c) => s.running d ≠ some c
  | .acts (.destroysDispatcher _) => False
  | .turns _ => True

/-- A `Broadcast` at a list of callbacks has come to its end: those that were not destroyed
before their turn were notified, once and in the order of the list, and no other. -/
structure Delivers (listed : List γ) (tr : List (Label δ γ)) (s : Iteration δ γ) : Prop where
  idle : s.point = .idle
  order : (notified tr).Sublist listed
  exact : ∀ c ∈ listed, c ∈ notified tr ↔ ¬Early listed tr c
  fresh : ∀ c, .acts (.subscribes d c) ∈ tr → c ∉ notified tr

/-- The callback is live, and its destructor would take it off the list. -/
def erasable (w : Dispatchers δ γ) (c : γ) : Bool :=
  w.liveCallback c && decide (w.dispatcher c = some d)

/-- The list has live callbacks only, and those that are destroyed before their turn know
the dispatcher. -/
def Attached (w : Dispatchers δ γ) (listed : List γ) (tr : List (Label δ γ)) : Prop :=
  ∀ c ∈ listed, w.liveCallback c = true ∧ (Early listed tr c → w.dispatcher c = some d)

section
variable {listed before todo : List γ} {tr : List (Label δ γ)}

omit [DecidableEq δ] [DecidableEq γ] in
theorem notified_append (tr : List (Label δ γ)) (label : Label δ γ) :
    notified (tr ++ [label]) = notified tr ++ notified [label] := List.filterMap_append

omit [DecidableEq δ] [DecidableEq γ] in
theorem notified_quiet (label : Label δ γ) (quiet : notified [label] = []) :
    notified (tr ++ [label]) = notified tr := by
  rw [notified_append, quiet, List.append_nil]

omit [DecidableEq δ] in
theorem early_append (label : Label δ γ) : Early listed (tr ++ [label]) c ↔
    Early listed tr c ∨ label = .acts (.destroysCallback c) ∧
      ∀ c' ∈ notified tr, c' ∈ listed.takeWhile (· ≠ c) := by
  constructor
  · rintro ⟨before, after, split, precede⟩
    obtain rfl | ⟨after, last, rfl⟩ := List.eq_nil_or_concat after
    · obtain ⟨rfl, same⟩ := List.append_inj' split rfl
      exact .inr ⟨(List.cons.inj same).1, precede⟩
    · rw [List.concat_eq_append, ← List.cons_append, ← List.append_assoc] at split
      exact .inl ⟨before, after, (List.append_inj' split rfl).1, precede⟩
  · rintro (⟨before, after, rfl, precede⟩ | ⟨rfl, precede⟩)
    · exact ⟨before, after ++ [label], by simp, precede⟩
    · exact ⟨tr, [], rfl, precede⟩

omit [DecidableEq δ] in
theorem early_quiet (label : Label δ γ) (other : label ≠ .acts (.destroysCallback c)) :
    Early listed (tr ++ [label]) c ↔ Early listed tr c := by
  rw [early_append]
  exact or_iff_left fun destroyed => other destroyed.1

omit [DecidableEq δ] in
theorem early_turns (c' : Option γ) :
    Early listed (tr ++ [.turns c']) c ↔ Early listed tr c := early_quiet _ (by simp)

omit [DecidableEq δ] in
theorem not_early_nil (c : γ) : ¬Early listed ([] : List (Label δ γ)) c := by
  rintro ⟨front, back, split, _⟩
  exact List.append_ne_nil_of_right_ne_nil front (List.cons_ne_nil _ back) split.symm

/-- The callbacks before one on a list. -/
theorem takeWhile_of_split (nodup : (before ++ c :: todo).Nodup) :
    (before ++ c :: todo).takeWhile (· ≠ c) = before := by
  rw [List.takeWhile_append_of_pos]
  · rw [List.takeWhile_cons_of_neg (by simp), List.append_nil]
  · intro x member
    apply decide_eq_true
    rintro rfl
    exact (List.nodup_append.mp nodup).2.2 x member x (List.mem_cons_self ..) rfl

/-- A callback has been notified, and those before it or it alone: whoever is still ahead. -/
theorem precede_of_mem (nodup : (before ++ c :: todo).Nodup) (ahead : x ∈ todo) :
    ∀ c' ∈ before ++ [c], c' ∈ (before ++ c :: todo).takeWhile (· ≠ x) := by
  obtain ⟨middle, rest, rfl⟩ := List.append_of_mem ahead
  have whole : before ++ c :: (middle ++ x :: rest) = (before ++ c :: middle) ++ x :: rest := by
    simp
  rw [whole] at nodup ⊢
  rw [takeWhile_of_split nodup]
  intro c' member
  rw [List.mem_append, List.mem_singleton] at member
  rw [List.mem_append, List.mem_cons, ← or_assoc]
  exact .inl member

theorem not_precede (nodup : (before ++ c :: todo).Nodup) (past : x ∈ before ++ [c]) :
    c ∉ (before ++ c :: todo).takeWhile (· ≠ x) := by
  intro member
  obtain behind | here := List.mem_append.mp past
  · obtain ⟨front, back, rfl⟩ := List.append_of_mem behind
    have whole : front ++ x :: back ++ c :: todo = front ++ x :: (back ++ c :: todo) := by simp
    rw [whole] at nodup member
    rw [takeWhile_of_split nodup] at member
    exact (List.nodup_append.mp nodup).2.2 c member c (by simp) rfl
  · obtain rfl := List.mem_singleton.mp here
    rw [takeWhile_of_split nodup] at member
    exact (List.nodup_append.mp nodup).2.2 x member x (List.mem_cons_self ..) rfl

end

/-- The loop is at a node of the list as it was at the begin: `before` are the callbacks
that had their turn, and `rest` the nodes of those that are left of `todo`. A node is left
when its callback is destroyed, unless that was erasable. -/
structure Walking (w : Dispatchers δ γ) (listed : List γ) (tr : List (Label δ γ))
    (s : Iteration δ γ) (before todo : List γ) (node : Node γ) (rest : List (Node γ)) : Prop where
  here : s.point = .notifying node.address
  ordered : Ordered d s
  older : ∀ c, s.world.liveCallback c = true → w.liveCallback c = true
  known : ∀ c ∈ listed, s.world.dispatcher c = w.dispatcher c
  kept : ∀ c ∈ listed, s.world.liveCallback c = true → s.world.Lists d c
  fresh : ∀ c, .acts (.subscribes d c) ∈ tr → c ∉ listed
  split : listed = before ++ node.callback :: todo
  suffix : suffix node.address (s.world.subscribers d) = node :: rest
  left : rest.map Node.callback =
    todo.filter fun c => s.world.liveCallback c || !erasable d w c
  order : (notified tr).Sublist (before ++ [node.callback])
  turns : tr.countP Label.isTurn = (notified tr).length
  current : node.callback ∈ notified tr
  turned : ∀ c ∈ before ++ [node.callback], c ∈ notified tr ↔ ¬Early listed tr c
  bound : ∀ c ∈ before ++ [node.callback],
    w.liveCallback c = true ∧ (Early listed tr c → w.dispatcher c = some d)
  ahead : ∀ c ∈ todo, w.liveCallback c = true →
    (s.world.liveCallback c = true ↔ ¬Early listed tr c)

variable {d} {w : Dispatchers δ γ} {s t : Iteration δ γ} {listed before todo : List γ}
  {tr : List (Label δ γ)} {node : Node γ} {rest : List (Node γ)}

omit [DecidableEq δ] [DecidableEq γ] in
/-- The loop at a node of the list. -/
theorem Ordered.notifying (ordered : Ordered d s) (member : node ∈ s.world.subscribers d) :
    Ordered d { s with point := .notifying node.address } := by
  refine ⟨ordered.distinct, ordered.used, ?_⟩
  rintro _ ⟨⟩
  exact ordered.used node member

omit [DecidableEq δ] [DecidableEq γ] in
theorem countP_turns (tr : List (Label δ γ)) (label : Label δ γ) :
    (tr ++ [label]).countP Label.isTurn = tr.countP Label.isTurn + label.isTurn.toNat := by
  rw [List.countP_append, List.countP_singleton]
  cases label.isTurn with
  | false | true => rfl

theorem Walking.running (walking : Walking d w listed tr s before todo node rest) :
    s.running d = some node.callback := by
  rw [Iteration.running, walking.here]
  simp only [walking.suffix]
  rfl

/-- A new callback is put before the node of the loop. -/
theorem Walking.subscribes (walking : Walking d w listed tr s before todo node rest)
    (alive : s.world.liveCallback c = true) (unlisted : ¬s.world.Lists d c) :
    Walking d w listed (tr ++ [.acts (.subscribes d c)])
      { s with world := s.world.subscribe d c } before todo node rest := by
  have nodes : (s.world.subscribe d c).subscribers d =
      ⟨s.world.fresh, c⟩ :: s.world.subscribers d := Function.update_self ..
  have quiet : notified (tr ++ [.acts (.subscribes d c)]) = notified tr := notified_quiet _ rfl
  have same : ∀ c', Early listed (tr ++ [.acts (.subscribes d c)]) c' ↔ Early listed tr c' :=
    fun _ => early_quiet _ (by simp)
  have old : node.address < s.world.fresh := walking.ordered.loop _ (by rw [walking.here]; rfl)
  have absent : c ∉ listed := fun member => unlisted (walking.kept c member alive)
  constructor
  case here => exact walking.here
  case ordered => exact walking.ordered.subscribes d c
  case older => exact walking.older
  case known =>
    intro c' member
    have differs : c' ≠ c := by
      rintro rfl
      exact absent member
    exact (Function.update_of_ne differs ..).trans (walking.known c' member)
  case kept =>
    intro c' member alive'
    exact (Dispatchers.subscribe_lists ..).mpr (.inl (walking.kept c' member alive'))
  case fresh =>
    intro c' member
    obtain earlier | now := List.mem_append.mp member
    · exact walking.fresh c' earlier
    · cases List.mem_singleton.mp now
      exact absent
  case split => exact walking.split
  case suffix =>
    simp only [nodes]
    rw [suffix_cons_ne (Nat.ne_of_gt old), walking.suffix]
  case left => exact walking.left
  case order =>
    rw [quiet]
    exact walking.order
  case turns =>
    rw [quiet, countP_turns]
    exact walking.turns
  case current =>
    rw [quiet]
    exact walking.current
  case turned =>
    intro c' member
    rw [quiet, same]
    exact walking.turned c' member
  case bound =>
    intro c' member
    rw [same]
    exact walking.bound c' member
  case ahead =>
    intro c' member
    rw [same]
    exact walking.ahead c' member

/-- A callback that had its turn is not early when it is destroyed. -/
theorem Walking.early_past (walking : Walking d w listed tr s before todo node rest)
    (nodup : listed.Nodup) (member : c' ∈ before ++ [node.callback]) :
    Early listed (tr ++ [.acts (.destroysCallback c)]) c' ↔ Early listed tr c' := by
  have parts := walking.split ▸ nodup
  rw [early_append]
  apply or_iff_left
  rintro ⟨same, precede⟩
  cases same
  refine not_precede parts member ?_
  rw [← walking.split]
  exact precede _ walking.current

/-- One that is ahead is. -/
theorem Walking.early_ahead (walking : Walking d w listed tr s before todo node rest)
    (nodup : listed.Nodup) (member : c' ∈ todo) :
    Early listed (tr ++ [.acts (.destroysCallback c)]) c' ↔ Early listed tr c' ∨ c' = c := by
  have parts := walking.split ▸ nodup
  rw [early_append]
  apply or_congr_right
  constructor
  · rintro ⟨same, _⟩
    cases same
    rfl
  · rintro rfl
    refine ⟨rfl, fun c'' called => ?_⟩
    rw [walking.split]
    exact precede_of_mem parts member c'' (walking.order.subset called)

theorem Walking.todo_listed (walking : Walking d w listed tr s before todo node rest)
    (member : c ∈ todo) : c ∈ listed := by
  rw [walking.split]
  exact List.mem_append_right _ (.tail _ member)

/-- What is left of the nodes ahead when a callback is destroyed. -/
theorem Walking.left_destroyed (walking : Walking d w listed tr s before todo node rest)
    (alive : s.world.liveCallback c = true) :
    (if s.world.dispatcher c = some d then rest.filter fun node => node.callback ≠ c
      else rest).map Node.callback =
      todo.filter fun c' => (s.world.destroyCallback c).liveCallback c' || !erasable d w c' := by
  have old := walking.older c alive
  have gone : (s.world.destroyCallback c).liveCallback c = false := Function.update_self ..
  have others (c') (other : c' ≠ c) : (s.world.destroyCallback c).liveCallback c' =
      s.world.liveCallback c' := Function.update_of_ne other ..
  split
  case isTrue known =>
    have map : (rest.filter fun node => node.callback ≠ c).map Node.callback =
        (rest.map Node.callback).filter (· ≠ c) := by
      rw [List.filter_map]
      rfl
    rw [map, walking.left, List.filter_filter]
    apply List.filter_congr
    intro c' member
    by_cases same : c' = c
    · subst same
      rw [walking.known c' (walking.todo_listed member)] at known
      simp [gone, erasable, old, known]
    · simp [others c' same, same]
  case isFalse unknown =>
    rw [walking.left]
    apply List.filter_congr
    intro c' member
    by_cases same : c' = c
    · subst same
      rw [walking.known c' (walking.todo_listed member)] at unknown
      simp [erasable, unknown]
    · rw [others c' same]

/-- Another callback is destroyed: it is ahead, and then it is early, or it had its turn. -/
theorem Walking.destroys (walking : Walking d w listed tr s before todo node rest)
    (nodup : listed.Nodup) (alive : s.world.liveCallback c = true)
    (other : s.running d ≠ some c) : ∃ rest', Walking d w listed
      (tr ++ [.acts (.destroysCallback c)]) { s with world := s.world.destroyCallback c }
      before todo node rest' := by
  have differs : node.callback ≠ c := fun same => other (walking.running.trans (congrArg some same))
  have quiet : notified (tr ++ [.acts (.destroysCallback c)]) = notified tr := notified_quiet _ rfl
  refine ⟨if s.world.dispatcher c = some d then rest.filter fun node => node.callback ≠ c
    else rest, ?_⟩
  constructor
  case here => exact walking.here
  case ordered =>
    apply walking.ordered.step (e := .acts (.destroysCallback c))
    have point := walking.here
    exact .acts (by rw [point]; simp) (by rw [point]; simp) (.destroysCallback c alive) (by simp)
  case older =>
    intro c' alive'
    exact walking.older c' (Dispatchers.destroyCallback_alive.mp alive').2
  case known =>
    intro c' member
    rw [Dispatchers.destroyCallback_dispatcher]
    exact walking.known c' member
  case kept =>
    intro c' member alive
    obtain ⟨another, alive⟩ := Dispatchers.destroyCallback_alive.mp alive
    exact (Dispatchers.destroyCallback_lists ..).mpr
      ⟨walking.kept c' member alive, fun same => absurd same another⟩
  case fresh =>
    intro c' member
    apply walking.fresh c'
    simpa using member
  case split => exact walking.split
  case suffix =>
    simp only [Dispatchers.destroyCallback_subscribers]
    rw [suffix_destroyed walking.ordered.distinct walking.suffix,
      if_neg fun both => differs both.2]
    split
    · exact List.filter_cons_of_pos (decide_eq_true differs)
    · rfl
  case left => exact walking.left_destroyed alive
  case order =>
    rw [quiet]
    exact walking.order
  case turns =>
    rw [quiet, countP_turns]
    exact walking.turns
  case current =>
    rw [quiet]
    exact walking.current
  case turned =>
    intro c' member
    rw [quiet, walking.early_past nodup member]
    exact walking.turned c' member
  case bound =>
    intro c' member
    rw [walking.early_past nodup member]
    exact walking.bound c' member
  case ahead =>
    intro c' member old
    rw [walking.early_ahead nodup member, not_or, ← walking.ahead c' member old,
      Dispatchers.destroyCallback_alive, and_comm]

theorem Walking.not_notified (walking : Walking d w listed tr s before todo node rest)
    (nodup : listed.Nodup) (ahead : c ∈ todo) : c ∉ notified tr := by
  intro called
  rw [walking.split, List.append_cons] at nodup
  exact (List.nodup_append.mp nodup).2.2 c (walking.order.subset called) c ahead rfl

/-- A callback that the loop passes without coming to it was destroyed before its turn, and
knew the dispatcher. -/
theorem Walking.skips (walking : Walking d w listed tr s before todo node rest)
    (nodup : listed.Nodup) (ahead : c ∈ todo)
    (passed : ¬(s.world.liveCallback c || !erasable d w c) = true) :
    (c ∈ notified tr ↔ ¬Early listed tr c) ∧
      w.liveCallback c = true ∧ (Early listed tr c → w.dispatcher c = some d) := by
  simp only [erasable, Bool.or_eq_true, Bool.not_eq_true', Bool.and_eq_false_iff,
    decide_eq_false_iff_not, not_or, Bool.not_eq_false, not_not] at passed
  obtain ⟨dead, old, known⟩ := passed
  refine ⟨iff_of_false (walking.not_notified nodup ahead) ?_, old, fun _ => known⟩
  rwa [← walking.ahead c ahead old]

theorem Walking.notified_listed (walking : Walking d w listed tr s before todo node rest) :
    (notified tr).Sublist listed := by
  rw [walking.split, List.append_cons]
  exact walking.order.trans (List.sublist_append_left ..)

/-- The function returns, and all that were ahead are destroyed: the loop is over. -/
theorem Walking.ends (walking : Walking d w listed tr s before todo node [])
    (nodup : listed.Nodup) (idle : t.point = .idle) :
    Delivers d listed (tr ++ [.turns none]) t ∧ Attached d w listed (tr ++ [.turns none]) := by
  have quiet : notified (tr ++ [.turns none]) = notified tr := notified_quiet _ rfl
  have all (c) (member : c ∈ listed) : (c ∈ notified tr ↔ ¬Early listed tr c) ∧
      w.liveCallback c = true ∧ (Early listed tr c → w.dispatcher c = some d) := by
    rw [walking.split, List.append_cons] at member
    obtain past | later := List.mem_append.mp member
    · exact ⟨walking.turned c past, walking.bound c past⟩
    · exact walking.skips nodup later (List.filter_eq_nil_iff.mp walking.left.symm c later)
  constructor
  · refine ⟨idle, ?_, fun c member => ?_, fun c member => ?_⟩
    · rw [quiet]
      exact walking.notified_listed
    · rw [quiet, early_turns]
      exact (all c member).1
    · rw [quiet]
      have unlisted := walking.fresh c (by simpa using member)
      exact fun called => unlisted (walking.notified_listed.subset called)
  · intro c member
    rw [early_turns]
    exact (all c member).2

/-- The function returns, and the loop goes on to the first node that is left. -/
theorem Walking.goes (walking : Walking d w listed tr s before todo node (next :: rest))
    (nodup : listed.Nodup) (alive : s.world.liveCallback next.callback = true) :
    ∃ before' todo', Walking d w listed (tr ++ [.turns (some next.callback)])
      { s with point := .notifying next.address } before' todo' next rest := by
  have left := walking.left
  rw [List.map_cons] at left
  obtain ⟨skipped, todo', rfl, passed, -, left⟩ := List.filter_eq_cons_iff.mp left.symm
  have calls : notified (tr ++ [.turns (some next.callback)]) =
      notified tr ++ [next.callback] := notified_append ..
  have within : next ∈ s.world.subscribers d := suffix_rest walking.suffix (.head _)
  have ahead : next.callback ∈ skipped ++ next.callback :: todo' := by simp
  have uncalled := walking.not_notified nodup ahead
  have old := walking.older _ alive
  have early := (walking.ahead _ ahead old).mp alive
  have past (c) (member : c ∈ (before ++ node.callback :: skipped) ++ [next.callback])
      (other : c ≠ next.callback) : (c ∈ notified tr ↔ ¬Early listed tr c) ∧
      w.liveCallback c = true ∧ (Early listed tr c → w.dispatcher c = some d) := by
    rw [List.append_assoc, List.cons_append, List.append_cons] at member
    obtain turned | later := List.mem_append.mp member
    · exact ⟨walking.turned c turned, walking.bound c turned⟩
    · obtain skips | now := List.mem_append.mp later
      · exact walking.skips nodup (List.mem_append_left _ skips) (passed c skips)
      · exact absurd (List.mem_singleton.mp now) other
  refine ⟨before ++ node.callback :: skipped, todo', ?_⟩
  constructor
  case here => rfl
  case ordered => exact walking.ordered.notifying within
  case older => exact walking.older
  case known => exact walking.known
  case kept => exact walking.kept
  case fresh =>
    intro c member
    apply walking.fresh c
    simpa using member
  case split =>
    rw [walking.split]
    simp
  case suffix =>
    obtain ⟨front, split⟩ := suffix_split node.address (s.world.subscribers d)
    rw [walking.suffix, List.append_cons] at split
    exact suffix_of_split walking.ordered.distinct split
  case left => exact left.symm
  case order =>
    rw [calls]
    apply List.Sublist.append _ (.refl _)
    rw [List.append_cons]
    exact walking.order.trans (List.sublist_append_left ..)
  case turns =>
    rw [calls, countP_turns, walking.turns, List.length_append]
    rfl
  case current =>
    rw [calls]
    simp
  case turned =>
    intro c member
    rw [calls, early_turns, List.mem_append, List.mem_singleton]
    by_cases here : c = next.callback
    · subst here
      exact iff_of_true (.inr rfl) early
    · rw [or_iff_left here]
      exact (past c member here).1
  case bound =>
    intro c member
    rw [early_turns]
    by_cases here : c = next.callback
    · subst here
      exact ⟨old, fun destroyed => absurd destroyed early⟩
    · exact (past c member here).2
  case ahead =>
    intro c member
    rw [early_turns]
    exact walking.ahead c (List.mem_append_right _ (.tail _ member))

/-- The function returns, and the loop comes to the node of a callback that was destroyed. -/
theorem Walking.breaks (walking : Walking d w listed tr s before todo node (next :: rest))
    (dead : ¬s.world.liveCallback next.callback = true) :
    ¬Attached d w listed (tr ++ [.turns none]) := by
  intro bound
  have member : next.callback ∈ (next :: rest).map Node.callback := .head _
  rw [walking.left] at member
  obtain ⟨ahead, left⟩ := List.mem_filter.mp member
  obtain ⟨old, known⟩ := bound _ (walking.todo_listed ahead)
  rw [early_turns] at known
  have early : Early listed tr next.callback := by
    rw [← not_not (a := Early ..), ← walking.ahead _ ahead old]
    exact dead
  simp [erasable, dead, old, known early] at left

/-- Where a `Broadcast` is: at a node, past the end of the list, or at what was destroyed. -/
inductive Broadcasting (d : δ) (w : Dispatchers δ γ) (listed : List γ) (tr : List (Label δ γ))
    (s : Iteration δ γ) : Prop where
  | walks (before todo : List γ) (node : Node γ) (rest : List (Node γ)) :
      Walking d w listed tr s before todo node rest → Broadcasting d w listed tr s
  | ends : Delivers d listed tr s → Attached d w listed tr →
      tr.countP Label.isTurn ≤ listed.length + 1 → Broadcasting d w listed tr s
  | breaks : s.point = .broken → ¬Attached d w listed tr →
      tr.countP Label.isTurn ≤ listed.length + 1 → Broadcasting d w listed tr s

/-- The functions may do what they like, but for what is not polite. -/
theorem Walking.acts (walking : Walking d w listed tr s before todo node rest)
    (nodup : listed.Nodup) (step : s.Step d (.acts e) t) (polite : Polite d s (.acts e)) :
    ∃ rest, Walking d w listed (tr ++ [.acts e]) t before todo node rest := by
  cases step with
  | acts _ _ act _ =>
    cases act with
    | subscribes d' c _ alive =>
      obtain ⟨rfl, unlisted⟩ := polite
      exact ⟨rest, walking.subscribes alive unlisted⟩
    | destroysCallback c alive => exact walking.destroys nodup alive polite
    | destroysDispatcher => exact absurd polite id

theorem Walking.turns_le (walking : Walking d w listed tr s before todo node rest)
    (label : Label δ γ) : (tr ++ [label]).countP Label.isTurn ≤ listed.length + 1 := by
  have few := walking.notified_listed.length_le
  have one := Bool.toNat_le label.isTurn
  rw [countP_turns, walking.turns]
  omega

theorem Walking.returns (walking : Walking d w listed tr s before todo node rest)
    (nodup : listed.Nodup) (step : s.Step d .returns t) :
    Broadcasting d w listed (tr ++ [.turns (t.running d)]) t := by
  cases step with
  | told telling => exact absurd (walking.here.symm.trans telling) (by simp)
  | notified here =>
    obtain rfl := Point.notifying.inj (walking.here.symm.trans here)
    rw [afterNotify, walking.suffix]
    cases rest with
    | nil =>
      obtain ⟨delivers, bound⟩ := walking.ends nodup
        (t := { s with point := .next s.world.liveCallback .notifying .idle [] }) rfl
      exact .ends delivers bound (walking.turns_le _)
    | cons next rest =>
      by_cases alive : s.world.liveCallback next.callback = true
      · obtain ⟨before', todo', walking'⟩ := walking.goes nodup alive
        have point : Point.next s.world.liveCallback .notifying .idle (next :: rest) =
            .notifying next.address := if_pos alive
        have running := walking'.running
        simp only [point]
        rw [running]
        exact .walks _ _ _ _ walking'
      · have point : Point.next s.world.liveCallback .notifying .idle (next :: rest) =
            .broken := if_neg alive
        simp only [point]
        exact .breaks rfl (walking.breaks alive) (walking.turns_le _)

theorem Broadcasting.step (broadcasting : Broadcasting d w listed tr s) (nodup : listed.Nodup)
    (step : Under (Polite d) (Inside d) s label t) : Broadcasting d w listed (tr ++ [label]) t := by
  obtain ⟨step, polite⟩ := step
  have inside : ∃ it, s.point = .notifying it := by
    cases step with
    | acts here | turns here => exact ⟨_, here⟩
  obtain ⟨it, inside⟩ := inside
  cases broadcasting with
  | walks before todo node rest walking =>
    cases step with
    | acts _ act =>
      obtain ⟨rest', walking'⟩ := walking.acts nodup act polite
      exact .walks _ _ _ _ walking'
    | turns _ turn => exact walking.returns nodup turn
  | ends delivers => exact absurd (delivers.idle.symm.trans inside) (by simp)
  | breaks broken => exact absurd (broken.symm.trans inside) (by simp)

/-- The begin of the loop. -/
theorem Broadcasting.start (ordered : Ordered d s) (step : s.Step d .broadcasts t) :
    Broadcasting d s.world ((s.world.subscribers d).map Node.callback) [.turns (t.running d)] t := by
  cases step with
  | broadcasts =>
    cases nodes : s.world.subscribers d with
    | nil =>
      refine .ends ⟨rfl, .refl _, by simp, by simp⟩ ?_ (by simp [Label.isTurn])
      intro c member
      cases member
    | cons node rest =>
      by_cases alive : s.world.liveCallback node.callback = true
      case neg =>
        have point : Point.next s.world.liveCallback .notifying .idle (node :: rest) =
            .broken := if_neg alive
        simp only [point]
        exact .breaks rfl (fun attached => alive (attached _ (.head _)).1) (by simp [Label.isTurn])
      have point : Point.next s.world.liveCallback .notifying .idle (node :: rest) =
          .notifying node.address := if_pos alive
      have current : suffix node.address (s.world.subscribers d) = node :: rest := by
        rw [nodes]
        exact suffix_cons_self node rest
      have running : Iteration.running d { s with point := .notifying node.address } =
          some node.callback := by
        simp only [Iteration.running, current]
        rfl
      simp only [point]
      rw [running]
      have never (c : γ) : ¬Early ((node :: rest).map Node.callback)
          [(.turns (some node.callback) : Label δ γ)] c :=
        fun early => not_early_nil c ((early_turns _).mp early)
      refine .walks [] (rest.map Node.callback) node rest ?_
      constructor
      case here => rfl
      case ordered => exact ordered.notifying (nodes ▸ .head _)
      case older => exact fun _ => id
      case known => exact fun _ _ => rfl
      case kept =>
        intro c member _
        obtain ⟨other, inside, rfl⟩ := List.mem_map.mp member
        exact ⟨other, nodes ▸ inside, rfl⟩
      case fresh =>
        intro c member
        cases List.mem_singleton.mp member
      case split => rfl
      case suffix => exact current
      case left =>
        symm
        apply List.filter_eq_self.mpr
        intro c _
        rw [erasable]
        cases s.world.liveCallback c with
        | false | true => rfl
      case order => exact .refl _
      case turns => rfl
      case current => exact .head _
      case turned =>
        intro c member
        exact iff_of_true member (never c)
      case bound =>
        intro c member
        obtain rfl := List.mem_singleton.mp member
        exact ⟨alive, fun early => absurd early (never _)⟩
      case ahead =>
        intro c _ old
        exact iff_of_true old (never c)

theorem subscribe_subscribers (w : Dispatchers δ γ) (d d' : δ) (c : γ) :
    ((w.subscribe d' c).subscribers d).map Node.callback =
      if d' = d then c :: (w.subscribers d).map Node.callback
      else (w.subscribers d).map Node.callback := by
  by_cases same : d' = d
  · subst same
    simp [Dispatchers.subscribe, Dispatchers.setDispatcher]
  · simp [Dispatchers.subscribe, Dispatchers.setDispatcher, same, Ne.symm same]

omit [DecidableEq γ] in
theorem subscribed_append (past : List (Event δ γ)) (e : Event δ γ) :
    subscribed d (past ++ [e]) = subscribed d past ++ subscribed d [e] := List.filterMap_append

omit [DecidableEq γ] in
theorem subscribed_quiet {past : List (Event δ γ)} (quiet : subscribed d [e] = []) :
    subscribed d (past ++ [e]) = subscribed d past := by
  rw [subscribed_append, quiet, List.append_nil]

/-- What the subscriptions so far have led to; the last of them is first on the list. -/
structure Subscriptions (d : δ) (past : List (Event δ γ)) (s : Iteration δ γ) : Prop where
  ordered : Ordered d s
  recent : ((s.world.subscribers d).map Node.callback).Sublist (subscribed d past).reverse

omit [DecidableEq δ] [DecidableEq γ] in
theorem afterNotify_world (s : Iteration δ γ) (d : δ) (it : Nat) :
    (s.afterNotify d it).world = s.world := by
  rw [afterNotify]
  split
  · rfl
  · rfl

omit [DecidableEq δ] in
theorem afterDispatcherDeath_subscribers (s : Iteration δ γ) (d : δ) (it : Nat) :
    (s.afterDispatcherDeath d it).world.subscribers = s.world.subscribers := by
  rw [afterDispatcherDeath]
  split
  · rfl
  · split
    · rfl
    · rfl

theorem recent_step {w w' : Dispatchers δ γ} {past : List (Event δ γ)} (step : w.Step e w')
    (recent : ((w.subscribers d).map Node.callback).Sublist (subscribed d past).reverse) :
    ((w'.subscribers d).map Node.callback).Sublist
      (subscribed d (past ++ [.acts e])).reverse := by
  cases step with
  | subscribes d' c =>
    rw [subscribed_append, List.reverse_append, subscribe_subscribers]
    by_cases same : d' = d
    · simpa [subscribed, same] using recent
    · simpa [subscribed, same] using recent
  | destroysCallback c =>
    rw [subscribed_quiet rfl, Dispatchers.destroyCallback_subscribers]
    split
    · exact (List.filter_sublist.map _).trans recent
    · exact recent
  | destroysDispatcher =>
    rwa [subscribed_quiet rfl, Dispatchers.destroyDispatcher_subscribers]

theorem Subscriptions.step {past : List (Event δ γ)} (sub : Subscriptions d past s)
    (step : s.Step d e t) : Subscriptions d (past ++ [e]) t := by
  refine ⟨sub.ordered.step step, ?_⟩
  cases step with
  | acts _ _ act => exact recent_step act sub.recent
  | broadcasts | dies =>
    rw [subscribed_quiet rfl]
    exact sub.recent
  | notified =>
    rw [subscribed_quiet rfl, afterNotify_world]
    exact sub.recent
  | told =>
    rw [subscribed_quiet rfl, afterDispatcherDeath_subscribers]
    exact sub.recent

theorem subscriptions {past : List (Event δ γ)} (history : Run (Step d) start past s) :
    Subscriptions d past s := by
  apply history.history
  · refine ⟨⟨.nil, ?_, ?_⟩, .refl _⟩
    · intro node member
      cases member
    · intro it here
      cases here
  · intro past s e t sub step
    exact sub.step step

/-- One `Broadcast` of a dispatcher to which its subscribers were subscribed once each. While
it is not over the function it is in may return, and it is over after as many returns as the
list is long. Then it has notified, last subscribed first, exactly those that were not
destroyed before their turn, if and only if the list had live callbacks only and those that
were destroyed before their turn knew the dispatcher. -/
theorem broadcast_iff {past : List (Event δ γ)} (history : Run (Step d) start past s)
    (once : ∀ node ∈ s.world.subscribers d, (subscribed d past).count node.callback = 1)
    (begins : s.Step d .broadcasts t) (run : Run (Under (Polite d) (Inside d)) t tr u) :
    let listed := (s.world.subscribers d).map Node.callback
    let whole := .turns (t.running d) :: tr
    listed.Nodup ∧ listed.Sublist (subscribed d past).reverse ∧
      tr.countP Label.isTurn ≤ listed.length ∧
      (∀ it, u.point = .notifying it → ∃ v, Inside d u (.turns (v.running d)) v) ∧
      ((∀ it, u.point ≠ .notifying it) →
        (Delivers d listed whole u ↔ Attached d s.world listed whole)) := by
  intro listed whole
  have sub := subscriptions history
  have nodup : listed.Nodup := by
    apply List.nodup_iff_count.mpr
    intro c
    by_cases member : c ∈ listed
    · obtain ⟨node, inside, rfl⟩ := List.mem_map.mp member
      have few := sub.recent.count_le node.callback
      rwa [List.count_reverse, once node inside] at few
    · rw [List.count_eq_zero_of_not_mem member]
      exact Nat.zero_le 1
  have broadcasting : Broadcasting d s.world listed whole u := by
    apply run.history
      (P := fun tr u => Broadcasting d s.world listed (.turns (t.running d) :: tr) u)
    · exact Broadcasting.start sub.ordered begins
    · intro tr u label v broadcasting step
      exact broadcasting.step nodup step
  have first : whole.countP Label.isTurn = tr.countP Label.isTurn + 1 :=
    List.countP_cons_of_pos rfl
  refine ⟨nodup, sub.recent, ?_, fun it here => ⟨_, .turns here (.notified here)⟩, fun ended => ?_⟩
  · cases broadcasting with
    | walks before todo node rest walking =>
      have few := walking.notified_listed.length_le
      have turns := walking.turns
      omega
    | ends _ _ few | breaks _ _ few => omega
  · cases broadcasting with
    | walks before todo node rest walking => exact absurd walking.here (ended _)
    | ends delivers attached => exact iff_of_true delivers attached
    | breaks broken detached =>
      refine iff_of_false (fun delivers => ?_) detached
      exact absurd (delivers.idle.symm.trans broken) (by simp)

/-- The function of callback 1 subscribes callback 2 and destroys callback 0, which is next
on the list. -/
theorem broadcast_iff_destroyed : ∃ (t u : Iteration Nat Nat) (tr : List (Label Nat Nat)),
    Run (Under (Polite 0) (Inside 0)) t
        (.acts (.subscribes 0 2) :: .acts (.destroysCallback 0) :: tr) u ∧
      notified (.turns (t.running 0) :: tr) = [1] ∧
      Delivers 0 [1, 0] (.turns (t.running 0) :: .acts (.subscribes 0 2) ::
        .acts (.destroysCallback 0) :: tr) u := by
  have unlisted : ¬∃ node ∈ [(⟨1, 1⟩ : Node Nat), ⟨0, 0⟩], node.callback = 2 := by simp
  have history : ∃ s t u tr, Run (Step 0) (start : Iteration Nat Nat)
      [.acts (.subscribes 0 0), .acts (.subscribes 0 1)] s ∧ s.Step 0 .broadcasts t ∧
        Run (Under (Polite 0) (Inside 0)) t
          (.acts (.subscribes 0 2) :: .acts (.destroysCallback 0) :: tr) u ∧
        s.world.subscribers 0 = [⟨1, 1⟩, ⟨0, 0⟩] ∧
        (∀ c ∈ [1, 0], s.world.liveCallback c = true ∧ s.world.dispatcher c = some 0) ∧
        u.point = .idle ∧ notified (.turns (t.running 0) :: tr) = [1] :=
    ⟨_, _, _, _, .next (.acts nofun nofun (.subscribes 0 0 rfl rfl) nofun) <|
      .single (.acts nofun nofun (.subscribes 0 1 rfl rfl) nofun), .broadcasts rfl,
      .next ⟨.acts rfl (.acts nofun nofun (.subscribes 0 2 rfl rfl) nofun), rfl, unlisted⟩ <|
      .next ⟨.acts rfl (.acts nofun nofun (.destroysCallback 0 rfl) nofun), nofun⟩ <|
        .single ⟨.turns rfl (.notified rfl), trivial⟩, rfl, by decide, rfl, rfl⟩
  obtain ⟨s, t, u, tr, history, begins, run, nodes, known, idle, calls⟩ := history
  obtain ⟨_, _, _, _, delivers⟩ := broadcast_iff history (by simp [nodes, subscribed]) begins run
  rw [nodes] at delivers
  refine ⟨t, u, tr, run, calls, (delivers (by simp [idle])).mpr fun c member => ?_⟩
  exact ⟨(known c member).1, fun _ => (known c member).2⟩

/-- Callback 0 was subscribed to dispatcher 1 as well, and the function of callback 1
destroys it before its turn on dispatcher 0. -/
theorem broadcast_fails : ∃ (past : List (Event Nat Nat)) (s t u : Iteration Nat Nat)
    (tr : List (Label Nat Nat)), Run (Step 0) start past s ∧
      (∀ node ∈ s.world.subscribers 0, (subscribed 0 past).count node.callback = 1) ∧
      s.Step 0 .broadcasts t ∧ Run (Under (Polite 0) (Inside 0)) t tr u ∧
      u.point = .broken ∧
      ¬Delivers 0 ((s.world.subscribers 0).map Node.callback) (.turns (t.running 0) :: tr) u := by
  have run : ∃ s t u tr, Run (Step 0) (start : Iteration Nat Nat)
      [.acts (.subscribes 0 0), .acts (.subscribes 0 1), .acts (.subscribes 1 0)] s ∧
        s.world.subscribers 0 = [⟨1, 1⟩, ⟨0, 0⟩] ∧ s.Step 0 .broadcasts t ∧
        Run (Under (Polite 0) (Inside 0)) t tr u ∧ u.point = .broken :=
    ⟨_, _, _, _, .next (.acts nofun nofun (.subscribes 0 0 rfl rfl) nofun) <|
      .next (.acts nofun nofun (.subscribes 0 1 rfl rfl) nofun) <|
      .single (.acts nofun nofun (.subscribes 1 0 rfl rfl) nofun), rfl, .broadcasts rfl,
      .next ⟨.acts rfl (.acts nofun nofun (.destroysCallback 0 rfl) nofun), nofun⟩ <|
        .single ⟨.turns rfl (.notified rfl), trivial⟩, rfl⟩
  obtain ⟨s, t, u, tr, history, nodes, begins, run, broken⟩ := run
  refine ⟨_, s, t, u, tr, history, by simp [nodes, subscribed], begins, run, broken, ?_⟩
  intro delivers
  exact absurd (delivers.idle.symm.trans broken) nofun

end Iteration
end DistributedDisk
