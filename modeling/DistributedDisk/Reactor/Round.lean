import DistributedDisk.Reactor
import Mathlib.Data.Finset.Card
import Mathlib.Data.Finset.Image

/-! One round of `Run`: `SetArgs`, `select`, `CreateList` and `InvokeHandlers`, while the
handlers change the map and the flag. -/
namespace DistributedDisk
open Transition

namespace Reactor

def fdSetSize : Int := 1024

/-- An `fd_set`, by the descriptors whose bits are set. -/
abbrev FdSet := Finset Int32

/-- `FD_SET` writes outside of the set for a descriptor that it has no bit for. -/
def fdSet (fd : Int32) (set : FdSet) : Option FdSet :=
  if 0 ≤ fd.toInt ∧ fd.toInt < fdSetSize then some (insert fd set) else none

structure SelectListener where
  sets : ModeType → FdSet
  maxFd : Int32

def SelectListener.watch (listener : SelectListener) (pair : FdAndMode) : Option SelectListener :=
  (fdSet pair.fd (listener.sets pair.mode)).map fun set =>
    { sets := Function.update listener.sets pair.mode set, maxFd := max listener.maxFd pair.fd }

/-- `FD_ZERO` on the sets, and the loop over the map. -/
def setArgs (order : List FdAndMode) : Option SelectListener :=
  (order.foldlM SelectListener.watch { sets := fun _ => ∅, maxFd := 0 }).map fun listener =>
    { listener with maxFd := listener.maxFd + 1 }

/-- A `select` that does not fail. It looks at the descriptors below `m_max_fd`, clears
bits, and returns how many it leaves. -/
structure Selects (listener : SelectListener) (left : ModeType → FdSet) (ready : Int) : Prop where
  clears : ∀ mode, ∀ fd ∈ left mode, fd ∈ listener.sets mode ∧ fd < listener.maxFd
  counts : ready = (left .read).card + (left .write).card + (left .exception).card

/-- The loop stops when it has seen as many pairs as `select` has counted. -/
def createList (sets : ModeType → FdSet) :
    List FdAndMode → Int → List FdAndMode → List FdAndMode
  | [], _, toInvoke => toInvoke
  | pair :: rest, ready, toInvoke =>
    if 0 < ready then
      if pair.fd ∈ sets pair.mode then createList sets rest (ready - 1) (pair :: toInvoke)
      else createList sets rest ready toInvoke
    else toInvoke

/-- The order in which the iterators of a map go through its keys. -/
structure Enumerates {H : Type} (map : FdAndMode → Option H) (order : List FdAndMode) : Prop where
  nodup : order.Nodup
  mem_iff : ∀ pair, pair ∈ order ↔ (map pair).isSome

/-- What a handler may do to the reactor. -/
inductive Act (H : Type) where
  | add (fd : Int32) (mode : ModeType) (handler : H)
  | remove (fd : Int32) (mode : ModeType)
  | stop

variable {H : Type}

/-- A `Remove` that throws changes nothing; the handler has caught its exception. -/
def Act.apply (r : Reactor H) : Act H → Reactor H
  | .add fd mode handler => r.add fd mode handler
  | .remove fd mode => (r.remove fd mode).getD r
  | .stop => r.stop

/-- A handler that was invoked for a pair, and what it did. -/
structure Invocation (H : Type) where
  pair : FdAndMode
  handler : H
  acts : List (Act H)

/-- What each handler does when it is invoked, by the invocations before its own and the
reactor it finds. -/
abbrev Behaviour (H : Type) := List (Invocation H) → FdAndMode → H → Reactor H → List (Act H)

/-- The members that `Run` works on; `toInvoke` is `m_fd_handlers_to_invoke`. -/
structure Loop (H : Type) where
  reactor : Reactor H
  toInvoke : List FdAndMode

/-- `CreateList` pushes to the list of the reactor. -/
def Loop.createList (s : Loop H) (order : List FdAndMode) (left : ModeType → FdSet)
    (ready : Int) : Loop H :=
  { s with toInvoke := Reactor.createList left order ready s.toInvoke }

/-- Where the loop of `InvokeHandlers` is, with what it has invoked. -/
structure Walk (H : Type) extends Loop H where
  calls : List (Invocation H)

/-- The handler is found in the map as it is now. -/
def Walk.turn (behave : Behaviour H) (w : Walk H) (pair : FdAndMode) : Walk H :=
  match w.reactor.map pair with
  | none => w
  | some handler =>
    let acts := behave w.calls pair handler w.reactor
    { w with
      reactor := acts.foldl Act.apply w.reactor
      calls := w.calls ++ [⟨pair, handler, acts⟩] }

/-- The loop, from an iterator into the list on. -/
def invokeHandlers (behave : Behaviour H) : List FdAndMode → Walk H → Walk H
  | [], w => w
  | pair :: rest, w =>
    if w.reactor.stopFlag then w else invokeHandlers behave rest (w.turn behave pair)

def Loop.walk (s : Loop H) (order : List FdAndMode) (left : ModeType → FdSet) (ready : Int)
    (behave : Behaviour H) : Walk H :=
  let listed := s.createList order left ready
  invokeHandlers behave listed.toInvoke { listed with calls := [] }

def Loop.clear (s : Loop H) : Loop H := { s with toInvoke := [] }

def Loop.round (s : Loop H) (order : List FdAndMode) (left : ModeType → FdSet) (ready : Int)
    (behave : Behaviour H) : Loop H :=
  (s.walk order left ready behave).toLoop.clear

/-- Between the rounds the map and the flag may change in any way. -/
inductive Loop.Step (s : Loop H) : Unit → Loop H → Prop where
  | changes (r : Reactor H) : Step s () { s with reactor := r }
  | rounds (behave : Behaviour H) : Enumerates s.reactor.map order →
      setArgs order = some listener → Selects listener left ready →
      Step s () (s.round order left ready behave)

theorem Loop.Step.toInvoke {s t : Loop H} (none : s.toInvoke = []) (step : s.Step e t) :
    t.toInvoke = [] := by
  cases step with
  | changes => exact none
  | rounds => rfl

theorem max_toInt (a b : Int32) : (max a b).toInt = max a.toInt b.toInt := by
  change (if a ≤ b then b else a).toInt = _
  simp only [Int32.le_iff_toInt_le]
  split <;> omega

theorem SelectListener.mem_insert (listener : SelectListener) (pair other : FdAndMode) :
    other.fd ∈ Function.update listener.sets pair.mode
        (insert pair.fd (listener.sets pair.mode)) other.mode ↔
      other.fd ∈ listener.sets other.mode ∨ other = pair := by
  obtain ⟨fd, mode⟩ := pair
  obtain ⟨fd', mode'⟩ := other
  by_cases same : mode' = mode
  · subst same
    rw [Function.update_self, Finset.mem_insert, or_comm]
    simp
  · rw [Function.update_of_ne same]
    simp [same]

structure Watches (before : SelectListener) (order : List FdAndMode)
    (after : SelectListener) : Prop where
  sets : ∀ pair, pair.fd ∈ after.sets pair.mode ↔ pair.fd ∈ before.sets pair.mode ∨ pair ∈ order
  grows : before.maxFd.toInt ≤ after.maxFd.toInt
  max : ∀ pair ∈ order, pair.fd.toInt ≤ after.maxFd.toInt
  small : after.maxFd.toInt < fdSetSize

def InRange (order : List FdAndMode) : Prop :=
  ∀ pair ∈ order, 0 ≤ pair.fd.toInt ∧ pair.fd.toInt < fdSetSize

theorem watches {order : List FdAndMode} (fds : InRange order) (listener : SelectListener)
    (small : listener.maxFd.toInt < fdSetSize) :
    ∃ after, order.foldlM SelectListener.watch listener = some after ∧
      Watches listener order after := by
  induction order generalizing listener with
  | nil => exact ⟨listener, rfl, by simp, Int.le_refl _, nofun, small⟩
  | cons pair rest ih =>
    have here := fds pair (List.mem_cons_self ..)
    let next : SelectListener :=
      { sets := Function.update listener.sets pair.mode (insert pair.fd (listener.sets pair.mode)),
        maxFd := max listener.maxFd pair.fd }
    have watched : listener.watch pair = some next := by
      rw [SelectListener.watch, fdSet, if_pos here]
      rfl
    have larger : next.maxFd.toInt = max listener.maxFd.toInt pair.fd.toInt := max_toInt ..
    obtain ⟨after, folded, watches⟩ := ih
      (fun other member => fds other (List.mem_cons_of_mem _ member)) next (by omega)
    have grows := watches.grows
    refine ⟨after, ?_, ?_, by omega, ?_, watches.small⟩
    · rw [List.foldlM_cons, watched]
      exact folded
    · intro other
      rw [watches.sets other, List.mem_cons, ← or_assoc]
      exact or_congr_left (listener.mem_insert pair other)
    · intro other member
      obtain rfl | later := List.mem_cons.mp member
      · omega
      · exact watches.max other later

theorem setArgs_watches {order : List FdAndMode} (fds : InRange order) :
    ∃ listener, setArgs order = some listener ∧
      ∀ pair, pair.fd ∈ listener.sets pair.mode ∧ pair.fd < listener.maxFd ↔ pair ∈ order := by
  obtain ⟨after, folded, watches⟩ := watches fds ⟨fun _ => ∅, 0⟩ (by decide)
  have lower := watches.grows
  have upper := watches.small
  have zero : (0 : Int32).toInt = 0 := rfl
  have one : (1 : Int32).toInt = 1 := rfl
  have bound : fdSetSize = 1024 := rfl
  have next : (after.maxFd + 1).toInt = after.maxFd.toInt + 1 := by
    rw [Int32.toInt_add]
    apply Int.bmod_eq_of_le
    all_goals
      simp only [zero] at lower
      omega
  have sets : ∀ pair, pair.fd ∈ after.sets pair.mode ↔ pair ∈ order := by
    intro pair
    rw [watches.sets pair]
    simp
  refine ⟨{ after with maxFd := after.maxFd + 1 }, ?_, fun pair => ?_⟩
  · rw [setArgs, folded]
    rfl
  · simp only [sets, Int32.lt_iff_toInt_lt, next]
    constructor
    · exact And.left
    · intro member
      have below := watches.max pair member
      exact ⟨member, by omega⟩

def isSet (sets : ModeType → FdSet) (pair : FdAndMode) : Bool := pair.fd ∈ sets pair.mode

/-- With the count of `select` the loop leaves out no pair that is set. -/
theorem createList_eq (sets : ModeType → FdSet) (order : List FdAndMode)
    (toInvoke : List FdAndMode) : createList sets order (order.filter (isSet sets)).length toInvoke =
      (order.filter (isSet sets)).reverse ++ toInvoke := by
  induction order generalizing toInvoke with
  | nil => rfl
  | cons pair rest ih =>
    rw [createList]
    by_cases here : pair.fd ∈ sets pair.mode
    · have set : isSet sets pair = true := decide_eq_true here
      rw [List.filter_cons_of_pos set, if_pos here, List.length_cons, if_pos (by omega),
        Int.natCast_succ, Int.add_sub_cancel, ih, List.reverse_cons, List.append_assoc]
      rfl
    · have clear : ¬ isSet sets pair = true := fun set => here (of_decide_eq_true set)
      rw [List.filter_cons_of_neg clear, if_neg here, ih]
      split
      case isTrue => rfl
      case isFalse none =>
        rw [List.eq_nil_of_length_eq_zero (l := rest.filter (isSet sets)) (by omega)]
        rfl

theorem card_eq {order : List FdAndMode} (nodup : order.Nodup) (sets : ModeType → FdSet)
    (mode : ModeType) (listed : ∀ fd ∈ sets mode, ⟨fd, mode⟩ ∈ order) :
    (sets mode).card =
      (order.filter fun pair => pair.mode = mode ∧ isSet sets pair).length := by
  have image : (order.filter fun pair => pair.mode = mode ∧ isSet sets pair).toFinset =
      (sets mode).image fun fd => ⟨fd, mode⟩ := by
    ext pair
    obtain ⟨fd, mode'⟩ := pair
    simp only [List.mem_toFinset, List.mem_filter, decide_eq_true_eq, Finset.mem_image,
      FdAndMode.mk.injEq, isSet]
    constructor
    · rintro ⟨_, rfl, set⟩
      exact ⟨fd, set, rfl, rfl⟩
    · rintro ⟨_, set, rfl, rfl⟩
      exact ⟨listed _ set, rfl, set⟩
  rw [← List.toFinset_card_of_nodup (nodup.filter _), image, Finset.card_image_of_injective]
  intro fd fd' same
  exact (FdAndMode.mk.inj same).1

theorem length_by_mode (order : List FdAndMode) (sets : ModeType → FdSet) :
    (order.filter (isSet sets)).length =
      (order.filter fun pair => pair.mode = .read ∧ isSet sets pair).length +
      (order.filter fun pair => pair.mode = .write ∧ isSet sets pair).length +
      (order.filter fun pair => pair.mode = .exception ∧ isSet sets pair).length := by
  induction order with
  | nil => rfl
  | cons pair rest ih =>
    obtain ⟨fd, mode⟩ := pair
    cases set : isSet sets ⟨fd, mode⟩ with
    | false => simp [set, ih]
    | true => cases mode <;> simp [set, ih] <;> omega

theorem createList_exact {map : FdAndMode → Option H} {order : List FdAndMode}
    (enumerates : Enumerates map order)
    (watched : ∀ pair, pair.fd ∈ listener.sets pair.mode ∧ pair.fd < listener.maxFd ↔ pair ∈ order)
    (selects : Selects listener left ready) :
    (createList left order ready []).Nodup ∧
      ∀ pair, pair ∈ createList left order ready [] ↔
        (map pair).isSome ∧ pair.fd ∈ left pair.mode := by
  have listed : ∀ mode, ∀ fd ∈ left mode, ⟨fd, mode⟩ ∈ order := fun mode fd set =>
    (watched ⟨fd, mode⟩).mp (selects.clears mode fd set)
  have count : ready = (order.filter (isSet left)).length := by
    rw [length_by_mode, ← card_eq enumerates.nodup left _ (listed _),
      ← card_eq enumerates.nodup left _ (listed _), ← card_eq enumerates.nodup left _ (listed _),
      selects.counts]
    rfl
  rw [count, createList_eq, List.append_nil]
  constructor
  · exact List.nodup_reverse.mpr (enumerates.nodup.filter _)
  · intro pair
    rw [List.mem_reverse, List.mem_filter, enumerates.mem_iff, isSet, decide_eq_true_eq]

section walk
variable (behave : Behaviour H) {w : Walk H} {pair : FdAndMode} {rest : List FdAndMode}

theorem invokeHandlers_stopped (stopped : w.reactor.stopFlag = true) (toInvoke : List FdAndMode) :
    invokeHandlers behave toInvoke w = w := by
  cases toInvoke with
  | nil => rfl
  | cons => exact if_pos stopped

theorem invokeHandlers_cons (running : w.reactor.stopFlag = false) :
    invokeHandlers behave (pair :: rest) w = invokeHandlers behave rest (w.turn behave pair) :=
  if_neg (Bool.eq_false_iff.mp running)

theorem invokeHandlers_append (first more : List FdAndMode) (w : Walk H) :
    invokeHandlers behave (first ++ more) w =
      invokeHandlers behave more (invokeHandlers behave first w) := by
  induction first generalizing w with
  | nil => rfl
  | cons pair rest ih =>
    cases flag : w.reactor.stopFlag with
    | true => simp only [invokeHandlers_stopped behave flag]
    | false =>
      rw [List.cons_append, invokeHandlers_cons behave flag, invokeHandlers_cons behave flag]
      exact ih _

def Invoked (calls : List (Invocation H)) (pair : FdAndMode) (handler : H) : Prop :=
  ∃ call ∈ calls, call.pair = pair ∧ call.handler = handler

theorem Walk.invoked_turn (w : Walk H) : Invoked (w.turn behave pair).calls other handler ↔
    Invoked w.calls other handler ∨ other = pair ∧ w.reactor.map pair = some handler := by
  rw [turn]
  cases found : w.reactor.map pair with
  | none => simp
  | some handler' => simp [Invoked, or_and_right, exists_or, eq_comm]

theorem invokeHandlers_calls (toInvoke : List FdAndMode) (w : Walk H) :
    ∃ more, (invokeHandlers behave toInvoke w).calls = w.calls ++ more ∧
      (more.map Invocation.pair).Sublist toInvoke := by
  induction toInvoke generalizing w with
  | nil => exact ⟨[], (List.append_nil _).symm, .slnil⟩
  | cons pair rest ih =>
    cases flag : w.reactor.stopFlag with
    | true =>
      rw [invokeHandlers_stopped behave flag]
      exact ⟨[], (List.append_nil _).symm, List.nil_sublist _⟩
    | false =>
      rw [invokeHandlers_cons behave flag]
      obtain ⟨more, calls, within⟩ := ih (w.turn behave pair)
      rw [calls, Walk.turn]
      cases w.reactor.map pair with
      | none => exact ⟨more, rfl, within.cons pair⟩
      | some => exact ⟨_ :: more, List.append_assoc .., within.cons_cons pair⟩

/-- The walk up to a pair decides about the pair. -/
theorem invoked_invokeHandlers {toInvoke : List FdAndMode} (nodup : toInvoke.Nodup) :
    Invoked (invokeHandlers behave toInvoke w).calls pair handler ↔
      Invoked w.calls pair handler ∨ pair ∈ toInvoke ∧
        let turn := invokeHandlers behave (toInvoke.takeWhile (· ≠ pair)) w
        turn.reactor.stopFlag = false ∧ turn.reactor.map pair = some handler := by
  induction toInvoke generalizing w with
  | nil => simp [invokeHandlers]
  | cons head rest ih =>
    obtain ⟨absent, nodup⟩ := List.nodup_cons.mp nodup
    cases flag : w.reactor.stopFlag with
    | true =>
      simp only [invokeHandlers_stopped behave flag]
      simp [flag]
    | false =>
      rw [invokeHandlers_cons behave flag, ih nodup, w.invoked_turn behave]
      by_cases here : head = pair
      · subst here
        simp [absent, invokeHandlers, flag]
      · have differs : pair ≠ head := fun same => here same.symm
        simp only [differs, false_and, or_false, List.mem_cons, false_or]
        have passes : (head :: rest).takeWhile (· ≠ pair) = head :: rest.takeWhile (· ≠ pair) :=
          List.takeWhile_cons_of_pos (decide_eq_true here)
        rw [passes, invokeHandlers_cons behave flag]

def acted (calls : List (Invocation H)) : List (Act H) := calls.flatMap Invocation.acts

/-- The reactor is what the handlers made of it, and each did what it does there. -/
structure Traced (behave : Behaviour H) (start : Reactor H) (w : Walk H) : Prop where
  reactor : w.reactor = (acted w.calls).foldl Act.apply start
  acts : ∀ before call after, w.calls = before ++ call :: after →
    call.acts = behave before call.pair call.handler ((acted before).foldl Act.apply start)

theorem Traced.turn {behave : Behaviour H} (traced : Traced behave start w) (pair : FdAndMode) :
    Traced behave start (w.turn behave pair) := by
  cases found : w.reactor.map pair with
  | none =>
    rw [Walk.turn, found]
    exact traced
  | some handler =>
    rw [Walk.turn, found]
    refine ⟨?_, fun before call after split => ?_⟩
    · simp only [acted, List.flatMap_append, List.flatMap_singleton, List.foldl_append]
      rw [traced.reactor, acted]
    · -- the split is at the new invocation or inside of the old ones
      obtain ⟨more, rfl, ended⟩ | ⟨more, old, ended⟩ := List.append_eq_append_iff.mp split
      · obtain ⟨rfl, same⟩ := (List.append_eq_singleton_iff.mp ended.symm).resolve_right (by simp)
        obtain ⟨rfl, rfl⟩ := List.cons.inj same
        rw [List.append_nil, ← traced.reactor]
      · obtain _ | ⟨_, more⟩ := more
        · obtain ⟨rfl, rfl⟩ := List.cons.inj ended
          rw [List.append_nil] at old
          rw [← old, ← traced.reactor]
        · obtain ⟨rfl, rfl⟩ := List.cons.inj ended
          exact traced.acts before call more old

theorem Traced.invokeHandlers {behave : Behaviour H} (traced : Traced behave start w)
    (toInvoke : List FdAndMode) : Traced behave start (invokeHandlers behave toInvoke w) := by
  induction toInvoke generalizing w with
  | nil => exact traced
  | cons pair rest ih =>
    rw [Reactor.invokeHandlers]
    split
    · exact traced
    · exact ih (traced.turn pair)

theorem Act.apply_stopFlag (r : Reactor H) (act : Act H) :
    (act.apply r).stopFlag = true ↔ r.stopFlag = true ∨ act = .stop := by
  cases act with
  | add => simp [Act.apply, Reactor.add]
  | remove fd mode =>
    simp only [Act.apply, Reactor.remove]
    cases r.map ⟨fd, mode⟩ with
    | none | some => simp
  | stop => simp [Act.apply, Reactor.stop]

theorem foldl_stopFlag (acts : List (Act H)) (r : Reactor H) :
    (acts.foldl Act.apply r).stopFlag = true ↔ r.stopFlag = true ∨ .stop ∈ acts := by
  induction acts generalizing r with
  | nil => simp
  | cons act rest ih =>
    rw [List.foldl_cons, ih, act.apply_stopFlag, List.mem_cons, or_assoc, eq_comm (a := act)]

/-- What the handlers did that were invoked before the turn of a pair. -/
def actedBefore (listed : List FdAndMode) (calls : List (Invocation H)) (pair : FdAndMode) :
    List (Act H) :=
  acted (calls.filter (·.pair ∈ listed.takeWhile (· ≠ pair)))

/-- Up to the turn of a pair the walk has invoked what stands before it. -/
theorem invokeHandlers_before {toInvoke : List FdAndMode} (nodup : toInvoke.Nodup)
    (none : w.calls = []) (pair : FdAndMode) :
    (invokeHandlers behave (toInvoke.takeWhile (· ≠ pair)) w).calls =
      (invokeHandlers behave toInvoke w).calls.filter
        (·.pair ∈ toInvoke.takeWhile (· ≠ pair)) := by
  have split := List.takeWhile_append_dropWhile (p := (· ≠ pair)) (l := toInvoke)
  generalize toInvoke.takeWhile (· ≠ pair) = before at split ⊢
  generalize toInvoke.dropWhile (· ≠ pair) = later at split
  subst split
  rw [invokeHandlers_append]
  obtain ⟨first, calls, here⟩ := invokeHandlers_calls behave before w
  obtain ⟨more, calls', there⟩ := invokeHandlers_calls behave later
    (invokeHandlers behave before w)
  rw [none, List.nil_append] at calls
  rw [calls', calls, List.filter_append, List.filter_eq_self.mpr, List.filter_eq_nil_iff.mpr,
    List.append_nil]
  · intro call member
    have behind := there.subset (List.mem_map_of_mem member)
    rw [decide_eq_true_eq]
    exact fun before => (List.nodup_append.mp nodup).2.2 _ before _ behind rfl
  · intro call member
    exact decide_eq_true (here.subset (List.mem_map_of_mem member))

theorem invoked_iff {listed : List FdAndMode} (nodup : listed.Nodup) (none : w.calls = [])
    (traced : Traced behave start w) (running : start.stopFlag = false) (handler : H) :
    Invoked (invokeHandlers behave listed w).calls pair handler ↔ pair ∈ listed ∧
      ((actedBefore listed (invokeHandlers behave listed w).calls pair).foldl
        Act.apply start).map pair = some handler ∧
      .stop ∉ actedBefore listed (invokeHandlers behave listed w).calls pair := by
  have before := (traced.invokeHandlers (listed.takeWhile (· ≠ pair))).reactor
  rw [invokeHandlers_before behave nodup none] at before
  change _ = (actedBefore listed _ pair).foldl Act.apply start at before
  have flag := foldl_stopFlag (actedBefore listed (invokeHandlers behave listed w).calls pair) start
  rw [running, ← Bool.not_eq_false, not_iff_comm] at flag
  simp only [Bool.false_eq_true, false_or] at flag
  rw [invoked_invokeHandlers behave nodup]
  simp only [before, ← flag, Invoked, none, List.not_mem_nil, false_and, exists_false, false_or]
  exact and_congr_right fun _ => and_comm

end walk

/-- A round that leads from `s` to `t`: each pair is invoked at most once, exactly if it was
registered and reported ready, and after what the handlers before it have done is registered
still and `Stop` not called; the handler is the one that is registered then. -/
structure Exact (left : ModeType → FdSet) (behave : Behaviour H) (s : Loop H)
    (listed : List FdAndMode) (calls : List (Invocation H)) (t : Loop H) : Prop where
  once : (calls.map Invocation.pair).Nodup
  invoked : ∀ pair handler, Invoked calls pair handler ↔
    ((s.reactor.map pair).isSome ∧ pair.fd ∈ left pair.mode) ∧
      ((actedBefore listed calls pair).foldl Act.apply s.reactor).map pair = some handler ∧
      .stop ∉ actedBefore listed calls pair
  order : (calls.map Invocation.pair).Sublist listed
  acts : ∀ before call after, calls = before ++ call :: after →
    call.acts = behave before call.pair call.handler ((acted before).foldl Act.apply s.reactor)
  reactor : t.reactor = (acted calls).foldl Act.apply s.reactor
  cleared : t.toInvoke = []

/-- `Run` makes exact rounds, whatever `select` reports and whatever the handlers do. -/
theorem round_exact (rounds : Run Loop.Step ⟨start, []⟩ tr s)
    (running : s.reactor.stopFlag = false) (order : List FdAndMode)
    (enumerates : Enumerates s.reactor.map order)
    (fds : ∀ pair, (s.reactor.map pair).isSome →
      0 ≤ pair.fd.toInt ∧ pair.fd.toInt < fdSetSize) :
    ∃ listener, setArgs order = some listener ∧
      (∀ pair, pair.fd ∈ listener.sets pair.mode ∧ pair.fd < listener.maxFd ↔
        (s.reactor.map pair).isSome) ∧
      ∀ left ready, Selects listener left ready → ∀ behave : Behaviour H,
        Exact left behave s (s.createList order left ready).toInvoke
          (s.walk order left ready behave).calls (s.round order left ready behave) := by
  have none : s.toInvoke = [] :=
    rounds.invariant (P := fun s => s.toInvoke = []) Loop.Step.toInvoke rfl
  have inRange : InRange order := fun pair member => fds pair ((enumerates.mem_iff pair).mp member)
  obtain ⟨listener, set, watched⟩ := setArgs_watches inRange
  refine ⟨listener, set, fun pair => (watched pair).trans (enumerates.mem_iff pair), ?_⟩
  intro left ready selects behave
  obtain ⟨nodup, mem_listed⟩ := createList_exact enumerates watched selects
  rw [← none] at nodup mem_listed
  have traced : Traced behave s.reactor { s.createList order left ready with calls := [] } :=
    ⟨rfl, by simp⟩
  have walked := traced.invokeHandlers (s.createList order left ready).toInvoke
  obtain ⟨calls, whole, within⟩ : ∃ calls, (s.walk order left ready behave).calls = [] ++ calls ∧ _ :=
    invokeHandlers_calls behave _ _
  rw [List.nil_append] at whole
  rw [← whole] at within
  refine ⟨nodup.sublist within, fun pair handler => ?_, within, walked.acts, walked.reactor, rfl⟩
  rw [← mem_listed]
  exact invoked_iff behave nodup rfl traced running handler

def watched : Reactor Nat :=
  { (new.add 3 .read 0).add 4 .read 1 with stopFlag := false }

def removesOther : Behaviour Nat := fun _ _ handler _ =>
  if handler = 1 then [.remove 3 .read, .add 5 .read 2] else [.stop]

/-- `select` reports both, and the handler of the other is not invoked. -/
theorem round_exact_watched :
    let order := [⟨3, .read⟩, ⟨4, .read⟩]
    let left : ModeType → FdSet := fun mode => if mode = .read then {3, 4} else ∅
    let s : Loop Nat := ⟨watched, []⟩
    let calls := (s.walk order left 2 removesOther).calls
    Exact left removesOther s (s.createList order left 2).toInvoke calls
        (s.round order left 2 removesOther) ∧
      calls = [⟨⟨4, .read⟩, 1, [.remove 3 .read, .add 5 .read 2]⟩] := by
  intro order left s calls
  have enumerates : Enumerates watched.map order := by
    refine ⟨by decide, fun pair => ?_⟩
    simp only [watched, new, Reactor.add, Function.update_apply]
    split
    · simp [order, *]
    · split <;> simp [order, *]
  have inRange (pair : FdAndMode) (registered : (watched.map pair).isSome) :
      0 ≤ pair.fd.toInt ∧ pair.fd.toInt < fdSetSize := by
    have member := (enumerates.mem_iff pair).mpr registered
    simp only [order, List.mem_cons, List.not_mem_nil, or_false] at member
    obtain rfl | rfl := member <;> decide
  obtain ⟨listener, set, watches, exact⟩ :=
    round_exact (.refl s) rfl order enumerates inRange
  have selects : Selects listener left 2 := by
    refine ⟨fun mode fd set => (watches ⟨fd, mode⟩).mpr ?_, by decide⟩
    rw [← enumerates.mem_iff]
    cases mode with
    | read =>
      simp only [left, if_true, Finset.mem_insert, Finset.mem_singleton] at set
      obtain rfl | rfl := set <;> simp [order]
    | write | exception => exact absurd set (Finset.notMem_empty fd)
  exact ⟨exact left 2 selects removesOther, by rfl⟩

/-- The thread in `Run` moves, or the handler that it is in does something. -/
inductive Moves (r : Reactor H) : Event H ⊕ Act H → Reactor H → Prop where
  | advances : Advance r e r' → Moves r (.inl e) r'
  | acts (act : Act H) : r.thread = .call handler rest → Moves r (.inr act) (act.apply r)

def placed (r : Reactor H) (point : Point H) : Reactor H := { r with thread := point }

theorem Act.apply_placed (act : Act H) (r : Reactor H) (point : Point H) :
    act.apply (r.placed point) = (act.apply r).placed point := by
  cases act with
  | add | stop => rfl
  | remove fd mode =>
    simp only [Act.apply, Reactor.remove, Reactor.placed]
    cases r.map ⟨fd, mode⟩ with
    | none | some => rfl

theorem Moves.invokes (r : Reactor H) (toInvoke : List FdAndMode) :
    Moves (r.placed (.invoke toInvoke)) (.inl .invokes)
      (r.placed (if r.stopFlag then .loop else .next toInvoke)) :=
  .advances (.invokes rfl)

theorem Moves.finds (r : Reactor H) (pair : FdAndMode) (rest : List FdAndMode) :
    Moves (r.placed (.find pair rest)) (.inl .finds)
      (r.placed ((r.map pair).elim (.invoke rest) (.call · rest))) :=
  .advances (.finds rfl)

theorem acts_run (acts : List (Act H)) (r : Reactor H) (handler : H) (rest : List FdAndMode) :
    Run Moves (r.placed (.call handler rest)) (acts.map .inr)
      ((acts.foldl Act.apply r).placed (.call handler rest)) := by
  induction acts generalizing r with
  | nil => exact .refl _
  | cons act more ih =>
    have head := Moves.acts (r := r.placed (.call handler rest)) act rfl
    rw [act.apply_placed] at head
    exact .next head (ih _)

def called (tr : List (Event H ⊕ Act H)) : List H :=
  tr.filterMap fun | .inl (.calls handler) => some handler | _ => none

/-- The thread of the reactor takes the steps of the walk, and calls what that calls. -/
theorem walk_run (behave : Behaviour H) (toInvoke : List FdAndMode) (w : Walk H) :
    ∃ tr, Run Moves (w.reactor.placed (.invoke toInvoke)) tr
        ((invokeHandlers behave toInvoke w).reactor.placed .loop) ∧
      (invokeHandlers behave toInvoke w).calls.map Invocation.handler =
        w.calls.map Invocation.handler ++ called tr := by
  induction toInvoke generalizing w with
  | nil =>
    have enters := Moves.invokes w.reactor []
    rw [Point.next, ite_self] at enters
    exact ⟨_, .single enters, (List.append_nil _).symm⟩
  | cons pair rest ih =>
    have enters := Moves.invokes w.reactor (pair :: rest)
    cases flag : w.reactor.stopFlag with
    | true =>
      rw [if_pos flag] at enters
      rw [invokeHandlers_stopped behave flag]
      exact ⟨_, .single enters, (List.append_nil _).symm⟩
    | false =>
      rw [if_neg (Bool.eq_false_iff.mp flag)] at enters
      rw [invokeHandlers_cons behave flag]
      have finds := Moves.finds w.reactor pair rest
      obtain ⟨tr, run, calls⟩ := ih (w.turn behave pair)
      cases found : w.reactor.map pair with
      | none =>
        have stays : w.turn behave pair = w := by rw [Walk.turn, found]
        rw [found] at finds
        rw [stays] at run calls ⊢
        exact ⟨_, .next enters <| .next finds run, calls⟩
      | some handler =>
        let acts := behave w.calls pair handler w.reactor
        have goes : w.turn behave pair = { w with
            reactor := acts.foldl Act.apply w.reactor
            calls := w.calls ++ [⟨pair, handler, acts⟩] } := by rw [Walk.turn, found]
        rw [found] at finds
        rw [goes] at run calls ⊢
        have inside := acts_run acts w.reactor handler rest
        refine ⟨_, .next enters <| .next finds <|
          inside.trans <| .next (.advances (.calls rfl)) run, ?_⟩
        rw [calls]
        simp [called, List.filterMap_map]

/-- A round is a run of the thread from `SetArgs` back to the test of its loop. -/
theorem round_run {s : Loop H} (none : s.toInvoke = []) (order : List FdAndMode)
    (enumerates : Enumerates s.reactor.map order)
    (watched : ∀ pair, pair.fd ∈ listener.sets pair.mode ∧ pair.fd < listener.maxFd ↔
      pair ∈ order) (selects : Selects listener left ready) (behave : Behaviour H) :
    ∃ tr, Run Moves (s.reactor.placed .setArgs) tr
        ((s.round order left ready behave).reactor.placed .loop) ∧
      (s.walk order left ready behave).calls.map Invocation.handler = called tr := by
  obtain ⟨nodup, listed⟩ := createList_exact enumerates watched selects
  rw [← none] at nodup listed
  obtain ⟨tr, run, calls⟩ := walk_run behave (s.createList order left ready).toInvoke
    { s.createList order left ready with calls := [] }
  have reports : Advance (s.reactor.placed (.select fun pair => (s.reactor.map pair).isSome))
      (.selects (s.createList order left ready).toInvoke)
      (s.reactor.placed (.invoke (s.createList order left ready).toInvoke)) := by
    refine .selects _ rfl nodup fun pair member => ?_
    have registered := ((listed pair).mp member).1
    exact ⟨registered, registered⟩
  exact ⟨_, .next (.advances (.setsArgs rfl)) <| .next (.advances reports) run, calls⟩

end Reactor
end DistributedDisk
