import DistributedDisk.Core.Progress
import DistributedDisk.DirMonitor.Records

/-! `StopMonitor`, while the monitor thread reads and broadcasts and files come and go in the
directory. The file `dummy_die` ends a `read` that no other event would end. -/
namespace DistributedDisk
open Transition

namespace DirMonitor

/-- What the monitor thread does next. The records in its buffer are behind `ptr`. -/
inductive Point where
  | tests
  | reads
  | walks (records : List Record)
  | casts (r : Record) (records : List Record)
  | returned

/-- What `StopMonitor` does next; `made` tells whether `dummy_die` could be created. -/
inductive Stopper where
  | idle
  | stores
  | creates
  | joins (made : Bool)
  | removes
  | returned

/-- The records that the kernel queues for a change are `added`; what a look at `m_flag`
finds is `found`. -/
inductive Event where
  | changes (added : List Record)
  | tests (found : State)
  | reads (records : List Record)
  | looks (found : State)
  | casts (r : Record)
  | ends
  | begins
  | stores
  | creates (added : Option (List Record))
  | joins
  | removes

end DirMonitor

structure DirMonitor where
  flag : DirMonitor.State
  queue : List DirMonitor.Record
  point : DirMonitor.Point
  broadcasts : List DirMonitor.Record
  stopper : DirMonitor.Stopper

namespace DirMonitor

def start : DirMonitor where
  flag := .run
  queue := []
  point := .tests
  broadcasts := []
  stopper := .idle

/-- The kernel queues a record, unless the last one that waits is the same. -/
inductive Adds (queue : List Record) : List Record → Prop where
  | queues (r : Record) : r.image.length ≤ eventBufLen → Adds queue [r]
  | coalesces : queue.getLast? = some r → Adds queue []

/-- A `read` takes some of the records that wait, as many as the buffer holds. -/
inductive Step (s : DirMonitor) : Event → DirMonitor → Prop where
  | changes : Adds s.queue added → Step s (.changes added) { s with queue := s.queue ++ added }
  | tests : s.point = .tests →
      Step s (.tests s.flag) { s with point := if s.flag = .stop then .returned else .reads }
  | reads (records rest : List Record) : s.point = .reads → s.queue = records ++ rest →
      records ≠ [] → (packed records).length ≤ eventBufLen →
      Step s (.reads records) { s with queue := rest, point := .walks records }
  | looks : s.point = .walks (r :: records) →
      Step s (.looks s.flag)
        { s with point := if s.flag = .stop then .tests else .casts r records }
  | casts : s.point = .casts r records →
      Step s (.casts r) { s with point := .walks records, broadcasts := s.broadcasts ++ [r] }
  | ends : s.point = .walks [] → Step s .ends { s with point := .tests }
  | begins : s.stopper = .idle → Step s .begins { s with stopper := .stores }
  | stores : s.stopper = .stores → Step s .stores { s with flag := .stop, stopper := .creates }
  | creates : s.stopper = .creates → Adds s.queue added →
      Step s (.creates (some added))
        { s with queue := s.queue ++ added, stopper := .joins true }
  | createsNot : s.stopper = .creates →
      Step s (.creates none) { s with stopper := .joins false }
  | joins : s.stopper = .joins made → s.point = .returned →
      Step s .joins { s with stopper := .removes }
  | removes : s.stopper = .removes → Step s .removes { s with stopper := .returned }

/-- What others do to the directory, and the call of `StopMonitor`. -/
def Event.outside : Event → Bool
  | .changes _ | .begins => true
  | _ => false

def Event.added : Event → List Record
  | .changes added | .creates (some added) => added
  | _ => []

/-- The records that the kernel has queued. -/
def arrived (tr : List Event) : List Record := tr.flatMap Event.added

@[simp] theorem arrived_append (tr : List Event) (e : Event) :
    arrived (tr ++ [e]) = arrived tr ++ e.added := by simp [arrived]

/-- The record whose look at the flag is over. -/
def Point.inHand : Point → List Record
  | .casts r _ => [r]
  | _ => []

def Point.left : Point → List Record
  | .casts r records => r :: records
  | .walks records => records
  | _ => []

/-- The thread finds the flag set before it reads again. -/
def Point.leaves : Point → Prop
  | .tests | .returned => True
  | _ => False

variable {s t u v : DirMonitor} {tr tr' : List Event}

/-- The records are broadcast in the order in which they came; those behind the last look at
the flag are dropped. -/
def Passes (tr : List Event) (s : DirMonitor) : Prop :=
  ∃ skipped, s.broadcasts ++ skipped ++ s.queue = arrived tr ∧
    (skipped = s.point.left ∨ s.flag = .stop ∧ s.point.leaves)

/-- A step that neither queues nor broadcasts. -/
theorem Passes.keep (passes : Passes tr s) (added : e.added = []) (queue : t.queue = s.queue)
    (broadcasts : t.broadcasts = s.broadcasts)
    (left : s.point.left = t.point.left ∨ t.flag = .stop ∧ t.point.leaves)
    (stays : s.flag = .stop → s.point.leaves → t.flag = .stop ∧ t.point.leaves) :
    Passes (tr ++ [e]) t := by
  obtain ⟨skipped, all, before⟩ := passes
  refine ⟨skipped, ?_, ?_⟩
  · rw [arrived_append, added, List.append_nil, queue, broadcasts, all]
  · obtain rfl | ⟨flag, leaves⟩ := before
    · exact left
    · exact .inr (stays flag leaves)

theorem Passes.step (passes : Passes tr s) (step : Step s e t) : Passes (tr ++ [e]) t := by
  cases step with
  | changes | creates =>
    obtain ⟨skipped, all, left⟩ := passes
    refine ⟨skipped, ?_, left⟩
    rw [arrived_append, ← all, ← List.append_assoc]
    rfl
  | begins | createsNot | joins | removes =>
    exact passes.keep rfl rfl rfl (.inl rfl) fun flag leaves => ⟨flag, leaves⟩
  | stores => exact passes.keep rfl rfl rfl (.inl rfl) fun _ leaves => ⟨rfl, leaves⟩
  | tests here =>
    refine passes.keep rfl rfl rfl ?_ ?_
    · left
      rw [here]
      split <;> rfl
    · intro flag _
      exact ⟨flag, by rw [if_pos flag]; trivial⟩
  | ends here =>
    exact passes.keep rfl rfl rfl (.inl (by rw [here]; rfl)) fun flag _ => ⟨flag, trivial⟩
  | looks here =>
    refine passes.keep rfl rfl rfl ?_ ?_
    · by_cases flag : s.flag = .stop
      · right
        rw [if_pos flag]
        exact ⟨flag, trivial⟩
      · left
        rw [here, if_neg flag]
        rfl
    · intro _ leaves
      rw [here] at leaves
      cases leaves
  | reads records rest here split =>
    obtain ⟨skipped, all, left⟩ := passes
    rw [here] at left
    obtain rfl | ⟨_, leaves⟩ := left
    · refine ⟨records, ?_, .inl rfl⟩
      rw [arrived_append, ← all, split]
      simp [Event.added, Point.left]
    · cases leaves
  | @casts r records here =>
    obtain ⟨skipped, all, left⟩ := passes
    rw [here] at left
    obtain rfl | ⟨_, leaves⟩ := left
    · refine ⟨records, ?_, .inl rfl⟩
      rw [arrived_append, ← all]
      simp [Event.added, Point.left]
    · cases leaves

theorem passes (run : Run Step start tr s) : Passes tr s :=
  run.history ⟨[], rfl, .inl rfl⟩ fun passes step => passes.step step

theorem Passes.broadcasts_arrived (passes : Passes tr s) : s.broadcasts ++ s.point.inHand <+: arrived tr := by
  obtain ⟨skipped, all, left⟩ := passes
  rw [← all]
  obtain rfl | ⟨_, leaves⟩ := left
  · rw [List.append_assoc, List.prefix_append_right_inj]
    cases s.point with
    | casts r records => exact ⟨records ++ s.queue, rfl⟩
    | tests | reads | walks | returned => exact List.nil_prefix
  · have none : s.point.inHand = [] := by
      cases point : s.point with
      | casts => simp [point, Point.leaves] at leaves
      | tests | reads | walks | returned => rfl
    rw [none, List.append_nil, List.append_assoc]
    exact List.prefix_append ..

/-- Once the flag is set, only the record in hand is broadcast. -/
theorem Step.settled (step : Step s e t) (flag : s.flag = .stop) : t.flag = .stop ∧
    t.broadcasts ++ t.point.inHand = s.broadcasts ++ s.point.inHand := by
  cases step with
  | changes | begins | createsNot | joins | removes | creates => exact ⟨flag, rfl⟩
  | stores => exact ⟨rfl, rfl⟩
  | tests here | looks here =>
    rw [if_pos flag, here]
    exact ⟨flag, rfl⟩
  | ends here | reads _ _ here =>
    rw [here]
    exact ⟨flag, rfl⟩
  | casts here =>
    rw [here]
    exact ⟨flag, List.append_nil _⟩

/-- What the stop relies on: once the flag is set no read begins, and where `dummy_die` could
be created, a read that has begun finds it or what was queued before. -/
structure Settling (s : DirMonitor) : Prop where
  fits : ∀ r ∈ s.queue, r.image.length ≤ eventBufLen
  flag : s.flag = .stop ↔ s.stopper ≠ .idle ∧ s.stopper ≠ .stores
  made : s.stopper = .joins true → s.point = .reads → s.queue ≠ []

theorem Adds.fits (adds : Adds s.queue added)
    (fits : ∀ r ∈ s.queue, r.image.length ≤ eventBufLen) :
    (∀ r ∈ s.queue ++ added, r.image.length ≤ eventBufLen) ∧ s.queue ++ added ≠ [] := by
  cases adds with
  | queues r room =>
    refine ⟨fun other member => ?_, by simp⟩
    obtain old | new := List.mem_append.mp member
    · exact fits other old
    · exact List.mem_singleton.mp new ▸ room
  | coalesces last =>
    rw [List.append_nil]
    refine ⟨fits, fun none => ?_⟩
    rw [none] at last
    cases last

theorem Settling.step (settling : Settling s) (step : Step s e t) : Settling t := by
  obtain ⟨fits, flag, made⟩ := settling
  cases step with
  | changes adds =>
    obtain ⟨fits, some⟩ := adds.fits fits
    exact ⟨fits, flag, fun _ _ => some⟩
  | creates here adds =>
    obtain ⟨fits, some⟩ := adds.fits fits
    exact ⟨fits, iff_of_true (flag.mpr (by rw [here]; exact ⟨nofun, nofun⟩)) ⟨nofun, nofun⟩,
      fun _ _ => some⟩
  | tests here =>
    refine ⟨fits, flag, fun joins reads => ?_⟩
    rw [if_pos (flag.mpr (by rw [joins]; exact ⟨nofun, nofun⟩))] at reads
    cases reads
  | reads records rest here split =>
    refine ⟨fun r member => fits r ?_, flag, fun _ => nofun⟩
    rw [split]
    exact List.mem_append_right _ member
  | looks here =>
    refine ⟨fits, flag, fun _ reads => ?_⟩
    split at reads <;> cases reads
  | casts | ends => exact ⟨fits, flag, fun _ => nofun⟩
  | begins here =>
    have running := mt flag.mp fun started => started.1 here
    exact ⟨fits, iff_of_false running fun started => started.2 rfl, nofun⟩
  | stores => exact ⟨fits, iff_of_true rfl ⟨nofun, nofun⟩, nofun⟩
  | createsNot here | joins here | removes here =>
    exact ⟨fits, iff_of_true (flag.mpr (by rw [here]; exact ⟨nofun, nofun⟩)) ⟨nofun, nofun⟩, nofun⟩

theorem Settling.initial : Settling start :=
  ⟨nofun, iff_of_false nofun fun started => started.1 rfl, nofun⟩

/-- Where nothing more happens by itself, `StopMonitor` has returned or waits for a thread
whose `read` nothing will end. -/
theorem Settling.quiet (settling : Settling s) (quiet : Quiet Event.outside Step s)
    (started : s.stopper ≠ .idle) : s.stopper = .returned ∨
      s.stopper = .joins false ∧ s.point = .reads ∧ s.queue = [] := by
  have moves {e t} (step : Step s e t) (own : e.outside = false) : False := by
    have other := quiet e t step
    rw [own] at other
    cases other
  cases stopper : s.stopper with
  | idle => exact absurd stopper started
  | stores => exact (moves (.stores stopper) rfl).elim
  | creates => exact (moves (.createsNot stopper) rfl).elim
  | removes => exact (moves (.removes stopper) rfl).elim
  | returned => exact .inl rfl
  | joins made =>
    cases point : s.point with
    | tests => exact (moves (.tests point) rfl).elim
    | returned => exact (moves (.joins stopper point) rfl).elim
    | casts => exact (moves (.casts point) rfl).elim
    | walks records =>
      cases records with
      | nil => exact (moves (.ends point) rfl).elim
      | cons => exact (moves (.looks point) rfl).elim
    | reads =>
      cases queue : s.queue with
      | cons r rest =>
        have room : (packed [r]).length ≤ eventBufLen := by
          have fits := settling.fits r (by rw [queue]; exact List.mem_cons_self)
          simpa [packed] using fits
        exact (moves (.reads [r] rest point queue (List.cons_ne_nil r []) room) rfl).elim
      | nil =>
        cases made with
        | true => exact absurd queue (settling.made stopper point)
        | false => exact .inr ⟨rfl, rfl, rfl⟩

/-- What the monitor thread does at most before it waits or returns. -/
def Point.effort : Point → Nat
  | .tests => 1
  | .reads | .returned => 0
  | .walks records => 2 * records.length + 2
  | .casts _ records => 2 * records.length + 3

def Stopper.effort : Stopper → Nat
  | .idle | .returned => 0
  | .stores => 9
  | .creates => 8
  | .joins _ => 2
  | .removes => 1

def effort (s : DirMonitor) : Nat := 5 * s.queue.length + s.point.effort + s.stopper.effort

theorem Adds.length_le (adds : Adds s.queue added) : added.length ≤ 1 := by
  cases adds with
  | queues => exact Nat.le_refl _
  | coalesces => exact Nat.zero_le _

theorem descends (s : DirMonitor) : Descends Event.outside 9 effort Step s := by
  constructor
  · intro e t step own
    cases step with
    | changes | begins => cases own
    | tests here =>
      simp only [effort, here]
      split
      all_goals
        simp only [Point.effort]
        omega
    | looks here =>
      simp only [effort, here]
      split
      all_goals
        simp only [Point.effort, List.length_cons]
        omega
    | reads records rest here split some =>
      have count := List.length_pos_of_ne_nil some
      simp only [effort, here, split, Point.effort, List.length_append]
      omega
    | casts here | ends here =>
      simp only [effort, here, Point.effort, List.length_nil]
      omega
    | creates here adds =>
      have most := adds.length_le
      simp only [effort, here, Stopper.effort, List.length_append]
      omega
    | stores here | createsNot here | joins here | removes here =>
      simp only [effort, here, Stopper.effort]
      omega
  · intro e t step other
    cases step with
    | tests | reads | looks | casts | ends | stores | creates | createsNot | joins | removes =>
      cases other
    | changes adds =>
      have most := adds.length_le
      simp only [effort, List.length_append]
      omega
    | begins here =>
      simp only [effort, here, Stopper.effort]
      omega

/-- `dummy_die`, as the kernel reports that it was created. -/
def dummyDie : Record :=
  ⟨⟨1, 0x100, 0, 16⟩, [100, 117, 109, 109, 121, 95, 100, 105, 101], by simp, by simp⟩

/-- The flag is set while the thread has the record of a file in its hand. -/
theorem stopped_in_hand : ∃ tr tr' u v s, Run Step start tr u ∧ Step u .stores v ∧
    Run Step v tr' s ∧ s.stopper = .returned ∧ s.point = .returned ∧ s.queue = [dummyDie] ∧
    s.broadcasts = created.take 1 :=
  ⟨[.tests .run, .changes (created.take 1), .reads (created.take 1), .looks .run, .begins],
    [.creates (some [dummyDie]), .casts _, .ends, .tests .stop, .joins, .removes], _, _, _,
    .next (.tests rfl) <| .next (.changes (.queues _ (by decide))) <|
    .next (.reads (created.take 1) [] rfl rfl nofun (by decide)) <|
    .next (.looks rfl) <| .single (.begins rfl),
    .stores rfl,
    .next (.creates rfl (.queues _ (by decide))) <| .next (.casts rfl) <| .next (.ends rfl) <|
    .next (.tests rfl) <| .next (.joins rfl rfl) <| .single (.removes rfl),
    rfl, rfl, rfl, rfl⟩

def Event.finds : Event → Option State
  | .tests found | .looks found => some found
  | _ => none

def Event.batch : Event → Option (List UInt8)
  | .reads records => some (packed records)
  | _ => none

def Event.record : Event → Option Record
  | .casts r => some r
  | _ => none

/-- What the looks at the flag found, what the reads brought, and what was broadcast. -/
def found (tr : List Event) : List State := tr.filterMap Event.finds

def batches (tr : List Event) : List (List UInt8) := tr.filterMap Event.batch

def cast (tr : List Event) : List Record := tr.filterMap Event.record

/-- The looks of a run, from number `looks` on. -/
def Agrees (flag : Nat → State) (looks : Nat) (tr : List Event) : Prop :=
  ∀ i found', (found tr)[i]? = some found' → flag (looks + i) = found'

/-- How `Monitor` goes on from where the thread is, when it finds, reads and broadcasts what
the thread does in the rest of its run. -/
def Answers (flag : Nat → State) (tr : List Event) : Point → Prop
  | .tests => ∀ looks sent, Agrees flag looks tr → ∃ events,
      List.Forall₂ Describes (cast tr) events ∧
      monitor flag (batches tr) looks sent = (.returned, sent ++ events)
  | .reads => ∀ looks sent, flag looks = .run → Agrees flag (looks + 1) tr → ∃ events,
      List.Forall₂ Describes (cast tr) events ∧
      monitor flag (batches tr) looks sent = (.returned, sent ++ events)
  | .walks records => ∀ before rest w, w.ptr = before.length → Agrees flag w.looks tr →
      ∃ events w', List.Forall₂ Describes (cast tr) events ∧
      walk flag (before ++ (packed records ++ rest)) (before.length + (packed records).length) w =
        some w' ∧
      monitor flag (batches tr) w'.looks w'.broadcasts = (.returned, w.broadcasts ++ events)
  | .casts r records => ∀ before rest w, w.ptr = before.length → flag w.looks = .run →
      Agrees flag (w.looks + 1) tr →
      ∃ events w', List.Forall₂ Describes (cast tr) events ∧
      walk flag (before ++ (packed (r :: records) ++ rest))
        (before.length + (packed (r :: records)).length) w = some w' ∧
      monitor flag (batches tr) w'.looks w'.broadcasts = (.returned, w.broadcasts ++ events)
  | .returned => cast tr = []

variable {flag : Nat → State}

theorem Agrees.finds (agrees : Agrees flag looks (e :: tr)) (finds : e.finds = some found') :
    flag looks = found' ∧ Agrees flag (looks + 1) tr := by
  have all : found (e :: tr) = found' :: found tr := List.filterMap_cons_some finds
  constructor
  · exact agrees 0 found' (by rw [all]; rfl)
  · intro i found'' there
    rw [Nat.add_right_comm]
    exact agrees (i + 1) found'' (by rw [all]; exact there)

theorem Agrees.silent (agrees : Agrees flag looks (e :: tr)) (silent : e.finds = none) :
    Agrees flag looks tr := by
  have all : found (e :: tr) = found tr := List.filterMap_cons_none silent
  intro i found' there
  exact agrees i found' (all ▸ there)

theorem Answers.tests {found' : State}
    (answers : Answers flag tr (if found' = .stop then .returned else .reads)) :
    Answers flag (.tests found' :: tr) .tests := by
  intro looks sent agrees
  obtain ⟨here, later⟩ := agrees.finds rfl
  cases found' with
  | run => exact answers looks sent here later
  | stop =>
    have none : cast tr = [] := answers
    refine ⟨[], none ▸ .nil, ?_⟩
    rw [List.append_nil]
    exact monitor_stopped here _ sent

theorem Answers.reads (some : records ≠ []) (room : (packed records).length ≤ eventBufLen)
    (answers : Answers flag tr (.walks records)) : Answers flag (.reads records :: tr) .reads := by
  intro looks sent running agrees
  obtain ⟨events, w, describes, walks, ends⟩ := answers []
    (List.replicate (eventBufLen - (packed records).length) 0) ⟨0, looks + 1, sent⟩ rfl
    (agrees.silent rfl)
  rw [List.nil_append, ← received_packed room, List.length_nil, Nat.zero_add] at walks
  exact ⟨events, describes, (monitor_read running (packed_pos some) walks _).trans ends⟩

theorem Answers.ends (answers : Answers flag tr .tests) : Answers flag (.ends :: tr) (.walks []) := by
  intro before rest w here agrees
  obtain ⟨events, describes, ends⟩ := answers w.looks w.broadcasts (agrees.silent rfl)
  exact ⟨events, w, describes, walk_end (by rw [here]; exact Nat.le_refl _), ends⟩

theorem Answers.looks {r : Record} {found' : State}
    (answers : Answers flag tr (if found' = .stop then .tests else .casts r records)) :
    Answers flag (.looks found' :: tr) (.walks (r :: records)) := by
  intro before rest w here agrees
  obtain ⟨look, later⟩ := agrees.finds rfl
  cases found' with
  | run => exact answers before rest w here look later
  | stop =>
    obtain ⟨events, describes, ends⟩ := answers (w.looks + 1) w.broadcasts later
    refine ⟨events, { w with looks := w.looks + 1 }, describes, walk_stopped ?_ look, ends⟩
    rw [here]
    exact Nat.lt_add_of_pos_right (packed_pos nofun)

theorem Answers.casts {r : Record} (answers : Answers flag tr (.walks records)) :
    Answers flag (.casts r :: tr) (.casts r records) := by
  intro before rest w here running agrees
  have inside : w.ptr < before.length + (packed (r :: records)).length := by
    rw [here]
    exact Nat.lt_add_of_pos_right (packed_pos nofun)
  obtain ⟨event, describes, turn⟩ := walk_record r (packed records ++ rest) running inside here
  obtain ⟨events, w', more, walks, ends⟩ := answers (before ++ r.image) rest
    ⟨w.ptr + r.image.length, w.looks + 1, w.broadcasts ++ [event]⟩
    (by rw [List.length_append, here]) (agrees.silent rfl)
  have size : (before ++ r.image).length + (packed records).length =
      before.length + (packed (r :: records)).length := by
    simp [packed, Nat.add_assoc]
  have buffer : before ++ r.image ++ (packed records ++ rest) =
      before ++ (packed (r :: records) ++ rest) := by simp [packed]
  refine ⟨event :: events, w', .cons describes more, ?_, ?_⟩
  · rw [size, buffer] at walks
    rw [← walks, ← buffer, List.append_assoc before]
    exact turn
  · refine ends.trans ?_
    rw [List.append_assoc]
    rfl

/-- A step of another thread, or of the kernel. -/
theorem Answers.silent {p : Point} (answers : Answers flag tr p) (finds : e.finds = none)
    (batch : e.batch = none) (record : e.record = none) : Answers flag (e :: tr) p := by
  have cast_eq : cast (e :: tr) = cast tr := List.filterMap_cons_none record
  have batches_eq : batches (e :: tr) = batches tr := List.filterMap_cons_none batch
  have agrees {looks} (agrees : Agrees flag looks (e :: tr)) : Agrees flag looks tr :=
    agrees.silent finds
  cases p with
  | returned => exact cast_eq.trans answers
  | tests =>
    intro looks sent here
    rw [cast_eq, batches_eq]
    exact answers looks sent (agrees here)
  | reads =>
    intro looks sent running here
    rw [cast_eq, batches_eq]
    exact answers looks sent running (agrees here)
  | walks =>
    intro before rest w place here
    rw [cast_eq, batches_eq]
    exact answers before rest w place (agrees here)
  | casts =>
    intro before rest w place running here
    rw [cast_eq, batches_eq]
    exact answers before rest w place running (agrees here)

theorem answers (run : Run Step s tr t) (returned : t.point = .returned) :
    Answers flag tr s.point := by
  induction run with
  | refl =>
    rw [returned]
    rfl
  | next head _ ih =>
    have rest := ih returned
    cases head with
    | changes | begins | stores | creates | createsNot | joins | removes =>
      exact rest.silent rfl rfl rfl
    | tests here => exact here ▸ rest.tests
    | reads _ _ here _ some room => exact here ▸ rest.reads some room
    | looks here => exact here ▸ rest.looks
    | casts here => exact here ▸ rest.casts
    | ends here => exact here ▸ rest.ends

theorem broadcasts_eq (run : Run Step start tr s) : s.broadcasts = cast tr := by
  apply run.history (P := fun tr s => s.broadcasts = cast tr) rfl
  intro tr s e t same step
  have more : cast (tr ++ [e]) = cast tr ++ e.record.toList := filterMap_concat ..
  rw [more, ← same]
  cases step with
  | casts => rfl
  | changes | tests | reads | looks | ends | begins | stores | creates | createsNot | joins
  | removes => exact (List.append_nil _).symm

/-- A thread that has returned has broadcast what `Monitor` broadcasts for the bytes of its
reads, when its looks at the flag find what they found. -/
theorem monitor_runs (run : Run Step start tr s) (returned : s.point = .returned) :
    ∃ events, List.Forall₂ Describes s.broadcasts events ∧
      monitor (fun i => (found tr).getD i .stop) (batches tr) 0 [] = (.returned, events) := by
  have agrees : Agrees (fun i => (found tr).getD i .stop) 0 tr := by
    intro i found' here
    simp [here]
  obtain ⟨events, describes, ends⟩ := answers run returned 0 [] agrees
  exact ⟨events, broadcasts_eq run ▸ describes, ends⟩

/-- `dummy_die` is not broadcast. -/
theorem monitor_runs_dummyDie : ∃ tr s events, Run Step start tr s ∧ s.queue = [dummyDie] ∧
    List.Forall₂ Describes (created.take 1) events ∧
    monitor (fun i => (found tr).getD i .stop) (batches tr) 0 [] = (.returned, events) := by
  obtain ⟨tr, tr', u, v, s, before, store, after, _, returned, queue, sent⟩ := stopped_in_hand
  have run : Run Step start (tr ++ .stores :: tr') s := before.trans (.next store after)
  obtain ⟨events, describes, ends⟩ := monitor_runs run returned
  exact ⟨_, s, events, run, queue, sent ▸ describes, ends⟩

end DirMonitor
end DistributedDisk
