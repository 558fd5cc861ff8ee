import DistributedDisk.DirMonitor
import Mathlib.Algebra.Group.Nat.Defs
import Mathlib.Data.Nat.Bitwise

/-! What `Monitor` broadcasts when the kernel packs its events one behind the other, and
`m_flag` is set at any moment. -/
namespace DistributedDisk
open Packed

namespace DirMonitor

/-- An event as the kernel packs it: zeros fill the name up to `len` bytes. -/
structure Record where
  header : INotifyHeader
  name : List UInt8
  noZero : ∀ byte ∈ name, byte ≠ 0
  fits : name.length ≤ header.len.toNat

namespace Record

def padded (r : Record) : List UInt8 :=
  r.name ++ List.replicate (r.header.len.toNat - r.name.length) 0

def image (r : Record) : List UInt8 := INotifyHeader.codec.encode r.header ++ r.padded

def Has (r : Record) (bit : Nat) : Prop := r.header.mask.toNat.testBit bit

/-- `IN_CREATE` or `IN_MOVED_TO` -/
def Appears (r : Record) : Prop := r.Has 8 ∨ r.Has 7

/-- `IN_DELETE` or `IN_MOVED_FROM` -/
def Disappears (r : Record) : Prop := r.Has 9 ∨ r.Has 6

theorem padded_length (r : Record) : r.padded.length = r.header.len.toNat := by
  have fits := r.fits
  rw [padded, List.length_append, List.length_replicate]
  omega

theorem image_length (r : Record) : r.image.length = eventSize + r.header.len.toNat := by
  rw [image, List.length_append, Codec.encode_length, padded_length]
  rfl

theorem image_pos (r : Record) : 0 < r.image.length := by
  rw [image_length]
  exact Nat.lt_of_lt_of_le (by decide) (Nat.le_add_right eventSize _)

end Record

def packed (records : List Record) : List UInt8 := records.flatMap Record.image

theorem packed_append (records more : List Record) :
    packed (records ++ more) = packed records ++ packed more := List.flatMap_append

theorem packed_pos {records : List Record} (some : records ≠ []) : 0 < (packed records).length := by
  cases records with
  | nil => exact absurd rfl some
  | cons r rest =>
    rw [packed, List.flatMap_cons, List.length_append]
    exact Nat.lt_of_lt_of_le r.image_pos (Nat.le_add_right ..)

/-- What `c_str` gives to a reader that stops at the first zero. -/
def cString (text : List UInt8) : List UInt8 := text.takeWhile (· ≠ 0)

/-- The event that belongs to a record. -/
structure Describes (r : Record) (event : DirEvent) : Prop where
  add : event.eventType = .add ↔ r.Appears
  remove : event.eventType = .remove ↔ ¬ r.Appears ∧ r.Disappears
  modified : event.eventType = .modified ↔ ¬ r.Appears ∧ ¬ r.Disappears
  name : cString event.filename = r.name

theorem mask_iff (mask : UInt32) {bit : UInt32} (power : bit.toNat = 2 ^ i) :
    mask &&& bit ≠ 0 ↔ mask.toNat.testBit i := by
  rw [ne_eq, ← UInt32.toNat_inj, UInt32.toNat_and, power, Nat.and_two_pow]
  cases mask.toNat.testBit i with
  | false => simp
  | true => simp

theorem cString_padded (r : Record) : cString r.padded = r.name := by
  have nonzero : ∀ byte ∈ r.name, decide (byte ≠ 0) = true := fun byte member =>
    decide_eq_true (r.noZero byte member)
  rw [cString, Record.padded, List.takeWhile_append_of_pos nonzero]
  have zeros : (List.replicate (r.header.len.toNat - r.name.length) (0 : UInt8)).takeWhile
      (· ≠ 0) = [] := by
    cases r.header.len.toNat - r.name.length with
    | zero => rfl
    | succ => rfl
  rw [zeros, List.append_nil]

theorem new_padded (r : Record) (rest : List UInt8) (type : DirEventType) :
    DirEvent.new (r.padded ++ rest) r.header.len type = some ⟨r.padded, type⟩ := by
  have length := r.padded_length
  rw [DirEvent.new, if_pos (by rw [List.length_append]; omega), List.take_left' length]

/-- Whatever follows the record in the buffer. -/
theorem translate_record (r : Record) (rest : List UInt8) :
    ∃ event, translateINotifyToEvent { r.header with name := r.padded ++ rest } = some event ∧
      Describes r event := by
  have appears : r.header.mask &&& inCreate ≠ 0 ∨ r.header.mask &&& inMovedTo ≠ 0 ↔ r.Appears :=
    or_congr (mask_iff _ rfl) (mask_iff _ rfl)
  have disappears : r.header.mask &&& inDelete ≠ 0 ∨ r.header.mask &&& inMovedFrom ≠ 0 ↔
      r.Disappears := or_congr (mask_iff _ rfl) (mask_iff _ rfl)
  rw [translateINotifyToEvent]
  simp only [new_padded]
  by_cases added : r.Appears
  · refine ⟨⟨r.padded, .add⟩, if_pos (appears.mpr added), ?_⟩
    constructor <;> simp [added, cString_padded]
  · by_cases removed : r.Disappears
    · refine ⟨⟨r.padded, .remove⟩, ?_, ?_⟩
      · exact (if_neg (mt appears.mp added)).trans (if_pos (disappears.mpr removed))
      · constructor <;> simp [added, removed, cString_padded]
    · refine ⟨⟨r.padded, .modified⟩, ?_, ?_⟩
      · exact (if_neg (mt appears.mp added)).trans (if_neg (mt disappears.mp removed))
      · constructor <;> simp [added, removed, cString_padded]

theorem eventAt_image (before rest : List UInt8) (r : Record) :
    eventAt (before ++ (r.image ++ rest)) before.length =
      some { r.header with name := r.padded ++ rest } := by
  have size : (INotifyHeader.codec.encode r.header).length = eventSize :=
    INotifyHeader.codec.encode_length r.header
  have inside : before.length + eventSize ≤ (before ++ (r.image ++ rest)).length := by
    rw [List.length_append, List.length_append, r.image_length]
    omega
  have name : (before ++ (r.image ++ rest)).drop (before.length + eventSize) =
      r.padded ++ rest := by
    rw [← List.drop_drop, List.drop_left, Record.image, List.append_assoc, List.drop_left' size]
  rw [eventAt, if_pos inside, name, List.drop_left, Record.image, List.append_assoc,
    Codec.decode_append]

section walk
variable {flag : Nat → State} {buf before rest : List UInt8} {w : Walk}

theorem walk_stopped (inside : w.ptr < length) (stopped : flag w.looks = .stop) :
    walk flag buf length w = some { w with looks := w.looks + 1 } := by
  rw [walk, if_pos inside, if_pos stopped]

theorem walk_end (outside : length ≤ w.ptr) : walk flag buf length w = some w := by
  rw [walk, if_neg (Nat.not_lt.mpr outside)]

/-- A turn of the loop goes from one record to the next. -/
theorem walk_record (r : Record) (rest : List UInt8) (running : flag w.looks = .run) (inside : w.ptr < length)
    (here : w.ptr = before.length) :
    ∃ event, Describes r event ∧ walk flag (before ++ (r.image ++ rest)) length w =
      walk flag (before ++ (r.image ++ rest)) length
        ⟨w.ptr + r.image.length, w.looks + 1, w.broadcasts ++ [event]⟩ := by
  obtain ⟨event, translates, describes⟩ := translate_record r rest
  refine ⟨event, describes, ?_⟩
  rw [walk, if_pos inside, running, if_neg (by decide)]
  rw [here, eventAt_image, r.image_length]
  simp only [translates]

/-- The loop passes over records as long as it finds `m_flag` at `RUN`. -/
theorem walk_records (records : List Record) (rest : List UInt8)
    (running : ∀ i < records.length, flag (w.looks + i) = .run)
    (inside : w.ptr + (packed records).length ≤ length) (here : w.ptr = before.length) :
    ∃ events, List.Forall₂ Describes records events ∧
      walk flag (before ++ (packed records ++ rest)) length w =
        walk flag (before ++ (packed records ++ rest)) length
          ⟨w.ptr + (packed records).length, w.looks + records.length,
            w.broadcasts ++ events⟩ := by
  induction records generalizing w before with
  | nil => exact ⟨[], .nil, by simp [packed]⟩
  | cons r records ih =>
    have size : (packed (r :: records)).length = r.image.length + (packed records).length :=
      List.length_append
    have image := r.image_pos
    have buffer : before ++ (packed (r :: records) ++ rest) =
        before ++ (r.image ++ (packed records ++ rest)) := by
      rw [← List.append_assoc r.image]
      rfl
    have head : w.ptr < length := by omega
    obtain ⟨event, describes, turn⟩ :=
      walk_record r (packed records ++ rest) (running 0 (Nat.zero_lt_succ _)) head here
    have later : ∀ i < records.length, flag (w.looks + 1 + i) = .run := by
      intro i bound
      rw [Nat.add_right_comm]
      exact running (i + 1) (Nat.succ_lt_succ bound)
    let next : Walk := ⟨w.ptr + r.image.length, w.looks + 1, w.broadcasts ++ [event]⟩
    have place : next.ptr = (before ++ r.image).length := by
      rw [List.length_append, ← here]
    have room : next.ptr + (packed records).length ≤ length := by
      rwa [size, ← Nat.add_assoc] at inside
    obtain ⟨events, describe, turns⟩ := ih later room place
    refine ⟨event :: events, .cons describes describe, ?_⟩
    have last : (⟨next.ptr + (packed records).length, next.looks + records.length,
        next.broadcasts ++ events⟩ : Walk) = ⟨w.ptr + (packed (r :: records)).length,
          w.looks + (r :: records).length, w.broadcasts ++ event :: events⟩ := by
      simp [next, size, Nat.add_assoc, Nat.add_comm 1]
    rw [buffer, turn, ← List.append_assoc before, turns, last]

end walk

theorem received_packed {records : List Record} (room : (packed records).length ≤ eventBufLen) :
    received (packed records) =
      packed records ++ List.replicate (eventBufLen - (packed records).length) 0 := by
  rw [received, List.take_append, List.take_of_length_le room, List.take_replicate,
    Nat.min_eq_left (Nat.sub_le ..)]

section read
variable {flag : Nat → State} {records : List Record}

/-- The records at the start of the buffer. -/
theorem walk_first (records : List Record) (rest : List UInt8) (sent : List DirEvent)
    (running : ∀ i < records.length, flag (looks + i) = .run)
    (inside : (packed records).length ≤ length) :
    ∃ events, List.Forall₂ Describes records events ∧
      walk flag (packed records ++ rest) length ⟨0, looks, sent⟩ =
        walk flag (packed records ++ rest) length
          ⟨(packed records).length, looks + records.length, sent ++ events⟩ := by
  have start : (⟨0, looks, sent⟩ : Walk).ptr = ([] : List UInt8).length := rfl
  have room : (⟨0, looks, sent⟩ : Walk).ptr + (packed records).length ≤ length := by
    rwa [Nat.zero_add]
  obtain ⟨events, describe, passes⟩ := walk_records records rest running room start
  rw [Nat.zero_add] at passes
  exact ⟨events, describe, passes⟩

theorem walk_running (room : (packed records).length ≤ eventBufLen) (sent : List DirEvent)
    (running : ∀ i < records.length, flag (looks + i) = .run) :
    ∃ events, List.Forall₂ Describes records events ∧
      walk flag (received (packed records)) (packed records).length ⟨0, looks, sent⟩ =
        some ⟨(packed records).length, looks + records.length, sent ++ events⟩ := by
  rw [received_packed room]
  obtain ⟨events, describe, passes⟩ := walk_first records _ sent running (Nat.le_refl _)
  exact ⟨events, describe, passes.trans (walk_end (Nat.le_refl _))⟩

theorem walk_stopping (room : (packed records).length ≤ eventBufLen) (sent : List DirEvent)
    {k : Nat} (bound : k < records.length) (running : ∀ i < k, flag (looks + i) = .run)
    (stopped : flag (looks + k) = .stop) :
    ∃ events, List.Forall₂ Describes (records.take k) events ∧
      walk flag (received (packed records)) (packed records).length ⟨0, looks, sent⟩ =
        some ⟨(packed (records.take k)).length, looks + k + 1, sent ++ events⟩ := by
  rw [received_packed room]
  have split : packed records = packed (records.take k) ++ packed (records.drop k) := by
    rw [← packed_append, List.take_append_drop]
  have taken : (records.take k).length = k := List.length_take_of_le (Nat.le_of_lt bound)
  have more : records.drop k ≠ [] := fun none =>
    Nat.not_le.mpr bound (List.drop_eq_nil_iff.mp none)
  have left : (packed (records.take k)).length < (packed records).length := by
    rw [split, List.length_append]
    exact Nat.lt_add_of_pos_right (packed_pos more)
  obtain ⟨events, describe, passes⟩ := walk_first (records.take k)
    (packed (records.drop k) ++ List.replicate (eventBufLen - (packed records).length) 0) sent
    (by rwa [taken]) (Nat.le_of_lt left)
  rw [taken] at passes
  have ends := passes.trans (walk_stopped left stopped)
  rw [← List.append_assoc, ← split] at ends
  exact ⟨events, describe, ends⟩

end read

/-- The loop broadcasts one event for each record, in their order, and ends exactly behind
the last; when it finds `STOP` before record `k`, it has broadcast those before and ends
there. -/
theorem walk_exact (records : List Record) (room : (packed records).length ≤ eventBufLen)
    (flag : Nat → State) (looks : Nat) (sent : List DirEvent) :
    let read := walk flag (received (packed records)) (packed records).length ⟨0, looks, sent⟩
    ((∀ i < records.length, flag (looks + i) = .run) →
      ∃ w events, read = some w ∧ w.ptr = (packed records).length ∧
        w.broadcasts = sent ++ events ∧ List.Forall₂ Describes records events) ∧
    ∀ k < records.length, (∀ i < k, flag (looks + i) = .run) → flag (looks + k) = .stop →
      ∃ w events, read = some w ∧ w.ptr = (packed (records.take k)).length ∧
        w.broadcasts = sent ++ events ∧ List.Forall₂ Describes (records.take k) events := by
  intro read
  constructor
  · intro running
    obtain ⟨events, describe, ends⟩ := walk_running room sent running
    exact ⟨_, events, ends, rfl, rfl, describe⟩
  · intro k bound running stopped
    obtain ⟨events, describe, ends⟩ := walk_stopping room sent bound running stopped
    exact ⟨_, events, ends, rfl, rfl, describe⟩

/-- A file that is created, and a change of the directory itself. -/
def created : List Record :=
  [⟨⟨1, 0x100, 0, 16⟩, [97], by simp, by simp⟩, ⟨⟨1, 0x2, 0, 0⟩, [], by simp, by simp⟩]

/-- Both are broadcast, or only the first when `STOP` is found before the second. -/
theorem walk_exact_created :
    (∃ w events, walk (fun _ => .run) (received (packed created)) 48 ⟨0, 0, []⟩ = some w ∧
      w.ptr = 48 ∧ w.broadcasts = events ∧ List.Forall₂ Describes created events) ∧
    ∃ w events, walk (fun i => if i = 1 then .stop else .run) (received (packed created)) 48
        ⟨0, 0, []⟩ = some w ∧
      w.ptr = 32 ∧ w.broadcasts = events ∧ List.Forall₂ Describes (created.take 1) events := by
  constructor
  · exact (walk_exact created (by decide) (fun _ => .run) 0 []).1 fun _ _ => rfl
  · refine (walk_exact created (by decide) (fun i => if i = 1 then .stop else .run) 0 []).2 1
      (by decide) (fun i bound => ?_) rfl
    rw [Nat.lt_one_iff.mp bound]
    rfl

/-- The first look at `m_flag` behind a record. -/
theorem first_stop (flag : Nat → State) (looks n : Nat) :
    (∀ i < n, flag (looks + i) = .run) ∨
      ∃ k < n, (∀ i < k, flag (looks + i) = .run) ∧ flag (looks + k) = .stop := by
  induction n with
  | zero => exact .inl nofun
  | succ n ih =>
    obtain running | ⟨k, bound, found⟩ := ih
    · cases last : flag (looks + n) with
      | run =>
        refine .inl fun i bound => ?_
        obtain earlier | rfl := Nat.lt_succ_iff_lt_or_eq.mp bound
        · exact running i earlier
        · exact last
      | stop => exact .inr ⟨n, Nat.lt_succ_self n, running, last⟩
    · exact .inr ⟨k, Nat.lt_succ_of_lt bound, found⟩

theorem monitor_stopped {flag : Nat → State} (stopped : flag looks = .stop)
    (reads : List (List UInt8)) (sent : List DirEvent) :
    monitor flag reads looks sent = (.returned, sent) := by
  rw [monitor.eq_def, if_pos stopped]

theorem monitor_read {flag : Nat → State} (running : flag looks = .run) (some : 0 < bytes.length)
    (walks : walk flag (received bytes) bytes.length ⟨0, looks + 1, sent⟩ = .some w)
    (rest : List (List UInt8)) :
    monitor flag (bytes :: rest) looks sent = monitor flag rest w.looks w.broadcasts := by
  rw [monitor, running, if_neg (by decide), if_neg (Nat.ne_of_gt some), walks]

/-- Over any number of reads, and whenever `m_flag` is set: `Monitor` broadcasts the events
of the first records, and returns only when it has found `STOP`. -/
theorem monitor_prefix {flag : Nat → State} (kept : ∀ i, flag i = .stop → flag (i + 1) = .stop)
    (batches : List (List Record))
    (packs : ∀ records ∈ batches, records ≠ [] ∧ (packed records).length ≤ eventBufLen)
    (looks : Nat) (sent : List DirEvent) : ∃ passed events, passed <+: batches.flatten ∧
      List.Forall₂ Describes passed events ∧
      (monitor flag (batches.map packed) looks sent = (.returned, sent ++ events) ∨
        monitor flag (batches.map packed) looks sent = (.reads, sent ++ events) ∧
          passed = batches.flatten) := by
  induction batches generalizing looks sent with
  | nil =>
    refine ⟨[], [], List.nil_prefix, .nil, ?_⟩
    rw [List.append_nil]
    cases found : flag looks with
    | stop => exact .inl (monitor_stopped found _ sent)
    | run => exact .inr ⟨by rw [List.map_nil, monitor, found]; rfl, rfl⟩
  | cons records batches ih =>
    obtain ⟨some, room⟩ := packs records List.mem_cons_self
    have others : ∀ records ∈ batches, records ≠ [] ∧ (packed records).length ≤ eventBufLen :=
      fun records member => packs records (List.mem_cons_of_mem _ member)
    cases found : flag looks with
    | stop =>
      refine ⟨[], [], List.nil_prefix, .nil, .inl ?_⟩
      rw [List.append_nil]
      exact monitor_stopped found _ sent
    | run =>
      obtain running | ⟨k, bound, running, stopped⟩ := first_stop flag (looks + 1) records.length
      · obtain ⟨events, describe, walks⟩ := walk_running room sent running
        obtain ⟨passed, more, begins, describes, ends⟩ :=
          ih others (looks + 1 + records.length) (sent ++ events)
        refine ⟨records ++ passed, events ++ more, ?_, List.rel_append describe describes, ?_⟩
        · exact (List.prefix_append_right_inj records).mpr begins
        · rw [List.map_cons, monitor_read found (packed_pos some) walks, ← List.append_assoc]
          exact ends.imp_right fun reads => ⟨reads.1, congrArg (records ++ ·) reads.2⟩
      · obtain ⟨events, describe, walks⟩ := walk_stopping room sent bound running stopped
        refine ⟨records.take k, events, ?_, describe, .inl ?_⟩
        · exact (List.take_prefix k records).trans (List.prefix_append records _)
        · rw [List.map_cons, monitor_read found (packed_pos some) walks]
          exact monitor_stopped (kept _ stopped) _ _

end DirMonitor
end DistributedDisk
