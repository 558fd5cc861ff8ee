import DistributedDisk.Core.Codec

/-! `DirMonitor`: the thread that reads inotify events and broadcasts a `DirEvent` for each. -/
namespace DistributedDisk
open Packed

namespace DirMonitor

inductive State where
  | run
  | stop
  deriving DecidableEq

inductive DirEventType where
  | add
  | modified
  | remove
  deriving DecidableEq

structure DirEvent where
  filename : List UInt8
  eventType : DirEventType

/-- `std::string(file_name, len)` reads `len` bytes. -/
def DirEvent.new (fileName : List UInt8) (len : UInt32) (type : DirEventType) : Option DirEvent :=
  if len.toNat ≤ fileName.length then some ⟨fileName.take len.toNat, type⟩ else none

/-- `struct inotify_event` up to its `name`. -/
structure INotifyHeader where
  wd : Int32
  mask : UInt32
  cookie : UInt32
  len : UInt32

def INotifyHeader.codec : Codec INotifyHeader :=
  (Codec.i32.seq (Codec.u32.seq (Codec.u32.seq Codec.u32))).record
    (fun event => (event.wd, event.mask, event.cookie, event.len))
    (fun fields => ⟨fields.1, fields.2.1, fields.2.2.1, fields.2.2.2⟩) fun _ => rfl

/-- `name` is all that follows in the buffer. -/
structure INotifyEvent extends INotifyHeader where
  name : List UInt8

def inMovedFrom : UInt32 := 0x40
def inMovedTo : UInt32 := 0x80
def inCreate : UInt32 := 0x100
def inDelete : UInt32 := 0x200

/-- `EVENT_SIZE` -/
def eventSize : Nat := INotifyHeader.codec.size

/-- `EVENT_BUF_LEN` -/
def eventBufLen : Nat := 1024 * (eventSize + 16)

def translateINotifyToEvent (event : INotifyEvent) : Option DirEvent :=
  if event.mask &&& inCreate ≠ 0 ∨ event.mask &&& inMovedTo ≠ 0 then
    DirEvent.new event.name event.len .add
  else if event.mask &&& inDelete ≠ 0 ∨ event.mask &&& inMovedFrom ≠ 0 then
    DirEvent.new event.name event.len .remove
  else DirEvent.new event.name event.len .modified

/-- The `reinterpret_cast`; `none` is a header that is not inside of the buffer. -/
def eventAt (buf : List UInt8) (ptr : Nat) : Option INotifyEvent :=
  if ptr + eventSize ≤ buf.length then
    some { INotifyHeader.codec.decode (buf.drop ptr) with name := buf.drop (ptr + eventSize) }
  else none

/-- The buffer, cleared and then overwritten by a `read`. -/
def received (bytes : List UInt8) : List UInt8 :=
  (bytes ++ List.replicate eventBufLen 0).take eventBufLen

/-- Where `Monitor` is in its buffer, how often it has looked at `m_flag`, and what it has
broadcast. -/
structure Walk where
  ptr : Nat
  looks : Nat
  broadcasts : List DirEvent

/-- The inner loop of `Monitor`, by what each look at `m_flag` finds; `none` is a read
outside of the buffer. -/
def walk (flag : Nat → State) (buf : List UInt8) (length : Nat) (w : Walk) : Option Walk :=
  if w.ptr < length then
    if flag w.looks = .stop then some { w with looks := w.looks + 1 }
    else
      match eventAt buf w.ptr with
      | none => none
      | some event =>
        match translateINotifyToEvent event with
        | none => none
        | some dirEvent =>
          walk flag buf length
            { ptr := w.ptr + (eventSize + event.len.toNat)
              looks := w.looks + 1
              broadcasts := w.broadcasts ++ [dirEvent] }
  else some w
termination_by length - w.ptr
decreasing_by
  have : 0 < eventSize := by decide
  omega

/-- How a call of `Monitor` has ended, or that it is in a `read`. -/
inductive Ending where
  | returned
  | throws
  | reads
  | faults
  deriving DecidableEq

/-- `Monitor`, by the bytes of each `read`; one without bytes has failed. -/
def monitor (flag : Nat → State) (reads : List (List UInt8)) (looks : Nat)
    (broadcasts : List DirEvent) : Ending × List DirEvent :=
  if flag looks = .stop then (.returned, broadcasts)
  else
    match reads with
    | [] => (.reads, broadcasts)
    | bytes :: rest =>
      if bytes.length = 0 then (.throws, broadcasts)
      else
        match walk flag (received bytes) bytes.length ⟨0, looks + 1, broadcasts⟩ with
        | none => (.faults, broadcasts)
        | some w => monitor flag rest w.looks w.broadcasts

end DirMonitor
end DistributedDisk
