import DistributedDisk.Mediator

/-! The master's end of the kernel socket: NBD headers in network order, the
arguments handed to a command, and `ParseData` over what `read` returns. -/
namespace DistributedDisk
open Packed

/-- `struct nbd_request`; `offset` is its field `from`. -/
structure NbdRequest where
  magic : UInt32
  type : UInt32
  handle : List.Vector UInt8 8
  offset : UInt64
  len : UInt32
  deriving Inhabited

/-- `struct nbd_reply` -/
structure NbdReply where
  magic : UInt32
  error : UInt32
  handle : List.Vector UInt8 8
  deriving Inhabited

def NbdRequest.codec : Codec NbdRequest :=
  .record (Codec.be32.seq (Codec.be32.seq ((Codec.chars 8).seq (Codec.be64.seq Codec.be32))))
    (fun r => (r.magic, r.type, r.handle, r.offset, r.len))
    (fun f => ⟨f.1, f.2.1, f.2.2.1, f.2.2.2.1, f.2.2.2.2⟩) (fun _ => rfl)

def NbdReply.codec : Codec NbdReply :=
  .record (Codec.be32.seq (Codec.be32.seq (Codec.chars 8))) (fun r => (r.magic, r.error, r.handle))
    (fun f => ⟨f.1, f.2.1, f.2.2⟩) (fun _ => rfl)

def nbdRequestMagic : UInt32 := 0x25609513
def nbdReplyMagic : UInt32 := 0x67446698
def nbdCmdRead : UInt32 := 0
def nbdCmdWrite : UInt32 := 1

/-- `NbdProxy::CmdArgs`. Its `reply_func` and its padding are copied with the
other members and never read, so the image leaves them out. -/
structure CmdArgs where
  fd : Int32
  key : UInt64
  reply : NbdReply
  block : Block
  deriving Inhabited

def CmdArgs.codec : Codec CmdArgs :=
  .record (Codec.i32.seq (Codec.u64.seq (NbdReply.codec.seq (Codec.chars 4096))))
    (fun a => (a.fd, a.key, a.reply, a.block)) (fun f => ⟨f.1, f.2.1, f.2.2.1, f.2.2.2⟩)
    (fun _ => rfl)

/-- What a single `read` finds: bytes that are there, or an error. -/
inductive Arrival where
  | data (bytes : List UInt8)
  | failed

/-- A stream socket by its successive arrivals; nothing is left at its end. -/
abbrev Stream := List Arrival

/-- `read(fd, buf, count)`: some bytes of the first arrival, `none` for -1. -/
def read (count : Nat) : Stream → Option (List UInt8) × Stream
  | [] => (some [], [])
  | .failed :: rest => (none, rest)
  | .data bytes :: rest =>
    (some (bytes.take count),
      if bytes.length ≤ count then rest else .data (bytes.drop count) :: rest)

inductive ParseFailure where
  /-- `throw NBDException()` -/
  | nbdException
  /-- `assert(bytes_read > 0)` fails. -/
  | assertion
  /-- Bytes were written behind the end of the buffer. -/
  | overrun
  deriving DecidableEq, Repr

namespace NbdProxy

/-- `read_all` into a buffer with `room` bytes left. -/
def readAll (fd : Stream) (room count : Nat) : Except ParseFailure (List UInt8 × Stream) :=
  if 0 < count then
    match read count fd with
    | (none, _) => .error .assertion
    | (some bytes, fd) =>
      if 0 < bytes.length then
        if room < bytes.length then .error .overrun
        else match readAll fd (room - bytes.length) (count - bytes.length) with
          | .error failure => .error failure
          | .ok (rest, fd) => .ok (bytes ++ rest, fd)
      else .error .assertion
  else .ok ([], fd)
  termination_by count

/-- The members that `ParseData` sets in `args` before it looks at the type. -/
def cmdArgs (junk : CmdArgs) (fd : Int32) (request : NbdRequest) : CmdArgs :=
  { junk with
    fd := fd
    key := request.offset
    reply := ⟨nbdReplyMagic, 0, request.handle⟩ }

/-- Both structs are uninitialized locals: `junk` and `junkArgs`. Every type but
`NBD_CMD_READ` is taken for a write. -/
def parseData (junk : NbdRequest) (junkArgs : CmdArgs) (fd : Int32) (stream : Stream) :
    Except ParseFailure (CmdData × Stream) :=
  match read NbdRequest.codec.size stream with
  | (none, _) => .error .nbdException
  | (some bytes, stream) =>
    let request := NbdRequest.codec.patch junk bytes
    let args := cmdArgs junkArgs fd request
    if nbdCmdRead = request.type then .ok (⟨"ReadCmd", CmdArgs.codec.encode args⟩, stream)
    else match readAll stream 4096 request.len.toNat with
      | .error failure => .error failure
      | .ok (payload, stream) =>
        let args := { args with block := (Codec.chars 4096).patch args.block payload }
        .ok (⟨"WriteCmd", CmdArgs.codec.encode args⟩, stream)

/-- Successive calls on one socket, one for each pair of uninitialized locals. -/
def parseAll (fd : Int32) : (locals : List (NbdRequest × CmdArgs)) → Stream →
    Except ParseFailure (List CmdData)
  | [], _ => .ok []
  | (junk, junkArgs) :: locals, stream =>
    match parseData junk junkArgs fd stream with
    | .error failure => .error failure
    | .ok (cmd, stream) =>
      match parseAll fd locals stream with
      | .error failure => .error failure
      | .ok rest => .ok (cmd :: rest)

/-- A payload that arrives in any nonempty pieces is read completely, and the
bytes behind it stay in the stream. -/
theorem readAll_pieces (pieces : List (List UInt8)) (nonempty : ∀ p ∈ pieces, p ≠ [])
    (room : Nat) (fits : pieces.flatten.length ≤ room) (rest : Stream) :
    readAll (pieces.map .data ++ rest) room pieces.flatten.length = .ok (pieces.flatten, rest) := by
  induction pieces generalizing room with
  | nil => simp [readAll]
  | cons piece pieces ih =>
    have positive : 0 < piece.length := List.length_pos_iff.mpr (nonempty piece (by simp))
    simp only [List.flatten_cons, List.length_append] at fits ⊢
    have tail := ih (fun p h => nonempty p (by simp [h])) (room - piece.length) (by omega)
    have whole : piece.length ≤ piece.length + pieces.flatten.length := by omega
    rw [readAll, if_pos (by omega)]
    simp only [List.map_cons, List.cons_append, read, List.take_of_length_le whole, if_pos whole,
      if_pos positive, if_neg (by omega : ¬ room < piece.length)]
    rw [Nat.add_sub_cancel_left, tail]

end NbdProxy

/-- What a well-formed request asks for; a write carries its payload. -/
inductive Transfer where
  | read (len : UInt32)
  | write (payload : List UInt8) (fits : payload.length ≤ 4096)

def Transfer.isRead : Transfer → Bool
  | .read _ => true
  | .write _ _ => false

/-- A well-formed READ or WRITE request of the kernel. -/
structure ClientRequest where
  handle : List.Vector UInt8 8
  offset : UInt64
  transfer : Transfer

namespace ClientRequest

def header (r : ClientRequest) : NbdRequest where
  magic := nbdRequestMagic
  type := match r.transfer with | .read _ => nbdCmdRead | .write _ _ => nbdCmdWrite
  handle := r.handle
  offset := r.offset
  len := match r.transfer with | .read len => len | .write payload _ => .ofNat payload.length

def payload (r : ClientRequest) : List UInt8 :=
  match r.transfer with
  | .read _ => []
  | .write payload _ => payload

/-- The stream of one request: its header, then its payload in any pieces. -/
structure Arrives (r : ClientRequest) (pieces : List (List UInt8)) : Prop where
  nonempty : ∀ p ∈ pieces, p ≠ []
  payload : pieces.flatten = r.payload

def stream (r : ClientRequest) (pieces : List (List UInt8)) : Stream :=
  .data (NbdRequest.codec.encode r.header) :: pieces.map .data

/-- The command that `ParseData` makes of the request. -/
def cmdData (junkArgs : CmdArgs) (fd : Int32) (r : ClientRequest) : CmdData :=
  let args := NbdProxy.cmdArgs junkArgs fd r.header
  match r.transfer with
  | .read _ => ⟨"ReadCmd", CmdArgs.codec.encode args⟩
  | .write payload _ => ⟨"WriteCmd", CmdArgs.codec.encode
      { args with block := (Codec.chars 4096).patch args.block payload }⟩

theorem parseData_request (junk : NbdRequest) (junkArgs : CmdArgs) (fd : Int32) (r : ClientRequest)
    (pieces : List (List UInt8)) (arrives : r.Arrives pieces) (rest : Stream) :
    NbdProxy.parseData junk junkArgs fd (r.stream pieces ++ rest) =
      .ok (r.cmdData junkArgs fd, rest) := by
  have image := NbdRequest.codec.encode_length r.header
  have complete : read NbdRequest.codec.size (r.stream pieces ++ rest) =
      (some (NbdRequest.codec.encode r.header), pieces.map .data ++ rest) := by
    simp only [stream, List.cons_append, read, image, Nat.le_refl, if_true,
      List.take_of_length_le (Nat.le_of_eq image)]
  simp only [NbdProxy.parseData, complete, Codec.patch_encode]
  cases kind : r.transfer with
  | read len =>
    have none : pieces = [] := by
      cases pieces with
      | nil => rfl
      | cons p ps =>
        have empty := arrives.payload
        simp only [payload, kind, List.flatten_cons, List.append_eq_nil_iff] at empty
        exact absurd empty.1 (arrives.nonempty p (by simp))
    simp [header, cmdData, kind, none]
  | write bytes fits =>
    have size : pieces.flatten = bytes := by simpa only [payload, kind] using arrives.payload
    have len : (UInt32.ofNat bytes.length).toNat = bytes.length := by
      rw [UInt32.toNat_ofNat']
      omega
    have taken :=
      NbdProxy.readAll_pieces pieces arrives.nonempty 4096 (by rw [size]; exact fits) rest
    have type : nbdCmdRead ≠ nbdCmdWrite := by decide
    rw [size] at taken
    simp only [header, kind, type, if_false, len, taken, cmdData]

end ClientRequest

/-- A request on its way into the master: how its payload is cut, and what the
locals of the `ParseData` call that reads it hold before. -/
structure Incoming where
  request : ClientRequest
  pieces : List (List UInt8)
  arrives : request.Arrives pieces
  junk : NbdRequest
  junkArgs : CmdArgs

namespace Incoming

def stream (r : Incoming) : Stream := r.request.stream r.pieces

def cmdData (fd : Int32) (r : Incoming) : CmdData := r.request.cmdData r.junkArgs fd

/-- Requests read one by one give one command each, in order, however their
payloads are cut. -/
theorem parseAll_requests (fd : Int32) (requests : List Incoming) :
    NbdProxy.parseAll fd (requests.map fun r => (r.junk, r.junkArgs)) (requests.flatMap stream) =
      .ok (requests.map (cmdData fd)) := by
  induction requests with
  | nil => rfl
  | cons r requests ih =>
    simp only [List.map_cons, List.flatMap_cons, NbdProxy.parseAll, stream,
      ClientRequest.parseData_request r.junk r.junkArgs fd r.request r.pieces r.arrives]
    simp only [ih, cmdData]

end Incoming
end DistributedDisk
