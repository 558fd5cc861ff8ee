import DistributedDisk.Commands.Communicate
import DistributedDisk.Minion.Commands

/-! `MinionProxy`: a request is read from the socket in one or two datagrams, and
its fields are packed again for the command. Every `Receive` blocks until a
datagram is there, so `Read` on too few of them has no result. -/
namespace DistributedDisk
open Packed Reactive Transition

namespace MinionProxy

/-- `Receive((char *)&req, offsetof(Request_t, m_block))` -/
def readHeader (req : Request) (datagram : List UInt8) : Request :=
  Request.codec.patch req (datagram.take Request.offsetofBlock)

/-- `Receive((char *)&(req.m_block), 4096)` -/
def readBlock (req : Request) (datagram : List UInt8) : Request :=
  { req with block := (Codec.chars 4096).patch req.block datagram }

def read (req : Request) : List (List UInt8) → Option (Request × List (List UInt8))
  | [] => none
  | datagram :: socket =>
    let req := readHeader req datagram
    if req.type = Kind.write.code then
      match socket with
      | [] => none
      | datagram :: socket => some (readBlock req datagram, socket)
    else some (req, socket)

/-- Neither the key nor the arguments are set for any other type. -/
def processRequest (req : Request) : CmdData :=
  if req.type = Kind.read.code then ⟨"MinReadCmd", MinReadCmd.args.encode (req.id, req.offset)⟩
  else if req.type = Kind.write.code then
    ⟨"MinWriteCmd", MinWriteCmd.args.encode (req.id, req.offset, req.block)⟩
  else ⟨"", []⟩

/-- `req` is an uninitialized local. -/
def parseData (req : Request) (socket : List (List UInt8)) :
    Option (CmdData × List (List UInt8)) :=
  (read req socket).map fun (req, socket) => (processRequest req, socket)

/-- One call for each of the given uninitialized locals. -/
def parseAll : (locals : List Request) → List (List UInt8) →
    Option (List CmdData × List (List UInt8))
  | [], socket => some ([], socket)
  | req :: locals, socket => do
    let (data, socket) ← parseData req socket
    let (rest, socket) ← parseAll locals socket
    return (data :: rest, socket)

def reply (rep : Reply) : Option (List UInt8) :=
  if rep.type = Kind.write.code then some rep.header
  else if rep.type = Kind.read.code then some (Reply.codec.encode rep)
  else none

theorem reply_read {rep : Reply} (type : rep.type = Kind.read.code) :
    reply rep = some (Reply.codec.encode rep) := by
  rw [reply, if_neg (by rw [type]; decide), if_pos type]

theorem reply_write {rep : Reply} (type : rep.type = Kind.write.code) :
    reply rep = some rep.header := by
  rw [reply, if_pos type]

theorem readHeader_header (junk req : Request) :
    readHeader junk req.header = { req with block := junk.block } := by
  rw [readHeader, List.take_of_length_le (Nat.le_of_eq req.header_length), Request.patch_header]

/-- The type is the ninth byte; a shorter datagram leaves what was in the local. -/
theorem type_readHeader (junk : Request) (datagram : List UInt8) :
    (readHeader junk datagram).type = datagram[8]?.getD junk.type := by
  rw [readHeader, Codec.patch, Request.decode_type,
    Codec.image_patch_getElem? _ _ _ (by decide), Request.encode_type,
    List.getElem?_take_of_lt (by decide)]
  cases datagram[8]? <;> rfl

theorem processRequest_read {req : Request} (type : req.type = Kind.read.code) :
    processRequest req = ⟨"MinReadCmd", MinReadCmd.args.encode (req.id, req.offset)⟩ := by
  rw [processRequest, if_pos type]

theorem processRequest_write {req : Request} (type : req.type = Kind.write.code) :
    processRequest req =
      ⟨"MinWriteCmd", MinWriteCmd.args.encode (req.id, req.offset, req.block)⟩ := by
  rw [processRequest, if_neg (by rw [type]; decide), if_pos type]

theorem parseData_read (junk : Request) {req : Request} (type : req.type = Kind.read.code)
    (socket : List (List UInt8)) :
    parseData junk (req.header :: socket) = some (processRequest req, socket) := by
  have other : Kind.read.code ≠ Kind.write.code := by decide
  simp only [parseData, read, readHeader_header, type, if_neg other, Option.map_some]
  rw [processRequest_read type]
  rfl

theorem parseData_write (junk : Request) {req : Request} (type : req.type = Kind.write.code)
    (datagram : List UInt8) (socket : List (List UInt8)) :
    parseData junk (req.header :: datagram :: socket) =
      some (processRequest { req with block := (Codec.chars 4096).patch junk.block datagram },
        socket) := by
  simp only [parseData, read, readHeader_header, type, if_true, Option.map_some, readBlock]

end MinionProxy

/-! ### What a transmission becomes -/

/-- `TranslateRequest` as the two commands call it. -/
def translated (idConter key : UInt64) (block : Block) : Kind → Request
  | .read => (ProtocolTranslator.translateRequest idConter key Kind.read.code none).2
  | .write => (ProtocolTranslator.translateRequest idConter key Kind.write.code (some block)).2

/-- The command data decodes to the fields of the request. -/
def Carries (req : Request) : Kind → CmdData → Prop
  | .read, data => data.key = "MinReadCmd" ∧ MinReadCmd.args.decode data.args = (req.id, req.offset)
  | .write, data => data.key = "MinWriteCmd" ∧
      MinWriteCmd.args.decode data.args = (req.id, req.offset, req.block)

def datagrams (tr : List CmdEvent) : List (List UInt8) :=
  (outputs tr).filterMap fun | .sendto _ _ bytes => some bytes | _ => none

theorem Call.datagrams_run {c : Call} (run : Run (Step State.next) (.running c) tr t) :
    ∀ datagram ∈ datagrams tr, datagram = c.request.header := by
  intro datagram member
  obtain ⟨o, emitted, taken⟩ := List.mem_filterMap.mp member
  obtain ⟨e, inside, output⟩ := List.mem_filterMap.mp emitted
  cases e with
  | input => cases output
  | output =>
    cases output
    cases output_of_run run inside
    exact (Option.some.inj taken).symm

/-- Some number of calls of `ParseData`, whatever their locals held before, takes the datagrams
and leaves none, and each of its commands carries the request. -/
def RoundTrip (req : Request) (kind : Kind) (socket : List (List UInt8)) : Prop :=
  ∃ calls, ∀ locals, locals.length = calls → ∃ data,
    MinionProxy.parseAll locals socket = some (data, []) ∧ ∀ d ∈ data, Carries req kind d

theorem translated_type (idConter key : UInt64) (block : Block) (kind : Kind) :
    (translated idConter key block kind).type = kind.code := by
  cases kind <;> rfl

theorem parseAll_read {req : Request} (type : req.type = Kind.read.code) (locals : List Request) :
    MinionProxy.parseAll locals (List.replicate locals.length req.header) =
      some (List.replicate locals.length (MinionProxy.processRequest req), []) := by
  induction locals with
  | nil => rfl
  | cons junk locals ih =>
    simp only [List.length_cons, List.replicate_succ, MinionProxy.parseAll,
      MinionProxy.parseData_read junk type, ih, Option.bind_eq_bind, Option.bind_some,
      Option.pure_def]

/-- The first command for headers of a write: a second header becomes the start of its block. -/
theorem parseAll_write {req : Request} (type : req.type = Kind.write.code) (junk : Request)
    (locals : List Request) {socket : List (List UInt8)} (headers : ∀ d ∈ socket, d = req.header)
    (parsed : MinionProxy.parseAll (junk :: locals) socket = some (data, rest)) :
    MinionProxy.processRequest
      { req with block := (Codec.chars 4096).patch junk.block req.header } ∈ data := by
  match socket, headers, parsed with
  | [], _, parsed => cases parsed
  | [d], headers, parsed =>
    rw [headers d (by simp)] at parsed
    simp [MinionProxy.parseAll, MinionProxy.parseData, MinionProxy.read,
      MinionProxy.readHeader_header, type] at parsed
  | d :: d' :: socket, headers, parsed =>
    rw [headers d (by simp), headers d' (by simp)] at parsed
    simp only [MinionProxy.parseAll, MinionProxy.parseData_write junk type,
      Option.bind_eq_bind, Option.bind_some, Option.pure_def] at parsed
    obtain ⟨⟨tail, socket'⟩, _, same⟩ := Option.bind_eq_some_iff.mp parsed
    cases same
    exact List.mem_cons_self

theorem write_lost {req junk : Request} (type : req.type = Kind.write.code)
    (carries : Carries req .write (MinionProxy.processRequest
      { req with block := (Codec.chars 4096).patch junk.block req.header })) :
    req.block.toList[4095]? = junk.block.toList[4095]? := by
  have written := @MinionProxy.processRequest_write
    { req with block := (Codec.chars 4096).patch junk.block req.header } type
  have fields := carries.2
  rw [written, Codec.decode_encode] at fields
  simp only [Prod.mk.injEq, true_and] at fields
  have behind : req.header[4095]? = none := by
    rw [List.getElem?_eq_none_iff, req.header_length]
    decide
  rw [← fields, Codec.chars_patch_getElem? _ _ (by decide), behind, Option.none_or]

/-- However often the exchange retransmits, the minion understands a read, and
never a write: its block is not sent. -/
theorem round_trip_iff (idConter key : UInt64) (block : Block) (kind : Kind) (socket : Exchange)
    (minion : MinionData) (rep : Reply) (tr : List CmdEvent) (t : Call.State)
    (run : Run (Step Call.State.next) (.running (communicateMinion socket minion
      (translated idConter key block kind) rep)) tr t)
    (sent : datagrams tr ≠ []) :
    RoundTrip (translated idConter key block kind) kind (datagrams tr) ↔ kind = .read := by
  have headers := Call.datagrams_run run
  have type := translated_type idConter key block kind
  cases kind with
  | read =>
    refine iff_of_true ⟨(datagrams tr).length, fun locals size => ?_⟩ rfl
    rw [List.eq_replicate_iff.mpr ⟨size.symm, headers⟩]
    refine ⟨_, parseAll_read type locals, fun d member => ?_⟩
    rw [List.eq_of_mem_replicate member, MinionProxy.processRequest_read type]
    exact ⟨rfl, Codec.decode_encode _ _⟩
  | write =>
    refine iff_of_false ?_ (by decide)
    rintro ⟨calls, trip⟩
    cases calls with
    | zero =>
      obtain ⟨data, parsed, _⟩ := trip [] rfl
      rw [MinionProxy.parseAll] at parsed
      exact sent (Prod.mk.inj (Option.some.inj parsed)).2
    | succ calls =>
      -- The last byte of this local is another than that of the block.
      let junk : Request := ⟨0, 0, 0, List.Vector.replicate 4096 (block.get 4095 + 1)⟩
      obtain ⟨data, parsed, carried⟩ := trip (junk :: List.replicate calls junk) (by simp)
      have kept := write_lost type (carried _ (parseAll_write type junk _ headers parsed))
      have last : block.toList[4095]? = some (block.get 4095) := by
        rw [List.Vector.get_eq_get_toList]
        exact List.getElem?_eq_getElem _
      have other : junk.block.toList[4095]? = some (block.get 4095 + 1) :=
        List.getElem?_replicate_of_lt (by decide)
      have same : block.get 4095 = block.get 4095 + 1 :=
        Option.some.inj (last.symm.trans (kept.trans other))
      exact absurd same (by simp)

theorem round_trip_iff_read :
    let req := translated 0 4096 Block.zero .read
    let c := communicateMinion .first ⟨0x7f000001, 5007⟩ req default
    RoundTrip req .read (datagrams [c.sends]) :=
  (round_trip_iff 0 4096 Block.zero .read .first ⟨0x7f000001, 5007⟩ default _ _
    (.single (.output _ _)) (List.cons_ne_nil _ _)).mpr rfl

/-- The first transmission of a write: `Read` waits for a second datagram. -/
theorem round_trip_write_fails :
    let req := translated 0 4096 Block.zero .write
    let c := communicateMinion .first ⟨0x7f000001, 5007⟩ req default
    Run (Step Call.State.next) (.running c) [c.sends] (.running { c with point := .receive }) ∧
      ¬ RoundTrip req .write (datagrams [c.sends]) := by
  refine ⟨.single (.output _ _), ?_⟩
  rintro ⟨calls, trip⟩
  obtain ⟨data, parsed, _⟩ := trip (List.replicate calls default) (by simp)
  cases calls with
  | zero => cases (Prod.mk.inj (Option.some.inj parsed)).2
  | succ => contradiction

end DistributedDisk
