import DistributedDisk.Core.Codec

/-! The packed records that the master and its minions exchange. Both sides send
the raw memory of the struct, cut at `offsetof(.., m_block)` where the block is
left out; a receiver writes the bytes of a datagram over its own struct. -/
namespace DistributedDisk
open Packed

abbrev Block := List.Vector UInt8 4096

def Block.zero : Block := List.Vector.replicate 4096 0

/-- `error_t`. On the wire an error is any 32-bit value. -/
inductive Error where
  | none
  | notEnoughSpace
  | corruption
  | blockNotFouned
  deriving DecidableEq, Repr

def Error.code : Error → UInt32
  | .none => 0
  | .notEnoughSpace => 1
  | .corruption => 2
  | .blockNotFouned => 3

/-- The two values of `m_type`: 1 == read, 2 == write. -/
inductive Kind where
  | read
  | write
  deriving DecidableEq, Repr

def Kind.code : Kind → UInt8
  | .read => 1
  | .write => 2

structure Request where
  id : UInt64
  type : UInt8
  offset : UInt64
  block : Block
  deriving Inhabited

structure Reply where
  id : UInt64
  type : UInt8
  error : UInt32
  block : Block
  deriving Inhabited

namespace Request

/-- The fields in front of `m_block`. -/
def fields : Codec (UInt64 × UInt8 × UInt64) := Codec.u64.seq (Codec.u8.seq Codec.u64)

def codec : Codec Request :=
  .record (fields.seq (Codec.chars 4096)) (fun r => ((r.id, r.type, r.offset), r.block))
    (fun f => ⟨f.1.1, f.1.2.1, f.1.2.2, f.2⟩) (fun _ => rfl)

/-- `offsetof(Request_t, m_block)`, 17 bytes. -/
def offsetofBlock : Nat := fields.size

/-- The constructor value-initializes the block and copies one only if given. -/
def new (id : UInt64) (type : UInt8) (offset : UInt64) (block : Option Block) : Request :=
  ⟨id, type, offset, block.getD Block.zero⟩

def header (r : Request) : List UInt8 := (codec.encode r).take offsetofBlock

theorem header_fields (r : Request) : r.header = fields.encode (r.id, r.type, r.offset) :=
  Codec.take_seq _ _ ((r.id, r.type, r.offset), r.block)

@[simp] theorem header_length (r : Request) : r.header.length = offsetofBlock := by
  rw [header_fields, fields.encode_length]
  rfl

/-- A received header sets every field but the block, which keeps the bytes
that were in memory. -/
theorem patch_header (old r : Request) :
    codec.patch old r.header = { r with block := old.block } := by
  rw [header_fields, codec, Codec.patch_record, Codec.patch_first]

theorem encode_type (r : Request) : (codec.encode r)[8]? = some r.type := by
  have image : codec.encode r = Codec.u64.encode r.id ++
      (Codec.u8.encode r.type ++ Codec.u64.encode r.offset) ++ r.block.toList := rfl
  rw [image, List.append_assoc, List.getElem?_append_right (by rw [Codec.encode_length]; decide)]
  simp [Codec.u64, Codec.u8, Codec.host, littleEndian]

theorem decode_type (image : List UInt8) : (codec.decode image).type = image[8]?.getD 0 := by
  have byte : (codec.decode image).type = Codec.u8.decode (image.drop 8) := rfl
  rw [byte, Codec.decode_u8, List.getElem?_drop]

end Request

namespace Reply

def fields : Codec (UInt64 × UInt8 × UInt32) := Codec.u64.seq (Codec.u8.seq Codec.u32)

def codec : Codec Reply :=
  .record (fields.seq (Codec.chars 4096)) (fun r => ((r.id, r.type, r.error), r.block))
    (fun f => ⟨f.1.1, f.1.2.1, f.1.2.2, f.2⟩) (fun _ => rfl)

/-- `offsetof(Reply_t, m_block)`, 13 bytes. -/
def offsetofBlock : Nat := fields.size

def new (id : UInt64) (type : UInt8) (error : UInt32) (block : Option Block) : Reply :=
  ⟨id, type, error, block.getD Block.zero⟩

def header (r : Reply) : List UInt8 := (codec.encode r).take offsetofBlock

theorem header_fields (r : Reply) : r.header = fields.encode (r.id, r.type, r.error) :=
  Codec.take_seq _ _ ((r.id, r.type, r.error), r.block)

theorem encode_header (r : Reply) : codec.encode r = r.header ++ r.block.toList := by
  rw [header_fields]
  rfl

/-- A received header leaves the block alone. -/
theorem patch_header (old r : Reply) :
    codec.patch old r.header = { r with block := old.block } := by
  rw [header_fields, codec, Codec.patch_record, Codec.patch_first]

end Reply

namespace ProtocolTranslator

/-- `++id_conter` numbers the requests of one master; the new counter value
is returned beside the request. -/
def translateRequest (idConter : UInt64) (offset : UInt64) (type : UInt8)
    (block : Option Block) : UInt64 × Request :=
  (idConter + 1, .new (idConter + 1) type offset block)

def translateReply (id : UInt64) (type : UInt8) (block : Option Block) (error : Error) : Reply :=
  .new id type error.code block

end ProtocolTranslator
end DistributedDisk
