import DistributedDisk.Mediator

/-! The two commands of a minion. Each takes its arguments out of the bytes that
`ProcessRequest` packed, works on the store and makes a reply. -/
namespace DistributedDisk
open Packed

/-- What one execution meets outside the program: the answer of `operator new`,
the memory behind a map node and the uninitialized local `block`. -/
structure Environment where
  allocated : Option Pointer
  beyond : Junk 4088
  block : Block

abbrev MinCommand := Environment → StorageManager → StorageManager × Except Exception Reply

namespace MinReadCmd

/-- `id` and `offset`, as `ProcessRequest` packs them. -/
def args : Codec (UInt64 × UInt64) := Codec.u64.seq Codec.u64

def run (data : List UInt8) : MinCommand := fun env storage =>
  let (id, offset) := args.decode data
  let (block, error) := storage.load env.beyond env.block offset
  (storage, .ok (ProtocolTranslator.translateReply id Kind.read.code (some block) error))

end MinReadCmd

namespace MinWriteCmd

def args : Codec (UInt64 × UInt64 × Block) := Codec.u64.seq (Codec.u64.seq (Codec.chars 4096))

/-- An exception of `Store` leaves `Run` before the reply is made. -/
def run (data : List UInt8) : MinCommand := fun env storage =>
  let (id, offset, block) := args.decode data
  match storage.store env.allocated block offset with
  | (storage, .error exception) => (storage, .error exception)
  | (storage, .ok error) => (storage,
      .ok (ProtocolTranslator.translateReply id Kind.write.code (some env.block) error))

end MinWriteCmd

/-- The commands that `MinRegister` and `MinWRegister` add to the framework. -/
def minionFactory : Factory MinCommand (List UInt8) String :=
  (Factory.empty.add "MinReadCmd" MinReadCmd.run).add "MinWriteCmd" MinWriteCmd.run

/-- `CmdFactoryTask::Do`: create the command, then `Run` it. -/
def performTask (data : CmdData) : MinCommand := fun env storage =>
  match minionFactory.create data.key data.args with
  | .error exception => (storage, .error exception)
  | .ok command => command env storage

section
variable (args : List UInt8) (env : Environment) (storage : StorageManager)

theorem performTask_read : performTask ⟨"MinReadCmd", args⟩ env storage =
    MinReadCmd.run args env storage := by
  have other : "MinReadCmd" ≠ "MinWriteCmd" := by decide
  rw [performTask, minionFactory, Factory.create_add_ne other, Factory.create_add_self]

theorem performTask_write : performTask ⟨"MinWriteCmd", args⟩ env storage =
    MinWriteCmd.run args env storage := by
  rw [performTask, minionFactory, Factory.create_add_self]

end

/-- A store that got its memory answers with the id of the request and no error. -/
theorem performTask_store (id offset : UInt64) (block : Block) (env : Environment)
    (storage : StorageManager) (allocated : env.allocated = some pointer) :
    performTask ⟨"MinWriteCmd", MinWriteCmd.args.encode (id, offset, block)⟩ env storage =
      ((storage.store (some pointer) block offset).1,
        .ok (ProtocolTranslator.translateReply id Kind.write.code (some env.block) .none)) := by
  rw [performTask_write, MinWriteCmd.run, Codec.decode_encode, allocated]
  rfl

theorem performTask_load (id offset : UInt64) (env : Environment) (storage : StorageManager) :
    performTask ⟨"MinReadCmd", MinReadCmd.args.encode (id, offset)⟩ env storage =
      (storage, .ok (ProtocolTranslator.translateReply id Kind.read.code
        (some (storage.load env.beyond env.block offset).1)
        (storage.load env.beyond env.block offset).2)) := by
  rw [performTask_read, MinReadCmd.run, Codec.decode_encode]

end DistributedDisk
