import DistributedDisk.Minion.Proxy

/-! The minion's commands on any implementation of `StorageManagerBase`: the calls they make
of it, and what the client decodes of their replies. -/
namespace DistributedDisk
open Packed

/-- The virtual functions `Store(block, key)` and `Load(buffer, key)`; the latter also gives
what it leaves in the buffer. -/
structure StorageManagerBase (σ : Type) where
  store : Block → UInt64 → σ → σ × Except Exception Error
  load : Block → UInt64 → σ → σ × Except Exception (Block × Error)

/-- The store of the minion as an implementation. -/
def StorageManager.base (env : Environment) : StorageManagerBase StorageManager where
  store block key storage := storage.store env.allocated block key
  load buffer key storage := (storage, .ok (storage.load env.beyond buffer key))

namespace StorageManagerBase
variable {σ : Type}

inductive Call where
  | store (block : Block) (key : UInt64)
  | load (buffer : Block) (key : UInt64)

/-- The same store with a record of the calls. -/
def logged (base : StorageManagerBase σ) : StorageManagerBase (σ × List Call) where
  store block key s :=
    let (t, outcome) := base.store block key s.1
    ((t, s.2 ++ [.store block key]), outcome)
  load buffer key s :=
    let (t, outcome) := base.load buffer key s.1
    ((t, s.2 ++ [.load buffer key]), outcome)

/-- What a call returns, with the buffer that it was given to fill. -/
def outcome (base : StorageManagerBase σ) (s : σ) : Call → Except Exception (Error × Option Block)
  | .store block key => (base.store block key s).2.map fun error => (error, none)
  | .load buffer key => (base.load buffer key s).2.map fun (block, error) => (error, some block)

def after (base : StorageManagerBase σ) (s : σ) : Call → σ
  | .store block key => (base.store block key s).1
  | .load buffer key => (base.load buffer key s).1

end StorageManagerBase

section commands
variable {σ : Type} (base : StorageManagerBase σ) (block : Block)

/-- `MinReadCmd::Run` with its uninitialized local `block`. -/
def MinReadCmd.runOn (data : List UInt8) (s : σ) : σ × Except Exception Reply :=
  let (id, offset) := args.decode data
  match base.load block offset s with
  | (t, .error exception) => (t, .error exception)
  | (t, .ok (block, error)) => (t,
      .ok (ProtocolTranslator.translateReply id Kind.read.code (some block) error))

/-- `MinWriteCmd::Run`; the reply gets the local, not the block that is stored. -/
def MinWriteCmd.runOn (data : List UInt8) (s : σ) : σ × Except Exception Reply :=
  let (id, offset, src) := args.decode data
  match base.store src offset s with
  | (t, .error exception) => (t, .error exception)
  | (t, .ok error) => (t,
      .ok (ProtocolTranslator.translateReply id Kind.write.code (some block) error))

def minionFactoryOn : Factory (σ → σ × Except Exception Reply) (List UInt8) String :=
  (Factory.empty.add "MinReadCmd" (MinReadCmd.runOn base block)).add "MinWriteCmd"
    (MinWriteCmd.runOn base block)

def performTaskOn (data : CmdData) (s : σ) : σ × Except Exception Reply :=
  match (minionFactoryOn base block).create data.key data.args with
  | .error exception => (s, .error exception)
  | .ok command => command s

theorem performTaskOn_read (args : List UInt8) (s : σ) :
    performTaskOn base block ⟨"MinReadCmd", args⟩ s = MinReadCmd.runOn base block args s := by
  have other : "MinReadCmd" ≠ "MinWriteCmd" := by decide
  rw [performTaskOn, minionFactoryOn, Factory.create_add_ne other, Factory.create_add_self]

theorem performTaskOn_write (args : List UInt8) (s : σ) :
    performTaskOn base block ⟨"MinWriteCmd", args⟩ s = MinWriteCmd.runOn base block args s := by
  rw [performTaskOn, minionFactoryOn, Factory.create_add_self]

end commands

/-- On the minion's store these are the commands of the minion. -/
theorem performTask_eq_on (data : CmdData) (env : Environment) (storage : StorageManager) :
    performTask data env storage =
      performTaskOn (StorageManager.base env) env.block data storage := by
  obtain ⟨key, args⟩ := data
  by_cases write : key = "MinWriteCmd"
  · subst write
    rw [performTask_write, performTaskOn_write, MinWriteCmd.run, MinWriteCmd.runOn]
    simp only [StorageManager.base]
    rcases storage.store env.allocated _ _ with ⟨after, exception | error⟩
    · rfl
    · rfl
  · by_cases read : key = "MinReadCmd"
    · subst read
      rw [performTask_read, performTaskOn_read]
      rfl
    · simp only [performTask, performTaskOn, minionFactory, minionFactoryOn,
        Factory.create_add_ne write, Factory.create_add_ne read]
      rfl

/-- The record changes nothing in a run. -/
theorem performTaskOn_logged {σ : Type} (base : StorageManagerBase σ) (block : Block)
    (data : CmdData) (s : σ) (calls : List StorageManagerBase.Call) :
    performTaskOn base block data s = ((performTaskOn base.logged block data (s, calls)).1.1,
      (performTaskOn base.logged block data (s, calls)).2) := by
  obtain ⟨key, args⟩ := data
  by_cases write : key = "MinWriteCmd"
  · subst write
    rw [performTaskOn_write, performTaskOn_write, MinWriteCmd.runOn, MinWriteCmd.runOn]
    rcases MinWriteCmd.args.decode args with ⟨id, offset, src⟩
    rcases stores : base.store src offset s with ⟨t, exception | error⟩ <;>
      simp only [StorageManagerBase.logged, stores]
  · by_cases read : key = "MinReadCmd"
    · subst read
      rw [performTaskOn_read, performTaskOn_read, MinReadCmd.runOn, MinReadCmd.runOn]
      rcases MinReadCmd.args.decode args with ⟨id, offset⟩
      rcases loads : base.load block offset s with ⟨t, exception | loaded⟩ <;>
        simp only [StorageManagerBase.logged, loads]
    · simp only [performTaskOn, minionFactoryOn, Factory.create_add_ne write,
        Factory.create_add_ne read]
      rfl

/-- The one call that a request asks for. -/
def Request.call (req : Request) (buffer : Block) : Kind → StorageManagerBase.Call
  | .read => .load buffer req.offset
  | .write => .store req.block req.offset

/-- What the client gets of the outcome of the call, whatever its `Reply_t` held before. An
exception leaves `Run`, and nothing is sent. -/
def Answered (req : Request) : Except Exception (Error × Option Block) →
    Except Exception Reply → Prop
  | .error exception, run => run = .error exception
  | .ok (error, loaded), run => ∃ rep bytes, run = .ok rep ∧ MinionProxy.reply rep = some bytes ∧
      ∀ old, (Reply.codec.patch old bytes).id = req.id ∧
        (Reply.codec.patch old bytes).type = req.type ∧
        (Reply.codec.patch old bytes).error = error.code ∧
        ∀ block ∈ loaded, (Reply.codec.patch old bytes).block = block

section roundTrip
variable {σ : Type} (base : StorageManagerBase σ) (s : σ) (buffer : Block) (req : Request)

theorem answered_read (type : req.type = Kind.read.code) (error : Error) (block : Block) :
    Answered req (.ok (error, some block))
      (.ok (ProtocolTranslator.translateReply req.id Kind.read.code (some block) error)) := by
  refine ⟨_, _, rfl, MinionProxy.reply_read rfl, fun old => ?_⟩
  rw [Codec.patch_encode]
  refine ⟨rfl, type.symm, rfl, ?_⟩
  rintro _ ⟨⟩
  rfl

theorem answered_write (type : req.type = Kind.write.code) (error : Error) (block : Block) :
    Answered req (.ok (error, none))
      (.ok (ProtocolTranslator.translateReply req.id Kind.write.code (some block) error)) := by
  refine ⟨_, _, rfl, MinionProxy.reply_write rfl, fun old => ?_⟩
  rw [Reply.patch_header]
  exact ⟨rfl, type.symm, rfl, nofun⟩

theorem perform_read (type : req.type = Kind.read.code) :
    ∃ result, performTaskOn base.logged buffer (MinionProxy.processRequest req) (s, []) =
        ((base.after s (req.call buffer .read), [req.call buffer .read]), result) ∧
      Answered req (base.outcome s (req.call buffer .read)) result := by
  rw [MinionProxy.processRequest_read type, performTaskOn_read, MinReadCmd.runOn,
    Codec.decode_encode]
  rcases loads : base.load buffer req.offset s with ⟨t, exception | ⟨block, error⟩⟩ <;>
    simp only [StorageManagerBase.logged, StorageManagerBase.after, StorageManagerBase.outcome,
      Request.call, loads]
  · exact ⟨_, rfl, rfl⟩
  · exact ⟨_, rfl, answered_read req type error block⟩

theorem perform_write (type : req.type = Kind.write.code) :
    ∃ result, performTaskOn base.logged buffer (MinionProxy.processRequest req) (s, []) =
        ((base.after s (req.call buffer .write), [req.call buffer .write]), result) ∧
      Answered req (base.outcome s (req.call buffer .write)) result := by
  rw [MinionProxy.processRequest_write type, performTaskOn_write, MinWriteCmd.runOn,
    Codec.decode_encode]
  rcases stores : base.store req.block req.offset s with ⟨t, exception | error⟩ <;>
    simp only [StorageManagerBase.logged, StorageManagerBase.after, StorageManagerBase.outcome,
      Request.call, stores]
  · exact ⟨_, rfl, rfl⟩
  · exact ⟨_, rfl, answered_write req type error buffer⟩

/-- A request makes the one call of its type, with its own offset and block, and the client
decodes the reply to its id, its type, and what the call returned. -/
theorem processRequest_answered (kind : Kind) (type : req.type = kind.code) :
    ∃ result, performTaskOn base buffer (MinionProxy.processRequest req) s =
        (base.after s (req.call buffer kind), result) ∧
      performTaskOn base.logged buffer (MinionProxy.processRequest req) (s, []) =
        ((base.after s (req.call buffer kind), [req.call buffer kind]), result) ∧
      Answered req (base.outcome s (req.call buffer kind)) result := by
  have performed : ∃ result,
      performTaskOn base.logged buffer (MinionProxy.processRequest req) (s, []) =
        ((base.after s (req.call buffer kind), [req.call buffer kind]), result) ∧
      Answered req (base.outcome s (req.call buffer kind)) result := by
    cases kind with
    | read => exact perform_read base s buffer req type
    | write => exact perform_write base s buffer req type
  obtain ⟨result, run, answered⟩ := performed
  refine ⟨result, ?_, run, answered⟩
  rw [performTaskOn_logged base buffer _ s [], run]

end roundTrip

/-- A read of a block that the minion's store does not have. -/
theorem processRequest_answered_absent :
    let env : Environment := ⟨none, List.Vector.replicate 4088 0, Block.zero⟩
    ∃ result, performTask (MinionProxy.processRequest ⟨7, 1, 8192, Block.zero⟩) env .empty =
        (.empty, result) ∧
      Answered ⟨7, 1, 8192, Block.zero⟩
        ((StorageManager.base env).outcome .empty (.load Block.zero 8192)) result := by
  intro env
  obtain ⟨result, run, _, answered⟩ := processRequest_answered (StorageManager.base env)
    .empty Block.zero ⟨7, 1, 8192, Block.zero⟩ .read rfl
  refine ⟨result, ?_, answered⟩
  rw [performTask_eq_on]
  exact run

end DistributedDisk
