import DistributedDisk.Minion.Proxy

/-! What the uninitialized locals of a minion do to its answers. Complete requests
are served in the order in which the workers take them up; two runs that differ
in the locals are compared. -/
namespace DistributedDisk
open Packed

/-- A complete request, and what its execution meets outside the program. -/
structure Service where
  req : Request
  allocated : Option Pointer
  beyond : Junk 4088

/-- `req` in `ParseData` and `block` in `Run`, before anything is written to them. -/
structure MinionLocals where
  req : Request
  block : Block
  deriving Inhabited

namespace Service

def socket (r : Service) : List (List UInt8) :=
  if r.req.type = Kind.write.code then [r.req.header, r.req.block.toList] else [r.req.header]

def perform (r : Service) (locals : MinionLocals) (storage : StorageManager) :
    Option (StorageManager × Except Exception Reply) :=
  (MinionProxy.parseData locals.req r.socket).map fun (data, _) =>
    performTask data ⟨r.allocated, r.beyond, locals.block⟩ storage

/-- The requests one after the other: the datagrams sent, and the store in the end.
An exception ends the process. -/
def serve : List Service → (locals : Nat → MinionLocals) → StorageManager →
    List (List UInt8) × StorageManager
  | [], _, storage => ([], storage)
  | r :: rest, locals, storage =>
    match r.perform (locals 0) storage with
    | none => ([], storage)
    | some (storage, .error _) => ([], storage)
    | some (storage, .ok rep) =>
      let (sent, storage) := serve rest (fun i => locals (i + 1)) storage
      ((MinionProxy.reply rep).toList ++ sent, storage)

/-- Every READ that is served finds its key: stored from the start, or by a WRITE
before it. Behind a request that throws, none is served. -/
def Finds (stored : UInt64 → Prop) : List Service → Prop
  | [] => True
  | r :: rest =>
    if r.req.type = Kind.read.code then stored r.req.offset ∧ Finds stored rest
    else if r.req.type = Kind.write.code ∧ r.allocated ≠ none then
      Finds (fun key => key = r.req.offset ∨ stored key) rest
    else True

variable {r : Service} {storage : StorageManager}

theorem parseData_socket (r : Service) (junk : Request) :
    MinionProxy.parseData junk r.socket = some (MinionProxy.processRequest r.req, []) := by
  by_cases write : r.req.type = Kind.write.code
  · have whole : (Codec.chars 4096).patch junk.block r.req.block.toList = r.req.block :=
      (Codec.chars 4096).patch_encode junk.block r.req.block
    rw [socket, if_pos write, MinionProxy.parseData_write junk write, whole]
  · rw [socket, if_neg write]
    by_cases read : r.req.type = Kind.read.code
    · exact MinionProxy.parseData_read junk read []
    · simp only [MinionProxy.parseData, MinionProxy.read, MinionProxy.readHeader_header,
        if_neg write, Option.map_some, MinionProxy.processRequest, if_neg read]

theorem perform_eq (r : Service) (locals : MinionLocals) (storage : StorageManager) :
    r.perform locals storage = some (performTask (MinionProxy.processRequest r.req)
      ⟨r.allocated, r.beyond, locals.block⟩ storage) := by
  rw [perform, parseData_socket]
  rfl

def readReply (r : Service) (storage : StorageManager) (block : Block) : List UInt8 :=
  Reply.codec.encode (ProtocolTranslator.translateReply r.req.id Kind.read.code
    (some (storage.load r.beyond block r.req.offset).1)
    (storage.load r.beyond block r.req.offset).2)

def writeReply (r : Service) : List UInt8 :=
  Reply.fields.encode (r.req.id, Kind.write.code, Error.none.code)

theorem serve_read (type : r.req.type = Kind.read.code) (locals : Nat → MinionLocals) :
    serve (r :: rest) locals storage =
      (r.readReply storage (locals 0).block :: (serve rest (fun i => locals (i + 1)) storage).1,
        (serve rest (fun i => locals (i + 1)) storage).2) := by
  rw [serve, perform_eq, MinionProxy.processRequest_read type, performTask_load]
  rfl

theorem serve_write (type : r.req.type = Kind.write.code) (memory : r.allocated = some pointer)
    (locals : Nat → MinionLocals) : serve (r :: rest) locals storage =
      (r.writeReply :: (serve rest (fun i => locals (i + 1))
        (storage.store (some pointer) r.req.block r.req.offset).1).1,
        (serve rest (fun i => locals (i + 1))
          (storage.store (some pointer) r.req.block r.req.offset).1).2) := by
  rw [serve, perform_eq, MinionProxy.processRequest_write type, performTask_store _ _ _ _ _ memory]
  simp only [MinionProxy.reply, ProtocolTranslator.translateReply, Reply.new, if_true,
    Reply.header_fields]
  rfl

theorem serve_throws (read : r.req.type ≠ Kind.read.code)
    (write : ¬ (r.req.type = Kind.write.code ∧ r.allocated ≠ none)) (rest : List Service)
    (storage : StorageManager) :
    ∃ stored, ∀ locals, serve (r :: rest) locals storage = ([], stored) := by
  by_cases type : r.req.type = Kind.write.code
  · have memory : r.allocated = none := by simpa [type] using write
    refine ⟨storage.delete r.req.offset, fun locals => ?_⟩
    rw [serve, perform_eq, MinionProxy.processRequest_write type, performTask_write,
      MinWriteCmd.run, Codec.decode_encode, memory]
    rfl
  · refine ⟨storage, fun locals => ?_⟩
    rw [serve, perform_eq, MinionProxy.processRequest, if_neg read, if_neg type]
    rfl

/-- A missing key sets one byte of `block`, and the reply carries all of them. -/
theorem readReply_same_iff (r : Service) (storage : StorageManager) :
    (∀ locals locals' : MinionLocals,
      r.readReply storage locals.block = r.readReply storage locals'.block) ↔
        storage.map r.req.offset ≠ none := by
  constructor
  · intro same missing
    have second (byte : UInt8) : (Reply.codec.decode
        (r.readReply storage (List.Vector.replicate 4096 byte))).block.toList[1]? = some byte := by
      simp only [readReply, Codec.decode_encode, StorageManager.load, missing,
        ProtocolTranslator.translateReply, Reply.new, Option.getD_some]
      rw [Codec.chars_patch_getElem? _ _ (by decide)]
      exact List.getElem?_replicate_of_lt (by decide)
    have replies := same ⟨default, List.Vector.replicate 4096 0⟩
      ⟨default, List.Vector.replicate 4096 1⟩
    have bytes := second 0
    rw [replies, second 1] at bytes
    contradiction
  · intro found locals locals'
    obtain ⟨pointer, entry⟩ := Option.ne_none_iff_exists'.mp found
    simp only [readReply, StorageManager.load, entry]

/-- Where a request is answered, the runs are the same when the answer and the runs
behind it are. -/
theorem serve_cons_same_iff (reply : MinionLocals → List UInt8)
    (served : ∀ locals, serve (r :: rest) locals storage =
      (reply (locals 0) :: (serve rest (fun i => locals (i + 1)) stored).1,
        (serve rest (fun i => locals (i + 1)) stored).2)) :
    (∀ locals locals', serve (r :: rest) locals storage = serve (r :: rest) locals' storage) ↔
      (∀ locals locals', reply locals = reply locals') ∧
        ∀ locals locals', serve rest locals stored = serve rest locals' stored := by
  simp only [served, Prod.mk.injEq, List.cons.injEq]
  constructor
  · intro same
    constructor
    · exact fun locals locals' => (same (fun _ => locals) fun _ => locals').1.1
    · intro locals locals'
      obtain ⟨⟨_, sent⟩, behind⟩ := same (fun i => i.casesOn default locals)
        fun i => i.casesOn default locals'
      exact Prod.ext sent behind
  · rintro ⟨answer, behind⟩ locals locals'
    have tails := behind (fun i => locals (i + 1)) fun i => locals' (i + 1)
    exact ⟨⟨answer _ _, congrArg Prod.fst tails⟩, congrArg Prod.snd tails⟩

theorem stored_keys (storage : StorageManager) (pointer : Pointer) (block : Block)
    (offset : UInt64) : (fun key => key = offset ∨ storage.map key ≠ none) =
      fun key => (storage.store (some pointer) block offset).1.map key ≠ none := by
  funext key
  rw [StorageManager.store_map]
  by_cases same : key = offset
  · simp [same]
  · simp [same]

/-- The locals show in an answer exactly when a READ misses its key. -/
theorem serve_same_iff (requests : List Service) (storage : StorageManager) :
    (∀ locals locals', serve requests locals storage = serve requests locals' storage) ↔
      Finds (fun key => storage.map key ≠ none) requests := by
  induction requests generalizing storage with
  | nil => exact iff_of_true (fun _ _ => rfl) trivial
  | cons r rest ih =>
    by_cases read : r.req.type = Kind.read.code
    · rw [Finds, if_pos read, serve_cons_same_iff (r.readReply storage ·.block) (serve_read read),
        ih]
      exact and_congr_left fun _ => readReply_same_iff r storage
    · rw [Finds, if_neg read]
      by_cases write : r.req.type = Kind.write.code ∧ r.allocated ≠ none
      · obtain ⟨pointer, memory⟩ := Option.ne_none_iff_exists'.mp write.2
        rw [if_pos write, serve_cons_same_iff (fun _ => r.writeReply)
          (serve_write write.1 memory), ih, stored_keys storage pointer r.req.block]
        exact and_iff_right fun _ _ => rfl
      · rw [if_neg write]
        refine iff_of_true (fun locals locals' => ?_) trivial
        obtain ⟨stored, throws⟩ := serve_throws read write rest storage
        rw [throws, throws]

end Service
end DistributedDisk
