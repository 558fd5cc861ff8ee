import DistributedDisk.Commands.Requests
import DistributedDisk.Minion.Leaks

/-! What the uninitialized locals of the master do to the bytes on the NBD socket.
Two executions of the same requests that receive the same datagrams are compared,
in any interleaving of the commands. -/
namespace DistributedDisk
open Packed Reactive Transition

/-- What the locals on the way of one request hold before anything is written to
them: `request` and `args` in `ParseData`, the reply structs in `Run`. -/
structure Unset where
  request : NbdRequest
  args : CmdArgs
  rep1 : Reply
  rep2 : Reply
  deriving Inhabited

/-- A complete request as it arrives in the stream. -/
structure Delivery where
  request : ClientRequest
  pieces : List (List UInt8)
  arrives : request.Arrives pieces

namespace Delivery

def stream (r : Delivery) : Stream := r.request.stream r.pieces

def isRead (r : Delivery) : Bool := r.request.transfer.isRead

/-- The request on its way into given locals. -/
def into (r : Delivery) (unset : Unset) : Incoming :=
  ⟨r.request, r.pieces, r.arrives, unset.request, unset.args⟩

/-- The master reads the requests and executes the command of each to its end. -/
def Executes (master : Master) (fd : Int32) (requests : List Delivery)
    (idConter : Fin requests.length → UInt64) (unset : Fin requests.length → Unset)
    (tr : List (Fin requests.length × CmdEvent)) : Prop :=
  ∃ cmds σ τ,
    NbdProxy.parseAll fd (List.ofFn fun i => ((unset i).request, (unset i).args))
      (requests.flatMap stream) = .ok cmds ∧
    (∀ i : Fin requests.length,
      cmds[i.val]?.map (spawn master ⟨idConter i, (unset i).rep1, (unset i).rep2⟩) =
        some (.ok (σ i))) ∧
    Run (Interleave (Step Running.next)) σ tr τ ∧ ∀ i, (τ i).Returned

/-- The command of one request, by itself. -/
def Runs (master : Master) (fd : Int32) (r : Delivery) (idConter : UInt64) (unset : Unset)
    (tr : List CmdEvent) : Prop :=
  ∃ s t, spawn master ⟨idConter, unset.rep1, unset.rep2⟩ ((r.into unset).cmdData fd) = .ok s ∧
    Run (Step Running.next) s tr t ∧ t.Returned

theorem parseAll_into (fd : Int32) (requests : List Delivery)
    (unset : Fin requests.length → Unset) :
    NbdProxy.parseAll fd (List.ofFn fun i => ((unset i).request, (unset i).args))
      (requests.flatMap stream) =
        .ok (List.ofFn fun i => ((requests.get i).into (unset i)).cmdData fd) := by
  have parsed := Incoming.parseAll_requests fd
    (List.ofFn fun i => (requests.get i).into (unset i))
  have streams : (List.ofFn fun i => (requests.get i).into (unset i)).flatMap Incoming.stream =
      requests.flatMap stream := by
    have whole : List.ofFn requests.get = requests := List.ofFn_getElem
    rw [List.flatMap_def, List.flatMap_def, List.map_ofFn]
    conv_rhs => rw [← whole, List.map_ofFn]
    rfl
  rw [streams, List.map_ofFn, List.map_ofFn] at parsed
  exact parsed

/-- All commands run to their ends exactly when each of them does. -/
theorem Executes.runs {requests : List Delivery} {idConter : Fin requests.length → UInt64}
    {unset : Fin requests.length → Unset} {tr : List (Fin requests.length × CmdEvent)}
    (executes : Executes master fd requests idConter unset tr) (i : Fin requests.length) :
    (requests.get i).Runs master fd (idConter i) (unset i) (own i tr) := by
  obtain ⟨cmds, σ, τ, parsed, created, run, returned⟩ := executes
  rw [parseAll_into] at parsed
  cases parsed
  have spawned := created i
  rw [List.getElem?_ofFn, dif_pos i.isLt] at spawned
  exact ⟨σ i, τ i, Option.some.inj spawned, run.project i, returned i⟩

theorem executes_of_runs {requests : List Delivery} {idConter : Fin requests.length → UInt64}
    {f : Fin requests.length → List CmdEvent} (unset : Fin requests.length → Unset)
    (runs : ∀ i, (requests.get i).Runs master fd (idConter i) (unset i) (f i)) :
    ∃ tr, Executes master fd requests idConter unset tr ∧ ∀ i, own i tr = f i := by
  choose σ τ created run returned using runs
  obtain ⟨tr, all, own_tr⟩ := Run.gather run _ (List.nodup_finRange requests.length)
  simp only [List.mem_finRange, if_true] at all own_tr
  refine ⟨tr, ⟨_, σ, τ, parseAll_into fd requests unset, fun i => ?_, all, returned⟩, own_tr⟩
  rw [List.getElem?_ofFn, dif_pos i.isLt]
  exact congrArg some (created i)

end Delivery

/-! ### The same outcomes with other locals -/

theorem Call.Completes.again {c : Call} (complete : c.Completes tr r) (c' : Call) :
    ∃ tr', c'.Completes tr' r ∧ inputs tr' = inputs tr := by
  induction complete with
  | last conclusive => exact ⟨_, .last conclusive, rfl⟩
  | retry timeout _ ih =>
    obtain ⟨tr', complete, same⟩ := ih
    exact ⟨_, .retry timeout complete, by simp only [sends, inputs_output, inputs_input, same]⟩

theorem ReadCmd.Completes.again {cmd : ReadCmd} (complete : cmd.Completes rep tr)
    (cmd' : ReadCmd) (rep' : Reply) : ∃ tr', cmd'.Completes rep' tr' ∧ inputs tr' = inputs tr := by
  cases complete with
  | first call =>
    obtain ⟨tr', call', same⟩ := call.again (cmd'.firstCall rep')
    exact ⟨_, .first call', by rw [inputs_append, inputs_append, same]; rfl⟩
  | second call₁ call₂ =>
    obtain ⟨tr₁', call₁', same₁⟩ := call₁.again (cmd'.firstCall rep')
    obtain ⟨tr₂', call₂', same₂⟩ := call₂.again (cmd'.secondCall rep')
    exact ⟨_, .second call₁' call₂', by simp only [inputs_append, same₁, same₂, inputs_replies]⟩
  | neither call₁ call₂ =>
    obtain ⟨tr₁', call₁', same₁⟩ := call₁.again (cmd'.firstCall rep')
    obtain ⟨tr₂', call₂', same₂⟩ := call₂.again (cmd'.secondCall rep')
    exact ⟨_, .neither call₁' call₂', by rw [inputs_append, inputs_append, same₁, same₂]⟩

/-- A datagram replaces the bytes of the block that it reaches. -/
theorem Reply.patch_block (rep : Reply) (bytes : List UInt8) :
    (codec.patch rep bytes).block =
      (Codec.chars 4096).patch rep.block (bytes.drop offsetofBlock) := by
  rw [codec, Codec.patch_record]
  exact Codec.patch_second fields (Codec.chars 4096) _ bytes

/-- A datagram that is too short leaves the last byte of the block. -/
theorem Reply.patch_last {bytes : List UInt8} (short : bytes.length < codec.size) (rep : Reply) :
    (codec.patch rep bytes).block.toList[4095]? = rep.block.toList[4095]? := by
  have size : codec.size = 4109 := rfl
  have front : offsetofBlock = 13 := rfl
  rw [patch_block, Codec.chars_patch_getElem? _ _ (by decide), List.getElem?_drop,
    List.getElem?_eq_none (by omega), Option.none_or]

namespace Delivery

/-- The command that a READ becomes. -/
def readCmd (master : Master) (fd : Int32) (r : Delivery) (idConter : UInt64) (unset : Unset) :
    ReadCmd :=
  .run master idConter (CmdArgs.codec.encode (NbdProxy.cmdArgs unset.args fd r.request.header))

def nbdReply (r : Delivery) : List UInt8 :=
  NbdReply.codec.encode ⟨nbdReplyMagic, 0, r.request.handle⟩

section
variable {master : Master} {fd : Int32} {r : Delivery} {idConter : UInt64} {unset : Unset}

theorem runs_read_iff (read : r.isRead = true) : r.Runs master fd idConter unset tr ↔
    (r.readCmd master fd idConter unset).Completes unset.rep1 tr := by
  cases kind : r.request.transfer with
  | write => simp [isRead, kind, Transfer.isRead] at read
  | read len =>
    have data : (r.into unset).cmdData fd = ⟨"ReadCmd",
        CmdArgs.codec.encode (NbdProxy.cmdArgs unset.args fd r.request.header)⟩ := by
      simp only [into, Incoming.cmdData, ClientRequest.cmdData, kind]
    rw [Runs, data, spawn_read]
    constructor
    · rintro ⟨_, t, ⟨⟩, run, returned⟩
      exact Running.read_completes run returned
    · intro complete
      exact ⟨_, _, rfl, Running.run_read (ReadCmd.run_of_completes complete), rfl⟩

theorem Runs.read_replies (runs : r.Runs master fd idConter unset tr) (read : r.isRead = true)
    (taken : .datagram bytes ∈ inputs tr) : replies tr =
      [(fd, r.nbdReply), (fd, (Reply.codec.patch unset.rep1 bytes).block.toList)] := by
  obtain ⟨_, silent⟩ | ⟨other, only, written⟩ := ((runs_read_iff read).mp runs).answered
  · exact absurd taken (silent bytes)
  · rw [written, (only bytes).mp taken, ReadCmd.replies_replies, readCmd, ReadCmd.run,
      Codec.decode_encode]
    rfl

theorem Runs.read_silent (runs : r.Runs master fd idConter unset tr) (read : r.isRead = true)
    (silent : ∀ bytes, .datagram bytes ∉ inputs tr) : replies tr = [] := by
  obtain ⟨nothing, _⟩ | ⟨bytes, only, _⟩ := ((runs_read_iff read).mp runs).answered
  · exact nothing
  · exact absurd ((only bytes).mpr rfl) (silent bytes)

theorem Runs.write_replies (runs : r.Runs master fd idConter unset tr) (write : r.isRead = false) :
    replies tr = [(fd, r.nbdReply)] := by
  obtain ⟨s, t, created, run, returned⟩ := runs
  cases Incoming.started_of_spawn created with
  | read rep read => exact absurd (write.symm.trans read) (by decide)
  | @write cmd rep _ socket reply =>
    obtain ⟨r₁, r₂, complete⟩ := Running.write_completes run returned
    rw [complete.replies, socket, reply]
    rfl

theorem Runs.again (runs : r.Runs master fd idConter unset tr) (read : r.isRead = true)
    (unset' : Unset) :
    ∃ tr', r.Runs master fd idConter unset' tr' ∧ inputs tr' = inputs tr := by
  obtain ⟨tr', complete, same⟩ := ((runs_read_iff read).mp runs).again
    (r.readCmd master fd idConter unset') unset'.rep1
  exact ⟨tr', (runs_read_iff read).mpr complete, same⟩

/-- The locals of a READ show in its reply exactly when the datagram it takes is no
whole reply; those of a WRITE never do. -/
theorem Runs.same_iff (runs : r.Runs master fd idConter unset tr) :
    (∀ unset' tr', r.Runs master fd idConter unset' tr' → inputs tr' = inputs tr →
      replies tr' = replies tr) ↔
      (r.isRead = true → ∀ bytes, .datagram bytes ∈ inputs tr →
        Reply.codec.size ≤ bytes.length) := by
  cases read : r.isRead with
  | false =>
    refine iff_of_true (fun unset' tr' runs' _ => ?_) nofun
    rw [runs'.write_replies read, runs.write_replies read]
  | true =>
    constructor
    · intro same _ bytes taken
      by_contra short
      -- whatever the struct held, its last byte is that of the reply
      have last (byte : UInt8) : some byte =
          (Reply.codec.patch unset.rep1 bytes).block.toList[4095]? := by
        let unset' := { unset with rep1.block := List.Vector.replicate 4096 byte }
        obtain ⟨tr', runs', inputs'⟩ := runs.again read unset'
        have block := same unset' tr' runs' inputs'
        rw [runs'.read_replies read (inputs' ▸ taken), runs.read_replies read taken] at block
        simp only [List.cons.injEq, Prod.mk.injEq, true_and, and_true] at block
        rw [← block, Reply.patch_last (by omega)]
        exact (List.getElem?_replicate_of_lt (by decide)).symm
      exact absurd ((last 0).trans (last 1).symm) (by decide)
    · intro whole unset' tr' runs' same
      by_cases answered : ∃ bytes, .datagram bytes ∈ inputs tr
      · obtain ⟨bytes, taken⟩ := answered
        have size := whole rfl bytes taken
        rw [runs'.read_replies read (same ▸ taken), runs.read_replies read taken,
          Codec.patch_complete _ _ size, Codec.patch_complete _ _ size]
      · have silent := not_exists.mp answered
        rw [runs.read_silent read silent, runs'.read_silent read (by rwa [same])]

end

/-- In a pool of commands every READ is for itself. -/
theorem Executes.same_iff {master : Master} {requests : List Delivery}
    {idConter : Fin requests.length → UInt64} {unset : Fin requests.length → Unset}
    {tr : List (Fin requests.length × CmdEvent)}
    (executes : Executes master fd requests idConter unset tr) :
    (∀ unset' tr', Executes master fd requests idConter unset' tr' →
      (∀ i, inputs (own i tr') = inputs (own i tr)) →
        ∀ i, replies (own i tr') = replies (own i tr)) ↔
      ∀ i, (requests.get i).isRead = true → ∀ bytes, .datagram bytes ∈ inputs (own i tr) →
        Reply.codec.size ≤ bytes.length := by
  constructor
  · intro same i
    refine (executes.runs i).same_iff.mp fun unset' trᵢ runs inputsᵢ => ?_
    have others (j : Fin requests.length) : (requests.get j).Runs master fd (idConter j)
        (Function.update unset i unset' j) (Function.update (own · tr) i trᵢ j) := by
      by_cases here : j = i
      · subst here
        rwa [Function.update_self, Function.update_self]
      · rw [Function.update_of_ne here, Function.update_of_ne here]
        exact executes.runs j
    obtain ⟨tr', executes', own_tr'⟩ := executes_of_runs _ others
    have bytes := same _ tr' executes' (fun j => by
      rw [own_tr']
      by_cases here : j = i
      · subst here
        rwa [Function.update_self]
      · rw [Function.update_of_ne here]) i
    rwa [own_tr', Function.update_self] at bytes
  · intro whole unset' tr' executes' same i
    exact (executes.runs i).same_iff.mpr (whole i) _ _ (executes'.runs i) (same i)

end Delivery

/-- Uninitialized memory reaches a minion's socket exactly when a READ that it serves
misses its key, and the NBD socket exactly when a READ takes a datagram that is no
whole reply. -/
theorem leak_free_iff (served : List Service) (storage : StorageManager) (master : Master)
    (fd : Int32) (requests : List Delivery) (idConter : Fin requests.length → UInt64)
    (unset : Fin requests.length → Unset) (tr : List (Fin requests.length × CmdEvent))
    (executes : Delivery.Executes master fd requests idConter unset tr) :
    ((∀ locals locals',
      Service.serve served locals storage = Service.serve served locals' storage) ↔
        Service.Finds (fun key => storage.map key ≠ none) served) ∧
    ((∀ unset' tr', Delivery.Executes master fd requests idConter unset' tr' →
      (∀ i, inputs (own i tr') = inputs (own i tr)) →
        ∀ i, replies (own i tr') = replies (own i tr)) ↔
      ∀ i, (requests.get i).isRead = true → ∀ bytes, .datagram bytes ∈ inputs (own i tr) →
        Reply.codec.size ≤ bytes.length) :=
  ⟨Service.serve_same_iff served storage, executes.same_iff⟩

/-- A READ of offset 0, and on the minion a WRITE of that offset before it. -/
theorem leak_free_iff_stored :
    let write : Service := ⟨⟨1, Kind.write.code, 0, Block.zero⟩, some 8, default⟩
    let read : Service := ⟨⟨2, Kind.read.code, 0, Block.zero⟩, none, default⟩
    let requests : List Delivery := [⟨Incoming.readZero.request, [], Incoming.readZero.arrives⟩]
    (∀ locals locals',
      Service.serve [write, read] locals .empty = Service.serve [write, read] locals' .empty) ∧
    ∃ tr, Delivery.Executes .configured 3 requests (fun _ => 0) (fun _ => default) tr ∧
      ∀ unset' tr', Delivery.Executes .configured 3 requests (fun _ => 0) unset' tr' →
        (∀ i, inputs (own i tr') = inputs (own i tr)) →
          ∀ i, replies (own i tr') = replies (own i tr) := by
  intro write read requests
  let answer := Reply.codec.encode ⟨2, Kind.read.code, Error.none.code, Block.zero⟩
  obtain ⟨trace, received, runs⟩ : ∃ trace, inputs trace = [.datagram answer] ∧
      (requests.get 0).Runs .configured 3 0 default trace :=
    ⟨_, rfl, (Delivery.runs_read_iff rfl).mpr (.first (.last rfl))⟩
  have all (i : Fin requests.length) :
      (requests.get i).Runs .configured 3 0 default trace := by
    rw [show i = 0 from Fin.fin_one_eq_zero i]
    exact runs
  obtain ⟨tr, executes, own_tr⟩ := Delivery.executes_of_runs (fun _ => default) all
  have settled := leak_free_iff [write, read] .empty .configured 3 requests _ _ tr executes
  refine ⟨settled.1.mpr ?_, tr, executes, settled.2.mpr ?_⟩
  · simp [Service.Finds, write, read, Kind.code]
  · intro i _ bytes taken
    rw [own_tr, received, List.mem_singleton, Received.datagram.injEq] at taken
    rw [taken, Codec.encode_length]

/-- A READ of a block that was never written: all bytes behind the first one of the
block in the answer are left from the stack. -/
theorem leaks_missing :
    let read : Service := ⟨⟨1, Kind.read.code, 0, Block.zero⟩, none, default⟩
    ¬ ∀ locals locals',
      Service.serve [read] locals .empty = Service.serve [read] locals' .empty := by
  intro read same
  have finds := (Service.serve_same_iff [read] .empty).mp same
  simp [Service.Finds, read, StorageManager.empty] at finds

end DistributedDisk
