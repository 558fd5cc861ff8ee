import DistributedDisk.Commands.Requests
import DistributedDisk.NbdProxy.Chunks

/-! Any header that `ParseData` may find in front of it. The length of a transfer
comes with the request; the buffer of a command and the data of a reply have the
4096 bytes of a block. -/
namespace DistributedDisk
open Packed Reactive Transition

namespace NbdProxy
variable {request junk : NbdRequest} {junkArgs : CmdArgs} {fd : Int32} {stream behind : Stream}

def Arrives (request : NbdRequest) (stream behind : Stream) : Prop :=
  read NbdRequest.codec.size stream = (some (NbdRequest.codec.encode request), behind)

theorem arrives_data (request : NbdRequest) (behind : Stream) :
    Arrives request (.data (NbdRequest.codec.encode request) :: behind) behind := by
  have size := NbdRequest.codec.encode_length request
  rw [Arrives, read, List.take_of_length_le (by omega), if_pos (by omega)]

theorem parseData_read (arrives : Arrives request stream behind)
    (type : request.type = nbdCmdRead) : parseData junk junkArgs fd stream =
      .ok (⟨"ReadCmd", CmdArgs.codec.encode (cmdArgs junkArgs fd request)⟩, behind) := by
  rw [Arrives] at arrives
  simp only [parseData, arrives, Codec.patch_encode, type, if_true]

/-- Every other type is read like a write. -/
theorem parseData_other (arrives : Arrives request stream behind)
    (type : request.type ≠ nbdCmdRead) : parseData junk junkArgs fd stream =
      (readAll behind 4096 request.len.toNat).map fun (payload, rest) =>
        (⟨"WriteCmd", CmdArgs.codec.encode { cmdArgs junkArgs fd request with
          block := (Codec.chars 4096).patch junkArgs.block payload }⟩, rest) := by
  rw [Arrives] at arrives
  simp only [parseData, arrives, Codec.patch_encode, if_neg (Ne.symm type)]
  cases readAll behind 4096 request.len.toNat <;> rfl

/-- Nothing is written behind a buffer that has room for all bytes asked for. -/
theorem readAll_fits (fits : count ≤ room) : readAll stream room count ≠ .error .overrun := by
  fun_induction readAll stream room count with
  | case1 => simp
  | case2 fd room count _ bytes rest first _ behind =>
    have := (read_bytes first).2
    omega
  | case3 _ _ _ _ _ _ _ _ _ failure below ih =>
    intro same
    cases same
    exact ih (by omega) below
  | case4 => simp
  | case5 => simp
  | case6 => simp

/-- Bytes that arrive together are written wherever they go. -/
theorem readAll_overrun (small : room < count) (rest : Stream) :
    readAll (.data (List.replicate count 0) :: rest) room count = .error .overrun := by
  rw [readAll, if_pos (by omega), read, List.take_of_length_le (by simp)]
  simp only [List.length_replicate, Nat.le_refl, if_true, if_pos (by omega : 0 < count),
    if_pos small]

end NbdProxy

def dataBytes (tr : List CmdEvent) : List UInt8 := ((replies tr).drop 1).flatMap Prod.snd

/-- The transfer is as long as the request says: `ParseData` stays inside its
buffer, and an answered READ writes `len` bytes of data. -/
structure RespectsLen (request : NbdRequest) : Prop where
  block : ∀ junk junkArgs fd stream behind, NbdProxy.Arrives request stream behind →
    NbdProxy.parseData junk junkArgs fd stream ≠ .error .overrun
  reply : ∀ junk junkArgs fd stream behind data rest master locals s tr t,
    NbdProxy.Arrives request stream behind →
    NbdProxy.parseData junk junkArgs fd stream = .ok (data, rest) →
    spawn master locals data = .ok s → request.type = nbdCmdRead →
    Run (Step Running.next) s tr t → t.Returned → replies tr ≠ [] →
    (dataBytes tr).length = request.len.toNat

theorem dataBytes_read {cmd : ReadCmd} {rep : Reply}
    (run : Run (Step Running.next) (.read cmd (cmd.start rep)) tr t) (returned : t.Returned)
    (answered : replies tr ≠ []) : (dataBytes tr).length = 4096 := by
  obtain ⟨nothing, _⟩ | ⟨bytes, _, written⟩ := (Running.read_completes run returned).answered
  · exact absurd nothing answered
  · rw [dataBytes, written, ReadCmd.replies_replies]
    simp

theorem exists_answered (cmd : ReadCmd) (rep : Reply) : ∃ tr,
    Run (Step Running.next) (.read cmd (cmd.start rep)) tr (.read cmd .returned) ∧
      replies tr ≠ [] := by
  have call : (cmd.firstCall rep).Completes _ (.datagram (Reply.codec.encode default)) := .last rfl
  refine ⟨_, Running.run_read (ReadCmd.run_of_completes (.first call)), ?_⟩
  rw [replies_append, ReadCmd.replies_replies]
  simp

theorem RespectsLen.len_of_read (respects : RespectsLen request)
    (type : request.type = nbdCmdRead) : request.len.toNat = 4096 := by
  have arrives := NbdProxy.arrives_data request []
  have parsed : NbdProxy.parseData default default 3 _ = _ := NbdProxy.parseData_read arrives type
  obtain ⟨tr, run, answered⟩ := exists_answered (ReadCmd.run .configured 0
    (CmdArgs.codec.encode (NbdProxy.cmdArgs default 3 request))) default
  rw [← respects.reply _ _ _ _ _ _ _ .configured default _ _ _ arrives parsed (spawn_read ..)
    type run rfl answered]
  exact dataBytes_read run rfl answered

theorem RespectsLen.len_of_write (respects : RespectsLen request)
    (type : request.type = nbdCmdWrite) : request.len.toNat ≤ 4096 := by
  by_contra long
  refine respects.block default default 3 _ _ (NbdProxy.arrives_data request
    [.data (List.replicate request.len.toNat 0)]) ?_
  rw [NbdProxy.parseData_other (NbdProxy.arrives_data ..) (by rw [type]; decide),
    NbdProxy.readAll_overrun (by omega)]
  rfl

/-- The code keeps to the length of a READ of one block, and of every WRITE that
fits a block. -/
theorem respectsLen_iff (request : NbdRequest)
    (known : request.type = nbdCmdRead ∨ request.type = nbdCmdWrite) :
    RespectsLen request ↔ (request.type = nbdCmdRead → request.len.toNat = 4096) ∧
      (request.type = nbdCmdWrite → request.len.toNat ≤ 4096) := by
  constructor
  · exact fun respects => ⟨respects.len_of_read, respects.len_of_write⟩
  · rintro ⟨short, fits⟩
    constructor
    · intro junk junkArgs fd stream behind arrives
      rcases known with type | type
      · rw [NbdProxy.parseData_read arrives type]
        simp
      · rw [NbdProxy.parseData_other arrives (by rw [type]; decide)]
        have inside : NbdProxy.readAll behind 4096 request.len.toNat ≠ .error .overrun :=
          NbdProxy.readAll_fits (fits type)
        cases result : NbdProxy.readAll behind 4096 request.len.toNat with
        | error failure =>
          rw [result] at inside
          exact fun same => inside (congrArg Except.error (Except.error.inj same))
        | ok => simp [Except.map]
    · intro junk junkArgs fd stream behind data rest master locals s tr t arrives parsed created
        type run returned answered
      rw [NbdProxy.parseData_read arrives type] at parsed
      cases parsed
      rw [spawn_read] at created
      cases created
      rw [short type, dataBytes_read run returned answered]

theorem respectsLen_iff_block :
    RespectsLen ⟨nbdRequestMagic, nbdCmdRead, List.Vector.replicate 8 7, 0, 4096⟩ :=
  (respectsLen_iff ⟨nbdRequestMagic, nbdCmdRead, List.Vector.replicate 8 7, 0, 4096⟩
    (.inl rfl)).mpr ⟨fun _ => rfl, fun type => absurd type (by decide)⟩

/-- A READ of 1024 bytes gets 4096, a WRITE of 8192 bytes overruns the buffer. -/
theorem respectsLen_fails :
    ¬ RespectsLen ⟨nbdRequestMagic, nbdCmdRead, List.Vector.replicate 8 7, 0, 1024⟩ ∧
      ¬ RespectsLen ⟨nbdRequestMagic, nbdCmdWrite, List.Vector.replicate 8 7, 0, 8192⟩ := by
  constructor
  · intro respects
    exact absurd (respects.len_of_read rfl) (by decide)
  · intro respects
    exact absurd (respects.len_of_write rfl) (by decide)

end DistributedDisk
