import DistributedDisk.Cluster.Network

/-! Exchanges on the link of the code, where a minion takes the datagrams as they
are. The second header of a write that timed out becomes its block, and a `Load`
answers with the memory of the map. -/
namespace DistributedDisk
open Packed Reactive Transition

/-- The link of the code: a datagram carries the bytes of its `sendto`. -/
def singleDatagrams {ι S : Type} (next : ι → S → CmdAction S) : System ι S (List UInt8) :=
  ⟨next, fun _ bytes => bytes, Minion.ReadsDatagram⟩

namespace Cluster
variable {ι S : Type}

def commands [DecidableEq ι] (tr : List (NetEvent ι)) (i : ι) : List CmdEvent :=
  tr.filterMap fun | .client j e => if j = i then some e else none | _ => none

/-- The steps of one command and of the minions. -/
def Alone (i : ι) (tr : List (NetEvent ι)) : Prop :=
  ∀ e ∈ tr, ∀ j move, e = .client j move → j = i

theorem Alone.append {tr tr' : List (NetEvent ι)} (first : Alone i tr) (second : Alone i tr') :
    Alone i (tr ++ tr') := by
  intro e member
  exact (List.mem_append.mp member).elim (first e) (second e)

theorem alone_map (i : ι) (tr : List CmdEvent) : Alone i (tr.map (.client i)) := by
  intro e member j move same
  obtain ⟨_, _, rfl⟩ := List.mem_map.mp member
  cases same
  rfl

section
variable [DecidableEq ι]

theorem commands_append (tr tr' : List (NetEvent ι)) (i : ι) :
    commands (tr ++ tr') i = commands tr i ++ commands tr' i := List.filterMap_append

theorem commands_map (i : ι) (tr : List CmdEvent) : commands (tr.map (.client i)) i = tr := by
  simp [commands, List.filterMap_map]

theorem commands_alone {tr : List (NetEvent ι)} (alone : Alone i tr) (other : j ≠ i) :
    commands tr j = [] := by
  rw [commands, List.filterMap_eq_nil_iff]
  intro e member
  split
  · next k move =>
    rw [if_neg]
    rintro rfl
    exact other (alone _ member k move rfl)
  · rfl

end

section
variable [DecidableEq ι] (next : ι → S → CmdAction S) {σ : Cluster ι S (List UInt8)} {c : Call}
  {storage : StorageManager} {addr : Peer ι} (p : Peer ι) (running : Call → S)
  (returned : Bool → Reply → S)
  (calls : ∀ c, next p.1 (running c) = c.next running returned)
  (client : σ.client p.1 = running c) (fresh : c.point = .send) (socket : c.socket = p.2)
  (arriving : σ.arriving p = []) (minion : σ.minion c.dest = .idle addr storage)
include calls client fresh socket arriving minion

/-- A read is understood at once. The reply holds what `Load` copied. -/
theorem exchange_load (read : c.request.type = Kind.read.code) (beyond : Junk 4088) :
    ∃ tr rep block, Run (Under Reliable (Step (singleDatagrams next))) σ tr
        (σ.focus p c.dest (returned true rep) [] (.idle p storage)) ∧
      Alone p.1 tr ∧ replies (commands tr p.1) = [] ∧
      rep.block = (storage.load beyond block c.request.offset).1 := by
  obtain ⟨i, s⟩ := p
  obtain rfl : c.socket = s := socket
  let p : Peer ι := (i, c.socket)
  let env : Environment := ⟨none, beyond, Block.zero⟩
  let answer := ProtocolTranslator.translateReply c.request.id Kind.read.code
    (some (storage.load beyond Block.zero c.request.offset).1)
    (storage.load beyond Block.zero c.request.offset).2
  let waiting := running { c with point := .receive }
  let asked : Minion (Peer ι) (List UInt8) :=
    ⟨[(p, c.request.header)], addr, none, [], [], [], storage, true⟩
  let queued : Minion (Peer ι) (List UInt8) :=
    ⟨[], p, none, [⟨p, MinionProxy.processRequest c.request⟩], [], [], storage, true⟩
  let popped : Minion (Peer ι) (List UInt8) :=
    ⟨[], p, none, [], [⟨p, MinionProxy.processRequest c.request⟩], [], storage, true⟩
  let answering : Minion (Peer ι) (List UInt8) :=
    ⟨[], p, none, [], [], [(p, answer)], storage, true⟩
  have sends : Step (singleDatagrams next) (σ.focus p c.dest (running c) [] (.idle addr storage)) _
      (σ.focus p c.dest waiting [] asked) := focus_sends (Call.fires_send calls c fresh)
  have other : c.request.type ≠ Kind.write.code := by rw [read]; decide
  have reads : Step (singleDatagrams next) (σ.focus p c.dest waiting [] asked) _
      (σ.focus p c.dest waiting [] queued) := focus_reads
    (.header p c.request c.request rfl rfl rfl (MinionProxy.readHeader_header _ _) other)
  have pops : Step (singleDatagrams next) (σ.focus p c.dest waiting [] queued) _
      (σ.focus p c.dest waiting [] popped) := focus_works (.pop [] [] _ rfl rfl) fun _ => rfl
  have executes : Step (singleDatagrams next) (σ.focus p c.dest waiting [] popped) _
      (σ.focus p c.dest waiting [] answering) := focus_works
    (Minion.works_read [] [] env rfl read rfl rfl) fun _ => rfl
  have answers : Step (singleDatagrams next) (σ.focus p c.dest waiting [] answering) _
      (σ.focus p c.dest waiting [(p, Reply.codec.encode answer)] (.idle p storage)) :=
    focus_answers (.send [] [] p answer rfl rfl) (MinionProxy.reply_read rfl)
  have whole : (c.outcome (.datagram (Reply.codec.encode answer))).2 = answer :=
    Reply.codec.patch_encode c.reply answer
  have receives : Step (singleDatagrams next)
      (σ.focus p c.dest waiting [(p, Reply.codec.encode answer)] (.idle p storage)) _
      (σ.focus p c.dest (returned true _) [] (.idle p storage)) :=
    focus_receives (Call.fires_return calls c rfl)
  rw [whole] at receives
  have run : Run (Under Reliable (Step (singleDatagrams next))) _ _ _ :=
    .next ⟨sends, trivial⟩ <| .next ⟨reads, trivial⟩ <| .next ⟨pops, trivial⟩ <|
    .next ⟨executes, trivial⟩ <| .next ⟨answers, trivial⟩ <| .single ⟨receives, trivial⟩
  rw [← eq_focus client arriving minion] at run
  refine ⟨_, answer, _, run, ?_, ?_, rfl⟩
  · simp [Alone, p]
  · simp [commands, replies, p]

/-- A write goes to the minion twice: the header that is sent again after the
timeout is taken for the block. -/
theorem exchange_store (write : c.request.type = Kind.write.code)
    (memory : storage.Allocates c.request.offset (some pointer)) :
    ∃ tr rep block, Run (Under Reliable (Step (singleDatagrams next))) σ tr
        (σ.focus p c.dest (returned true rep) []
          (.idle p (storage.store (some pointer) block c.request.offset).1)) ∧
      Alone p.1 tr := by
  obtain ⟨i, s⟩ := p
  obtain rfl : c.socket = s := socket
  let p : Peer ι := (i, c.socket)
  let req := MinionProxy.readBlock c.request c.request.header
  let stored := (storage.store (some pointer) req.block c.request.offset).1
  let answer :=
    ProtocolTranslator.translateReply c.request.id Kind.write.code (some Block.zero) .none
  let waiting := running { c with point := .receive }
  let asked : Minion (Peer ι) (List UInt8) :=
    ⟨[(p, c.request.header)], addr, none, [], [], [], storage, true⟩
  let reading : Minion (Peer ι) (List UInt8) :=
    ⟨[], p, some (p, c.request), [], [], [], storage, true⟩
  let again : Minion (Peer ι) (List UInt8) :=
    ⟨[(p, c.request.header)], p, some (p, c.request), [], [], [], storage, true⟩
  let queued : Minion (Peer ι) (List UInt8) :=
    ⟨[], p, none, [⟨p, MinionProxy.processRequest req⟩], [], [], storage, true⟩
  let popped : Minion (Peer ι) (List UInt8) :=
    ⟨[], p, none, [], [⟨p, MinionProxy.processRequest req⟩], [], storage, true⟩
  let answering : Minion (Peer ι) (List UInt8) :=
    ⟨[], p, none, [], [], [(p, answer)], stored, true⟩
  have sends : Step (singleDatagrams next) (σ.focus p c.dest (running c) [] (.idle addr storage)) _
      (σ.focus p c.dest waiting [] asked) := focus_sends (Call.fires_send calls c fresh)
  have reads : Step (singleDatagrams next) (σ.focus p c.dest waiting [] asked) _
      (σ.focus p c.dest waiting [] reading) := focus_reads
    (.headerOfWrite p c.request c.request rfl rfl rfl (MinionProxy.readHeader_header _ _) write)
  have timesOut : Step (singleDatagrams next) (σ.focus p c.dest waiting [] reading) _
      (σ.focus p c.dest (running c) [] reading) :=
    focus_timeout (Call.fires_timeout calls c fresh rfl)
  have retries : Step (singleDatagrams next) (σ.focus p c.dest (running c) [] reading) _
      (σ.focus p c.dest waiting [] again) := focus_sends (Call.fires_send calls c fresh)
  have takes : Step (singleDatagrams next) (σ.focus p c.dest waiting [] again) _
      (σ.focus p c.dest waiting [] queued) := focus_reads (.block p p c.request _ rfl rfl rfl)
  have type : req.type = Kind.write.code := write
  have pops : Step (singleDatagrams next) (σ.focus p c.dest waiting [] queued) _
      (σ.focus p c.dest waiting [] popped) := focus_works (.pop [] [] _ rfl rfl) fun _ => rfl
  have executes : Step (singleDatagrams next) (σ.focus p c.dest waiting [] popped) _
      (σ.focus p c.dest waiting [] answering) := focus_works
    (Minion.works_write [] [] ⟨some pointer, default, Block.zero⟩ rfl type rfl rfl memory)
    fun _ => rfl
  have answers : Step (singleDatagrams next) (σ.focus p c.dest waiting [] answering) _
      (σ.focus p c.dest waiting [(p, answer.header)] (.idle p stored)) :=
    focus_answers (.send [] [] p answer rfl rfl) rfl
  have receives : Step (singleDatagrams next)
      (σ.focus p c.dest waiting [(p, answer.header)] (.idle p stored)) _
      (σ.focus p c.dest (returned true _) [] (.idle p stored)) :=
    focus_receives (Call.fires_return calls c rfl)
  have run : Run (Under Reliable (Step (singleDatagrams next))) _ _ _ :=
    .next ⟨sends, trivial⟩ <| .next ⟨reads, trivial⟩ <| .next ⟨timesOut, rfl⟩ <|
    .next ⟨retries, trivial⟩ <| .next ⟨takes, trivial⟩ <| .next ⟨pops, trivial⟩ <|
    .next ⟨executes, trivial⟩ <| .next ⟨answers, trivial⟩ <| .single ⟨receives, trivial⟩
  rw [← eq_focus client arriving minion] at run
  exact ⟨_, _, req.block, run, by simp [Alone, p]⟩

end

end Cluster
end DistributedDisk
