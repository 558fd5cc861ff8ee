import DistributedDisk.Cluster.Messages
import DistributedDisk.Commands.WriteCmd

/-! Concurrent `WriteCmd`s on one key. Each of the two minions keeps the block
that it stored last, and nothing makes the two minions store in the same order. -/
namespace DistributedDisk
open Packed Reactive Transition

/-- Where the socket of an exchange sends to. -/
def WriteCmd.dest (cmd : WriteCmd) : Exchange → SockAddr
  | .first => ClientUDPSocket.sockaddr cmd.min1.ip cmd.min1.port
  | .second => ClientUDPSocket.sockaddr cmd.min2.ip cmd.min2.port

namespace Cluster
variable {ι : Type}

/-- The minion has executed a request that was sent to it. -/
def Served (tr : List (NetEvent ι)) (a : SockAddr) : Prop := ∃ p, SentTo tr p a ∧ Executed tr a p

theorem Served.append {tr : List (NetEvent ι)} (served : Served tr a) (tr') :
    Served (tr ++ tr') a := by
  obtain ⟨p, sent, executed⟩ := served
  exact ⟨p, sent.append _, executed.append _⟩

/-- What a write has achieved when it has come to a point. -/
def Progress (cmd : WriteCmd) (tr : List (NetEvent ι)) : WriteCmd.Point → Prop
  | .first call => call.socket = .first ∧ call.dest = cmd.dest .first
  | .second _ call => (call.socket = .second ∧ call.dest = cmd.dest .second) ∧
      Served tr (cmd.dest .first)
  | _ => Served tr (cmd.dest .first) ∧ Served tr (cmd.dest .second)

theorem Progress.append {cmd : WriteCmd} {tr : List (NetEvent ι)} (progress : Progress cmd tr point)
    (tr') : Progress cmd (tr ++ tr') point := by
  cases point with
  | first => exact progress
  | second => exact progress.imp_right (Served.append · _)
  | logError | reply | returned => exact progress.imp (Served.append · _) (Served.append · _)

theorem datagram_of_returns {r : Received} (conclusive : r.timesOut = false)
    (timeout : ∀ errno, r = .failed errno → errno = eagain) : ∃ bytes, r = .datagram bytes := by
  cases r with
  | datagram bytes => exact ⟨bytes, rfl⟩
  | failed errno =>
    rw [timeout errno rfl] at conclusive
    contradiction

theorem Progress.step {cmd : WriteCmd} {tr : List (NetEvent ι)} (progress : Progress cmd tr point)
    (fires : Fires (cmd.next point) e point')
    (answered : ∀ socket bytes, e = .input socket (.datagram bytes) → Served tr (cmd.dest socket))
    (timeout : ∀ socket errno, e = .input socket (.failed errno) → errno = eagain) :
    Progress cmd tr point' ∧
      ∀ socket a bytes, e = .output (.sendto socket a bytes) → a = cmd.dest socket := by
  cases point with
  | first call =>
    obtain ⟨socket, dest⟩ := progress
    cases Call.moves_of_fires fires with
    | sends =>
      refine ⟨⟨socket, dest⟩, fun _ _ _ same => ?_⟩
      cases same
      rw [socket, dest]
    | retries => exact ⟨⟨socket, dest⟩, by simp⟩
    | returns r _ conclusive =>
      obtain ⟨bytes, rfl⟩ := datagram_of_returns conclusive fun errno same =>
        timeout call.socket errno (by rw [same])
      exact ⟨⟨⟨rfl, rfl⟩, socket ▸ answered call.socket bytes rfl⟩, by simp⟩
  | second rep1 call =>
    obtain ⟨⟨socket, dest⟩, first⟩ := progress
    cases Call.moves_of_fires fires with
    | sends =>
      refine ⟨⟨⟨socket, dest⟩, first⟩, fun _ _ _ same => ?_⟩
      cases same
      rw [socket, dest]
    | retries => exact ⟨⟨⟨socket, dest⟩, first⟩, by simp⟩
    | returns r _ conclusive =>
      obtain ⟨bytes, rfl⟩ := datagram_of_returns conclusive fun errno same =>
        timeout call.socket errno (by rw [same])
      have second := socket ▸ answered call.socket bytes rfl
      refine ⟨?_, by simp⟩
      unfold WriteCmd.afterSecond
      split <;> exact ⟨first, second⟩
  | logError => cases fires; exact ⟨progress, by simp⟩
  | reply => cases fires; exact ⟨progress, by simp⟩
  | returned => cases fires

variable [DecidableEq ι]

/-- The commands on a link whose write messages carry their blocks. -/
def writers (cmd : ι → WriteCmd) : System ι WriteCmd.Point Request :=
  wholeMessages (fun i => (cmd i).next) fun p => (cmd p.1).req

structure Writing (cmd : ι → WriteCmd) (tr : List (NetEvent ι))
    (σ : Cluster ι WriteCmd.Point Request) : Prop where
  known : Known (fun p => (cmd p.1).req) tr σ
  stored : ∀ a, Stored (fun p => (cmd p.1).req) tr a (σ.minion a)
  progress : ∀ i, Progress (cmd i) tr (σ.client i)
  sent : ∀ p a, SentTo tr p a → a = (cmd p.1).dest p.2
  up : ∀ a, (σ.minion a).running = true

theorem Writing.step {cmd : ι → WriteCmd} {σ : Cluster ι WriteCmd.Point Request}
    (writing : Writing cmd tr σ) (step : Step (writers cmd) σ e σ') (reliable : Reliable σ e) :
    Writing cmd (tr ++ [e]) σ' := by
  have known := writing.known.step step
  have stored := Stored.step writing.known writing.stored step
  have up := up_of_step step reliable writing.up
  have progress i := (writing.progress i).append [e]
  obtain ⟨i, move, rfl, fires, others, taken⟩ | ⟨none, same⟩ := client_cases step
  · have answered : ∀ socket bytes, move = .input socket (.datagram bytes) →
        Served tr ((cmd i).dest socket) := by
      intro socket bytes input
      obtain ⟨origin, rest, waiting⟩ := taken socket bytes input
      obtain ⟨a, asked, sent, executed⟩ := writing.known.arriving (i, socket) origin bytes
        (by simp [waiting])
      obtain rfl := writing.sent _ _ asked
      exact ⟨origin, sent, executed⟩
    have moved := (writing.progress i).step fires answered
      fun socket errno input => by subst input; exact reliable
    refine ⟨known, stored, fun j => ?_, fun p a sent => ?_, up⟩
    · by_cases here : j = i
      · subst here
        exact moved.1.append _
      · rw [others j here]
        exact progress j
    · obtain sent | ⟨bytes, last⟩ := sent.cases
      · exact writing.sent p a sent
      · cases last
        exact moved.2 _ _ _ rfl
  · refine ⟨known, stored, fun j => ?_, fun p a sent => ?_, up⟩
    · rw [same]
      exact progress j
    · obtain sent | ⟨bytes, last⟩ := sent.cases
      · exact writing.sent p a sent
      · exact absurd last (none _ _)

/-- The write that a minion stored last for the key, and what the key holds. -/
def HoldsLast (cmd : ι → WriteCmd) (tr : List (NetEvent ι)) (key : UInt64) (a : SockAddr)
    (m : Minion (Peer ι) Request) (i : ι) : Prop :=
  (∃ socket, (stores (fun p => (cmd p.1).req) tr a key).getLast? = some (i, socket)) ∧
    m.storage.lookup key = some (cmd i).args.block

omit [DecidableEq ι] in
theorem holdsLast_of_served {cmd : ι → WriteCmd} {m : Minion (Peer ι) Request}
    (write : ∀ i, (cmd i).req.type = Kind.write.code ∧ (cmd i).req.offset = key ∧
      (cmd i).req.block = (cmd i).args.block)
    (stored : Stored (fun p => (cmd p.1).req) tr a m) (up : m.running = true)
    (served : Served tr a) : ∃ i, HoldsLast cmd tr key a m i := by
  obtain ⟨p, _, executed⟩ := served
  have member : p ∈ stores (fun p => (cmd p.1).req) tr a key :=
    (mem_stores _).mpr ⟨executed, (write p.1).1, (write p.1).2.1⟩
  have nonempty := List.ne_nil_of_mem member
  have last := List.getLast?_eq_some_getLast nonempty
  refine ⟨_, ⟨_, last⟩, ?_⟩
  rw [stored.latest up key _ last, (write _).2.2]

/-- Once a write has replied, each of its two minions holds the block of the
write that it stored last, and they agree if that is the same block. -/
theorem replicas_hold_last (master : Master) (conter : ι → UInt64) (rep1 rep2 : ι → Reply)
    (data : ι → List UInt8) (key : UInt64) (same : ∀ i, (CmdArgs.codec.decode (data i)).key = key)
    (cmd : ι → WriteCmd) (created : ∀ i, cmd i = WriteCmd.run master (conter i) (rep2 i) (data i))
    (σ₀ : Cluster ι WriteCmd.Point Request) (idle : σ₀.Idle)
    (sound : ∀ a, (σ₀.minion a).storage.Sound) (start : ∀ i, σ₀.client i = (cmd i).start (rep1 i))
    (run : Run (Under Reliable (Step (writers cmd))) σ₀ tr σ) (w : ι)
    (replied : σ.client w = .returned) :
    ∃ i j, HoldsLast cmd tr key ((cmd w).dest .first) (σ.minion ((cmd w).dest .first)) i ∧
      HoldsLast cmd tr key ((cmd w).dest .second) (σ.minion ((cmd w).dest .second)) j ∧
      ((σ.minion ((cmd w).dest .first)).storage.lookup key =
        (σ.minion ((cmd w).dest .second)).storage.lookup key ↔
          (cmd i).args.block = (cmd j).args.block) := by
  have writing : Writing cmd tr σ := by
    refine run.history ⟨.of_idle idle, fun a => ⟨fun _ => sound a, by simp [stores]⟩, fun i => ?_,
      by simp [SentTo], fun a => ?_⟩ fun writing step => writing.step step.1 step.2
    · rw [start i]
      exact ⟨rfl, rfl⟩
    · obtain ⟨addr, storage, here⟩ := idle.minion a
      rw [here]
      rfl
  have write : ∀ i, (cmd i).req.type = Kind.write.code ∧ (cmd i).req.offset = key ∧
      (cmd i).req.block = (cmd i).args.block := by
    intro i
    rw [created i]
    exact ⟨rfl, same i, rfl⟩
  have progress := writing.progress w
  rw [replied] at progress
  obtain ⟨i, first⟩ := holdsLast_of_served write (writing.stored _) (writing.up _) progress.1
  obtain ⟨j, second⟩ := holdsLast_of_served write (writing.stored _) (writing.up _) progress.2
  refine ⟨i, j, first, second, ?_⟩
  rw [first.2, second.2, Option.some.injEq]

/-! ### Two writes, one after the other on each minion -/

section
variable {cmd : ι → WriteCmd} {σ : Cluster ι WriteCmd.Point Request} {storage : StorageManager}
  {pointer : Pointer} (i : ι) (write : (cmd i).req.type = Kind.write.code)
  (memory : storage.Allocates (cmd i).req.offset (some pointer))
  (quiet : ∀ p, σ.arriving p = [])
include write memory quiet

theorem first_exchange (client : σ.client i = (cmd i).start rep)
    (minion : σ.minion ((cmd i).dest .first) = .idle addr storage) :
    ∃ tr σ' rep1, Run (Under Reliable (Step (writers cmd))) σ tr σ' ∧
      σ'.client = Function.update σ.client i (.second rep1 (cmd i).secondCall) ∧
      (∀ p, σ'.arriving p = []) ∧
      σ'.minion = Function.update σ.minion ((cmd i).dest .first) (.idle (i, .first)
        (storage.store (some pointer) (cmd i).req.block (cmd i).req.offset).1) := by
  have exchange : ∃ rep1, Run (Under Reliable (Step (writers cmd))) σ
      (exchanged (fun p => (cmd p.1).req) (i, .first) ((cmd i).firstCall rep))
      (σ.focus (i, .first) ((cmd i).dest .first) ((cmd i).afterFirst true rep1) []
        (.idle (i, .first)
          (storage.store (some pointer) (cmd i).req.block (cmd i).req.offset).1)) :=
    exchange_write (fun p => (cmd p.1).req) (writers cmd).next (i, .first) WriteCmd.Point.first
      (cmd i).afterFirst (fun _ => rfl) client rfl rfl (quiet _) minion write memory
  obtain ⟨rep1, run⟩ := exchange
  refine ⟨_, _, rep1, run, rfl, ?_, rfl⟩
  exact (Function.forall_update_iff _ fun _ l => l = []).mpr ⟨rfl, fun p _ => quiet p⟩

/-- The second exchange, and the end of the command. -/
theorem second_exchange (client : σ.client i = .second rep1 (cmd i).secondCall)
    (minion : σ.minion ((cmd i).dest .second) = .idle addr storage) :
    ∃ tr σ', Run (Under Reliable (Step (writers cmd))) σ tr σ' ∧
      σ'.client = Function.update σ.client i .returned ∧ (∀ p, σ'.arriving p = []) ∧
      σ'.minion = Function.update σ.minion ((cmd i).dest .second) (.idle (i, .second)
        (storage.store (some pointer) (cmd i).req.block (cmd i).req.offset).1) := by
  let reached (rep2 : Reply) : Cluster ι WriteCmd.Point Request :=
    σ.focus (i, .second) ((cmd i).dest .second) (WriteCmd.afterSecond rep1 true rep2) []
      (.idle (i, .second) (storage.store (some pointer) (cmd i).req.block (cmd i).req.offset).1)
  have exchange : ∃ rep2, Run (Under Reliable (Step (writers cmd))) σ
      (exchanged (fun p => (cmd p.1).req) (i, .second) (cmd i).secondCall) (reached rep2) :=
    exchange_write (fun p => (cmd p.1).req) (writers cmd).next (i, .second)
      (WriteCmd.Point.second rep1) (WriteCmd.afterSecond rep1) (fun _ => rfl) client rfl rfl
      (quiet _) minion write memory
  obtain ⟨rep2, run⟩ := exchange
  have client' : (reached rep2).client i = WriteCmd.afterSecond rep1 true rep2 :=
    Function.update_self ..
  have returns : Run (Reactive.Step ((writers cmd).next i)) _ _ _ :=
    WriteCmd.run_of_tail true rep1 rep2
  have ends := run_outputs i returns client' ((cmd i).tail_outputs rep1 rep2)
  refine ⟨_, _, run.trans ends, by simp [reached, focus], ?_, rfl⟩
  exact (Function.forall_update_iff _ fun _ l => l = []).mpr ⟨rfl, fun p _ => quiet p⟩

end

/-- Two writes of key 0 in the shipped configuration. -/
def twoWrites (i : Bool) : WriteCmd :=
  .run .configured 0 default (CmdArgs.codec.encode { (default : CmdArgs) with
    block := cond i (List.Vector.replicate 4096 1) Block.zero })

theorem twoWrites_eq (i : Bool) : (twoWrites i).dest .first = Socket.sockaddr inaddrLoopback 5007 ∧
    (twoWrites i).dest .second = Socket.sockaddr inaddrLoopback 5008 ∧
    (twoWrites i).req = .new 1 Kind.write.code 0 (some (twoWrites i).args.block) ∧
    (twoWrites i).args.block = cond i (List.Vector.replicate 4096 1) Block.zero := by
  rw [twoWrites, WriteCmd.run_encode]
  exact ⟨rfl, rfl, rfl, rfl⟩

/-- The first minion stores `false` and then `true`, the second `true` and then
`false`; both writes have replied. -/
theorem twoWrites_run : ∃ tr σ, Run (Under Reliable (Step (writers twoWrites)))
      (initial (fun i => (twoWrites i).start default) (false, .first)) tr σ ∧
    (∀ i, σ.client i = .returned) ∧
    (σ.minion ((twoWrites false).dest .first)).storage.lookup 0 = some (twoWrites true).args.block ∧
    (σ.minion ((twoWrites false).dest .second)).storage.lookup 0 =
      some (twoWrites false).args.block := by
  let σ₀ : Cluster Bool WriteCmd.Point Request :=
    initial (fun i => (twoWrites i).start default) (false, .first)
  have dest₁ i := (twoWrites_eq i).1
  have dest₂ i := (twoWrites_eq i).2.1
  have write i : (twoWrites i).req.type = Kind.write.code := by rw [(twoWrites_eq i).2.2.1]; rfl
  have offset i : (twoWrites i).req.offset = 0 := by rw [(twoWrites_eq i).2.2.1]; rfl
  have block i : (twoWrites i).req.block = (twoWrites i).args.block := by
    rw [(twoWrites_eq i).2.2.1]; rfl
  have distinct : Socket.sockaddr inaddrLoopback 5008 ≠ Socket.sockaddr inaddrLoopback 5007 := by
    decide
  have empty i : StorageManager.empty.Allocates (twoWrites i).req.offset (some 1) := by
    rintro _ ⟨⟩
    rfl
  have again i j (s : StorageManager) : ((s.store (some 1) (twoWrites i).req.block
      (twoWrites i).req.offset).1).Allocates (twoWrites j).req.offset (some 1) := by
    rw [offset i, offset j]
    exact s.allocates_again 1 _ 0
  obtain ⟨tr₁, σ₁, rep₁, run₁, client₁, quiet₁, minion₁⟩ := first_exchange false (write false)
    (empty false) (fun _ => rfl) (rfl : σ₀.client false = _) rfl
  obtain ⟨tr₂, σ₂, rep₂, run₂, client₂, quiet₂, minion₂⟩ := first_exchange true (write true)
    (again false true .empty) quiet₁ (by rw [client₁]; rfl)
    (by rw [minion₁, dest₁, dest₁, Function.update_self])
  obtain ⟨tr₃, σ₃, run₃, client₃, quiet₃, minion₃⟩ := second_exchange true (write true)
    (empty true) quiet₂ (by rw [client₂, Function.update_self]) (by
      rw [minion₂, minion₁, dest₁, dest₂, dest₁, Function.update_of_ne distinct,
        Function.update_of_ne distinct]; rfl)
  obtain ⟨tr₄, σ₄, run₄, client₄, quiet₄, minion₄⟩ := second_exchange false (write false)
    (again true false .empty) quiet₃ (by rw [client₃, client₂, client₁]; rfl)
    (by rw [minion₃, dest₂, dest₂, Function.update_self])
  refine ⟨_, σ₄, run₁.trans (run₂.trans (run₃.trans run₄)), ?_, ?_, ?_⟩
  · rintro (_ | _) <;> rw [client₄, client₃] <;> rfl
  · rw [minion₄, minion₃, minion₂]
    simp only [dest₁, dest₂, Function.update_of_ne distinct.symm, Function.update_self, Minion.idle,
      offset, block]
    exact StorageManager.lookup_store_self ..
  · rw [minion₄, Function.update_self, Minion.idle, offset, block]
    exact StorageManager.lookup_store_self ..

theorem replicas_hold_last_twoWrites :
    ∃ tr σ, Run (Under Reliable (Step (writers twoWrites)))
        (initial (fun i => (twoWrites i).start default) (false, .first)) tr σ ∧
      ∃ i, HoldsLast twoWrites tr 0 ((twoWrites false).dest .first)
        (σ.minion ((twoWrites false).dest .first)) i := by
  obtain ⟨tr, σ, run, replied, _⟩ := twoWrites_run
  have same : ∀ i : Bool, (CmdArgs.codec.decode (CmdArgs.codec.encode { (default : CmdArgs) with
      block := cond i (List.Vector.replicate 4096 1) Block.zero })).key = 0 := by
    intro i
    rw [Codec.decode_encode]
    rfl
  obtain ⟨i, _, first, _⟩ := replicas_hold_last .configured (fun _ => 0) (fun _ => default)
    (fun _ => default) _ 0 same twoWrites (fun _ => rfl) _ (initial_idle _ _) (fun _ => .empty)
    (fun _ => rfl) run false (replied false)
  exact ⟨tr, σ, run, i, first⟩

/-- Both writes have replied, and the replicas differ. -/
theorem replicas_diverge :
    ∃ tr σ, Run (Under Reliable (Step (writers twoWrites)))
        (initial (fun i => (twoWrites i).start default) (false, .first)) tr σ ∧
      (∀ i, σ.client i = .returned) ∧
      (σ.minion ((twoWrites false).dest .first)).storage.lookup 0 ≠
        (σ.minion ((twoWrites false).dest .second)).storage.lookup 0 := by
  obtain ⟨tr, σ, run, replied, first, second⟩ := twoWrites_run
  refine ⟨tr, σ, run, replied, fun agree => ?_⟩
  rw [first, second, (twoWrites_eq true).2.2.2, (twoWrites_eq false).2.2.2] at agree
  have heads := congrArg (fun b : Block => b.head) (Option.some.inj agree)
  contradiction

end Cluster
end DistributedDisk
