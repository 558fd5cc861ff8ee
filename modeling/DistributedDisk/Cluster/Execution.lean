import DistributedDisk.Cluster.Datagrams
import DistributedDisk.Commands.Requests

/-! One command of the master's pool runs to its end while the others rest. It
can always do so: the minions find memory for any key, and keep every key. -/
namespace DistributedDisk
open Packed Reactive Transition

namespace Cluster
variable {ι S M : Type}

/-- The block of a key lies 16 bytes behind it. -/
def Placed (s : StorageManager) : Prop :=
  ∀ key, (s.map key = none ∧ s.heap (key + 16) = none) ∨ s.map key = some (key + 16)

theorem Placed.allocates {s : StorageManager} (placed : Placed s) (key : UInt64) :
    s.Allocates key (some (key + 16)) := by
  rintro _ ⟨⟩
  rcases placed key with ⟨absent, free⟩ | entry
  · rw [StorageManager.delete, absent]
    exact free
  · rw [StorageManager.delete, entry]
    exact Function.update_self ..

theorem Placed.store {s : StorageManager} (placed : Placed s) (key : UInt64) (block : Block) :
    Placed (s.store (some (key + 16)) block key).1 := by
  intro other
  rw [StorageManager.store_map]
  by_cases same : other = key
  · subst same
    exact .inr (Function.update_self ..)
  · have apart : other + 16 ≠ key + 16 := fun equal => same (UInt64.add_left_inj 16 |>.mp equal)
    have owner : s.map key ≠ some (other + 16) := by
      intro entry
      rcases placed key with ⟨absent, _⟩ | own
      · rw [absent] at entry
        cases entry
      · rw [own] at entry
        exact apart (Option.some.inj entry).symm
    rw [Function.update_of_ne same]
    refine (placed other).imp_left (.imp_right fun free => ?_)
    simp only [StorageManager.store, Function.update_of_ne apart]
    rw [StorageManager.delete_heap_of_ne owner]
    exact free

/-- Nothing is under way, and the minions have room for any key. -/
structure Quiet (σ : Cluster ι S M) : Prop where
  minion : ∀ a, ∃ addr storage, σ.minion a = .idle addr storage ∧ Placed storage
  arriving : ∀ p, σ.arriving p = []

variable [DecidableEq ι]

theorem Quiet.focus {σ : Cluster ι S M} (quiet : Quiet σ) (placed : Placed storage)
    (p addr : Peer ι) (a : SockAddr) (s : S) : Quiet (σ.focus p a s [] (.idle addr storage)) := by
  constructor
  · exact (Function.forall_update_iff _ fun _ (m : Minion (Peer ι) M) =>
      ∃ addr storage, m = .idle addr storage ∧ Placed storage).mpr
      ⟨⟨addr, storage, rfl, placed⟩, fun b _ => quiet.minion b⟩
  · exact (Function.forall_update_iff _ fun _ l => l = []).mpr ⟨rfl, fun q _ => quiet.arriving q⟩

/-- The master's pool on the link of the code. -/
def disk (ι : Type) : System ι Running (List UInt8) := singleDatagrams fun _ => Running.next

/-- One command moves on while the others rest, and no minion loses a key. -/
structure Advances (i : ι) (σ : Cluster ι Running (List UInt8)) (tr : List (NetEvent ι))
    (σ' : Cluster ι Running (List UInt8)) (s : Running) : Prop where
  run : Run (Under Reliable (Step (disk ι))) σ tr σ'
  alone : Alone i tr
  client : σ'.client i = s
  others : ∀ j, j ≠ i → σ'.client j = σ.client j
  quiet : Quiet σ'
  kept : ∀ a key, (σ.minion a).storage.map key ≠ none → (σ'.minion a).storage.map key ≠ none

theorem Advances.trans {σ σ' σ'' : Cluster ι Running (List UInt8)} (first : Advances i σ tr σ' s)
    (second : Advances i σ' tr' σ'' s') : Advances i σ (tr ++ tr') σ'' s' where
  run := first.run.trans second.run
  alone := first.alone.append second.alone
  client := second.client
  others j other := (second.others j other).trans (first.others j other)
  quiet := second.quiet
  kept a key present := second.kept a key (first.kept a key present)

/-- Log entries and replies. -/
theorem Advances.outputs {σ σ' : Cluster ι Running (List UInt8)} (before : Advances i σ tr σ' s)
    (rest : Run (Reactive.Step Running.next) s tail s')
    (outputs : ∀ e ∈ tail, ∃ o, e = .output o ∧
      ∀ socket dest bytes, o ≠ .sendto socket dest bytes) :
    Advances i σ (tr ++ tail.map (.client i)) (σ'.setClient i s') s' := by
  refine before.trans ⟨run_outputs i rest before.client outputs, alone_map i tail, ?_, ?_, ?_, ?_⟩
  · exact Function.update_self ..
  · exact fun j other => Function.update_of_ne other ..
  · exact ⟨before.quiet.minion, before.quiet.arriving⟩
  · exact fun _ _ present => present

/-- A step of the exchange with one minion. -/
theorem Advances.of_focus {σ : Cluster ι Running (List UInt8)} (quiet : Quiet σ)
    (minion : σ.minion a = .idle addr storage) (placed : Placed storage')
    (more : ∀ key, storage.map key ≠ none → storage'.map key ≠ none) (p addr' : Peer ι)
    (run : Run (Under Reliable (Step (disk ι))) σ tr (σ.focus p a s [] (.idle addr' storage')))
    (alone : Alone p.1 tr) : Advances p.1 σ tr (σ.focus p a s [] (.idle addr' storage')) s := by
  refine ⟨run, alone, client_focus, fun j other => Function.update_of_ne other .., ?_, ?_⟩
  · exact quiet.focus placed p addr' a s
  · intro b key present
    by_cases here : b = a
    · subst here
      rw [minion] at present
      rw [minion_focus]
      exact more key present
    · rwa [show (σ.focus p a s [] (.idle addr' storage')).minion b = σ.minion b from
        Function.update_of_ne here ..]

section
variable {σ : Cluster ι Running (List UInt8)} {c : Call} (p : Peer ι) (running : Call → Running)
  (returned : Bool → Reply → Running)
  (calls : ∀ c, Running.next (running c) = c.next running returned)
  (client : σ.client p.1 = running c) (fresh : c.point = .send) (socket : c.socket = p.2)
  (quiet : Quiet σ)
include calls client fresh socket quiet

theorem advances_load (read : c.request.type = Kind.read.code) (beyond : Junk 4088) :
    ∃ tr σ' rep block, Advances p.1 σ tr σ' (returned true rep) ∧ replies (commands tr p.1) = [] ∧
      rep.block = ((σ.minion c.dest).storage.load beyond block c.request.offset).1 := by
  obtain ⟨addr, storage, minion, placed⟩ := quiet.minion c.dest
  obtain ⟨tr, rep, block, run, alone, silent, copied⟩ :=
    exchange_load (fun _ => Running.next) p running returned calls client fresh socket
      (quiet.arriving p) minion read beyond
  rw [minion]
  exact ⟨tr, _, rep, block, .of_focus quiet minion placed (fun _ => id) p p run alone, silent,
    copied⟩

theorem advances_store (write : c.request.type = Kind.write.code) :
    ∃ tr σ' rep, Advances p.1 σ tr σ' (returned true rep) ∧
      (σ'.minion c.dest).storage.map c.request.offset ≠ none := by
  obtain ⟨addr, storage, minion, placed⟩ := quiet.minion c.dest
  obtain ⟨tr, rep, block, run, alone⟩ :=
    exchange_store (fun _ => Running.next) p running returned calls client fresh socket
      (quiet.arriving p) minion write (placed.allocates c.request.offset)
  have more (key : UInt64) (present : storage.map key ≠ none) : (storage.store
      (some (c.request.offset + 16)) block c.request.offset).1.map key ≠ none := by
    rw [StorageManager.store_map]
    by_cases here : key = c.request.offset
    · subst here
      simp
    · rwa [Function.update_of_ne here]
  refine ⟨tr, _, rep, .of_focus quiet minion (placed.store _ block) more p p run alone, ?_⟩
  rw [minion_focus]
  simp [Minion.idle]

end

section
variable {σ : Cluster ι Running (List UInt8)} (i : ι)

/-- A READ of the first minion, whatever the memory of its map holds. -/
theorem executes_read (cmd : ReadCmd) (type : cmd.req.type = Kind.read.code)
    (client : σ.client i = .read cmd (cmd.start rep)) (quiet : Quiet σ) (beyond : Junk 4088) :
    ∃ tr σ' data block, Advances i σ tr σ' (.read cmd .returned) ∧
      replies (commands tr i) =
        [(cmd.args.fd, NbdReply.codec.encode cmd.args.reply), (cmd.args.fd, data.toList)] ∧
      data = ((σ.minion (cmd.firstCall rep).dest).storage.load beyond block cmd.req.offset).1 := by
  obtain ⟨tr, σ', rep', block, before, silent, copied⟩ := advances_load (i, .first)
    (fun c => Running.read cmd (.first c)) (fun status rep => .read cmd (cmd.afterFirst status rep))
    (fun c => Call.next_map c _ _ _) client rfl rfl quiet type beyond
  have ends : Run (Reactive.Step Running.next) (.read cmd (cmd.afterFirst true rep'))
      (cmd.replies rep') (.read cmd .returned) := Running.run_read (ReadCmd.run_of_replies rep')
  refine ⟨_, _, rep'.block, block, before.outputs ends (by simp [ReadCmd.replies]), ?_, copied⟩
  rw [commands_append, replies_append, silent, commands_map]
  rfl

theorem executes_write (cmd : WriteCmd) (type : cmd.req.type = Kind.write.code)
    (client : σ.client i = .write cmd (cmd.start rep)) (quiet : Quiet σ) :
    ∃ tr σ', Advances i σ tr σ' (.write cmd .returned) ∧
      (σ'.minion (cmd.firstCall rep).dest).storage.map cmd.req.offset ≠ none := by
  obtain ⟨tr₁, σ₁, rep₁, first, present⟩ := advances_store (i, .first)
    (fun c => Running.write cmd (.first c))
    (fun status rep => .write cmd (cmd.afterFirst status rep)) (fun c => Call.next_map c _ _ _)
    client rfl rfl quiet type
  obtain ⟨tr₂, σ₂, rep₂, second, _⟩ := advances_store (i, .second)
    (fun c => Running.write cmd (.second rep₁ c))
    (fun status rep => .write cmd (WriteCmd.afterSecond rep₁ status rep))
    (fun c => Call.next_map c _ _ _) first.client rfl rfl first.quiet type
  have ends : Run (Reactive.Step Running.next) (.write cmd (WriteCmd.afterSecond rep₁ true rep₂))
      (cmd.tail rep₁ rep₂) (.write cmd .returned) :=
    Running.run_write (WriteCmd.run_of_tail true rep₁ rep₂)
  exact ⟨_, _, (first.trans second).outputs ends (cmd.tail_outputs rep₁ rep₂),
    second.kept _ _ present⟩

end

end Cluster
end DistributedDisk
