import DistributedDisk.Commands.Communicate
import DistributedDisk.Minion.Server

/-! The commands of the master and the minions on one network. A client socket
is named by the command and the exchange that own it, a minion by the address it
is bound to. Datagrams keep their order; only a step labelled `lost` drops one. -/
namespace DistributedDisk
open Reactive Transition

abbrev Peer (ι : Type) := ι × Exchange

/-- The programs of the commands, and the link: what a `sendto` of a client
socket puts into the socket of a minion, and how the minion reads it. -/
structure System (ι S M : Type) where
  next : ι → S → CmdAction S
  carries : Peer ι → List UInt8 → M
  reads : Minion (Peer ι) M → MinionEvent (Peer ι) → Minion (Peer ι) M → Prop

/-- `arriving` holds the datagrams on their way to a client socket, each with
the socket whose request it answers. -/
structure Cluster (ι S M : Type) where
  client : ι → S
  arriving : Peer ι → List (Peer ι × List UInt8)
  minion : SockAddr → Minion (Peer ι) M

inductive NetEvent (ι : Type) where
  | client (i : ι) (e : CmdEvent)
  | minion (address : SockAddr) (e : MinionEvent (Peer ι))
  | lost

namespace Cluster
variable {ι S M : Type} [DecidableEq ι]

section
variable (σ : Cluster ι S M)

def setClient (i : ι) (s : S) : Cluster ι S M := { σ with client := Function.update σ.client i s }

def setArriving (p : Peer ι) (l : List (Peer ι × List UInt8)) : Cluster ι S M :=
  { σ with arriving := Function.update σ.arriving p l }

omit [DecidableEq ι] in
def setMinion (a : SockAddr) (m : Minion (Peer ι) M) : Cluster ι S M :=
  { σ with minion := Function.update σ.minion a m }

variable (i : ι) (p : Peer ι) (a : SockAddr) (s : S) (l : List (Peer ι × List UInt8))
  (m : Minion (Peer ι) M)

@[simp] theorem client_setClient : (σ.setClient i s).client = Function.update σ.client i s := rfl
@[simp] theorem client_setArriving : (σ.setArriving p l).client = σ.client := rfl
@[simp] theorem arriving_setClient : (σ.setClient i s).arriving = σ.arriving := rfl
@[simp] theorem arriving_setArriving :
    (σ.setArriving p l).arriving = Function.update σ.arriving p l := rfl
@[simp] theorem minion_setClient : (σ.setClient i s).minion = σ.minion := rfl
@[simp] theorem minion_setArriving : (σ.setArriving p l).minion = σ.minion := rfl

omit [DecidableEq ι]

@[simp] theorem client_setMinion : (σ.setMinion a m).client = σ.client := rfl
@[simp] theorem arriving_setMinion : (σ.setMinion a m).arriving = σ.arriving := rfl
@[simp] theorem minion_setMinion : (σ.setMinion a m).minion = Function.update σ.minion a m := rfl

end

/-- A reply joins the datagrams on their way to its destination. -/
def deliver (σ : Cluster ι S M) : MinionEvent (Peer ι) → Cluster ι S M
  | .send dest rep origin =>
    σ.setArriving dest (σ.arriving dest ++ (MinionProxy.reply rep).toList.map (Prod.mk origin))
  | _ => σ

@[simp] theorem client_deliver (σ : Cluster ι S M) (e : MinionEvent (Peer ι)) :
    (σ.deliver e).client = σ.client := by cases e <;> rfl

@[simp] theorem minion_deliver (σ : Cluster ι S M) (e : MinionEvent (Peer ι)) :
    (σ.deliver e).minion = σ.minion := by cases e <;> rfl

theorem mem_deliver {σ : Cluster ι S M} (member : (origin, bytes) ∈ (σ.deliver e).arriving p) :
    (origin, bytes) ∈ σ.arriving p ∨ ∃ rep, e = .send p rep origin := by
  cases e with
  | send dest rep origin' =>
    by_cases here : p = dest
    · subst here
      rw [deliver, arriving_setArriving, Function.update_self] at member
      rcases List.mem_append.mp member with member | member
      · exact .inl member
      · obtain ⟨sent, _, same⟩ := List.mem_map.mp member
        cases same
        exact .inr ⟨rep, rfl⟩
    · rw [deliver, arriving_setArriving, Function.update_of_ne here] at member
      exact .inl member
  | arrive | receive | block | pop | execute | crash => exact .inl member

inductive Step (sys : System ι S M) : Cluster ι S M → NetEvent ι → Cluster ι S M → Prop where
  | sends (i : ι) (socket : Exchange) (dest : SockAddr) (bytes : List UInt8) :
      Fires (sys.next i (σ.client i)) (.output (.sendto socket dest bytes)) s →
      Step sys σ (.client i (.output (.sendto socket dest bytes)))
        ((σ.setClient i s).setMinion dest { σ.minion dest with
          inbox := (σ.minion dest).inbox ++ [((i, socket), sys.carries (i, socket) bytes)] })
  | outputs (i : ι) (o : Output) : (∀ socket dest bytes, o ≠ .sendto socket dest bytes) →
      Fires (sys.next i (σ.client i)) (.output o) s →
      Step sys σ (.client i (.output o)) (σ.setClient i s)
  | receives (i : ι) (socket : Exchange) (origin : Peer ι) (bytes : List UInt8)
      (rest : List (Peer ι × List UInt8)) :
      Fires (sys.next i (σ.client i)) (.input socket (.datagram bytes)) s →
      σ.arriving (i, socket) = (origin, bytes) :: rest →
      Step sys σ (.client i (.input socket (.datagram bytes)))
        ((σ.setClient i s).setArriving (i, socket) rest)
  | fails (i : ι) (socket : Exchange) (errno : Int32) :
      Fires (sys.next i (σ.client i)) (.input socket (.failed errno)) s →
      (errno = eagain → σ.arriving (i, socket) = []) →
      Step sys σ (.client i (.input socket (.failed errno))) (σ.setClient i s)
  | reads (a : SockAddr) : sys.reads (σ.minion a) e m → Step sys σ (.minion a e) (σ.setMinion a m)
  | works (a : SockAddr) : Minion.Works (σ.minion a) e m →
      Step sys σ (.minion a e) ((σ.deliver e).setMinion a m)
  | losesRequest (a : SockAddr) (before after : List (Peer ι × M)) (message : Peer ι × M) :
      (σ.minion a).inbox = before ++ message :: after →
      Step sys σ .lost (σ.setMinion a { σ.minion a with inbox := before ++ after })
  | losesReply (p : Peer ι) (before after : List (Peer ι × List UInt8))
      (reply : Peer ι × List UInt8) : σ.arriving p = before ++ reply :: after →
      Step sys σ .lost (σ.setArriving p (before ++ after))

/-- What a step is to the commands: one of them moves, and a datagram it takes
was on its way to it, or none does. -/
theorem client_cases {sys : System ι S M} (step : Step sys σ e σ') :
    (∃ i move, e = .client i move ∧ Fires (sys.next i (σ.client i)) move (σ'.client i) ∧
      (∀ j, j ≠ i → σ'.client j = σ.client j) ∧
      ∀ socket bytes, move = .input socket (.datagram bytes) →
        ∃ origin rest, σ.arriving (i, socket) = (origin, bytes) :: rest) ∨
    (∀ i move, e ≠ .client i move) ∧ σ'.client = σ.client := by
  cases step with
  | sends i _ _ _ fires =>
    exact .inl ⟨i, _, rfl, by simpa using fires, by simp +contextual, by simp⟩
  | outputs i _ _ fires =>
    exact .inl ⟨i, _, rfl, by simpa using fires, by simp +contextual, by simp⟩
  | receives i socket origin bytes rest fires waiting =>
    refine .inl ⟨i, _, rfl, by simpa using fires, by simp +contextual, ?_⟩
    rintro _ _ ⟨⟩
    exact ⟨origin, rest, waiting⟩
  | fails i _ _ fires =>
    exact .inl ⟨i, _, rfl, by simpa using fires, by simp +contextual, by simp⟩
  | reads | losesRequest | losesReply => exact .inr ⟨by simp, rfl⟩
  | works => exact .inr ⟨by simp, by simp⟩

/-- Every datagram is delivered, no socket fails, and the minions stay up. -/
def Reliable (_ : Cluster ι S M) : NetEvent ι → Prop
  | .lost => False
  | .client _ (.input _ (.failed errno)) => errno = eagain
  | .minion _ .crash => False
  | _ => True

/-- Every minion waits for a request, and nothing is under way to a command. -/
structure Idle (σ : Cluster ι S M) : Prop where
  minion : ∀ a, ∃ addr storage, σ.minion a = .idle addr storage
  arriving : ∀ p, σ.arriving p = []

/-- Minions that have stored nothing yet. -/
def initial (client : ι → S) (addr : Peer ι) : Cluster ι S M :=
  ⟨client, fun _ => [], fun _ => .fresh addr⟩

omit [DecidableEq ι] in
theorem initial_idle (client : ι → S) (addr : Peer ι) :
    (initial client addr : Cluster ι S M).Idle :=
  ⟨fun _ => ⟨addr, .empty, rfl⟩, fun _ => rfl⟩

/-- Log entries and replies to the kernel disturb nobody. -/
theorem run_outputs {sys : System ι S M} {σ : Cluster ι S M} (i : ι)
    (run : Run (Reactive.Step (sys.next i)) s tr s') (client : σ.client i = s)
    (local' : ∀ e ∈ tr, ∃ o, e = .output o ∧ ∀ socket dest bytes, o ≠ .sendto socket dest bytes) :
    Run (Under Reliable (Step sys)) σ (tr.map (.client i)) (σ.setClient i s') := by
  induction run generalizing σ with
  | refl s =>
    subst client
    simpa [setClient] using Run.refl σ
  | @next s e s' rest t head _ ih =>
    subst client
    obtain ⟨o, rfl, silent⟩ := local' e (by simp)
    have here : (σ.setClient i s').client i = s' := by simp
    have tail := ih here fun e member => local' e (by simp [member])
    rw [setClient, setClient, Function.update_idem] at tail
    exact .next ⟨.outputs i o silent head, trivial⟩ tail

/-! ### One command and one minion -/

/-- The cluster with one command, one of its sockets and one minion replaced. -/
def focus (σ : Cluster ι S M) (p : Peer ι) (a : SockAddr) (s : S) (l : List (Peer ι × List UInt8))
    (m : Minion (Peer ι) M) : Cluster ι S M :=
  ((σ.setClient p.1 s).setArriving p l).setMinion a m

section
variable {σ : Cluster ι S M} {sys : System ι S M} {p : Peer ι} {a : SockAddr} {s s' : S}
  {l : List (Peer ι × List UInt8)} {m m' : Minion (Peer ι) M}

@[simp] theorem client_focus : (σ.focus p a s l m).client p.1 = s := Function.update_self ..
@[simp] theorem arriving_focus : (σ.focus p a s l m).arriving p = l := Function.update_self ..
@[simp] theorem minion_focus : (σ.focus p a s l m).minion a = m := Function.update_self ..

theorem eq_focus (client : σ.client p.1 = s) (arriving : σ.arriving p = l)
    (minion : σ.minion a = m) : σ = σ.focus p a s l m := by
  subst client arriving minion
  simp [focus, setClient, setArriving, setMinion]

theorem focus_sends (fires : Fires (sys.next p.1 s) (.output (.sendto p.2 a bytes)) s') :
    Step sys (σ.focus p a s l m) (.client p.1 (.output (.sendto p.2 a bytes)))
      (σ.focus p a s' l { m with inbox := m.inbox ++ [(p, sys.carries p bytes)] }) := by
  have step : Step sys (σ.focus p a s l m) _ _ :=
    .sends p.1 p.2 a bytes (by simpa [focus] using fires)
  simpa [focus, setClient, setArriving, setMinion] using step

theorem focus_receives (fires : Fires (sys.next p.1 s) (.input p.2 (.datagram bytes)) s') :
    Step sys (σ.focus p a s ((origin, bytes) :: l) m) (.client p.1 (.input p.2 (.datagram bytes)))
      (σ.focus p a s' l m) := by
  have step : Step sys (σ.focus p a s ((origin, bytes) :: l) m) _ _ :=
    .receives p.1 p.2 origin bytes l (by simpa [focus] using fires) (by simp [focus])
  simpa [focus, setClient, setArriving, setMinion] using step

theorem focus_losesReply : Step sys (σ.focus p a s (reply :: l) m) .lost (σ.focus p a s l m) := by
  have step : Step sys (σ.focus p a s (reply :: l) m) _ _ :=
    .losesReply p [] l reply (by simp [focus])
  simpa [focus, setClient, setArriving, setMinion] using step

theorem focus_timeout (fires : Fires (sys.next p.1 s) (.input p.2 (.failed eagain)) s') :
    Step sys (σ.focus p a s [] m) (.client p.1 (.input p.2 (.failed eagain)))
      (σ.focus p a s' [] m) := by
  have step : Step sys (σ.focus p a s [] m) _ _ :=
    .fails p.1 p.2 eagain (by simpa [focus] using fires) (by simp [focus])
  simpa [focus, setClient, setArriving, setMinion] using step

theorem focus_reads (reads : sys.reads m e m') :
    Step sys (σ.focus p a s l m) (.minion a e) (σ.focus p a s l m') := by
  have step : Step sys (σ.focus p a s l m) _ _ := .reads a (by simpa [focus] using reads)
  simpa [focus, setClient, setArriving, setMinion] using step

/-- A worker that sends nothing. -/
theorem focus_works (works : Minion.Works m e m') (quiet : ∀ τ : Cluster ι S M, τ.deliver e = τ) :
    Step sys (σ.focus p a s l m) (.minion a e) (σ.focus p a s l m') := by
  have step : Step sys (σ.focus p a s l m) _ _ := .works a (by simpa [focus] using works)
  simpa [focus, setClient, setArriving, setMinion, quiet] using step

/-- The reply of the minion goes to the socket that is in focus. -/
theorem focus_answers (works : Minion.Works m (.send p rep origin) m')
    (bytes : MinionProxy.reply rep = some datagram) :
    Step sys (σ.focus p a s l m) (.minion a (.send p rep origin))
      (σ.focus p a s (l ++ [(origin, datagram)]) m') := by
  have step : Step sys (σ.focus p a s l m) _ _ := .works a (by simpa [focus] using works)
  simpa [focus, setClient, setArriving, setMinion, deliver, bytes] using step

end

end Cluster
end DistributedDisk
