import DistributedDisk.Commands.Pool

/-! `Master::Reply` in full: the static mutex, and the loop of `write_all`, in which `write`
may take any part of what is left. The commands cannot tell it from one call. -/
namespace DistributedDisk
open Packed Reactive Transition

/-- `holder` has the mutex of `Reply`, and its `write_all` has yet to write `left` to
`target`; `streams` are the bytes that have gone into each socket. -/
structure Replying (ι : Type) where
  commands : ι → Running
  holder : Option ι
  target : Int32
  left : List UInt8
  streams : Int32 → List UInt8

namespace Replying

inductive Event (ι : Type) where
  | moves (i : ι) (e : CmdEvent)
  | locks (i : ι)
  | writes (i : ι) (count : Nat)
  | unlocks (i : ι)

def start {ι : Type} (commands : ι → Running) : Replying ι where
  commands := commands
  holder := none
  target := 0
  left := []
  streams := fun _ => []

variable {ι : Type} [DecidableEq ι]

/-- A command is at its next action; `write_all` asserts that `write` takes something. -/
inductive Step (s : Replying ι) : Event ι → Replying ι → Prop where
  | moves (i : ι) : Reactive.Step Running.next (s.commands i) e r → replies [e] = [] →
      Step s (.moves i e) { s with commands := Function.update s.commands i r }
  | locks (i : ι) : (s.commands i).next = .output (.reply fd bytes) r → s.holder = none →
      Step s (.locks i) { s with holder := some i, target := fd, left := bytes }
  | writes (i : ι) (count : Nat) : s.holder = some i → 0 < count → count ≤ s.left.length →
      Step s (.writes i count) { s with
        streams := Function.update s.streams s.target (s.streams s.target ++ s.left.take count)
        left := s.left.drop count }
  | unlocks (i : ι) : s.holder = some i → s.left = [] →
      (s.commands i).next = .output (.reply fd bytes) r →
      Step s (.unlocks i)
        { s with holder := none, commands := Function.update s.commands i r }

/-- The part of the holder's reply that is in the stream already. -/
def Partial (s : Replying ι) (already : List UInt8) : Prop :=
  match s.holder with
  | none => already = []
  | some i => ∃ bytes r, (s.commands i).next = .output (.reply s.target bytes) r ∧
      bytes = already ++ s.left

/-- The bytes of `Reply` calls, one after the other. -/
def bytesOf (calls : List (ι × List UInt8)) : List UInt8 := calls.flatMap Prod.snd

/-- The commands have made a run in which each `Reply` is one call, and the streams have the
bytes of these calls, and what the holder has written of the next. -/
structure Refines (σ : ι → Running) (s : Replying ι) (tr : List (ι × CmdEvent))
    (already : List UInt8) : Prop where
  run : Run (Interleave (Reactive.Step Running.next)) σ tr s.commands
  begun : Partial s already
  streams : ∀ fd, s.streams fd = bytesOf (written fd tr) ++ if s.target = fd then already else []

variable {σ : ι → Running} {s t : Replying ι} {tr : List (ι × CmdEvent)} {already : List UInt8}

omit [DecidableEq ι] in
theorem bytesOf_append (calls more : List (ι × List UInt8)) :
    bytesOf (calls ++ more) = bytesOf calls ++ bytesOf more := List.flatMap_append

omit [DecidableEq ι] in
theorem written_call (fd target : Int32) (i : ι) (bytes : List UInt8) :
    bytesOf (written fd [(i, .output (.reply target bytes))]) =
      if target = fd then bytes else [] := by
  by_cases same : target = fd
  · subst same
    rw [written_reply, if_pos rfl]
    exact List.append_nil bytes
  · simp [bytesOf, written, replies, same]

theorem interleave_step {commands : ι → Running}
    (step : Reactive.Step Running.next (commands i) e r) :
    Interleave (Reactive.Step Running.next) commands (i, e) (Function.update commands i r) :=
  ⟨by simpa only [Function.update_self] using step, fun _ apart => Function.update_of_ne apart ..⟩

omit [DecidableEq ι] in
/-- What is in the stream when the loop of `write_all` ends is the whole call. -/
theorem Refines.whole (refines : Refines σ s tr already) (held : s.holder = some i)
    (empty : s.left = []) (next : (s.commands i).next = .output (.reply fd bytes) r) :
    Reactive.Step Running.next (s.commands i) (.output (.reply s.target already)) r := by
  have begun := refines.begun
  rw [Partial, held] at begun
  obtain ⟨whole, r', next', same⟩ := begun
  rw [empty, List.append_nil] at same
  subst same
  cases next.symm.trans next'
  rw [Reactive.Step, next]
  exact .output _ _

/-- A command in the middle of a `Reply` does nothing else. -/
theorem Refines.moves (refines : Refines σ s tr already)
    (step : Reactive.Step Running.next (s.commands i) e r) (quiet : replies [e] = []) :
    Refines σ { s with commands := Function.update s.commands i r } (tr ++ [(i, e)]) already := by
  have other (j : ι) (fd : Int32) (bytes : List UInt8) (r' : Running)
      (calls : (s.commands j).next = .output (.reply fd bytes) r') : j ≠ i := by
    rintro rfl
    rw [Reactive.Step, calls] at step
    cases step
    cases quiet
  refine ⟨?_, ?_, fun fd => ?_⟩
  · exact refines.run.trans (.single (interleave_step step))
  · have begun := refines.begun
    unfold Partial at begun ⊢
    cases holder : s.holder with
    | none =>
      rw [holder] at begun
      exact begun
    | some j =>
      rw [holder] at begun
      obtain ⟨bytes, r', calls, whole⟩ := begun
      refine ⟨bytes, r', ?_, whole⟩
      simpa only [Function.update_of_ne (other j _ _ _ calls)] using calls
  · rw [written_append, written_silent quiet, List.append_nil]
    exact refines.streams fd

omit [DecidableEq ι] in
theorem Refines.locks (refines : Refines σ s tr already) (free : s.holder = none)
    (calls : (s.commands i).next = .output (.reply fd bytes) r) :
    Refines σ { s with holder := some i, target := fd, left := bytes } tr [] := by
  have begun := refines.begun
  rw [Partial, free] at begun
  subst begun
  refine ⟨refines.run, ⟨bytes, r, calls, rfl⟩, fun other => ?_⟩
  have streams := refines.streams other
  rw [ite_self] at streams ⊢
  exact streams

omit [DecidableEq ι] in
theorem Refines.writes (refines : Refines σ s tr already) (held : s.holder = some i)
    (count : Nat) : Refines σ { s with
      streams := Function.update s.streams s.target (s.streams s.target ++ s.left.take count)
      left := s.left.drop count } tr (already ++ s.left.take count) := by
  have begun := refines.begun
  rw [Partial, held] at begun
  obtain ⟨bytes, r, calls, whole⟩ := begun
  refine ⟨refines.run, ?_, fun fd => ?_⟩
  · rw [Partial, held]
    refine ⟨bytes, r, calls, ?_⟩
    rw [List.append_assoc, List.take_append_drop]
    exact whole
  · have streams := refines.streams fd
    by_cases here : s.target = fd
    · subst here
      rw [if_pos rfl] at streams ⊢
      simp only [Function.update_self]
      rw [streams, List.append_assoc]
    · rw [if_neg here] at streams ⊢
      simp only [Function.update_of_ne (Ne.symm here)]
      exact streams

/-- The call takes effect when the mutex is given back: all of its bytes are in the stream,
behind those of the calls before. -/
theorem Refines.unlocks (refines : Refines σ s tr already) (held : s.holder = some i)
    (empty : s.left = []) (calls : (s.commands i).next = .output (.reply fd bytes) r) :
    Refines σ { s with holder := none, commands := Function.update s.commands i r }
      (tr ++ [(i, .output (.reply s.target already))]) [] := by
  have step := refines.whole held empty calls
  refine ⟨refines.run.trans (.single (interleave_step step)), rfl, fun fd => ?_⟩
  · rw [written_append, bytesOf_append, written_call, ite_self, List.append_nil]
    exact refines.streams fd

theorem Refines.step (refines : Refines σ s tr already) (step : Step s e t) :
    ∃ tr' already', Refines σ t tr' already' := by
  cases step with
  | moves _ step quiet => exact ⟨_, _, refines.moves step quiet⟩
  | locks _ calls free => exact ⟨_, _, refines.locks free calls⟩
  | writes _ count held => exact ⟨_, _, refines.writes held count⟩
  | unlocks _ held empty calls => exact ⟨_, _, refines.unlocks held empty calls⟩

/-- The pieces in which the replies are written make no difference: the commands move as if
each `Reply` were one call, and each socket has the bytes of these calls in their order. -/
theorem replies_atomic (run : Run Step (start σ) events s) :
    ∃ calls already, Refines σ s calls already := by
  apply run.invariant (P := fun s => ∃ calls already, Refines σ s calls already)
  · rintro s e t ⟨calls, already, refines⟩ step
    exact refines.step step
  · exact ⟨[], [], .refl _, rfl, fun fd => by rw [ite_self]; rfl⟩

/-- A command takes the mutex only while no READ is between its two calls, itself excepted. -/
def Undisturbed (s : Replying ι) : Event ι → Prop
  | .locks i => ∀ j, j ≠ i → ¬ (s.commands j).Between
  | _ => True

/-- With complete replies in the stream, and no READ between its calls but the holder. -/
structure Orderly (σ : ι → Running) (fd : Int32) (s : Replying ι) (calls : List (ι × CmdEvent))
    (already : List UInt8) : Prop where
  refines : Refines σ s calls already
  same : ∀ i, (s.commands i).command = (σ i).command
  framed : Framed σ s.commands (written fd calls)
  alone : ∀ i, s.holder = some i → ∀ j, j ≠ i → ¬ (s.commands j).Between

/-- A step that is no call of `Reply` does not begin or end the pause of a READ. -/
theorem not_between_of_quiet (step : Reactive.Step Running.next r e r') (quiet : replies [e] = []) :
    ¬ r'.Between := by
  cases Running.moves_of_step step with
  | header | block | write => cases quiet
  | silent _ _ _ after => exact after

theorem Orderly.moves (orderly : Orderly σ fd s calls already)
    (socket : ∀ i, (σ i).args.fd = fd)
    (step : Reactive.Step Running.next (s.commands i) e r) (quiet : replies [e] = []) :
    Orderly σ fd { s with commands := Function.update s.commands i r } (calls ++ [(i, e)])
      already := by
  have moves := interleave_step step
  refine ⟨orderly.refines.moves step quiet,
    fun j => (command_of_step moves j).trans (orderly.same j), ?_, fun h held j apart => ?_⟩
  · rw [written_append]
    exact orderly.framed.step orderly.same socket moves fun loud => absurd quiet loud
  · by_cases here : j = i
    · subst here
      simpa only [Function.update_self] using not_between_of_quiet step quiet
    · simpa only [Function.update_of_ne here] using orderly.alone h held j apart

theorem Orderly.unlocks (orderly : Orderly σ fd s calls already)
    (socket : ∀ i, (σ i).args.fd = fd) (held : s.holder = some i) (empty : s.left = [])
    (next : (s.commands i).next = .output (.reply fd' bytes) r) :
    Orderly σ fd { s with holder := none, commands := Function.update s.commands i r }
      (calls ++ [(i, .output (.reply s.target already))]) [] := by
  have refines := orderly.refines.unlocks held empty next
  have moves := interleave_step (orderly.refines.whole held empty next)
  refine ⟨refines, fun j => (command_of_step moves j).trans (orderly.same j), ?_, nofun⟩
  rw [written_append]
  exact orderly.framed.step orderly.same socket moves fun _ => orderly.alone i held

/-- While a READ is left alone between its calls, the bytes of a socket are those of complete
replies, then perhaps a header whose block is to come, then a part of the holder's call. -/
theorem stream_complete (fd : Int32) (idle : ∀ i, ¬ (σ i).Between)
    (socket : ∀ i, (σ i).args.fd = fd)
    (run : Run (Under Undisturbed Step) (start σ) events s) :
    ∃ calls already, Refines σ s calls already ∧ Framed σ s.commands (written fd calls) := by
  suffices kept : ∃ calls already, Orderly σ fd s calls already by
    obtain ⟨calls, already, orderly⟩ := kept
    exact ⟨calls, already, orderly.refines, orderly.framed⟩
  apply run.invariant (P := fun s => ∃ calls already, Orderly σ fd s calls already)
  · rintro s e t ⟨calls, already, orderly⟩ ⟨step, undisturbed⟩
    have refines := orderly.refines
    cases step with
    | moves _ step quiet => exact ⟨_, _, orderly.moves socket step quiet⟩
    | locks i next free =>
      refine ⟨_, _, refines.locks free next, orderly.same, orderly.framed, ?_⟩
      intro h held
      cases held
      exact undisturbed
    | writes _ count held =>
      exact ⟨_, _, refines.writes held count, orderly.same, orderly.framed, orderly.alone⟩
    | unlocks _ held empty next => exact ⟨_, _, orderly.unlocks socket held empty next⟩
  · refine ⟨[], [], ⟨.refl _, rfl, fun _ => by rw [ite_self]; rfl⟩, fun _ => rfl, ?_, nofun⟩
    exact ⟨[], [], rfl, by simp, .nothing idle⟩

theorem moves_run (inner : Run (Reactive.Step Running.next) r calls r') (quiet : replies calls = [])
    (here : s.commands i = r) : ∃ t, Run (Under Undisturbed Step) s (calls.map (.moves i)) t ∧
      t.commands = Function.update s.commands i r' ∧ t.holder = s.holder := by
  induction inner generalizing s with
  | refl =>
    subst here
    exact ⟨s, .refl s, (Function.update_eq_self ..).symm, rfl⟩
  | @next r e r₁ rest r' head _ ih =>
    have split : replies (e :: rest) = replies [e] ++ replies rest := replies_append [e] rest
    obtain ⟨first, later⟩ := List.append_eq_nil_iff.mp (split.symm.trans quiet)
    obtain ⟨t, run, there, holder⟩ := ih later
      (s := { s with commands := Function.update s.commands i r₁ }) (Function.update_self ..)
    refine ⟨t, .next ⟨.moves i (here ▸ head) first, trivial⟩ run, ?_, holder⟩
    rw [there, Function.update_idem]

/-- A call whose bytes `write` takes in two turns. -/
theorem reply_run (count : Nat) (here : s.commands i = r)
    (next : r.next = .output (.reply fd bytes) r') (free : s.holder = none) (some : 0 < count)
    (more : count < bytes.length) (alone : ∀ j, j ≠ i → ¬ (s.commands j).Between) :
    ∃ t, Run (Under Undisturbed Step) s
      [.locks i, .writes i count, .writes i (bytes.length - count), .unlocks i] t ∧
      t.commands = Function.update s.commands i r' ∧ t.holder = none := by
  rw [← here] at next
  refine ⟨_, .next ⟨.locks i next free, alone⟩ <|
    .next ⟨.writes i count rfl some more.le, trivial⟩ <|
    .next ⟨.writes i (bytes.length - count) rfl (Nat.sub_pos_of_lt more) ?_, trivial⟩ <|
    .single ⟨.unlocks i rfl ?_ next, trivial⟩, rfl, rfl⟩
  · rw [List.length_drop]
  · rw [← List.length_drop]
    exact List.drop_length

/-- The mutex is free and the WRITE wants it while the READ is between its calls; the READ
has it first. -/
theorem readAndWrite_contend : ∃ events s,
    Run (Under Undisturbed Step) (start readAndWrite) events s ∧ ∀ i, (s.commands i).Returned := by
  obtain ⟨asks, rep, asksQuiet, asked⟩ := oneRead_asks
  obtain ⟨first, rep1, firstQuiet, stored⟩ := oneWrite_first
  obtain ⟨second, secondQuiet, mirrored⟩ := oneWrite_second rep1
  have size (reply : NbdReply) : 10 < (NbdReply.codec.encode reply).length := by
    rw [Codec.encode_length]
    decide
  have block : 4095 < rep.block.toList.length := by
    rw [List.Vector.toList_length]
    decide
  have quiet (s : Replying Bool) (p) (here : s.commands false = .write oneWrite p) :
      ∀ j, j ≠ true → ¬ (s.commands j).Between := by
    rintro (_ | _) other
    · rw [here]
      exact id
    · exact absurd rfl other
  obtain ⟨s₁, run₁, here₁, free₁⟩ := moves_run (Running.run_read asked) asksQuiet
    (s := start readAndWrite) (i := true) rfl
  obtain ⟨s₂, run₂, here₂, free₂⟩ := moves_run (Running.run_write stored) firstQuiet
    (s := s₁) (i := false) (by rw [here₁]; rfl)
  obtain ⟨s₃, run₃, here₃, free₃⟩ := reply_run 10 (s := s₂) (i := true) (by rw [here₂, here₁])
    rfl (free₂.trans free₁) (by decide) (size _) (quiet _ _ (by rw [here₂]; rfl))
  obtain ⟨s₄, run₄, here₄, free₄⟩ := moves_run (Running.run_write mirrored) secondQuiet
    (s := s₃) (i := false) (by rw [here₃, here₂]; rfl)
  obtain ⟨s₅, run₅, here₅, free₅⟩ := reply_run 4095 (s := s₄) (i := true)
    (by rw [here₄, here₃]) rfl (free₄.trans free₃) (by decide) block
    (quiet _ _ (by rw [here₄]; rfl))
  obtain ⟨s₆, run₆, here₆, free₆⟩ := reply_run 10 (s := s₅) (i := false)
    (by rw [here₅, here₄]) rfl free₅ (by decide) (size _) <| by
      rintro (_ | _) other
      · exact absurd rfl other
      · rw [here₅, Function.update_self]
        exact id
  refine ⟨_, s₆, run₁.trans <| run₂.trans <| run₃.trans <| run₄.trans <| run₅.trans run₆, ?_⟩
  rintro (_ | _)
  · rw [here₆, Function.update_self]
    rfl
  · rw [here₆, Function.update_of_ne (by decide), here₅, Function.update_self]
    rfl

theorem replies_atomic_contended : ∃ s calls already, (∀ i, (s.commands i).Returned) ∧
    Refines readAndWrite s calls already := by
  obtain ⟨events, s, run, returned⟩ := readAndWrite_contend
  obtain ⟨calls, already, refines⟩ := replies_atomic (run.mono And.left)
  exact ⟨s, calls, already, returned, refines⟩

theorem stream_complete_contended : ∃ s calls already, (∀ i, (s.commands i).Returned) ∧
    Refines readAndWrite s calls already ∧
    Framed readAndWrite s.commands (written oneRead.args.fd calls) := by
  obtain ⟨events, s, run, returned⟩ := readAndWrite_contend
  obtain ⟨calls, already, refines, framed⟩ :=
    stream_complete oneRead.args.fd readAndWrite_idle readAndWrite_socket run
  exact ⟨s, calls, already, returned, refines, framed⟩

end Replying
end DistributedDisk
