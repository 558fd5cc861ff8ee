import DistributedDisk.Reactor.Round

/-! `Run` when the handlers have removed all that there was to watch, and nobody calls
`Stop`. Its loop tests the flag and nothing else. -/
namespace DistributedDisk
open Transition

namespace Reactor
variable {H : Type}

/-- Nobody calls `Stop`. -/
def Unstopped (_ : Reactor H) (label : Event H ⊕ Act H) : Prop := label ≠ .inr .stop

/-- A call of `select`, also one that fails. -/
def Selecting : Event H ⊕ Act H → Prop
  | .inl (.selects _) | .inl .fails => True
  | _ => False

/-- A round is over, and nothing is left to watch. -/
structure Emptied (tr : List (Event H ⊕ Act H)) (r : Reactor H) : Prop where
  loop : r.thread = .loop
  round : ∃ ready, .inl (.selects ready) ∈ tr
  empty : ∀ pair, r.map pair = none

/-- `Run` can return from here without another `select`. -/
def Ends (r : Reactor H) : Prop :=
  ∃ tr t, Run (Under Unstopped Moves) r tr t ∧ t.thread = .returned ∧
    ∀ label ∈ tr, ¬ Selecting label

/-- The thread is in the loop of `Run`, and the flag is not set. -/
structure Looping (r : Reactor H) : Prop where
  flag : r.stopFlag = false
  entered : r.thread ≠ .run
  inside : r.thread ≠ .returned

variable {start r r' : Reactor H} {tr : List (Event H ⊕ Act H)}

theorem Act.apply_thread (act : Act H) (r : Reactor H) : (act.apply r).thread = r.thread := by
  cases act with
  | add | stop => rfl
  | remove fd mode =>
    rw [Act.apply, Reactor.remove]
    cases r.map ⟨fd, mode⟩ with
    | none | some => rfl

theorem Looping.advance (looping : r.Looping) (step : Advance r e r') : r'.Looping := by
  have flag := looping.flag
  cases step with
  | stores here => exact absurd here looping.entered
  | tests =>
    rw [if_neg (Bool.eq_false_iff.mp flag)]
    exact ⟨flag, nofun, nofun⟩
  | setsArgs | selects | fails | calls => exact ⟨flag, nofun, nofun⟩
  | @invokes ready =>
    rw [if_neg (Bool.eq_false_iff.mp flag)]
    cases ready with
    | nil | cons => exact ⟨flag, nofun, nofun⟩
  | @finds pair =>
    cases r.map pair with
    | none | some => exact ⟨flag, nofun, nofun⟩

theorem Looping.act (looping : r.Looping) {act : Act H} (unstopped : act ≠ .stop) :
    (act.apply r).Looping := by
  constructor
  · rw [← Bool.not_eq_true, act.apply_stopFlag, looping.flag]
    rintro (set | stops)
    · cases set
    · exact unstopped stops
  · rw [act.apply_thread]
    exact looping.entered
  · rw [act.apply_thread]
    exact looping.inside

/-- Whatever the handlers add and remove. -/
theorem Looping.step (looping : r.Looping) (step : Under Unstopped Moves r label r') :
    r'.Looping := by
  obtain ⟨move, unstopped⟩ := step
  cases move with
  | advances advance => exact looping.advance advance
  | acts act =>
    apply looping.act
    rintro rfl
    exact unstopped rfl

/-- On its way to the loop `Run` stores its `false`. -/
theorem entering_step (entering : start.thread = .run) (step : Moves start label r) :
    r.Looping := by
  cases step with
  | acts _ inside => cases entering.symm.trans inside
  | advances advance =>
    cases advance with
    | stores => exact ⟨rfl, nofun, nofun⟩
    | tests here | setsArgs here | selects _ here | fails here | invokes here | finds here
    | calls here => cases entering.symm.trans here

theorem looping_of_run (entering : start.thread = .run)
    (run : Run (Under Unstopped Moves) start tr r) (loop : r.thread = .loop) : r.Looping := by
  cases run with
  | refl => cases entering.symm.trans loop
  | next head rest => exact rest.invariant Looping.step (entering_step entering head.1)

theorem Looping.never_returns (looping : r.Looping)
    (run : Run (Under Unstopped Moves) r tr r') : r'.thread ≠ .returned := by
  have reached := run.invariant (P := Looping) Looping.step looping
  exact reached.inside

theorem Moves.of_loop (loop : r.thread = .loop) (flag : r.stopFlag = false)
    (step : Moves r label r') : label = .inl .tests ∧ r' = r.placed .setArgs := by
  cases step with
  | acts _ inside => cases loop.symm.trans inside
  | advances advance =>
    cases advance with
    | tests => exact ⟨rfl, congrArg r.placed (if_neg (Bool.eq_false_iff.mp flag))⟩
    | stores here | setsArgs here | selects _ here | fails here | invokes here | finds here
    | calls here => cases loop.symm.trans here

theorem Moves.of_setArgs (setArgs : r.thread = .setArgs) (step : Moves r label r') :
    label = .inl .setsArgs ∧ r' = r.placed (.select fun pair => (r.map pair).isSome) := by
  cases step with
  | acts _ inside => cases setArgs.symm.trans inside
  | advances advance =>
    cases advance with
    | setsArgs => exact ⟨rfl, rfl⟩
    | stores here | tests here | selects _ here | fails here | invokes here | finds here
    | calls here => cases setArgs.symm.trans here

theorem Moves.of_select (select : r.thread = .select sets) (step : Moves r label r') :
    Selecting label := by
  cases step with
  | acts _ inside => cases select.symm.trans inside
  | advances advance =>
    cases advance with
    | selects | fails => exact trivial
    | stores here | tests here | setsArgs here | invokes here | finds here | calls here =>
      cases select.symm.trans here

/-- The third step from the test of the flag is a call of `select`. -/
theorem Looping.selects_again (looping : r.Looping) (loop : r.thread = .loop)
    (run : Run (Under Unstopped Moves) r tr r') (goes : 2 < tr.length) :
    ∃ label rest, tr = .inl .tests :: .inl .setsArgs :: label :: rest ∧ Selecting label := by
  cases run with
  | refl => cases goes
  | next first run =>
    obtain ⟨rfl, rfl⟩ := first.1.of_loop loop looping.flag
    cases run with
    | refl => cases goes; contradiction
    | next second run =>
      obtain ⟨rfl, rfl⟩ := second.1.of_setArgs rfl
      cases run with
      | refl => exact absurd goes (Nat.lt_irrefl 2)
      | next third => exact ⟨_, _, rfl, third.1.of_select rfl⟩

/-- A round with nothing to watch, which leads back to where it began. -/
theorem Looping.idle (looping : r.Looping) (loop : r.thread = .loop) :
    Run Moves r [.inl .tests, .inl .setsArgs, .inl (.selects []), .inl .invokes] r := by
  have here : r = r.placed .loop := by rw [placed, ← loop]
  have tests := Advance.tests loop
  rw [if_neg (Bool.eq_false_iff.mp looping.flag)] at tests
  have invokes := Moves.invokes r []
  rw [Point.next, ite_self, ← here] at invokes
  exact .next (.advances tests) <| .next (.advances (.setsArgs rfl)) <|
    .next (.advances (.selects [] rfl .nil fun _ none => absurd none List.not_mem_nil)) <|
    .single invokes

/-- `Run` never returns when the handlers have removed everything. It comes to `select`
again, and again after that. -/
theorem emptied_never_ends (entering : start.thread = .run)
    (run : Run (Under Unstopped Moves) start tr r) (emptied : Emptied tr r) :
    ¬ r.Ends ∧
      (∀ tr' r', Run (Under Unstopped Moves) r tr' r' → r'.thread ≠ .returned ∧
        (2 < tr'.length → ∃ label rest,
          tr' = .inl .tests :: .inl .setsArgs :: label :: rest ∧ Selecting label)) ∧
      Run Moves r [.inl .tests, .inl .setsArgs, .inl (.selects []), .inl .invokes] r := by
  have looping := looping_of_run entering run emptied.loop
  refine ⟨?_, fun tr' r' more => ⟨looping.never_returns more, ?_⟩, looping.idle emptied.loop⟩
  · rintro ⟨tr', r', more, returned, -⟩
    exact looping.never_returns more returned
  · exact looping.selects_again emptied.loop more

/-- One descriptor, watched for reading. -/
def lone : Reactor Nat := new.add 3 .read 0

/-- Its handler removes it in the first round. -/
def lastRound : List (Event Nat ⊕ Act Nat) :=
  [.inl .stores, .inl .tests, .inl .setsArgs, .inl (.selects [⟨3, .read⟩]), .inl .invokes,
    .inl .finds, .inr (.remove 3 .read), .inl (.calls 0), .inl .invokes]

theorem lone_emptied :
    ∃ r, Run (Under Unstopped Moves) lone lastRound r ∧ Emptied lastRound r := by
  have ready : ∀ pair ∈ [(⟨3, .read⟩ : FdAndMode)],
      (lone.map pair).isSome = true ∧ (lone.map pair).isSome = true := by
    simp [lone, add]
  have run : Run Moves lone lastRound _ :=
    .next (.advances (.stores rfl)) <| .next (.advances (.tests rfl)) <|
      .next (.advances (.setsArgs rfl)) <|
      .next (.advances (.selects _ rfl (List.nodup_singleton _) ready)) <|
      .next (.advances (.invokes rfl)) <| .next (.advances (.finds rfl)) <|
      .next (.acts (.remove 3 .read) rfl) <| .next (.advances (.calls rfl)) <|
      .single (.advances (.invokes rfl))
  refine ⟨_, run.under ?_, rfl, ⟨[⟨3, .read⟩], by simp [lastRound]⟩, fun pair => ?_⟩
  · simp [Unstopped, lastRound]
  · simp [Act.apply, Reactor.remove, lone, add, new]

theorem emptied_never_ends_lone : ∃ r, Run (Under Unstopped Moves) lone lastRound r ∧
    Emptied lastRound r ∧
      Run Moves r [.inl .tests, .inl .setsArgs, .inl (.selects []), .inl .invokes] r := by
  obtain ⟨r, run, emptied⟩ := lone_emptied
  obtain ⟨-, -, idle⟩ := emptied_never_ends rfl run emptied
  exact ⟨r, run, emptied, idle⟩

/-- The map had one pair, the round has removed it, and `Run` cannot return without a
`select`. -/
theorem lone_goes_on : (lone.map ⟨3, .read⟩).isSome ∧
    ∃ r, Run (Under Unstopped Moves) lone lastRound r ∧ Emptied lastRound r ∧ ¬ r.Ends := by
  obtain ⟨r, run, emptied⟩ := lone_emptied
  refine ⟨rfl, r, run, emptied, ?_⟩
  rintro ⟨tr', r', more, returned, -⟩
  exact (looping_of_run rfl run emptied.loop).never_returns more returned

end Reactor
end DistributedDisk
