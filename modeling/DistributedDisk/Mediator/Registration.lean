import DistributedDisk.Reactor

/-! `RegisterProxy` and `UnRegisterProxy` of the `Mediator`, statement by statement, by one
thread, while the reactor's thread is in `Run`. -/
namespace DistributedDisk
open Transition

namespace Mediator

/-- The thread that registers is between two calls, or between the two statements of one. -/
inductive Owner where
  | idle
  | registering (fd : Int32)
  | unregistering (fd : Int32)

inductive Event (P : Type) where
  | stores (fd : Int32) (proxy : P)
  | adds (fd : Int32)
  | erases (fd : Int32)
  | removes (fd : Int32)
  | throws (fd : Int32)
  | reacts (e : Reactor.Event Int32)
  | handles (fd : Int32) (proxy : P)
  | faults (fd : Int32)

end Mediator

/-- The handler of the reactor for `fd` is `ReactorHandler(fd)`. A proxy in the map may be
null. -/
structure Mediator (P : Type) where
  proxyMap : Int32 → Option (Option P)
  reactor : Reactor Int32
  owner : Mediator.Owner

namespace Mediator
variable {P : Type}

def start : Mediator P where
  proxyMap := fun _ => none
  reactor := .new
  owner := .idle

/-- `m_proxy_map[fd_]` of `GetCmdData`, which makes a null entry where there is none. -/
def lookup (m : Mediator P) (fd : Int32) : Option P × Mediator P :=
  let proxy := (m.proxyMap fd).join
  (proxy, { m with proxyMap := Function.update m.proxyMap fd (some proxy) })

/-- The callers register proxies that are not null. A null proxy that is found is
dereferenced. -/
inductive Step (m : Mediator P) : Event P → Mediator P → Prop where
  | stores (fd : Int32) (proxy : P) : m.owner = .idle →
      Step m (.stores fd proxy) { m with
        proxyMap := Function.update m.proxyMap fd (some (some proxy)), owner := .registering fd }
  | adds : m.owner = .registering fd →
      Step m (.adds fd) { m with reactor := m.reactor.add fd .read fd, owner := .idle }
  | erases (fd : Int32) : m.owner = .idle →
      Step m (.erases fd) { m with
        proxyMap := Function.update m.proxyMap fd none, owner := .unregistering fd }
  | removes : m.owner = .unregistering fd → m.reactor.remove fd .read = some r →
      Step m (.removes fd) { m with reactor := r, owner := .idle }
  | throws : m.owner = .unregistering fd → m.reactor.remove fd .read = none →
      Step m (.throws fd) { m with owner := .idle }
  | reacts : m.reactor.Advance e r → (∀ fd, e ≠ .calls fd) →
      Step m (.reacts e) { m with reactor := r }
  | handles : m.reactor.Advance (.calls fd) r → (m.lookup fd).1 = some proxy →
      Step m (.handles fd proxy) { (m.lookup fd).2 with reactor := r }
  | faults : m.reactor.Advance (.calls fd) r → (m.lookup fd).1 = none →
      Step m (.faults fd) { (m.lookup fd).2 with reactor := { r with thread := .aborted } }

/-- The handler that runs next finds its proxy. -/
def Dispatchable (m : Mediator P) : Prop :=
  ∀ fd rest, m.reactor.thread = .call fd rest → (m.lookup fd).1.isSome

/-- The two maps are registered for the same descriptors. -/
def Matching (m : Mediator P) : Prop :=
  ∀ fd, (m.proxyMap fd).isSome = (m.reactor.map ⟨fd, .read⟩).isSome

/-- `UnRegisterProxy` takes the proxy away while the thread of the reactor is not on its
way to it, and no handler is found whose proxy is gone. -/
def Apart (m : Mediator P) : Event P → Prop
  | .erases fd => ∀ rest, m.reactor.thread ≠ .call fd rest
  | .reacts .finds => ∀ pair rest, m.reactor.thread = .find pair rest →
      (m.reactor.map pair).isSome → m.owner ≠ .unregistering pair.fd
  | _ => True

/-- The owner is between two calls, or in one for `fd`. -/
def Owner.Only (fd : Int32) : Owner → Prop
  | .idle => True
  | .registering fd' | .unregistering fd' => fd' = fd

/-- What the two maps have for `fd`, as far as the owner has come. -/
inductive Entry (fd : Int32) : Owner → Option (Option P) → Option Int32 → Prop where
  | registered (proxy : P) : doing ≠ .unregistering fd →
      Entry fd doing (some (some proxy)) (some fd)
  | absent : doing ≠ .registering fd → Entry fd doing none none
  | added (proxy : P) : Entry fd (.registering fd) (some (some proxy)) none
  | erased : Entry fd (.unregistering fd) none (some fd)

structure Kept (m : Mediator P) : Prop where
  entry : ∀ fd, Entry fd m.owner (m.proxyMap fd) (m.reactor.map ⟨fd, .read⟩)
  mode : ∀ pair, pair.mode ≠ .read → m.reactor.map pair = none

variable {m m' : Mediator P}

section
variable {proxy : Option (Option P)} {handler : Option Int32}

/-- Between two calls a descriptor has both entries or none. -/
theorem Entry.isSome_eq (entry : Entry fd .idle proxy handler) : proxy.isSome = handler.isSome := by
  cases entry with
  | registered | absent => rfl

/-- The owner moves on with another descriptor. -/
theorem Entry.turn (entry : Entry fd doing proxy handler) (other : fd ≠ fd')
    (before : doing.Only fd') (after : doing'.Only fd') : Entry fd doing' proxy handler := by
  cases entry with
  | registered p =>
    apply Entry.registered
    rintro rfl
    exact other after
  | absent =>
    apply Entry.absent
    rintro rfl
    exact other after
  | added | erased => exact absurd before other

theorem Entry.stores (entry : Entry fd .idle proxy handler) (p : P) :
    Entry fd (.registering fd) (some (some p)) handler := by
  cases entry with
  | registered => exact .registered p nofun
  | absent => exact .added p

theorem Entry.adds (entry : Entry fd (.registering fd) proxy handler) :
    Entry fd .idle proxy (some fd) := by
  cases entry with
  | registered p | added p => exact .registered p nofun
  | absent other => exact absurd rfl other

theorem Entry.erases (entry : Entry fd .idle proxy handler) :
    Entry fd (.unregistering fd) (none : Option (Option P)) handler := by
  cases entry with
  | registered => exact .erased
  | absent => exact .absent nofun

/-- `UnRegisterProxy` leaves neither entry, with or without a handler to remove. -/
theorem Entry.removes (entry : Entry fd (.unregistering fd) proxy handler) :
    Entry fd .idle proxy none := by
  cases entry with
  | registered _ other => exact absurd rfl other
  | absent | erased => exact .absent nofun

theorem Entry.bound (entry : Entry fd doing proxy (some fd')) : fd' = fd := by
  cases entry with
  | registered | erased => rfl

/-- A handler has its proxy but between the two statements of `UnRegisterProxy`. -/
theorem Entry.dispatches_iff (entry : Entry fd doing proxy (some fd')) :
    proxy.join.isSome ↔ doing ≠ .unregistering fd := by
  cases entry with
  | registered _ other => exact iff_of_true rfl other
  | erased => exact iff_of_false nofun fun other => other rfl

end

variable {m m' : Mediator P}

theorem lookup_some (found : (m.lookup fd).1 = some proxy) : (m.lookup fd).2 = m := by
  have here : m.proxyMap fd = some (some proxy) := Option.join_eq_some_iff.mp found
  have same : (m.proxyMap fd).join = some proxy := found
  rw [lookup, same, ← here, Function.update_eq_self]

/-- The owner goes on with `fd`, and the maps keep what they have for the others. -/
theorem Kept.move (kept : Kept m) (fd : Int32) {call : Owner} (doing : m.owner = call)
    (before : call.Only fd) (after : m'.owner.Only fd)
    (here : Entry fd call (m.proxyMap fd) (m.reactor.map ⟨fd, .read⟩) →
      Entry fd m'.owner (m'.proxyMap fd) (m'.reactor.map ⟨fd, .read⟩))
    (proxies : ∀ fd', fd' ≠ fd → m'.proxyMap fd' = m.proxyMap fd')
    (handlers : ∀ pair, pair ≠ ⟨fd, .read⟩ → m'.reactor.map pair = m.reactor.map pair) :
    Kept m' := by
  subst doing
  constructor
  · intro fd'
    by_cases same : fd' = fd
    · subst same
      exact here (kept.entry fd')
    · rw [proxies fd' same, handlers ⟨fd', .read⟩]
      · exact (kept.entry fd').turn same before after
      · intro samePair
        cases samePair
        exact same rfl
  · intro pair notRead
    rw [handlers pair]
    · exact kept.mode pair notRead
    · rintro rfl
      exact notRead rfl

theorem Kept.step (kept : Kept m) (dispatchable : Dispatchable m) (step : m.Step e m') :
    Kept m' := by
  cases step with
  | stores fd proxy idle =>
    refine kept.move fd idle trivial rfl ?_ ?_ ?_
    · intro entry
      simpa only [Function.update_self] using entry.stores proxy
    · exact fun fd' other => Function.update_of_ne other ..
    · exact fun _ _ => rfl
  | @adds fd doing =>
    refine kept.move fd doing rfl trivial ?_ ?_ ?_
    · intro entry
      simpa only [Reactor.add, Function.update_self] using entry.adds
    · exact fun _ _ => rfl
    · exact fun pair other => Function.update_of_ne other ..
  | erases fd idle =>
    refine kept.move fd idle trivial rfl ?_ ?_ ?_
    · intro entry
      simpa only [Function.update_self] using entry.erases
    · exact fun fd' other => Function.update_of_ne other ..
    · exact fun _ _ => rfl
  | @removes fd _ doing removed =>
    obtain ⟨_, rfl⟩ := Reactor.remove_eq_some removed
    refine kept.move fd doing rfl trivial ?_ ?_ ?_
    · intro entry
      simpa only [Function.update_self] using entry.removes
    · exact fun _ _ => rfl
    · exact fun pair other => Function.update_of_ne other ..
  | @throws fd doing throws =>
    refine kept.move fd doing rfl trivial ?_ ?_ ?_
    · intro entry
      simpa only [Reactor.remove_eq_none throws] using entry.removes
    · exact fun _ _ => rfl
    · exact fun _ _ => rfl
  | reacts advance => exact ⟨advance.map_eq ▸ kept.entry, advance.map_eq ▸ kept.mode⟩
  | handles advance found =>
    rw [lookup_some found]
    exact ⟨advance.map_eq ▸ kept.entry, advance.map_eq ▸ kept.mode⟩
  | faults advance none =>
    cases advance with
    | calls calling =>
      have some := dispatchable _ _ calling
      rw [none] at some
      cases some

theorem dispatchable_of_quiet (quiet : ∀ fd rest, m.reactor.thread ≠ .call fd rest) :
    Dispatchable m := fun fd rest calling => absurd calling (quiet fd rest)

/-- A handler that is found has its proxy but in the middle of an `UnRegisterProxy`. -/
theorem Kept.finds_iff (kept : Kept m) (finding : m.reactor.thread = .find pair rest) :
    Dispatchable { m with reactor := { m.reactor with
        thread := (m.reactor.map pair).elim (.invoke rest) (.call · rest) } } ↔
      Apart m (.reacts .finds) := by
  obtain ⟨fd, mode⟩ := pair
  cases handler : m.reactor.map ⟨fd, mode⟩ with
  | none =>
    refine iff_of_true (dispatchable_of_quiet nofun) fun pair' rest' finding' found => ?_
    rw [finding] at finding'
    cases finding'
    rw [handler] at found
    cases found
  | some fd' =>
    have read : mode = .read := by
      by_contra notRead
      have none := kept.mode ⟨fd, mode⟩ notRead
      rw [handler] at none
      cases none
    subst read
    have entry := kept.entry fd
    rw [handler] at entry
    obtain rfl := entry.bound
    constructor
    · intro after pair' rest' finding' _
      rw [finding] at finding'
      cases finding'
      exact entry.dispatches_iff.mp (after _ _ rfl)
    · intro apart fd'' rest'' calling
      cases calling
      exact entry.dispatches_iff.mpr (apart _ _ finding (by rw [handler]; rfl))

/-- The next handler finds its proxy after a step exactly when the step keeps apart what
the two threads do. -/
theorem Kept.dispatchable_iff (kept : Kept m) (dispatchable : Dispatchable m)
    (step : m.Step e m') : Dispatchable m' ↔ Apart m e := by
  cases step with
  | stores fd proxy =>
    refine iff_of_true (fun fd' rest calling => ?_) trivial
    by_cases same : fd' = fd
    · simp [lookup, same]
    · simpa [lookup, Function.update_of_ne same] using dispatchable fd' rest calling
  | adds | throws => exact iff_of_true dispatchable trivial
  | removes _ removed =>
    obtain ⟨_, rfl⟩ := Reactor.remove_eq_some removed
    exact iff_of_true dispatchable trivial
  | erases fd =>
    constructor
    · intro after rest calling
      simpa [lookup] using after fd rest calling
    · intro apart fd' rest calling
      have same : fd' ≠ fd := by
        rintro rfl
        exact apart rest calling
      simpa [lookup, Function.update_of_ne same] using dispatchable fd' rest calling
  | @reacts e r advance other =>
    cases advance with
    | stores | setsArgs | selects | fails =>
      exact iff_of_true (dispatchable_of_quiet nofun) trivial
    | tests =>
      refine iff_of_true (dispatchable_of_quiet fun fd rest => ?_) trivial
      dsimp only
      split <;> nofun
    | @invokes ready =>
      refine iff_of_true (dispatchable_of_quiet fun fd rest => ?_) trivial
      dsimp only
      split
      · nofun
      · cases ready with
        | nil | cons => nofun
    | finds finding => exact kept.finds_iff finding
    | calls => exact absurd rfl (other _)
  | handles advance found =>
    cases advance
    exact iff_of_true (dispatchable_of_quiet nofun) trivial
  | faults advance none =>
    cases advance with
    | calls calling =>
      have some := dispatchable _ _ calling
      rw [none] at some
      cases some

/-- As long as the two threads keep apart, every handler finds its proxy and the two maps
match between the calls, and the first step that does not keep them apart sends the
thread of the reactor to a proxy that is missing. -/
theorem dispatch_iff (run : Run (Under Apart Step) (start : Mediator P) tr m) :
    Dispatchable m ∧ (m.owner = .idle → Matching m) ∧
      ∀ e m', m.Step e m' → (Dispatchable m' ↔ Apart m e) := by
  have invariant : Kept m ∧ Dispatchable m := by
    apply run.invariant (P := fun m => Kept m ∧ Dispatchable m)
    · rintro m e m' ⟨kept, dispatchable⟩ ⟨step, apart⟩
      exact ⟨kept.step dispatchable step, (kept.dispatchable_iff dispatchable step).mpr apart⟩
    · exact ⟨⟨fun fd => .absent nofun, fun _ _ => rfl⟩, dispatchable_of_quiet nofun⟩
  obtain ⟨kept, dispatchable⟩ := invariant
  refine ⟨dispatchable, fun idle fd => ?_, fun e m' step => kept.dispatchable_iff dispatchable step⟩
  have entry := kept.entry fd
  rw [idle] at entry
  exact entry.isSome_eq

/-- A proxy is registered for descriptor 5, and the thread of the reactor has found its
handler. -/
theorem handler_found : ∃ tr m, Run (Under Apart Step) (start : Mediator Unit) tr m ∧
    m.owner = .idle ∧ m.reactor.thread = .call 5 [] := by
  have watched : ∀ pair ∈ [(⟨5, .read⟩ : Reactor.FdAndMode)],
      (Function.update (fun _ => none) ⟨5, .read⟩ (some (5 : Int32)) pair).isSome ∧
        (Function.update (fun _ => none) ⟨5, .read⟩ (some (5 : Int32)) pair).isSome := by
    simp
  exact ⟨[.stores 5 (), .adds 5, .reacts .stores, .reacts .tests, .reacts .setsArgs,
      .reacts (.selects [⟨5, .read⟩]), .reacts .invokes, .reacts .finds], _,
    .next ⟨.stores 5 () rfl, trivial⟩ <| .next ⟨.adds rfl, trivial⟩ <|
      .next ⟨.reacts (.stores rfl) nofun, trivial⟩ <|
      .next ⟨.reacts (.tests rfl) nofun, trivial⟩ <|
      .next ⟨.reacts (.setsArgs rfl) nofun, trivial⟩ <|
      .next ⟨.reacts (.selects _ rfl (List.pairwise_singleton _ _) watched) nofun, trivial⟩ <|
      .next ⟨.reacts (.invokes rfl) nofun, trivial⟩ <|
      .single ⟨.reacts (.finds rfl) nofun, fun _ _ _ _ => nofun⟩, rfl, rfl⟩

theorem dispatch_iff_found : ∃ tr m, Run (Under Apart Step) (start : Mediator Unit) tr m ∧
    m.reactor.thread = .call 5 [] ∧ (m.lookup 5).1.isSome ∧ Matching m := by
  obtain ⟨tr, m, run, idle, calling⟩ := handler_found
  obtain ⟨dispatchable, matching, _⟩ := dispatch_iff run
  exact ⟨tr, m, run, calling, dispatchable 5 [] calling, matching idle⟩

/-- `UnRegisterProxy` has taken the proxy away when the handler looks for it. -/
theorem dispatch_faults : ∃ tr m m', Run Step (start : Mediator Unit) tr m ∧
    m.Step (.faults 5) m' := by
  obtain ⟨tr, m, run, idle, calling⟩ := handler_found
  have erased := run.guarded.trans (.single (.erases 5 idle))
  exact ⟨_, _, _, erased, .faults (.calls calling) (by simp [lookup])⟩

end Mediator
end DistributedDisk
