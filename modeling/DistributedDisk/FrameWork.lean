import DistributedDisk.DirMonitor.Stop
import DistributedDisk.Mediator

/-! `FrameWork`: the libraries that `DllLoader` opens when the monitor reports their files, the
creation functions that they register, and the workers that create commands meanwhile. -/
namespace DistributedDisk
open Transition

namespace DllLoader
open DirMonitor

/-- What `Notify` asks of the outside, by the bytes of each text. -/
inductive Output where
  | dlopen (name : List UInt8)
  | logError (text : List UInt8)
  | cout (text : List UInt8)
  deriving DecidableEq

/-- `Notify`; `dlopen` gives a handle or the text of `dlerror`. -/
def notify {L H : Type} (dlopen : L → List UInt8 → L × Except (List UInt8) H) (linker : L)
    (event : DirEvent) : L × Option H × List Output :=
  match event.eventType with
  | .add =>
    let name := cString event.filename
    match dlopen linker name with
    | (linker, .ok handle) => (linker, some handle, [.dlopen name])
    | (linker, .error text) => (linker, none, [.dlopen name, .logError name,
        .logError "dlopen fail:".toUTF8.toList, .logError text])
  | .remove => (linker, none, [.cout (event.filename ++ " removed\n".toUTF8.toList)])
  | .modified => (linker, none, [.cout (event.filename ++ " modified\n".toUTF8.toList)])

def Output.asked : Output → Option (List UInt8)
  | .dlopen name => some name
  | _ => none

end DllLoader

/-- `DllLoader` subscribes in its constructor, when the monitor's thread runs already, and ends
the subscription in its destructor. -/
inductive DllLoader where
  | constructing
  | subscribed
  | destroyed

/-- What a constructor function of a library hands to `RegisterCmd`. -/
abbrev Registration (BASE ARG : Type) := String × (ARG → BASE)

/-- `linker` is what `dlopen` depends on; `registering` is what is left of the constructor
functions of the library that is being loaded. -/
structure FrameWork (L BASE ARG : Type) where
  monitor : DirMonitor
  loader : DllLoader
  linker : L
  registering : List (Registration BASE ARG)
  output : List DllLoader.Output
  factory : Factory BASE ARG String

namespace FrameWork
variable {L H BASE ARG : Type}

inductive Event (H BASE ARG : Type) where
  | monitor (e : DirMonitor.Event)
  | subscribes
  | fails
  | unsubscribes
  | links
  | notifies (r : DirMonitor.Record) (loaded : Option (H × List (Registration BASE ARG)))
  | registers (registration : Registration BASE ARG)
  | creates (classId : String) (arg : ARG) (result : Except Exception BASE)

def start (linker : L) : FrameWork L BASE ARG where
  monitor := .start
  loader := .constructing
  linker := linker
  registering := []
  output := []
  factory := .empty

/-- What the manual of `dlopen` says of objects that nobody closes: one that is loaded stays
loaded, and its constructor functions are not called again. -/
structure OpensOnce
    (dlopen : L → List UInt8 → L × Except (List UInt8) (H × List (Registration BASE ARG)))
    (holds : L → H → Prop) : Prop where
  stays : holds l handle → holds (dlopen l name).1 handle
  loads : (dlopen l name).2 = .ok (handle, registrations) → holds (dlopen l name).1 handle
  quiet : (dlopen l name).2 = .ok (handle, registrations) → holds l handle →
    registrations = []

/-- The events of the monitor's thread. -/
def ofThread : DirMonitor.Event → Prop
  | .tests _ | .reads _ | .looks _ | .casts _ | .ends => True
  | _ => False

/-- A `Broadcast` of the monitor notifies the loader while it is subscribed, and the thread goes
on when all is registered. `StopMonitor` is called by `~DirMonitor`, behind `~DllLoader`. What
stands behind the record in the buffer is `rest`; others may change what `dlopen` finds. -/
inductive Step
    (dlopen : L → List UInt8 → L × Except (List UInt8) (H × List (Registration BASE ARG)))
    (holds : L → H → Prop) (s : FrameWork L BASE ARG) :
    Event H BASE ARG → FrameWork L BASE ARG → Prop where
  | monitor : DirMonitor.Step s.monitor e m →
      (∀ r, e = .casts r → s.loader ≠ .subscribed) → (ofThread e → s.registering = []) →
      (e = .begins → s.loader = .destroyed) →
      Step dlopen holds s (.monitor e) { s with monitor := m }
  | subscribes : s.loader = .constructing →
      Step dlopen holds s .subscribes { s with loader := .subscribed }
  | fails : s.loader = .constructing →
      Step dlopen holds s .fails { s with loader := .destroyed }
  | unsubscribes : s.loader = .subscribed →
      Step dlopen holds s .unsubscribes { s with loader := .destroyed }
  | links (l : L) : (∀ handle, holds s.linker handle → holds l handle) →
      Step dlopen holds s .links { s with linker := l }
  | notifies (rest : List UInt8) : DirMonitor.Step s.monitor (.casts r) m →
      s.loader = .subscribed → s.registering = [] →
      DirMonitor.translateINotifyToEvent { r.header with name := r.padded ++ rest } = some event →
      DllLoader.notify dlopen s.linker event = (l, loaded, printed) →
      Step dlopen holds s (.notifies r loaded) { s with
        monitor := m
        linker := l
        registering := loaded.elim [] Prod.snd
        output := s.output ++ printed }
  | registers : s.registering = (classId, createFunc) :: rest →
      Step dlopen holds s (.registers (classId, createFunc))
        { s with factory := s.factory.add classId createFunc, registering := rest }
  | creates (classId : String) (arg : ARG) :
      Step dlopen holds s (.creates classId arg (s.factory.create classId arg)) s

/-- `~DllLoader` does not run inside a `Notify`, from which `Broadcast` would go on behind a
node that is gone. -/
def Apart (s : FrameWork L BASE ARG) (e : Event H BASE ARG) : Prop :=
  e = .unsubscribes → s.registering = []

def Event.ofMonitor : Event H BASE ARG → Option DirMonitor.Event
  | .monitor e => some e
  | .notifies r _ => some (.casts r)
  | _ => none

def Event.told : Event H BASE ARG → Option DirMonitor.Record
  | .notifies r _ => some r
  | _ => none

def Event.loads : Event H BASE ARG → Option (H × List (Registration BASE ARG))
  | .notifies _ loaded => loaded
  | _ => none

def Event.registration : Event H BASE ARG → Option (Registration BASE ARG)
  | .registers registration => some registration
  | _ => none

/-- What the monitor does in a run. -/
def monitored (tr : List (Event H BASE ARG)) : List DirMonitor.Event :=
  tr.filterMap Event.ofMonitor

/-- The records of which the loader was notified. -/
def told (tr : List (Event H BASE ARG)) : List DirMonitor.Record := tr.filterMap Event.told

/-- The calls of `dlopen` that gave a handle, with what the library brought along. -/
def loads (tr : List (Event H BASE ARG)) : List (H × List (Registration BASE ARG)) :=
  tr.filterMap Event.loads

def registered (tr : List (Event H BASE ARG)) : List (Registration BASE ARG) :=
  tr.filterMap Event.registration

/-- The names that `dlopen` was called with. -/
def asked (s : FrameWork L BASE ARG) : List (List UInt8) :=
  s.output.filterMap DllLoader.Output.asked

/-- `Create`, by the registration of the key that came last. -/
def latest (registrations : List (Registration BASE ARG)) (classId : String) (arg : ARG) :
    Except Exception BASE :=
  match (registrations.filter (·.1 = classId)).getLast? with
  | none => .error .wrongKey
  | some registration => .ok (registration.2 arg)

end FrameWork

instance (r : DirMonitor.Record) : Decidable r.Appears :=
  inferInstanceAs (Decidable (r.header.mask.toNat.testBit 8 ∨ r.header.mask.toNat.testBit 7))

/-- The names of the files that appear. -/
def DirMonitor.appeared (records : List DirMonitor.Record) : List (List UInt8) :=
  (records.filter fun r => r.Appears).map DirMonitor.Record.name

/-- `dlopen` is called for the records of files that appear, with the name in front of the
first zero. -/
theorem DllLoader.notify_asked {L H : Type} {r : DirMonitor.Record} {event : DirMonitor.DirEvent}
    (describes : DirMonitor.Describes r event)
    (dlopen : L → List UInt8 → L × Except (List UInt8) H) (linker : L) :
    (notify dlopen linker event).2.2.filterMap Output.asked = DirMonitor.appeared [r] := by
  cases type : event.eventType with
  | add =>
    have appears := describes.add.mp type
    simp only [notify, type, DirMonitor.appeared, List.filter_cons, appears, decide_true, if_true]
    obtain ⟨linker', result⟩ := dlopen linker (DirMonitor.cString event.filename)
    cases result with
    | error | ok => simp [Output.asked, describes.name]
  | remove =>
    have appears := (describes.remove.mp type).1
    simp only [notify, type, DirMonitor.appeared, List.filter_cons, appears, decide_false]
    rfl
  | modified =>
    have appears := (describes.modified.mp type).1
    simp only [notify, type, DirMonitor.appeared, List.filter_cons, appears, decide_false]
    rfl

namespace FrameWork
variable {L H BASE ARG : Type} {s t : FrameWork L BASE ARG} {tr : List (Event H BASE ARG)}
  {dlopen : L → List UInt8 → L × Except (List UInt8) (H × List (Registration BASE ARG))}
  {holds : L → H → Prop} {l : L}

/-- What a `Notify` leaves loaded, and that a library brings along nothing the second time. -/
theorem OpensOnce.notify (opens : OpensOnce dlopen holds)
    (notifies : DllLoader.notify dlopen s.linker event = (l, loaded, printed)) :
    (∀ handle, holds s.linker handle → holds l handle) ∧
    ∀ load ∈ loaded, holds l load.1 ∧ (holds s.linker load.1 → load.2 = []) := by
  cases type : event.eventType with
  | remove | modified =>
    simp only [DllLoader.notify, type, Prod.mk.injEq] at notifies
    obtain ⟨rfl, rfl, rfl⟩ := notifies
    exact ⟨fun _ held => held, fun load member => by simp at member⟩
  | add =>
    have stays handle := @opens.stays s.linker handle (DirMonitor.cString event.filename)
    simp only [DllLoader.notify, type] at notifies
    split at notifies
    · rename_i after handle result
      simp only [Prod.mk.injEq] at notifies
      obtain ⟨rfl, rfl, rfl⟩ := notifies
      rw [result] at stays
      refine ⟨stays, fun load member => ?_⟩
      cases Option.mem_some.mp member
      have answer : (dlopen s.linker (DirMonitor.cString event.filename)).2 =
          .ok (handle.1, handle.2) := by rw [result]
      have loads := opens.loads answer
      rw [result] at loads
      exact ⟨loads, opens.quiet answer⟩
    · rename_i after text result
      simp only [Prod.mk.injEq] at notifies
      obtain ⟨rfl, rfl, rfl⟩ := notifies
      rw [result] at stays
      exact ⟨stays, fun load member => by simp at member⟩

theorem latest_concat (registrations : List (Registration BASE ARG)) (classId other : String)
    (createFunc : ARG → BASE) (arg : ARG) :
    latest (registrations ++ [(classId, createFunc)]) other arg =
      if classId = other then .ok (createFunc arg) else latest registrations other arg := by
  by_cases same : classId = other
  · simp [latest, List.filter_append, same]
  · simp [latest, List.filter_append, same]

/-! ### What a run keeps -/

theorem monitored_run (run : Run (Step dlopen holds) (start l) tr s) :
    Run DirMonitor.Step .start (monitored tr) s.monitor := by
  apply run.history (P := fun tr (s : FrameWork L BASE ARG) =>
    Run DirMonitor.Step .start (monitored tr) s.monitor) (.refl _)
  intro tr s e t before step
  have more : monitored (tr ++ [e]) = monitored tr ++ e.ofMonitor.toList := filterMap_concat ..
  rw [more]
  cases step with
  | monitor step | notifies _ step => exact before.trans (.single step)
  | subscribes | fails | unsubscribes | links | registers | creates =>
    simpa [Event.ofMonitor] using before

theorem translated {r : DirMonitor.Record}
    (event : DirMonitor.translateINotifyToEvent { r.header with name := r.padded ++ rest } =
      some dirEvent) : DirMonitor.Describes r dirEvent := by
  obtain ⟨other, same, describes⟩ := DirMonitor.translate_record r rest
  cases event.symm.trans same
  exact describes

theorem told_concat (tr : List (Event H BASE ARG)) (e : Event H BASE ARG) :
    told (tr ++ [e]) = told tr ++ e.told.toList := filterMap_concat ..

theorem asked_eq (run : Run (Step dlopen holds) (start l) tr s) :
    s.asked = DirMonitor.appeared (told tr) := by
  apply run.history (P := fun tr (s : FrameWork L BASE ARG) =>
    s.asked = DirMonitor.appeared (told tr)) rfl
  intro tr s e t before step
  rw [told_concat]
  cases step with
  | @notifies r m event l loaded printed rest step _ _ translates notifies =>
    have asks := DllLoader.notify_asked (translated translates) dlopen s.linker
    rw [notifies] at asks
    simp only [asked, List.filterMap_append, DirMonitor.appeared, List.filter_append,
      List.map_append] at before asks ⊢
    rw [before, asks]
    rfl
  | monitor | subscribes | fails | unsubscribes | links | registers | creates =>
    exact before.trans (congrArg _ (List.append_nil _).symm)

/-- Where the loader is in its life, by what happened. -/
structure Lives (tr : List (Event H BASE ARG)) (s : FrameWork L BASE ARG) : Prop where
  constructing : s.loader = .constructing → .subscribes ∉ tr ∧ .unsubscribes ∉ tr
  subscribed : s.loader = .subscribed ↔ .subscribes ∈ tr ∧ .unsubscribes ∉ tr

theorem lives (run : Run (Step dlopen holds) (start l) tr s) : Lives tr s := by
  apply run.history (P := Lives)
  · exact ⟨fun _ => ⟨List.not_mem_nil, List.not_mem_nil⟩, by simp [start]⟩
  intro tr s e t before step
  obtain ⟨constructing, subscribed⟩ := before
  cases step with
  | monitor | links | notifies | registers | creates =>
    constructor
    · simpa using constructing
    · simpa using subscribed
  | subscribes here | fails here => constructor <;> simp [constructing here]
  | unsubscribes here => constructor <;> simp

/-- The loader is told of consecutive broadcasts. -/
def Hears (tr : List (Event H BASE ARG)) (s : FrameWork L BASE ARG) : Prop :=
  match s.loader with
  | .constructing => told tr = []
  | .subscribed => told tr <:+ s.monitor.broadcasts
  | .destroyed => told tr <:+: s.monitor.broadcasts

theorem hears (run : Run (Step dlopen holds) (start l) tr s) : Hears tr s := by
  apply run.history (P := Hears) rfl
  intro tr s e t before step
  simp only [Hears, told_concat] at before ⊢
  cases step with
  | links | registers | creates => simpa [Event.told] using before
  | subscribes here | fails here =>
    simp only [here] at before
    simp [Event.told, before]
  | unsubscribes here =>
    simp only [here] at before
    simpa [Event.told] using before.isInfix
  | @notifies r m event l loaded printed rest step here =>
    simp only [here] at before
    obtain ⟨early, same⟩ := before
    cases step
    simp only [here]
    exact ⟨early, by rw [← same, List.append_assoc]; rfl⟩
  | @monitor e m step silent =>
    have grows : s.monitor.broadcasts <+: m.broadcasts := by
      cases step with
      | casts => exact List.prefix_append ..
      | _ => exact List.prefix_rfl
    have same (here : s.loader = .subscribed) : m.broadcasts = s.monitor.broadcasts := by
      cases step with
      | casts => exact absurd here (silent _ rfl)
      | _ => rfl
    cases here : s.loader with
    | constructing => simpa [here, Event.told] using before
    | subscribed => simpa [here, Event.told, same here] using before
    | destroyed =>
      simp only [here] at before
      simpa [here, Event.told] using before.trans grows.isInfix

/-- The constructor functions of the libraries that were loaded, so far. -/
structure Loaded (holds : L → H → Prop) (tr : List (Event H BASE ARG)) (s : FrameWork L BASE ARG) :
    Prop where
  held : ∀ load ∈ loads tr, holds s.linker load.1
  once : (((loads tr).filter fun load => !load.2.isEmpty).map Prod.fst).Nodup
  complete : (loads tr).flatMap Prod.snd = registered tr ++ s.registering
  factory : ∀ classId arg, s.factory.create classId arg = latest (registered tr) classId arg

theorem loads_concat (tr : List (Event H BASE ARG)) (e : Event H BASE ARG) :
    loads (tr ++ [e]) = loads tr ++ e.loads.toList := filterMap_concat ..

theorem registered_concat (tr : List (Event H BASE ARG)) (e : Event H BASE ARG) :
    registered (tr ++ [e]) = registered tr ++ e.registration.toList := filterMap_concat ..

/-- A step of which no library knows. -/
theorem Loaded.keep (loaded : Loaded holds tr s) (loads : e.loads = none)
    (registration : e.registration = none)
    (held : ∀ handle, holds s.linker handle → holds t.linker handle)
    (registering : t.registering = s.registering) (factory : t.factory = s.factory) :
    Loaded holds (tr ++ [e]) t := by
  have same : FrameWork.loads (tr ++ [e]) = FrameWork.loads tr := by
    rw [loads_concat, loads, Option.toList_none, List.append_nil]
  have quiet : registered (tr ++ [e]) = registered tr := by
    rw [registered_concat, registration, Option.toList_none, List.append_nil]
  constructor
  · rw [same]
    exact fun load member => held _ (loaded.held load member)
  · rw [same]
    exact loaded.once
  · rw [same, quiet, registering]
    exact loaded.complete
  · rw [quiet, factory]
    exact loaded.factory

/-- A load brings constructor functions along only when its handle is new. -/
theorem Loaded.once_load {load : H × List (Registration BASE ARG)}
    (loaded : Loaded holds tr s) (fresh : holds s.linker load.1 → load.2 = []) :
    (((loads tr ++ [load]).filter fun load => !load.2.isEmpty).map Prod.fst).Nodup := by
  rw [List.filter_append, List.map_append]
  by_cases empty : load.2 = []
  · simpa [empty] using loaded.once
  · refine List.nodup_append.mpr ⟨loaded.once, by simp [empty], ?_⟩
    intro handle before last member same
    obtain ⟨old, kept, rfl⟩ := List.mem_map.mp before
    have held := loaded.held old (List.mem_of_mem_filter kept)
    obtain rfl : last = load.1 := by simpa [empty] using member
    exact empty (fresh (same ▸ held))

theorem Loaded.step (opens : OpensOnce dlopen holds) (loaded : Loaded holds tr s)
    (step : Step dlopen holds s e t) : Loaded holds (tr ++ [e]) t := by
  cases step with
  | monitor | subscribes | fails | unsubscribes | creates =>
    exact loaded.keep rfl rfl (fun _ held => held) rfl rfl
  | links l held => exact loaded.keep rfl rfl held rfl rfl
  | @registers classId createFunc rest here =>
    obtain ⟨held, once, complete, factory⟩ := loaded
    have same : loads (tr ++ [.registers (classId, createFunc)]) = loads tr :=
      (loads_concat ..).trans (List.append_nil _)
    have more : registered (tr ++ [.registers (classId, createFunc)]) =
        registered tr ++ [(classId, createFunc)] := registered_concat ..
    refine ⟨same ▸ held, same ▸ once, ?_, fun other arg => ?_⟩
    · rw [same, more, complete, here, List.append_assoc]
      rfl
    · rw [more, latest_concat]
      by_cases same : classId = other
      · subst same
        rw [if_pos rfl, Factory.create_add_self]
      · rw [if_neg same, Factory.create_add_ne (Ne.symm same), factory]
  | @notifies r m event l result printed rest _ _ idle _ notifies =>
    have more : loads (tr ++ [.notifies r result]) = loads tr ++ result.toList := loads_concat ..
    have same : registered (tr ++ [.notifies r result]) = registered tr :=
      (registered_concat ..).trans (List.append_nil _)
    obtain ⟨stays, brings⟩ := opens.notify notifies
    have complete := loaded.complete
    rw [idle, List.append_nil] at complete
    refine ⟨fun load member => ?_, ?_, ?_, same ▸ loaded.factory⟩
    · rw [more] at member
      obtain old | new := List.mem_append.mp member
      · exact stays _ (loaded.held load old)
      · exact (brings load (Option.mem_toList.mp new)).1
    · rw [more]
      cases result with
      | none => simpa using loaded.once
      | some load => exact loaded.once_load (brings load rfl).2
    · rw [more, same, List.flatMap_append, complete]
      cases result <;> simp

theorem loaded_of_run (opens : OpensOnce dlopen holds)
    (run : Run (Step dlopen holds) (start l) tr s) : Loaded holds tr s :=
  run.history ⟨nofun, List.nodup_nil, rfl, fun _ _ => rfl⟩ fun loaded step => loaded.step opens step

theorem apart (run : Run (Step dlopen holds) s tr t) (never : .unsubscribes ∉ tr) :
    Run (Under Apart (Step dlopen holds)) s tr t :=
  run.under fun _ _ member same => absurd (same ▸ member) never

/-- Nothing is being registered behind `~DllLoader`. -/
theorem idle (run : Run (Under Apart (Step dlopen holds)) (start l) tr s)
    (ended : s.loader ≠ .subscribed) : s.registering = [] := by
  revert ended
  apply run.invariant (P := fun s : FrameWork L BASE ARG =>
    s.loader ≠ .subscribed → s.registering = []) ?_ fun _ => rfl
  rintro s e t before ⟨step, apart⟩ ended
  cases step with
  | monitor | links | creates => exact before ended
  | subscribes => exact absurd rfl ended
  | fails here => exact before (by rw [here]; simp)
  | unsubscribes => exact apart rfl
  | notifies _ _ here => exact absurd here ended
  | registers here => cases here.symm.trans (before ended)

/-- Nothing behind `~DllLoader` changes the commands. -/
structure Over (s : FrameWork L BASE ARG) (tr : List (Event H BASE ARG)) (t : FrameWork L BASE ARG) :
    Prop where
  loader : t.loader = .destroyed
  registering : t.registering = []
  registered : registered tr = []
  output : t.output = s.output
  factory : t.factory = s.factory

theorem Over.step (ended : Over s tr t) (step : Step dlopen holds t e u) : Over s (tr ++ [e]) u := by
  obtain ⟨loader, registering, none, output, factory⟩ := ended
  have quiet (silent : e.registration = .none) : FrameWork.registered (tr ++ [e]) = [] := by
    rw [registered_concat, none, silent]
    rfl
  cases step with
  | monitor | links | creates => exact ⟨loader, registering, quiet rfl, output, factory⟩
  | subscribes here | fails here | unsubscribes here => cases here.symm.trans loader
  | notifies _ _ here => cases here.symm.trans loader
  | registers here => cases here.symm.trans registering

/-- What the plug-ins come to, however changes of the directory, the monitor's thread, the life
of the loader, the loading of libraries, `StopMonitor` and the creation of commands take turns. -/
structure Plugged
    (dlopen : L → List UInt8 → L × Except (List UInt8) (H × List (Registration BASE ARG)))
    (holds : L → H → Prop) (tr : List (Event H BASE ARG)) (s : FrameWork L BASE ARG) : Prop where
  asked : s.asked = DirMonitor.appeared (told tr)
  heard : ∀ past e rest r, tr = past ++ e :: rest → e.ofMonitor = some (.casts r) →
    (e.told = some r ↔ .subscribes ∈ past ∧ .unsubscribes ∉ past)
  arrived : told tr <:+: DirMonitor.arrived (monitored tr)
  once : (((loads tr).filter fun load => !load.2.isEmpty).map Prod.fst).Nodup
  complete : (loads tr).flatMap Prod.snd = registered tr ++ s.registering
  created : ∀ past classId arg result rest, tr = past ++ .creates classId arg result :: rest →
    result = latest (registered past) classId arg
  ended : s.loader = .destroyed → ∀ tr' t, Run (Step dlopen holds) s tr' t → Over s tr' t

/-- `dlopen` is called for the files that appear, in the order in which the kernel reports them,
where their records are broadcast between `Subscribe` and `~DllLoader`; the constructor
functions of a library run once and in turn; a command is made by what was registered last for
its key before; and nothing is registered behind `~DllLoader`. -/
theorem plug_ins (opens : OpensOnce dlopen holds)
    (run : Run (Under Apart (Step dlopen holds)) (start l) tr s) :
    Plugged dlopen holds tr s := by
  have free := run.guarded
  have loaded := loaded_of_run opens free
  refine ⟨asked_eq free, ?_, ?_, loaded.once, loaded.complete, ?_, ?_⟩
  · rintro past e rest r rfl casts
    obtain ⟨t, t', before, step, _⟩ := free.split
    rw [← (lives before).subscribed]
    cases step with
    | monitor step silent =>
      cases casts
      simpa [Event.told] using silent r rfl
    | notifies _ _ here =>
      cases casts
      exact iff_of_true rfl here
    | subscribes | fails | unsubscribes | links | registers | creates => cases casts
  · have passed := (DirMonitor.passes (monitored_run free)).broadcasts_arrived
    have within : s.monitor.broadcasts <+: DirMonitor.arrived (monitored tr) :=
      (List.prefix_append ..).trans passed
    have heard := hears free
    simp only [Hears] at heard
    cases here : s.loader with
    | constructing =>
      simp only [here] at heard
      rw [heard]
      exact List.nil_infix
    | subscribed =>
      simp only [here] at heard
      exact heard.isInfix.trans within.isInfix
    | destroyed =>
      simp only [here] at heard
      exact heard.trans within.isInfix
  · rintro past classId arg result rest rfl
    obtain ⟨t, t', before, step, _⟩ := free.split
    cases step
    exact (loaded_of_run opens before).factory classId arg
  · intro destroyed tr' t after
    apply after.history (P := Over s)
    · exact ⟨destroyed, idle run (by rw [destroyed]; simp), rfl, rfl, rfl⟩
    · exact fun ended step => ended.step step

/-- The library `a` registers a command when it is loaded first. -/
def opening (l : List (List UInt8)) (name : List UInt8) :
    List (List UInt8) × Except (List UInt8) (List UInt8 × List (Registration Nat Nat)) :=
  if name ∈ l then (l, .ok (name, []))
  else if name = [97] then (name :: l, .ok (name, [("ReadCmd", Nat.succ)]))
  else (l, .error [])

theorem opening_once : OpensOnce opening fun l handle => handle ∈ l := by
  constructor
  · intro l handle name held
    unfold opening
    split_ifs <;> simp [held]
  · intro l name handle registrations answer
    unfold opening at answer ⊢
    split_ifs at answer ⊢ <;> simp_all
  · intro l name handle registrations answer held
    unfold opening at answer
    split_ifs at answer <;> simp_all

/-- The monitor has read all that was queued. -/
def waiting (broadcasts : List DirMonitor.Record) : DirMonitor :=
  { DirMonitor.start with broadcasts := broadcasts }

/-- What the monitor does when a file `a` appears, up to the `Broadcast`. -/
def appearing : List (Event (List UInt8) Nat Nat) :=
  [.monitor (.tests .run), .monitor (.changes (DirMonitor.created.take 1)),
    .monitor (.reads (DirMonitor.created.take 1)), .monitor (.looks .run)]

variable (b : List DirMonitor.Record) (l : List (List UInt8)) (o : List DllLoader.Output)
  (f : Factory Nat Nat String)

theorem appearing_run (loader : DllLoader) :
    Run (Step opening fun l handle => handle ∈ l) ⟨waiting b, loader, l, [], o, f⟩ appearing
      ⟨{ waiting b with point := .casts DirMonitor.created[0] [] }, loader, l, [], o, f⟩ := by
  have adds : DirMonitor.Adds [] (DirMonitor.created.take 1) := .queues _ (by decide)
  exact .next (.monitor (.tests rfl) (by simp) (fun _ => rfl) (by simp)) <|
    .next (.monitor (.changes adds) (by simp) (fun _ => rfl) (by simp)) <|
    .next (.monitor (.reads (DirMonitor.created.take 1) [] rfl rfl (by simp [DirMonitor.created])
      (by decide)) (by simp) (fun _ => rfl) (by simp)) <|
    .single (.monitor (.looks rfl) (by simp) (fun _ => rfl) (by simp))

theorem unheard_run (loader : DllLoader) (other : loader ≠ .subscribed) :
    Run (Step opening fun l handle => handle ∈ l) ⟨waiting b, loader, l, [], o, f⟩
      (appearing ++ [.monitor (.casts DirMonitor.created[0]), .monitor .ends])
      ⟨waiting (b ++ [DirMonitor.created[0]]), loader, l, [], o, f⟩ :=
  (appearing_run b l o f loader).trans <|
    .next (.monitor (.casts rfl) (fun _ _ => other) (fun _ => rfl) (by simp)) <|
    .single (.monitor (.ends rfl) (by simp) (fun _ => rfl) (by simp))

theorem heard_run (answer : opening l [97] = (l', .ok load)) :
    Run (Step opening fun l handle => handle ∈ l) ⟨waiting b, .subscribed, l, [], o, f⟩
      (appearing ++ [.notifies DirMonitor.created[0] (some load)])
      ⟨{ waiting (b ++ [DirMonitor.created[0]]) with point := .walks [] }, .subscribed, l', load.2,
        o ++ [.dlopen [97]], f⟩ := by
  have asks : DllLoader.notify opening l ⟨[97] ++ List.replicate 15 0, .add⟩ =
      (l', some load, [.dlopen [97]]) := by
    simp only [DllLoader.notify]
    rw [show DirMonitor.cString _ = [97] from rfl, answer]
  exact (appearing_run b l o f .subscribed).trans <|
    .single (.notifies [] (.casts rfl) rfl rfl rfl asks)

/-- Before `Subscribe` the file is not opened; then it is, and again, and its library registers
once; behind `~DllLoader` it is not. -/
theorem plug_ins_readCmd : ∃ (tr : List (Event (List UInt8) Nat Nat))
    (s : FrameWork (List (List UInt8)) Nat Nat),
    Run (Under Apart (Step opening fun l handle => handle ∈ l)) (start []) tr s ∧
    s.monitor.broadcasts.length = 4 ∧ s.asked = [[97], [97]] ∧
    registered tr = [("ReadCmd", Nat.succ)] ∧ .creates "ReadCmd" 1 (.error .wrongKey) ∈ tr ∧
    .creates "ReadCmd" 1 (.ok 2) ∈ tr ∧ s.loader = .destroyed ∧
    Plugged opening (fun l handle => handle ∈ l) tr s := by
  let record := DirMonitor.created[0]
  let added : Factory Nat Nat String := Factory.empty.add "ReadCmd" Nat.succ
  have early := (unheard_run [] [] [] .empty .constructing (by simp)).trans <|
    .next (.creates "ReadCmd" 1) <| .single (.subscribes rfl)
  have first := (heard_run [record] [] [] .empty rfl).trans <|
    .next (.registers rfl) <| .next (.monitor (.ends rfl) (by simp) (fun _ => rfl) (by simp)) <|
    .single (.creates "ReadCmd" 1)
  have again := (heard_run [record, record] [[97]] [.dlopen [97]] added rfl).trans <|
    .single (.monitor (.ends rfl) (by simp) (fun _ => rfl) (by simp))
  have late := unheard_run [record, record, record] [[97]] [.dlopen [97], .dlopen [97]] added
    .destroyed (by simp)
  have run := (apart (early.trans (first.trans again)) (by simp [appearing])).trans <|
    .next ⟨.unsubscribes rfl, fun _ => rfl⟩ (apart late (by simp [appearing]))
  refine ⟨_, _, run, rfl, rfl, rfl, ?_, ?_, rfl, plug_ins opening_once run⟩
  · simp [Factory.create, Factory.empty]
  · simp

end FrameWork
end DistributedDisk
