import DistributedDisk.Core.Transition
import DistributedDisk.Storage
import Mathlib.Data.List.Induction

/-! What a store holds after any calls of `Store`, as a map from keys to blocks, and what
`Load` makes of it. -/
namespace DistributedDisk
open Packed Transition

namespace StorageManager

/-- `m_map[key]`, which makes an entry with a null pointer where there is none. -/
def subscript (s : StorageManager) (key : UInt64) : Pointer × StorageManager :=
  match s.map key with
  | none => (0, { s with map := Function.update s.map key (some 0) })
  | some pointer => (pointer, s)

def loads (s : StorageManager) (beyond : Junk 4088) (buffer : Block) (key : UInt64) :
    StorageManager × Block × Error :=
  match s.map key with
  | none => (s, (Codec.chars 4096).patch buffer [0], .blockNotFouned)
  | some _ =>
    let (pointer, s) := s.subscript key
    (s, node pointer beyond, .none)

/-- A call of `Store` that got its memory. -/
inductive Stores (s : StorageManager) : UInt64 × Block → StorageManager → Prop where
  | stores (pointer : Pointer) (block : Block) (key : UInt64) :
      s.Allocates key (some pointer) →
      Stores s (key, block) (s.store (some pointer) block key).1

def contents (tr : List (UInt64 × Block)) : UInt64 → Option Block :=
  tr.foldl (fun map (key, block) => Function.update map key (some block)) fun _ => none

variable {s : StorageManager} {tr : List (UInt64 × Block)} {key : UInt64}

theorem loads_eq (s : StorageManager) (beyond : Junk 4088) (buffer : Block) (key : UInt64) :
    s.loads beyond buffer key = (s, s.load beyond buffer key) := by
  rw [loads, load]
  cases entry : s.map key with
  | none => rfl
  | some pointer => rw [subscript, entry]

theorem contents_append (tr : List (UInt64 × Block)) (key : UInt64) (block : Block) :
    contents (tr ++ [(key, block)]) = Function.update (contents tr) key (some block) := by
  rw [contents, List.foldl_append]
  rfl

theorem contents_eq_none : contents tr key = none ↔ ∀ block, (key, block) ∉ tr := by
  induction tr using List.reverseRecOn with
  | nil => exact iff_of_true rfl nofun
  | append_singleton tr last ih =>
    obtain ⟨key', block'⟩ := last
    rw [contents_append]
    by_cases same : key = key'
    · subst same
      rw [Function.update_self]
      exact iff_of_false nofun fun absent => absent block' (by simp)
    · rw [Function.update_of_ne same, ih]
      simp [same]

theorem lookup_eq_contents (run : Run Stores empty tr s) :
    s.Sound ∧ ∀ key, s.lookup key = contents tr key := by
  apply run.history (P := fun tr s => s.Sound ∧ ∀ key, s.lookup key = contents tr key)
  · exact ⟨.empty, fun _ => rfl⟩
  · rintro tr s ⟨key, block⟩ t ⟨sound, lookup_eq⟩ step
    cases step with
    | stores pointer _ _ fresh =>
      refine ⟨sound.store fresh block, fun key' => ?_⟩
      rw [contents_append]
      by_cases same : key' = key
      · rw [same, Function.update_self, lookup_store_self]
      · rw [Function.update_of_ne same, sound.lookup_store_ne fresh block same]
        exact lookup_eq key'

/-- What a map does when it is asked for a key: `stored` is the last block. -/
structure Conforms (stored : Option Block) (s : StorageManager)
    (result : StorageManager × Block × Error) : Prop where
  found : ∀ block, stored = some block → result.2.2 = .none ∧ result.2.1 = block
  missing : result.2.2 = .blockNotFouned ↔ stored = none
  unchanged : ∀ key, result.1.lookup key = s.lookup key

/-- The store is a map, and `Load` shows it for the keys that were never stored: for any
other the buffer gets what lies behind the entry. -/
theorem loads_conform_iff (run : Run Stores empty tr s) :
    (∀ key, s.lookup key = contents tr key) ∧
      ∀ key, (∀ beyond buffer, Conforms (contents tr key) s (s.loads beyond buffer key)) ↔
        ∀ block, (key, block) ∉ tr := by
  obtain ⟨sound, lookup_eq⟩ := lookup_eq_contents run
  refine ⟨lookup_eq, fun key => ?_⟩
  rw [← contents_eq_none, ← lookup_eq key]
  simp only [loads_eq, load, lookup]
  cases entry : s.map key with
  | none =>
    refine iff_of_true (fun _ _ => ⟨fun block same => ?_, iff_of_true rfl rfl, fun _ => rfl⟩) rfl
    cases same
  | some pointer =>
    obtain ⟨block, held⟩ := Option.ne_none_iff_exists'.mp (sound.allocated key pointer entry)
    refine iff_of_false (fun conforms => ?_) (by simp [held])
    obtain ⟨beyond, other⟩ := node_ne pointer block.toList
    exact other (congrArg List.Vector.toList ((conforms beyond block).found block held).2)

theorem loads_conform_iff_other : ∃ tr s, Run Stores empty tr s ∧
    s.lookup 0 = some (List.Vector.replicate 4096 7) ∧
      ∀ beyond buffer, Conforms none s (s.loads beyond buffer 1) := by
  have run : Run Stores empty [(0, List.Vector.replicate 4096 7)] _ :=
    .single (.stores 16 _ 0 fun _ _ => rfl)
  obtain ⟨lookup_eq, conform_iff⟩ := loads_conform_iff run
  have other : ∀ block : Block,
      ((1 : UInt64), block) ∉ [((0 : UInt64), List.Vector.replicate 4096 7)] := by
    intro block member
    have same : (1 : UInt64) = 0 := congrArg Prod.fst (List.mem_singleton.mp member)
    exact absurd same (by decide)
  exact ⟨_, _, run, lookup_eq 0, (conform_iff 1).mpr other⟩

/-- The key that was stored. -/
theorem loads_fails : ∃ tr s, Run Stores empty tr s ∧
    contents tr 0 = some (List.Vector.replicate 4096 7) ∧
      ∃ beyond buffer, (s.loads beyond buffer 0).2.2 = .none ∧
        (s.loads beyond buffer 0).2.1 ≠ List.Vector.replicate 4096 7 := by
  obtain ⟨beyond, other⟩ := node_ne 16 (List.Vector.replicate 4096 7).toList
  exact ⟨_, _, .single (.stores 16 _ 0 fun _ _ => rfl), rfl, beyond, List.Vector.replicate 4096 0,
    rfl, fun same => other (congrArg List.Vector.toList same)⟩

end StorageManager
end DistributedDisk
