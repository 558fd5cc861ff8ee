import DistributedDisk.AppProtocol
import Mathlib.Logic.Function.Basic

/-! A minion's block store: a map from keys to raw pointers, and the heap blocks
these pointers own. Where the source copies bytes that no field of the model
holds (memory behind a map node), they are an argument of the operation. -/
namespace DistributedDisk
open Packed

/-- The exceptions that can escape from a modeled function. -/
inductive Exception where
  | badAlloc
  | wrongKey
  deriving DecidableEq, Repr

/-- The value of a `void *`. -/
abbrev Pointer := UInt64

/-- Memory of `n` bytes whose contents the program did not set. -/
abbrev Junk (n : Nat) := List.Vector UInt8 n

structure StorageManager where
  map : UInt64 → Option Pointer
  heap : Pointer → Option Block

namespace StorageManager

def empty : StorageManager := ⟨fun _ => none, fun _ => none⟩

/-- `delete(m_map[key])` for a key that is present. The entry stays. -/
def delete (s : StorageManager) (key : UInt64) : StorageManager :=
  match s.map key with
  | none => s
  | some pointer => { s with heap := Function.update s.heap pointer none }

/-- `operator new` answers with a block that is not in use, or throws. -/
def Allocates (s : StorageManager) (key : UInt64) (allocated : Option Pointer) : Prop :=
  ∀ pointer ∈ allocated, (s.delete key).heap pointer = none

theorem allocates_none (s : StorageManager) (key : UInt64) : s.Allocates key none := nofun

/-- The old block of the key is released before the new one is requested. -/
def store (s : StorageManager) (allocated : Option Pointer) (block : Block) (key : UInt64) :
    StorageManager × Except Exception Error :=
  match allocated with
  | none => (s.delete key, .error .badAlloc)
  | some pointer =>
    ({ map := Function.update (s.delete key).map key (some pointer)
       heap := Function.update (s.delete key).heap pointer (some block) }, .ok .none)

/-- `memcpy(block, &(m_map[key]), 4096)` copies the map's own memory: the eight
bytes of the pointer and the 4088 bytes that follow it. -/
def node (pointer : Pointer) (beyond : Junk 4088) : Block :=
  ⟨Codec.u64.encode pointer ++ beyond.toList, by
    rw [List.length_append, Codec.u64.encode_length, beyond.toList_length]; rfl⟩

def load (s : StorageManager) (beyond : Junk 4088) (buffer : Block) (key : UInt64) :
    Block × Error :=
  match s.map key with
  | none => ((Codec.chars 4096).patch buffer [0], .blockNotFouned)
  | some pointer => (node pointer beyond, .none)

/-- The block that the entry of `key` points to. -/
def lookup (s : StorageManager) (key : UInt64) : Option Block := (s.map key).bind s.heap

@[simp] theorem delete_map (s : StorageManager) (key : UInt64) : (s.delete key).map = s.map := by
  unfold delete
  split <;> rfl

@[simp] theorem store_map (s : StorageManager) (pointer : Pointer) (block : Block) (key : UInt64) :
    (s.store (some pointer) block key).1.map = Function.update s.map key (some pointer) := by
  simp only [store, delete_map]

@[simp] theorem lookup_store_self (s : StorageManager) (pointer : Pointer) (block : Block)
    (key : UInt64) : (s.store (some pointer) block key).1.lookup key = some block := by
  simp [lookup, store]

/-- Every entry owns a block of its own. -/
structure Sound (s : StorageManager) : Prop where
  allocated : ∀ key pointer, s.map key = some pointer → s.heap pointer ≠ none
  owned : ∀ key other pointer, s.map key = some pointer → s.map other = some pointer → key = other

theorem Sound.empty : Sound .empty := by
  constructor <;> simp [StorageManager.empty]

theorem delete_heap_of_ne {s : StorageManager} (other : s.map key ≠ some pointer) :
    (s.delete key).heap pointer = s.heap pointer := by
  unfold delete
  split
  · rfl
  · rename_i old entry
    exact Function.update_of_ne (fun same => other (by rw [entry, same])) ..

section
variable {s : StorageManager} (sound : s.Sound) (fresh : s.Allocates key (some pointer))
include sound fresh

/-- The new block lies where no other entry points. -/
theorem Sound.entry_ne (other : key' ≠ key) (entry : s.map key' = some pointer') :
    pointer' ≠ pointer := by
  rintro rfl
  apply sound.allocated key' pointer' entry
  rw [← delete_heap_of_ne fun own => other (sound.owned _ _ _ entry own)]
  exact fresh pointer' rfl

theorem Sound.store (block : Block) : (s.store (some pointer) block key).1.Sound := by
  have entry {key' pointer'}
      (found : (s.store (some pointer) block key).1.map key' = some pointer') :
      (key' = key ∧ pointer' = pointer) ∨ key' ≠ key ∧ s.map key' = some pointer' := by
    rw [store_map] at found
    by_cases same : key' = key
    · subst same
      rw [Function.update_self] at found
      exact .inl ⟨rfl, (Option.some.inj found).symm⟩
    · rw [Function.update_of_ne same] at found
      exact .inr ⟨same, found⟩
  constructor
  · intro key' pointer' found
    obtain ⟨rfl, rfl⟩ | ⟨other, found⟩ := entry found
    · simp [StorageManager.store]
    · simp only [StorageManager.store, Function.update_of_ne (sound.entry_ne fresh other found)]
      rw [delete_heap_of_ne fun own => other (sound.owned _ _ _ found own)]
      exact sound.allocated key' pointer' found
  · intro key₁ key₂ pointer' found₁ found₂
    obtain ⟨rfl, rfl⟩ | ⟨other₁, old₁⟩ := entry found₁ <;>
      obtain ⟨rfl, same⟩ | ⟨other₂, old₂⟩ := entry found₂
    · rfl
    · exact absurd rfl (sound.entry_ne fresh other₂ old₂)
    · exact absurd same (sound.entry_ne fresh other₁ old₁)
    · exact sound.owned _ _ _ old₁ old₂

theorem Sound.lookup_store_ne (block : Block) (other : key' ≠ key) :
    (s.store (some pointer) block key).1.lookup key' = s.lookup key' := by
  rw [lookup, lookup, store_map, Function.update_of_ne other]
  cases entry : s.map key' with
  | none => rfl
  | some pointer' =>
    simp only [Option.bind_some, StorageManager.store,
      Function.update_of_ne (sound.entry_ne fresh other entry)]
    exact delete_heap_of_ne fun own => other (sound.owned _ _ _ entry own)

end

/-- The memory of a block can be used again for the same key. -/
theorem allocates_again (s : StorageManager) (pointer : Pointer) (block : Block) (key : UInt64) :
    (s.store (some pointer) block key).1.Allocates key (some pointer) := by
  rintro _ ⟨⟩
  simp [delete, store]

theorem node_tail (pointer : Pointer) (beyond : Junk 4088) :
    (node pointer beyond).toList.drop 8 = beyond.toList :=
  List.drop_left' (Codec.u64.encode_length pointer)

/-- The memory of a map node can differ from any given bytes. -/
theorem node_ne (pointer : Pointer) (bytes : List UInt8) :
    ∃ beyond, (node pointer beyond).toList ≠ bytes := by
  by_contra all
  push Not at all
  have zeros := all (List.Vector.replicate 4088 0)
  have ones := all (List.Vector.replicate 4088 1)
  have tails := congrArg (List.drop 8) (zeros.trans ones.symm)
  rw [node_tail, node_tail] at tails
  have heads := congrArg List.head? tails
  contradiction

end StorageManager
end DistributedDisk
