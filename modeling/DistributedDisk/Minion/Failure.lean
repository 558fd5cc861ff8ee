import DistributedDisk.Minion.Commands
import DistributedDisk.Storage.Contents

/-! A `Store` whose `operator new` throws: what it leaves in the store, what the calls after
it meet there, and what the client gets to know. -/
namespace DistributedDisk
open Packed Transition

namespace StorageManager

inductive Call where
  | store (key : UInt64)
  | load (key : UInt64)

/-- The block that a call releases or reads: `Store` deletes the one of its key, `Load`
copies the memory of the map. -/
def touched (s : StorageManager) : Call → Option Pointer
  | .store key => s.map key
  | .load _ => none

/-- Every entry still leads to its block, and the block has its contents. -/
def Kept (s t : StorageManager) : Prop :=
  ∀ key, (s.map key).isSome → ∃ block, s.lookup key = some block ∧ t.lookup key = some block

/-- No call that follows, after any calls of `Store` that get their memory, touches a block
that is released. -/
def Clean (s : StorageManager) : Prop :=
  ∀ tr t, Run Stores s tr t → ∀ call pointer, t.touched call = some pointer →
    t.heap pointer ≠ none

variable {s : StorageManager} {key : UInt64}

theorem Sound.stores {t : StorageManager} (sound : s.Sound) (step : s.Stores e t) : t.Sound := by
  cases step with
  | stores pointer block key fresh => exact sound.store fresh block

theorem Sound.clean (sound : s.Sound) : s.Clean := by
  intro tr t run call pointer touched
  have sound' : t.Sound := run.invariant Sound.stores sound
  cases call with
  | store key => exact sound'.allocated key pointer touched
  | load key => cases touched

theorem Sound.kept (sound : s.Sound) : s.Kept s := by
  intro key present
  obtain ⟨pointer, entry⟩ := Option.isSome_iff_exists.mp present
  obtain ⟨block, held⟩ := Option.ne_none_iff_exists'.mp (sound.allocated key pointer entry)
  have found : s.lookup key = some block := by
    rw [lookup, entry]
    exact held
  exact ⟨block, found, found⟩

/-- The throw leaves the entry of the key with a block that is released. -/
theorem store_fails (s : StorageManager) (block : Block) (entry : s.map key = some pointer) :
    (s.store none block key).1.map key = some pointer ∧
      (s.store none block key).1.heap pointer = none := by
  constructor
  · rw [store, delete_map, entry]
  · simp [store, delete, entry]

theorem store_fails_absent (s : StorageManager) (block : Block) (absent : s.map key = none) :
    (s.store none block key).1 = s := by
  rw [store, delete, absent]

/-- A failed `Store` does no harm to the store exactly if it was to make a new entry. -/
theorem store_fails_iff (sound : s.Sound) (block : Block) :
    s.Kept (s.store none block key).1 ∧ (s.store none block key).1.Clean ↔ s.map key = none := by
  constructor
  · rintro ⟨_, clean⟩
    by_contra present
    obtain ⟨pointer, entry⟩ := Option.ne_none_iff_exists'.mp present
    obtain ⟨left, released⟩ := store_fails s block entry
    exact clean [] _ (.refl _) (.store key) pointer left released
  · intro absent
    rw [store_fails_absent s block absent]
    exact ⟨sound.kept, sound.clean⟩

end StorageManager

/-- What is asked of a `Store` without memory: the store is as it was, nothing that
follows goes wrong, and the client is told. -/
structure Harmless (s : StorageManager) (id key : UInt64) (block : Block) (env : Environment) :
    Prop where
  kept : s.Kept (s.store none block key).1
  clean : (s.store none block key).1.Clean
  answered : ∃ stored rep,
    performTask ⟨"MinWriteCmd", MinWriteCmd.args.encode (id, key, block)⟩ env s =
      (stored, .ok rep) ∧ rep.id = id ∧ rep.error = Error.notEnoughSpace.code

/-- The exception passes through `Run` and the task. -/
theorem performTask_fails (s : StorageManager) (id key : UInt64) (block : Block)
    (failed : env.allocated = none) :
    performTask ⟨"MinWriteCmd", MinWriteCmd.args.encode (id, key, block)⟩ env s =
      ((s.store none block key).1, .error .badAlloc) := by
  rw [performTask_write, MinWriteCmd.run, Codec.decode_encode, failed]
  rfl

theorem not_harmless (s : StorageManager) (id key : UInt64) (block : Block)
    (failed : env.allocated = none) : ¬Harmless s id key block env := by
  intro harmless
  obtain ⟨stored, rep, performed, _⟩ := harmless.answered
  rw [performTask_fails s id key block failed] at performed
  cases performed

/-- The client is never told, and the store is unharmed only if the key was not in it. -/
theorem harmless_never (run : Run StorageManager.Stores .empty tr s) (id key : UInt64)
    (block : Block) (failed : env.allocated = none) :
    ¬Harmless s id key block env ∧
      (s.Kept (s.store none block key).1 ∧ (s.store none block key).1.Clean ↔
        s.map key = none) := by
  constructor
  · exact not_harmless s id key block failed
  · exact StorageManager.store_fails_iff (StorageManager.lookup_eq_contents run).1 block

/-- A machine without memory. -/
def exhausted : Environment := ⟨none, List.Vector.replicate 4088 0, Block.zero⟩

/-- A key that is in the store: the store is harmed as well. -/
theorem harmless_never_overwrite : ∃ s, Run StorageManager.Stores .empty [(0, Block.zero)] s ∧
    ¬Harmless s 1 0 Block.zero exhausted ∧
    ¬(s.Kept (s.store none Block.zero 0).1 ∧ (s.store none Block.zero 0).1.Clean) := by
  have run := Run.single (StorageManager.Stores.stores (s := .empty) 16 Block.zero 0 fun _ _ => rfl)
  obtain ⟨unanswered, unharmed⟩ := @harmless_never _ _ exhausted run 1 0 Block.zero rfl
  exact ⟨_, run, unanswered, fun harmless => absurd (unharmed.mp harmless) (by simp)⟩

/-- The overwrite of a block: its entry is left with a released block, which the next
`Store` of the key releases again, and no reply is made. -/
theorem harmless_fails : ∃ s, Run StorageManager.Stores .empty [(0, Block.zero)] s ∧
    ¬Harmless s 1 0 Block.zero exhausted ∧
      s.lookup 0 = some Block.zero ∧ (s.store none Block.zero 0).1.lookup 0 = none ∧
      (s.store none Block.zero 0).1.touched (.store 0) = some 16 ∧
      (s.store none Block.zero 0).1.heap 16 = none ∧
      (performTask ⟨"MinWriteCmd", MinWriteCmd.args.encode (1, 0, Block.zero)⟩ exhausted s).2 =
        .error .badAlloc := by
  refine ⟨_, .single (.stores 16 Block.zero 0 fun _ _ => rfl), not_harmless _ _ _ _ rfl,
    StorageManager.lookup_store_self .., rfl, rfl, rfl, ?_⟩
  rw [performTask_fails _ _ _ _ rfl]

end DistributedDisk
