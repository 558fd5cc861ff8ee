import DistributedDisk.Core.Nesting
import DistributedDisk.Singleton.Nested

/-! The classes that have their instance from `Singleton`, and what their constructors do
with the instances of others. -/
namespace DistributedDisk
open Nesting Singletons

inductive Class where
  | storageManager
  | configManager
  | logger
  | frameWork
  | master
  | minionProxy
  deriving DecidableEq

namespace Class

/-- A `GET_CONFIG` for each value that a constructor reads, and the `LOG_ERROR` of
`ReadConfigFile`, of the directory monitor and of `Bind` where one fails. `Bind` goes on with a
`throw;` that has nothing to throw again, which ends the program. -/
def needs (minions : Nat) : Part → Class → List Class
  | .body, storageManager => []
  | .body, configManager => []
  | .body, logger => [configManager]
  | .body, frameWork => logger :: List.replicate 4 configManager
  -- `NUM_OF_MINIONS` twice, then the address and the port of each minion
  | .body, master => List.replicate (2 + 2 * minions) configManager
  | .body, minionProxy => [configManager, frameWork]
  | .handler, configManager => [logger]
  | .handler, frameWork => [logger]
  | .handler, minionProxy => [logger]
  | .handler, _ => []

def rank : Class → Nat
  | storageManager | configManager => 0
  | logger | master => 1
  | frameWork => 2
  | minionProxy => 3

theorem body_rank (need : U ∈ needs minions .body T) : rank U < rank T := by
  cases T with
  | storageManager | configManager => cases need
  | logger =>
    cases List.mem_singleton.mp need
    decide
  | frameWork =>
    obtain rfl | config := List.mem_cons.mp need
    · decide
    · cases List.eq_of_mem_replicate config
      decide
  | master =>
    cases List.eq_of_mem_replicate need
    decide
  | minionProxy =>
    obtain rfl | last := List.mem_cons.mp need
    · decide
    · cases List.mem_singleton.mp last
      decide

theorem founded (minions : Nat) (T : Class) : Acc (Called (needs minions .body)) T :=
  (Subrelation.wf (fun need => body_rank need) (InvImage.wf rank Nat.lt_wfRel.wf)).apply T

end Class
end DistributedDisk
