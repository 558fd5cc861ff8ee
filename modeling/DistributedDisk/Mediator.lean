import DistributedDisk.Storage

/-! Command data on its way from a proxy through the factory to a pool worker. -/
namespace DistributedDisk

structure CmdData where
  key : String
  args : List UInt8
  deriving DecidableEq, Repr

/-- `Factory<BASE, ARG, ID>`: creation functions by key. -/
structure Factory (BASE ARG ID : Type) where
  map : ID → Option (ARG → BASE)

namespace Factory
variable {BASE ARG ID : Type}

def empty : Factory BASE ARG ID := ⟨fun _ => none⟩

def add [DecidableEq ID] (f : Factory BASE ARG ID) (classId : ID) (createFunc : ARG → BASE) :
    Factory BASE ARG ID :=
  ⟨Function.update f.map classId (some createFunc)⟩

/-- An unknown key throws `WrongKey`. -/
def create (f : Factory BASE ARG ID) (classId : ID) (arg : ARG) : Except Exception BASE :=
  match f.map classId with
  | none => .error .wrongKey
  | some createFunc => .ok (createFunc arg)

variable [DecidableEq ID] {f : Factory BASE ARG ID} {classId : ID} {createFunc : ARG → BASE}

@[simp] theorem create_add_self (arg : ARG) :
    (f.add classId createFunc).create classId arg = .ok (createFunc arg) := by
  simp [create, add]

theorem create_add_ne {other : ID} (ne : other ≠ classId) (arg : ARG) :
    (f.add classId createFunc).create other arg = f.create other arg := by
  simp [create, add, Function.update_of_ne ne]

end Factory
end DistributedDisk
