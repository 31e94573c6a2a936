import Rdbus.Config.Utility
import Rdbus.Foundation.Outcome
import Mathlib.Data.List.Nodup
import Mathlib.Tactic.Common

/-!
# Wago configuration

A module owns the instance ids from its offset on.  An offset that is not in
the JSON, or that equals the default, is replaced by the end of the module
before it; `checkOverlappingOffsets` runs before that.
-/

namespace Rdbus.Config.Wago

open Foundation

structure Instance where
  name : Bytes
  min : Int16
  max : Int16
  deriving DecidableEq, Repr

structure Module where
  name : Bytes
  pollTimeMs : Int
  instances : List Instance
  offset : UInt32
  deriving DecidableEq, Repr

def Module.defaultOffset : UInt32 := 1

structure InstanceJson where
  name : Option Bytes := none
  min : Option Int16 := none
  max : Option Int16 := none
  deriving DecidableEq, Repr

structure ModuleJson where
  name : Option Bytes := none
  pollTimeMs : Option Int := none
  instances : Option (List InstanceJson) := none
  offset : Option Int32 := none
  deriving DecidableEq, Repr

structure WagoJson where
  modules : Option (List ModuleJson) := none
  dataProcessors : Option ProcessorsJson := none

def Instance.fromJson (j : InstanceJson) : Except Throw Instance := do
  let name ← required j.name (str "No 'name' value set in instance!")
  let min ← required j.min (str "No 'min' value set in instance!")
  let max ← required j.max (str "No 'max' value set in instance!")
  throwIf (max < min) (str "Invalid instance range, 'min' cannot be bigger than 'max!'")
  .ok ⟨name, min, max⟩

def Module.fromJson (j : ModuleJson) : Except Throw Module := do
  let name ← required j.name (str "No 'name' field present in module!")
  let pollTimeMs ← required j.pollTimeMs
    (str "No 'poll_time_ms' field present in module!")
  let instances ← required j.instances (str "No 'instances' present in module!")
  let instances ← instances.mapM Instance.fromJson
  let offset := j.offset.getD defaultOffset.toInt32
  throwIf (offset < 1) (str "'offset' cannot be less than 1!")
  throwIf instances.isEmpty (str "'instances' empty in module!")
  throwIf (instances.length ≠ 1 ∧ instances.length ≠ 2 ∧ instances.length ≠ 4 ∧
    instances.length ≠ 8) (str "Count of instances must be 1, 2, 4 or 8!")
  .ok ⟨name, pollTimeMs, instances, offset.toUInt32⟩

def checkDuplicateModuleNames (modules : List Module) : Except Throw Unit :=
  throwIf (hasDuplicate Module.name modules) (str "Duplicate module names found!")

def checkDuplicateInstanceNames (modules : List Module) : Except Throw Unit :=
  modules.forM fun module => throwIf (hasDuplicate Instance.name module.instances)
    (str "Duplicate instance names found!")

/-- `offset + instances.size()`, stored in an `unsigned int`. -/
def Module.end (module : Module) : UInt32 :=
  module.offset + UInt32.ofNat module.instances.length

/-- The loop of `checkOverlappingOffsets`; the sum is computed in `size_t`. -/
def checkOverlappingFrom : Module → List Module → Except Throw Unit
  | _, [] => .ok ()
  | previous, it :: rest => do
      throwIf (it.offset ≠ Module.defaultOffset ∧
          it.offset.toNat < previous.offset.toNat + previous.instances.length)
        (str "Module offset overlapping detected!")
      checkOverlappingFrom it rest

/-- The iterator after the first element does not exist in an empty list. -/
def checkOverlappingOffsets : List Module → Except Throw Unit
  | [] => .error .undefinedBehaviour
  | first :: rest => checkOverlappingFrom first rest

/-- The loop of `setOffsetValues`; `previous` has its value already. -/
def setOffsetFrom : Module → List Module → List Module
  | _, [] => []
  | previous, it :: rest =>
      let it := if it.offset = Module.defaultOffset
        then { it with offset := previous.end } else it
      it :: setOffsetFrom it rest

def setOffsetValues : List Module → Except Throw (List Module)
  | [] => .error .undefinedBehaviour
  | first :: rest => .ok (first :: setOffsetFrom first rest)

/-- The modules and processors `parseWago` stores. -/
def parseWago (j : WagoJson) : Except Throw (List Module × Processors) := do
  let modules ← required j.modules (str "No 'modules' section present!")
  let modules ← modules.mapM Module.fromJson
  checkDuplicateModuleNames modules
  checkDuplicateInstanceNames modules
  checkOverlappingOffsets modules
  let modules ← setOffsetValues modules
  let processors ← parseProcessors
    (validateLimits (str "module") (str "modules") (modules.map Module.name))
    j.dataProcessors
  .ok (modules, processors)

end Rdbus.Config.Wago
