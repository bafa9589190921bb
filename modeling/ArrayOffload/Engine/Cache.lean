import ArrayOffload.Plan.CompiledUnit

/-!
# The cache of compiled units

One slot for every key: empty while a unit is being built, then the unit. Units are told apart
by serial numbers, so that two builds of one key are two units.
-/

namespace ArrayOffload

/-- A unit as it came from one build. -/
structure Built where
  serial : Nat
  unit : CompiledUnit
deriving BEq, Repr

structure Cache where
  slots : List (UnitKey × Option Built) := []
  lastSerial : Nat := 0
  builds : Nat := 0
  hits : Nat := 0
  failures : Nat := 0
deriving Repr

namespace Cache

/-- The unit of a key. -/
def find? (cache : Cache) (key : UnitKey) : Option Built := (cache.slots.lookup key).join

/-- The units in the cache. -/
def units (cache : Cache) : List Built := cache.slots.filterMap (·.2)

/-- The keys that have a unit. -/
def keys (cache : Cache) : List UnitKey :=
  cache.slots.filterMap fun (key, built) => built.map fun _ => key

def size (cache : Cache) : Nat := cache.units.length

/-- An empty slot for a key, in place of what it had. -/
def reserve (cache : Cache) (key : UnitKey) : Cache :=
  { cache with slots := cache.slots.filter (fun slot => slot.1 ≠ key) ++ [(key, none)] }

/-- Take the slot of a key away. -/
def retire (cache : Cache) (key : UnitKey) : Cache :=
  { cache with slots := cache.slots.filter fun slot => slot.1 ≠ key }

/-- Fill the slot of a key. -/
def fill (cache : Cache) (key : UnitKey) (built : Built) : Cache :=
  { cache with
    slots := cache.slots.map fun slot => if slot.1 = key then (key, some built) else slot }

/-- The slots of a function. -/
def slotsOf (cache : Cache) (id : FuncId) : List (UnitKey × Option Built) :=
  cache.slots.filter fun slot => slot.1.function = id

/-- Take the slots of a function away. -/
def invalidate (cache : Cache) (id : FuncId) : Cache :=
  { cache with slots := cache.slots.filter fun slot => slot.1.function ≠ id }

def clear (cache : Cache) : Cache := { cache with slots := [] }

end Cache

end ArrayOffload
