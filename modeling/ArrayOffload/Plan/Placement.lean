import ArrayOffload.Device.Basic
import ArrayOffload.Plan.Step

/-!
# Placement of regions

A region runs on the device if kernels can express it, the device supports its rank and element
types, and the device accepts its kernel. Any other region runs on the host, and the first
reason is kept.
-/

namespace ArrayOffload.Placement

/-- Every array of a region has an element type that the device supports. -/
def checkElems (profile : Profile) (f : Func) (region : Nat) :
    List ArrayUse → Except (Stop RegionError) Unit
  | [] => .ok ()
  | use :: rest => do
    let decl ← orFault (f.decl? use.array)
    if decl.elem ∈ profile.elems then checkElems profile f region rest
    else throw (.error ⟨region, .elemUnsupported decl.name decl.elem profile.name⟩)

/-- The launch of a region, or why it cannot be launched. -/
def launchOf (profile : Profile) (f : Func) (region : Region) :
    Except (Stop RegionError) LaunchPlan := do
  if let some kind := region.kernelless? then
    throw (.error ⟨region.index, .noKernelLowering kind.name⟩)
  if profile.maxRank < region.space.rank then
    throw (.error ⟨region.index, .rankLimit region.space.rank profile.name profile.maxRank⟩)
  checkElems profile f region.index region.uses
  let (kernel, bindings) ← Kernel.ofRegion f region
  profile.accepts kernel
  return ⟨kernel, region.space.extentOf, bindings⟩

/-- Where a region runs: launched, or on the host for a reason. -/
abbrev Choice := Except RegionError LaunchPlan

def choose? (profile : Profile) (f : Func) (region : Region) : Option Choice :=
  match launchOf profile f region with
  | .ok plan => some (.ok plan)
  | .error (.error cause) => some (.error cause)
  | .error .fault => none

/-- The choices for all regions. -/
def choices? (profile : Profile) (f : Func) (regions : List Region) : Option (List Choice) :=
  regions.mapM (choose? profile f)

/-- The launch of each region that is launched. -/
abbrev Launches := List (Option LaunchPlan)

def launches (choices : List Choice) : Launches := choices.map Except.toOption

/-- Every region on the host. -/
def allOnHost (regions : List Region) : Launches := regions.map fun _ => none

/-- The reasons of the regions that stay on the host, in order. -/
def fallbacks (choices : List Choice) : List RegionError :=
  choices.filterMap fun
    | .ok _ => none
    | .error cause => some cause

end ArrayOffload.Placement
