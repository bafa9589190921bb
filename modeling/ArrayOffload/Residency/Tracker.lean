import ArrayOffload.Region
import ArrayOffload.Residency.State
import ArrayOffload.Signature

/-!
# Residency tracking

A tracker follows the residency of every array of a function. One tracker runs while a plan is
made and one while it is carried out, where it rejects reads of stale copies. Transitions of
copied arrays:

| before        | transition   | after         |
|---------------|--------------|---------------|
| `hostValid`   | copy in      | `bothValid`   |
| `deviceValid` | copy out     | `bothValid`   |
| any           | device write | `deviceValid` |
| any           | host write   | `hostValid`   |

Arrays in shared memory are always valid and never move.
-/

namespace ArrayOffload

/-- An array of a function as residency sees it. -/
structure Binding where
  array : ArrayId
  name : String
  allocator : Allocator
  escapes : Bool
deriving DecidableEq, Repr

/-- The state before anything has happened. -/
def Allocator.initial : Allocator → Residency
  | copied => .hostValid
  | shared => .sharedAlwaysValid

/-- One state for every binding; binding `i` is array `i`. -/
structure Tracker where
  bindings : List Binding
  states : List Residency
deriving DecidableEq, Repr

namespace Tracker

def bindingOf? (f : Func) (signature : Signature) (id : ArrayId) (decl : ArrayDecl) :
    Option Binding :=
  match decl.role with
  | .param position =>
    (signature.allocator? position).map fun allocator =>
      ⟨id, decl.name, allocator, f.escapes id decl⟩
  | .scratch => some ⟨id, decl.name, .copied, f.escapes id decl⟩

/-- The tracker at the start of a call. -/
def start? (f : Func) (signature : Signature) : Option Tracker :=
  (f.arrays.zipIdx.mapM fun (decl, id) => bindingOf? f signature id decl).map fun bindings =>
    ⟨bindings, bindings.map fun b : Binding => b.allocator.initial⟩

def state? (tracker : Tracker) (id : ArrayId) : Option Residency := tracker.states[id]?

def isCopied (tracker : Tracker) (id : ArrayId) : Bool :=
  tracker.bindings[id]?.any (·.allocator = .copied)

/-- Replace the state of one array. -/
def withState (tracker : Tracker) (id : ArrayId) (state : Residency) : Tracker :=
  { tracker with states := tracker.states.set id state }

/-- The device gets a copy of what the host has. -/
def copyIn (tracker : Tracker) (id : ArrayId) : Tracker :=
  if tracker.state? id = some .hostValid then tracker.withState id .bothValid else tracker

/-- The host gets a copy of what the device has. -/
def copyOut (tracker : Tracker) (id : ArrayId) : Tracker :=
  if tracker.state? id = some .deviceValid then tracker.withState id .bothValid else tracker

def deviceWrite (tracker : Tracker) (id : ArrayId) : Tracker :=
  if tracker.isCopied id then tracker.withState id .deviceValid else tracker

def hostWrite (tracker : Tracker) (id : ArrayId) : Tracker :=
  if tracker.isCopied id then tracker.withState id .hostValid else tracker

/-- The host's copy is stale. -/
def needsCopyOut? (tracker : Tracker) (id : ArrayId) : Option Bool :=
  (tracker.state? id).map fun state => tracker.isCopied id && !state.validOn .host

/-- The arrays of a region whose device copies are stale, in order of first use. -/
def copyInSet? (tracker : Tracker) (region : Region) : Option (List ArrayId) :=
  (region.uses.mapM fun use =>
    (tracker.state? use.array).map fun state => (use.array, state.validOn .device)).map
    fun found => (found.filter (!·.2)).map (·.1)

/-- The escaping arrays whose host copies are stale, in declaration order. -/
def exitCopyOuts (tracker : Tracker) : List ArrayId :=
  (tracker.bindings.filter fun b =>
    b.escapes && tracker.needsCopyOut? b.array = some true).map (·.array)

/-- A read of an array at a location is in order. -/
def checkReadable (tracker : Tracker) (id : ArrayId) (location : Location) :
    Except (Stop OffloadError) Unit :=
  match tracker.state? id, tracker.bindings[id]? with
  | some state, some binding =>
    if state.validOn location then .ok ()
    else .error (.error (.residency binding.name location state))
  | _, _ => .error .fault

end Tracker

end ArrayOffload
