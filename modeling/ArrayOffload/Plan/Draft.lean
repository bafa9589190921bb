import ArrayOffload.Plan.Placement
import ArrayOffload.Residency.Tracker

/-!
# Drafts of plans

A draft grows by one segment of the body at a time, with a tracker that knows which copies are
current. Work on the host copies stale arrays out first. A launch copies in what the device
lacks, and copies out what the host needs before the device writes it again.

* `Draft.extend?`: the draft with one more segment;
* `hostTouchesFirst`: the look-ahead that decides about copy-outs.
-/

namespace ArrayOffload

structure Draft where
  steps : List Step
  launches : List LaunchPlan
  transfers : List Transfer
  tracker : Tracker
deriving BEq, Repr

namespace Draft

def start (tracker : Tracker) : Draft := ⟨[], [], [], tracker⟩

def copyIn (draft : Draft) (id : ArrayId) : Draft :=
  { draft with
    steps := draft.steps ++ [.copyIn id]
    transfers := draft.transfers ++ [⟨id, .toDevice, draft.steps.length⟩]
    tracker := draft.tracker.copyIn id }

def copyOut (draft : Draft) (id : ArrayId) : Draft :=
  { draft with
    steps := draft.steps ++ [.copyOut id]
    transfers := draft.transfers ++ [⟨id, .toHost, draft.steps.length⟩]
    tracker := draft.tracker.copyOut id }

/-- Copy out each array whose host copy is stale. -/
def refresh? : Draft → List ArrayId → Option Draft
  | draft, [] => some draft
  | draft, id :: rest => do
    let stale ← draft.tracker.needsCopyOut? id
    refresh? (if stale then draft.copyOut id else draft) rest

/-- A step on the host. Writes keep what they do not touch, so written arrays are refreshed
too. -/
def hostStep? (draft : Draft) (reads writes : List ArrayId) (step : Step) : Option Draft := do
  let fresh ← draft.refresh? (reads ++ writes)
  some { fresh with
    steps := fresh.steps ++ [step]
    tracker := writes.foldl Tracker.hostWrite fresh.tracker }

end Draft

/-- Whether the host uses an array in some of these segments before the device writes it. -/
def hostTouchesFirst (f : Func) (regions : List Region) (placed : Placement.Launches)
    (id : ArrayId) : List Segment → Bool
  | [] => false
  | .hostOp index :: rest =>
    f.body[index]?.any (·.touches id) || hostTouchesFirst f regions placed id rest
  | .region index :: rest =>
    match regions[index]?.bind (·.access? id) with
    | none => hostTouchesFirst f regions placed id rest
    | some access =>
      if placed[index]?.join.isNone then true
      else if access.writes then false
      else hostTouchesFirst f regions placed id rest

namespace Draft

/-- A launch of a region; `rest` is what follows in the body. -/
def launchStep? (draft : Draft) (f : Func) (regions : List Region) (placed : Placement.Launches)
    (region : Region) (plan : LaunchPlan) (rest : List Segment) : Option Draft := do
  let ready := (← draft.tracker.copyInSet? region).foldl copyIn draft
  let launched : Draft :=
    { ready with
      steps := ready.steps ++ [.launch ready.launches.length]
      launches := ready.launches ++ [plan]
      tracker := region.writes.foldl Tracker.deviceWrite ready.tracker }
  launched.refresh? (region.writes.filter fun id => hostTouchesFirst f regions placed id rest)

/-- The draft with one more segment. -/
def extend? (f : Func) (regions : List Region) (placed : Placement.Launches) (draft : Draft)
    (segment : Segment) (rest : List Segment) : Option Draft :=
  match segment with
  | .hostOp index => do
    let op ← f.body[index]?
    draft.hostStep? op.reads op.writes (.hostOp index)
  | .region index => do
    let region ← regions[index]?
    match placed[index]?.join with
    | none => draft.hostStep? region.reads region.writes (.hostRegion index)
    | some plan => draft.launchStep? f regions placed region plan rest

/-- The draft of all segments. On a fault the draft up to it remains: its kernels have been
compiled by then. -/
def extendAll (f : Func) (regions : List Region) (placed : Placement.Launches) :
    Draft → List Segment → Except Draft Draft
  | draft, [] => .ok draft
  | draft, segment :: rest =>
    match draft.extend? f regions placed segment rest with
    | none => .error draft
    | some next => extendAll f regions placed next rest

/-- Copy out the escaping arrays whose host copies are stale. -/
def finish (draft : Draft) : Draft := draft.tracker.exitCopyOuts.foldl copyOut draft

end Draft

end ArrayOffload
