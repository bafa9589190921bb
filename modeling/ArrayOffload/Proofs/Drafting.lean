import ArrayOffload.Plan.Draft
import ArrayOffload.Proofs.Kernel
import ArrayOffload.Proofs.Residency

/-!
# The steps of a draft

A draft grows step by step. Each step it emits is one that its tracker allows at that moment: what
the step reads is valid where the step reads it. So the drafts between the steps form a path, and a
body leads along such a path whichever of its regions are launched.

* `Draft.Emits`: one step, with the operations of the body it stands for;
* `Draft.Path`: step after step, with the draft right after each;
* `Draft.bodyTrail`, `Draft.finishTrail`: the drafts that planning goes through;
* `Draft.extendAll_path`, `Draft.finish_path`: they form a path to the finished draft.
-/

namespace ArrayOffload

namespace Draft

/-- The draft after work on the host. -/
def worked (draft : Draft) (step : Step) (writes : List ArrayId) : Draft :=
  { draft with
    steps := draft.steps ++ [step]
    tracker := writes.foldl Tracker.hostWrite draft.tracker }

/-- The draft after a launch. -/
def launched (draft : Draft) (region : Region) (plan : LaunchPlan) : Draft :=
  { draft with
    steps := draft.steps ++ [.launch draft.launches.length]
    launches := draft.launches ++ [plan]
    tracker := region.writes.foldl Tracker.deviceWrite draft.tracker }

/-- A draft adds a step that is in order. The operations are those that the step carries out. -/
inductive Emits (f : Func) (regions : List Region) (draft : Draft) : Step → List Op → Draft → Prop
  | copyIn {id : ArrayId} :
      draft.tracker.Valid .host id → draft.tracker.isCopied id = true →
      Emits f regions draft (.copyIn id) [] (draft.copyIn id)
  | copyOut {id : ArrayId} :
      draft.tracker.Valid .device id → draft.tracker.isCopied id = true →
      Emits f regions draft (.copyOut id) [] (draft.copyOut id)
  | launch {plan : LaunchPlan} {region : Region} :
      regions[plan.kernel.region]? = some region → plan.Implements f region →
      (∀ id ∈ region.reads, draft.tracker.Valid .device id) →
      Emits f regions draft (.launch draft.launches.length) (region.ops f)
        (draft.launched region plan)
  | hostRegion {index : Nat} {region : Region} :
      regions[index]? = some region →
      (∀ id ∈ region.reads, draft.tracker.Valid .host id) →
      Emits f regions draft (.hostRegion index) (region.ops f)
        (draft.worked (.hostRegion index) region.writes)
  | hostOp {index : Nat} {op : Op} :
      f.body[index]? = some op →
      (∀ id ∈ op.reads ++ op.writes, draft.tracker.Valid .host id) →
      Emits f regions draft (.hostOp index) [op] (draft.worked (.hostOp index) op.writes)

/-- Steps one after the other: the draft right after each, and the operations of them all. -/
inductive Path (f : Func) (regions : List Region) :
    Draft → List Draft → List Op → Draft → Prop
  | nil (draft : Draft) : Path f regions draft [] [] draft
  | cons {draft next last : Draft} {step : Step} {ops more : List Op} {trail : List Draft} :
      Emits f regions draft step ops next → Path f regions next trail more last →
      Path f regions draft (next :: trail) (ops ++ more) last

variable {f : Func} {regions : List Region} {draft next last : Draft} {step : Step}
  {ops more : List Op} {trail rest : List Draft}

/-! ## What a step does to a draft -/

namespace Emits

theorem steps (h : Emits f regions draft step ops next) :
    next.steps = draft.steps ++ [step] := by
  cases h <;> rfl

theorem bindings (h : Emits f regions draft step ops next) :
    next.tracker.bindings = draft.tracker.bindings := by
  cases h with
  | copyIn => exact Tracker.local_copyIn.bindings _ _
  | copyOut => exact Tracker.local_copyOut.bindings _ _
  | launch => exact Tracker.local_deviceWrite.bindings_foldl _ _
  | hostRegion | hostOp => exact Tracker.local_hostWrite.bindings_foldl _ _

theorem covers (h : Emits f regions draft step ops next) {count : Nat}
    (hc : draft.tracker.Covers count) : next.tracker.Covers count := by
  cases h with
  | copyIn => exact Tracker.local_copyIn.covers hc _
  | copyOut => exact Tracker.local_copyOut.covers hc _
  | launch => exact Tracker.local_deviceWrite.covers_foldl _ hc
  | hostRegion | hostOp => exact Tracker.local_hostWrite.covers_foldl _ hc

theorem steady (h : Emits f regions draft step ops next) (hs : draft.tracker.Steady) :
    next.tracker.Steady := by
  cases h with
  | copyIn => exact hs.copyIn _
  | copyOut => exact hs.copyOut _
  | launch => exact hs.foldl Tracker.Steady.deviceWrite _
  | hostRegion | hostOp => exact hs.foldl Tracker.Steady.hostWrite _

end Emits

/-! ## Paths -/

namespace Path

theorem single (h : Emits f regions draft step ops next) :
    Path f regions draft [next] ops next := by
  simpa using Path.cons h (.nil next)

theorem append (first : Path f regions draft trail ops next)
    (second : Path f regions next rest more last) :
    Path f regions draft (trail ++ rest) (ops ++ more) last := by
  induction first with
  | nil => exact second
  | cons emits _ ih =>
    rw [List.append_assoc]
    exact .cons emits (ih second)

theorem bindings (h : Path f regions draft trail ops last) :
    last.tracker.bindings = draft.tracker.bindings := by
  induction h with
  | nil => rfl
  | cons emits _ ih => rw [ih, emits.bindings]

theorem covers (h : Path f regions draft trail ops last) {count : Nat}
    (hc : draft.tracker.Covers count) : last.tracker.Covers count := by
  induction h with
  | nil => exact hc
  | cons emits _ ih => exact ih (emits.covers hc)

theorem steady (h : Path f regions draft trail ops last) (hs : draft.tracker.Steady) :
    last.tracker.Steady := by
  induction h with
  | nil => exact hs
  | cons emits _ ih => exact ih (emits.steady hs)

/-- The draft right after the step of some number has the steps up to it. -/
theorem steps (h : Path f regions draft trail ops last) :
    last.steps.length = draft.steps.length + trail.length ∧ draft.steps <+: last.steps ∧
      ∀ {i : Nat} {mid : Draft}, trail[i]? = some mid →
        mid.steps = last.steps.take (draft.steps.length + i + 1) := by
  induction h with
  | nil => exact ⟨rfl, List.prefix_refl _, by simp⟩
  | @cons draft next last step ops more trail emits _ ih =>
    obtain ⟨hlength, hsteps, hrest⟩ := ih
    have hnext := emits.steps
    have hcount : next.steps.length = draft.steps.length + 1 := by simp [hnext]
    refine ⟨by simp only [hlength, hcount, List.length_cons]; omega,
      (hnext ▸ List.prefix_append _ _ : draft.steps <+: next.steps).trans hsteps, ?_⟩
    intro i mid hi
    cases i with
    | zero =>
      simp only [List.getElem?_cons_zero, Option.some.injEq] at hi
      subst hi
      rw [Nat.add_zero, ← hcount]
      exact List.prefix_iff_eq_take.mp hsteps
    | succ i =>
      rw [hrest (by simpa using hi), hcount]
      congr 1
      omega

/-- The draft right after some step is the end of a path of its own. -/
theorem take (h : Path f regions draft trail ops last) {i : Nat} {mid : Draft}
    (hmid : trail[i]? = some mid) :
    ∃ done rest more, Path f regions draft (trail.take (i + 1)) done mid ∧
      Path f regions mid rest more last := by
  induction h generalizing i with
  | nil => simp at hmid
  | cons emits path ih =>
    cases i with
    | zero =>
      simp only [List.getElem?_cons_zero, Option.some.injEq] at hmid
      subst hmid
      exact ⟨_, _, _, .single emits, path⟩
    | succ i =>
      obtain ⟨done, rest, more, first, second⟩ := ih (by simpa using hmid)
      exact ⟨_, rest, more, .cons emits first, second⟩

end Path

/-! ## The drafts of planning -/

/-- The drafts after each copy-out of stale host copies. -/
def refreshTrail : Draft → List ArrayId → List Draft
  | _, [] => []
  | draft, id :: rest =>
    if draft.tracker.needsCopyOut? id = some true then
      draft.copyOut id :: (draft.copyOut id).refreshTrail rest
    else draft.refreshTrail rest

/-- The drafts after each of some transfers. -/
def copyTrail (copy : Draft → ArrayId → Draft) : Draft → List ArrayId → List Draft
  | _, [] => []
  | draft, id :: rest => copy draft id :: copyTrail copy (copy draft id) rest

/-- The drafts after each step of work on the host. -/
def hostTrail (draft : Draft) (reads writes : List ArrayId) (step : Step) : List Draft :=
  draft.refreshTrail (reads ++ writes) ++
    ((draft.refresh? (reads ++ writes)).map (·.worked step writes)).toList

/-- The drafts after each step of a launch. -/
def launchTrail (draft : Draft) (f : Func) (regions : List Region) (placed : Placement.Launches)
    (region : Region) (plan : LaunchPlan) (rest : List Segment) : List Draft :=
  let missing := (draft.tracker.copyInSet? region).getD []
  let next := (missing.foldl copyIn draft).launched region plan
  copyTrail copyIn draft missing ++ next :: next.refreshTrail
    (region.writes.filter fun id => hostTouchesFirst f regions placed id rest)

/-- The drafts after each step of one segment. -/
def segmentTrail (f : Func) (regions : List Region) (placed : Placement.Launches) (draft : Draft)
    (segment : Segment) (rest : List Segment) : List Draft :=
  match segment with
  | .hostOp index =>
    f.body[index]?.elim [] fun op => draft.hostTrail op.reads op.writes (.hostOp index)
  | .region index =>
    regions[index]?.elim [] fun region =>
      match placed[index]?.join with
      | none => draft.hostTrail region.reads region.writes (.hostRegion index)
      | some plan => draft.launchTrail f regions placed region plan rest

/-- The drafts after each step of the body. -/
def bodyTrail (f : Func) (regions : List Region) (placed : Placement.Launches) :
    Draft → List Segment → List Draft
  | _, [] => []
  | draft, segment :: rest =>
    match draft.extend? f regions placed segment rest with
    | none => []
    | some next =>
      draft.segmentTrail f regions placed segment rest ++ bodyTrail f regions placed next rest

/-- The drafts after each of the final copy-outs. -/
def finishTrail (draft : Draft) : List Draft := copyTrail copyOut draft draft.tracker.exitCopyOuts

/-! ## Transfers -/

/-- Refreshed arrays are valid on the host, and nothing becomes stale. -/
theorem refresh?_path (f : Func) (regions : List Region) {ids : List ArrayId}
    (hs : draft.tracker.Steady) (h : draft.refresh? ids = some last) :
    Path f regions draft (draft.refreshTrail ids) [] last ∧
      (∀ {location : Location} {id : ArrayId}, draft.tracker.Valid location id →
        last.tracker.Valid location id) ∧
      ∀ id ∈ ids, last.tracker.Valid .host id := by
  induction ids generalizing draft with
  | nil =>
    cases h
    exact ⟨.nil _, fun hv => hv, by simp⟩
  | cons id rest ih =>
    simp only [refresh?, Option.bind_eq_bind, Option.bind_eq_some_iff] at h
    obtain ⟨stale, hstale, h⟩ := h
    rw [refreshTrail, hstale]
    cases stale with
    | true =>
      obtain ⟨hcopied, hstate⟩ := Tracker.needsCopyOut?_true hstale
      have hvalid : draft.tracker.Valid .device id := ⟨_, hstate, rfl⟩
      have hnext : (draft.copyOut id).tracker.Steady := hs.copyOut id
      obtain ⟨path, keeps, fresh⟩ := ih hnext h
      refine ⟨.cons (.copyOut hvalid hcopied) path, fun hv => keeps (hv.copyOut id),
        fun other ho => ?_⟩
      rcases List.mem_cons.mp ho with rfl | ho
      · exact keeps (Tracker.valid_copyOut_self hvalid)
      · exact fresh other ho
    | false =>
      obtain ⟨path, keeps, fresh⟩ := ih hs h
      refine ⟨path, keeps, fun other ho => ?_⟩
      rcases List.mem_cons.mp ho with rfl | ho
      · exact keeps (hs.valid_of_needsCopyOut?_false hstale)
      · exact fresh other ho

/-- Copied arrays that are valid at the source of a transfer can be moved, in any order. -/
theorem copies_path {copy : Draft → ArrayId → Draft} {stepOf : ArrayId → Step}
    {source target : Location}
    (emits : ∀ {draft : Draft} {id : ArrayId}, draft.tracker.Valid source id →
      draft.tracker.isCopied id = true → Emits f regions draft (stepOf id) [] (copy draft id))
    (stays : ∀ {draft : Draft} {id other : ArrayId} {location : Location},
      draft.tracker.Valid location other → (copy draft id).tracker.Valid location other)
    (arrives : ∀ {draft : Draft} {id : ArrayId}, draft.tracker.Valid source id →
      (copy draft id).tracker.Valid target id)
    {ids : List ArrayId}
    (h : ∀ id ∈ ids, draft.tracker.Valid source id ∧ draft.tracker.isCopied id = true) :
    Path f regions draft (copyTrail copy draft ids) [] (ids.foldl copy draft) ∧
      (∀ {location : Location} {id : ArrayId}, draft.tracker.Valid location id →
        (ids.foldl copy draft).tracker.Valid location id) ∧
      ∀ id ∈ ids, (ids.foldl copy draft).tracker.Valid target id := by
  induction ids generalizing draft with
  | nil => exact ⟨.nil _, fun hv => hv, by simp⟩
  | cons id rest ih =>
    obtain ⟨hv, hcopied⟩ := h id (by simp)
    have first := emits hv hcopied
    have hnext : ∀ other ∈ rest, (copy draft id).tracker.Valid source other ∧
        (copy draft id).tracker.isCopied other = true := by
      intro other ho
      obtain ⟨hvalid, hother⟩ := h other (by simp [ho])
      refine ⟨stays hvalid, ?_⟩
      rw [← hother]
      exact congrFun (Tracker.isCopied_congr first.bindings) other
    obtain ⟨path, keeps, fresh⟩ := ih hnext
    refine ⟨.cons first path, fun hvalid => keeps (stays hvalid), fun other ho => ?_⟩
    rcases List.mem_cons.mp ho with rfl | ho
    · exact keeps (arrives hv)
    · exact fresh other ho

/-! ## Segments -/

theorem hostStep?_eq (draft : Draft) (reads writes : List ArrayId) (step : Step) :
    draft.hostStep? reads writes step =
      (draft.refresh? (reads ++ writes)).map (·.worked step writes) := by
  cases h : draft.refresh? (reads ++ writes) <;> simp [hostStep?, worked, h]

/-- Work on the host finds valid host copies of all that it reads or writes. -/
theorem hostStep?_path {reads writes : List ArrayId} (hs : draft.tracker.Steady)
    (emits : ∀ {fresh : Draft}, (∀ id ∈ reads ++ writes, fresh.tracker.Valid .host id) →
      Emits f regions fresh step ops (fresh.worked step writes))
    (h : draft.hostStep? reads writes step = some last) :
    Path f regions draft (draft.hostTrail reads writes step) ops last := by
  rw [hostStep?_eq, Option.map_eq_some_iff] at h
  obtain ⟨fresh, hfresh, rfl⟩ := h
  obtain ⟨path, _, valid⟩ := refresh?_path f regions hs hfresh
  rw [hostTrail, hfresh]
  exact path.append (.single (emits valid))

/-- A launch finds valid device copies of all that its region uses. -/
theorem launchStep?_path {placed : Placement.Launches} {region : Region} {plan : LaunchPlan}
    {segments : List Segment} (hs : draft.tracker.Steady)
    (hregion : regions[plan.kernel.region]? = some region) (impl : plan.Implements f region)
    (h : draft.launchStep? f regions placed region plan segments = some last) :
    Path f regions draft (draft.launchTrail f regions placed region plan segments)
      (region.ops f) last := by
  simp only [launchStep?, Option.bind_eq_bind, Option.bind_eq_some_iff] at h
  obtain ⟨missing, hmissing, h⟩ := h
  obtain ⟨hstale, hothers⟩ := Tracker.copyInSet?_ok hmissing
  -- what the device lacks is stale there, so the host has it and it is no shared array
  have hmissing' : ∀ id ∈ missing, draft.tracker.Valid .host id ∧
      draft.tracker.isCopied id = true := fun id hid =>
    ⟨⟨_, hstale id hid, rfl⟩, hs.isCopied (hstale id hid) (by simp)⟩
  obtain ⟨copied, keeps, fresh⟩ := copies_path (@Emits.copyIn f regions)
    (fun hv => hv.copyIn _) Tracker.valid_copyIn_self hmissing'
  have hreads : ∀ id ∈ region.reads, (missing.foldl copyIn draft).tracker.Valid .device id := by
    intro id hid
    obtain ⟨use, huse, rfl⟩ := List.mem_map.mp hid
    rcases hothers use (List.mem_filter.mp huse |>.1) with hin | hvalid
    · exact fresh _ hin
    · exact keeps hvalid
  have emits := Emits.launch hregion impl hreads
  have hsteady := emits.steady (copied.steady hs)
  obtain ⟨after, _, _⟩ := refresh?_path f regions hsteady h
  simp only [launchTrail, hmissing, Option.getD_some]
  have path := copied.append (.cons emits after)
  rwa [List.nil_append, List.append_nil] at path

end Draft

/-- The operations of a segment. -/
def Segment.ops (f : Func) (regions : List Region) : Segment → List Op
  | .region index => regions[index]?.elim [] (·.ops f)
  | .hostOp index => f.body[index]?.toList

/-- A launch that is placed at a region carries it out. -/
def Placement.Fits (f : Func) (regions : List Region) (placed : Launches) : Prop :=
  ∀ (index : Nat) (plan : LaunchPlan) (region : Region), placed[index]?.join = some plan →
    regions[index]? = some region → plan.kernel.region = index ∧ plan.Implements f region

namespace Draft

theorem extend?_path {placed : Placement.Launches} {segment : Segment} {segments : List Segment}
    (fits : Placement.Fits f regions placed) (hs : draft.tracker.Steady)
    (h : draft.extend? f regions placed segment segments = some last) :
    Path f regions draft (draft.segmentTrail f regions placed segment segments)
      (segment.ops f regions) last := by
  cases segment with
  | hostOp index =>
    simp only [extend?, Option.bind_eq_bind, Option.bind_eq_some_iff] at h
    obtain ⟨op, hop, h⟩ := h
    simp only [segmentTrail, Segment.ops, hop, Option.elim_some, Option.toList_some]
    exact hostStep?_path hs (fun valid => .hostOp hop valid) h
  | region index =>
    simp only [extend?, Option.bind_eq_bind, Option.bind_eq_some_iff] at h
    obtain ⟨region, hregion, h⟩ := h
    simp only [segmentTrail, Segment.ops, hregion, Option.elim_some]
    cases hplaced : placed[index]?.join with
    | none =>
      rw [hplaced] at h
      refine hostStep?_path hs (fun valid => .hostRegion hregion fun id hid => ?_) h
      exact valid id (List.mem_append_left _ hid)
    | some plan =>
      rw [hplaced] at h
      obtain ⟨hindex, impl⟩ := fits index plan region hplaced hregion
      exact launchStep?_path hs (hindex ▸ hregion) impl h

/-- The drafts of a body form a path through all its operations. -/
theorem extendAll_path {placed : Placement.Launches} {segments : List Segment}
    (fits : Placement.Fits f regions placed) (hs : draft.tracker.Steady)
    (h : draft.extendAll f regions placed segments = .ok last) :
    Path f regions draft (draft.bodyTrail f regions placed segments)
      (segments.flatMap (Segment.ops f regions)) last := by
  induction segments generalizing draft with
  | nil =>
    cases h
    exact .nil _
  | cons segment segments ih =>
    rw [extendAll] at h
    rw [bodyTrail]
    cases hnext : draft.extend? f regions placed segment segments with
    | none =>
      rw [hnext] at h
      cases h
    | some next =>
      rw [hnext] at h
      have first := extend?_path fits hs hnext
      rw [List.flatMap_cons]
      exact first.append (ih (first.steady hs) h)

/-! ## The end -/

/-- A finished draft has valid host copies of all that escapes. -/
theorem finish_path (f : Func) (regions : List Region) (hs : draft.tracker.Steady)
    (hbound : ∀ binding ∈ draft.tracker.bindings, ∃ state,
      draft.tracker.state? binding.array = some state) :
    Path f regions draft draft.finishTrail [] draft.finish ∧
      ∀ binding ∈ draft.tracker.bindings, binding.escapes = true →
        draft.finish.tracker.Valid .host binding.array := by
  have hmoved : ∀ id ∈ draft.tracker.exitCopyOuts,
      draft.tracker.Valid .device id ∧ draft.tracker.isCopied id = true := by
    intro id hid
    simp only [Tracker.exitCopyOuts, List.mem_map, List.mem_filter, Bool.and_eq_true,
      decide_eq_true_eq] at hid
    obtain ⟨binding, ⟨_, _, hneeds⟩, rfl⟩ := hid
    obtain ⟨hcopied, hstate⟩ := Tracker.needsCopyOut?_true hneeds
    exact ⟨⟨_, hstate, rfl⟩, hcopied⟩
  obtain ⟨path, keeps, fresh⟩ := copies_path (@Emits.copyOut f regions)
    (fun hv => hv.copyOut _) Tracker.valid_copyOut_self hmoved
  refine ⟨path, fun binding hbinding hescapes => ?_⟩
  obtain ⟨state, hstate⟩ := hbound binding hbinding
  -- an array that escapes is copied out here, or needs no copy because it is valid already
  cases hneeds : draft.tracker.needsCopyOut? binding.array with
  | none => simp [Tracker.needsCopyOut?, hstate] at hneeds
  | some stale =>
    cases stale with
    | true =>
      refine fresh _ (List.mem_map.mpr ⟨binding, List.mem_filter.mpr ⟨hbinding, ?_⟩, rfl⟩)
      simp [hescapes, hneeds]
    | false => exact keeps (hs.valid_of_needsCopyOut?_false hneeds)

end Draft

end ArrayOffload
