import ArrayOffload.Proofs.Drafting

/-!
# What a segment adds to a draft

A segment either runs on the host, after copy-outs of what is stale there, or is launched, between
the copy-ins of what the device lacks and the copy-outs that the look-ahead asks for. This is the
inversion of `Draft.extend?`; whoever needs to know what planning emits goes through it.

* `Tracker.KeepsFresh`: transitions that make no host copy stale;
* `Tracker.Refreshes`: the arrays of a list that have to be copied out;
* `Draft.Extends`, `Draft.extend?_cases`: the two ways in which a segment extends a draft;
* `Draft.ExtendsAll`, `Draft.extendAll_cases`: the same for one segment after the other;
* `Draft.ExtendsAll.launches`: the launches that segments add.
-/

namespace ArrayOffload

/-! ## Arrays to copy out -/

namespace Tracker

variable {tracker : Tracker} {id other : ArrayId} {ids outs : List ArrayId}

theorem needsCopyOut?_withState_of_ne (h : other ≠ id) (state : Residency) :
    (tracker.withState id state).needsCopyOut? other = tracker.needsCopyOut? other := by
  simp only [needsCopyOut?, state?_withState, if_neg h]
  rfl

theorem needsCopyOut?_copyOut_of_ne (h : other ≠ id) :
    (tracker.copyOut id).needsCopyOut? other = tracker.needsCopyOut? other := by
  unfold copyOut
  split
  · exact needsCopyOut?_withState_of_ne h _
  · rfl

theorem state?_copyOut_self : (tracker.copyOut id).state? id ≠ some .deviceValid := by
  intro h
  unfold copyOut at h
  split at h
  · next hbefore => simp [state?_withState, hbefore] at h
  · next hbefore => exact hbefore h

/-- An array is copied out once. -/
theorem needsCopyOut?_copyOut_self : (tracker.copyOut id).needsCopyOut? id ≠ some true :=
  fun h => state?_copyOut_self (needsCopyOut?_true h).2

/-- A transition that makes no host copy stale. -/
def KeepsFresh (step : Tracker → ArrayId → Tracker) : Prop :=
  ∀ {tracker : Tracker} {id other : ArrayId}, (step tracker id).state? other = some .deviceValid →
    tracker.state? other = some .deviceValid

theorem stale_of_withState {state : Residency} (hstate : state ≠ .deviceValid)
    (h : (tracker.withState id state).state? other = some .deviceValid) :
    tracker.state? other = some .deviceValid := by
  rw [state?_withState] at h
  split at h
  · obtain ⟨_, _, heq⟩ := Option.map_eq_some_iff.mp h
    exact absurd heq hstate
  · exact h

theorem keepsFresh_copyIn : KeepsFresh copyIn := by
  intro tracker id other h
  unfold copyIn at h
  split at h
  · exact stale_of_withState (by simp) h
  · exact h

theorem keepsFresh_copyOut : KeepsFresh copyOut := by
  intro tracker id other h
  unfold copyOut at h
  split at h
  · exact stale_of_withState (by simp) h
  · exact h

theorem keepsFresh_hostWrite : KeepsFresh hostWrite := by
  intro tracker id other h
  unfold hostWrite at h
  split at h
  · exact stale_of_withState (by simp) h
  · exact h

theorem KeepsFresh.foldl {step : Tracker → ArrayId → Tracker} (h : KeepsFresh step)
    (hlast : (ids.foldl step tracker).state? other = some .deviceValid) :
    tracker.state? other = some .deviceValid := by
  induction ids generalizing tracker with
  | nil => exact hlast
  | cons id rest ih => exact h (ih hlast)

/-- Of the given arrays, the second list has those whose host copies are stale, each once. -/
structure Refreshes (tracker : Tracker) (ids outs : List ArrayId) : Prop where
  nodup : outs.Nodup
  mem_iff : ∀ {id : ArrayId}, id ∈ outs ↔ id ∈ ids ∧ tracker.needsCopyOut? id = some true

theorem Refreshes.nil : tracker.Refreshes [] [] := ⟨by simp, by simp⟩

theorem Refreshes.skip (h : tracker.Refreshes ids outs)
    (fresh : tracker.needsCopyOut? id = some false) : tracker.Refreshes (id :: ids) outs := by
  refine ⟨h.nodup, fun {other} => ?_⟩
  rw [h.mem_iff, List.mem_cons]
  constructor
  · exact fun ⟨hmem, hstale⟩ => ⟨.inr hmem, hstale⟩
  · rintro ⟨rfl | hmem, hstale⟩
    · rw [fresh] at hstale
      cases hstale
    · exact ⟨hmem, hstale⟩

theorem Refreshes.cons (h : (tracker.copyOut id).Refreshes ids outs)
    (stale : tracker.needsCopyOut? id = some true) :
    tracker.Refreshes (id :: ids) (id :: outs) := by
  refine ⟨List.nodup_cons.mpr ⟨fun hmem => ?_, h.nodup⟩, fun {other} => ?_⟩
  · exact needsCopyOut?_copyOut_self (h.mem_iff.mp hmem).2
  · by_cases hother : other = id
    · simp [hother, stale]
    · rw [List.mem_cons, List.mem_cons, h.mem_iff, needsCopyOut?_copyOut_of_ne hother]
      simp [hother]

/-- Where nothing is stale on the host, nothing is copied out. -/
theorem Refreshes.eq_nil (h : tracker.Refreshes ids outs)
    (fresh : ∀ id ∈ ids, tracker.needsCopyOut? id ≠ some true) : outs = [] :=
  List.eq_nil_iff_forall_not_mem.mpr fun id hid =>
    fresh id (h.mem_iff.mp hid).1 (h.mem_iff.mp hid).2

end Tracker

namespace Draft

variable {f : Func} {regions : List Region} {placed : Placement.Launches}
  {draft next last : Draft}

/-! ## Transfers in a row -/

/-- Transfers in a row are steps in a row, and launch nothing. -/
theorem foldl_copies {copy : Draft → ArrayId → Draft} {stepOf : ArrayId → Step}
    {move : Tracker → ArrayId → Tracker}
    (single : ∀ draft id, (copy draft id).steps = draft.steps ++ [stepOf id] ∧
      (copy draft id).launches = draft.launches ∧ (copy draft id).tracker = move draft.tracker id)
    (ids : List ArrayId) (draft : Draft) :
    (ids.foldl copy draft).steps = draft.steps ++ ids.map stepOf ∧
      (ids.foldl copy draft).launches = draft.launches ∧
      (ids.foldl copy draft).tracker = ids.foldl move draft.tracker := by
  induction ids generalizing draft with
  | nil => exact ⟨(List.append_nil _).symm, rfl, rfl⟩
  | cons id rest ih =>
    obtain ⟨hsteps, hlaunches, htracker⟩ := single draft id
    obtain ⟨hrest, hsame, hmoved⟩ := ih (copy draft id)
    refine ⟨?_, ?_, ?_⟩
    · rw [List.foldl_cons, hrest, hsteps, List.map_cons, List.append_assoc]
      rfl
    · rw [List.foldl_cons, hsame, hlaunches]
    · rw [List.foldl_cons, hmoved, htracker, List.foldl_cons]

theorem foldl_copyIn (ids : List ArrayId) (draft : Draft) :
    (ids.foldl copyIn draft).steps = draft.steps ++ ids.map .copyIn ∧
      (ids.foldl copyIn draft).launches = draft.launches ∧
      (ids.foldl copyIn draft).tracker = ids.foldl Tracker.copyIn draft.tracker :=
  @foldl_copies copyIn .copyIn Tracker.copyIn (fun _ _ => ⟨rfl, rfl, rfl⟩) ids draft

theorem foldl_copyOut (ids : List ArrayId) (draft : Draft) :
    (ids.foldl copyOut draft).steps = draft.steps ++ ids.map .copyOut ∧
      (ids.foldl copyOut draft).launches = draft.launches ∧
      (ids.foldl copyOut draft).tracker = ids.foldl Tracker.copyOut draft.tracker :=
  @foldl_copies copyOut .copyOut Tracker.copyOut (fun _ _ => ⟨rfl, rfl, rfl⟩) ids draft

theorem refresh?_ok {ids : List ArrayId} (h : draft.refresh? ids = some last) :
    ∃ outs, draft.tracker.Refreshes ids outs ∧ last = outs.foldl copyOut draft := by
  induction ids generalizing draft with
  | nil =>
    cases h
    exact ⟨[], .nil, rfl⟩
  | cons id rest ih =>
    simp only [refresh?, Option.bind_eq_bind, Option.bind_eq_some_iff] at h
    obtain ⟨stale, hstale, h⟩ := h
    obtain ⟨outs, hrest, rfl⟩ := ih h
    cases stale with
    | true => exact ⟨id :: outs, hrest.cons hstale, rfl⟩
    | false => exact ⟨outs, hrest.skip hstale, rfl⟩

end Draft

/-! ## Segments -/

/-- The segment runs on the host, as this step, with these reads and writes. -/
inductive Segment.OnHost (f : Func) (regions : List Region) (placed : Placement.Launches) :
    Segment → Step → List ArrayId → List ArrayId → Prop
  | op {index : Nat} {op : Op} : f.body[index]? = some op →
      OnHost f regions placed (.hostOp index) (.hostOp index) op.reads op.writes
  | region {index : Nat} {region : Region} : regions[index]? = some region →
      placed[index]?.join = none →
      OnHost f regions placed (.region index) (.hostRegion index) region.reads region.writes

/-- The launch of a segment, if it is launched. -/
def Segment.plan? (placed : Placement.Launches) : Segment → Option LaunchPlan
  | .region index => placed[index]?.join
  | .hostOp _ => none

namespace Draft

/-- How a segment extends a draft, with the segments that follow it. -/
inductive Extends (f : Func) (regions : List Region) (placed : Placement.Launches) (draft : Draft)
    (rest : List Segment) : Segment → Draft → Prop
  | host {segment : Segment} {step : Step} {reads writes outs : List ArrayId} :
      segment.OnHost f regions placed step reads writes →
      draft.tracker.Refreshes (reads ++ writes) outs →
      Extends f regions placed draft rest segment ((outs.foldl copyOut draft).worked step writes)
  | launch {index : Nat} {region : Region} {plan : LaunchPlan} {ins outs : List ArrayId} :
      regions[index]? = some region → placed[index]?.join = some plan →
      draft.tracker.copyInSet? region = some ins →
      (region.writes.foldl Tracker.deviceWrite (ins.foldl Tracker.copyIn draft.tracker)).Refreshes
        (region.writes.filter fun id => hostTouchesFirst f regions placed id rest) outs →
      Extends f regions placed draft rest (.region index)
        (outs.foldl copyOut ((ins.foldl copyIn draft).launched region plan))

variable {f : Func} {regions : List Region} {placed : Placement.Launches}
  {draft next last : Draft} {segment : Segment} {rest segments : List Segment}

theorem hostStep?_cases {step : Step} {reads writes : List ArrayId}
    (honHost : segment.OnHost f regions placed step reads writes)
    (h : draft.hostStep? reads writes step = some next) :
    Extends f regions placed draft rest segment next := by
  rw [hostStep?_eq, Option.map_eq_some_iff] at h
  obtain ⟨fresh, hfresh, rfl⟩ := h
  obtain ⟨outs, hrefreshes, rfl⟩ := refresh?_ok hfresh
  exact .host honHost hrefreshes

theorem extend?_cases (h : draft.extend? f regions placed segment rest = some next) :
    Extends f regions placed draft rest segment next := by
  cases segment with
  | hostOp index =>
    simp only [extend?, Option.bind_eq_bind, Option.bind_eq_some_iff] at h
    obtain ⟨op, hop, h⟩ := h
    exact hostStep?_cases (.op hop) h
  | region index =>
    simp only [extend?, Option.bind_eq_bind, Option.bind_eq_some_iff] at h
    obtain ⟨region, hregion, h⟩ := h
    cases hplaced : placed[index]?.join with
    | none =>
      rw [hplaced] at h
      exact hostStep?_cases (.region hregion hplaced) h
    | some plan =>
      rw [hplaced] at h
      simp only [launchStep?, Option.bind_eq_bind, Option.bind_eq_some_iff] at h
      obtain ⟨ins, hins, h⟩ := h
      obtain ⟨outs, hrefreshes, rfl⟩ := refresh?_ok h
      rw [(foldl_copyIn ins draft).2.2] at hrefreshes
      exact .launch hregion hplaced hins hrefreshes

/-- Segments extend a draft one after the other. -/
inductive ExtendsAll (f : Func) (regions : List Region) (placed : Placement.Launches) :
    Draft → List Segment → Draft → Prop
  | nil (draft : Draft) : ExtendsAll f regions placed draft [] draft
  | cons {draft next last : Draft} {segment : Segment} {rest : List Segment} :
      Extends f regions placed draft rest segment next →
      ExtendsAll f regions placed next rest last →
      ExtendsAll f regions placed draft (segment :: rest) last

theorem extendAll_cases (h : draft.extendAll f regions placed segments = .ok last) :
    ExtendsAll f regions placed draft segments last := by
  induction segments generalizing draft with
  | nil =>
    cases h
    exact .nil _
  | cons segment rest ih =>
    rw [extendAll] at h
    cases hnext : draft.extend? f regions placed segment rest with
    | none =>
      rw [hnext] at h
      cases h
    | some next =>
      rw [hnext] at h
      exact .cons (extend?_cases hnext) (ih h)

/-- A segment adds the launch that is placed at it. -/
theorem Extends.launches (h : Extends f regions placed draft rest segment next) :
    next.launches = draft.launches ++ (segment.plan? placed).toList := by
  cases h with
  | @host _ _ _ _ outs honHost _ =>
    have hplan : segment.plan? placed = none := by
      cases honHost with
      | op => rfl
      | region _ hplaced => exact hplaced
    rw [hplan, Option.toList_none, List.append_nil]
    exact (foldl_copyOut outs draft).2.1
  | @launch _ region plan ins outs _ hplaced _ _ =>
    rw [(foldl_copyOut outs _).2.1, Segment.plan?, hplaced]
    exact congrArg (· ++ [plan]) (foldl_copyIn ins draft).2.1

theorem ExtendsAll.launches (h : ExtendsAll f regions placed draft segments last) :
    last.launches = draft.launches ++ segments.filterMap (Segment.plan? placed) := by
  induction h with
  | nil => exact (List.append_nil _).symm
  | @cons _ _ _ segment _ first _ ih =>
    rw [ih, first.launches, List.append_assoc, List.filterMap_cons]
    cases segment.plan? placed <;> rfl

end Draft

end ArrayOffload
