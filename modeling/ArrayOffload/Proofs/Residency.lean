import ArrayOffload.Residency.Tracker
import ArrayOffload.Proofs.Exec

/-!
# Valid copies

Which copies a tracker calls valid, and how each transition changes that. A transfer only adds a
valid copy; a write leaves one valid copy of an array that is not shared, the copy it wrote.

* `Tracker.Valid`: the copy of an array at a location is current;
* `Tracker.valid_device_of_copyIn`, `Tracker.valid_host_of_copyOut`, `Tracker.valid_hostWrites`,
  `Tracker.valid_deviceWrites`: what can be valid after a transition;
* `Tracker.checkReadable_eq_ok_iff`: reads are in order exactly where copies are valid.
-/

namespace ArrayOffload.Tracker

/-- The copy of an array at a location is current. -/
def Valid (tracker : Tracker) (location : Location) (id : ArrayId) : Prop :=
  ∃ state, tracker.state? id = some state ∧ state.validOn location = true

/-- There is a state for each array and each array has its own. -/
structure Covers (tracker : Tracker) (count : Nat) : Prop where
  bindings : tracker.bindings.length = count
  states : tracker.states.length = count

variable {tracker : Tracker} {id other : ArrayId}

theorem state?_withState (tracker : Tracker) (id other : ArrayId) (state : Residency) :
    (tracker.withState id state).state? other =
      if other = id then (tracker.state? id).map fun _ => state else tracker.state? other := by
  simp only [state?, withState, List.getElem?_set]
  by_cases ho : other = id
  · subst ho
    simp only [if_true]
    by_cases hlt : other < tracker.states.length
    · simp [hlt]
    · simp [hlt]
  · rw [if_neg (Ne.symm ho), if_neg ho]

/-- At the start, every array is bound and valid where its memory is. -/
theorem start?_ok {f : Func} {signature : Signature} (h : start? f signature = some tracker) :
    tracker.Covers f.arrays.length ∧
      ∀ {id : ArrayId} {decl : ArrayDecl}, f.decl? id = some decl →
        ∃ binding, tracker.bindings[id]? = some binding ∧
          bindingOf? f signature id decl = some binding ∧
          tracker.state? id = some binding.allocator.initial := by
  simp only [start?, Option.map_eq_some_iff] at h
  obtain ⟨bindings, hbindings, rfl⟩ := h
  have hall := mapM_some hbindings
  have hlength : bindings.length = f.arrays.length := by
    simpa using length_of_map_some hall
  refine ⟨⟨hlength, by simpa using hlength⟩, fun {id decl} hdecl => ?_⟩
  have hzip : f.arrays.zipIdx[id]? = some (decl, id) := by
    have : f.arrays[id]? = some decl := hdecl
    simp [this]
  obtain ⟨binding, hbinding, hof⟩ := get?_of_map_some hall hzip
  exact ⟨binding, hbinding, hof, by simp [state?, hbinding]⟩

theorem bindingOf?_array {f : Func} {signature : Signature} {decl : ArrayDecl} {binding : Binding}
    (h : bindingOf? f signature id decl = some binding) :
    binding.array = id ∧ binding.name = decl.name ∧ binding.escapes = f.escapes id decl := by
  unfold bindingOf? at h
  split at h
  · obtain ⟨_, _, rfl⟩ := Option.map_eq_some_iff.mp h
    exact ⟨rfl, rfl, rfl⟩
  · cases h
    exact ⟨rfl, rfl, rfl⟩

/-- The bindings of a tracker name declared arrays. -/
theorem array_lt {f : Func} {signature : Signature} (h : start? f signature = some tracker)
    {binding : Binding} (hb : binding ∈ tracker.bindings) : binding.array < f.arrays.length := by
  obtain ⟨covers, hbindings⟩ := start?_ok h
  obtain ⟨i, hi⟩ := List.getElem?_of_mem hb
  have hlt : i < f.arrays.length := covers.bindings ▸ (List.getElem?_eq_some_iff.mp hi).1
  obtain ⟨found, hfound, hof, _⟩ := hbindings (List.getElem?_eq_getElem hlt)
  rw [hi, Option.some.injEq] at hfound
  rw [hfound, (bindingOf?_array hof).1]
  exact hlt

/-! ## What transitions leave alone -/

/-- A transition of single arrays: at most the state of its array changes. -/
def Local (step : Tracker → ArrayId → Tracker) : Prop :=
  ∀ tracker id, step tracker id = tracker ∨ ∃ state, step tracker id = tracker.withState id state

theorem local_copyIn : Local copyIn := by
  intro tracker id
  unfold copyIn
  split
  · exact .inr ⟨_, rfl⟩
  · exact .inl rfl

theorem local_copyOut : Local copyOut := by
  intro tracker id
  unfold copyOut
  split
  · exact .inr ⟨_, rfl⟩
  · exact .inl rfl

theorem local_hostWrite : Local hostWrite := by
  intro tracker id
  unfold hostWrite
  split
  · exact .inr ⟨_, rfl⟩
  · exact .inl rfl

theorem local_deviceWrite : Local deviceWrite := by
  intro tracker id
  unfold deviceWrite
  split
  · exact .inr ⟨_, rfl⟩
  · exact .inl rfl

theorem isCopied_congr {a b : Tracker} (h : a.bindings = b.bindings) :
    a.isCopied = b.isCopied := by
  funext id
  simp only [isCopied, h]

namespace Local

variable {step : Tracker → ArrayId → Tracker}

theorem bindings (h : Local step) (tracker : Tracker) (id : ArrayId) :
    (step tracker id).bindings = tracker.bindings := by
  rcases h tracker id with heq | ⟨state, heq⟩ <;> rw [heq]
  rfl

theorem bindings_foldl (h : Local step) (ids : List ArrayId) (tracker : Tracker) :
    (ids.foldl step tracker).bindings = tracker.bindings := by
  induction ids generalizing tracker with
  | nil => rfl
  | cons id rest ih => rw [List.foldl_cons, ih, h.bindings]

theorem covers (h : Local step) {count : Nat} (hc : tracker.Covers count) (id : ArrayId) :
    (step tracker id).Covers count := by
  rcases h tracker id with heq | ⟨state, heq⟩ <;> rw [heq]
  · exact hc
  · exact ⟨hc.bindings, by simpa [withState] using hc.states⟩

theorem covers_foldl (h : Local step) {count : Nat} (ids : List ArrayId)
    (hc : tracker.Covers count) : (ids.foldl step tracker).Covers count := by
  induction ids generalizing tracker with
  | nil => exact hc
  | cons id rest ih => exact ih (h.covers hc id)

end Local

/-! ## Checks -/

theorem checkReadable_eq_ok_iff {count : Nat} (h : tracker.Covers count) (hid : id < count)
    {location : Location} :
    tracker.checkReadable id location = .ok () ↔ tracker.Valid location id := by
  have hb : id < tracker.bindings.length := h.bindings ▸ hid
  have hs : id < tracker.states.length := h.states ▸ hid
  simp only [checkReadable, Valid, state?, List.getElem?_eq_getElem hb,
    List.getElem?_eq_getElem hs, Option.some.injEq, exists_eq_left']
  by_cases hv : (tracker.states[id]).validOn location = true <;> simp [hv]

/-- A read that is not in order is reported with the array's name and state. -/
theorem checkReadable_eq_error {count : Nat} (h : tracker.Covers count) (hid : id < count)
    {location : Location} {stop : Stop OffloadError}
    (herror : tracker.checkReadable id location = .error stop) :
    ∃ name state, stop = .error (.residency name location state) := by
  have hb : id < tracker.bindings.length := h.bindings ▸ hid
  have hs : id < tracker.states.length := h.states ▸ hid
  simp only [checkReadable, state?, List.getElem?_eq_getElem hb,
    List.getElem?_eq_getElem hs] at herror
  split at herror
  · cases herror
  · cases herror
    exact ⟨_, _, rfl⟩

/-! ## Transitions -/

theorem valid_withState {state : Residency} {location : Location}
    (h : (tracker.withState id state).Valid location other) :
    (other = id ∧ state.validOn location = true) ∨
      (other ≠ id ∧ tracker.Valid location other) := by
  obtain ⟨found, hs, hv⟩ := h
  rw [state?_withState] at hs
  split at hs
  · next heq =>
    obtain ⟨_, _, rfl⟩ := Option.map_eq_some_iff.mp hs
    exact .inl ⟨heq, hv⟩
  · next hne => exact .inr ⟨hne, found, hs, hv⟩

theorem valid_host_of_copyIn (h : (tracker.copyIn id).Valid .host other) :
    tracker.Valid .host other := by
  unfold copyIn at h
  split at h
  · next hstate =>
    rcases valid_withState h with ⟨rfl, _⟩ | ⟨_, hbefore⟩
    · exact ⟨.hostValid, hstate, rfl⟩
    · exact hbefore
  · exact h

theorem valid_device_of_copyIn (h : (tracker.copyIn id).Valid .device other) :
    tracker.Valid .device other ∨ other = id := by
  unfold copyIn at h
  split at h
  · rcases valid_withState h with ⟨heq, _⟩ | ⟨_, hbefore⟩
    · exact .inr heq
    · exact .inl hbefore
  · exact .inl h

theorem valid_device_of_copyOut (h : (tracker.copyOut id).Valid .device other) :
    tracker.Valid .device other := by
  unfold copyOut at h
  split at h
  · next hstate =>
    rcases valid_withState h with ⟨rfl, _⟩ | ⟨_, hbefore⟩
    · exact ⟨.deviceValid, hstate, rfl⟩
    · exact hbefore
  · exact h

theorem valid_host_of_copyOut (h : (tracker.copyOut id).Valid .host other) :
    tracker.Valid .host other ∨ other = id := by
  unfold copyOut at h
  split at h
  · rcases valid_withState h with ⟨heq, _⟩ | ⟨_, hbefore⟩
    · exact .inr heq
    · exact .inl hbefore
  · exact .inl h

theorem valid_hostWrite {location : Location} (hcopied : tracker.isCopied other = true)
    (h : (tracker.hostWrite id).Valid location other) :
    (other = id ∧ location = .host) ∨ (other ≠ id ∧ tracker.Valid location other) := by
  unfold hostWrite at h
  split at h
  · rcases valid_withState h with ⟨heq, hv⟩ | hbefore
    · cases location with
      | host => exact .inl ⟨heq, rfl⟩
      | device => cases hv
    · exact .inr hbefore
  · next hshared =>
    refine .inr ⟨?_, h⟩
    rintro rfl
    exact hshared hcopied

theorem valid_deviceWrite {location : Location} (hcopied : tracker.isCopied other = true)
    (h : (tracker.deviceWrite id).Valid location other) :
    (other = id ∧ location = .device) ∨ (other ≠ id ∧ tracker.Valid location other) := by
  unfold deviceWrite at h
  split at h
  · rcases valid_withState h with ⟨heq, hv⟩ | hbefore
    · cases location with
      | host => cases hv
      | device => exact .inl ⟨heq, rfl⟩
    · exact .inr hbefore
  · next hshared =>
    refine .inr ⟨?_, h⟩
    rintro rfl
    exact hshared hcopied

/-- After writes at one location, a copied array is valid there if it was or was written, and valid
elsewhere only if it was and was not written. -/
theorem valid_writes {write : Tracker → ArrayId → Tracker} {here : Location} (hlocal : Local write)
    (single : ∀ {tracker : Tracker} {id other : ArrayId} {location : Location},
      tracker.isCopied other = true → (write tracker id).Valid location other →
      (other = id ∧ location = here) ∨ (other ≠ id ∧ tracker.Valid location other))
    {ids : List ArrayId} (hcopied : tracker.isCopied other = true) {location : Location}
    (h : (ids.foldl write tracker).Valid location other) :
    (other ∈ ids ∧ location = here) ∨ (other ∉ ids ∧ tracker.Valid location other) := by
  induction ids generalizing tracker with
  | nil => exact .inr ⟨by simp, h⟩
  | cons id rest ih =>
    rw [List.foldl_cons] at h
    have hsame : (write tracker id).isCopied other = true := by
      rw [isCopied_congr (hlocal.bindings tracker id), hcopied]
    rcases ih hsame h with ⟨hmem, hloc⟩ | ⟨hnot, hvalid⟩
    · exact .inl ⟨List.mem_cons_of_mem _ hmem, hloc⟩
    · rcases single hcopied hvalid with ⟨rfl, hloc⟩ | ⟨hne, hbefore⟩
      · exact .inl ⟨List.mem_cons_self, hloc⟩
      · exact .inr ⟨by simp [hne, hnot], hbefore⟩

theorem valid_hostWrites {ids : List ArrayId} (hcopied : tracker.isCopied other = true)
    {location : Location} (h : (ids.foldl hostWrite tracker).Valid location other) :
    (other ∈ ids ∧ location = .host) ∨ (other ∉ ids ∧ tracker.Valid location other) :=
  valid_writes local_hostWrite valid_hostWrite hcopied h

theorem valid_deviceWrites {ids : List ArrayId} (hcopied : tracker.isCopied other = true)
    {location : Location} (h : (ids.foldl deviceWrite tracker).Valid location other) :
    (other ∈ ids ∧ location = .device) ∨ (other ∉ ids ∧ tracker.Valid location other) :=
  valid_writes local_deviceWrite valid_deviceWrite hcopied h

/-! ## What stays valid -/

theorem Valid.lt {count : Nat} {location : Location} (h : tracker.Valid location id)
    (hc : tracker.Covers count) : id < count := by
  obtain ⟨state, hs, _⟩ := h
  rw [← hc.states]
  exact (List.getElem?_eq_some_iff.mp hs).1

/-- A copy stays valid when the state of some array comes to be valid wherever it was. -/
theorem Valid.withState {location : Location} (h : tracker.Valid location other)
    {before after : Residency} (hbefore : tracker.state? id = some before)
    (hmore : before.validOn location = true → after.validOn location = true) :
    (tracker.withState id after).Valid location other := by
  obtain ⟨state, hs, hv⟩ := h
  by_cases ho : other = id
  · subst ho
    rw [hs, Option.some.injEq] at hbefore
    subst hbefore
    exact ⟨after, by simp [state?_withState, hs], hmore hv⟩
  · exact ⟨state, by simp [state?_withState, ho, hs], hv⟩

theorem Valid.copyIn {location : Location} (h : tracker.Valid location other) (id : ArrayId) :
    (tracker.copyIn id).Valid location other := by
  unfold Tracker.copyIn
  split
  · next hstate => exact h.withState hstate fun _ => by cases location <;> rfl
  · exact h

theorem Valid.copyOut {location : Location} (h : tracker.Valid location other) (id : ArrayId) :
    (tracker.copyOut id).Valid location other := by
  unfold Tracker.copyOut
  split
  · next hstate => exact h.withState hstate fun _ => by cases location <;> rfl
  · exact h

/-- What the host has, the device has after a copy in. -/
theorem valid_copyIn_self (h : tracker.Valid .host id) : (tracker.copyIn id).Valid .device id := by
  obtain ⟨state, hs, hv⟩ := h
  unfold copyIn
  split
  · exact ⟨.bothValid, by simp [state?_withState, hs], rfl⟩
  · next hne =>
    refine ⟨state, hs, ?_⟩
    cases state with
    | hostValid => exact absurd hs hne
    | deviceValid => cases hv
    | bothValid | sharedAlwaysValid => rfl

/-- What the device has, the host has after a copy out. -/
theorem valid_copyOut_self (h : tracker.Valid .device id) :
    (tracker.copyOut id).Valid .host id := by
  obtain ⟨state, hs, hv⟩ := h
  unfold copyOut
  split
  · exact ⟨.bothValid, by simp [state?_withState, hs], rfl⟩
  · next hne =>
    refine ⟨state, hs, ?_⟩
    cases state with
    | deviceValid => exact absurd hs hne
    | hostValid => cases hv
    | bothValid | sharedAlwaysValid => rfl

/-! ## Shared arrays -/

/-- An array that is not copied is valid everywhere. -/
def Steady (tracker : Tracker) : Prop :=
  ∀ id state, tracker.state? id = some state → tracker.isCopied id = false →
    state = .sharedAlwaysValid

theorem Steady.withState (h : tracker.Steady) (hid : tracker.isCopied id = true)
    (state : Residency) : (tracker.withState id state).Steady := by
  intro other found hs hcopied
  have hsame : (tracker.withState id state).isCopied other = tracker.isCopied other :=
    congrFun (isCopied_congr rfl) other
  rw [hsame] at hcopied
  rw [state?_withState] at hs
  split at hs
  · next heq =>
    rw [heq, hid] at hcopied
    cases hcopied
  · exact h other found hs hcopied

theorem Steady.isCopied (h : tracker.Steady) {state : Residency}
    (hs : tracker.state? id = some state) (hne : state ≠ .sharedAlwaysValid) :
    tracker.isCopied id = true := by
  cases hc : tracker.isCopied id with
  | true => rfl
  | false => exact absurd (h id state hs hc) hne

theorem Steady.copyIn (h : tracker.Steady) (id : ArrayId) : (tracker.copyIn id).Steady := by
  unfold Tracker.copyIn
  split
  · next hstate => exact h.withState (h.isCopied hstate (by simp)) _
  · exact h

theorem Steady.copyOut (h : tracker.Steady) (id : ArrayId) : (tracker.copyOut id).Steady := by
  unfold Tracker.copyOut
  split
  · next hstate => exact h.withState (h.isCopied hstate (by simp)) _
  · exact h

theorem Steady.hostWrite (h : tracker.Steady) (id : ArrayId) : (tracker.hostWrite id).Steady := by
  unfold Tracker.hostWrite
  split
  · next hcopied => exact h.withState hcopied _
  · exact h

theorem Steady.deviceWrite (h : tracker.Steady) (id : ArrayId) :
    (tracker.deviceWrite id).Steady := by
  unfold Tracker.deviceWrite
  split
  · next hcopied => exact h.withState hcopied _
  · exact h

theorem Steady.foldl {step : Tracker → ArrayId → Tracker}
    (keeps : ∀ {tracker : Tracker}, tracker.Steady → ∀ id, (step tracker id).Steady)
    (ids : List ArrayId) (h : tracker.Steady) : (ids.foldl step tracker).Steady := by
  induction ids generalizing tracker with
  | nil => exact h
  | cons id rest ih => exact ih (keeps h id)

theorem Steady.start {f : Func} {signature : Signature} (h : start? f signature = some tracker) :
    tracker.Steady := by
  obtain ⟨covers, hbindings⟩ := start?_ok h
  intro id state hs hcopied
  have hlt : id < f.arrays.length := by
    rw [← covers.states]
    exact (List.getElem?_eq_some_iff.mp hs).1
  have hdecl : f.decl? id = some f.arrays[id] := List.getElem?_eq_getElem hlt
  obtain ⟨binding, hbinding, _, hstate⟩ := hbindings hdecl
  rw [hs, Option.some.injEq] at hstate
  rw [hstate]
  cases ha : binding.allocator with
  | copied => simp [Tracker.isCopied, hbinding, ha] at hcopied
  | shared => rfl

/-! ## Stale copies -/

theorem stale_host {state : Residency} (h : state.validOn .host = false) :
    state = .deviceValid := by
  cases state with
  | deviceValid => rfl
  | hostValid | bothValid | sharedAlwaysValid => cases h

theorem stale_device {state : Residency} (h : state.validOn .device = false) :
    state = .hostValid := by
  cases state with
  | hostValid => rfl
  | deviceValid | bothValid | sharedAlwaysValid => cases h

theorem needsCopyOut?_true (h : tracker.needsCopyOut? id = some true) :
    tracker.isCopied id = true ∧ tracker.state? id = some .deviceValid := by
  simp only [needsCopyOut?, Option.map_eq_some_iff, Bool.and_eq_true, Bool.not_eq_true'] at h
  obtain ⟨state, hs, hcopied, hv⟩ := h
  exact ⟨hcopied, stale_host hv ▸ hs⟩

theorem Steady.valid_of_needsCopyOut?_false (hsteady : tracker.Steady)
    (h : tracker.needsCopyOut? id = some false) : tracker.Valid .host id := by
  simp only [needsCopyOut?, Option.map_eq_some_iff, Bool.and_eq_false_iff,
    Bool.not_eq_false'] at h
  obtain ⟨state, hs, hcopied | hv⟩ := h
  · exact ⟨state, hs, by rw [hsteady id state hs hcopied]; rfl⟩
  · exact ⟨state, hs, hv⟩

/-- The arrays to copy in are on the host only; all other arrays of the region are on the device. -/
theorem copyInSet?_ok {region : Region} {ids : List ArrayId}
    (h : tracker.copyInSet? region = some ids) :
    (∀ id ∈ ids, tracker.state? id = some .hostValid) ∧
      ∀ use ∈ region.uses, use.array ∈ ids ∨ tracker.Valid .device use.array := by
  simp only [copyInSet?, Option.map_eq_some_iff] at h
  obtain ⟨found, hfound, rfl⟩ := h
  have hall := mapM_some hfound
  constructor
  · intro id hid
    simp only [List.mem_map, List.mem_filter, Bool.not_eq_true'] at hid
    obtain ⟨entry, ⟨hentry, hstale⟩, rfl⟩ := hid
    obtain ⟨i, hi⟩ := List.getElem?_of_mem hentry
    obtain ⟨use, _, huse⟩ := get?_of_map_some' hall hi
    obtain ⟨state, hs, rfl⟩ := Option.map_eq_some_iff.mp huse
    exact stale_device hstale ▸ hs
  · intro use huse
    obtain ⟨i, hi⟩ := List.getElem?_of_mem huse
    obtain ⟨entry, hentry, hof⟩ := get?_of_map_some hall hi
    obtain ⟨state, hs, rfl⟩ := Option.map_eq_some_iff.mp hof
    cases hv : state.validOn .device with
    | true => exact .inr ⟨state, hs, hv⟩
    | false =>
      refine .inl (List.mem_map.mpr ⟨_, List.mem_filter.mpr ⟨List.mem_of_getElem? hentry, ?_⟩, rfl⟩)
      simp [hv]

end ArrayOffload.Tracker
