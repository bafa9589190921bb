import ArrayOffload.Proofs.Coherence

/-!
# Operations on the host, beside the reference

Operations that the host of a call carries out end as they do over the memory of a coherent
reference. The arrays they write are current on the host afterwards and nowhere else.

* `Call.Coherent.apply`: one effect on both sides;
* `Call.Coherent.hostOps`: a list of operations on both sides.
-/

namespace ArrayOffload.Call

/-! ## What an effect leaves alone -/

theorem handle?_withCells (call : Call) (id : ArrayId) (cells : Cells) :
    (call.withCells id cells).host.map Storage.handle? = call.host.map Storage.handle? := by
  unfold withCells
  split
  · rfl
  · next old hs => exact handle?_setHost ⟨old, hs⟩ cells
  · rfl

theorem owns_withCells (call : Call) (id : ArrayId) (cells : Cells) (other : ArrayId) :
    (call.withCells id cells).Owns other ↔ call.Owns other := by
  have h := congrArg (·[other]?) (handle?_withCells call id cells)
  simp only [List.getElem?_map] at h
  rw [owns_iff_map, owns_iff_map, h]

theorem tracker_withCells (call : Call) (id : ArrayId) (cells : Cells) :
    (call.withCells id cells).tracker = call.tracker := by
  unfold withCells
  split <;> rfl

theorem tracker_storeAll (call : Call) (stores : List (ArrayId × Cells)) :
    (call.storeAll stores).tracker = call.tracker := by
  induction stores generalizing call with
  | nil => rfl
  | cons entry rest ih => exact (ih _).trans (tracker_withCells _ _ _)

theorem handle?_storeAll (call : Call) (stores : List (ArrayId × Cells)) :
    (call.storeAll stores).host.map Storage.handle? = call.host.map Storage.handle? := by
  induction stores generalizing call with
  | nil => rfl
  | cons entry rest ih => exact (ih _).trans (handle?_withCells _ _ _)

theorem handle?_apply (call : Call) (effect : Effect) :
    (call.apply effect).host.map Storage.handle? = call.host.map Storage.handle? :=
  handle?_storeAll _ _

theorem tracker_apply (call : Call) (effect : Effect) :
    (call.apply effect).tracker = call.tracker :=
  tracker_storeAll _ _

namespace Coherent

variable {f : Func} {args : List ArrayValue} {shapes : List Shape} {table : HostTable}
  {origin : Device} {onHost onDevice : ArrayId → Prop} {call : Call} {ref : Memory}

/-! ## One effect -/

theorem storeAll (co : Coherent f shapes origin onHost onDevice call ref)
    {stores : List (ArrayId × Cells)}
    (fits : ∀ entry ∈ stores, entry.1 < f.arrays.length ∧
      entry.2.size = sizeAt shapes entry.1 ∧
      (call.Owns entry.1 → Settled (f.elemOf entry.1) entry.2)) :
    Coherent f shapes origin (fun id => onHost id ∨ id ∈ stores.map (·.1))
      (fun id => onDevice id ∧ id ∉ stores.map (·.1)) (call.storeAll stores)
      (ref.writeAll stores) := by
  induction stores generalizing call ref onHost onDevice with
  | nil =>
    simpa [Call.storeAll, Memory.writeAll] using co
  | cons entry rest ih =>
    obtain ⟨hid, hsize, hsettled⟩ := fits entry (by simp)
    have next := ih (co.hostWrite hid hsize hsettled) fun other ho => by
      rw [owns_withCells]
      exact fits other (by simp [ho])
    refine next.weaken (fun id _ h => ?_) fun id _ h => ?_
    · simp only [List.map_cons, List.mem_cons] at h
      exact or_assoc.mpr h
    · simp only [List.map_cons, List.mem_cons, not_or] at h
      exact and_assoc.mpr h

theorem say (co : Coherent f shapes origin onHost onDevice call ref) (lines : List String) :
    Coherent f shapes origin onHost onDevice (call.say lines) (ref.say lines) where
  intact := co.intact.of_sameMemory ⟨rfl, rfl, rfl, rfl, rfl, rfl, rfl, rfl⟩
  kinds := co.kinds
  pool := co.pool
  settled := co.settled
  host := co.host
  device := co.device
  printed := by simp only [Call.say, Memory.say, co.printed]

/-- An effect of an operation, on both sides. -/
theorem apply (co : Coherent f shapes origin onHost onDevice call ref) (wf : f.Checked)
    (res : Shapes.Resolved f args table shapes) {op : Op} (hop : op ∈ f.body) {effect : Effect}
    (heffect : op.effect f shapes table ref.read = .ok effect) :
    Coherent f shapes origin (fun id => onHost id ∨ id ∈ op.writes)
      (fun id => onDevice id ∧ id ∉ op.writes) (call.apply effect) (ref.apply effect) := by
  have fits : ∀ entry ∈ effect.stores, entry.1 < f.arrays.length ∧
      entry.2.size = sizeAt shapes entry.1 ∧
      (call.Owns entry.1 → Settled (f.elemOf entry.1) entry.2) := by
    rintro ⟨id, cells⟩ hmem
    have hwrites := (Op.mem_stores heffect).mp (List.mem_map.mpr ⟨_, hmem, rfl⟩)
    refine ⟨wf.mem_lt hop (List.mem_append_right _ hwrites), ?_, fun howns => ?_⟩
    · exact Op.size_of_mem_stores wf res (fun _ => co.size_read) hop heffect hmem
    · exact Op.settled_of_mem_stores heffect hmem (co.settled_read howns)
  -- the reference has no error channel
  have noted : Coherent f shapes origin onHost onDevice (call.note effect.notes) ref :=
    co.of_sameMemory ⟨rfl, rfl, rfl, rfl, rfl, rfl, rfl, rfl⟩ rfl
  have stored := (noted.say effect.lines).storeAll fits
  refine stored.weaken (fun id _ h => ?_) fun id _ h => ?_
  · rwa [Op.mem_stores heffect]
  · rwa [Op.mem_stores heffect]

/-! ## A list of operations -/

/-- Where the operations find what they need, they do what they do in the reference. A stop leaves
shared memory the same on both sides. -/
theorem hostOps (wf : f.Checked) (res : Shapes.Resolved f args table shapes)
    {ops : List Op} (hops : ∀ op ∈ ops, op ∈ f.body)
    (co : Coherent f shapes origin onHost onDevice call ref)
    (needs : ∀ op ∈ ops, ∀ id ∈ op.needs, onHost id) :
    match exec (ops.forM (hostOp f shapes table)) call with
    | (.ok _, after) => ∃ ref', ref.evaluate f shapes table ops = (.ok (), ref') ∧
        after.tracker = call.tracker ∧
        after.host.map Storage.handle? = call.host.map Storage.handle? ∧
        Coherent f shapes origin (fun id => onHost id ∨ ∃ op ∈ ops, id ∈ op.writes)
          (fun id => onDevice id ∧ ∀ op ∈ ops, id ∉ op.writes) after ref'
    | (.error stop, after) => ∃ ref', ref.evaluate f shapes table ops = (.error stop, ref') ∧
        after.machine.device.pool = ref'.pool := by
  induction ops generalizing call ref onHost onDevice with
  | nil =>
    refine ⟨ref, rfl, rfl, rfl, ?_⟩
    simpa using co
  | cons op rest ih =>
    have hop := hops op (by simp)
    have hread : ∀ id ∈ op.needs, call.read id = ref.read id := fun id hid =>
      co.read_eq (needs op (by simp) id hid)
    -- both sides carry out one effect, since it depends on `needs` only
    rw [exec_forM_cons, exec_hostOp wf res co.intact.sized hop, Op.effect_congr hread,
      Memory.evaluate]
    cases heffect : op.effect f shapes table ref.read with
    | error stop => exact ⟨ref, rfl, co.pool⟩
    | ok effect =>
      have next := co.apply wf res hop heffect
      have tail := ih (fun other ho => hops other (by simp [ho])) next fun other ho id hid =>
        .inl (needs other (by simp [ho]) id hid)
      simp only
      split at tail
      · obtain ⟨ref', href, htracker, hkinds, hco⟩ := tail
        refine ⟨ref', href, htracker.trans (tracker_apply _ _), hkinds.trans (handle?_apply _ _),
          hco.weaken ?_ ?_⟩
        · rintro id _ (h | ⟨other, ho, h⟩)
          · exact .inl (.inl h)
          · rcases List.mem_cons.mp ho with rfl | ho
            · exact .inl (.inr h)
            · exact .inr ⟨other, ho, h⟩
        · rintro id _ ⟨h, hnone⟩
          exact ⟨⟨h, hnone op (by simp)⟩, fun other ho => hnone other (by simp [ho])⟩
      · exact tail

end Coherent

end ArrayOffload.Call
