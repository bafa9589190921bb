import ArrayOffload.Region
import ArrayOffload.Proofs.Coercion
import ArrayOffload.Proofs.HostEffect

/-!
# Footprints of operations

The effect of an operation depends on few arrays and changes few arrays. A data-parallel operation
looks only at what it reads and replaces its target as a whole; stores, prints and calls look at
what they write as well.

* `Op.effect_congr`: memories that agree on `Op.needs` give an operation the same effect;
* `Op.mem_stores`: what is stored into is what is written;
* `Op.size_of_mem_stores`, `Op.settled_of_mem_stores`: stores keep arrays as they are declared.
-/

namespace ArrayOffload

/-- The arrays whose elements decide the effect of an operation. A data-parallel operation replaces
its target as a whole; any other operation keeps what it does not touch. -/
def Op.needs (op : Op) : List ArrayId :=
  if op.parallelKind?.isSome then op.reads else op.reads ++ op.writes

/-- The elements are values of an element type. -/
def Settled (elem : Elem) (cells : Cells) : Prop := ∀ v ∈ cells, elem.coerce v = v

theorem Settled.map_coerce {elem : Elem} {cells : Cells} (h : Settled elem cells) :
    cells.map elem.coerce = cells := by
  rw [Array.map_congr_left h]
  simp

theorem Elem.settled_map (elem : Elem) (cells : Cells) :
    Settled elem (cells.map elem.coerce) := by
  intro v hv
  obtain ⟨w, _, rfl⟩ := Array.mem_map.mp hv
  exact elem.coerce_coerce w

theorem Elem.settled_replicate (elem : Elem) (length : Nat) :
    Settled elem (Array.replicate length (Number.ofCode false 0)) := by
  intro v hv
  obtain ⟨_, rfl⟩ := Array.mem_replicate.mp hv
  exact elem.coerce_zero

theorem Settled.setIfInBounds {elem : Elem} {cells : Cells} (h : Settled elem cells) (i : Nat)
    {value : Float} (hv : elem.coerce value = value) :
    Settled elem (cells.setIfInBounds i value) := by
  intro v hmem
  rcases Array.mem_or_eq_of_mem_setIfInBounds hmem with hold | rfl
  · exact h v hold
  · exact hv

theorem Elem.settled_scan (elem : Elem) (op : FoldOp) (values : Cells) :
    Settled elem (Eval.scan op elem values) := by
  have general : ∀ (rest : List Float) (state : Float × Cells), Settled elem state.2 →
      Settled elem (rest.foldl (fun (state : Float × Cells) x =>
        let next := elem.coerce (op.combine state.1 x)
        (next, state.2.push next)) state).2 := by
    intro rest
    induction rest with
    | nil => exact fun state hs => hs
    | cons x rest ih =>
      intro state hs
      refine ih _ fun v hv => ?_
      rcases Array.mem_push.mp hv with hold | rfl
      · exact hs v hold
      · exact elem.coerce_coerce _
  rw [Eval.scan, ← Array.foldl_toList]
  exact general _ _ fun v hv => by simp at hv

namespace Op

variable {f : Func} {args : List ArrayValue} {shapes : List Shape} {table : HostTable}
  {read other : ArrayId → Cells}

theorem map_input_congr {operands : List Operand}
    (h : ∀ id, .array id ∈ operands → read id = other id) :
    operands.map (Operand.input read) = operands.map (Operand.input other) := by
  refine List.map_congr_left fun operand ho => ?_
  cases operand with
  | array id => simp [Operand.input, h id ho]
  | scalar constant => rfl

theorem result_congr {op : Op} (h : ∀ id ∈ op.reads, read id = other id) :
    op.result f shapes read = op.result f shapes other := by
  cases op with
  | map out op operands =>
    have hin : operands.map (Operand.input read) = operands.map (Operand.input other) :=
      map_input_congr fun id hid =>
        h id (mem_distinct.mpr (List.mem_filterMap.mpr ⟨_, hid, rfl⟩))
    simp only [result, hin]
  | reduce out op input => simp only [result, h input (by simp [reads])]
  | scan out op input => simp only [result, h input (by simp [reads])]
  | _ => rfl

/-- A data-parallel operation never stops, and all it does is replace its target. -/
theorem effect_parallel {op : Op} (h : op.parallelKind?.isSome = true) :
    op.effect f shapes table read =
      .ok ⟨op.writes.map fun out => (out, op.result f shapes read), [], []⟩ := by
  cases op with
  | map | reduce | scan => rfl
  | store | print | call => simp [parallelKind?] at h

/-- Memories that agree where an operation looks give it the same effect. -/
theorem effect_congr {op : Op} (h : ∀ id ∈ op.needs, read id = other id) :
    op.effect f shapes table read = op.effect f shapes table other := by
  by_cases hp : op.parallelKind?.isSome = true
  · rw [needs, if_pos hp] at h
    rw [effect_parallel hp, effect_parallel hp, result_congr h]
  · rw [needs, if_neg hp] at h
    cases op with
    | map | reduce | scan => simp [parallelKind?] at hp
    | store array index constant => simp only [effect, h array (by simp [reads])]
    | print arrays =>
      have hlines : arrays.map (lineOf f read) = arrays.map (lineOf f other) := by
        refine List.map_congr_left fun id hid => ?_
        rw [lineOf, lineOf, h id (List.mem_append_left _ (mem_distinct.mpr hid))]
      simp only [effect, hlines]
    | call callee ins outs =>
      have hins : ∀ id ∈ ins, read id = other id := fun id hid =>
        h id (List.mem_append_left _ (mem_distinct.mpr hid))
      have houts : ∀ id ∈ outs, read id = other id := fun id hid =>
        h id (List.mem_append_right _ (mem_distinct.mpr hid))
      have hnamed : ∀ ids : List ArrayId, (∀ id ∈ ids, read id = other id) →
          ids.map (fun id => NamedCells.mk (f.labelOf id) (read id)) =
            ids.map fun id => NamedCells.mk (f.labelOf id) (other id) := fun ids hids =>
        List.map_congr_left fun id hid => by rw [hids id hid]
      have hstores : ∀ reply, replyStores f read outs reply = replyStores f other outs reply :=
        fun reply => List.map_congr_left fun entry he => by
          obtain ⟨id, i⟩ := entry
          simp only [houts id (List.fst_mem_of_mem_zipIdx he)]
      simp only [effect, hnamed ins hins, hnamed outs houts, hstores]

theorem settled_result {op : Op} {out : ArrayId} (hw : op.writes = [out]) :
    Settled (f.elemOf out) (op.result f shapes read) := by
  cases op with
  | map target op operands =>
    cases hw
    intro v hv
    obtain ⟨i, rfl⟩ := Array.mem_ofFn.mp hv
    exact Elem.coerce_coerce _ _
  | reduce target op input =>
    cases hw
    intro v hv
    rw [Array.mem_singleton.mp hv]
    exact Elem.coerce_coerce _ _
  | scan target op input =>
    cases hw
    exact Elem.settled_scan _ _ _
  | store | print | call => exact fun v hv => by simp [result] at hv

/-- An operation stores into the arrays it writes, each of them. -/
theorem mem_stores {op : Op} {effect : Effect} (h : op.effect f shapes table read = .ok effect)
    {id : ArrayId} : id ∈ effect.stores.map (·.1) ↔ id ∈ op.writes := by
  cases op with
  | map | reduce | scan | store =>
    cases h
    simp [writes]
  | print arrays =>
    cases h
    simp [writes]
  | call callee ins outs =>
    simp only [Op.effect] at h
    split at h
    · cases h
    · split at h
      · cases h
      · cases h
        simp only [replyStores, List.map_map, writes, mem_distinct]
        rw [show ((fun entry : ArrayId × Cells => entry.1) ∘ _) = fun entry => entry.1 from rfl]
        simp

/-- Every store of an operation, said once: the new elements of the target of a data-parallel
operation, of a stored element's array, or of an output. -/
theorem mem_stores_cases {op : Op} {effect : Effect}
    (h : op.effect f shapes table read = .ok effect) {id : ArrayId} {cells : Cells}
    (hmem : (id, cells) ∈ effect.stores) :
    (op.parallelKind?.isSome = true ∧ op.writes = [id] ∧ cells = op.result f shapes read) ∨
    (∃ index value, cells = (read id).setIfInBounds index ((f.elemOf id).coerce value)) ∨
    (∃ new, cells = (patch (read id) new).map (f.elemOf id).coerce) := by
  cases op with
  | map | reduce | scan =>
    cases h
    simp only [List.mem_singleton, Prod.mk.injEq] at hmem
    obtain ⟨rfl, rfl⟩ := hmem
    exact .inl ⟨rfl, rfl, rfl⟩
  | store array index constant =>
    cases h
    simp only [List.mem_singleton, Prod.mk.injEq] at hmem
    obtain ⟨rfl, rfl⟩ := hmem
    exact .inr (.inl ⟨_, _, rfl⟩)
  | print arrays =>
    cases h
    simp at hmem
  | call callee ins outs =>
    simp only [Op.effect] at h
    split at h
    · cases h
    · split at h
      · cases h
      · cases h
        obtain ⟨⟨out, i⟩, _, heq⟩ := List.mem_map.mp hmem
        cases heq
        exact .inr (.inr ⟨_, rfl⟩)

/-- Stores keep the number of elements of an array. -/
theorem size_of_mem_stores (wf : f.Checked) (res : Shapes.Resolved f args table shapes)
    (sized : ∀ id, id < f.arrays.length → (read id).size = sizeAt shapes id) {op : Op}
    (hop : op ∈ f.body) {effect : Effect} (h : op.effect f shapes table read = .ok effect)
    {id : ArrayId} {cells : Cells} (hmem : (id, cells) ∈ effect.stores) :
    cells.size = sizeAt shapes id := by
  have hid : id < f.arrays.length := wf.mem_lt hop
    (List.mem_append_right _ ((mem_stores h).mp (List.mem_map.mpr ⟨_, hmem, rfl⟩)))
  rcases mem_stores_cases h hmem with ⟨hp, hw, rfl⟩ | ⟨_, _, rfl⟩ | ⟨_, rfl⟩
  · exact size_result wf res sized hop hp hw
  · simpa using sized id hid
  · simpa [patch] using sized id hid

/-- Stores keep an array settled. -/
theorem settled_of_mem_stores {op : Op} {effect : Effect}
    (h : op.effect f shapes table read = .ok effect) {id : ArrayId} {cells : Cells}
    (hmem : (id, cells) ∈ effect.stores) (before : Settled (f.elemOf id) (read id)) :
    Settled (f.elemOf id) cells := by
  rcases mem_stores_cases h hmem with ⟨_, hw, rfl⟩ | ⟨_, _, rfl⟩ | ⟨_, rfl⟩
  · exact settled_result hw
  · exact before.setIfInBounds _ (Elem.coerce_coerce _ _)
  · exact Elem.settled_map _ _

end Op

end ArrayOffload
