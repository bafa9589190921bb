import ArrayOffload.Proofs.Footprint

/-!
# Footprints on the host

What an operation names as read and written is what it looks at and changes when the host carries it
out. Arrays outside of its writes keep their elements. A data-parallel operation gives its target a
new element at every index, from what it reads alone. All other operations keep the elements that
they do not replace, so what they leave follows from what they read and write together.

* `Op.valueAt`, `Op.getElem?_result`: the new elements of a target, one by one;
* `Call.Unaliased`: no two arrays of a call name the same memory;
* `Call.Unaliased.cells?_apply`: the last elements stored into an array are the ones it has;
* `Call.hostOp_footprint`: operations on two memories that agree on the footprint.
-/

namespace ArrayOffload

/-! ## Elements of results -/

namespace Eval

variable (next : Float → Float → Float)

/-- What a scan has put down stays. -/
theorem getElem?_scan_done (rest : List Float) (state : Float × Cells) {index : Nat}
    (h : index < state.2.size) :
    (rest.foldl (fun (state : Float × Cells) x => (next state.1 x, state.2.push (next state.1 x)))
      state).2[index]? = state.2[index]? := by
  induction rest generalizing state with
  | nil => rfl
  | cons x rest ih =>
    rw [List.foldl_cons, ih _ (by rw [Array.size_push]; omega), Array.getElem?_push_lt h,
      Array.getElem?_eq_getElem h]

/-- Each element that a scan adds is the fold up to its place. -/
theorem getElem?_scan_added (rest : List Float) (state : Float × Cells) {index : Nat}
    (h : index < rest.length) :
    (rest.foldl (fun (state : Float × Cells) x => (next state.1 x, state.2.push (next state.1 x)))
      state).2[state.2.size + index]? = some ((rest.take (index + 1)).foldl next state.1) := by
  induction rest generalizing state index with
  | nil => exact absurd h (Nat.not_lt_zero index)
  | cons x rest ih =>
    rw [List.foldl_cons, List.take_succ_cons, List.foldl_cons]
    cases index with
    | zero =>
      rw [getElem?_scan_done next _ _ (by simp)]
      simp
    | succ index =>
      rw [List.length_cons] at h
      have hadded := ih (next state.1 x, state.2.push (next state.1 x)) (Nat.lt_of_succ_lt_succ h)
      rwa [Array.size_push, Nat.add_assoc, Nat.add_comm 1] at hadded

theorem getElem?_scan (op : FoldOp) (elem : Elem) (values : Cells) {index : Nat}
    (h : index < values.size) :
    (scan op elem values)[index]? = some ((values.toList.take (index + 1)).foldl
      (fun total x => elem.coerce (op.combine total x)) op.identity) := by
  have hadded := getElem?_scan_added (fun total x => elem.coerce (op.combine total x))
    values.toList (op.identity, #[]) (by simpa using h)
  rw [Array.foldl_toList] at hadded
  simpa [scan] using hadded

end Eval

namespace Op

variable {f : Func} {args : List ArrayValue} {shapes : List Shape} {table : HostTable}
  {read : ArrayId → Cells}

/-- The element that a data-parallel operation puts at an index of its target. A map looks at its
operands there, a scan at the elements up to there, a reduction at all elements. -/
def valueAt (f : Func) (read : ArrayId → Cells) (index : Nat) : Op → Float
  | .map out op operands =>
    let inputs := operands.map (Operand.input read)
    (f.elemOf out).coerce (op.apply (Eval.operandAt inputs 0 index) (Eval.operandAt inputs 1 index))
  | .reduce out op input =>
    (f.elemOf out).coerce ((read input).foldl op.combine op.identity)
  | .scan out op input =>
    ((read input).toList.take (index + 1)).foldl
      (fun total x => (f.elemOf out).coerce (op.combine total x)) op.identity
  | .store .. | .print _ | .call .. => Number.zero

theorem getElem?_result {op : Op} {index : Nat} (h : index < (op.result f shapes read).size) :
    (op.result f shapes read)[index]? = some (op.valueAt f read index) := by
  cases op with
  | map out op operands =>
    have hlt : index < sizeAt shapes out := by simpa [result, Eval.mapCells] using h
    simp [result, Eval.mapCells, valueAt, hlt]
  | reduce out op input =>
    have hzero : index = 0 := by simpa [result] using h
    subst hzero
    rfl
  | scan out op input =>
    rw [result, Eval.size_scan] at h
    exact Eval.getElem?_scan _ _ _ h
  | store | print | call => exact absurd h (Nat.not_lt_zero index)

/-- A data-parallel operation writes one array. -/
theorem writes_of_parallel {op : Op} (h : op.parallelKind?.isSome = true) :
    ∃ out, op.writes = [out] := by
  cases op with
  | map out | reduce out | scan out => exact ⟨out, rfl⟩
  | store | print | call => cases h

end Op

/-! ## Elements after an effect -/

/-- The elements that were stored into an array last, if any were. -/
def Effect.stored? : List (ArrayId × Cells) → ArrayId → Option Cells
  | [], _ => none
  | (target, cells) :: rest, id =>
    (stored? rest id).or (if id = target then some cells else none)

theorem Effect.stored?_eq_none {stores : List (ArrayId × Cells)} {id : ArrayId}
    (h : id ∉ stores.map (·.1)) : stored? stores id = none := by
  induction stores with
  | nil => rfl
  | cons entry rest ih =>
    simp only [List.map_cons, List.mem_cons, not_or] at h
    simp [stored?, ih h.2, h.1]

theorem Effect.exists_stored? {stores : List (ArrayId × Cells)} {id : ArrayId}
    (h : id ∈ stores.map (·.1)) : ∃ cells, stored? stores id = some cells := by
  induction stores with
  | nil => cases h
  | cons entry rest ih =>
    by_cases hrest : id ∈ rest.map (·.1)
    · obtain ⟨cells, hcells⟩ := ih hrest
      exact ⟨cells, by simp [stored?, hcells]⟩
    · have hentry : id = entry.1 := by
        rcases List.mem_cons.mp h with heq | hmem
        · exact heq
        · exact absurd hmem hrest
      subst hentry
      exact ⟨entry.2, by simp [stored?, stored?_eq_none hrest]⟩

namespace Call

/-- No two arrays name the same shared memory. -/
def Unaliased (call : Call) : Prop :=
  ∀ ⦃a b : ArrayId⦄ ⦃handle : Nat⦄, call.host[a]? = some (.shared handle) →
    call.host[b]? = some (.shared handle) → a = b

theorem shared_of_withCells {call : Call} {id other : ArrayId} {cells : Cells} {handle : Nat}
    (h : (call.withCells id cells).host[other]? = some (.shared handle)) :
    call.host[other]? = some (.shared handle) := by
  unfold withCells at h
  split at h
  · exact h
  · next old hold =>
    by_cases heq : id = other
    · subst heq
      simp [(List.getElem?_eq_some_iff.mp hold).1] at h
    · simpa [heq] using h
  · exact h

namespace Unaliased

variable {call : Call}

theorem withCells (apart : call.Unaliased) (id : ArrayId) (cells : Cells) :
    (call.withCells id cells).Unaliased := fun _ _ _ ha hb =>
  apart (shared_of_withCells ha) (shared_of_withCells hb)

/-- Without aliases, replacing the elements of one array leaves those of all others. -/
theorem cells?_withCells (apart : call.Unaliased) {id : ArrayId} {old : Cells}
    (held : call.cells? id = some old) (cells : Cells) (other : ArrayId) :
    (call.withCells id cells).cells? other =
      if other = id then some cells else call.cells? other := by
  cases hs : call.host[id]? with
  | none => simp [Call.cells?, hs] at held
  | some storage =>
    cases storage with
    | owned own => exact cells?_withCells_owned hs
    | shared handle =>
      rcases cells?_withCells_shared hs cells other with ⟨halias, hnew⟩ | ⟨hother, hsame⟩
      · rw [hnew, if_pos (apart halias hs)]
      · have hne : other ≠ id := fun heq => hother (heq ▸ hs)
        rw [hsame, if_neg hne]

theorem cells?_storeAll (apart : call.Unaliased) {stores : List (ArrayId × Cells)}
    (held : ∀ entry ∈ stores, ∃ old, call.cells? entry.1 = some old) (id : ArrayId) :
    (call.storeAll stores).cells? id = (Effect.stored? stores id).or (call.cells? id) := by
  induction stores generalizing call with
  | nil => rfl
  | cons entry rest ih =>
    obtain ⟨target, cells⟩ := entry
    obtain ⟨old, hold⟩ := held (target, cells) (by simp)
    have hrest : ∀ entry ∈ rest, ∃ old,
        (call.withCells target cells).cells? entry.1 = some old := by
      intro entry hentry
      rw [apart.cells?_withCells hold]
      split
      · exact ⟨cells, rfl⟩
      · exact held entry (by simp [hentry])
    calc ((call.withCells target cells).storeAll rest).cells? id
        = (Effect.stored? rest id).or ((call.withCells target cells).cells? id) :=
          ih (apart.withCells target cells) hrest
      _ = (Effect.stored? rest id).or
            ((if id = target then some cells else none).or (call.cells? id)) := by
          rw [apart.cells?_withCells hold]
          split <;> rfl
      _ = (Effect.stored? ((target, cells) :: rest) id).or (call.cells? id) := by
          rw [← Option.or_assoc, Effect.stored?]

/-- An array has the elements that an effect stores into it last, or else the ones it had. -/
theorem cells?_apply (apart : call.Unaliased) {effect : Effect}
    (held : ∀ entry ∈ effect.stores, ∃ old, call.cells? entry.1 = some old) (id : ArrayId) :
    (call.apply effect).cells? id = (Effect.stored? effect.stores id).or (call.cells? id) := by
  -- lines and notes are kept outside of the arrays
  have hsaid : ((call.note effect.notes).say effect.lines).Unaliased := apart
  exact hsaid.cells?_storeAll held id

end Unaliased

/-- Stores say nothing. -/
theorem output_storeAll (call : Call) (stores : List (ArrayId × Cells)) :
    (call.storeAll stores).printed = call.printed ∧
      (call.storeAll stores).machine.notes = call.machine.notes ∧
      (call.storeAll stores).machine.journal = call.machine.journal := by
  have withCells : ∀ (call : Call) (id : ArrayId) (cells : Cells),
      (call.withCells id cells).printed = call.printed ∧
        (call.withCells id cells).machine.notes = call.machine.notes ∧
        (call.withCells id cells).machine.journal = call.machine.journal := by
    intro call id cells
    unfold Call.withCells
    split <;> exact ⟨rfl, rfl, rfl⟩
  induction stores generalizing call with
  | nil => exact ⟨rfl, rfl, rfl⟩
  | cons entry rest ih =>
    obtain ⟨hprinted, hnotes, hjournal⟩ := ih (call.withCells entry.1 entry.2)
    obtain ⟨hprinted', hnotes', hjournal'⟩ := withCells call entry.1 entry.2
    exact ⟨hprinted.trans hprinted', hnotes.trans hnotes', hjournal.trans hjournal'⟩

/-- All that an effect says is its lines and notes. -/
theorem output_apply (call : Call) (effect : Effect) :
    (call.apply effect).printed = call.printed ++ effect.lines ∧
      (call.apply effect).machine.notes = call.machine.notes ++ effect.notes ∧
      (call.apply effect).machine.journal =
        call.machine.journal ++ effect.lines.map .printed :=
  output_storeAll _ effect.stores

/-- Work that ends in the same way in two calls, leaves the same elements in some arrays, and adds
the same lines to the output, to the error channel and to the log. -/
structure SameEffect (work : CallM Unit) (ids : List ArrayId) (call other : Call) : Prop where
  result : (exec work call).1 = (exec work other).1
  cells : ∀ id ∈ ids, (exec work call).2.cells? id = (exec work other).2.cells? id
  printed : ∃ lines, (exec work call).2.printed = call.printed ++ lines ∧
    (exec work other).2.printed = other.printed ++ lines
  notes : ∃ lines, (exec work call).2.machine.notes = call.machine.notes ++ lines ∧
    (exec work other).2.machine.notes = other.machine.notes ++ lines
  journal : ∃ events, (exec work call).2.machine.journal = call.machine.journal ++ events ∧
    (exec work other).2.machine.journal = other.machine.journal ++ events

section
variable {f : Func} {args : List ArrayValue} {shapes : List Shape} {table : HostTable}
  {call other : Call} {op : Op} {effect : Effect}

/-- What an operation stores into has elements before. -/
theorem Sized.held (wf : f.Checked) (sized : call.Sized f shapes) (hop : op ∈ f.body)
    {read : ArrayId → Cells} (h : op.effect f shapes table read = .ok effect) :
    ∀ entry ∈ effect.stores, ∃ old, call.cells? entry.1 = some old := by
  intro entry hentry
  have hwritten := (Op.mem_stores h).mp (List.mem_map.mpr ⟨entry, hentry, rfl⟩)
  exact ⟨_, sized.cells? (wf.mem_lt hop (List.mem_append_right _ hwritten))⟩

/-- An array that an operation does not write keeps its elements. -/
theorem cells?_hostOp_of_not_written (wf : f.Checked) (res : Shapes.Resolved f args table shapes)
    (hop : op ∈ f.body) (sized : call.Sized f shapes) (apart : call.Unaliased) {id : ArrayId}
    (hid : id ∉ op.writes) :
    (exec (hostOp f shapes table op) call).2.cells? id = call.cells? id := by
  rw [exec_hostOp wf res sized hop]
  cases heffect : op.effect f shapes table call.read with
  | error stop => rfl
  | ok effect =>
    have hnone := Effect.stored?_eq_none fun hmem => hid ((Op.mem_stores heffect).mp hmem)
    simp only [apart.cells?_apply (sized.held wf hop heffect), hnone, Option.none_or]

/-- A data-parallel operation succeeds and replaces every element of its target. -/
theorem cells?_hostOp_of_parallel (wf : f.Checked) (res : Shapes.Resolved f args table shapes)
    (hop : op ∈ f.body) (sized : call.Sized f shapes) (apart : call.Unaliased)
    (parallel : op.parallelKind?.isSome = true) {out : ArrayId} (hout : out ∈ op.writes) :
    (exec (hostOp f shapes table op) call).1 = .ok () ∧
      ∃ cells, (exec (hostOp f shapes table op) call).2.cells? out = some cells ∧
        cells.size = sizeAt shapes out ∧
        ∀ index < cells.size, cells[index]? = some (op.valueAt f call.read index) := by
  obtain ⟨target, hwrites⟩ := Op.writes_of_parallel parallel
  cases List.mem_singleton.mp (hwrites ▸ hout)
  have heffect : op.effect f shapes table call.read =
      .ok ⟨[(out, op.result f shapes call.read)], [], []⟩ := by
    rw [Op.effect_parallel parallel, hwrites]
    rfl
  rw [exec_hostOp wf res sized hop, heffect]
  refine ⟨rfl, op.result f shapes call.read, ?_, ?_, fun index h => Op.getElem?_result h⟩
  · simp [apart.cells?_apply (sized.held wf hop heffect), Effect.stored?]
  · exact Op.size_result wf res (fun _ => sized.size_read) hop parallel hwrites

/-- Two memories that agree where an operation looks see the same effect. -/
theorem sameEffect_hostOp (wf : f.Checked) (res : Shapes.Resolved f args table shapes)
    (hop : op ∈ f.body) (sized : call.Sized f shapes) (apart : call.Unaliased)
    (sized' : other.Sized f shapes) (apart' : other.Unaliased)
    (agree : ∀ id ∈ op.needs, call.cells? id = other.cells? id) :
    SameEffect (hostOp f shapes table op) op.writes call other := by
  have hsame : op.effect f shapes table call.read = op.effect f shapes table other.read :=
    Op.effect_congr fun id hid => by rw [read, read, agree id hid]
  have hrun := exec_hostOp wf res sized hop
  have hrun' := exec_hostOp wf res sized' hop
  rw [← hsame] at hrun'
  cases heffect : op.effect f shapes table call.read with
  | error stop =>
    rw [heffect] at hrun hrun'
    -- only operations that look at their targets stop
    have hneeds : op.needs = op.reads ++ op.writes := by
      refine if_neg fun parallel => ?_
      rw [Op.effect_parallel parallel] at heffect
      cases heffect
    constructor
    · rw [hrun, hrun']
    · intro id hid
      rw [hrun, hrun']
      exact agree id (hneeds ▸ List.mem_append_right _ hid)
    · exact ⟨[], by simp [hrun, hrun']⟩
    · exact ⟨[], by simp [hrun, hrun']⟩
    · exact ⟨[], by simp [hrun, hrun']⟩
  | ok effect =>
    have heffect' := hsame ▸ heffect
    rw [heffect] at hrun hrun'
    obtain ⟨hprinted, hnotes, hjournal⟩ := call.output_apply effect
    obtain ⟨hprinted', hnotes', hjournal'⟩ := other.output_apply effect
    constructor
    · rw [hrun, hrun']
    · intro id hid
      obtain ⟨cells, hcells⟩ := Effect.exists_stored? ((Op.mem_stores heffect).mpr hid)
      simp only [hrun, hrun', apart.cells?_apply (sized.held wf hop heffect),
        apart'.cells?_apply (sized'.held wf hop heffect'), hcells, Option.some_or]
    · exact ⟨effect.lines, by rw [hrun]; exact hprinted, by rw [hrun']; exact hprinted'⟩
    · exact ⟨effect.notes, by rw [hrun]; exact hnotes, by rw [hrun']; exact hnotes'⟩
    · exact ⟨_, by rw [hrun]; exact hjournal, by rw [hrun']; exact hjournal'⟩

end

/-- An operation of a built function changes no array but those it writes. A data-parallel operation
gives every element of its target a new value, which follows from the arrays it reads. Two memories
that agree on these arrays, and for all other operations on the written arrays too, get the same
new elements, the same lines and the same error. -/
theorem hostOp_footprint {f : Func} (built : f.Built) {args : List ArrayValue} {table : HostTable}
    {shapes : List Shape} (resolved : Shapes.resolve f args table = .ok shapes) {op : Op}
    (hop : op ∈ f.body) {call other : Call} (sized : call.Sized f shapes) (apart : call.Unaliased)
    (sized' : other.Sized f shapes) (apart' : other.Unaliased) :
    (∀ id, id ∉ op.writes →
      (exec (hostOp f shapes table op) call).2.cells? id = call.cells? id) ∧
    (op.parallelKind?.isSome = true → ∀ out ∈ op.writes,
      (exec (hostOp f shapes table op) call).1 = .ok () ∧
      ∃ cells, (exec (hostOp f shapes table op) call).2.cells? out = some cells ∧
        cells.size = sizeAt shapes out ∧
        ∀ index < cells.size, cells[index]? = some (op.valueAt f call.read index)) ∧
    (op.parallelKind?.isSome = true → (∀ id ∈ op.reads, call.cells? id = other.cells? id) →
      SameEffect (hostOp f shapes table op) op.writes call other) ∧
    ((∀ id ∈ op.reads ++ op.writes, call.cells? id = other.cells? id) →
      SameEffect (hostOp f shapes table op) op.writes call other) := by
  have wf := built.wellFormed.toChecked
  have res := Shapes.resolve_ok resolved
  have same := sameEffect_hostOp wf res hop sized apart sized' apart'
  refine ⟨fun id => cells?_hostOp_of_not_written wf res hop sized apart, fun parallel out =>
    cells?_hostOp_of_parallel wf res hop sized apart parallel, fun parallel agree => ?_,
    fun agree => ?_⟩
  · rw [Op.needs, if_pos parallel] at same
    exact same agree
  · refine same fun id hid => agree id ?_
    rw [Op.needs] at hid
    split at hid
    · exact List.mem_append_left _ hid
    · exact hid

/-! ## Two memories

A map in place, and a host function that is given both of its arrays twice. The two memories differ
in the third array, and in where they keep the others. -/

namespace Sample

def exchange : Func where
  name := "exchange"
  arrays := [⟨"a", .f64, 1, .param, .param 0⟩, ⟨"b", .f64, 1, .param, .param 1⟩,
    ⟨"s", .f64, 1, .like 0, .scratch⟩]
  params := [0, 1]
  body := [.map 0 .add [.array 0, .array 0], .call "mix" [0, 0] [1, 1], .print [1, 1]]
  returns := none
  serialOnly := false

theorem exchange_built : exchange.Built := by
  have params := ((Func.Building.empty "exchange").param "a" .f64 1).param "b" .f64 1
  have body := (((params.like "s" .f64 0).push (.map 0 .add [.array 0, .array 0])).push
    (.call "mix" [0, 0] [1, 1])).push (.print [1, 1])
  exact ⟨_, body, rfl⟩

def exchangeArgs : List ArrayValue := [.vector .f64 #[1.0, 2.0], .vector .f64 #[3.0, 4.0]]

def exchangeShapes : List Shape := [[2], [2], [2]]

/-- The first answer for `b` is replaced by the second. -/
def mixing : HostTable :=
  [("mix", fun request => .ok ⟨request.inputs.map (·.cells) ++ [#[7.0]], ["mixed"]⟩)]

def memory (host : List Storage) (pool : HandleTable Cells) : Call where
  machine := { device := { pool } }
  host := host
  buffers := [none, none, none]
  tracker := ⟨[], []⟩

def here : Call :=
  memory [.owned #[1.0, 2.0], .shared 1, .owned #[0.0, 0.0]] [(1, #[3.0, 4.0])]

def there : Call :=
  memory [.owned #[1.0, 2.0], .owned #[3.0, 4.0], .shared 7] [(7, #[5.0, 6.0])]

theorem here_sized : here.Sized exchange exchangeShapes := by
  intro id hid
  match id, hid with
  | 0, _ | 1, _ | 2, _ => exact ⟨_, rfl, rfl⟩

theorem there_sized : there.Sized exchange exchangeShapes := by
  intro id hid
  match id, hid with
  | 0, _ | 1, _ | 2, _ => exact ⟨_, rfl, rfl⟩

/-- One array in shared memory has no alias. -/
theorem unaliased_memory {host : List Storage} (shared : ArrayId) (pool : HandleTable Cells)
    (only : ∀ id handle, host[id]? = some (.shared handle) → id = shared) :
    (memory host pool).Unaliased := fun a b handle ha hb =>
  (only a handle ha).trans (only b handle hb).symm

theorem here_unaliased : here.Unaliased := by
  refine unaliased_memory 1 _ fun id handle h => ?_
  rcases id with _ | _ | _ | id <;> simp at h ⊢

theorem there_unaliased : there.Unaliased := by
  refine unaliased_memory 2 _ fun id handle h => ?_
  rcases id with _ | _ | _ | id <;> simp at h ⊢

end Sample

theorem hostOp_footprint_exchange : Sample.exchange.Built ∧
    Shapes.resolve Sample.exchange Sample.exchangeArgs Sample.mixing = .ok Sample.exchangeShapes ∧
    Sample.here.cells? 2 ≠ Sample.there.cells? 2 ∧
    SameEffect (hostOp Sample.exchange Sample.exchangeShapes Sample.mixing
      (.call "mix" [0, 0] [1, 1])) [1] Sample.here Sample.there ∧
    (exec (hostOp Sample.exchange Sample.exchangeShapes Sample.mixing
      (.map 0 .add [.array 0, .array 0])) Sample.here).2.cells? 1 = Sample.here.cells? 1 := by
  have resolved : Shapes.resolve Sample.exchange Sample.exchangeArgs Sample.mixing =
      .ok Sample.exchangeShapes := rfl
  have hmap : .map 0 .add [.array 0, .array 0] ∈ Sample.exchange.body := by decide
  have hcall : .call "mix" [0, 0] [1, 1] ∈ Sample.exchange.body := by decide
  obtain ⟨hframe, _⟩ := hostOp_footprint Sample.exchange_built resolved hmap Sample.here_sized
    Sample.here_unaliased Sample.there_sized Sample.there_unaliased
  obtain ⟨_, _, _, hsame⟩ := hostOp_footprint Sample.exchange_built resolved hcall
    Sample.here_sized Sample.here_unaliased Sample.there_sized Sample.there_unaliased
  refine ⟨Sample.exchange_built, resolved, by decide, hsame fun id hid => ?_, hframe 1 (by decide)⟩
  have hid : id ∈ [0, 1] := hid
  simp only [List.mem_cons, List.not_mem_nil, or_false] at hid
  rcases hid with rfl | rfl <;> rfl

end Call

end ArrayOffload
