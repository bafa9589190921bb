import ArrayOffload.Call.HostOp
import ArrayOffload.Region
import ArrayOffload.Proofs.CallState
import ArrayOffload.Proofs.Shapes

/-!
# What an operation does on the host

The effect of an operation is a function of the elements it finds: new elements for some arrays,
printed lines and notes, or the error of a host function. `Call.exec_hostOp` says that carrying out
an operation of a checked function applies exactly this effect and nothing else.

* `Op.effect`: the effect, from the elements of the arrays;
* `Call.apply`: a call after an effect;
* `Call.exec_hostOp`: the two together.
-/

namespace ArrayOffload

namespace Func

/-- The element type an array is declared with. -/
def elemOf (f : Func) (id : ArrayId) : Elem := ((f.decl? id).map (·.elem)).getD .f64

theorem elemOf_eq {f : Func} {id : ArrayId} {decl : ArrayDecl} (h : f.decl? id = some decl) :
    f.elemOf id = decl.elem := by
  simp [elemOf, h]

/-- The name an array is declared with. -/
def labelOf (f : Func) (id : ArrayId) : String := (f.nameOf? id).getD ""

theorem labelOf_eq {f : Func} {id : ArrayId} {decl : ArrayDecl} (h : f.decl? id = some decl) :
    f.labelOf id = decl.name := by
  simp [labelOf, nameOf?, h]

end Func

/-- Arrays that get new elements, one after the other, and lines for the outside. -/
structure Effect where
  stores : List (ArrayId × Cells)
  lines : List String
  notes : List String

/-- An operand as a map sees it. -/
def Operand.input (read : ArrayId → Cells) : Operand → Eval.Input
  | .array id => .cells (read id)
  | .scalar constant => .scalar constant.value

namespace Op

/-- The line that a print statement shows for an array. -/
def lineOf (f : Func) (read : ArrayId → Cells) (id : ArrayId) : String :=
  s!"{f.labelOf id} = {cellsText (f.elemOf id) (read id)}"

/-- What a call of a host function stores, one entry for each output. -/
def replyStores (f : Func) (read : ArrayId → Cells) (writes : List ArrayId) (reply : HostReply) :
    List (ArrayId × Cells) :=
  writes.zipIdx.map fun (id, i) =>
    (id, (patch (read id) (reply.outputs.getD i #[])).map (f.elemOf id).coerce)

/-- The new elements of the array that a data-parallel operation writes. -/
def result (f : Func) (shapes : List Shape) (read : ArrayId → Cells) : Op → Cells
  | .map out op args =>
    Eval.mapCells op (f.elemOf out) (args.map (Operand.input read)) (sizeAt shapes out)
  | .reduce out op input => #[Eval.reduce op (f.elemOf out) (read input)]
  | .scan out op input => Eval.scan op (f.elemOf out) (read input)
  | _ => #[]

def effect (f : Func) (shapes : List Shape) (table : HostTable) (read : ArrayId → Cells) (op : Op) :
    Except (Stop OffloadError) Effect :=
  match op with
  | .map out .. | .reduce out .. | .scan out .. =>
    .ok ⟨[(out, op.result f shapes read)], [], []⟩
  | .store array index constant =>
    .ok ⟨[(array, (read array).setIfInBounds index ((f.elemOf array).coerce constant.value))],
      [], []⟩
  | .print arrays => .ok ⟨[], arrays.map (lineOf f read), []⟩
  | .call callee reads writes =>
    match table.find? callee with
    | none => .error (.error (.unresolvedCall callee))
    | some hostFn =>
      let named (id : ArrayId) : NamedCells := ⟨f.labelOf id, read id⟩
      match hostFn ⟨callee, reads.map named, writes.map named⟩ with
      | .error stop => .error (stop.map (.callFailed callee))
      | .ok reply => .ok ⟨replyStores f read writes reply, [], reply.notes⟩

end Op

/-! ## Sizes of results -/

/-- A scan gives as many elements as it reads. -/
theorem Eval.size_scan (op : FoldOp) (elem : Elem) (values : Cells) :
    (Eval.scan op elem values).size = values.size := by
  have general : ∀ (rest : List Float) (state : Float × Cells),
      (rest.foldl (fun (state : Float × Cells) x =>
        let next := elem.coerce (op.combine state.1 x)
        (next, state.2.push next)) state).2.size = state.2.size + rest.length := by
    intro rest
    induction rest with
    | nil => simp
    | cons x rest ih =>
      intro state
      rw [List.foldl_cons, ih]
      simp only [Array.size_push, List.length_cons]
      omega
  rw [Eval.scan, ← Array.foldl_toList, general]
  simp

/-- A map with its operands finds every value it reads, if these reach far enough. -/
theorem Eval.mapDefined_of_covers {op : MapOp} {inputs : List Input} {length : Nat}
    (hbytes : length * 8 ≤ Shape.byteLimit) (harity : inputs.length = op.arity)
    (covered : ∀ input ∈ inputs, input.covers length = true) :
    mapDefined op inputs length = true := by
  have htwo : op.arity ≤ 2 := by cases op <;> decide
  simp only [mapDefined, Bool.or_eq_true, Bool.and_eq_true, decide_eq_true_eq, List.all_eq_true]
  exact ⟨hbytes, .inr ⟨⟨by omega, by omega⟩, covered⟩⟩

theorem Shapes.Resolved.bytes {f : Func} {args : List ArrayValue} {shapes : List Shape}
    {table : HostTable} (res : Resolved f args table shapes) {id : ArrayId}
    (hid : id < f.arrays.length) : sizeAt shapes id * 8 ≤ Shape.byteLimit := by
  obtain ⟨decl, hdecl⟩ := Func.exists_decl hid
  obtain ⟨shape, hshape⟩ := res.exists_shape hid
  rw [sizeAt, hshape, Option.map_some, Option.getD_some]
  exact Shape.bytes_of_count? (res.counted hdecl hshape)

namespace Op

variable {f : Func} {args : List ArrayValue} {shapes : List Shape} {table : HostTable}
  {read : ArrayId → Cells}

/-- A map finds every value it reads. -/
theorem mapDefined_of_sized (wf : f.Checked) (res : Shapes.Resolved f args table shapes)
    {out : ArrayId} {op : MapOp} {operands : List Operand} (hop : .map out op operands ∈ f.body)
    (sized : ∀ id, .array id ∈ operands → (read id).size = sizeAt shapes id) :
    Eval.mapDefined op (operands.map (Operand.input read)) (sizeAt shapes out) = true := by
  refine Eval.mapDefined_of_covers (res.bytes (wf.mem_lt hop (by simp [writes])))
    (by rw [List.length_map, wf.map_arity hop]) fun input hi => ?_
  obtain ⟨operand, ho, rfl⟩ := List.mem_map.mp hi
  cases operand with
  | scalar constant => rfl
  | array id =>
    have hsame : sizeAt shapes id = sizeAt shapes out := by
      simp only [sizeAt, res.map_operand hop ho]
    simp [Operand.input, Eval.Input.covers, sized id ho, hsame]

theorem sizeAt_reduce_target (wf : f.Checked) (res : Shapes.Resolved f args table shapes)
    {out input : ArrayId} {op : FoldOp} (hop : .reduce out op input ∈ f.body) :
    sizeAt shapes out = 1 := by
  obtain ⟨decl, hdecl, hfixed⟩ := wf.reduce_target hop
  simp [sizeAt, res.fixed hdecl hfixed, Shape.size]

/-- The result of a data-parallel operation has as many elements as its target. -/
theorem size_result (wf : f.Checked) (res : Shapes.Resolved f args table shapes)
    (sized : ∀ id, id < f.arrays.length → (read id).size = sizeAt shapes id) {op : Op}
    (hop : op ∈ f.body) (hp : op.parallelKind?.isSome = true) {out : ArrayId}
    (hw : op.writes = [out]) : (op.result f shapes read).size = sizeAt shapes out := by
  cases op with
  | map target op operands =>
    cases hw
    simp [result, Eval.mapCells]
  | reduce target op input =>
    cases hw
    rw [sizeAt_reduce_target wf res hop]
    rfl
  | scan target op input =>
    cases hw
    have hinput : input < f.arrays.length := wf.mem_lt hop (by simp [reads])
    rw [result, Eval.size_scan, sized input hinput, sizeAt, res.scan_input hop, sizeAt]
  | store | print | call => simp [parallelKind?] at hp

end Op

namespace Call

/-- The call after stores, one after the other. -/
def storeAll (call : Call) (stores : List (ArrayId × Cells)) : Call :=
  stores.foldl (fun call entry => call.withCells entry.1 entry.2) call

/-- The call after printed lines. -/
def say (call : Call) (lines : List String) : Call :=
  { call with
    printed := call.printed ++ lines
    machine := { call.machine with journal := call.machine.journal ++ lines.map .printed } }

/-- The call after lines for the error channel. -/
def note (call : Call) (notes : List String) : Call :=
  { call with machine := { call.machine with notes := call.machine.notes ++ notes } }

/-- The call after an effect. -/
def apply (call : Call) (effect : Effect) : Call :=
  ((call.note effect.notes).say effect.lines).storeAll effect.stores

@[simp]
theorem say_nil (call : Call) : call.say [] = call := by
  simp [say]

@[simp]
theorem note_nil (call : Call) : call.note [] = call := by
  simp [note]

@[simp]
theorem read_say (call : Call) (lines : List String) : (call.say lines).read = call.read := rfl

theorem say_say (call : Call) (first second : List String) :
    (call.say first).say second = call.say (first ++ second) := by
  simp [say]

theorem apply_store (call : Call) (id : ArrayId) (cells : Cells) :
    call.apply ⟨[(id, cells)], [], []⟩ = call.withCells id cells := by
  simp [apply, storeAll]

variable {f : Func} {args : List ArrayValue} {shapes : List Shape} {table : HostTable} {call : Call}

/-! ## Reading -/

theorem exec_loadOperands (sized : call.Sized f shapes) {operands : List Operand}
    (declared : ∀ id, .array id ∈ operands → id < f.arrays.length) :
    exec (operands.mapM loadOperand) call = (.ok (operands.map (Operand.input call.read)), call) := by
  induction operands with
  | nil => rfl
  | cons operand rest ih =>
    have hrest := ih fun id hid => declared id (by simp [hid])
    have hhead : exec (loadOperand operand) call = (.ok (operand.input call.read), call) := by
      cases operand with
      | scalar constant => rfl
      | array id =>
        simp only [loadOperand, exec_bind, exec_load, sized.cells? (declared id (by simp)), orFault]
        rfl
    rw [List.mapM_cons, exec_bind_of_ok hhead, exec_bind_of_ok hrest]
    rfl

theorem exec_named (sized : call.Sized f shapes) {ids : List ArrayId}
    (declared : ∀ id ∈ ids, id < f.arrays.length) :
    exec (ids.mapM (named f)) call =
      (.ok (ids.map fun id => ⟨f.labelOf id, call.read id⟩), call) := by
  induction ids with
  | nil => rfl
  | cons id rest ih =>
    have hrest := ih fun other ho => declared other (by simp [ho])
    have hhead : exec (named f id) call = (.ok ⟨f.labelOf id, call.read id⟩, call) := by
      obtain ⟨decl, hdecl⟩ := Func.exists_decl (declared id (by simp))
      simp only [named, exec_bind, exec_expect, exec_load, sized.cells? (declared id (by simp)),
        Func.nameOf?, hdecl, orFault, Option.map_some, Func.labelOf_eq hdecl]
      rfl
    rw [List.mapM_cons, exec_bind_of_ok hhead, exec_bind_of_ok hrest]
    rfl

theorem exec_sizeOf {id : ArrayId} {shape : Shape} (h : shapes[id]? = some shape) :
    exec (sizeOf shapes id) call = (.ok (sizeAt shapes id), call) := by
  simp only [sizeOf, exec_bind, exec_expect, h, orFault, sizeAt]
  rfl

/-! ## Writing -/

theorem exec_store_sized (sized : call.Sized f shapes) {id : ArrayId} (h : id < f.arrays.length)
    {cells : Cells} (hsize : cells.size = sizeAt shapes id) :
    exec (store id cells) call = (.ok (), call.withCells id cells) := by
  rw [exec_store, sized.cells? h]
  simp [hsize, sized.size_read h]

theorem exec_print (sized : call.Sized f shapes) {ids : List ArrayId}
    (declared : ∀ id ∈ ids, id < f.arrays.length) :
    exec (ids.forM (printArray f)) call =
      (.ok (), call.say (ids.map (Op.lineOf f call.read))) := by
  induction ids generalizing call with
  | nil => simp
  | cons id rest ih =>
    obtain ⟨decl, hdecl⟩ := Func.exists_decl (declared id (by simp))
    have hhead : exec (printArray f id) call = (.ok (), call.say [Op.lineOf f call.read id]) := by
      simp only [printArray, exec_bind, exec_expect, hdecl, exec_load,
        sized.cells? (declared id (by simp)), orFault, exec_record, exec_modify]
      simp [say, Op.lineOf, Func.labelOf_eq hdecl, Func.elemOf_eq hdecl, Machine.record]
    have hsized : (call.say [Op.lineOf f call.read id]).Sized f shapes := sized
    rw [exec_forM_cons, hhead]
    simp only
    rw [ih hsized fun other ho => declared other (by simp [ho]), say_say, read_say]
    rfl

/-- What a host function left in its outputs is stored, output by output. -/
theorem exec_storeOutputs (sized : call.Sized f shapes)
    {entries : List (ArrayId × NamedCells × Cells)}
    (fits : ∀ entry ∈ entries,
      entry.1 < f.arrays.length ∧ entry.2.1.cells.size = sizeAt shapes entry.1) :
    exec (entries.forM (storeOutput f)) call =
      (.ok (), call.storeAll (entries.map fun entry =>
        (entry.1, (patch entry.2.1.cells entry.2.2).map (f.elemOf entry.1).coerce))) := by
  induction entries generalizing call with
  | nil => rfl
  | cons entry rest ih =>
    obtain ⟨id, old, new⟩ := entry
    obtain ⟨hlt, hold⟩ := fits (id, old, new) (by simp)
    obtain ⟨decl, hdecl⟩ := Func.exists_decl hlt
    have hsize : ((patch old.cells new).map (f.elemOf id).coerce).size = sizeAt shapes id := by
      simpa [patch] using hold
    have hhead : exec (storeOutput f (id, old, new)) call =
        (.ok (), call.withCells id ((patch old.cells new).map (f.elemOf id).coerce)) := by
      simp only [storeOutput, exec_bind, exec_expect, hdecl, orFault, ← Func.elemOf_eq hdecl]
      exact exec_store_sized sized hlt hsize
    rw [exec_forM_cons, hhead]
    exact ih (sized.withCells hlt hsize) fun other ho => fits other (by simp [ho])

/-! ## Operations -/

theorem exec_hostOp_map (wf : f.Checked) (res : Shapes.Resolved f args table shapes)
    (sized : call.Sized f shapes) {out : ArrayId} {op : MapOp} {operands : List Operand}
    (hop : .map out op operands ∈ f.body) :
    exec (hostOp f shapes table (.map out op operands)) call =
      (.ok (), call.withCells out (Op.result f shapes call.read (.map out op operands))) := by
  have hout : out < f.arrays.length := wf.mem_lt hop (by simp [Op.writes])
  have declared : ∀ id, .array id ∈ operands → id < f.arrays.length := fun id hid =>
    wf.mem_lt hop (List.mem_append_left _ (mem_distinct.mpr
      (List.mem_filterMap.mpr ⟨_, hid, rfl⟩)))
  obtain ⟨decl, hdecl⟩ := Func.exists_decl hout
  obtain ⟨shape, hshape⟩ := res.exists_shape hout
  have defined := Op.mapDefined_of_sized wf res hop fun id hid => sized.size_read (declared id hid)
  have hsize : (Op.result f shapes call.read (.map out op operands)).size = sizeAt shapes out :=
    Op.size_result wf res (fun _ => sized.size_read) hop rfl rfl
  rw [← exec_store_sized sized hout hsize]
  simp only [hostOp, exec_bind, exec_loadOperands sized declared, exec_expect, hdecl, orFault,
    exec_sizeOf hshape, Eval.map?, defined, if_true, Op.result, Func.elemOf_eq hdecl]

theorem exec_hostOp_reduce (wf : f.Checked) (res : Shapes.Resolved f args table shapes)
    (sized : call.Sized f shapes) {out input : ArrayId} {op : FoldOp}
    (hop : .reduce out op input ∈ f.body) :
    exec (hostOp f shapes table (.reduce out op input)) call =
      (.ok (), call.withCells out (Op.result f shapes call.read (.reduce out op input))) := by
  have hout : out < f.arrays.length := wf.mem_lt hop (by simp [Op.writes])
  have hinput : input < f.arrays.length := wf.mem_lt hop (by simp [Op.reads])
  obtain ⟨decl, hdecl⟩ := Func.exists_decl hout
  have hone : (call.read out).size = 1 := by
    rw [sized.size_read hout, Op.sizeAt_reduce_target wf res hop]
  have hset : ∀ value, (call.read out).setIfInBounds 0 value = #[value] := by
    intro value
    apply Array.ext
    · simp [hone]
    · intro i h₁ h₂
      have hi : i = 0 := by simpa using h₂
      subst hi
      simp
  simp only [hostOp, exec_bind, exec_load, sized.cells? hinput, exec_expect, hdecl, orFault,
    exec_storeAt, sized.cells? hout, hone, hset, Op.result, Func.elemOf_eq hdecl]
  rfl

theorem exec_hostOp_scan (wf : f.Checked) (res : Shapes.Resolved f args table shapes)
    (sized : call.Sized f shapes) {out input : ArrayId} {op : FoldOp}
    (hop : .scan out op input ∈ f.body) :
    exec (hostOp f shapes table (.scan out op input)) call =
      (.ok (), call.withCells out (Op.result f shapes call.read (.scan out op input))) := by
  have hout : out < f.arrays.length := wf.mem_lt hop (by simp [Op.writes])
  have hinput : input < f.arrays.length := wf.mem_lt hop (by simp [Op.reads])
  obtain ⟨decl, hdecl⟩ := Func.exists_decl hout
  have hsize : (Op.result f shapes call.read (.scan out op input)).size = sizeAt shapes out :=
    Op.size_result wf res (fun _ => sized.size_read) hop rfl rfl
  rw [← exec_store_sized sized hout hsize]
  simp only [hostOp, exec_bind, exec_load, sized.cells? hinput, exec_expect, hdecl, orFault,
    Op.result, Func.elemOf_eq hdecl]

theorem exec_hostOp_store (wf : f.Checked) (res : Shapes.Resolved f args table shapes)
    (sized : call.Sized f shapes) {array : ArrayId} {index : Nat} {constant : Scalar}
    (hop : .store array index constant ∈ f.body) :
    exec (hostOp f shapes table (.store array index constant)) call =
      (.ok (), call.withCells array ((call.read array).setIfInBounds index
        ((f.elemOf array).coerce constant.value))) := by
  have harray : array < f.arrays.length := wf.mem_lt hop (by simp [Op.writes])
  obtain ⟨decl, hdecl⟩ := Func.exists_decl harray
  obtain ⟨shape, hshape, hindex⟩ := res.store_index hop
  have hlt : index < (call.read array).size := by
    rw [sized.size_read harray]
    simpa [sizeAt, hshape] using hindex
  simp only [hostOp, exec_bind, exec_expect, hdecl, orFault, exec_storeAt, sized.cells? harray,
    if_pos hlt, Func.elemOf_eq hdecl]

/-- Each output as a host function sees it, next to the answer for it. -/
theorem zip_outputs (f : Func) (read : ArrayId → Cells) (writes : List ArrayId)
    (reply : HostReply) :
    writes.zip (((writes.map fun id => NamedCells.mk (f.labelOf id) (read id)).zipIdx).map
        fun (old, i) => (old, reply.outputs.getD i #[])) =
      writes.zipIdx.map fun (id, i) =>
        (id, ⟨f.labelOf id, read id⟩, reply.outputs.getD i #[]) := by
  refine List.ext_getElem? fun i => ?_
  simp only [List.getElem?_map, List.getElem?_zipIdx, List.zip, List.getElem?_zipWith]
  cases writes[i]? <;> simp

theorem exec_hostOp_call (wf : f.Checked) (sized : call.Sized f shapes) {callee : String}
    {reads writes : List ArrayId} (hop : .call callee reads writes ∈ f.body) :
    exec (hostOp f shapes table (.call callee reads writes)) call =
      match (Op.call callee reads writes).effect f shapes table call.read with
      | .error stop => (.error stop, call)
      | .ok effect => (.ok (), call.apply effect) := by
  have hreads : ∀ id ∈ reads, id < f.arrays.length := fun id hid =>
    wf.mem_lt hop (List.mem_append_left _ (mem_distinct.mpr hid))
  have hwrites : ∀ id ∈ writes, id < f.arrays.length := fun id hid =>
    wf.mem_lt hop (List.mem_append_right _ (mem_distinct.mpr hid))
  simp only [hostOp, callHost, Op.effect]
  cases table.find? callee with
  | none => rfl
  | some hostFn =>
    simp only [exec_bind, exec_named sized hreads, exec_named sized hwrites]
    cases hostFn _ with
    | error stop => rfl
    | ok reply =>
      have hsized : (call.note reply.notes).Sized f shapes := sized
      simp only [exec_bind, exec_modify]
      change exec _ (call.note reply.notes) = _
      rw [zip_outputs, exec_storeOutputs hsized, List.map_map]
      · simp only [apply, say_nil]
        rfl
      · simp only [List.mem_map]
        rintro _ ⟨⟨id, i⟩, hmem, rfl⟩
        have hid := hwrites id (List.fst_mem_of_mem_zipIdx hmem)
        exact ⟨hid, sized.size_read hid⟩

/-- Carrying out an operation of a checked function applies its effect; an operation that stops has
changed nothing. -/
theorem exec_hostOp (wf : f.Checked) (res : Shapes.Resolved f args table shapes)
    (sized : call.Sized f shapes) {op : Op} (hop : op ∈ f.body) :
    exec (hostOp f shapes table op) call =
      match op.effect f shapes table call.read with
      | .error stop => (.error stop, call)
      | .ok effect => (.ok (), call.apply effect) := by
  cases op with
  | map out op operands =>
    rw [exec_hostOp_map wf res sized hop, ← apply_store]
    rfl
  | reduce out op input =>
    rw [exec_hostOp_reduce wf res sized hop, ← apply_store]
    rfl
  | scan out op input =>
    rw [exec_hostOp_scan wf res sized hop, ← apply_store]
    rfl
  | store array index constant =>
    rw [exec_hostOp_store wf res sized hop, ← apply_store]
    rfl
  | print arrays =>
    rw [hostOp, exec_print sized fun id hid =>
      wf.mem_lt hop (List.mem_append_left _ (mem_distinct.mpr hid))]
    simp [Op.effect, apply, storeAll]
  | call callee reads writes => exact exec_hostOp_call wf sized hop

end Call

end ArrayOffload
