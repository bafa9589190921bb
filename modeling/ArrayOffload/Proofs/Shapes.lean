import ArrayOffload.Call.Shapes
import ArrayOffload.Proofs.Exec
import ArrayOffload.Proofs.WellFormed

/-!
# Shapes at run time

Shapes are found in the order of declarations, roots by following shape sources. Both agree, so
what compilation decides from roots holds of the shapes of every call.

* `Shape.size_of_count?`, `Shape.size_take_lt`: a count is the size of the shape, and all sizes on
  the way to it are machine words;
* `Shapes.Resolved`: what a successful resolution says about declarations and operations;
* `Shapes.Resolved.get?_eq_of_root`: arrays with equal roots have equal shapes;
* `Signature.Accepts`: the arguments fit the parameters;
* `Shapes.Resolved.rank`: shapes have the declared ranks.
-/

namespace ArrayOffload

theorem orFault_eq_ok {ε α : Type} {found : Option α} {a : α} :
    (orFault found : Except (Stop ε) α) = .ok a ↔ found = some a := by
  cases found <;> simp [orFault]

namespace Shape

theorem product?_eq {total product : Nat} {shape : Shape}
    (h : product? total shape = some product) : product = shape.foldl (· * ·) total := by
  induction shape generalizing total with
  | nil =>
    cases h
    rfl
  | cons extent rest ih =>
    unfold product? at h
    split at h
    · exact ih h
    · cases h

/-- Where the number of elements can be had, it is the product of the extents. -/
theorem size_of_count? {shape : Shape} {length : Nat} (h : shape.count? = some length) :
    shape.size = length := by
  simp only [count?, Option.filter_eq_some_iff] at h
  exact (product?_eq h.1).symm

/-- While a product can be had, so can all products on the way. -/
theorem running_lt {total product : Nat} {shape : Shape} (htotal : total < wordLimit)
    (h : product? total shape = some product) (k : Nat) :
    (shape.take k).foldl (· * ·) total < wordLimit := by
  induction shape generalizing total k with
  | nil => simpa using htotal
  | cons extent rest ih =>
    unfold product? at h
    split at h
    · next hfits =>
      cases k with
      | zero => exact htotal
      | succ k => exact ih hfits h k
    · cases h

theorem size_take_lt {shape : Shape} {length : Nat} (h : shape.count? = some length) (k : Nat) :
    Shape.size (shape.take k) < wordLimit := by
  simp only [count?, Option.filter_eq_some_iff] at h
  exact running_lt (by decide) h.1 k

theorem product?_of_count? {shape : Shape} {length : Nat} (h : shape.count? = some length) :
    product? 1 shape = some length := by
  rw [count?, Option.filter_eq_some_iff] at h
  exact h.1

/-- A shape that is counted can be addressed. -/
theorem bytes_of_count? {shape : Shape} {length : Nat} (h : shape.count? = some length) :
    length * 8 ≤ byteLimit := by
  rw [count?, Option.filter_eq_some_iff] at h
  exact of_decide_eq_true h.2

end Shape

namespace Shapes

/-- The shapes follow from the declarations and fit the operations. -/
structure Resolved (f : Func) (args : List ArrayValue) (table : HostTable)
    (shapes : List Shape) : Prop where
  length : shapes.length = f.arrays.length
  decl : ∀ {id : ArrayId} {decl : ArrayDecl}, f.decl? id = some decl →
    ∃ shape, shapes[id]? = some shape ∧ ofDecl f args (shapes.take id) decl = .ok shape
  ops : ∀ op ∈ f.body, checkOp f shapes table op = .ok ()

/-- Each shape is found from the ones before it. -/
theorem ofDecls_ok {f : Func} {args : List ArrayValue} {before shapes : List Shape}
    {decls : List ArrayDecl} (h : ofDecls f args before decls = .ok shapes) :
    shapes.length = before.length + decls.length ∧ shapes.take before.length = before ∧
      ∀ {i : Nat} {decl : ArrayDecl}, decls[i]? = some decl →
        ∃ shape, shapes[before.length + i]? = some shape ∧
          ofDecl f args (shapes.take (before.length + i)) decl = .ok shape := by
  induction decls generalizing before with
  | nil =>
    cases h
    simp
  | cons head tail ih =>
    simp only [ofDecls, bind_eq_ok] at h
    obtain ⟨shape, hshape, hrest⟩ := h
    obtain ⟨hlen, hpre, hall⟩ := ih hrest
    rw [List.length_append, List.length_singleton] at hlen hpre
    have htake : shapes.take before.length = before := by
      have := congrArg (List.take before.length) hpre
      rwa [List.take_take, Nat.min_eq_left (Nat.le_succ _), List.take_left] at this
    refine ⟨by simp only [List.length_cons]; omega, htake, ?_⟩
    intro i decl hdecl
    cases i with
    | zero =>
      simp only [List.getElem?_cons_zero, Option.some.injEq] at hdecl
      subst hdecl
      refine ⟨shape, ?_, by rw [Nat.add_zero, htake]; exact hshape⟩
      have := congrArg (·[before.length]?) hpre
      simpa using this
    | succ i =>
      rw [List.getElem?_cons_succ] at hdecl
      have := hall hdecl
      rwa [List.length_append, List.length_singleton, Nat.add_assoc, Nat.add_comm 1 i] at this

theorem forM_checkOp_ok {f : Func} {shapes : List Shape} {table : HostTable} {ops : List Op}
    (h : ops.forM (checkOp f shapes table) = .ok ()) :
    ∀ op ∈ ops, checkOp f shapes table op = .ok () := by
  induction ops with
  | nil => simp
  | cons head tail ih =>
    change (checkOp f shapes table head >>= fun _ => tail.forM (checkOp f shapes table)) = _ at h
    rw [bind_eq_ok] at h
    obtain ⟨_, hhead, htail⟩ := h
    intro op hop
    rcases List.mem_cons.mp hop with rfl | ht
    · exact hhead
    · exact ih htail op ht

theorem resolve_ok {f : Func} {args : List ArrayValue} {table : HostTable} {shapes : List Shape}
    (h : resolve f args table = .ok shapes) : Resolved f args table shapes := by
  simp only [resolve, bind_eq_ok] at h
  obtain ⟨found, hfound, _, hops, hsame⟩ := h
  cases hsame
  obtain ⟨hlen, _, hall⟩ := ofDecls_ok hfound
  refine ⟨by simpa using hlen, ?_, forM_checkOp_ok hops⟩
  intro id decl hdecl
  simpa using hall hdecl

theorem addressable_ok {shape found : Shape} {stop : Stop OffloadError}
    (h : (if found.count?.isSome = true then pure found else throw stop :
      Except (Stop OffloadError) Shape) = .ok shape) :
    found = shape ∧ shape.count?.isSome = true := by
  split at h
  · next hcount =>
    cases h
    exact ⟨rfl, hcount⟩
  · cases h

/-- The shape of a declaration comes from where the declaration says. -/
theorem ofDecl_ok {f : Func} {args : List ArrayValue} {before : List Shape} {decl : ArrayDecl}
    {shape : Shape} (h : ofDecl f args before decl = .ok shape) :
    (match decl.shape, decl.role with
      | .fixed dims, _ => shape = dims
      | .like source, _ => before[source]? = some shape
      | .param, .param position => ∃ arg, args[position]? = some arg ∧ arg.shape = shape
      | .param, .scratch => False) ∧ shape.count?.isSome = true := by
  unfold ofDecl at h
  cases hs : decl.shape with
  | fixed dims =>
    simp only [hs] at h ⊢
    obtain ⟨rfl, hcount⟩ := addressable_ok h
    exact ⟨rfl, hcount⟩
  | like source =>
    simp only [hs, bind_eq_ok, orFault_eq_ok] at h ⊢
    obtain ⟨found, hfound, hkeep⟩ := h
    obtain ⟨rfl, hcount⟩ := addressable_ok hkeep
    exact ⟨hfound, hcount⟩
  | param =>
    cases hr : decl.role with
    | scratch =>
      simp only [hs, hr] at h
      cases h
    | param position =>
      simp only [hs, hr, bind_eq_ok, orFault_eq_ok, Option.map_eq_some_iff] at h ⊢
      obtain ⟨found, hfound, hkeep⟩ := h
      obtain ⟨rfl, hcount⟩ := addressable_ok hkeep
      exact ⟨hfound, hcount⟩

namespace Resolved

variable {f : Func} {args : List ArrayValue} {table : HostTable} {shapes : List Shape}

theorem exists_shape (res : Resolved f args table shapes) {id : ArrayId}
    (h : id < f.arrays.length) : ∃ shape, shapes[id]? = some shape := by
  have hlt : id < shapes.length := res.length ▸ h
  exact ⟨shapes[id], List.getElem?_eq_getElem hlt⟩

/-- Every shape of a call is counted. -/
theorem counted (res : Resolved f args table shapes) {id : ArrayId} {decl : ArrayDecl}
    (hdecl : f.decl? id = some decl) {shape : Shape} (hshape : shapes[id]? = some shape) :
    shape.count? = some shape.size := by
  obtain ⟨found, hfound, hof⟩ := res.decl hdecl
  cases hfound.symm.trans hshape
  obtain ⟨length, hlength⟩ := Option.isSome_iff_exists.mp (ofDecl_ok hof).2
  rw [hlength, Shape.size_of_count? hlength]

theorem fixed (res : Resolved f args table shapes) {id : ArrayId} {decl : ArrayDecl}
    {dims : Shape} (hd : f.decl? id = some decl) (hs : decl.shape = .fixed dims) :
    shapes[id]? = some dims := by
  obtain ⟨shape, hshape, hof⟩ := res.decl hd
  have hsame := (ofDecl_ok hof).1
  simp only [hs] at hsame
  rw [hshape, hsame]

theorem like (res : Resolved f args table shapes) {id source : ArrayId} {decl : ArrayDecl}
    (hd : f.decl? id = some decl) (hs : decl.shape = .like source) :
    shapes[id]? = shapes[source]? := by
  obtain ⟨shape, hshape, hof⟩ := res.decl hd
  have hsource := (ofDecl_ok hof).1
  simp only [hs, List.getElem?_take] at hsource
  split at hsource
  · rw [hshape, hsource]
  · cases hsource

theorem param (res : Resolved f args table shapes) {id : ArrayId} {decl : ArrayDecl}
    {position : Nat} (hd : f.decl? id = some decl) (hs : decl.shape = .param)
    (hr : decl.role = .param position) :
    ∃ arg, args[position]? = some arg ∧ shapes[id]? = some arg.shape := by
  obtain ⟨shape, hshape, hof⟩ := res.decl hd
  have hfound := (ofDecl_ok hof).1
  simp only [hs, hr] at hfound
  obtain ⟨arg, harg, rfl⟩ := hfound
  exact ⟨arg, harg, hshape⟩

/-- The shape that a root stands for. -/
def shapeOf? (shapes : List Shape) : ShapeRoot → Option Shape
  | .param id => shapes[id]?
  | .fixed dims => some dims

/-- Following shape sources to the root leads to the array's shape. -/
theorem get?_eq_shapeOf? (res : Resolved f args table shapes) {fuel : Nat} {id : ArrayId}
    {root : ShapeRoot} (h : f.rootWithin fuel id = some root) :
    shapes[id]? = shapeOf? shapes root := by
  induction fuel generalizing id with
  | zero => cases h
  | succ fuel ih =>
    simp only [Func.rootWithin] at h
    cases hd : f.decl? id with
    | none => simp [hd] at h
    | some decl =>
      simp only [hd] at h
      cases hs : decl.shape with
      | param =>
        simp only [hs, Option.some.injEq] at h
        subst h
        rfl
      | fixed dims =>
        simp only [hs, Option.some.injEq] at h
        subst h
        exact res.fixed hd hs
      | like source =>
        simp only [hs] at h
        rw [res.like hd hs]
        exact ih h

theorem get?_eq_of_root (res : Resolved f args table shapes) {a b : ArrayId} {root : ShapeRoot}
    (ha : f.shapeRoot? a = some root) (hb : f.shapeRoot? b = some root) :
    shapes[a]? = shapes[b]? := by
  rw [res.get?_eq_shapeOf? ha, res.get?_eq_shapeOf? hb]

/-! ## Operations -/

theorem checkOperands_ok {out : ArrayId} {ids : List ArrayId}
    (h : checkOperands f shapes out ids = .ok ()) : ∀ id ∈ ids, shapes[id]? = shapes[out]? := by
  induction ids with
  | nil => simp
  | cons head tail ih =>
    simp only [checkOperands, bind_eq_ok, orFault_eq_ok] at h
    obtain ⟨shape, hshape, target, htarget, hrest⟩ := h
    split at hrest
    · next hsame =>
      intro id hid
      rcases List.mem_cons.mp hid with rfl | ht
      · rw [hshape, htarget, hsame]
      · exact ih hrest id ht
    · simp only [bind_eq_ok] at hrest
      obtain ⟨_, _, _, _, hthrow⟩ := hrest
      cases hthrow

theorem map_operand (res : Resolved f args table shapes) {out : ArrayId} {op : MapOp}
    {operands : List Operand} (hop : .map out op operands ∈ f.body) {id : ArrayId}
    (hid : .array id ∈ operands) : shapes[id]? = shapes[out]? := by
  refine checkOperands_ok (res.ops _ hop) id ?_
  rw [List.mem_filterMap]
  exact ⟨.array id, hid, rfl⟩

theorem scan_input (res : Resolved f args table shapes) {out input : ArrayId} {op : FoldOp}
    (hop : .scan out op input ∈ f.body) : shapes[input]? = shapes[out]? := by
  have h := res.ops _ hop
  simp only [checkOp, bind_eq_ok, orFault_eq_ok] at h
  obtain ⟨target, htarget, shape, hshape, hrest⟩ := h
  split at hrest
  · next hsame => rw [htarget, hshape, hsame]
  · simp only [bind_eq_ok] at hrest
    obtain ⟨_, _, _, _, hthrow⟩ := hrest
    cases hthrow

theorem store_index (res : Resolved f args table shapes) {array : ArrayId} {index : Nat}
    {constant : Scalar} (hop : .store array index constant ∈ f.body) :
    ∃ shape, shapes[array]? = some shape ∧ index < shape.size := by
  have h := res.ops _ hop
  simp only [checkOp, bind_eq_ok, orFault_eq_ok] at h
  obtain ⟨shape, hshape, hrest⟩ := h
  split at hrest
  · next hlt => exact ⟨shape, hshape, hlt⟩
  · simp only [bind_eq_ok] at hrest
    obtain ⟨_, _, hthrow⟩ := hrest
    cases hthrow

/-- Every callee was looked up before the first step. -/
theorem callee (res : Resolved f args table shapes) {name : String} {reads writes : List ArrayId}
    (hop : .call name reads writes ∈ f.body) : ∃ hostFn, table.find? name = some hostFn := by
  have h := res.ops _ hop
  simp only [checkOp] at h
  split at h
  · next hsome => exact Option.isSome_iff_exists.mp hsome
  · cases h

end Resolved

end Shapes

/-! ## Signatures -/

namespace Signature

/-- The arguments fit the parameters, one by one, and the signature records how. -/
structure Accepts (f : Func) (args : List ArrayValue) (signature : Signature) : Prop where
  length : args.length = f.params.length
  arg : ∀ {position : Nat} {id : ArrayId} {arg : ArrayValue}, f.params[position]? = some id →
    args[position]? = some arg →
    (∃ decl, f.decl? id = some decl ∧ arg.type = decl.type) ∧
      signature.allocator? position = some arg.allocator

theorem argTypes_ok {f : Func} {pairs : List (ArrayId × ArrayValue)} {types : List ArgType}
    (h : argTypes f pairs = .ok types) {i : Nat} {id : ArrayId} {arg : ArrayValue}
    (hi : pairs[i]? = some (id, arg)) :
    (∃ decl, f.decl? id = some decl ∧ arg.type = decl.type) ∧
      types[i]? = some ⟨arg.type, arg.allocator⟩ := by
  induction pairs generalizing types i with
  | nil => simp at hi
  | cons head tail ih =>
    obtain ⟨first, value⟩ := head
    simp only [argTypes, bind_eq_ok, orFault_eq_ok] at h
    obtain ⟨decl, hdecl, hrest⟩ := h
    split at hrest
    · next htype =>
      rw [bind_eq_ok] at hrest
      obtain ⟨others, hothers, hsame⟩ := hrest
      cases hsame
      cases i with
      | zero =>
        simp only [List.getElem?_cons_zero, Option.some.injEq, Prod.mk.injEq] at hi
        obtain ⟨rfl, rfl⟩ := hi
        exact ⟨⟨decl, hdecl, htype⟩, rfl⟩
      | succ i =>
        rw [List.getElem?_cons_succ] at hi
        simpa using ih hothers hi
    · cases hrest

theorem length_argTypes {f : Func} {pairs : List (ArrayId × ArrayValue)} {types : List ArgType}
    (h : argTypes f pairs = .ok types) : types.length = pairs.length := by
  induction pairs generalizing types with
  | nil =>
    cases h
    rfl
  | cons head tail ih =>
    simp only [argTypes, bind_eq_ok, orFault_eq_ok] at h
    obtain ⟨decl, _, hrest⟩ := h
    split at hrest
    · rw [bind_eq_ok] at hrest
      obtain ⟨others, hothers, hsame⟩ := hrest
      cases hsame
      simp [ih hothers]
    · cases hrest

/-- A signature has a type for each parameter. -/
theorem length_ofArgs {f : Func} {args : List ArrayValue} {signature : Signature}
    (h : ofArgs f args = .ok signature) : signature.args.length = f.params.length := by
  unfold ofArgs at h
  split at h
  · next hlen =>
    simp only [bind_eq_ok] at h
    obtain ⟨types, htypes, ret, _, hsame⟩ := h
    cases hsame
    simp [length_argTypes htypes, hlen]
  · cases h

theorem ofArgs_ok {f : Func} {args : List ArrayValue} {signature : Signature}
    (h : ofArgs f args = .ok signature) : Accepts f args signature := by
  unfold ofArgs at h
  split at h
  · next hlen =>
    simp only [bind_eq_ok] at h
    obtain ⟨types, htypes, ret, _, hsame⟩ := h
    cases hsame
    refine ⟨hlen, ?_⟩
    intro position id arg hid harg
    have hzip : (f.params.zip args)[position]? = some (id, arg) := by
      rw [List.getElem?_zip_eq_some]
      exact ⟨hid, harg⟩
    obtain ⟨hdecl, htype⟩ := argTypes_ok htypes hzip
    exact ⟨hdecl, by simp [allocator?, htype]⟩
  · cases h

end Signature

/-- Under accepted arguments every shape has its declared rank. -/
theorem Shapes.Resolved.rank {f : Func} {args : List ArrayValue} {table : HostTable}
    {shapes : List Shape} {signature : Signature} (wf : f.WellFormed)
    (res : Resolved f args table shapes) (accepted : signature.Accepts f args) {id : ArrayId}
    {decl : ArrayDecl} {shape : Shape} (hd : f.decl? id = some decl)
    (hs : shapes[id]? = some shape) : shape.length = decl.rank := by
  induction id using Nat.strongRecOn generalizing decl with
  | ind id ih =>
    cases hshape : decl.shape with
    | fixed dims =>
      rw [res.fixed hd hshape] at hs
      cases hs
      exact wf.fixed_dims hd hshape
    | like source =>
      obtain ⟨hlt, other, hother, hrank⟩ := wf.like_source hd hshape
      rw [res.like hd hshape] at hs
      rw [← hrank]
      exact ih source hlt hother hs
    | param =>
      cases hrole : decl.role with
      | scratch => exact absurd hshape (wf.scratch_role hd hrole)
      | param position =>
        obtain ⟨arg, harg, hshapes⟩ := res.param hd hshape hrole
        rw [hs] at hshapes
        cases hshapes
        obtain ⟨⟨decl', hd', htype⟩, _⟩ :=
          accepted.arg (wf.param_role hd hrole).2 harg
        rw [hd] at hd'
        cases hd'
        exact congrArg ArrayType.rank htype

end ArrayOffload
