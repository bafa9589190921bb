import ArrayOffload.Proofs.DeviceRun

/-!
# Roots and the shapes of a call

A root is found before a function is called, by following shape sources from array to array. The
shapes of a call are found in the order of the declarations. Sources stand before the arrays that
use them, so every chain of sources ends, and the root at its end says what shape the call finds.

* `Func.LeadsTo`: the chain of sources, as a relation without bounds;
* `Func.Rooted.exists_leadsTo`, `Func.LeadsTo.rootWithin`: each chain ends, at the root that is
  found;
* `ShapeRoot.Gives`: the shape that a root stands for under some arguments;
* `Func.Built.shapes_of_roots`: what roots say about the shapes of a call.
-/

namespace ArrayOffload

namespace Func

variable {f : Func} {id : ArrayId} {root : ShapeRoot}

/-- The chain of shape sources from an array ends at a root. -/
inductive LeadsTo (f : Func) : ArrayId → ShapeRoot → Prop
  | param {id : ArrayId} {decl : ArrayDecl} :
      f.decl? id = some decl → decl.shape = .param → LeadsTo f id (.param id)
  | fixed {id : ArrayId} {decl : ArrayDecl} {dims : Shape} :
      f.decl? id = some decl → decl.shape = .fixed dims → LeadsTo f id (.fixed dims)
  | like {id source : ArrayId} {decl : ArrayDecl} {root : ShapeRoot} :
      f.decl? id = some decl → decl.shape = .like source → LeadsTo f source root →
      LeadsTo f id root

/-- Sources stand before the arrays that use them, so the chain comes to an end. -/
theorem Rooted.exists_leadsTo (rooted : f.Rooted) (hid : id < f.arrays.length) :
    ∃ root, f.LeadsTo id root := by
  induction id using Nat.strongRecOn with
  | ind id ih =>
    obtain ⟨decl, hdecl⟩ := exists_decl hid
    cases hshape : decl.shape with
    | param => exact ⟨_, .param hdecl hshape⟩
    | fixed dims => exact ⟨_, .fixed hdecl hshape⟩
    | like source =>
      have hlt := rooted.source_lt hdecl hshape
      obtain ⟨root, hroot⟩ := ih source hlt (Nat.lt_trans hlt hid)
      exact ⟨root, .like hdecl hshape hroot⟩

/-- The search follows the chain: it needs one step for each array that stands before. -/
theorem LeadsTo.rootWithin (rooted : f.Rooted) (h : f.LeadsTo id root) {fuel : Nat}
    (hfuel : id < fuel) : f.rootWithin fuel id = some root := by
  induction h generalizing fuel with
  | param hdecl hshape | fixed hdecl hshape =>
    cases fuel with
    | zero => exact absurd hfuel (Nat.not_lt_zero _)
    | succ fuel => simp [Func.rootWithin, hdecl, hshape]
  | like hdecl hshape _ ih =>
    cases fuel with
    | zero => exact absurd hfuel (Nat.not_lt_zero _)
    | succ fuel =>
      have hlt := rooted.source_lt hdecl hshape
      simp only [Func.rootWithin, hdecl, hshape]
      exact ih (Nat.lt_of_lt_of_le hlt (Nat.le_of_lt_succ hfuel))

/-- A chain that ends at a parameter ends at an array in the role of one. -/
theorem LeadsTo.param_decl {p : ArrayId} (h : f.LeadsTo id (.param p)) :
    ∃ decl, f.decl? p = some decl ∧ decl.shape = .param := by
  generalize hroot : ShapeRoot.param p = root at h
  induction h with
  | param hdecl hshape =>
    cases hroot
    exact ⟨_, hdecl, hshape⟩
  | fixed => cases hroot
  | like _ _ _ ih => exact ih hroot

end Func

/-- The shape that a root stands for: that of the argument at the parameter's position, or the
extents that the root gives. -/
inductive ShapeRoot.Gives (f : Func) (args : List ArrayValue) : ShapeRoot → Shape → Prop
  | param {p : ArrayId} {position : Nat} {arg : ArrayValue} :
      f.params[position]? = some p → args[position]? = some arg → Gives f args (.param p) arg.shape
  | fixed (dims : Shape) : Gives f args (.fixed dims) dims

namespace Shapes.Resolved

variable {f : Func} {args : List ArrayValue} {table : HostTable} {shapes : List Shape}

/-- The shape of an array is the one that its root stands for. -/
theorem gives (wf : f.WellFormed) (res : Resolved f args table shapes) {id : ArrayId}
    {root : ShapeRoot} (h : f.LeadsTo id root) {shape : Shape} (hshape : shapes[id]? = some shape) :
    root.Gives f args shape := by
  have hid := h.rootWithin wf.toChecked.rooted (Nat.lt_succ_self id)
  rw [res.get?_eq_shapeOf? hid] at hshape
  cases root with
  | fixed dims =>
    cases hshape
    exact .fixed _
  | param p =>
    obtain ⟨decl, hdecl, hsource⟩ := h.param_decl
    cases hrole : decl.role with
    | scratch => exact absurd hsource (wf.scratch_role hdecl hrole)
    | param position =>
      obtain ⟨arg, harg, hfound⟩ := res.param hdecl hsource hrole
      cases hshape.symm.trans hfound
      exact .param (wf.param_role hdecl hrole).2 harg

/-- The outputs of maps that share a region have as many elements as the grid has points. -/
theorem size_output (res : Resolved f args table shapes) {region : Region}
    (sound : region.Sound f) (maps : ∀ kind ∈ region.kinds, kind = .map) {out : ArrayId}
    (hout : out ∈ region.writes) :
    sizeAt shapes out = sizeAt shapes region.space.extentOf := by
  obtain ⟨op, hop, hwrites⟩ := sound.mem_writes.mp hout
  obtain ⟨kind, hkind, hparallel⟩ := sound.parallel hop
  rw [maps kind hkind] at hparallel
  cases op with
  | map target name operands =>
    cases List.mem_singleton.mp hwrites
    exact Call.sizeAt_extent res sound hop out rfl
  | reduce | scan | store | print | call => cases hparallel

end Shapes.Resolved

/-- In a call that is accepted, every chain of shape sources ends, at the root that is found before
the call, and the array has the shape that the root stands for. So arrays with one root have one
shape. All shapes have their declared ranks, all products of leading extents are machine words, and
maps that share a region write arrays of as many elements as the grid of the region has points. -/
theorem Func.Built.shapes_of_roots {f : Func} (built : f.Built) {args : List ArrayValue}
    {table : HostTable} {signature : Signature} {shapes : List Shape}
    (accepted : Signature.ofArgs f args = .ok signature)
    (resolved : Shapes.resolve f args table = .ok shapes) :
    shapes.length = f.arrays.length ∧
    (∀ id decl, f.decl? id = some decl → ∃ root shape, f.LeadsTo id root ∧
      f.shapeRoot? id = some root ∧ shapes[id]? = some shape ∧ root.Gives f args shape ∧
      shape.length = decl.rank ∧ shape.count? = some shape.size ∧
      ∀ k, Shape.size (shape.take k) < Shape.wordLimit) ∧
    (∀ a b root, f.shapeRoot? a = some root → f.shapeRoot? b = some root →
      shapes[a]? = shapes[b]?) ∧
    ∃ p, f.partition? = some p ∧ ∀ region ∈ p.regions, (∀ kind ∈ region.kinds, kind = .map) →
      ∃ grid, shapes[region.space.extentOf]? = some grid ∧
        (∀ profile plan, Placement.launchOf profile f region = .ok plan →
          shapes[plan.extentOf]? = some grid) ∧
        ∀ out ∈ region.writes, ∃ shape, shapes[out]? = some shape ∧ shape.size = grid.size := by
  have wf := built.wellFormed
  have rooted := wf.toChecked.rooted
  have res := Shapes.resolve_ok resolved
  refine ⟨res.length, fun id decl hdecl => ?_, fun a b root => res.get?_eq_of_root, ?_⟩
  · have hid := lt_of_decl? hdecl
    obtain ⟨root, hroot⟩ := rooted.exists_leadsTo hid
    obtain ⟨shape, hshape⟩ := res.exists_shape hid
    have hcount := res.counted hdecl hshape
    exact ⟨root, shape, hroot, hroot.rootWithin rooted hid, hshape, res.gives wf hroot hshape,
      res.rank wf (Signature.ofArgs_ok accepted) hdecl hshape, hcount, Shape.size_take_lt hcount⟩
  · obtain ⟨p, hp⟩ := rooted.exists_partition
    refine ⟨p, hp, fun region hregion maps => ?_⟩
    obtain ⟨i, hi⟩ := List.getElem?_of_mem hregion
    have sound := ((partition?_sound hp).regions hi).2
    obtain ⟨first, _, hspace⟩ := sound.space
    obtain ⟨_, ⟨decl, hdecl, _⟩, _⟩ := spaceOf?_ok hspace
    obtain ⟨grid, hgrid⟩ := res.exists_shape (lt_of_decl? hdecl)
    refine ⟨grid, hgrid, fun profile plan hplan => ?_, fun out hout => ?_⟩
    · rw [(Placement.launchOf_implements hplan).2, hgrid]
    · obtain ⟨op, hop, hwrites⟩ := sound.mem_writes.mp hout
      obtain ⟨shape, hshape⟩ := res.exists_shape
        (wf.mem_lt (Region.mem_body hop) (List.mem_append_right _ hwrites))
      have hsize := res.size_output sound maps hout
      simp only [sizeAt, hshape, hgrid, Option.map_some, Option.getD_some] at hsize
      exact ⟨shape, hshape, hsize⟩

namespace Sample

/-- A chain of three sources behind the first parameter, and maps over both parameters. -/
def cascade : Func where
  name := "cascade"
  arrays := [⟨"m", .f64, 2, .param, .param 0⟩, ⟨"n", .f64, 2, .param, .param 1⟩,
    ⟨"t", .f64, 2, .like 0, .scratch⟩, ⟨"u", .f64, 2, .like 2, .scratch⟩,
    ⟨"v", .f64, 2, .like 3, .scratch⟩]
  params := [0, 1]
  body := [.map 4 .add [.array 0, .array 2], .map 3 .neg [.array 4], .map 1 .abs [.array 1]]
  returns := some 3
  serialOnly := false

theorem cascade_built : cascade.Built := by
  have params := ((Func.Building.empty "cascade").param "m" .f64 2).param "n" .f64 2
  have arrays := ((params.like "t" .f64 0).like "u" .f64 2).like "v" .f64 3
  have body := ((arrays.push (.map 4 .add [.array 0, .array 2])).push
    (.map 3 .neg [.array 4])).push (.map 1 .abs [.array 1])
  exact ⟨_, body.returns 3, rfl⟩

/-- The second argument has no elements. -/
def cascadeArgs : List ArrayValue :=
  [⟨.f64, [2, 3], .owned (Array.replicate 6 Number.zero)⟩, ⟨.f64, [0, 5], .shared 1⟩]

def cascadeSignature : Signature :=
  ⟨[⟨⟨.f64, 2⟩, .copied⟩, ⟨⟨.f64, 2⟩, .shared⟩], some ⟨.f64, 2⟩⟩

def cascadeShapes : List Shape := [[2, 3], [0, 5], [2, 3], [2, 3], [2, 3]]

end Sample

/-- The last array of the chain has the shape of the first argument, and so has the grid of the
first region, which writes it. -/
theorem Func.Built.shapes_of_roots_cascade : Sample.cascade.Built ∧
    Signature.ofArgs Sample.cascade Sample.cascadeArgs = .ok Sample.cascadeSignature ∧
    Shapes.resolve Sample.cascade Sample.cascadeArgs [] = .ok Sample.cascadeShapes ∧
    Sample.cascade.LeadsTo 4 (.param 0) ∧
    (ShapeRoot.param 0).Gives Sample.cascade Sample.cascadeArgs [2, 3] ∧
    ∃ p first grid, Sample.cascade.partition? = some p ∧ p.regions[0]? = some first ∧
      first.kinds = [.map, .map] ∧ first.writes = [4, 3] ∧
      Sample.cascadeShapes[first.space.extentOf]? = some grid ∧ Shape.size [2, 3] = grid.size := by
  have accepted : Signature.ofArgs Sample.cascade Sample.cascadeArgs =
      .ok Sample.cascadeSignature := rfl
  have resolved : Shapes.resolve Sample.cascade Sample.cascadeArgs [] =
      .ok Sample.cascadeShapes := rfl
  obtain ⟨_, hroots, _, p, hp, hregions⟩ :=
    Sample.cascade_built.shapes_of_roots accepted resolved
  obtain ⟨root, shape, hroot, hfound, hshape, hgives, _⟩ := hroots 4 _ rfl
  cases hfound
  cases hshape
  cases hp
  obtain ⟨grid, hgrid, _, hsizes⟩ := hregions _ (List.mem_of_getElem? (i := 0) rfl) (by decide)
  obtain ⟨shape, hshape, hsize⟩ := hsizes 3 (by decide)
  cases hshape
  exact ⟨Sample.cascade_built, accepted, resolved, hroot, hgives, _, _, grid, rfl, rfl, rfl, rfl,
    hgrid, hsize⟩

end ArrayOffload
