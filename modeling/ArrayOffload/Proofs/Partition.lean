import ArrayOffload.Proofs.WellFormed
import ArrayOffload.Region

/-!
# The segments of a body

`Func.partition?` reads a body from left to right with one open region. The invariant of that loop
says what each region holds and that the segments so far cover the operations so far.

* `Region.Sound`: operations, uses and iteration space of a region fit together;
* `Partition.Sound`: the segments cover the leading operations of the body, each once, in order;
* `Func.partition?_sound`: the loop ends with such a partition of the whole body;
* `Func.Rooted.exists_partition`: it does end with one where shapes have roots;
* `Region.Sound.mem_reads`, `Region.Sound.mem_writes`: a region reads and writes exactly what its
  operations read and write.
-/

namespace ArrayOffload

/-! ## Uses -/

theorem Access.merge_reads (a b : Access) : (a.merge b).reads = (a.reads || b.reads) := by
  cases a <;> cases b <;> rfl

theorem Access.merge_writes (a b : Access) : (a.merge b).writes = (a.writes || b.writes) := by
  cases a <;> cases b <;> rfl

/-- Some use of the array has an access of this kind. -/
def UsedWith (kind : Access → Bool) (id : ArrayId) (uses : List ArrayUse) : Prop :=
  ∃ use ∈ uses, use.array = id ∧ kind use.access = true

section
variable {kind : Access → Bool} (merged : ∀ a b : Access, kind (a.merge b) = (kind a || kind b))

include merged in
theorem usedWith_addUse {uses : List ArrayUse} {use : ArrayUse} {id : ArrayId} :
    UsedWith kind id (addUse uses use) ↔
      UsedWith kind id uses ∨ (use.array = id ∧ kind use.access = true) := by
  unfold addUse
  split
  · next present =>
    simp only [List.any_eq_true, decide_eq_true_eq] at present
    obtain ⟨same, hsame, harray⟩ := present
    constructor
    · rintro ⟨new, hnew, rfl, hkind⟩
      obtain ⟨old, hold, rfl⟩ := List.mem_map.mp hnew
      split at hkind
      · next heq =>
        rw [merged, Bool.or_eq_true] at hkind
        rw [if_pos heq]
        rcases hkind with hk | hk
        · exact .inl ⟨old, hold, rfl, hk⟩
        · exact .inr ⟨heq.symm, hk⟩
      · next hne => rw [if_neg hne]; exact .inl ⟨old, hold, rfl, hkind⟩
    · rintro (⟨old, hold, rfl, hkind⟩ | ⟨rfl, hkind⟩)
      · refine ⟨_, List.mem_map_of_mem hold, ?_⟩
        split <;> simp [merged, hkind]
      · refine ⟨_, List.mem_map_of_mem hsame, ?_⟩
        simp [harray, merged, hkind]
  · simp only [UsedWith, List.mem_append, List.mem_singleton]
    grind

include merged in
theorem usedWith_foldl {more uses : List ArrayUse} {id : ArrayId} :
    UsedWith kind id (more.foldl addUse uses) ↔ UsedWith kind id uses ∨ UsedWith kind id more := by
  induction more generalizing uses with
  | nil => simp [UsedWith]
  | cons use rest ih =>
    rw [List.foldl_cons, ih, usedWith_addUse merged]
    simp only [UsedWith, List.mem_cons]
    grind

end

theorem arrays_addUse (uses : List ArrayUse) (use : ArrayUse) :
    (addUse uses use).map (·.array) =
      if use.array ∈ uses.map (·.array) then uses.map (·.array)
      else uses.map (·.array) ++ [use.array] := by
  have hany : (uses.any fun other => other.array = use.array) = true ↔
      use.array ∈ uses.map (·.array) := by
    simp only [List.any_eq_true, decide_eq_true_eq, List.mem_map]
  unfold addUse
  by_cases h : use.array ∈ uses.map (·.array)
  · rw [if_pos (hany.mpr h), if_pos h, List.map_map]
    refine List.map_congr_left fun other _ => ?_
    simp only [Function.comp_apply]
    split <;> rfl
  · rw [if_neg (mt hany.mp h), if_neg h]
    simp

/-- Every array stands once in a list of merged uses. -/
theorem arrays_nodup_foldl {more uses : List ArrayUse} (h : (uses.map (·.array)).Nodup) :
    ((more.foldl addUse uses).map (·.array)).Nodup := by
  induction more generalizing uses with
  | nil => exact h
  | cons use rest ih =>
    refine ih ?_
    rw [arrays_addUse]
    split
    · exact h
    · next hne =>
      rw [List.nodup_append]
      refine ⟨h, by simp, ?_⟩
      rintro a ha b hb rfl
      rw [List.mem_singleton] at hb
      exact hne (hb ▸ ha)

theorem usedWith_same {kind : Access → Bool} {access : Access} {ids : List ArrayId}
    {id : ArrayId} :
    UsedWith kind id (ids.map (ArrayUse.mk · access)) ↔ kind access = true ∧ id ∈ ids := by
  simp only [UsedWith, List.mem_map]
  grind

theorem usedWith_append {kind : Access → Bool} {left right : List ArrayUse} {id : ArrayId} :
    UsedWith kind id (left ++ right) ↔ UsedWith kind id left ∨ UsedWith kind id right := by
  simp only [UsedWith, List.mem_append]
  grind

theorem not_usedWith_nil {kind : Access → Bool} {id : ArrayId} : ¬ UsedWith kind id [] := by
  simp [UsedWith]

theorem Op.usedWith_reads {op : Op} {id : ArrayId} :
    UsedWith Access.reads id op.uses ↔ id ∈ op.reads := by
  rw [Op.uses, usedWith_foldl Access.merge_reads, usedWith_append, usedWith_same, usedWith_same]
  simp [not_usedWith_nil, Access.reads]

theorem Op.usedWith_writes {op : Op} {id : ArrayId} :
    UsedWith Access.writes id op.uses ↔ id ∈ op.writes := by
  rw [Op.uses, usedWith_foldl Access.merge_writes, usedWith_append, usedWith_same, usedWith_same]
  simp [not_usedWith_nil, Access.writes]

/-! ## Regions -/

/-- An iteration space is read off a declared array. -/
theorem Func.spaceOf?_ok {f : Func} {op : Op} {space : IterationSpace}
    (h : f.spaceOf? op = some space) :
    op.extent? = some space.extentOf ∧
      (∃ decl, f.decl? space.extentOf = some decl ∧ decl.rank = space.rank) ∧
      f.shapeRoot? space.extentOf = some space.root := by
  simp only [spaceOf?, Option.bind_eq_bind, Option.bind_eq_some_iff, Option.some.injEq] at h
  obtain ⟨extent, hextent, decl, hdecl, root, hroot, rfl⟩ := h
  exact ⟨hextent, ⟨decl, hdecl, rfl⟩, hroot⟩

/-- The parts of a region fit together and stand in the body. -/
structure Region.Sound (f : Func) (region : Region) : Prop where
  first_lt : region.first < region.stop
  stop_le : region.stop ≤ f.body.length
  kinds : (region.ops f).map Op.parallelKind? = region.kinds.map some
  uses : region.uses = ((region.ops f).flatMap Op.uses).foldl addUse []
  space : ∃ op, (region.ops f).head? = some op ∧ f.spaceOf? op = some region.space
  roots : ∀ op ∈ region.ops f, ∃ space, f.spaceOf? op = some space ∧
    space.root = region.space.root
  fused : (∃ op, region.ops f = [op]) ∨ ∀ kind ∈ region.kinds, kind.isolated = false

namespace Region

theorem mem_body {f : Func} {region : Region} {op : Op} (h : op ∈ region.ops f) : op ∈ f.body :=
  List.mem_of_mem_take (List.mem_of_mem_drop h)

/-- The operations of a region that reaches one further. -/
theorem ops_succ {f : Func} (region : Region) {op : Op} (h : region.first ≤ region.stop)
    (hop : f.body[region.stop]? = some op) :
    (f.body.take (region.stop + 1)).drop region.first = region.ops f ++ [op] := by
  obtain ⟨hlt, rfl⟩ := List.getElem?_eq_some_iff.mp hop
  rw [Region.ops, List.take_succ_eq_append_getElem hlt, List.drop_append_of_le_length]
  rw [List.length_take]
  omega

namespace Sound

variable {f : Func} {region : Region} (sound : region.Sound f)


include sound in
theorem parallel {op : Op} (h : op ∈ region.ops f) :
    ∃ kind ∈ region.kinds, op.parallelKind? = some kind := by
  have hm : op.parallelKind? ∈ (region.ops f).map Op.parallelKind? := List.mem_map_of_mem h
  rw [sound.kinds, List.mem_map] at hm
  obtain ⟨kind, hk, heq⟩ := hm
  exact ⟨kind, hk, heq.symm⟩

include sound in
theorem usedWith {kind : Access → Bool}
    (merged : ∀ a b : Access, kind (a.merge b) = (kind a || kind b)) {id : ArrayId} :
    UsedWith kind id region.uses ↔ ∃ op ∈ region.ops f, UsedWith kind id op.uses := by
  rw [sound.uses, usedWith_foldl merged, or_iff_right not_usedWith_nil]
  simp only [UsedWith, List.mem_flatMap]
  grind

include sound in
/-- A region reads what its operations read. -/
theorem mem_reads {id : ArrayId} : id ∈ region.reads ↔ ∃ op ∈ region.ops f, id ∈ op.reads := by
  have hm : id ∈ region.reads ↔ UsedWith Access.reads id region.uses := by
    simp only [Region.reads, UsedWith, List.mem_map, List.mem_filter]
    grind
  rw [hm, sound.usedWith Access.merge_reads]
  simp only [Op.usedWith_reads]

include sound in
/-- A region writes what its operations write. -/
theorem mem_writes {id : ArrayId} : id ∈ region.writes ↔ ∃ op ∈ region.ops f, id ∈ op.writes := by
  have hm : id ∈ region.writes ↔ UsedWith Access.writes id region.uses := by
    simp only [Region.writes, UsedWith, List.mem_map, List.mem_filter]
    grind
  rw [hm, sound.usedWith Access.merge_writes]
  simp only [Op.usedWith_writes]

include sound in
theorem arrays_nodup : (region.uses.map (·.array)).Nodup := by
  rw [sound.uses]
  exact arrays_nodup_foldl (by simp)

theorem mem_arrays {id : ArrayId} :
    id ∈ region.uses.map (·.array) ↔ id ∈ region.reads ∨ id ∈ region.writes := by
  simp only [Region.reads, Region.writes, List.mem_map, List.mem_filter]
  constructor
  · rintro ⟨use, hu, rfl⟩
    cases ha : use.access with
    | read => exact .inl ⟨use, ⟨hu, by simp [ha, Access.reads]⟩, rfl⟩
    | write => exact .inr ⟨use, ⟨hu, by simp [ha, Access.writes]⟩, rfl⟩
    | readWrite => exact .inl ⟨use, ⟨hu, by simp [ha, Access.reads]⟩, rfl⟩
  · rintro (⟨use, ⟨hu, _⟩, rfl⟩ | ⟨use, ⟨hu, _⟩, rfl⟩) <;> exact ⟨use, hu, rfl⟩

end Sound

end Region

/-! ## Partitions -/

/-- The positions of a segment's operations. -/
def Segment.positions (regions : List Region) : Segment → List Nat
  | .region index =>
    match regions[index]? with
    | none => []
    | some found => List.range' found.first (found.stop - found.first)
  | .hostOp index => [index]

/-- A segment names a region that there is, or a host-only operation. -/
def Segment.Valid (f : Func) (regions : List Region) : Segment → Prop
  | .region index => index < regions.length
  | .hostOp index => ∃ op, f.body[index]? = some op ∧ op.parallelKind? = none

theorem Segment.Valid.append {f : Func} {regions : List Region} {segment : Segment}
    (h : segment.Valid f regions) (more : List Region) : segment.Valid f (regions ++ more) := by
  cases segment with
  | region index => exact Nat.lt_of_lt_of_le h (by simp)
  | hostOp index => exact h

namespace Partition

/-- The segments cover the first `n` operations, each once, in order. -/
structure Sound (f : Func) (p : Partition) (n : Nat) : Prop where
  regions : ∀ {i : Nat} {region : Region}, p.regions[i]? = some region →
    region.index = i ∧ region.Sound f
  segments : ∀ segment ∈ p.segments, segment.Valid f p.regions
  covered : p.segments.flatMap (Segment.positions p.regions) = List.range n

/-- The loop invariant: an open region starts where the finished segments end. -/
def Progress.Sound (f : Func) (p : Progress) (n : Nat) : Prop :=
  match p.open? with
  | none => p.done.Sound f n
  | some region =>
    p.done.Sound f region.first ∧ region.index = p.done.regions.length ∧ region.stop = n ∧
      region.Sound f

theorem Sound.empty (f : Func) : Sound f ⟨[], []⟩ 0 :=
  ⟨by simp, by simp, by simp⟩

/-- More regions change nothing for the segments that there are. -/
theorem Sound.positions_append {f : Func} {p : Partition} {n : Nat} (sound : p.Sound f n)
    (more : List Region) {segment : Segment} (h : segment ∈ p.segments) :
    segment.positions (p.regions ++ more) = segment.positions p.regions := by
  have valid := sound.segments segment h
  cases segment with
  | region index => simp only [Segment.positions, List.getElem?_append_left valid]
  | hostOp index => rfl

/-- A segment at the end covers the positions it has. -/
theorem Sound.push {f : Func} {p : Partition} {n m : Nat} (sound : p.Sound f n)
    (more : List Region) (segment : Segment)
    (regions : ∀ {i : Nat} {region : Region}, (p.regions ++ more)[i]? = some region →
      region.index = i ∧ region.Sound f)
    (valid : segment.Valid f (p.regions ++ more))
    (reach : List.range n ++ segment.positions (p.regions ++ more) = List.range m) :
    Sound f ⟨p.regions ++ more, p.segments ++ [segment]⟩ m := by
  refine ⟨regions, ?_, ?_⟩
  · intro other hm
    rcases List.mem_append.mp hm with hm | hm
    · exact Segment.Valid.append (sound.segments other hm) more
    · rw [List.mem_singleton] at hm
      exact hm ▸ valid
  · have same : p.segments.flatMap (Segment.positions (p.regions ++ more)) = List.range n := by
      rw [← sound.covered, List.flatMap_def, List.flatMap_def]
      exact congrArg List.flatten (List.map_congr_left fun other hm => sound.positions_append more hm)
    simp only [List.flatMap_append, List.flatMap_singleton, same, reach]

/-- Closing the open region keeps what was read. -/
theorem Progress.close_sound {f : Func} {p : Progress} {n : Nat} (h : p.Sound f n) :
    p.close.Sound f n := by
  unfold Progress.Sound at h
  unfold Progress.close
  cases hopen : p.open? with
  | none =>
    rw [hopen] at h
    exact h
  | some region =>
    rw [hopen] at h
    obtain ⟨done, hindex, hstop, sound⟩ := h
    refine done.push [region] (.region region.index) ?_ ?_ ?_
    · intro i other hi
      rw [List.getElem?_append] at hi
      split at hi
      · exact done.regions hi
      · next hge =>
        rw [List.getElem?_singleton] at hi
        split at hi
        · next hz =>
          cases hi
          exact ⟨by omega, sound⟩
        · cases hi
    · simp [Segment.Valid, hindex]
    · -- the positions before the region and those of the region are one range
      have hfirst := sound.first_lt
      have : (p.done.regions ++ [region])[region.index]? = some region := by simp [hindex]
      simp only [Segment.positions, this, hstop]
      have split := List.range'_append_1 (s := 0) (m := region.first) (n := n - region.first)
      rw [Nat.zero_add, show region.first + (n - region.first) = n by omega] at split
      rw [List.range_eq_range', List.range_eq_range', split]

end Partition

namespace Func

/-- A region with a first operation. -/
theorem fresh_sound {f : Func} {op : Op} {kind : ParallelKind} {space : IterationSpace}
    {index n : Nat} {barrier : Bool} (hop : f.body[n]? = some op)
    (hkind : op.parallelKind? = some kind) (hspace : f.spaceOf? op = some space) :
    (Region.extend ⟨index, n, n, [], [], space, barrier⟩ kind op).Sound f := by
  have hlt := (List.getElem?_eq_some_iff.mp hop).1
  have hops : (Region.extend ⟨index, n, n, [], [], space, barrier⟩ kind op).ops f = [op] := by
    have := Region.ops_succ ⟨index, n, n, [], [], space, barrier⟩ (Nat.le_refl n) hop
    simpa [Region.extend, Region.ops] using this
  refine ⟨Nat.lt_succ_self n, hlt, ?_, ?_, ⟨op, ?_⟩, ?_, .inl ⟨op, hops⟩⟩
  · rw [hops]
    simp [hkind, Region.extend]
  · rw [hops]
    simp [Region.extend]
  · rw [hops]
    exact ⟨rfl, hspace⟩
  · intro other hm
    rw [hops, List.mem_singleton] at hm
    subst hm
    exact ⟨space, hspace, rfl⟩

/-- An operation may join an open region that admits it. -/
theorem extend_sound {f : Func} {region : Region} {op : Op} {kind : ParallelKind}
    {space : IterationSpace} (sound : region.Sound f) (hop : f.body[region.stop]? = some op)
    (hkind : op.parallelKind? = some kind) (hspace : f.spaceOf? op = some space)
    (admitted : region.admits kind space = true) : (region.extend kind op).Sound f := by
  have hlt := (List.getElem?_eq_some_iff.mp hop).1
  have hops : (region.extend kind op).ops f = region.ops f ++ [op] :=
    Region.ops_succ region (Nat.le_of_lt sound.first_lt) hop
  simp only [Region.admits, Bool.and_eq_true, Bool.not_eq_true', decide_eq_true_eq,
    List.any_eq_false, Bool.not_eq_true] at admitted
  obtain ⟨⟨hfree, hall⟩, hroot⟩ := admitted
  have hfirst := sound.first_lt
  refine ⟨?_, ?_, ?_, ?_, ?_, ?_, .inr ?_⟩
  · change region.first < region.stop + 1
    omega
  · exact hlt
  · rw [hops, List.map_append, sound.kinds]
    simp [hkind, Region.extend]
  · rw [hops, List.flatMap_append, List.foldl_append, ← sound.uses]
    simp [Region.extend]
  · obtain ⟨head, hhead, hs⟩ := sound.space
    exact ⟨head, by rw [hops, List.head?_append, hhead]; rfl, hs⟩
  · intro other hm
    rw [hops, List.mem_append, List.mem_singleton] at hm
    rcases hm with hm | rfl
    · exact sound.roots other hm
    · exact ⟨space, hspace, hroot.symm⟩
  · intro other hm
    change other ∈ region.kinds ++ [kind] at hm
    rw [List.mem_append, List.mem_singleton] at hm
    rcases hm with hm | rfl
    · exact hall other hm
    · exact hfree

theorem partitionStep?_sound {f : Func} {p q : Partition.Progress} {n : Nat} {op : Op}
    (hop : f.body[n]? = some op) (sound : p.Sound f n)
    (h : f.partitionStep? p n op = some q) : q.Sound f (n + 1) := by
  have closed := Partition.Progress.close_sound sound
  unfold partitionStep? at h
  split at h
  · next hkind =>
    cases h
    have := closed.push [] (.hostOp n) (by rw [List.append_nil]; exact closed.regions)
      ⟨op, hop, hkind⟩ (m := n + 1) (by simp [Segment.positions, List.range_succ])
    simpa [Partition.Progress.Sound] using this
  · next kind hkind =>
    cases hspace : f.spaceOf? op with
    | none => simp [hspace] at h
    | some space =>
      simp only [hspace, Option.bind_eq_bind, Option.bind_some] at h
      split at h
      · next region hopen =>
        cases h
        rw [Option.filter_eq_some_iff] at hopen
        simp only [Partition.Progress.Sound, hopen.1] at sound ⊢
        obtain ⟨done, hindex, hstop, hregion⟩ := sound
        subst hstop
        exact ⟨done, hindex, rfl, extend_sound hregion hop hkind hspace hopen.2⟩
      · cases h
        exact ⟨closed, rfl, rfl, fresh_sound hop hkind hspace⟩

theorem partitionFrom?_sound {f : Func} {p q : Partition.Progress} {n : Nat} {ops : List Op}
    (hops : f.body.drop n = ops) (sound : p.Sound f n)
    (h : f.partitionFrom? p n ops = some q) : q.Sound f (n + ops.length) := by
  induction ops generalizing p n with
  | nil =>
    cases h
    exact sound
  | cons op rest ih =>
    simp only [partitionFrom?, Option.bind_eq_bind, Option.bind_eq_some_iff] at h
    obtain ⟨next, hstep, hrest⟩ := h
    have hop : f.body[n]? = some op := by
      rw [← List.head?_drop, hops]
      rfl
    have hdrop : f.body.drop (n + 1) = rest := by
      rw [← List.drop_drop, hops]
      rfl
    have := ih hdrop (partitionStep?_sound hop sound hstep) hrest
    rwa [Nat.add_right_comm, Nat.add_assoc] at this

/-- The segments of a body cover it. -/
theorem partition?_sound {f : Func} {p : Partition} (h : f.partition? = some p) :
    p.Sound f f.body.length := by
  simp only [partition?, Option.map_eq_some_iff] at h
  obtain ⟨progress, hfrom, rfl⟩ := h
  have start : Partition.Progress.Sound f ⟨⟨[], []⟩, none, false⟩ 0 := Partition.Sound.empty f
  have sound := partitionFrom?_sound (n := 0) rfl start hfrom
  rw [Nat.zero_add] at sound
  exact Partition.Progress.close_sound sound

/-! ## Functions that have a partition -/

/-- Shapes come from arrays declared before, and operations use declared arrays. -/
structure Rooted (f : Func) : Prop where
  source_lt : ∀ {id decl source}, f.decl? id = some decl → decl.shape = .like source → source < id
  used_lt : ∀ {op}, op ∈ f.body → ∀ {id}, id ∈ op.reads ++ op.writes → id < f.arrays.length

theorem rooted_of_check {f : Func} (h : f.check = .ok ()) : f.Rooted := by
  obtain ⟨hd, _, _, ho⟩ := check_ok h
  exact ⟨fun hdecl hs => (checkDecls_like hd hdecl hs).1, fun hop => lt_of_checkOp (checkOps_ok ho _ hop)⟩

theorem Checked.rooted {f : Func} (wf : f.Checked) : f.Rooted :=
  ⟨fun hd hs => (wf.like_source hd hs).1, fun hop => wf.mem_lt hop⟩

namespace Rooted

variable {f : Func} (rooted : f.Rooted)

include rooted in
/-- A chain of shape sources goes down, so it ends within the declarations before it. -/
theorem exists_rootWithin (fuel : Nat) {id : ArrayId} (hfuel : id < fuel)
    (hid : id < f.arrays.length) : ∃ root, f.rootWithin fuel id = some root := by
  induction fuel generalizing id with
  | zero => exact absurd hfuel (Nat.not_lt_zero id)
  | succ fuel ih =>
    obtain ⟨decl, hd⟩ := exists_decl hid
    simp only [rootWithin, hd]
    cases hs : decl.shape with
    | param => exact ⟨_, rfl⟩
    | fixed dims => exact ⟨_, rfl⟩
    | like source =>
      have hlt := rooted.source_lt hd hs
      exact ih (Nat.lt_of_lt_of_le hlt (Nat.le_of_lt_succ hfuel)) (Nat.lt_trans hlt hid)

include rooted in
theorem exists_space {op : Op} (hop : op ∈ f.body) {kind : ParallelKind}
    (hkind : op.parallelKind? = some kind) : ∃ space, f.spaceOf? op = some space := by
  have hspace : ∀ extent, op.extent? = some extent → extent ∈ op.reads ++ op.writes →
      ∃ space, f.spaceOf? op = some space := by
    intro extent hextent hmem
    have hlt := rooted.used_lt hop hmem
    obtain ⟨decl, hd⟩ := exists_decl hlt
    obtain ⟨root, hroot⟩ := rooted.exists_rootWithin f.arrays.length hlt hlt
    exact ⟨⟨decl.rank, extent, root⟩, by simp [spaceOf?, hextent, hd, shapeRoot?, hroot]⟩
  cases op with
  | map out op args => exact hspace out rfl (by simp [Op.writes])
  | reduce out op input => exact hspace input rfl (by simp [Op.reads])
  | scan out op input => exact hspace input rfl (by simp [Op.reads])
  | store | print | call => cases hkind

include rooted in
theorem exists_partitionFrom {ops : List Op} (hops : ∀ op ∈ ops, op ∈ f.body)
    (p : Partition.Progress) (index : Nat) : ∃ q, f.partitionFrom? p index ops = some q := by
  induction ops generalizing p index with
  | nil => exact ⟨p, rfl⟩
  | cons op rest ih =>
    have hstep : ∃ next, f.partitionStep? p index op = some next := by
      unfold partitionStep?
      cases hkind : op.parallelKind? with
      | none => exact ⟨_, rfl⟩
      | some kind =>
        obtain ⟨space, hspace⟩ := rooted.exists_space (hops op (by simp)) hkind
        simp only [hspace, Option.bind_eq_bind, Option.bind_some]
        split <;> exact ⟨_, rfl⟩
    obtain ⟨next, hnext⟩ := hstep
    obtain ⟨q, hq⟩ := ih (fun other ho => hops other (by simp [ho])) next (index + 1)
    exact ⟨q, by simp [partitionFrom?, hnext, hq]⟩

include rooted in
theorem exists_partition : ∃ p, f.partition? = some p := by
  obtain ⟨q, hq⟩ := rooted.exists_partitionFrom (fun _ hop => hop) ⟨⟨[], []⟩, none, false⟩ 0
  exact ⟨q.close, by rw [partition?, hq]; rfl⟩

end Rooted

end Func

end ArrayOffload
