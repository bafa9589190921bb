import ArrayOffload.Proofs.Partition
import Mathlib.Data.List.Nodup

/-!
# Partitions are exact and maximal

What a partition is, said without the loop that makes it. The segments list the body; a region is
one reduction, one scan, or maps over one shape; and no two regions that stand side by side could
have been one.

* `Region.Exact`: what a region records is what its operations are;
* `Partition.Maximal`: regions end only where they have to;
* `Func.partition?_exact`: valid functions have a partition that is both.
-/

namespace ArrayOffload

/-! ## First uses -/

/-- One more array in a list of first uses. -/
def noted (seen : List ArrayId) (id : ArrayId) : List ArrayId :=
  if id ∈ seen then seen else seen ++ [id]

theorem distinct_eq (ids : List ArrayId) : distinct ids = ids.foldl noted [] := rfl

theorem mem_foldl_noted {ids seen : List ArrayId} {id : ArrayId} :
    id ∈ ids.foldl noted seen ↔ id ∈ seen ∨ id ∈ ids := by
  induction ids generalizing seen with
  | nil => simp
  | cons head tail ih =>
    rw [List.foldl_cons, ih, noted]
    split <;> grind

theorem foldl_noted (seen ids : List ArrayId) (id : ArrayId) :
    (noted ids id).foldl noted seen = noted (ids.foldl noted seen) id := by
  by_cases h : id ∈ ids
  · have later : id ∈ ids.foldl noted seen := mem_foldl_noted.mpr (.inr h)
    simp only [noted, if_pos h]
    exact (if_pos later).symm
  · simp only [noted, if_neg h, List.foldl_append, List.foldl_cons, List.foldl_nil]

/-- Repetitions that were dropped before are not missed. -/
theorem foldl_noted_distinct (seen ids : List ArrayId) :
    (distinct ids).foldl noted seen = ids.foldl noted seen := by
  have general : ∀ done : List ArrayId,
      (ids.foldl noted done).foldl noted seen = ids.foldl noted (done.foldl noted seen) := by
    induction ids with
    | nil => exact fun _ => rfl
    | cons id rest ih =>
      intro done
      rw [List.foldl_cons, List.foldl_cons, ih, foldl_noted]
  exact general []

theorem distinct_flatMap_distinct {α : Type} (ids : α → List ArrayId) (xs : List α) :
    distinct (xs.flatMap fun x => distinct (ids x)) = distinct (xs.flatMap ids) := by
  have general : ∀ seen : List ArrayId,
      (xs.flatMap fun x => distinct (ids x)).foldl noted seen =
        (xs.flatMap ids).foldl noted seen := by
    induction xs with
    | nil => exact fun _ => rfl
    | cons x rest ih =>
      intro seen
      simp only [List.flatMap_cons, List.foldl_append, foldl_noted_distinct, ih]
  exact general []

/-- Merged uses name each array where it is used first. -/
theorem arrays_foldl_addUse (more uses : List ArrayUse) :
    (more.foldl addUse uses).map (·.array) =
      (more.map (·.array)).foldl noted (uses.map (·.array)) := by
  induction more generalizing uses with
  | nil => rfl
  | cons use rest ih =>
    rw [List.foldl_cons, ih, arrays_addUse, List.map_cons, List.foldl_cons, noted]

theorem Op.arrays_uses (op : Op) : op.uses.map (·.array) = distinct (op.reads ++ op.writes) := by
  rw [Op.uses, arrays_foldl_addUse, distinct_eq]
  simp [List.map_append, Function.comp_def]

namespace Region

/-! ## Regions -/

/-- The region is a single reduction or a single scan. -/
def Alone (region : Region) : Prop := region.kinds = [.reduce] ∨ region.kinds = [.scan]

/-- What the region records is what its operations are. -/
structure Exact (f : Func) (region : Region) : Prop where
  first_lt : region.first < region.stop
  stop_le : region.stop ≤ f.body.length
  kinds : (region.ops f).map Op.parallelKind? = region.kinds.map some
  alone_or_maps : region.Alone ∨ ∀ op ∈ region.ops f, ∃ out mapOp args,
    op = .map out mapOp args ∧ f.shapeRoot? out = some region.space.root
  /-- The iteration space is that of the first operation. -/
  space : ∃ op, (region.ops f).head? = some op ∧ f.spaceOf? op = some region.space
  /-- The arrays stand in the order of their first use, each once. -/
  arrays : region.uses.map (·.array) =
    distinct ((region.ops f).flatMap fun op => op.reads ++ op.writes)
  nodup : (region.uses.map (·.array)).Nodup
  touched : ∀ op ∈ region.ops f, ∀ id ∈ op.reads ++ op.writes, ∃ use ∈ region.uses, use.array = id
  reads : ∀ use ∈ region.uses, use.access.reads = true ↔
    ∃ op ∈ region.ops f, use.array ∈ op.reads
  writes : ∀ use ∈ region.uses, use.access.writes = true ↔
    ∃ op ∈ region.ops f, use.array ∈ op.writes

namespace Sound

variable {f : Func} {region : Region} (sound : region.Sound f)

include sound in
/-- A kind that needs a region of its own has one. -/
theorem alone_of_isolated {kind : ParallelKind} (hkind : kind ∈ region.kinds)
    (isolated : kind.isolated = true) : region.Alone := by
  rcases sound.fused with ⟨op, hop⟩ | fused
  · have hlength := congrArg List.length sound.kinds
    rw [List.length_map, List.length_map, hop] at hlength
    obtain ⟨only, honly⟩ := List.length_eq_one_iff.mp hlength.symm
    rw [honly, List.mem_singleton] at hkind
    subst hkind
    cases kind with
    | map => cases isolated
    | reduce => exact .inl honly
    | scan => exact .inr honly
  · rw [fused kind hkind] at isolated
    cases isolated

include sound in
theorem alone_or_maps : region.Alone ∨ ∀ op ∈ region.ops f, ∃ out mapOp args,
    op = .map out mapOp args ∧ f.shapeRoot? out = some region.space.root := by
  by_cases isolated : ∃ kind ∈ region.kinds, kind.isolated = true
  · obtain ⟨kind, hkind, isolated⟩ := isolated
    exact .inl (sound.alone_of_isolated hkind isolated)
  · refine .inr fun op hop => ?_
    obtain ⟨kind, hkind, hop'⟩ := sound.parallel hop
    obtain ⟨space, hspace, hroot⟩ := sound.roots op hop
    cases op with
    | map out mapOp args =>
      simp only [Func.spaceOf?, Op.extent?, Option.bind_eq_bind, Option.bind_some,
        Option.bind_eq_some_iff] at hspace
      obtain ⟨decl, _, root, hshape, heq⟩ := hspace
      cases heq
      exact ⟨out, mapOp, args, rfl, hroot ▸ hshape⟩
    | reduce | scan =>
      cases hop'
      exact absurd ⟨_, hkind, rfl⟩ isolated
    | store | print | call => cases hop'

include sound in
theorem arrays_eq : region.uses.map (·.array) =
    distinct ((region.ops f).flatMap fun op => op.reads ++ op.writes) := by
  rw [sound.uses, arrays_foldl_addUse, List.map_nil, ← distinct_eq, List.map_flatMap]
  simp only [Op.arrays_uses, distinct_flatMap_distinct]

include sound in
/-- Arrays stand once, so a use has the access that some use of its array has. -/
theorem usedWith_array {kind : Access → Bool} {use : ArrayUse} (huse : use ∈ region.uses) :
    UsedWith kind use.array region.uses ↔ kind use.access = true := by
  constructor
  · rintro ⟨other, hother, harray, hkind⟩
    rwa [List.inj_on_of_nodup_map sound.arrays_nodup hother huse harray] at hkind
  · exact fun hkind => ⟨use, huse, rfl, hkind⟩

include sound in
theorem exact : region.Exact f where
  first_lt := sound.first_lt
  stop_le := sound.stop_le
  kinds := sound.kinds
  alone_or_maps := sound.alone_or_maps
  space := sound.space
  arrays := sound.arrays_eq
  nodup := sound.arrays_nodup
  touched op hop id hid := by
    have hmem : id ∈ region.uses.map (·.array) := by
      rw [sound.arrays_eq, mem_distinct, List.mem_flatMap]
      exact ⟨op, hop, hid⟩
    exact List.mem_map.mp hmem
  reads use huse := by
    rw [← sound.usedWith_array huse, sound.usedWith Access.merge_reads]
    simp only [Op.usedWith_reads]
  writes use huse := by
    rw [← sound.usedWith_array huse, sound.usedWith Access.merge_writes]
    simp only [Op.usedWith_writes]

end Sound

/-- The regions could not have been one. -/
def Apart (left right : Region) : Prop :=
  left.Alone ∨ right.Alone ∨ left.space.root ≠ right.space.root

/-- A region that admits an operation has nothing that must stand alone. -/
theorem not_alone_of_admits {region : Region} {kind : ParallelKind} {space : IterationSpace}
    (h : region.admits kind space = true) : ¬ region.Alone := by
  simp only [admits, Bool.and_eq_true, Bool.not_eq_true', List.any_eq_false] at h
  rintro (halone | halone) <;> exact h.1.2 _ (by rw [halone]; exact List.mem_singleton_self _) rfl

theorem Apart.extend {left right : Region} {kind : ParallelKind} {space : IterationSpace} {op : Op}
    (h : left.Apart right) (admitted : right.admits kind space = true) :
    left.Apart (right.extend kind op) := by
  rcases h with hleft | hright | hroot
  · exact .inl hleft
  · exact absurd hright (not_alone_of_admits admitted)
  · exact .inr (.inr hroot)

/-- An operation that the open region does not admit starts a region apart from it. -/
theorem Sound.apart_of_not_admits {f : Func} {left fresh : Region} {kind : ParallelKind}
    {op : Op} (sound : left.Sound f) (hkinds : fresh.kinds = [])
    (h : ¬ left.admits kind fresh.space = true) : left.Apart (fresh.extend kind op) := by
  simp only [admits, Bool.and_eq_true, Bool.not_eq_true', not_and_or, Bool.not_eq_false,
    List.any_eq_true, decide_eq_true_eq] at h
  rcases h with (isolated | ⟨other, hother, isolated⟩) | hroot
  · refine .inr (.inl ?_)
    cases kind with
    | map => cases isolated
    | reduce => exact .inl (by simp [extend, hkinds])
    | scan => exact .inr (by simp [extend, hkinds])
  · exact .inl (sound.alone_of_isolated hother isolated)
  · exact .inr (.inr hroot)

end Region

/-! ## Partitions -/

/-- A list in two parts is cut in the first or in the second. -/
theorem append_eq_cut {α : Type} {xs ys before after : List α} {x : α}
    (h : xs ++ ys = before ++ x :: after) :
    (∃ more, xs = before ++ x :: more ∧ after = more ++ ys) ∨
      ∃ more, before = xs ++ more ∧ ys = more ++ x :: after := by
  rcases List.append_eq_append_iff.mp h with ⟨more, hbefore, hys⟩ | ⟨more, hxs, hafter⟩
  · exact .inr ⟨more, hbefore, hys⟩
  · cases more with
    | nil => exact .inr ⟨[], by simpa using hxs.symm, hafter.symm⟩
    | cons y more =>
      cases hafter
      exact .inl ⟨more, hxs, rfl⟩

def Segment.region? : Segment → Option Nat
  | .region index => some index
  | .hostOp _ => none

namespace Partition

/-- The last segment is a host-only operation. -/
def EndsOnHost (segments : List Segment) : Prop :=
  ∃ index, segments.getLast? = some (.hostOp index)

/-- Regions are numbered in order, end only where they have to, and know what stands before. -/
structure Maximal (p : Partition) : Prop where
  numbered : p.segments.filterMap Segment.region? = List.range p.regions.length
  apart : ∀ {before after : List Segment} {i j : Nat} {left right : Region},
    p.segments = before ++ .region i :: .region j :: after →
    p.regions[i]? = some left → p.regions[j]? = some right → left.Apart right
  barriers : ∀ {before after : List Segment} {i : Nat} {region : Region},
    p.segments = before ++ .region i :: after → p.regions[i]? = some region →
    (region.afterBarrier = true ↔ EndsOnHost before)

/-- The segments list the body of the function once, in order, in maximal regions. -/
structure Exact (f : Func) (p : Partition) : Prop extends Maximal p where
  covered : p.segments.flatMap (Segment.positions p.regions) = List.range f.body.length
  hostOps : ∀ {i : Nat}, .hostOp i ∈ p.segments →
    ∃ op, f.body[i]? = some op ∧ op.parallelKind? = none
  regions : ∀ {k : Nat} {region : Region}, p.regions[k]? = some region →
    region.index = k ∧ region.Exact f

/-- A region may follow: it knows whether a host-only operation stands right before it, and it is
apart from a region that does. -/
structure Continues (p : Partition) (region : Region) : Prop where
  index : region.index = p.regions.length
  barrier : region.afterBarrier = true ↔ EndsOnHost p.segments
  apart : ∀ {i : Nat} {left : Region}, p.segments.getLast? = some (.region i) →
    p.regions[i]? = some left → left.Apart region

namespace Maximal

theorem empty : Maximal ⟨[], []⟩ := ⟨rfl, by simp, by simp⟩

variable {p : Partition} (maximal : p.Maximal)

include maximal in
theorem lt_length {i : Nat} (h : .region i ∈ p.segments) : i < p.regions.length := by
  rw [← List.mem_range, ← maximal.numbered]
  exact List.mem_filterMap.mpr ⟨_, h, rfl⟩

/-- Where a list with one more element is cut, the rest ends in that element or is empty. -/
theorem concat_eq_cut {segments before after : List Segment} {last mid : Segment}
    (h : segments ++ [last] = before ++ mid :: after) :
    (after = [] ∧ before = segments ∧ mid = last) ∨
      ∃ rest, after = rest ++ [last] ∧ segments = before ++ mid :: rest := by
  rcases append_eq_cut h with ⟨rest, hsegments, hafter⟩ | ⟨more, hbefore, hlast⟩
  · exact .inr ⟨rest, hafter, hsegments⟩
  · obtain ⟨rfl, hmid⟩ := List.append_eq_singleton_iff.mp hlast.symm |>.resolve_right (by simp)
    cases hmid
    exact .inl ⟨rfl, by simpa using hbefore, rfl⟩

include maximal in
theorem push_region {region : Region} (continues : p.Continues region) :
    Maximal ⟨p.regions ++ [region], p.segments ++ [.region region.index]⟩ := by
  have old : ∀ {i : Nat}, .region i ∈ p.segments →
      (p.regions ++ [region])[i]? = p.regions[i]? := fun h =>
    List.getElem?_append_left (maximal.lt_length h)
  have new : (p.regions ++ [region])[region.index]? = some region := by simp [continues.index]
  refine ⟨?_, ?_, ?_⟩
  · simp [maximal.numbered, Segment.region?, continues.index, List.range_succ]
  · intro before after i j left right hsplit hleft hright
    rcases concat_eq_cut hsplit with ⟨hnil, _, _⟩ | ⟨rest, hafter, hsegments⟩
    · cases hnil
    · rw [old (by simp [hsegments])] at hleft
      cases rest with
      | nil =>
        cases hafter
        rw [new] at hright
        cases hright
        exact continues.apart (by simp [hsegments]) hleft
      | cons next rest =>
        cases hafter
        rw [old (by simp [hsegments])] at hright
        exact maximal.apart hsegments hleft hright
  · intro before after i other hsplit hother
    rcases concat_eq_cut hsplit with ⟨_, rfl, hsegment⟩ | ⟨rest, _, hsegments⟩
    · cases hsegment
      rw [new] at hother
      cases hother
      exact continues.barrier
    · rw [old (by simp [hsegments])] at hother
      exact maximal.barriers hsegments hother

include maximal in
theorem push_hostOp (index : Nat) : Maximal ⟨p.regions, p.segments ++ [.hostOp index]⟩ := by
  refine ⟨?_, ?_, ?_⟩
  · simp [maximal.numbered, Segment.region?]
  · intro before after i j left right hsplit hleft hright
    rcases concat_eq_cut hsplit with ⟨hnil, _, _⟩ | ⟨rest, hafter, hsegments⟩
    · cases hnil
    · cases rest with
      | nil => cases hafter
      | cons next rest =>
        cases hafter
        exact maximal.apart hsegments hleft hright
  · intro before after i region hsplit hregion
    rcases concat_eq_cut hsplit with ⟨_, _, hsegment⟩ | ⟨rest, _, hsegments⟩
    · cases hsegment
    · exact maximal.barriers hsegments hregion

end Maximal

/-! ## The loop -/

/-- The second loop invariant: an open region continues the finished segments, and without one
they end in no region. -/
def Progress.Maximal (p : Progress) : Prop :=
  p.done.Maximal ∧
    match p.open? with
    | none => (∀ i, p.done.segments.getLast? ≠ some (.region i)) ∧
        (p.barrier = true ↔ EndsOnHost p.done.segments)
    | some region => p.done.Continues region ∧ p.barrier = false

namespace Progress.Maximal

variable {p : Progress}

theorem close (h : p.Maximal) : p.close.Maximal := by
  unfold Progress.close
  cases hopen : p.open? with
  | none => exact h.1
  | some region =>
    simp only [Progress.Maximal, hopen] at h
    exact h.1.push_region h.2.1

/-- The barrier flag says whether a host-only operation came last. -/
theorem barrier_iff (h : p.Maximal) : p.barrier = true ↔ EndsOnHost p.close.segments := by
  unfold Progress.close
  cases hopen : p.open? with
  | none =>
    simp only [Progress.Maximal, hopen] at h
    exact h.2.2
  | some region =>
    simp only [Progress.Maximal, hopen] at h
    simp [EndsOnHost, h.2.2]

/-- A region comes last only while it is open. -/
theorem open_of_last (h : p.Maximal) {i : Nat} {left : Region}
    (hlast : p.close.segments.getLast? = some (.region i))
    (hleft : p.close.regions[i]? = some left) : p.open? = some left := by
  unfold Progress.close at hlast hleft
  cases hopen : p.open? with
  | none =>
    simp only [Progress.Maximal, hopen] at h hlast
    exact absurd hlast (h.2.1 i)
  | some region =>
    simp only [Progress.Maximal, hopen] at h hlast hleft
    simp only [List.getLast?_concat, Option.some.injEq, Segment.region.injEq] at hlast
    subst hlast
    simpa [h.2.1.index] using hleft

/-- An operation that the open region does not admit starts a region that may follow it. -/
theorem fresh_continues {f : Func} {n : Nat} {kind : ParallelKind} {space : IterationSpace}
    (h : p.Maximal) (sound : p.Sound f n)
    (refused : (p.open?.filter fun region => region.admits kind space) = none) (op : Op) :
    p.close.Continues (Region.extend ⟨p.close.regions.length, n, n, [], [], space, p.barrier⟩
      kind op) where
  index := rfl
  barrier := h.barrier_iff
  apart {i left} hlast hleft := by
    have hopen := h.open_of_last hlast hleft
    have hsound := (Progress.close_sound sound).regions hleft
    refine Region.Sound.apart_of_not_admits hsound.2 rfl fun admitted => ?_
    simp [hopen, admitted] at refused

end Progress.Maximal

end Partition

namespace Func

theorem partitionStep?_maximal {f : Func} {p q : Partition.Progress} {n : Nat} {op : Op}
    (sound : p.Sound f n) (maximal : p.Maximal) (h : f.partitionStep? p n op = some q) :
    q.Maximal := by
  unfold partitionStep? at h
  split at h
  · cases h
    refine ⟨maximal.close.push_hostOp n, ?_, ?_⟩ <;> simp [Partition.EndsOnHost]
  · next kind hkind =>
    simp only [Option.bind_eq_bind, Option.bind_eq_some_iff] at h
    obtain ⟨space, _, h⟩ := h
    split at h
    · next region hopen =>
      cases h
      rw [Option.filter_eq_some_iff] at hopen
      simp only [Partition.Progress.Maximal, hopen.1] at maximal ⊢
      obtain ⟨done, continues, hbarrier⟩ := maximal
      -- the open region grows in place: its number and what stands before it stay
      exact ⟨done, ⟨continues.index, continues.barrier, fun hlast hleft =>
        (continues.apart hlast hleft).extend hopen.2⟩, hbarrier⟩
    · next refused =>
      cases h
      exact ⟨maximal.close, maximal.fresh_continues sound refused op, rfl⟩

theorem partitionFrom?_maximal {f : Func} {p q : Partition.Progress} {n : Nat} {ops : List Op}
    (hops : f.body.drop n = ops) (sound : p.Sound f n) (maximal : p.Maximal)
    (h : f.partitionFrom? p n ops = some q) : q.Maximal := by
  induction ops generalizing p n with
  | nil =>
    cases h
    exact maximal
  | cons op rest ih =>
    simp only [partitionFrom?, Option.bind_eq_bind, Option.bind_eq_some_iff] at h
    obtain ⟨next, hstep, hrest⟩ := h
    have hop : f.body[n]? = some op := by
      rw [← List.head?_drop, hops]
      rfl
    have hdrop : f.body.drop (n + 1) = rest := by
      rw [← List.drop_drop, hops]
      rfl
    exact ih hdrop (partitionStep?_sound hop sound hstep)
      (partitionStep?_maximal sound maximal hstep) hrest

theorem partition?_maximal {f : Func} {p : Partition} (h : f.partition? = some p) : p.Maximal := by
  simp only [partition?, Option.map_eq_some_iff] at h
  obtain ⟨progress, hfrom, rfl⟩ := h
  have start : Partition.Progress.Maximal ⟨⟨[], []⟩, none, false⟩ :=
    ⟨.empty, by simp, by simp [Partition.EndsOnHost]⟩
  have empty : Partition.Progress.Sound f ⟨⟨[], []⟩, none, false⟩ 0 := Partition.Sound.empty f
  exact (partitionFrom?_maximal rfl empty start hfrom).close

/-- The body of a valid function falls into segments exactly, and regions are as long as they can
be. -/
theorem partition?_exact {f : Func} (valid : f.validate = .ok ()) :
    ∃ p, f.partition? = some p ∧ p.Exact f := by
  obtain ⟨p, hp⟩ := (rooted_of_check (check_of_validate valid)).exists_partition
  have sound := partition?_sound hp
  refine ⟨p, hp, partition?_maximal hp, sound.covered, fun h => sound.segments _ h, ?_⟩
  intro k region hregion
  obtain ⟨hindex, hsound⟩ := sound.regions hregion
  exact ⟨hindex, hsound.exact⟩

end Func

namespace Sample

/-- Two maps, a reduction of what they give, a print, maps over two shapes (one with an infinite
constant), a scan, and a map of its result. -/
def stages : Func where
  name := "stages"
  arrays := [⟨"x", .f32, 1, .param, .param 0⟩, ⟨"t", .f32, 1, .like 0, .scratch⟩,
    ⟨"s", .f32, 1, .fixed [1], .scratch⟩, ⟨"u", .f32, 1, .like 1, .scratch⟩]
  params := [0]
  body := [.map 1 .mul [.array 0, .array 0], .map 3 .add [.array 1, .array 0], .reduce 2 .sum 3,
    .print [2], .map 2 .mul [.array 2, .scalar ⟨0x7ff0000000000000⟩], .map 1 .neg [.array 3],
    .scan 3 .sum 1, .map 3 .add [.array 3, .array 0]]
  returns := some 3
  serialOnly := false

end Sample

theorem Func.partition?_exact_sample : ∃ p, Sample.stages.partition? = some p ∧
    p.Exact Sample.stages ∧
    p.segments =
      [.region 0, .region 1, .hostOp 3, .region 2, .region 3, .region 4, .region 5] := by
  obtain ⟨p, hp, exact⟩ := partition?_exact (f := Sample.stages) rfl
  have hsegments : Sample.stages.partition?.map (·.segments) =
      some [.region 0, .region 1, .hostOp 3, .region 2, .region 3, .region 4, .region 5] := rfl
  rw [hp] at hsegments
  exact ⟨p, hp, exact, Option.some.inj hsegments⟩

end ArrayOffload
