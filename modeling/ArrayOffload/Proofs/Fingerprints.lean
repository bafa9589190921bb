import ArrayOffload.Engine.Dump
import ArrayOffload.Proofs.Lowered
import ArrayOffload.Proofs.Separation

/-!
# What a fingerprint determines

The names of arrays are not part of a fingerprint, and no kernel depends on them. So if digests do
not collide, then a fingerprint and the name of a kernel determine the kernel, whichever function it
comes from and whichever of its regions the device accepts.

* `ContentHash.whole_ofEncoding`, `ContentHash.hex_inj`: digests and their texts;
* `Kernel.nameOf_inj`: the name of a kernel tells function and region apart;
* `Func.partition?_nameless`, `LaunchPlan.Implements.kernel_eq`: regions and kernels do not depend
  on the names of arrays;
* `Compilation.kernel_eq`: kernels with equal names under equal fingerprints are equal.
-/

namespace ArrayOffload

/-! ## Digests -/

theorem length_flatMap_of_forall {α β : Type} {f : α → List β} (width : Nat)
    (h : ∀ x, (f x).length = width) (xs : List α) : (xs.flatMap f).length = xs.length * width := by
  induction xs with
  | nil => simp
  | cons x xs ih =>
    rw [List.flatMap_cons, List.length_append, h, ih, List.length_cons, Nat.succ_mul, Nat.add_comm]

namespace ContentHash

/-- The digest of an encoding has 32 bytes. -/
theorem whole_ofEncoding (bytes : List UInt8) : (ofEncoding bytes).Whole := by
  have hchain : ∀ node : Blake3.Node, node.compress.toList.length = 8 := by
    intro node
    simp [Blake3.Node.compress]
  refine (length_flatMap_of_forall 4 (fun _ => rfl) _).trans ?_
  rw [hchain]

/-- No two of these inputs have the same digest. -/
def Distinguishes (inputs : List (List UInt8)) : Prop :=
  ∀ a ∈ inputs, ∀ b ∈ inputs, ofEncoding a = ofEncoding b → a = b

theorem hexDigit_inj : ∀ m < 16, ∀ n < 16,
    hexDigits.getD m '0' = hexDigits.getD n '0' → m = n := by
  decide +kernel

theorem hex_inj {hash other : ContentHash} (h : hash.hex = other.hex) : hash = other := by
  obtain ⟨bytes⟩ := hash
  obtain ⟨others⟩ := other
  have hdigits := String.ofList_inj.mp h
  clear h
  refine congrArg mk ?_
  induction bytes generalizing others with
  | nil =>
    cases others with
    | nil => rfl
    | cons => cases hdigits
  | cons byte rest ih =>
    cases others with
    | nil => cases hdigits
    | cons other others =>
      simp only [List.flatMap_cons, List.cons_append, List.nil_append, List.cons.injEq] at hdigits
      obtain ⟨hhigh, hlow, hrest⟩ := hdigits
      have hbyte := byte.toNat_lt
      have hother := other.toNat_lt
      have hdiv := hexDigit_inj _ (by omega) _ (by omega) hhigh
      have hmod := hexDigit_inj _ (by omega) _ (by omega) hlow
      rw [UInt8.toNat_inj.mp (by omega : byte.toNat = other.toNat), ih others hrest]

theorem length_hex (hash : ContentHash) : hash.hex.toList.length = hash.bytes.length * 2 := by
  rw [hex, String.toList_ofList]
  exact length_flatMap_of_forall 2 (fun _ => rfl) _

theorem slash_not_mem_hex (hash : ContentHash) : '/' ∉ hash.hex.toList := by
  have hdigit : ∀ n < 16, hexDigits.getD n '0' ≠ '/' := by decide +kernel
  rw [hex, String.toList_ofList, List.mem_flatMap]
  rintro ⟨byte, _, hmem⟩
  have hbyte := byte.toNat_lt
  simp only [List.mem_cons, List.not_mem_nil, or_false] at hmem
  rcases hmem with heq | heq
  · exact hdigit _ (by omega) heq.symm
  · exact hdigit _ (by omega) heq.symm

end ContentHash

/-! ## Names of kernels -/

/-- A list is cut in one way only at the last occurrence of an element. -/
theorem cut_last_inj {α : Type} {x : α} {front front' back back' : List α} (hback : x ∉ back)
    (hback' : x ∉ back') (h : front ++ x :: back = front' ++ x :: back') :
    front = front' ∧ back = back' := by
  rcases List.append_eq_append_iff.mp h with ⟨more, rfl, hmore⟩ | ⟨more, rfl, hmore⟩ <;>
    cases more with
    | nil => simp_all
    | cons y more =>
      cases hmore
      simp at hback hback'

namespace Kernel

theorem toList_nameOf (name : String) (i : Nat) :
    (name ++ "_r" ++ toString i).toList = name.toList ++ '_' :: 'r' :: Nat.toDigits 10 i := by
  simp

/-- The name of a kernel tells the function and the region. -/
theorem nameOf_inj {name other : String} {i j : Nat}
    (h : name ++ "_r" ++ toString i = other ++ "_r" ++ toString j) : name = other ∧ i = j := by
  have hdigits : ∀ i : Nat, '_' ∉ 'r' :: Nat.toDigits 10 i := by
    intro i
    simp [Nat.underscore_not_in_toDigits]
  have hchars := congrArg String.toList h
  rw [toList_nameOf, toList_nameOf] at hchars
  obtain ⟨hname, hnumber⟩ := cut_last_inj (hdigits i) (hdigits j) hchars
  refine ⟨String.toList_inj.mp hname, ?_⟩
  have hvalue := congrArg (Nat.ofDigitChars 10 · 0) (List.cons.inj hnumber).2
  simpa only [Nat.ofDigitChars_ten_toDigits] using hvalue

theorem slash_not_mem_nameOf {name : String} (h : '/' ∉ name.toList) (i : Nat) :
    '/' ∉ (name ++ "_r" ++ toString i).toList := by
  rw [toList_nameOf]
  have hdigits : '/' ∉ Nat.toDigits 10 i := fun hmem =>
    absurd (Nat.isDigit_of_mem_toDigits (by decide) (Nat.le_refl 10) hmem) (by decide)
  simp [h, hdigits]

end Kernel

/-! ## Names of arrays -/

namespace Func

variable (f : Func)

theorem decl?_nameless (id : ArrayId) : f.nameless.decl? id = (f.decl? id).map (·.nameless) := by
  simp [decl?, nameless]

theorem rootWithin_nameless (fuel : Nat) (id : ArrayId) :
    f.nameless.rootWithin fuel id = f.rootWithin fuel id := by
  induction fuel generalizing id with
  | zero => rfl
  | succ fuel ih =>
    rw [rootWithin, rootWithin, decl?_nameless]
    cases f.decl? id with
    | none => rfl
    | some decl =>
      simp only [Option.map_some, ArrayDecl.nameless]
      split
      · rfl
      · rfl
      · exact ih _

theorem spaceOf?_nameless (op : Op) : f.nameless.spaceOf? op = f.spaceOf? op := by
  have hroot : f.nameless.shapeRoot? = f.shapeRoot? := by
    funext id
    rw [shapeRoot?, shapeRoot?, rootWithin_nameless]
    simp [nameless]
  unfold spaceOf?
  cases op.extent? with
  | none => rfl
  | some extent =>
    simp only [Option.bind_eq_bind, Option.bind_some, decl?_nameless, hroot]
    cases f.decl? extent <;> rfl

theorem partitionStep?_nameless (p : Partition.Progress) (index : Nat) (op : Op) :
    f.nameless.partitionStep? p index op = f.partitionStep? p index op := by
  unfold partitionStep?
  rw [spaceOf?_nameless]

theorem partitionFrom?_nameless (p : Partition.Progress) (index : Nat) (ops : List Op) :
    f.nameless.partitionFrom? p index ops = f.partitionFrom? p index ops := by
  induction ops generalizing p index with
  | nil => rfl
  | cons op rest ih =>
    rw [partitionFrom?, partitionFrom?, partitionStep?_nameless]
    simp only [ih]

/-- The regions of a body do not depend on names. -/
theorem partition?_nameless : f.nameless.partition? = f.partition? := by
  rw [partition?, partition?, partitionFrom?_nameless]
  rfl

theorem paramsOf?_nameless (uses : List ArrayUse) :
    Kernel.paramsOf? f.nameless uses = Kernel.paramsOf? f uses := by
  unfold Kernel.paramsOf?
  simp only [decl?_nameless, Option.map_map]
  rfl

end Func

namespace LaunchPlan.Implements

variable {f g : Func} {region : Region} {plan other : LaunchPlan}

theorem name_eq (h : plan.Implements f region) :
    plan.kernel.name = f.name ++ "_r" ++ toString region.index := by
  obtain ⟨h, _⟩ := h
  simp only [Kernel.ofRegion, bind_eq_ok] at h
  obtain ⟨_, _, _, _, h⟩ := h
  simp only [pure, Except.pure, Except.ok.injEq, Prod.mk.injEq] at h
  rw [← h.1]

/-- Functions that differ in the names of arrays only have the same kernels. -/
theorem kernel_eq (h : plan.Implements f region) (h' : other.Implements g region)
    (alike : f.nameless = g.nameless) (hname : f.name = g.name) : plan.kernel = other.kernel := by
  obtain ⟨_, hregion, hrank, hparams, hbody⟩ := h.parts
  obtain ⟨_, hregion', hrank', hparams', hbody'⟩ := h'.parts
  have hops : region.ops f = region.ops g := by
    have hbodies : f.nameless.body = g.nameless.body := congrArg Func.body alike
    change f.body = g.body at hbodies
    rw [Region.ops, Region.ops, hbodies]
  have sameBody : plan.kernel.body = other.kernel.body := by
    have hforms := Kernel.bodyIn_ok hbody
    rw [hops, Kernel.bodyIn_ok hbody'] at hforms
    exact ((List.map_inj_right fun _ _ => Option.some.inj).mp hforms).symm
  have sameParams : plan.kernel.params = other.kernel.params := by
    rw [← Func.paramsOf?_nameless, alike, Func.paramsOf?_nameless, hparams'] at hparams
    exact (Option.some.inj hparams).symm
  have sameName : plan.kernel.name = other.kernel.name := by
    rw [h.name_eq, h'.name_eq, hname]
  cases hk : plan.kernel
  cases hk' : other.kernel
  simp_all

end LaunchPlan.Implements

/-! ## Units under a fingerprint -/

theorem Lowering.run_fingerprint {profile : Profile} {f : Func} {key : UnitKey}
    {fingerprint : ContentHash} {before after : Machine} {unit : CompiledUnit}
    (h : exec (run profile f key fingerprint) before = (.ok unit, after)) :
    unit.fingerprint = fingerprint := by
  simp only [run, exec_bind_eq_ok] at h
  obtain ⟨outline, _, _, _, _, _, _, _, _, h⟩ := h
  cases hdraft : outline.draft with
  | error =>
    rw [hdraft] at h
    cases h
  | ok body =>
    rw [hdraft] at h
    cases h
    rfl

/-- A unit with all that it was lowered from, under its fingerprint. -/
structure Compilation where
  profile : Profile
  function : Func
  key : UnitKey
  unit : CompiledUnit
  lowered : ∃ before after, exec (Lowering.run profile function key
    (unitFingerprint function.contentHash key.signature key.context)) before = (.ok unit, after)

namespace Compilation

/-- The inputs of the digests behind a fingerprint: the function, and all that the unit depends
on. -/
def encodings (c : Compilation) : List (List UInt8) :=
  [Encoding.func c.function,
    Encoding.unit c.function.contentHash c.key.signature c.key.context]

variable {c d : Compilation}

theorem fingerprint_eq (c : Compilation) :
    c.unit.fingerprint = unitFingerprint c.function.contentHash c.key.signature c.key.context := by
  obtain ⟨_, _, h⟩ := c.lowered
  exact Lowering.run_fingerprint h

theorem whole_fingerprint (c : Compilation) : c.unit.fingerprint.Whole := by
  rw [c.fingerprint_eq]
  exact ContentHash.whole_ofEncoding _

/-- Under one fingerprint, functions are alike. -/
theorem nameless_eq {known : List Compilation}
    (distinct : ContentHash.Distinguishes (known.flatMap encodings)) (hc : c ∈ known)
    (hd : d ∈ known) (fits : ∀ c ∈ known, c.function.Fits)
    (h : c.unit.fingerprint = d.unit.fingerprint) : c.function.nameless = d.function.nameless := by
  have encoded : ∀ {c : Compilation} {input : List UInt8}, c ∈ known → input ∈ c.encodings →
      input ∈ known.flatMap encodings := fun hc hinput => List.mem_flatMap.mpr ⟨_, hc, hinput⟩
  rw [c.fingerprint_eq, d.fingerprint_eq] at h
  have hunit := distinct _ (encoded hc (by simp [encodings])) _ (encoded hd (by simp [encodings])) h
  -- the digest of the function comes first, and all digests have one length
  have hbytes : c.function.contentHash.bytes = d.function.contentHash.bytes := by
    rw [Encoding.unit, Encoding.unit, List.append_assoc, List.append_assoc] at hunit
    have hlength : ∀ f : Func, f.contentHash.bytes.length = 32 := fun _ =>
      ContentHash.whole_ofEncoding _
    exact (List.append_inj hunit ((hlength _).trans (hlength _).symm)).1
  have hhash : c.function.contentHash = d.function.contentHash := congrArg ContentHash.mk hbytes
  exact Encoding.nameless_eq_of_func_eq (fits c hc) (fits d hd)
    (distinct _ (encoded hc (by simp [encodings])) _ (encoded hd (by simp [encodings])) hhash)

theorem slash_not_mem_name (h : '/' ∉ c.function.name.toList) {kernel : CompiledKernel}
    (hkernel : kernel ∈ c.unit.kernels) : '/' ∉ kernel.name.toList := by
  obtain ⟨_, _, hc⟩ := c.lowered
  obtain ⟨_, _, _, _, planned⟩ := Lowering.run_planned hc
  obtain ⟨region, _, implements⟩ := planned.exists_region hkernel
  rw [CompiledKernel.name, implements.name_eq]
  exact Kernel.slash_not_mem_nameOf h _

/-- Kernels with equal names in units of functions that are alike are equal. -/
theorem kernel_eq (alike : c.function.nameless = d.function.nameless)
    {kernel other : CompiledKernel} (hkernel : kernel ∈ c.unit.kernels) (hother : other ∈ d.unit.kernels)
    (hname : kernel.name = other.name) : kernel.plan.kernel = other.plan.kernel := by
  obtain ⟨_, _, hc⟩ := c.lowered
  obtain ⟨_, _, hd⟩ := d.lowered
  obtain ⟨partition, _, _, _, planned⟩ := Lowering.run_planned hc
  obtain ⟨partition', _, _, _, planned'⟩ := Lowering.run_planned hd
  obtain ⟨region, hregion, implements⟩ := planned.exists_region hkernel
  obtain ⟨region', hregion', implements'⟩ := planned'.exists_region hother
  have hpartition : partition = partition' := by
    have hparts := planned.partitioned
    rw [← Func.partition?_nameless, alike, Func.partition?_nameless, planned'.partitioned] at hparts
    exact (Option.some.inj hparts).symm
  rw [CompiledKernel.name, CompiledKernel.name, implements.name_eq, implements'.name_eq] at hname
  obtain ⟨hfunction, hindex⟩ := Kernel.nameOf_inj hname
  have hsame : region = region' := by
    rw [planned.regions_eq, implements.parts.2.1, hpartition, hindex] at hregion
    rw [planned'.regions_eq, implements'.parts.2.1, hregion] at hregion'
    exact Option.some.inj hregion'
  exact implements.kernel_eq (hsame ▸ implements') alike hfunction

end Compilation

end ArrayOffload
