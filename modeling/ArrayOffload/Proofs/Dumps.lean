import ArrayOffload.Proofs.Disk
import ArrayOffload.Proofs.Fingerprints
import ArrayOffload.Proofs.Offloading

/-!
# Dumps are kept and right

A dump writes a file only where nothing stands, so what was dumped stays. The name of a file holds
the fingerprint and the name of the kernel, and these determine the shader. So a file is right for
every unit that would have written it.

* `Dump.fileName_inj`: file names keep fingerprints and kernels apart;
* `Dump.Written`, `Dump.writeKernel_cases`: what writing one kernel can come to;
* `Dump.stored`: the disk after some dumps;
* `Dump.adds_stored`: all that is new is a shader under the name of its kernel;
* `Dump.stored_faithful`: what was dumped stays, is right, and is there.
-/

namespace ArrayOffload

namespace Dump

/-! ## File names -/

theorem toList_fileName (unit : CompiledUnit) (kernel : String) :
    (fileName unit kernel).toList =
      unit.fingerprint.hex.toList ++ '.' :: (kernel.toList ++ ".wgsl".toList) := by
  simp [fileName, toString]

/-- A file name tells the fingerprint and the kernel. -/
theorem fileName_inj {unit other : CompiledUnit} {kernel name : String}
    (whole : unit.fingerprint.Whole) (whole' : other.fingerprint.Whole)
    (h : fileName unit kernel = fileName other name) :
    unit.fingerprint = other.fingerprint ∧ kernel = name := by
  have hchars := congrArg String.toList h
  rw [toList_fileName, toList_fileName] at hchars
  have hlength : unit.fingerprint.hex.toList.length = other.fingerprint.hex.toList.length := by
    rw [ContentHash.length_hex, ContentHash.length_hex, whole, whole']
  obtain ⟨hhex, hrest⟩ := List.append_inj hchars hlength
  refine ⟨ContentHash.hex_inj (String.toList_inj.mp hhex), String.toList_inj.mp ?_⟩
  exact List.append_cancel_right (List.cons.inj hrest).2

theorem plain_fileName (unit : CompiledUnit) {kernel : String} (h : '/' ∉ kernel.toList) :
    PathNames.Plain (fileName unit kernel) := by
  have hlong : ∀ text : String, text.toList.length ≤ 2 → fileName unit kernel ≠ text := by
    rintro text htext rfl
    rw [toList_fileName] at htext
    simp at htext
    omega
  refine ⟨hlong _ (by decide), hlong _ (by decide), hlong _ (by decide), ?_⟩
  rw [toList_fileName]
  simp [ContentHash.slash_not_mem_hex, h]

/-! ## Writing kernels -/

/-- The path of a kernel's file. -/
def pathOf (dir : String) (unit : CompiledUnit) (kernel : CompiledKernel) : String :=
  joinPath dir (fileName unit kernel.name)

/-- What writing a kernel can come to: its file is there, it has no shader, the disk refuses, or
there is a new file. -/
inductive Written (dir : String) (unit : CompiledUnit) (kernel : CompiledKernel) (disk : Disk) :
    Except (Stop String) Unit → Disk → Prop
  | kept (there : disk.pathExists (pathOf dir unit kernel) = true) :
      Written dir unit kernel disk (.ok ()) disk
  | shaderless {stop : Stop RegionError} (unlowered : Shader.lower kernel.plan.kernel = .error stop)
      (result : Except (Stop String) Unit) : Written dir unit kernel disk result disk
  | refused (stop : Stop String) : Written dir unit kernel disk (.error stop) disk
  | added {names : PathNames} {source : String}
      (located : disk.locate (pathOf dir unit kernel) = .ok names)
      (free : disk.file? names = none) (lowered : Shader.lower kernel.plan.kernel = .ok source) :
      Written dir unit kernel disk (.ok ()) (disk.put names source)

theorem exec_onDisk (action path : String) (work : DiskM Unit) (s : State) :
    exec (onDisk action path work) s =
      match exec work s.disk with
      | (.ok _, disk) => (.ok (), { s with disk })
      | (.error cause, disk) =>
        (.error (.error s!"cannot {action} {path}: {cause.message}"), { s with disk }) := by
  rw [onDisk, exec_bind, exec_get]
  dsimp only
  rw [show exec work s.disk = work.run.run s.disk from rfl]
  rcases work.run.run s.disk with ⟨cause | _, disk⟩ <;> rfl

theorem disk_onDisk (action path : String) (work : DiskM Unit) (s : State) :
    (exec (onDisk action path work) s).2.disk = (exec work s.disk).2 := by
  rw [exec_onDisk]
  rcases exec work s.disk with ⟨_ | _, _⟩ <;> rfl

variable {dir : String} {unit : CompiledUnit} {kernel : CompiledKernel} {disk after : Disk}

theorem writeKernel_cases (dir : String) (unit : CompiledUnit) (kernel : CompiledKernel)
    (s : State) :
    Written dir unit kernel s.disk (exec (writeKernel dir unit kernel) s).1
      (exec (writeKernel dir unit kernel) s).2.disk := by
  rw [writeKernel, exec_bind, exec_get]
  dsimp only
  rw [show joinPath dir (fileName unit kernel.name) = pathOf dir unit kernel from rfl]
  by_cases hthere : s.disk.pathExists (pathOf dir unit kernel) = true
  · rw [if_pos hthere]
    exact .kept hthere
  · rw [if_neg hthere]
    rcases hlower : Shader.lower kernel.plan.kernel with (cause | _) | source
    · exact .shaderless hlower _
    · exact .shaderless hlower _
    · dsimp only
      rw [exec_bind, exec_onDisk]
      rcases Disk.write_cases s.disk (pathOf dir unit kernel) source with
        ⟨cause, hwrite⟩ | ⟨names, hlocate, hwrite⟩
      · rw [hwrite]
        exact .refused _
      · -- nothing stands there, so no file does
        have free : s.disk.file? names = none := by
          rw [Disk.pathExists_of_locate hlocate] at hthere
          cases hfile : s.disk.file? names with
          | none => rfl
          | some contents => simp [Disk.has, hfile] at hthere
        rw [hwrite]
        exact .added hlocate free hlower

/-- The kernel's file stands where its path leads, if it has a shader. -/
theorem Written.present (h : Written dir unit kernel disk (.ok ()) after) {source : String}
    (lowered : Shader.lower kernel.plan.kernel = .ok source) :
    after.pathExists (pathOf dir unit kernel) = true := by
  generalize hresult : (.ok () : Except (Stop String) Unit) = result at h
  cases h with
  | kept there => exact there
  | shaderless unlowered =>
    rw [lowered] at unlowered
    cases unlowered
  | refused => cases hresult
  | added located free =>
    rw [Disk.pathExists_of_locate ((Disk.grows_put free _).locate located)]
    exact Disk.has_put free _

/-! ## Writing units -/

/-- The shader of a kernel, under the kernel's name. -/
def IsDump (dir : String) (unit : CompiledUnit) (file : PathNames × String) : Prop :=
  ∃ kernel ∈ unit.kernels, file.1 = PathNames.ofText (pathOf dir unit kernel) ∧
    Shader.lower kernel.plan.kernel = .ok file.2

section
variable {new : PathNames × String → Prop} (dumps : ∀ file, IsDump dir unit file → new file)
  (start : Disk)

include dumps

theorem Written.adds {result : Except (Stop String) Unit}
    (h : Written dir unit kernel disk result after) (hkernel : kernel ∈ unit.kernels)
    (hdisk : Disk.Adds new start disk) : Disk.Adds new start after := by
  cases h with
  | kept | shaderless | refused => exact hdisk
  | added located free lowered =>
    exact hdisk.put free (dumps _ ⟨kernel, hkernel, Disk.locate_ok located, lowered⟩)

theorem maintains_writeKernel (hkernel : kernel ∈ unit.kernels) :
    Maintains (fun s : State => Disk.Adds new start s.disk) (writeKernel dir unit kernel) := by
  refine .of_state fun s hs => ?_
  exact (writeKernel_cases dir unit kernel s).adds dumps start hkernel hs

theorem maintains_writeUnit :
    Maintains (fun s : State => Disk.Adds new start s.disk) (writeUnit dir unit) := by
  unfold writeUnit
  split
  · exact fun _ hs => hs
  · refine Maintains.bind ?_ fun _ => ?_
    · refine .of_state fun s hs => ?_
      show Disk.Adds new start (exec (onDisk "create" dir (Disk.makeDirs dir)) s).2.disk
      rw [disk_onDisk]
      exact (Disk.maintains_makeDirs new start dir).state hs
    · exact Ensures.forM _ fun kernel hkernel => maintains_writeKernel dumps start hkernel

end

/-- After a dump, each kernel with a shader has its file. -/
theorem writeUnit_present {s final : State} (h : exec (writeUnit dir unit) s = (.ok (), final))
    (hkernel : kernel ∈ unit.kernels) {source : String}
    (lowered : Shader.lower kernel.plan.kernel = .ok source) :
    final.disk.pathExists (pathOf dir unit kernel) = true := by
  have rounds : ∀ (kernels : List CompiledKernel) {s final : State}, kernels ⊆ unit.kernels →
      exec (kernels.forM (writeKernel dir unit)) s = (.ok (), final) → kernel ∈ kernels →
      final.disk.pathExists (pathOf dir unit kernel) = true := by
    intro kernels
    induction kernels with
    | nil => exact fun _ _ hmem => nomatch hmem
    | cons first rest ih =>
      intro s final hsub h hmem
      obtain ⟨_, mid, hfirst, hrest⟩ := exec_bind_eq_ok.mp h
      rcases List.mem_cons.mp hmem with rfl | hmem
      · -- the rounds after its own leave the file where it is
        have hwritten := writeKernel_cases dir unit kernel s
        rw [hfirst] at hwritten
        have dumps : ∀ file, IsDump dir unit file → True := fun _ _ => trivial
        have later := Ensures.forM rest fun other hother =>
          maintains_writeKernel dumps mid.disk (hsub (List.mem_cons_of_mem _ hother))
        exact (later.of_ok (.refl mid.disk) hrest).grows.pathExists (hwritten.present lowered)
      · exact ih (fun _ hk => hsub (List.mem_cons_of_mem _ hk)) hrest hmem
  unfold writeUnit at h
  split at h
  · next hempty =>
    rw [List.isEmpty_iff.mp hempty] at hkernel
    cases hkernel
  · obtain ⟨_, mid, _, h⟩ := exec_bind_eq_ok.mp h
    exact rounds unit.kernels (fun _ hk => hk) h hkernel

/-! ## Files and kernels -/

/-- The file of a kernel stands in the directory under its name. -/
theorem ofText_pathOf {c : Compilation} (named : '/' ∉ c.function.name.toList)
    (hkernel : kernel ∈ c.unit.kernels) :
    PathNames.ofText (pathOf dir c.unit kernel) =
      PathNames.ofText dir ++ [fileName c.unit kernel.name] :=
  PathNames.ofText_joinPath (plain_fileName _ (c.slash_not_mem_name named hkernel)) dir

/-- Kernels that would be written to one place are equal. -/
theorem kernel_eq_of_place {known : List Compilation} {c d : Compilation} {other : CompiledKernel}
    (named : ∀ c ∈ known, '/' ∉ c.function.name.toList) (fits : ∀ c ∈ known, c.function.Fits)
    (distinct : ContentHash.Distinguishes (known.flatMap Compilation.encodings)) (hc : c ∈ known)
    (hd : d ∈ known) (hkernel : kernel ∈ c.unit.kernels) (hother : other ∈ d.unit.kernels)
    (h : PathNames.ofText (pathOf dir c.unit kernel) = PathNames.ofText (pathOf dir d.unit other)) :
    kernel.plan.kernel = other.plan.kernel := by
  rw [ofText_pathOf (named c hc) hkernel, ofText_pathOf (named d hd) hother] at h
  have hfile := (List.cons.inj (List.append_cancel_left h)).1
  obtain ⟨hfingerprint, hname⟩ := fileName_inj c.whole_fingerprint d.whole_fingerprint hfile
  exact Compilation.kernel_eq (Compilation.nameless_eq distinct hc hd fits hfingerprint) hkernel
    hother hname

/-! ## Dumps in a row -/

/-- The disk after a dump, whether or not it succeeds. -/
def store (dir : String) (disk : Disk) (unit : CompiledUnit) : Disk :=
  (exec (writeUnit dir unit) { disk }).2.disk

/-- The disk after some dumps. -/
def stored (dir : String) (disk : Disk) (units : List CompiledUnit) : Disk :=
  units.foldl (store dir) disk

theorem adds_stored {new : PathNames × String → Prop} {units : List CompiledUnit} {start : Disk}
    (dumps : ∀ unit ∈ units, ∀ file, IsDump dir unit file → new file)
    (h : Disk.Adds new start disk) : Disk.Adds new start (stored dir disk units) := by
  induction units generalizing disk with
  | nil => exact h
  | cons unit rest ih =>
    refine ih (fun other hother => dumps other (List.mem_cons_of_mem _ hother)) ?_
    exact (maintains_writeUnit (dumps unit (List.mem_cons_self ..)) start).state h

theorem grows_stored (dir : String) (disk : Disk) (units : List CompiledUnit) :
    Disk.Grows disk (stored dir disk units) := by
  have dumps : ∀ unit ∈ units, ∀ file, IsDump dir unit file → True := fun _ _ _ _ => trivial
  exact (adds_stored dumps (.refl disk)).grows

theorem stored_append (dir : String) (disk : Disk) (front back : List CompiledUnit) :
    stored dir disk (front ++ back) = stored dir (stored dir disk front) back :=
  List.foldl_append

/-- What dumps leave behind: files stay as they are, a file holds the shader of the kernel in the
unit that it is named after, and a dump that succeeds leaves no shader out. -/
structure Faithful (dir : String) (disk : Disk) (dumped : List CompiledUnit)
    (unit : CompiledUnit) : Prop where
  kept : ∀ {front back : List CompiledUnit}, dumped = front ++ back → ∀ {path text : String},
    (stored dir disk front).read path = .ok text → (stored dir disk dumped).read path = .ok text
  right : ∀ kernel ∈ unit.kernels, ∀ {text : String},
    (stored dir disk dumped).read (pathOf dir unit kernel) = .ok text →
      Shader.lower kernel.plan.kernel = .ok text
  complete : ∀ {front back : List CompiledUnit} {written : CompiledUnit},
    dumped = front ++ written :: back →
    (exec (writeUnit dir written) { disk := stored dir disk front }).1 = .ok () →
    ∀ kernel ∈ written.kernels, ∀ {text : String}, Shader.lower kernel.plan.kernel = .ok text →
      (stored dir disk dumped).pathExists (pathOf dir written kernel) = true

/-- Dumps into a directory without files are faithful to every unit, whichever function it was
lowered from. -/
theorem stored_faithful {dir : String} {disk : Disk} (dumped : List Compilation)
    (other : Compilation) (empty : ∀ name, disk.file? (PathNames.ofText dir ++ [name]) = none)
    (named : ∀ c ∈ other :: dumped, '/' ∉ c.function.name.toList)
    (fits : ∀ c ∈ other :: dumped, c.function.Fits)
    (distinct : ContentHash.Distinguishes ((other :: dumped).flatMap Compilation.encodings)) :
    Faithful dir disk (dumped.map (·.unit)) other.unit where
  kept {front back} hcut path text hread := by
    rw [hcut, stored_append]
    exact (grows_stored dir _ back).read hread
  right kernel hkernel text hread := by
    have hother : other ∈ other :: dumped := List.mem_cons_self ..
    have dumps : ∀ unit ∈ dumped.map (·.unit), ∀ file, IsDump dir unit file →
        ∃ c ∈ dumped, IsDump dir c.unit file := by
      intro unit hunit file hfile
      obtain ⟨c, hc, rfl⟩ := List.mem_map.mp hunit
      exact ⟨c, hc, hfile⟩
    have free : disk.file? (PathNames.ofText (pathOf dir other.unit kernel)) = none := by
      rw [ofText_pathOf (named other hother) hkernel]
      exact empty _
    obtain ⟨c, hc, written, hwritten, hplace, hlower⟩ :=
      (adds_stored dumps (.refl disk)).new_of_read free hread
    rw [kernel_eq_of_place named fits distinct hother (List.mem_cons_of_mem _ hc) hkernel hwritten
      hplace]
    exact hlower
  complete {front back written} hcut hwrite kernel hkernel text hlower := by
    rw [hcut, stored_append]
    rcases hexec : exec (writeUnit dir written) { disk := stored dir disk front } with ⟨_, final⟩
    rw [hexec] at hwrite
    subst hwrite
    have hthere := writeUnit_present hexec hkernel hlower
    have hstore : store dir (stored dir disk front) written = final.disk := by
      rw [store, hexec]
    exact (grows_stored dir _ back).pathExists (hstore ▸ hthere)

end Dump

namespace Sample

def vectorKey : UnitKey := ⟨0, vector, .gpu⟩

/-- The fingerprint of a function, whatever its arrays are called. -/
def doubledPrint : ContentHash :=
  ⟨[0x80, 0x8f, 0xcc, 0x9c, 0x7c, 0x35, 0xdd, 0xe1, 0xfc, 0x18, 0xfe, 0x50, 0xc8, 0xd0, 0xec, 0x27,
    0x09, 0x7f, 0x55, 0xee, 0x8f, 0x19, 0x6d, 0xf9, 0x6e, 0x53, 0x49, 0xa2, 0x45, 0x1b, 0x24, 0x99]⟩

theorem contentHash_doubled (name array : String) :
    (doubled name array "log").contentHash = (doubled "f" "a" "log").contentHash :=
  congrArg ContentHash.ofEncoding rfl

theorem doubled_fingerprint (name array : String) :
    unitFingerprint (doubled name array "log").contentHash vector .gpu = doubledPrint := by
  rw [contentHash_doubled]
  decide +kernel

theorem contentHash_ne_doubledPrint : (doubled "f" "a" "log").contentHash ≠ doubledPrint := by
  decide +kernel

/-- The lowering of a function that doubles an array. -/
def lowerDoubled (array : String) : Except (Stop OffloadError) CompiledUnit × Machine :=
  exec (Lowering.run shading (doubled "f" array "log") vectorKey doubledPrint) {}

/-- The unit of a function that doubles an array. -/
def doubledFrom (array : String) {unit : CompiledUnit} {after : Machine}
    (h : lowerDoubled array = (.ok unit, after)) : Compilation where
  profile := shading
  function := doubled "f" array "log"
  key := vectorKey
  unit := unit
  lowered := ⟨{}, after, (doubled_fingerprint "f" array).symm ▸ h⟩

/-- What such units have in common. -/
structure IsDoubled (c : Compilation) : Prop where
  name : c.function.name = "f"
  fits : c.function.Fits
  encodings : c.encodings = [Encoding.func (doubled "f" "a" "log"),
    Encoding.unit (doubled "f" "a" "log").contentHash vector .gpu]

theorem isDoubled_doubledFrom {array : String} {unit : CompiledUnit} {after : Machine}
    (h : lowerDoubled array = (.ok unit, after)) : IsDoubled (doubledFrom array h) where
  name := rfl
  fits := doubled_fits "f" array
  encodings := by
    rw [← contentHash_doubled "f" array]
    rfl

theorem distinguishes_doubled {compilations : List Compilation}
    (h : ∀ c ∈ compilations, IsDoubled c) :
    ContentHash.Distinguishes (compilations.flatMap Compilation.encodings) := by
  have hinputs : ∀ input ∈ compilations.flatMap Compilation.encodings,
      input = Encoding.func (doubled "f" "a" "log") ∨
        input = Encoding.unit (doubled "f" "a" "log").contentHash vector .gpu := by
    intro input hinput
    obtain ⟨c, hc, hinput⟩ := List.mem_flatMap.mp hinput
    simpa [(h c hc).encodings] using hinput
  have hne : ContentHash.ofEncoding (Encoding.func (doubled "f" "a" "log")) ≠
      ContentHash.ofEncoding
        (Encoding.unit (doubled "f" "a" "log").contentHash vector .gpu) := by
    intro hsame
    refine contentHash_ne_doubledPrint (Eq.trans hsame ?_)
    exact doubled_fingerprint "f" "a"
  intro a ha b hb hsame
  rcases hinputs a ha with rfl | rfl <;> rcases hinputs b hb with rfl | rfl
  · rfl
  · exact absurd hsame hne
  · exact absurd hsame.symm hne
  · rfl

end Sample

namespace Dump

/-- Two functions that differ in the name of an array share a file. -/
theorem stored_faithful_sample : ∃ first second : Compilation,
    first.function = Sample.doubled "f" "a" "log" ∧
    second.function = Sample.doubled "f" "x" "log" ∧
    Faithful "kernels" {} [first.unit, second.unit] second.unit ∧
    ∃ kernel ∈ second.unit.kernels, ∃ text,
      (stored "kernels" {} [first.unit, second.unit]).read
        "kernels/808fcc9c7c35dde1fc18fe50c8d0ec27097f55ee8f196df96e5349a2451b2499.f_r0.wgsl" =
          .ok text ∧
      Shader.lower kernel.plan.kernel = .ok text := by
  have hpasses : passes (fun first _ => passes (fun second _ => second.kernels.any fun kernel =>
      pathOf "kernels" second kernel =
        "kernels/808fcc9c7c35dde1fc18fe50c8d0ec27097f55ee8f196df96e5349a2451b2499.f_r0.wgsl" &&
      ((stored "kernels" {} [first, second]).read (pathOf "kernels" second kernel)).toOption.isSome)
      (Sample.lowerDoubled "x")) (Sample.lowerDoubled "a") = true := by
    decide +kernel
  obtain ⟨first, _, hfirst, hpasses⟩ := exists_of_passes hpasses
  obtain ⟨second, _, hsecond, hpasses⟩ := exists_of_passes hpasses
  obtain ⟨kernel, hkernel, hcheck⟩ := List.any_eq_true.mp hpasses
  rw [Bool.and_eq_true, decide_eq_true_eq] at hcheck
  obtain ⟨hpath, hread⟩ := hcheck
  have hmembers : ∀ c ∈ [Sample.doubledFrom "x" hsecond, Sample.doubledFrom "a" hfirst,
      Sample.doubledFrom "x" hsecond], Sample.IsDoubled c := by
    simp only [List.forall_mem_cons, List.not_mem_nil, false_implies, implies_true, and_true]
    exact ⟨Sample.isDoubled_doubledFrom _, Sample.isDoubled_doubledFrom _,
      Sample.isDoubled_doubledFrom _⟩
  have faithful : Faithful "kernels" {} [first, second] second :=
    stored_faithful [Sample.doubledFrom "a" hfirst, Sample.doubledFrom "x" hsecond]
      (Sample.doubledFrom "x" hsecond) (fun _ => rfl)
      (fun c hc => by rw [(hmembers c hc).name]; decide)
      (fun c hc => (hmembers c hc).fits) (Sample.distinguishes_doubled hmembers)
  refine ⟨Sample.doubledFrom "a" hfirst, Sample.doubledFrom "x" hsecond, rfl, rfl, faithful, kernel,
    hkernel, ?_⟩
  cases hfile : (stored "kernels" {} [first, second]).read (pathOf "kernels" second kernel) with
  | error cause =>
    rw [hfile] at hread
    cases hread
  | ok text => exact ⟨text, hpath ▸ hfile, faithful.right kernel hkernel hfile⟩

end Dump

end ArrayOffload
