import ArrayOffload.Engine.Basic
import ArrayOffload.Proofs.Exec

/-!
# Looking units up

A look-up finds the unit of a key, builds it, has a kernel rejected by the device, or ends in a
fault. The log and the disk change on the way; no unit and no program depends on them.

* `Engine.Alike`: engines that differ in the log and the disk only;
* `Engine.Lookup`: the ways in which a look-up can end, each with all that it changes;
* `Engine.lookup_unitOf`: every look-up ends in one of them.
-/

namespace ArrayOffload

namespace Cache

/-- The slots of the other keys. -/
def others (cache : Cache) (key : UnitKey) : List (UnitKey × Option Built) :=
  cache.slots.filter fun slot => slot.1 ≠ key

/-- A unit that was built stands at the end, in the only slot of its key. -/
theorem slots_fill_reserve (cache : Cache) (key : UnitKey) (built : Built) (builds serial : Nat) :
    ({ cache.reserve key with builds, lastSerial := serial }.fill key built).slots =
      cache.others key ++ [(key, some built)] := by
  change (cache.others key ++ [(key, none)]).map
    (fun slot : UnitKey × Option Built => if slot.1 = key then (key, some built) else slot) = _
  rw [List.map_append]
  congr 1
  · refine (List.map_congr_left ?_).trans (List.map_id _)
    intro slot hslot
    have hne : slot.1 ≠ key := by simpa using (List.mem_filter.mp hslot).2
    rw [if_neg hne, id]
  · simp

/-- A reserved slot leaves no trace once it is retired. -/
theorem slots_retire_reserve (cache : Cache) (key : UnitKey) :
    ((cache.reserve key).retire key).slots = cache.others key := by
  simp [retire, reserve, others, List.filter_append]

end Cache

namespace Engine

/-- What requests for units do not change. -/
structure Setting where
  config : EngineConfig
  profile : Profile
  dumpDir : Option String
  functions : List Func
  hosts : HostTable

def setting (engine : Engine) : Setting :=
  ⟨engine.config, engine.profile, engine.dumpDir, engine.functions, engine.hosts⟩

/-- The engines differ in the log and the disk at most. -/
structure Alike (engine other : Engine) : Prop where
  setting : other.setting = engine.setting
  cache : other.cache = engine.cache
  held : other.held = engine.held
  device : other.machine.device = engine.machine.device

namespace Alike

theorem refl (engine : Engine) : Alike engine engine := ⟨rfl, rfl, rfl, rfl⟩

theorem trans {first second third : Engine} (h : Alike first second) (h' : Alike second third) :
    Alike first third :=
  ⟨h'.setting.trans h.setting, h'.cache.trans h.cache, h'.held.trans h.held,
    h'.device.trans h.device⟩

theorem record (engine : Engine) (event : Event) : Alike engine (engine.record event) :=
  ⟨rfl, rfl, rfl, rfl⟩

theorem records (engine : Engine) (events : List Event) :
    Alike engine (events.foldl Engine.record engine) := by
  induction events generalizing engine with
  | nil => exact .refl engine
  | cons event rest ih => exact (Alike.record engine event).trans (ih _)

end Alike

/-- Dumping kernels changes the log and the disk. It can only stop by a fault. -/
theorem ensures_dump (unit : CompiledUnit) (engine : Engine) :
    Ensures (Alike engine) (dump unit) (fun _ => Alike engine)
      (fun stop after => stop = .fault ∧ Alike engine after) := by
  intro before hbefore
  rw [dump, exec_bind, exec_get]
  dsimp only
  cases before.dumpDir with
  | none => exact hbefore
  | some dir =>
    dsimp only
    rcases (Dump.writeUnit dir unit).run.run { disk := before.disk } with ⟨result, final⟩
    have hwritten : Alike engine { final.events.foldl Engine.record before with disk := final.disk } := by
      obtain ⟨hsetting, hcache, hheld, hdevice⟩ := hbefore.trans (.records before final.events)
      exact ⟨hsetting, hcache, hheld, hdevice⟩
    dsimp only
    rw [exec_bind, exec_set]
    dsimp only
    rcases result with (reason | _) | _
    · exact hwritten.trans (.record _ _)
    · exact ⟨rfl, hwritten⟩
    · exact hwritten

/-! ## How a look-up ends -/

/-- The lowering that a look-up of a key would start. -/
def lowering (engine : Engine) (f : Func) (key : UnitKey) :
    Except (Stop OffloadError) CompiledUnit × Machine :=
  exec (Lowering.run engine.profile f key (unitFingerprint f.contentHash key.signature key.context))
    (engine.machine.record (.cacheMiss key))

/-- How a look-up can end. -/
inductive Lookup (engine : Engine) (f : Func) (key : UnitKey) :
    Except (Stop OffloadError) Built → Engine → Prop
  | hit {built : Built} {after : Engine} (found : engine.cache.find? key = some built)
      (alike : Alike { engine with cache := { engine.cache with hits := engine.cache.hits + 1 } }
        after) :
      Lookup engine f key (.ok built) after
  | built {unit : CompiledUnit} {machine : Machine} {after : Engine}
      (missed : engine.cache.find? key = none) (lowered : engine.lowering f key = (.ok unit, machine))
      (alike : Alike
        { engine with
          machine
          cache := { engine.cache.reserve key with
            builds := engine.cache.builds + 1
            lastSerial := engine.cache.lastSerial + 1 }.fill key ⟨engine.cache.lastSerial + 1, unit⟩ }
        after) :
      Lookup engine f key (.ok ⟨engine.cache.lastSerial + 1, unit⟩) after
  | rejected {cause : OffloadError} {machine : Machine} {after : Engine}
      (missed : engine.cache.find? key = none)
      (refused : engine.lowering f key = (.error (.error cause), machine))
      (alike : Alike
        { engine with
          machine
          cache := { (engine.cache.reserve key).retire key with
            failures := engine.cache.failures + 1 } }
        after) :
      Lookup engine f key (.error (.error cause)) after
  | faulted {machine : Machine} {after : Engine} (missed : engine.cache.find? key = none)
      (stuck : engine.lowering f key = (.error .fault, machine))
      (alike : Alike { engine with machine, cache := engine.cache.reserve key } after) :
      Lookup engine f key (.error .fault) after
  | undumped {unit : CompiledUnit} {machine : Machine} {after : Engine}
      (missed : engine.cache.find? key = none) (lowered : engine.lowering f key = (.ok unit, machine))
      (stuck : ∃ start, exec (dump unit) start = (.error .fault, after))
      (alike : Alike
        { engine with
          machine
          cache := { engine.cache.reserve key with
            builds := engine.cache.builds + 1, lastSerial := engine.cache.lastSerial + 1 } }
        after) :
      Lookup engine f key (.error .fault) after

theorem lookup_build {engine : Engine} {f : Func} {key : UnitKey}
    (missed : engine.cache.find? key = none) :
    Lookup engine f key (exec (build f key) engine).1 (exec (build f key) engine).2 := by
  have hlowering : (Lowering.run engine.profile f key
      (unitFingerprint f.contentHash key.signature key.context)).run.run
        (engine.machine.record (.cacheMiss key)) = engine.lowering f key := by
    rw [lowering, exec]
  simp only [build, event, exec_bind, exec_modify, exec_get, record, hlowering, exec_set]
  rcases hrun : engine.lowering f key with ⟨(cause | _) | unit, machine⟩
  · simp only [exec_bind, exec_modify]
    exact .rejected missed hrun ⟨rfl, rfl, rfl, rfl⟩
  · exact .faulted missed hrun ⟨rfl, rfl, rfl, rfl⟩
  · simp only [exec_bind, exec_modify, exec_get]
    generalize hdump : exec (dump unit) _ = dumped
    rcases dumped with ⟨stop | _, after⟩
    · obtain ⟨rfl, hsetting, hcache, hheld, hdevice⟩ := (ensures_dump unit _).of_error (.refl _) hdump
      exact .undumped missed hrun ⟨_, hdump⟩ ⟨hsetting, hcache, hheld, hdevice⟩
    · obtain ⟨hsetting, hcache, hheld, hdevice⟩ := (ensures_dump unit _).of_ok (.refl _) hdump
      exact .built missed hrun
        ⟨hsetting, congrArg (fun cache : Cache => cache.fill key _) hcache, hheld, hdevice⟩

/-- Every look-up ends in one of these ways. -/
theorem lookup_unitOf (engine : Engine) (f : Func) (key : UnitKey) :
    Lookup engine f key (exec (unitOf f key) engine).1 (exec (unitOf f key) engine).2 := by
  cases hfind : engine.cache.find? key with
  | none =>
    have hbuild : exec (unitOf f key) engine = exec (build f key) engine := by
      simp only [unitOf, exec_bind, exec_get, hfind]
    rw [hbuild]
    exact lookup_build hfind
  | some built =>
    simp only [unitOf, event, exec_bind, exec_get, hfind, exec_modify, exec_pure]
    exact .hit hfind ⟨rfl, rfl, rfl, rfl⟩

theorem Lookup.setting {engine after : Engine} {f : Func} {key : UnitKey}
    {result : Except (Stop OffloadError) Built} (h : Lookup engine f key result after) :
    after.setting = engine.setting := by
  cases h with
  | hit _ alike => exact alike.setting
  | built _ _ alike => exact alike.setting
  | rejected _ _ alike => exact alike.setting
  | faulted _ _ alike => exact alike.setting
  | undumped _ _ _ alike => exact alike.setting

/-! ## The checks before a look-up -/

/-- The key under which arguments are looked up. The arguments must fit, and a serial function must
be asked for on the host. -/
def keyFor (context : DeviceContext) (id : FuncId) (f : Func) (args : List ArrayValue) :
    Except (Stop OffloadError) UnitKey := do
  let signature ← Signature.ofArgs f args
  if f.serialOnly && !context.isHost then throw (.error (.conflictingIntent f.name context))
  return ⟨id, signature, context⟩

/-- A request for a unit is a look-up once it has passed the checks. -/
theorem exec_unitFor (context : DeviceContext) (id : FuncId) (f : Func) (args : List ArrayValue)
    (engine : Engine) :
    exec (unitFor context id f args) engine =
      match keyFor context id f args with
      | .error stop => (.error stop, engine)
      | .ok key => exec (unitOf f key) engine := by
  rw [unitFor, keyFor, exec_bind, exec_ofExcept]
  cases Signature.ofArgs f args with
  | error stop => rfl
  | ok signature =>
    dsimp only
    cases f.serialOnly && !context.isHost with
    | true => rfl
    | false => exact exec_bind_of_ok (exec_pure _ _)

/-- A request for a unit fails its checks and changes nothing, or is a look-up. -/
theorem unitFor_cases {context : DeviceContext} {id : FuncId} {f : Func} {args : List ArrayValue}
    {engine after : Engine} {result : Except (Stop OffloadError) Built}
    (h : exec (unitFor context id f args) engine = (result, after)) :
    (∃ stop, keyFor context id f args = .error stop ∧ result = .error stop ∧ after = engine) ∨
      ∃ key, keyFor context id f args = .ok key ∧ Lookup engine f key result after := by
  rw [exec_unitFor] at h
  cases hkey : keyFor context id f args with
  | error stop =>
    rw [hkey] at h
    cases h
    exact .inl ⟨stop, rfl, rfl, rfl⟩
  | ok key =>
    have hrun : exec (unitOf f key) engine = (result, after) := by
      rw [hkey] at h
      exact h
    have hlookup := lookup_unitOf engine f key
    rw [hrun] at hlookup
    exact .inr ⟨key, rfl, hlookup⟩

theorem keyFor_ok {context : DeviceContext} {id : FuncId} {f : Func} {args : List ArrayValue}
    {key : UnitKey} (h : keyFor context id f args = .ok key) :
    ∃ signature, Signature.ofArgs f args = .ok signature ∧ key = ⟨id, signature, context⟩ ∧
      (f.serialOnly = true → context.isHost = true) := by
  obtain ⟨signature, hsignature, h⟩ := bind_eq_ok.mp h
  refine ⟨signature, hsignature, ?_⟩
  cases hrefused : f.serialOnly && !context.isHost with
  | true =>
    rw [hrefused] at h
    cases h
  | false =>
    rw [hrefused] at h
    cases h
    exact ⟨rfl, by simpa using hrefused⟩

end Engine

end ArrayOffload
