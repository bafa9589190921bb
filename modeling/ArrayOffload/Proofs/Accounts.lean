import ArrayOffload.Proofs.Ownership
import ArrayOffload.Proofs.Planning
import Mathlib.Data.List.Nodup
import Mathlib.Data.List.Pairwise

/-!
# The accounts of the cache

Requests to a cache come in any order: look-ups that find, build or fail, units that are held and
dropped, units that are taken away, and failures that the device is told to have. As long as none of
them ends in a fault, the device has the programs of the units in use and no others, and a request
that was refused leaves no trace.

* `CacheRequest`, `serve`: the requests, one after the other;
* `Engine.unitsInUse`: the units that are cached or held, each of them once;
* `Accounted`: the accounts after some requests;
* `serve_accounts`: they are right after every sequence of requests.
-/

namespace ArrayOffload

/-- A request to the cache of an engine. -/
inductive CacheRequest where
  /-- Ask for a unit, and hold it under a name if one is given. -/
  | lookup (context : DeviceContext) (id : FuncId) (f : Func) (args : List ArrayValue)
      (keep : Option String)
  | invalidate (id : FuncId)
  | clear
  | drop (name : String)
  /-- Let a compilation fail, after some more that succeed. -/
  | failCompile (skip : Nat) (reason : String)

namespace CacheRequest

def run : CacheRequest → EngineM Unit
  | lookup context id f args keep => do
    let built ← Engine.unitFor context id f args
    match keep with
    | none => return ()
    | some name => modify (·.hold name built)
  | invalidate id => modify fun engine => (engine.invalidate id).2
  | clear => modify Engine.clear
  | drop name => modify (·.dropHeld name)
  | failCompile skip reason =>
    modify fun engine =>
      let device := { engine.machine.device with failCompile := some (skip, reason) }
      { engine with machine := { engine.machine with device } }

/-- Whether the request is a look-up that passes the checks of arguments and context. -/
def passes : CacheRequest → Bool
  | lookup context id f args _ => (Engine.keyFor context id f args).isOk
  | _ => false

/-- The function that is asked for came out of a builder. -/
def Sound : CacheRequest → Prop
  | lookup _ _ f _ _ => f.Built
  | _ => True

end CacheRequest

/-- Requests one after the other; none after a fault. -/
def serve : List CacheRequest → Engine → Option Engine
  | [], engine => some engine
  | request :: rest, engine =>
    match exec request.run engine with
    | (.error .fault, _) => none
    | (_, after) => serve rest after

/-- The number of look-ups that a cache has answered. -/
def Cache.lookups (cache : Cache) : Nat := cache.builds + cache.hits + cache.failures

namespace Engine

/-- The units that are cached or held, each of them once. -/
def unitsInUse (engine : Engine) : List Built :=
  engine.inUse.pwFilter fun built other => built.serial ≠ other.serial

/-- Nothing was compiled yet. -/
structure Fresh (engine : Engine) : Prop where
  cache : engine.cache = {}
  held : engine.held = []
  programs : engine.machine.device.programs = []

theorem Fresh.kept {engine : Engine} (h : engine.Fresh) : Kept True engine [] := by
  have huse : engine.inUse = [] := by simp [inUse, Cache.units, h.cache, h.held]
  refine ⟨⟨?_, ?_⟩, ?_, ⟨?_, ?_, ?_, ?_⟩, ?_, ?_, ?_, ?_, ?_⟩ <;>
    simp [huse, h.cache, h.held, h.programs, HandleTable.keys]

/-! ## The programs, counted -/

section
variable {faultless : Prop} {engine : Engine}

theorem Kept.mem_unitsInUse (h : Kept faultless engine []) {built : Built} :
    built ∈ engine.unitsInUse ↔ built ∈ engine.inUse := by
  refine ⟨fun hb => List.pwFilter_subset _ hb, fun hb => ?_⟩
  -- Some unit with the same serial number is kept, and there is only one with that number.
  have hkept : ¬ ∀ other ∈ engine.unitsInUse, built.serial ≠ other.serial := by
    intro hnone
    refine (List.forall_mem_pwFilter ?_ built engine.inUse).mp hnone built hb rfl
    intro first second third hne
    by_cases hsame : first.serial = second.serial
    · exact .inr (hsame ▸ hne)
    · exact .inl hsame
  push Not at hkept
  obtain ⟨other, hother, hsame⟩ := hkept
  have huse := List.pwFilter_subset _ hother
  rw [h.distinct.unique built (List.mem_append_left _ hb) other (List.mem_append_left _ huse) hsame]
  exact hother

theorem Kept.programs_perm (h : Kept faultless engine []) (hf : faultless) :
    engine.machine.device.programs.keys.Perm
      (engine.unitsInUse.flatMap fun built => built.unit.programs) := by
  have hnodup : (engine.unitsInUse.flatMap fun built => built.unit.programs).Nodup := by
    rw [List.nodup_flatMap]
    refine ⟨fun built hb => ?_, ?_⟩
    · exact h.distinct.nodup built (List.mem_append_left _ (h.mem_unitsInUse.mp hb))
    · refine List.Pairwise.imp_of_mem ?_ (List.pairwise_pwFilter _)
      intro built other hb ho hne program hp
      exact h.distinct.apart built (List.mem_append_left _ (h.mem_unitsInUse.mp hb)) other
        (List.mem_append_left _ (h.mem_unitsInUse.mp ho)) hne program hp
  rw [List.perm_ext_iff_of_nodup h.numbered.nodup hnodup]
  intro handle
  rw [List.mem_flatMap]
  constructor
  · intro hh
    obtain ⟨built, hb, hp⟩ := h.owned hf handle hh
    exact ⟨built, h.mem_unitsInUse.mpr (by simpa using hb), hp⟩
  · rintro ⟨built, hb, hp⟩
    exact (h.loaded built (h.mem_unitsInUse.mp hb)).mem_keys hp

/-- A request that was refused leaves slots, holders and programs as they were. -/
theorem Kept.refused (h : Kept faultless engine []) (hf : faultless) {context : DeviceContext}
    {id : FuncId} {f : Func} {args : List ArrayValue} {cause : OffloadError} {after : Engine}
    (hrun : exec (unitFor context id f args) engine = (.error (.error cause), after)) :
    after.cache.slots = engine.cache.slots ∧ after.held = engine.held ∧
      after.machine.device.programs = engine.machine.device.programs := by
  rcases unitFor_cases hrun with ⟨_, _, _, rfl⟩ | ⟨key, _, hlookup⟩
  · exact ⟨rfl, rfl, rfl⟩
  · cases hlookup with
    | rejected missed refused alike =>
      obtain ⟨_, hdevice, hnone⟩ := lowering_error h.numbered refused
      cases hnone (by simp)
      refine ⟨?_, alike.held, ?_⟩
      · rw [alike.cache]
        exact (Cache.slots_retire_reserve _ _).trans (h.others_eq hf missed)
      · rw [alike.device]
        exact hdevice.programs.trans (List.append_nil _)

/-- Look-ups are counted, unless they end in a fault. -/
theorem Lookup.counted {f : Func} {key : UnitKey} {result : Except (Stop OffloadError) Built}
    {after : Engine} (h : Lookup engine f key result after) (hne : result ≠ .error .fault) :
    after.cache.lookups = engine.cache.lookups + 1 := by
  cases h with
  | hit _ alike =>
    rw [alike.cache]
    simp only [Cache.lookups]
    omega
  | built _ _ alike =>
    rw [alike.cache]
    simp only [Cache.lookups, Cache.fill, Cache.reserve]
    omega
  | rejected _ _ alike =>
    rw [alike.cache]
    simp only [Cache.lookups, Cache.retire, Cache.reserve]
    omega
  | faulted => exact absurd rfl hne
  | undumped => exact absurd rfl hne

end

end Engine

/-! ## Requests -/

namespace CacheRequest

variable {engine after : Engine} {result : Except (Stop OffloadError) Unit}

/-- What one request does: it keeps the books and counts the look-ups that pass the checks. -/
theorem run_kept (h : engine.Kept True []) {request : CacheRequest}
    (hrun : exec request.run engine = (result, after)) (hne : result ≠ .error .fault) :
    after.Kept True [] ∧ after.setting = engine.setting ∧
      after.cache.lookups = engine.cache.lookups + if request.passes then 1 else 0 := by
  cases request with
  | lookup context id f args keep =>
    rw [run, exec_bind] at hrun
    rcases hunit : exec (Engine.unitFor context id f args) engine with ⟨outcome, mid⟩
    rw [hunit] at hrun
    rcases Engine.unitFor_cases hunit with ⟨stop, hkey, rfl, rfl⟩ | ⟨key, hkey, hlookup⟩
    · cases hrun
      exact ⟨h, rfl, by simp [passes, hkey, Except.isOk, Except.toBool]⟩
    · have hpasses : (lookup context id f args keep).passes = true := by
        simp [passes, hkey, Except.isOk, Except.toBool]
      rw [hpasses, if_pos rfl]
      cases outcome with
      | error stop =>
        cases hrun
        have hsure : (Except.error stop : Except (Stop OffloadError) Built) ≠ .error .fault :=
          fun heq => hne (by cases heq; rfl)
        exact ⟨(h.lookup hlookup).weaken fun _ => ⟨trivial, hsure⟩, hlookup.setting,
          hlookup.counted hsure⟩
      | ok built =>
        have hkept : mid.Kept True [] := (h.lookup hlookup).weaken fun _ => ⟨trivial, nofun⟩
        have hcounted := hlookup.counted nofun
        cases keep with
        | none =>
          cases hrun
          exact ⟨hkept, hlookup.setting, hcounted⟩
        | some name =>
          cases hrun
          obtain ⟨hsetting, hcache, _, _⟩ := mid.untouched_hold name built
          have huse : built ∈ mid.inUse :=
            List.mem_append_left _ (List.mem_filterMap.mpr ⟨_, hlookup.cached, rfl⟩)
          exact ⟨hkept.hold huse name, hsetting.trans hlookup.setting, hcache ▸ hcounted⟩
  | invalidate id =>
    cases hrun
    obtain ⟨hsetting, hcache, _, _⟩ := engine.untouched_invalidate id
    exact ⟨h.invalidate id, hsetting, by rw [hcache]; rfl⟩
  | clear =>
    cases hrun
    obtain ⟨hsetting, hcache, _, _⟩ := engine.untouched_clear
    exact ⟨h.clear, hsetting, by rw [hcache]; rfl⟩
  | drop name =>
    cases hrun
    obtain ⟨hsetting, hcache, _, _⟩ := engine.untouched_dropHeld name
    exact ⟨h.dropHeld name, hsetting, by rw [hcache]; rfl⟩
  | failCompile skip reason =>
    cases hrun
    exact ⟨h.congr rfl rfl rfl rfl (Nat.le_refl _), rfl, rfl⟩

theorem run_faultless (h : engine.Kept True [])
    (accepting : ∀ kernel, Faultless (engine.profile.accepts kernel)) {request : CacheRequest}
    (sound : request.Sound) : (exec request.run engine).1 ≠ .error .fault := by
  cases request with
  | lookup context id f args keep =>
    have hunit := Engine.unitFor_faultless sound accepting h.numbered context id args
    rw [run, exec_bind]
    rcases hexec : exec (Engine.unitFor context id f args) engine with ⟨stop | built, mid⟩ <;>
      rw [hexec] at hunit
    · intro hfault
      cases hfault
      exact hunit rfl
    · cases keep <;> exact nofun
  | invalidate | clear | drop | failCompile => exact nofun

end CacheRequest

section
variable {engine after : Engine}

/-- The books are kept through all requests, and the look-ups among them are counted. -/
theorem serve_kept (h : engine.Kept True []) {requests : List CacheRequest}
    (hserve : serve requests engine = some after) :
    after.Kept True [] ∧
      after.cache.lookups = engine.cache.lookups + requests.countP CacheRequest.passes := by
  induction requests generalizing engine with
  | nil =>
    cases hserve
    exact ⟨h, rfl⟩
  | cons request rest ih =>
    rw [serve] at hserve
    split at hserve
    · cases hserve
    · next result mid hnofault hrun =>
      obtain ⟨hmid, _, hcount⟩ := CacheRequest.run_kept h hrun hnofault
      obtain ⟨hafter, htotal⟩ := ih hmid hserve
      refine ⟨hafter, ?_⟩
      rw [htotal, hcount, List.countP_cons]
      omega

/-- Requests for functions that were built are all served. -/
theorem exists_serve (h : engine.Kept True [])
    (accepting : ∀ kernel, Faultless (engine.profile.accepts kernel))
    {requests : List CacheRequest} (sound : ∀ request ∈ requests, request.Sound) :
    ∃ after, serve requests engine = some after := by
  induction requests generalizing engine with
  | nil => exact ⟨engine, rfl⟩
  | cons request rest ih =>
    have hne := CacheRequest.run_faultless h accepting (sound request (by simp))
    rcases hrun : exec request.run engine with ⟨result, mid⟩
    rw [hrun] at hne
    obtain ⟨hmid, hsetting, _⟩ := CacheRequest.run_kept h hrun hne
    have hprofile : mid.profile = engine.profile := congrArg Engine.Setting.profile hsetting
    obtain ⟨after, hafter⟩ := ih hmid (hprofile ▸ accepting) fun other ho => sound other (by simp [ho])
    refine ⟨after, ?_⟩
    rw [serve, hrun]
    split
    · next heq =>
      cases heq
      exact absurd rfl hne
    · next heq =>
      cases heq
      exact hafter

/-! ## The accounts -/

/-- The accounts of an engine that has served some requests. -/
structure Accounted (engine : Engine) (served : List CacheRequest) : Prop where
  used : ∀ built, built ∈ engine.unitsInUse ↔
    built ∈ engine.cache.units ∨ ∃ name, (name, built) ∈ engine.held
  /-- The live programs are those of the units in use, each of them once. -/
  programs : engine.machine.device.programs.keys.Perm
    (engine.unitsInUse.flatMap fun built => built.unit.programs)
  /-- Each program is the kernel that it was compiled from. -/
  loaded : ∀ built ∈ engine.unitsInUse, built.unit.Loaded engine.machine.device
  /-- A request that is refused changes neither units nor programs. -/
  refused : ∀ {context id f args cause after},
    exec (Engine.unitFor context id f args) engine = (.error (.error cause), after) →
      after.cache.slots = engine.cache.slots ∧ after.held = engine.held ∧
        after.machine.device.programs = engine.machine.device.programs
  /-- Every slot has a unit of its key, and every key one slot. -/
  filled : ∀ slot ∈ engine.cache.slots, ∃ built, slot.2 = some built ∧ built.unit.key = slot.1
  keys : (engine.cache.slots.map (·.1)).Nodup
  size : engine.cache.size = (engine.cache.slots.map (·.1)).length
  /-- Taking the units of a function away counts them. -/
  invalidated : ∀ id, (engine.invalidate id).1 =
    engine.cache.units.countP fun built => built.unit.key.function = id
  /-- Every look-up that passed the checks was a build, a hit or a failure. -/
  counted : engine.cache.builds + engine.cache.hits + engine.cache.failures =
    served.countP CacheRequest.passes

/-- Slots with units of their keys can be counted by their units. -/
theorem countP_units {slots : List (UnitKey × Option Built)}
    (h : ∀ slot ∈ slots, ∃ built, slot.2 = some built ∧ built.unit.key = slot.1)
    (counted : UnitKey → Bool) :
    (slots.filterMap (·.2)).countP (fun built => counted built.unit.key) =
      slots.countP fun slot => counted slot.1 := by
  induction slots with
  | nil => rfl
  | cons slot rest ih =>
    obtain ⟨built, hbuilt, hkey⟩ := h slot (by simp)
    rw [List.filterMap_cons_some hbuilt, List.countP_cons, List.countP_cons, hkey,
      ih fun other ho => h other (by simp [ho])]

theorem Engine.Kept.accounted (h : engine.Kept True []) {served : List CacheRequest}
    (hcounted : engine.cache.lookups = served.countP CacheRequest.passes) :
    Accounted engine served := by
  have hfilled : ∀ slot ∈ engine.cache.slots,
      ∃ built, slot.2 = some built ∧ built.unit.key = slot.1 := by
    intro slot hslot
    obtain ⟨built, hbuilt⟩ := Option.isSome_iff_exists.mp (h.filled trivial slot hslot)
    exact ⟨built, hbuilt, h.keyed slot.1 built (by rw [← hbuilt]; exact hslot)⟩
  have hused : ∀ built, built ∈ engine.unitsInUse ↔
      built ∈ engine.cache.units ∨ ∃ name, (name, built) ∈ engine.held := by
    intro built
    rw [h.mem_unitsInUse, Engine.inUse, List.mem_append]
    simp
  refine ⟨hused, h.programs_perm trivial, fun built hb => h.loaded built (h.mem_unitsInUse.mp hb),
    h.refused trivial, hfilled, h.keys, ?_, fun id => ?_, hcounted⟩
  · have hall := countP_units hfilled fun _ => true
    simpa [Cache.size, Cache.units] using hall
  · have hid := countP_units hfilled fun key => key.function = id
    rw [Cache.units, hid, List.countP_eq_length_filter]
    rfl

/-- After any requests, none of which ended in a fault, the accounts are right: what is on the device
is in use, and what was refused left nothing behind. Requests for functions that came out of a
builder never end in a fault. -/
theorem serve_accounts (fresh : engine.Fresh) (requests : List CacheRequest) :
    ((∀ kernel, Faultless (engine.profile.accepts kernel)) →
      (∀ request ∈ requests, request.Sound) → ∃ after, serve requests engine = some after) ∧
    ∀ after, serve requests engine = some after → Accounted after requests := by
  refine ⟨fun accepting sound => exists_serve fresh.kept accepting sound, fun after hserve => ?_⟩
  obtain ⟨hkept, hcount⟩ := serve_kept fresh.kept hserve
  refine hkept.accounted ?_
  rw [hcount, fresh.cache]
  exact Nat.zero_add _

end

/-- Two builds of a function with three kernels, the first one rejected at its second kernel; then a
hit, and the unit is taken away from the cache while a caller holds it. -/
def Sample.requests : List CacheRequest :=
  [.failCompile 1 "no", .lookup .gpu 7 blend args none, .lookup .gpu 7 blend args (some "mine"),
    .lookup .gpu 7 blend args none, .invalidate 7]

theorem serve_accounts_sample : ∃ after, serve Sample.requests {} = some after ∧
    Accounted after Sample.requests ∧ after.cache.slots.length = 0 ∧
    (after.cache.builds, after.cache.hits, after.cache.failures) = (1, 1, 1) ∧
    after.machine.device.programs.length = 3 := by
  have fresh : Engine.Fresh {} := ⟨rfl, rfl, rfl⟩
  obtain ⟨hserved, haccounts⟩ := serve_accounts fresh Sample.requests
  have sound : ∀ request ∈ Sample.requests, request.Sound := by
    simp [Sample.requests, CacheRequest.Sound, Sample.blend_built]
  obtain ⟨after, hafter⟩ := hserved (fun _ => .ok ()) sound
  have hcounts : (serve Sample.requests {}).map (fun engine => (engine.cache.slots.length,
      (engine.cache.builds, engine.cache.hits, engine.cache.failures),
      engine.machine.device.programs.length)) = some (0, (1, 1, 1), 3) := by
    decide +kernel
  rw [hafter, Option.map_some, Option.some.injEq, Prod.mk.injEq, Prod.mk.injEq] at hcounts
  exact ⟨after, hafter, haccounts after hafter, hcounts⟩

end ArrayOffload
