import ArrayOffload.Proofs.Lookup
import ArrayOffload.Proofs.Programs
import Mathlib.Data.List.Nodup

/-!
# Who owns the programs

A unit is in use while it is cached or held. Its programs stay on the device until the last use ends.
Between those two moments a unit is on its way out: no longer in use, its programs not yet given
back. The invariant therefore speaks of the units in use and of the ones that are leaving.

* `Built.Distinct`: units that share neither serial numbers nor programs;
* `Engine.Kept`: the invariant. A part of it holds only as long as no look-up has ended in a fault;
* `Engine.Kept.letGo`: letting a unit go takes it from the leaving ones;
* `Engine.Kept.lookup`: what a look-up leaves, however it ends;
* `Engine.Kept.invalidate`, `Engine.Kept.clear`, `Engine.Kept.dropHeld`, `Engine.Kept.hold`.
-/

namespace ArrayOffload

theorem nodup_map_concat {α β : Type} {label : α → β} {items : List α} {item : α}
    (hitems : (items.map label).Nodup) (hnew : label item ∉ items.map label) :
    ((items ++ [item]).map label).Nodup := by
  rw [List.map_append, List.nodup_append]
  refine ⟨hitems, by simp, fun other hother last hlast hsame => ?_⟩
  rw [List.map_singleton, List.mem_singleton] at hlast
  rw [hsame, hlast] at hother
  exact hnew hother

theorem lookup_eq_some_iff_mem {α β : Type} [BEq α] [LawfulBEq α] {items : List (α × β)}
    (h : (items.map (·.1)).Nodup) {label : α} {value : β} :
    items.lookup label = some value ↔ (label, value) ∈ items := by
  induction items with
  | nil => simp
  | cons item rest ih =>
    rw [List.map_cons, List.nodup_cons] at h
    rw [List.lookup_cons, List.mem_cons]
    by_cases hlabel : label = item.1
    · have hrest : (label, value) ∉ rest := fun hmem => h.1 (hlabel ▸ List.mem_map_of_mem hmem)
      subst hlabel
      simp [hrest, Prod.ext_iff, eq_comm]
    · have hne : (label == item.1) = false := by simpa using hlabel
      rw [hne, ih h.2]
      simp [Prod.ext_iff, hlabel]

/-- Units with serial numbers up to `last`: one unit for a number, one unit for a program. -/
structure Built.Distinct (last : Nat) (units : List Built) : Prop where
  bounded : ∀ built ∈ units, built.serial ≤ last
  unique : ∀ built ∈ units, ∀ other ∈ units, built.serial = other.serial → built = other
  nodup : ∀ built ∈ units, built.unit.programs.Nodup
  apart : ∀ built ∈ units, ∀ other ∈ units, built.serial ≠ other.serial →
    ∀ program ∈ built.unit.programs, program ∉ other.unit.programs

namespace Built.Distinct

variable {last : Nat} {units : List Built}

theorem mono {others : List Built} (h : Distinct last units) (hsub : ∀ built ∈ others, built ∈ units) :
    Distinct last others where
  bounded built hb := h.bounded built (hsub built hb)
  unique built hb other ho := h.unique built (hsub built hb) other (hsub other ho)
  nodup built hb := h.nodup built (hsub built hb)
  apart built hb other ho := h.apart built (hsub built hb) other (hsub other ho)

theorem later {more : Nat} (h : Distinct last units) (hle : last ≤ more) : Distinct more units :=
  ⟨fun built hb => Nat.le_trans (h.bounded built hb) hle, h.unique, h.nodup, h.apart⟩

/-- A new unit, with the next serial number and programs that no other unit has. -/
theorem cons (h : Distinct last units) {unit : CompiledUnit} (hnodup : unit.programs.Nodup)
    (hfresh : ∀ built ∈ units, ∀ program ∈ built.unit.programs, program ∉ unit.programs) :
    Distinct (last + 1) (⟨last + 1, unit⟩ :: units) where
  bounded built hb := by
    rcases List.mem_cons.mp hb with rfl | hold
    · exact Nat.le_refl _
    · exact Nat.le_succ_of_le (h.bounded built hold)
  unique built hb other ho hsame := by
    rcases List.mem_cons.mp hb with rfl | hold <;> rcases List.mem_cons.mp ho with rfl | hold'
    · rfl
    · have := h.bounded other hold'
      dsimp only at hsame
      omega
    · have := h.bounded built hold
      dsimp only at hsame
      omega
    · exact h.unique built hold other hold' hsame
  nodup built hb := by
    rcases List.mem_cons.mp hb with rfl | hold
    · exact hnodup
    · exact h.nodup built hold
  apart built hb other ho hne program hp hp' := by
    rcases List.mem_cons.mp hb with rfl | hold <;> rcases List.mem_cons.mp ho with rfl | hold'
    · exact hne rfl
    · exact hfresh other hold' program hp' hp
    · exact hfresh built hold program hp hp'
    · exact h.apart built hold other hold' hne program hp hp'

end Built.Distinct

namespace CompiledUnit.Loaded

variable {unit : CompiledUnit} {origin device : Device}

theorem mem_keys (h : unit.Loaded origin) {program : Nat} (hp : program ∈ unit.programs) :
    program ∈ origin.programs.keys := by
  obtain ⟨kernel, hkernel, rfl⟩ := List.mem_map.mp hp
  exact HandleTable.mem_keys_iff.mpr ⟨_, h kernel hkernel⟩

theorem of_extends {new : HandleTable Kernel} (h : unit.Loaded origin)
    (hextends : origin.Extends new device) : unit.Loaded device := by
  intro kernel hkernel
  rw [hextends.programs, HandleTable.get?_append, h kernel hkernel, Option.some_or]

end CompiledUnit.Loaded

namespace Engine

/-- The units that are cached or held. A unit can be both. -/
def inUse (engine : Engine) : List Built := engine.cache.units ++ engine.held.map (·.2)

/-! ## What letting go changes -/

theorem mem_liveSerials {engine : Engine} {serial : Nat} :
    serial ∈ engine.liveSerials ↔ ∃ built ∈ engine.inUse, built.serial = serial := by
  rw [liveSerials, List.mem_map]
  rfl

/-- A unit that is still in use keeps its programs; otherwise they are given back. -/
theorem letGo_cases (engine : Engine) (built : Built) :
    (built.serial ∈ engine.liveSerials ∧ engine.letGo built = engine) ∨
      (built.serial ∉ engine.liveSerials ∧
        Alike { engine with machine := { engine.machine with
          device := Lowering.releaseAll built.unit.programs engine.machine.device } }
          (engine.letGo built)) := by
  by_cases hlive : built.serial ∈ engine.liveSerials
  · exact .inl ⟨hlive, by rw [letGo, if_pos hlive]⟩
  · refine .inr ⟨hlive, ?_⟩
    rw [letGo, if_neg hlive]
    dsimp only
    split
    · exact .refl _
    · exact .record _ _

/-- The engines differ in programs, holders and the log at most. -/
structure Untouched (engine other : Engine) : Prop where
  setting : other.setting = engine.setting
  cache : other.cache = engine.cache
  buffers : other.machine.device.buffers = engine.machine.device.buffers
  lastHandle : other.machine.device.lastHandle = engine.machine.device.lastHandle

theorem untouched_letGo (engine : Engine) (built : Built) : Untouched engine (engine.letGo built) := by
  rcases letGo_cases engine built with ⟨_, heq⟩ | ⟨_, halike⟩
  · rw [heq]
    exact ⟨rfl, rfl, rfl, rfl⟩
  · rw [Lowering.releaseAll_eq] at halike
    refine ⟨halike.setting, halike.cache, ?_, ?_⟩ <;> rw [halike.device]

theorem untouched_letGoAll (units : List Built) (engine : Engine) :
    Untouched engine (units.foldl letGo engine) := by
  induction units generalizing engine with
  | nil => exact ⟨rfl, rfl, rfl, rfl⟩
  | cons built rest ih =>
    have first := untouched_letGo engine built
    have second := ih (engine.letGo built)
    exact ⟨second.setting.trans first.setting, second.cache.trans first.cache,
      second.buffers.trans first.buffers, second.lastHandle.trans first.lastHandle⟩

theorem untouched_invalidate (engine : Engine) (id : FuncId) :
    Untouched { engine with cache := engine.cache.invalidate id } (engine.invalidate id).2 := by
  rw [invalidate]
  dsimp only
  split
  · exact untouched_letGoAll _ _
  · obtain ⟨hsetting, hcache, hbuffers, hlast⟩ := untouched_letGoAll
      ((engine.cache.slotsOf id).filterMap (·.2)) { engine with cache := engine.cache.invalidate id }
    exact ⟨hsetting, hcache, hbuffers, hlast⟩

theorem untouched_clear (engine : Engine) :
    Untouched { engine with cache := engine.cache.clear } engine.clear :=
  untouched_letGoAll _ _

theorem untouched_dropHeld (engine : Engine) (name : String) :
    Untouched engine (engine.dropHeld name) := by
  rw [dropHeld]
  split
  · exact ⟨rfl, rfl, rfl, rfl⟩
  · obtain ⟨hsetting, hcache, hbuffers, hlast⟩ := untouched_letGo
      { engine with held := engine.held.filter fun entry => entry.1 ≠ name } _
    exact ⟨hsetting, hcache, hbuffers, hlast⟩

theorem untouched_hold (engine : Engine) (name : String) (built : Built) :
    Untouched engine (engine.hold name built) := by
  rw [hold]
  split
  · exact ⟨rfl, rfl, rfl, rfl⟩
  · obtain ⟨hsetting, hcache, hbuffers, hlast⟩ := untouched_letGo
      { engine with held := engine.held.filter (fun entry => entry.1 ≠ name) ++ [(name, built)] } _
    exact ⟨hsetting, hcache, hbuffers, hlast⟩

/-- Without the unit of a name, the holders have all other units, and that one is leaving. -/
theorem mem_held_iff {held : List (String × Built)} (hnames : (held.map (·.1)).Nodup)
    {name : String} {old : Built} (hlookup : held.lookup name = some old) (built : Built) :
    built ∈ (held.filter fun entry => entry.1 ≠ name).map (·.2) ∨ built = old ↔
      built ∈ held.map (·.2) := by
  have hold : (name, old) ∈ held := (lookup_eq_some_iff_mem hnames).mp hlookup
  have hsame : ∀ entry ∈ held, entry.1 = name → entry = (name, old) := by
    intro entry hentry hname
    exact List.inj_on_of_nodup_map hnames hentry hold hname
  simp only [List.mem_map, List.mem_filter, decide_eq_true_eq]
  constructor
  · rintro (⟨entry, ⟨hentry, _⟩, rfl⟩ | rfl)
    · exact ⟨entry, hentry, rfl⟩
    · exact ⟨(name, built), hold, rfl⟩
  · rintro ⟨entry, hentry, rfl⟩
    by_cases hname : entry.1 = name
    · exact .inr (by rw [hsame entry hentry hname])
    · exact .inl ⟨entry, ⟨hentry, hname⟩, rfl⟩

/-! ## The books -/

/-- The engine keeps its books: every unit in use has its programs on the device. As long as there
was no fault, every slot has a unit, and every program belongs to a unit that is in use or
leaving. -/
structure Kept (faultless : Prop) (engine : Engine) (leaving : List Built) : Prop where
  numbered : engine.machine.device.Numbered
  loaded : ∀ built ∈ engine.inUse, built.unit.Loaded engine.machine.device
  distinct : Built.Distinct engine.cache.lastSerial (engine.inUse ++ leaving)
  keys : (engine.cache.slots.map (·.1)).Nodup
  keyed : ∀ key built, (key, some built) ∈ engine.cache.slots → built.unit.key = key
  names : (engine.held.map (·.1)).Nodup
  filled : faultless → ∀ slot ∈ engine.cache.slots, slot.2.isSome
  owned : faultless → ∀ handle ∈ engine.machine.device.programs.keys,
    ∃ built ∈ engine.inUse ++ leaving, handle ∈ built.unit.programs

namespace Kept

variable {faultless : Prop} {engine other : Engine} {leaving : List Built}

theorem weaken {less : Prop} (h : Kept faultless engine leaving) (himp : less → faultless) :
    Kept less engine leaving :=
  { h with filled := fun hl => h.filled (himp hl), owned := fun hl => h.owned (himp hl) }

/-- The books depend on slots, holders and programs, not on the log, the memory or the counts. -/
theorem congr (h : Kept faultless engine leaving) (hslots : other.cache.slots = engine.cache.slots)
    (hlast : other.cache.lastSerial = engine.cache.lastSerial) (hheld : other.held = engine.held)
    (hprograms : other.machine.device.programs = engine.machine.device.programs)
    (hhandles : engine.machine.device.lastHandle ≤ other.machine.device.lastHandle) :
    Kept faultless other leaving := by
  have huse : other.inUse = engine.inUse := by simp only [inUse, Cache.units, hslots, hheld]
  refine ⟨⟨?_, ?_⟩, ?_, ?_, hslots ▸ h.keys, ?_, hheld ▸ h.names, ?_, ?_⟩
  · rw [hprograms]
    exact h.numbered.nodup
  · rw [hprograms]
    exact fun handle hh => Nat.le_trans (h.numbered.bounded handle hh) hhandles
  · rw [huse]
    intro built hb kernel hkernel
    rw [hprograms]
    exact h.loaded built hb kernel hkernel
  · rw [huse, hlast]
    exact h.distinct
  · rw [hslots]
    exact h.keyed
  · rw [hslots]
    exact h.filled
  · rw [huse, hprograms]
    exact h.owned

theorem alike (h : Kept faultless engine leaving) (ha : Alike engine other) :
    Kept faultless other leaving :=
  h.congr (by rw [ha.cache]) (by rw [ha.cache]) ha.held
    (by rw [ha.device]) (Nat.le_of_eq (by rw [ha.device]))

/-! ## Units that leave -/

/-- Units leave the cache or their holders: nothing else has happened yet. -/
theorem withdraw (h : Kept faultless engine []) (hdevice : other.machine = engine.machine)
    (hlast : other.cache.lastSerial = engine.cache.lastSerial)
    (hslots : other.cache.slots.Sublist engine.cache.slots)
    (hnames : (other.held.map (·.1)).Nodup)
    (hsame : ∀ built, built ∈ other.inUse ++ leaving ↔ built ∈ engine.inUse) :
    Kept faultless other leaving where
  numbered := hdevice ▸ h.numbered
  loaded built hb := by
    rw [hdevice]
    exact h.loaded built ((hsame built).mp (List.mem_append_left _ hb))
  distinct := by
    rw [hlast]
    exact h.distinct.mono fun built hb => List.mem_append_left _ ((hsame built).mp hb)
  keys := h.keys.sublist (hslots.map _)
  keyed key built hb := h.keyed key built (hslots.subset hb)
  names := hnames
  filled hf slot hs := h.filled hf slot (hslots.subset hs)
  owned hf handle hh := by
    rw [hdevice] at hh
    obtain ⟨built, hb, hp⟩ := h.owned hf handle hh
    rw [List.append_nil] at hb
    exact ⟨built, (hsame built).mpr hb, hp⟩

/-- Letting a unit go: it is in use elsewhere, or its programs go with it. -/
theorem letGo {built : Built} (h : Kept faultless engine (built :: leaving)) :
    Kept faultless (engine.letGo built) leaving := by
  have hsub : ∀ other ∈ engine.inUse ++ leaving, other ∈ engine.inUse ++ built :: leaving := by
    intro other ho
    rw [List.mem_append, List.mem_cons]
    exact (List.mem_append.mp ho).imp_right .inr
  have hmem : built ∈ engine.inUse ++ built :: leaving := by simp
  rcases letGo_cases engine built with ⟨hlive, heq⟩ | ⟨hunused, halike⟩
  · obtain ⟨same, hsame, hserial⟩ := mem_liveSerials.mp hlive
    have hbuilt : same = built :=
      h.distinct.unique same (List.mem_append_left _ hsame) built hmem hserial
    rw [heq]
    refine { h with distinct := h.distinct.mono hsub, owned := fun hf handle hh => ?_ }
    obtain ⟨owner, ho, hp⟩ := h.owned hf handle hh
    rw [List.mem_append, List.mem_cons] at ho
    rcases ho with hin | rfl | hleft
    · exact ⟨owner, List.mem_append_left _ hin, hp⟩
    · exact ⟨owner, List.mem_append_left _ (hbuilt ▸ hsame), hp⟩
    · exact ⟨owner, List.mem_append_right _ hleft, hp⟩
  · refine Kept.alike ?_ halike
    rw [Lowering.releaseAll_eq]
    -- The units in use have other serial numbers, so none of their programs is given back.
    have hkept : ∀ other ∈ engine.inUse, ∀ program ∈ other.unit.programs,
        program ∉ built.unit.programs := by
      intro other ho
      refine h.distinct.apart other (List.mem_append_left _ ho) built hmem fun hserial => ?_
      exact hunused (mem_liveSerials.mpr ⟨other, ho, hserial⟩)
    refine ⟨⟨?_, ?_⟩, ?_, h.distinct.mono hsub, h.keys, h.keyed, h.names, h.filled, ?_⟩
    · exact h.numbered.nodup.sublist (List.filter_sublist.map _)
    · exact fun handle hh => h.numbered.bounded handle (HandleTable.mem_keys_without.mp hh).1
    · intro other ho kernel hkernel
      have hprogram : kernel.program ∈ other.unit.programs := List.mem_map_of_mem hkernel
      exact (HandleTable.get?_without (hkept other ho _ hprogram)).trans
        (h.loaded other ho kernel hkernel)
    · intro hf handle hh
      obtain ⟨hold, hout⟩ := HandleTable.mem_keys_without.mp hh
      obtain ⟨owner, ho, hp⟩ := h.owned hf handle hold
      rw [List.mem_append, List.mem_cons] at ho
      rcases ho with hin | rfl | hleft
      · exact ⟨owner, List.mem_append_left _ hin, hp⟩
      · exact absurd hp hout
      · exact ⟨owner, List.mem_append_right _ hleft, hp⟩

/-- Letting units go, one after the other. -/
theorem letGoAll (h : Kept faultless engine leaving) :
    Kept faultless (leaving.foldl Engine.letGo engine) [] := by
  induction leaving generalizing engine with
  | nil => exact h
  | cons built rest ih => exact ih h.letGo

/-! ## The requests that end a use -/

theorem invalidate (h : Kept faultless engine []) (id : FuncId) :
    Kept faultless (engine.invalidate id).2 [] := by
  have hwithdrawn : Kept faultless { engine with cache := engine.cache.invalidate id }
      ((engine.cache.slotsOf id).filterMap (·.2)) := by
    refine h.withdraw rfl rfl List.filter_sublist h.names fun built => ?_
    simp only [inUse, Cache.units, Cache.invalidate, Cache.slotsOf, List.mem_append,
      List.mem_filterMap, List.mem_filter, decide_eq_true_eq]
    constructor
    · rintro ((⟨slot, ⟨hslot, _⟩, hbuilt⟩ | hheld) | ⟨slot, ⟨hslot, _⟩, hbuilt⟩)
      · exact .inl ⟨slot, hslot, hbuilt⟩
      · exact .inr hheld
      · exact .inl ⟨slot, hslot, hbuilt⟩
    · rintro (⟨slot, hslot, hbuilt⟩ | hheld)
      · by_cases hid : slot.1.function = id
        · exact .inr ⟨slot, ⟨hslot, hid⟩, hbuilt⟩
        · exact .inl (.inl ⟨slot, ⟨hslot, hid⟩, hbuilt⟩)
      · exact .inl (.inr hheld)
  rw [Engine.invalidate]
  dsimp only
  split
  · exact hwithdrawn.letGoAll
  · exact hwithdrawn.letGoAll.alike (.record _ _)

theorem clear (h : Kept faultless engine []) : Kept faultless engine.clear [] := by
  have hwithdrawn : Kept faultless { engine with cache := engine.cache.clear } engine.cache.units := by
    refine h.withdraw rfl rfl (List.nil_sublist _) h.names fun built => ?_
    simp only [inUse, Cache.units, Cache.clear, List.filterMap_nil, List.nil_append, List.mem_append]
    exact or_comm
  exact hwithdrawn.letGoAll

theorem dropHeld (h : Kept faultless engine []) (name : String) :
    Kept faultless (engine.dropHeld name) [] := by
  unfold Engine.dropHeld
  cases hlookup : engine.held.lookup name with
  | none => exact h
  | some old =>
    refine Kept.letGo (h.withdraw rfl rfl (List.Sublist.refl _) ?_ fun built => ?_)
    · exact h.names.sublist (List.filter_sublist.map _)
    · simp only [inUse, List.mem_append, List.mem_singleton, or_assoc]
      rw [mem_held_iff h.names hlookup]

/-- A unit in use gets a holder. The unit held before is let go. -/
theorem hold (h : Kept faultless engine []) {built : Built} (hbuilt : built ∈ engine.inUse)
    (name : String) : Kept faultless (engine.hold name built) [] := by
  unfold Engine.hold
  cases hlookup : engine.held.lookup name with
  | none =>
    have hnew : name ∉ engine.held.map (·.1) := by
      rintro hmem
      obtain ⟨entry, hentry, hname⟩ := List.mem_map.mp hmem
      exact absurd hname.symm (by simpa using List.lookup_eq_none_iff.mp hlookup entry hentry)
    refine h.withdraw rfl rfl (List.Sublist.refl _) (nodup_map_concat h.names hnew) fun other => ?_
    simp only [inUse, List.map_append, List.map_singleton, List.mem_append, List.mem_singleton,
      List.append_nil] at hbuilt ⊢
    constructor
    · rintro (hcached | hheld | rfl)
      · exact .inl hcached
      · exact .inr hheld
      · exact hbuilt
    · exact Or.imp_right .inl
  | some old =>
    have hnew : name ∉ (engine.held.filter fun entry => entry.1 ≠ name).map (·.1) := by
      simp
    refine Kept.letGo (h.withdraw rfl rfl (List.Sublist.refl _)
      (nodup_map_concat (h.names.sublist (List.filter_sublist.map _)) hnew) fun other => ?_)
    have hheld := mem_held_iff h.names hlookup
    simp only [inUse, List.map_append, List.map_singleton, List.mem_append, List.mem_singleton,
      ← hheld] at hbuilt ⊢
    constructor
    · rintro ((hcached | hkept | rfl) | rfl)
      · exact .inl hcached
      · exact .inr (.inl hkept)
      · exact hbuilt
      · exact .inr (.inr rfl)
    · rintro (hcached | hkept | rfl)
      · exact .inl (.inl hcached)
      · exact .inl (.inr (.inl hkept))
      · exact .inr rfl

/-! ## Look-ups -/

/-- A key without a unit has an empty slot or none. -/
theorem eq_none_of_missed (h : Kept faultless engine leaving) {key : UnitKey}
    (missed : engine.cache.find? key = none) {built : Option Built}
    (hslot : (key, built) ∈ engine.cache.slots) : built = none := by
  rw [Cache.find?, (lookup_eq_some_iff_mem h.keys).mpr hslot] at missed
  exact missed

/-- The slot of a key without a unit can be taken away: no unit goes with it. -/
theorem units_others (h : Kept faultless engine leaving) {key : UnitKey}
    (missed : engine.cache.find? key = none) :
    (engine.cache.others key).filterMap (·.2) = engine.cache.units := by
  rw [Cache.others, Cache.units, List.filterMap_filter]
  refine List.filterMap_congr fun slot hslot => ?_
  by_cases hkey : slot.1 = key
  · have hnone : slot.2 = none := h.eq_none_of_missed missed (hkey ▸ hslot)
    simp [hkey, hnone]
  · simp [hkey]

theorem others_eq (h : Kept faultless engine leaving) (hf : faultless) {key : UnitKey}
    (missed : engine.cache.find? key = none) : engine.cache.others key = engine.cache.slots := by
  refine List.filter_eq_self.mpr fun slot hslot => ?_
  have hne : slot.1 ≠ key := by
    intro hkey
    have hnone : slot.2 = none := h.eq_none_of_missed missed (hkey ▸ hslot)
    have hsome := h.filled hf slot hslot
    rw [hnone] at hsome
    cases hsome
  simpa using hne

theorem nodup_others (h : Kept faultless engine leaving) (key : UnitKey) :
    ((engine.cache.others key).map (·.1)).Nodup :=
  h.keys.sublist (List.filter_sublist.map _)

theorem nodup_replaced (h : Kept faultless engine leaving) (key : UnitKey) (slot : Option Built) :
    ((engine.cache.others key ++ [(key, slot)]).map (·.1)).Nodup :=
  nodup_map_concat (h.nodup_others key) (by simp [Cache.others])

/-- A look-up without a unit to show for it: the slots are those of the other keys. -/
theorem retired (h : Kept faultless engine []) {key : UnitKey}
    (missed : engine.cache.find? key = none) (hslots : other.cache.slots = engine.cache.others key)
    (hlast : other.cache.lastSerial = engine.cache.lastSerial) (hheld : other.held = engine.held)
    (hdevice : engine.machine.device.Extends [] other.machine.device) :
    Kept faultless other [] := by
  have huse : other.inUse = engine.inUse := by
    rw [inUse, Cache.units, hslots, h.units_others missed, hheld, inUse]
  have hprograms : other.machine.device.programs = engine.machine.device.programs := by
    rw [hdevice.programs, List.append_nil]
  refine ⟨hdevice.numbered, ?_, ?_, hslots ▸ h.nodup_others key, ?_, hheld ▸ h.names, ?_, ?_⟩
  · rw [huse]
    exact fun built hb => (h.loaded built hb).of_extends hdevice
  · rw [huse, hlast]
    exact h.distinct
  · rw [hslots]
    exact fun key built hb => h.keyed key built (List.mem_filter.mp hb).1
  · rw [hslots]
    exact fun hf slot hs => h.filled hf slot (List.mem_filter.mp hs).1
  · rw [huse, hprograms]
    exact h.owned

/-- A look-up that ended in a fault: an empty slot remains, and perhaps programs without owners. -/
theorem broken (h : Kept faultless engine []) {key : UnitKey}
    (missed : engine.cache.find? key = none)
    (hslots : other.cache.slots = engine.cache.others key ++ [(key, none)])
    (hlast : engine.cache.lastSerial ≤ other.cache.lastSerial) (hheld : other.held = engine.held)
    {new : HandleTable Kernel} (hdevice : engine.machine.device.Extends new other.machine.device) :
    Kept False other [] := by
  have huse : other.inUse = engine.inUse := by
    rw [inUse, Cache.units, hslots, List.filterMap_append, h.units_others missed, hheld, inUse]
    simp
  refine ⟨hdevice.numbered, ?_, ?_, hslots ▸ h.nodup_replaced key none, ?_, hheld ▸ h.names,
    False.elim, False.elim⟩
  · rw [huse]
    exact fun built hb => (h.loaded built hb).of_extends hdevice
  · rw [huse]
    exact h.distinct.later hlast
  · intro key' built hb
    rw [hslots, List.mem_append] at hb
    rcases hb with hold | hnew
    · exact h.keyed key' built (List.mem_filter.mp hold).1
    · simp at hnew

/-- A look-up that built a unit. -/
theorem added (h : Kept faultless engine []) {key : UnitKey} {unit : CompiledUnit}
    (missed : engine.cache.find? key = none)
    (hslots : other.cache.slots =
      engine.cache.others key ++ [(key, some ⟨engine.cache.lastSerial + 1, unit⟩)])
    (hlast : other.cache.lastSerial = engine.cache.lastSerial + 1)
    (hheld : other.held = engine.held)
    (hdevice : engine.machine.device.Extends (Lowering.entries unit.kernels) other.machine.device)
    (hkey : unit.key = key) (hloaded : unit.Loaded other.machine.device) :
    Kept faultless other [] := by
  have huse : ∀ built, built ∈ other.inUse ↔
      built ∈ ⟨engine.cache.lastSerial + 1, unit⟩ :: engine.inUse := by
    intro built
    rw [inUse, Cache.units, hslots, List.filterMap_append, h.units_others missed, hheld, inUse]
    simp only [List.mem_append, List.mem_cons, List.filterMap_cons, List.filterMap_nil,
      List.not_mem_nil, or_false]
    tauto
  have hkeys : (engine.machine.device.programs.keys ++ unit.programs).Nodup := by
    have := hdevice.numbered.nodup
    rwa [hdevice.programs, HandleTable.keys_append, Lowering.keys_entries] at this
  obtain ⟨_, hnodup, hfresh⟩ := List.nodup_append.mp hkeys
  have hdistinct : Built.Distinct (engine.cache.lastSerial + 1)
      (⟨engine.cache.lastSerial + 1, unit⟩ :: engine.inUse) := by
    refine (h.distinct.mono (by simp)).cons hnodup fun built hb program hp hnew => ?_
    exact hfresh program ((h.loaded built hb).mem_keys hp) program hnew rfl
  refine ⟨hdevice.numbered, ?_, ?_, hslots ▸ h.nodup_replaced key _, ?_, hheld ▸ h.names, ?_, ?_⟩
  · intro built hb
    rcases List.mem_cons.mp ((huse built).mp hb) with rfl | hold
    · exact hloaded
    · exact (h.loaded built hold).of_extends hdevice
  · rw [hlast]
    exact hdistinct.mono fun built hb => (huse built).mp (by simpa using hb)
  · intro key' built hb
    rw [hslots, List.mem_append] at hb
    rcases hb with hold | hnew
    · exact h.keyed key' built (List.mem_filter.mp hold).1
    · cases List.mem_singleton.mp hnew
      exact hkey
  · intro hf slot hs
    rw [hslots, List.mem_append] at hs
    rcases hs with hold | hnew
    · exact h.filled hf slot (List.mem_filter.mp hold).1
    · rw [List.mem_singleton.mp hnew]
      rfl
  · intro hf handle hh
    rw [hdevice.programs, HandleTable.keys_append, Lowering.keys_entries, List.mem_append] at hh
    rcases hh with hold | hnew
    · obtain ⟨built, hb, hp⟩ := h.owned hf handle hold
      exact ⟨built, by simpa [huse built] using .inr (by simpa using hb), hp⟩
    · exact ⟨⟨engine.cache.lastSerial + 1, unit⟩, by simp [huse], hnew⟩

end Kept

section
variable {engine : Engine} {f : Func} {key : UnitKey} {machine : Machine}

theorem lowering_ok (numbered : engine.machine.device.Numbered) {unit : CompiledUnit}
    (h : engine.lowering f key = (.ok unit, machine)) :
    engine.machine.device.Extends (Lowering.entries unit.kernels) machine.device ∧
      unit.key = key ∧ unit.Loaded machine.device := by
  obtain ⟨_, _, _, _, planned⟩ := Lowering.run_planned h
  have hrun := (Lowering.ensures_run engine.profile f key _ numbered).of_ok
    (s := engine.machine.record (.cacheMiss key)) rfl h
  exact ⟨hrun.1, planned.key_eq, Lowering.run_loaded h⟩

theorem lowering_error (numbered : engine.machine.device.Numbered) {stop : Stop OffloadError}
    (h : engine.lowering f key = (.error stop, machine)) :
    ∃ new, engine.machine.device.Extends new machine.device ∧ (stop ≠ .fault → new = []) := by
  have hrun := (Lowering.ensures_run engine.profile f key _ numbered).of_error
    (s := engine.machine.record (.cacheMiss key)) rfl h
  cases stop with
  | error cause => exact ⟨[], hrun.extends_nil, fun _ => rfl⟩
  | fault =>
    obtain ⟨⟨kernels, hextends⟩, _⟩ := hrun
    exact ⟨_, hextends, fun hne => absurd rfl hne⟩

end

namespace Kept

variable {faultless : Prop} {engine after : Engine} {f : Func} {key : UnitKey}
  {result : Except (Stop OffloadError) Built}

/-- A look-up keeps the books, however it ends. -/
theorem lookup (h : Kept faultless engine []) (hlookup : Lookup engine f key result after) :
    Kept (faultless ∧ result ≠ .error .fault) after [] := by
  cases hlookup with
  | hit _ alike =>
    refine (h.congr ?_ ?_ alike.held (congrArg Device.programs alike.device)
      (Nat.le_of_eq (congrArg Device.lastHandle alike.device.symm))).weaken And.left <;>
      rw [alike.cache]
  | built missed lowered alike =>
    obtain ⟨hdevice, hkey, hloaded⟩ := lowering_ok h.numbered lowered
    refine (h.added missed ?_ ?_ alike.held (alike.device ▸ hdevice) hkey
      (alike.device ▸ hloaded)).weaken And.left <;> rw [alike.cache]
    · exact Cache.slots_fill_reserve _ _ _ _ _
    · rfl
  | rejected missed refused alike =>
    obtain ⟨_, hdevice, hnone⟩ := lowering_error h.numbered refused
    cases hnone (by simp)
    refine (h.retired missed ?_ ?_ alike.held
      (alike.device ▸ hdevice)).weaken And.left <;> rw [alike.cache]
    · exact Cache.slots_retire_reserve _ _
    · rfl
  | faulted missed stuck alike =>
    obtain ⟨_, hdevice, _⟩ := lowering_error h.numbered stuck
    refine (h.broken missed ?_ ?_ alike.held
      (alike.device ▸ hdevice)).weaken (fun hf => hf.2 rfl) <;> rw [alike.cache]
    · rfl
    · exact Nat.le_refl _
  | undumped missed lowered _ alike =>
    obtain ⟨hdevice, _⟩ := lowering_ok h.numbered lowered
    refine (h.broken missed ?_ ?_ alike.held
      (alike.device ▸ hdevice)).weaken (fun hf => hf.2 rfl) <;> rw [alike.cache]
    · rfl
    · exact Nat.le_succ _

end Kept

/-- A unit that was looked up is in the cache. -/
theorem Lookup.cached {engine after : Engine} {f : Func} {key : UnitKey} {built : Built}
    (h : Lookup engine f key (.ok built) after) : (key, some built) ∈ after.cache.slots := by
  cases h with
  | hit found alike =>
    rw [alike.cache]
    obtain ⟨before, rest, hslots, _⟩ :=
      List.lookup_eq_some_iff.mp (Option.join_eq_some_iff.mp found)
    change (key, some built) ∈ engine.cache.slots
    rw [hslots]
    simp
  | built _ _ alike =>
    rw [alike.cache, Cache.slots_fill_reserve]
    simp

end Engine

end ArrayOffload
