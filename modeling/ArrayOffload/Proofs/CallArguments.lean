import ArrayOffload.CommandLine.Arguments
import ArrayOffload.Proofs.CallState
import ArrayOffload.Proofs.Persistence
import ArrayOffload.Proofs.Printing
import ArrayOffload.Proofs.Reparsing
import ArrayOffload.Proofs.Writes

/-!
# Arguments from the command line

Argument texts give one array for each parameter, or an error. An array is made only after its values
were counted against its shape, so that the constructor, which counts again, has nothing to object to.
All products on the way are machine words. The arrays fit the function they are made for.

* `ArgSpec.Says`: what an argument text says, as a format;
* `Arguments.Given`: the shape and the values that argument texts give for a parameter;
* `Arguments.Filled`: an array with these values, in memory of its own or shared with the device;
* `Arguments.ensures_arrayOf`, `Arguments.ensures_arrays`: one array, and all of them;
* `Arguments.build_callable`: what arguments are built for a function that was parsed.
-/

namespace ArrayOffload

/-! ## Cuts and traversals -/

namespace Text

variable {mark : Char} {text before rest : List Char}

theorem not_mem_of_cutAt? (h : cutAt? mark text = none) : mark ∉ text := by
  induction text with
  | nil => exact List.not_mem_nil
  | cons c text ih =>
    unfold cutAt? at h
    split at h
    · cases h
    · next hmark =>
      exact List.not_mem_cons_of_ne_of_not_mem (Ne.symm hmark) (ih (Option.map_eq_none_iff.mp h))

/-- The cut is at the first mark. -/
theorem eq_of_cutAt? (h : cutAt? mark text = some (before, rest)) :
    text = before ++ mark :: rest ∧ mark ∉ before := by
  induction text generalizing before with
  | nil => cases h
  | cons c text ih =>
    unfold cutAt? at h
    split at h
    · next hmark =>
      cases h
      exact ⟨by rw [hmark]; rfl, List.not_mem_nil⟩
    · next hmark =>
      obtain ⟨⟨first, second⟩, hcut, hpair⟩ := Option.map_eq_some_iff.mp h
      cases hpair
      obtain ⟨htext, hfirst⟩ := ih hcut
      exact ⟨congrArg (c :: ·) htext, List.not_mem_cons_of_ne_of_not_mem (Ne.symm hmark) hfirst⟩

theorem splitAll_eq_splitOn (mark : Char) (text : List Char) :
    splitAll mark text = text.splitOn mark := by
  induction text with
  | nil => rfl
  | cons c text ih =>
    rw [splitAll, ih]
    unfold List.splitOn
    rw [List.splitOnP_cons_eq_if_modifyHead]
    have hpieces := List.splitOnP_ne_nil (· == mark) text
    by_cases hmark : c = mark
    · simp [hmark]
    · cases hsplit : text.splitOnP (· == mark) with
      | nil => exact absurd hsplit hpieces
      | cons piece pieces => simp [hmark]

end Text

/-- A traversal that succeeds relates each element to its result. -/
theorem forall₂_of_mapM_some {α β : Type} {f : α → Option β} {xs : List α} {ys : List β}
    (h : xs.mapM f = some ys) : List.Forall₂ (fun x y => f x = some y) xs ys := by
  have hmap := mapM_some h
  rw [← List.forall₂_eq_eq_eq, List.forall₂_map_left_iff, List.forall₂_map_right_iff] at hmap
  exact hmap

theorem forall₂_of_mapM_ok {ε α β : Type} {f : α → Except ε β} {xs : List α} {ys : List β}
    (h : xs.mapM f = .ok ys) : List.Forall₂ (fun x y => f x = .ok y) xs ys := by
  induction xs generalizing ys with
  | nil =>
    cases h
    exact .nil
  | cons x xs ih =>
    simp only [List.mapM_cons, bind_eq_ok] at h
    obtain ⟨y, hy, rest, hrest, h⟩ := h
    cases h
    exact .cons hy (ih hrest)

theorem forall₂_comp {α β γ : Type} {r : α → β → Prop} {q : β → γ → Prop} {xs : List α} {ys : List β}
    {zs : List γ} (first : List.Forall₂ r xs ys) (second : List.Forall₂ q ys zs) :
    List.Forall₂ (Relation.Comp r q) xs zs := by
  induction first generalizing zs with
  | nil =>
    cases second
    exact .nil
  | cons hr _ ih =>
    cases second with
    | cons hq rest => exact .cons ⟨_, hr, hq⟩ (ih rest)

/-! ## What an argument text says -/

namespace ArgSpec

/-- A list of numbers with commas between them. Blank text lists no number. -/
inductive Lists : List Char → Cells → Prop
  | blank {text : List Char} : Text.trim text = [] → Lists text #[]
  | numbers {text : List Char} {values : List Float} : Text.trim text ≠ [] →
      List.Forall₂ (fun piece value => Number.readFloat? (Text.trim piece) = some value)
        (text.splitOn ',') values → Lists text values.toArray

/-- What a text says: a name up to the first `=`, then the values, before them a shape up to the
first `:` if there is one. -/
inductive Says : String → ArgSpec → Prop
  | plain {text : String} {before list : List Char} {values : Cells} :
      text.toList = before ++ '=' :: list → '=' ∉ before → Text.trim before ≠ [] → ':' ∉ list →
      Lists list values → Says text ⟨String.ofList (Text.trim before), none, values⟩
  | shaped {text : String} {before dims list : List Char} {shape : Shape} {values : Cells} :
      text.toList = before ++ '=' :: (dims ++ ':' :: list) → '=' ∉ before →
      Text.trim before ≠ [] → ':' ∉ dims →
      List.Forall₂ (fun piece extent =>
        Number.readBounded? (Shape.wordLimit - 1) (Text.trim piece) = some extent)
        (dims.splitOn 'x') shape →
      Lists list values → Says text ⟨String.ofList (Text.trim before), some shape, values⟩

theorem lists_of_valuesOf {name : String} {text : List Char} {values : Cells}
    (h : valuesOf name text = .ok values) : Lists text values := by
  unfold valuesOf at h
  split at h
  · next hblank =>
    cases h
    exact .blank (List.isEmpty_iff.mp hblank)
  · next hblank =>
    rw [Text.splitAll_eq_splitOn] at h
    cases hread : (text.splitOn ',').mapM (valueOf name) with
    | error stop =>
      rw [hread] at h
      cases h
    | ok numbers =>
      rw [hread] at h
      cases h
      refine .numbers (fun hempty => hblank (by simp [hempty])) ?_
      refine (forall₂_of_mapM_ok hread).imp fun piece value hvalue => ?_
      unfold valueOf at hvalue
      split at hvalue
      · next hfloat =>
        cases hvalue
        exact hfloat
      · cases hvalue

/-- What is read from a text is what it says. -/
theorem says_of_parse {text : String} {spec : ArgSpec} (h : parse text = .ok spec) :
    Says text spec := by
  unfold parse at h
  split at h
  · cases h
  · next before rest hassign =>
    obtain ⟨htext, hbefore⟩ := Text.eq_of_cutAt? hassign
    dsimp only at h
    split at h
    · cases h
    · next hname =>
      have hname : Text.trim before ≠ [] := by simpa using hname
      split at h
      · next hplain =>
        obtain ⟨values, hvalues, h⟩ := bind_eq_ok.mp h
        cases h
        exact .plain htext hbefore hname (Text.not_mem_of_cutAt? hplain) (lists_of_valuesOf hvalues)
      · next dims list hshaped =>
        obtain ⟨rfl, hdims⟩ := Text.eq_of_cutAt? hshaped
        split at h
        · cases h
        · next shape hextents =>
          obtain ⟨values, hvalues, h⟩ := bind_eq_ok.mp h
          cases h
          rw [extents?, Text.splitAll_eq_splitOn] at hextents
          exact .shaped htext hbefore hname hdims (forall₂_of_mapM_some hextents)
            (lists_of_valuesOf hvalues)

end ArgSpec

namespace Arguments

variable {specs : List ArgSpec} {shared : List String} {required : Bool} {decl : ArrayDecl}

/-- The shape and the values that are given for a parameter. The first text that names it counts. -/
inductive Given (specs : List ArgSpec) (required : Bool) (decl : ArrayDecl) : Shape → Cells → Prop
  | shaped {earlier later : List ArgSpec} {spec : ArgSpec} {shape : Shape} :
      specs = earlier ++ spec :: later → (∀ other ∈ earlier, other.name ≠ decl.name) →
      spec.name = decl.name → spec.shape = some shape → Given specs required decl shape spec.values
  | inferred {earlier later : List ArgSpec} {spec : ArgSpec} :
      specs = earlier ++ spec :: later → (∀ other ∈ earlier, other.name ≠ decl.name) →
      spec.name = decl.name → spec.shape = none → decl.rank = 1 →
      Given specs required decl [spec.values.size] spec.values
  | zero : (∀ spec ∈ specs, spec.name ≠ decl.name) → required = false →
      Given specs required decl (List.replicate decl.rank 1) #[Number.ofCode false 0]

/-- The result is a good one, or an error that can be named. -/
def Named {ε α : Type} (good : α → Prop) : Except (Stop ε) α → Prop
  | .ok a => good a
  | .error stop => stop ≠ .fault

theorem Named.bind {ε α β : Type} {good : α → Prop} {better : β → Prop} {work : Except (Stop ε) α}
    {next : α → Except (Stop ε) β} (first : Named good work)
    (second : ∀ a, good a → Named better (next a)) : Named better (work >>= next) := by
  cases work with
  | error stop => exact first
  | ok a => exact second a first

theorem contents_named :
    Named (fun found => Given specs required decl found.1 found.2)
      (contents specs required decl) := by
  unfold contents
  cases hfind : specs.find? fun spec => spec.name = decl.name with
  | some spec =>
    obtain ⟨hname, earlier, later, hspecs, hearlier⟩ := List.find?_eq_some_iff_append.mp hfind
    have hname : spec.name = decl.name := by simpa using hname
    have hearlier : ∀ other ∈ earlier, other.name ≠ decl.name := by simpa using hearlier
    dsimp only
    cases hshape : spec.shape with
    | some shape => exact Given.shaped hspecs hearlier hname hshape
    | none =>
      dsimp only
      split
      · next hrank => exact Given.inferred hspecs hearlier hname hshape hrank
      · exact nofun
  | none =>
    cases required with
    | true => exact nofun
    | false => exact Given.zero (by simpa using hfind) rfl

/-- What passes the checks has the rank of the parameter and as many values as its shape counts. -/
theorem checkedContents_named :
    Named (fun found => Given specs required decl found.1 found.2 ∧ found.1.length = decl.rank ∧
      found.1.count? = some found.2.size) (checkedContents specs required decl) := by
  refine contents_named.bind fun (shape, values) hgiven => ?_
  dsimp only
  split
  · exact nofun
  · next hrank =>
    cases hcount : shape.count? with
    | none => exact nofun
    | some length =>
      dsimp only
      split
      · exact nofun
      · next hlength =>
        rw [not_not] at hrank hlength
        exact ⟨hgiven, hrank, hlength ▸ hcount⟩

/-! ## Arrays -/

/-- The array has these values, in memory of its own or in memory shared with the device. -/
def Holds (device : Device) (a : ArrayValue) (cells : Cells) : Prop :=
  match a.storage with
  | .owned own => own = cells
  | .shared handle => handle ≤ device.lastHandle ∧ device.shared? handle = some cells

/-- An array for a parameter, with the values that are given for it. -/
structure Filled (specs : List ArgSpec) (shared : List String) (required : Bool) (device : Device)
    (decl : ArrayDecl) (a : ArrayValue) : Prop where
  type : a.type = decl.type
  allocator : a.allocator = .shared ↔ decl.name ∈ shared
  contents : ∃ values, Given specs required decl a.shape values ∧ a.size = values.size ∧
    Holds device a (values.map decl.elem.coerce)

theorem Holds.preserved {before after : Device} {a : ArrayValue} {cells : Cells}
    (h : Holds before a cells) (kept : before.Preserved after) : Holds after a cells := by
  unfold Holds at h ⊢
  cases hstorage : a.storage with
  | owned own =>
    rw [hstorage] at h
    exact h
  | shared handle =>
    rw [hstorage] at h
    exact ⟨Nat.le_trans h.1 kept.lastHandle, (kept.pool handle h.1).trans h.2⟩

theorem Filled.preserved {before after : Device} {a : ArrayValue}
    (h : Filled specs shared required before decl a) (kept : before.Preserved after) :
    Filled specs shared required after decl a := by
  obtain ⟨values, hgiven, hsize, holds⟩ := h.contents
  exact ⟨h.type, h.allocator, values, hgiven, hsize, holds.preserved kept⟩

theorem exec_share_counted (profile : Profile) (elem : Elem) {shape : Shape} {values : Cells}
    (hcount : shape.count? = some values.size) (device : Device) :
    exec (ArrayValue.share profile elem shape values) device =
      match exec (Device.allocShared profile elem values.size) device with
      | (.error stop, mid) => (.error stop, mid)
      | (.ok handle, mid) =>
        (.ok ⟨elem, shape, .shared handle⟩, mid.withShared handle (values.map elem.coerce)) := by
  simp only [ArrayValue.share, hcount, if_true, exec_bind]
  rcases exec (Device.allocShared profile elem values.size) device with ⟨_ | _, _⟩ <;> rfl

/-- Sharing values that were counted gives new memory with these values, or an error. -/
theorem ensures_share_counted (profile : Profile) (elem : Elem) {shape : Shape} {values : Cells}
    (hcount : shape.count? = some values.size) (device : Device) :
    Ensures (· = device) (ArrayValue.share profile elem shape values)
      (fun a after => device.Preserved after ∧ a.elem = elem ∧ a.shape = shape ∧
        a.allocator = .shared ∧ Holds after a (values.map elem.coerce))
      (fun stop _ => stop ≠ .fault) := by
  rintro before rfl
  have hwork := exec_share_counted profile elem hcount before
  rw [Device.exec_allocShared] at hwork
  by_cases hmemory : profile.sharedMemory
  · rw [if_pos hmemory] at hwork
    cases hzeroed : before.zeroed .buffer elem values.size with
    | error stop =>
      rw [hzeroed] at hwork
      rw [hwork]
      rintro rfl
      exact Device.zeroed_ne_fault before .buffer elem values.size hzeroed
    | ok cells =>
      rw [hzeroed] at hwork
      rw [hwork]
      refine ⟨(ArrayValue.share_ok hwork).2.2, rfl, rfl, rfl, Nat.le_refl _, ?_⟩
      exact (HandleTable.get?_set ..).trans (if_pos rfl)
  · rw [if_neg hmemory] at hwork
    rw [hwork]
    exact nofun

/-- The same of an array that an engine shares. -/
theorem ensures_sharedArray (elem : Elem) {shape : Shape} {values : Cells}
    (hcount : shape.count? = some values.size) (engine : Engine) :
    Ensures (· = engine) (Engine.sharedArray elem shape values)
      (fun a after => engine.machine.device.Preserved after.machine.device ∧ a.elem = elem ∧
        a.shape = shape ∧ a.allocator = .shared ∧
        Holds after.machine.device a (values.map elem.coerce))
      (fun stop _ => stop ≠ .fault) := by
  rintro before rfl
  have hshare := ensures_share_counted before.profile elem hcount before.machine.device _ rfl
  have hrun := Call.exec_machine_onDevice (ArrayValue.share before.profile elem shape values)
    before.machine
  rw [Engine.sharedArray, exec_bind, exec_get]
  dsimp only
  rw [Engine.onMachine, exec_bind, exec_get]
  dsimp only
  rw [← exec, hrun]
  rcases hexec : exec (ArrayValue.share before.profile elem shape values) before.machine.device with
    ⟨stop | a, device⟩ <;> rw [hexec] at hshare
  · cases stop with
    | fault => exact absurd rfl hshare
    | error cause => exact Stop.error_ne_fault _
  · exact hshare

/-- Checked work, then more work that never faults. -/
theorem Named.ensures {σ ε α β : Type} {good : α → Prop} {r : Except (Stop ε) α} (h : Named good r)
    {next : α → ExceptT (Stop ε) (StateM σ) β} {pre : σ → Prop} {post : β → σ → Prop}
    (rest : ∀ a, good a → Ensures pre (next a) post fun stop _ => stop ≠ .fault) :
    Ensures pre (MonadExcept.ofExcept r >>= next) post fun stop _ => stop ≠ .fault := by
  intro s hs
  rw [exec_bind, exec_ofExcept]
  cases r with
  | error stop => exact h
  | ok a => exact rest a h s hs

theorem ensures_arrayOf (decl : ArrayDecl) (engine : Engine) :
    Ensures (· = engine) (arrayOf specs shared required decl)
      (fun a after => engine.machine.device.Preserved after.machine.device ∧
        Filled specs shared required after.machine.device decl a)
      (fun stop _ => stop ≠ .fault) := by
  refine checkedContents_named.ensures ?_
  rintro ⟨shape, values⟩ ⟨hgiven, hrank, hcount⟩
  dsimp only at hgiven hrank hcount ⊢
  have hsize := Shape.size_of_count? hcount
  split
  · next hshared =>
    rintro before rfl
    have hmade := ensures_sharedArray decl.elem hcount before _ rfl
    rw [exec_bind, exec_get]
    dsimp only
    rw [← exec]
    rcases hexec : exec (Engine.sharedArray decl.elem shape values) before with
      ⟨stop | a, after⟩ <;> rw [hexec] at hmade
    · cases stop with
      | fault => exact absurd rfl hmade
      | error cause => exact Stop.error_ne_fault _
    · obtain ⟨kept, helem, hshape, hallocator, holds⟩ := hmade
      refine ⟨kept, ?_, iff_of_true hallocator hshared, values, hshape ▸ hgiven, ?_, holds⟩
      · rw [ArrayValue.type, ArrayValue.rank, helem, hshape, hrank, ArrayDecl.type]
      · rw [ArrayValue.size, hshape, hsize]
  · next hown =>
    rintro before rfl
    have hmade : ArrayValue.ofCells? decl.elem shape values =
        some ⟨decl.elem, shape, .owned (values.map decl.elem.coerce)⟩ := if_pos hsize
    rw [hmade]
    have hcopied : Allocator.copied ≠ .shared := by decide
    exact ⟨.refl _, congrArg _ hrank, iff_of_false hcopied hown, values, hgiven, hsize, rfl⟩

theorem ensures_arrays (params : List ArrayDecl) (engine : Engine) :
    Ensures (· = engine) (params.mapM (arrayOf specs shared required))
      (fun arrays after => engine.machine.device.Preserved after.machine.device ∧
        List.Forall₂ (Filled specs shared required after.machine.device) params arrays)
      (fun stop _ => stop ≠ .fault) := by
  induction params generalizing engine with
  | nil =>
    rintro before rfl
    exact ⟨.refl _, .nil⟩
  | cons decl params ih =>
    rw [List.mapM_cons]
    refine (ensures_arrayOf decl engine).bind fun a mid ⟨kept, filled⟩ => ?_
    -- Later arrays leave the memory of this one alone.
    have hrest : Ensures (· = mid) (params.mapM (arrayOf specs shared required) >>= fun arrays =>
        pure (a :: arrays))
        (fun arrays after => engine.machine.device.Preserved after.machine.device ∧
          List.Forall₂ (Filled specs shared required after.machine.device) (decl :: params) arrays)
        (fun stop _ => stop ≠ .fault) :=
      (ih mid).bind fun arrays => .pure _ fun after ⟨later, rest⟩ =>
        ⟨kept.trans later, .cons (filled.preserved later) rest⟩
    exact hrest mid rfl

theorem checkNames_named (f : Func) (params : List ArrayDecl) (names : List String) :
    Named (fun _ => ∀ name ∈ names, ∃ decl ∈ params, decl.name = name)
      (checkNames f params names) := by
  induction names with
  | nil => exact nofun
  | cons name names ih =>
    unfold checkNames
    split
    · next hfound =>
      have hfound : ∃ decl ∈ params, decl.name = name := by simpa using hfound
      cases hrest : checkNames f params names with
      | error stop =>
        rw [hrest] at ih
        exact ih
      | ok _ =>
        rw [hrest] at ih
        exact List.forall_mem_cons.mpr ⟨hfound, ih⟩
    · exact nofun

/-! ## Acceptance -/

variable {f : Func} {arrays : List ArrayValue}

/-- Arrays of the declared types have a list of types. -/
theorem argTypes_eq {ids : List ArrayId}
    (h : List.Forall₂ (fun id a => ∃ decl, f.decl? id = some decl ∧ a.type = decl.type) ids arrays) :
    Signature.argTypes f (ids.zip arrays) = .ok (arrays.map fun a => ⟨a.type, a.allocator⟩) := by
  induction h with
  | nil => rfl
  | @cons id a ids arrays hfirst _ ih =>
    obtain ⟨decl, hdecl, htype⟩ := hfirst
    rw [List.zip_cons_cons, Signature.argTypes, hdecl, ih]
    exact if_pos htype

theorem exists_returnType (wf : f.WellFormed) :
    ∃ returned, Signature.returnType f = .ok returned := by
  unfold Signature.returnType
  cases hreturns : f.returns with
  | none => exact ⟨none, rfl⟩
  | some id =>
    obtain ⟨decl, hdecl⟩ := Func.exists_decl (wf.returned hreturns)
    simp only [hdecl]
    exact ⟨some decl.type, rfl⟩

/-- One array of the declared type for each parameter is all that a signature asks for. -/
theorem exists_signature (wf : f.WellFormed)
    (h : List.Forall₂ (fun id a => ∃ decl, f.decl? id = some decl ∧ a.type = decl.type)
      f.params arrays) : ∃ signature, Signature.ofArgs f arrays = .ok signature := by
  obtain ⟨returned, hreturned⟩ := exists_returnType wf
  rw [Signature.ofArgs, if_pos h.length_eq.symm, argTypes_eq h, hreturned]
  exact ⟨_, rfl⟩

/-- Arrays for a call of a function, with what the argument texts say. -/
structure Callable (f : Func) (texts shared : List String) (required : Bool) (device : Device)
    (specs : List ArgSpec) (arrays : List ArrayValue) : Prop where
  accepted : ∃ signature, Signature.ofArgs f arrays = .ok signature
  said : List.Forall₂ ArgSpec.Says texts specs
  names : ∀ name ∈ specs.map (·.name) ++ shared,
    ∃ id ∈ f.params, ∃ decl, f.decl? id = some decl ∧ decl.name = name
  filled : List.Forall₂ (fun id a => ∃ decl, f.decl? id = some decl ∧
    Filled specs shared required device decl a) f.params arrays

theorem parse_named (texts : List String) :
    Named (fun specs => List.Forall₂ ArgSpec.Says texts specs)
      ((texts.mapM ArgSpec.parse).mapError fun cause => Stop.error (ArgumentsError.spec cause)) := by
  cases hspecs : texts.mapM ArgSpec.parse with
  | error cause => exact nofun
  | ok specs => exact (forall₂_of_mapM_ok hspecs).imp fun _ _ h => ArgSpec.says_of_parse h

theorem ensures_build (wf : f.WellFormed) (texts shared : List String) (required : Bool)
    (engine : Engine) :
    Ensures (· = engine) (build f texts shared required)
      (fun arrays after =>
        ∃ specs, Callable f texts shared required after.machine.device specs arrays)
      (fun stop _ => stop ≠ .fault) := by
  have hparams := Func.Printable.mapM_params wf
  have hdecls := forall₂_of_mapM_some hparams
  refine (parse_named texts).ensures fun specs said => ?_
  rw [hparams]
  have hfound : Named (· = f.paramDecls)
    (orFault (some f.paramDecls) : Except (Stop ArgumentsError) _) := rfl
  refine hfound.ensures ?_
  rintro _ rfl
  refine (checkNames_named f f.paramDecls _).ensures fun _ names => ?_
  refine (ensures_arrays f.paramDecls engine).weaken (fun _ h => h) ?_ fun _ _ h => h
  rintro arrays after ⟨_, hfilled⟩
  have filled := forall₂_comp hdecls hfilled
  refine ⟨specs, exists_signature wf (filled.imp ?_), said, fun name hname => ?_, filled⟩
  · rintro id a ⟨decl, hdecl, hfill⟩
    exact ⟨decl, hdecl, hfill.type⟩
  · obtain ⟨decl, hdecl, rfl⟩ := names name hname
    obtain ⟨id, hid, hdecl⟩ := List.mem_filterMap.mp hdecl
    exact ⟨id, hid, decl, hdecl, rfl⟩

/-- For a function that was parsed, arguments are refused with an error, or they are one array for
each parameter, accepted for a call and filled with what the argument texts say. What comes to be an
array has as many values as its shape counts, and all products on the way are machine words. -/
theorem build_callable {source : String} {funcs : List Func}
    (parsed : Source.parseSource source = .ok funcs) (member : f ∈ funcs)
    (texts shared : List String) (required : Bool) (engine : Engine) :
    ((∃ cause after, exec (build f texts shared required) engine = (.error (.error cause), after)) ∨
      ∃ arrays after specs, exec (build f texts shared required) engine = (.ok arrays, after) ∧
        Callable f texts shared required after.machine.device specs arrays) ∧
    ∀ specs decl shape values, checkedContents specs required decl = .ok (shape, values) →
      Shape.size shape = values.size ∧ ∀ k, Shape.size (shape.take k) < Shape.wordLimit := by
  have wf := (Source.parseSource_built parsed member).wellFormed
  refine ⟨?_, fun specs decl shape values hchecked => ?_⟩
  · have hbuild := ensures_build wf texts shared required engine _ rfl
    rcases hexec : exec (build f texts shared required) engine with
      ⟨stop | arrays, after⟩ <;> rw [hexec] at hbuild
    · cases stop with
      | fault => exact absurd rfl hbuild
      | error cause => exact .inl ⟨cause, after, rfl⟩
    · obtain ⟨specs, callable⟩ := hbuild
      exact .inr ⟨arrays, after, specs, rfl, callable⟩
  · have hnamed := @checkedContents_named specs required decl
    rw [hchecked] at hnamed
    obtain ⟨_, _, hcount⟩ := hnamed
    exact ⟨Shape.size_of_count? hcount, Shape.size_take_lt hcount⟩

end Arguments

/-! ## Three parameters -/

namespace Sample

/-- Two rows, a vector and an array of rank three. -/
def rows : Func where
  name := "rows"
  arrays := [⟨"m", .f64, 2, .param, .param 0⟩, ⟨"v", .f32, 1, .param, .param 1⟩,
    ⟨"z", .f64, 3, .param, .param 2⟩]
  params := [0, 1, 2]
  body := [.print [0]]
  returns := some 1
  serialOnly := false

def rowsSource : String :=
  "fn rows(m: f64[_, _], v: f32[_], z: f64[_, _, _]) -> v { print(m) }"

/-- The matrix with its shape, and the vector twice. -/
def rowsTexts : List String := [" m = 2 x 3 : 1, 2,3,4,5,6", "v=7,8", "v=9"]

end Sample

namespace Arguments

theorem build_callable_rows : Source.parseSource Sample.rowsSource = .ok [Sample.rows] ∧
    ∃ arrays after specs,
      exec (build Sample.rows Sample.rowsTexts ["m"] false) {} = (.ok arrays, after) ∧
        Callable Sample.rows Sample.rowsTexts ["m"] false after.machine.device specs arrays := by
  have parsed : Source.parseSource Sample.rowsSource = .ok [Sample.rows] :=
    Source.parseSource_of_toOption (by decide +kernel)
  have hpasses : passes (fun arrays _ => arrays.length = 3)
    (exec (build Sample.rows Sample.rowsTexts ["m"] false) {}) = true := by decide +kernel
  obtain ⟨arrays, after, hbuilt, _⟩ := exists_of_passes hpasses
  refine ⟨parsed, ?_⟩
  obtain ⟨cause, other, hrefused⟩ | callable :=
    (build_callable parsed (List.mem_singleton_self _) Sample.rowsTexts ["m"] false {}).1
  · rw [hbuilt] at hrefused
    cases hrefused
  · exact callable

end Arguments

end ArrayOffload
