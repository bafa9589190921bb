import ArrayOffload.Func.Builder

/-!
# Functions that builders produce

A builder starts from the empty function and adds declarations and operations. `Func.Built` says
that a function came out of a builder that accepted it. `Func.WellFormed` collects what lowering
and execution rely on; every built function has it. For the look-ups alone the checks are nearly
enough, which is `Func.Checked`.

* `Func.checked_of_check`: the checks, and positions of parameters that exist;
* `Func.Built.wellFormed`: the checks of `build`, and what builders never do;
* `Func.Checked.mem_lt`, `Func.Checked.map_arity`, `Func.Checked.reduce_target`: the same for single
  operations.
-/

namespace ArrayOffload

theorem mem_distinct {ids : List ArrayId} {id : ArrayId} : id ∈ distinct ids ↔ id ∈ ids := by
  have general : ∀ (rest seen : List ArrayId),
      id ∈ rest.foldl (fun seen id => if id ∈ seen then seen else seen ++ [id]) seen ↔
        id ∈ seen ∨ id ∈ rest := by
    intro rest
    induction rest with
    | nil => simp
    | cons head tail ih =>
      intro seen
      rw [List.foldl_cons, ih]
      split <;> grind
  simpa [distinct] using general ids []

namespace Func

/-- What a builder holds after some calls. -/
inductive Building : Func → Prop
  | empty (name : String) : Building (Func.empty name)
  | param {f : Func} (name : String) (elem : Elem) (rank : Nat) :
      Building f → Building (f.addParam name elem rank).2
  | like {f : Func} (name : String) (elem : Elem) (source : ArrayId) :
      Building f → Building (f.addLike name elem source).2
  | fixed {f : Func} (name : String) (elem : Elem) (dims : Shape) :
      Building f → Building (f.addFixed name elem dims).2
  | push {f : Func} (op : Op) : Building f → Building (f.push op)
  | returns {f : Func} (id : ArrayId) : Building f → Building { f with returns := some id }
  | serialOnly {f : Func} : Building f → Building { f with serialOnly := true }

/-- The function came out of a builder. -/
def Built (f : Func) : Prop := ∃ draft, Building draft ∧ draft.build = .ok f

/-- Every array, source of a shape and parameter that the function refers to is there. -/
structure Checked (f : Func) : Prop where
  like_source : ∀ {id decl source}, f.decl? id = some decl → decl.shape = .like source →
    source < id ∧ ∃ other, f.decl? source = some other ∧ other.rank = decl.rank
  fixed_dims : ∀ {id decl dims}, f.decl? id = some decl → decl.shape = .fixed dims →
    dims.length = decl.rank
  position_lt : ∀ {id decl position}, f.decl? id = some decl → decl.role = .param position →
    position < f.params.length
  scratch_role : ∀ {id decl}, f.decl? id = some decl → decl.role = .scratch → decl.shape ≠ .param
  param_decl : ∀ {position id}, f.params[position]? = some id →
    ∃ decl, f.decl? id = some decl ∧ decl.role = .param position
  returned : ∀ {id}, f.returns = some id → id < f.arrays.length
  checked : ∀ op ∈ f.body, f.checkOp op = .ok ()

/-- What the rest of the library relies on. -/
structure WellFormed (f : Func) : Prop extends Checked f where
  param_role : ∀ {id decl position}, f.decl? id = some decl → decl.role = .param position →
    decl.shape = .param ∧ f.params[position]? = some id

theorem exists_decl {f : Func} {id : ArrayId} (h : id < f.arrays.length) :
    ∃ decl, f.decl? id = some decl := by
  simp [decl?, h]

theorem lt_of_decl? {f : Func} {id : ArrayId} {decl : ArrayDecl} (h : f.decl? id = some decl) :
    id < f.arrays.length := by
  simp only [decl?, List.getElem?_eq_some_iff] at h
  exact h.1

/-- One more declaration leaves the others where they are. -/
theorem decl?_concat {f : Func} {new decl : ArrayDecl} {id : ArrayId}
    (h : (f.arrays ++ [new])[id]? = some decl) :
    f.decl? id = some decl ∨ id = f.arrays.length ∧ new = decl := by
  rw [List.getElem?_append] at h
  split at h
  · exact .inl h
  · next hge =>
    rw [List.getElem?_singleton] at h
    split at h
    · next hz =>
      cases h
      exact .inr ⟨Nat.le_antisymm (Nat.le_of_sub_eq_zero hz) (Nat.le_of_not_lt hge), rfl⟩
    · cases h

/-! ## What builders never do -/

/-- A declaration made by a builder is a parameter at its position, or a local array with a shape
of its own. -/
def Placed (f : Func) (id : ArrayId) (decl : ArrayDecl) : Prop :=
  (∃ position, decl.role = .param position ∧ decl.shape = .param ∧
    f.params[position]? = some id) ∨
  (decl.role = .scratch ∧ decl.shape ≠ .param)

/-- A new declaration with the parameters it brings leaves the earlier ones in place. -/
theorem placed_declare {f : Func} {decl : ArrayDecl} (new : ArrayDecl) (more : List ArrayId)
    (before : ∀ id decl, f.decl? id = some decl → f.Placed id decl)
    (last : Placed { f with arrays := f.arrays ++ [new], params := f.params ++ more }
      f.arrays.length new) {id : ArrayId}
    (h : (f.arrays ++ [new])[id]? = some decl) :
    Placed { f with arrays := f.arrays ++ [new], params := f.params ++ more } id decl := by
  rcases decl?_concat h with hold | ⟨rfl, rfl⟩
  · rcases before id decl hold with ⟨position, hr, hs, hp⟩ | hl
    · refine .inl ⟨position, hr, hs, ?_⟩
      rw [List.getElem?_append_left (List.getElem?_eq_some_iff.mp hp).1]
      exact hp
    · exact .inr hl
  · exact last

theorem Building.placed {f : Func} (h : Building f) :
    ∀ id decl, f.decl? id = some decl → f.Placed id decl := by
  induction h with
  | empty name => simp [decl?, Func.empty]
  | @param f name elem rank _ ih =>
    intro id decl hd
    exact placed_declare ⟨name, elem, rank, .param, .param f.params.length⟩ [f.arrays.length] ih
      (.inl ⟨f.params.length, by simp⟩) hd
  | @like f name elem source _ ih =>
    intro id decl hd
    have := placed_declare
      ⟨name, elem, ((f.decl? source).map (·.rank)).getD 0, .like source, .scratch⟩ [] ih
      (.inr ⟨rfl, by simp⟩) hd
    simpa [Placed, addLike, declare] using this
  | @fixed f name elem dims _ ih =>
    intro id decl hd
    have := placed_declare ⟨name, elem, dims.length, .fixed dims, .scratch⟩ [] ih
      (.inr ⟨rfl, by simp⟩) hd
    simpa [Placed, addFixed, declare] using this
  | push op _ ih => exact ih
  | returns id _ ih => exact ih
  | serialOnly _ ih => exact ih

/-! ## The checks of a builder -/

theorem checkDecls_ok {before decls : List ArrayDecl} (h : checkDecls before decls = .ok ())
    {i : Nat} {decl : ArrayDecl} (hd : decls[i]? = some decl) :
    checkDecl (before ++ decls.take i) decl = .ok () := by
  induction decls generalizing before i with
  | nil => simp at hd
  | cons head tail ih =>
    simp only [checkDecls] at h
    split at h
    · cases h
    · next hc =>
      cases i with
      | zero =>
        simp only [List.getElem?_cons_zero, Option.some.injEq] at hd
        subst hd
        simpa using hc
      | succ i =>
        rw [List.getElem?_cons_succ] at hd
        simpa using ih h hd

theorem checkParams_ok {f : Func} {ids : List ArrayId} {start : Nat}
    (h : f.checkParams start ids = .ok ()) {i : Nat} {id : ArrayId} (hi : ids[i]? = some id) :
    (f.decl? id).map (·.role) = some (.param (start + i)) := by
  induction ids generalizing start i with
  | nil => simp at hi
  | cons head tail ih =>
    simp only [checkParams] at h
    split at h
    · next hr =>
      cases i with
      | zero =>
        simp only [List.getElem?_cons_zero, Option.some.injEq] at hi
        subst hi
        simpa using hr
      | succ i =>
        rw [List.getElem?_cons_succ] at hi
        have := ih h hi
        rwa [show start + 1 + i = start + (i + 1) by omega] at this
    · cases h

theorem checkOps_ok {f : Func} {ops : List Op} (h : f.checkOps ops = .ok ()) :
    ∀ op ∈ ops, f.checkOp op = .ok () := by
  induction ops with
  | nil => simp
  | cons head tail ih =>
    simp only [checkOps] at h
    split at h
    · cases h
    · next hc =>
      intro op hop
      rcases List.mem_cons.mp hop with rfl | ht
      · exact hc
      · exact ih h op ht

theorem check_ok {f : Func} (h : f.check = .ok ()) :
    checkDecls [] f.arrays = .ok () ∧ f.checkParams 0 f.params = .ok () ∧
      f.checkReturn = .ok () ∧ f.checkOps f.body = .ok () := by
  simp only [check, bind, Except.bind] at h
  split at h
  · cases h
  · next hd =>
    split at h
    · cases h
    · next hp =>
      split at h
      · cases h
      · next hr => exact ⟨hd, hp, hr, h⟩

theorem checkDecl_like {before : List ArrayDecl} {decl : ArrayDecl} {source : ArrayId}
    (h : checkDecl before decl = .ok ()) (hs : decl.shape = .like source) :
    ∃ other, before[source]? = some other ∧ other.rank = decl.rank := by
  simp only [checkDecl, hs] at h
  grind

theorem checkDecl_fixed {before : List ArrayDecl} {decl : ArrayDecl} {dims : Shape}
    (h : checkDecl before decl = .ok ()) (hs : decl.shape = .fixed dims) :
    dims.length = decl.rank := by
  simp only [checkDecl, hs] at h
  grind

theorem checkDecl_param {before : List ArrayDecl} {decl : ArrayDecl}
    (h : checkDecl before decl = .ok ()) (hr : decl.role = .scratch) : decl.shape ≠ .param := by
  intro hs
  simp only [checkDecl, hs, hr] at h
  grind

/-- The source of a shape is declared before, with the same rank. -/
theorem checkDecls_like {f : Func} (h : checkDecls [] f.arrays = .ok ()) {id source : ArrayId}
    {decl : ArrayDecl} (hd : f.decl? id = some decl) (hs : decl.shape = .like source) :
    source < id ∧ ∃ other, f.decl? source = some other ∧ other.rank = decl.rank := by
  obtain ⟨other, hother, hrank⟩ := checkDecl_like (checkDecls_ok h hd) hs
  rw [List.nil_append, List.getElem?_take] at hother
  split at hother
  · next hlt => exact ⟨hlt, other, hother, hrank⟩
  · cases hother

theorem check_of_validate {f : Func} (h : f.validate = .ok ()) : f.check = .ok () := by
  rw [validate] at h
  cases hc : f.check with
  | error cause =>
    rw [hc] at h
    cases h
  | ok => rfl

theorem build_ok {draft f : Func} (h : draft.build = .ok f) : draft = f ∧ f.check = .ok () := by
  rw [build] at h
  cases hv : draft.validate with
  | error cause =>
    rw [hv] at h
    cases h
  | ok =>
    rw [hv] at h
    cases h
    exact ⟨rfl, check_of_validate hv⟩

/-- The checks see to everything but the positions of arrays that are no parameters. -/
theorem checked_of_check {f : Func} (hc : f.check = .ok ())
    (positions : ∀ {id decl position}, f.decl? id = some decl → decl.role = .param position →
      position < f.params.length) : f.Checked := by
  obtain ⟨hd, hp, hr, ho⟩ := check_ok hc
  refine ⟨checkDecls_like hd, ?_, positions, ?_, ?_, ?_, checkOps_ok ho⟩
  · intro id decl dims hdecl hs
    exact checkDecl_fixed (checkDecls_ok hd hdecl) hs
  · intro id decl hdecl hrole
    exact checkDecl_param (checkDecls_ok hd hdecl) hrole
  · intro position id hi
    have := checkParams_ok hp hi
    rw [Nat.zero_add, Option.map_eq_some_iff] at this
    exact this
  · intro id hret
    simp only [checkReturn, hret] at hr
    split at hr
    · next hlt => exact hlt
    · cases hr

/-- The checks, and declarations that are parameters or local arrays, are all there is to it. -/
theorem wellFormed_of_check {f : Func} (hc : f.check = .ok ())
    (placed : ∀ id decl, f.decl? id = some decl → f.Placed id decl) : f.WellFormed := by
  have roles : ∀ {id decl position}, f.decl? id = some decl → decl.role = .param position →
      decl.shape = .param ∧ f.params[position]? = some id := by
    intro id decl position hdecl hrole
    rcases placed id decl hdecl with ⟨p, hrp, hs, hp⟩ | ⟨hl, _⟩
    · rw [hrole] at hrp
      cases hrp
      exact ⟨hs, hp⟩
    · rw [hrole] at hl
      cases hl
  have positions : ∀ {id decl position}, f.decl? id = some decl → decl.role = .param position →
      position < f.params.length := fun hdecl hrole =>
    (List.getElem?_eq_some_iff.mp (roles hdecl hrole).2).1
  exact ⟨checked_of_check hc positions, roles⟩

theorem Built.wellFormed {f : Func} (h : f.Built) : f.WellFormed := by
  obtain ⟨draft, hb, hf⟩ := h
  obtain ⟨rfl, hc⟩ := build_ok hf
  exact wellFormed_of_check hc hb.placed

/-! ## Single operations -/

theorem checkOp_undeclared {f : Func} {op : Op} (h : f.checkOp op = .ok ()) :
    (op.reads ++ op.writes).find? (fun id => f.arrays.length ≤ id) = none := by
  unfold checkOp at h
  split at h
  · cases h
  · next hn => exact hn

theorem lt_of_checkOp {f : Func} {op : Op} (h : f.checkOp op = .ok ()) {id : ArrayId}
    (hid : id ∈ op.reads ++ op.writes) : id < f.arrays.length := by
  have := List.find?_eq_none.mp (checkOp_undeclared h) id hid
  simpa using this

namespace Checked

variable {f : Func} (wf : f.Checked)

include wf in
/-- Operations use declared arrays. -/
theorem mem_lt {op : Op} (hop : op ∈ f.body) {id : ArrayId} (h : id ∈ op.reads ++ op.writes) :
    id < f.arrays.length := lt_of_checkOp (wf.checked op hop) h

include wf in
theorem map_arity {out : ArrayId} {op : MapOp} {args : List Operand}
    (hop : .map out op args ∈ f.body) : args.length = op.arity := by
  have hc := wf.checked _ hop
  have hu := checkOp_undeclared hc
  simp only [checkOp, hu] at hc
  split at hc
  · cases hc
  · next h => simpa using h

include wf in
/-- A reduction writes an array of one element. -/
theorem reduce_target {out input : ArrayId} {op : FoldOp} (hop : .reduce out op input ∈ f.body) :
    ∃ decl, f.decl? out = some decl ∧ decl.shape = .fixed [1] := by
  have hc := wf.checked _ hop
  have hu := checkOp_undeclared hc
  simp only [checkOp, hu] at hc
  split at hc
  · cases hc
  · next decl hd =>
    split at hc
    · next hs => exact ⟨decl, hd, hs⟩
    · cases hc

end Checked

end Func

end ArrayOffload
