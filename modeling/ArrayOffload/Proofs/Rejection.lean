import ArrayOffload.Proofs.Opening

/-!
# Calls that do not start

A call is rejected before its first step if its shapes do not fit, a callee is missing, or there is
no memory for a local array. With a checked function and arguments that were accepted there is no
other reason: every look-up finds what it looks for.

* `Call.Rejection`: the reasons;
* `Call.start_rejection`: a call that does not start has one of them.
-/

namespace ArrayOffload

/-- The reasons for which a call does not start. -/
inductive Call.Rejection (table : HostTable) : Stop OffloadError → Prop
  | arguments (function : String) (cause : ArgumentCause) :
      Rejection table (.error (.arguments function cause))
  | unresolved {callee : String} :
      table.find? callee = none → Rejection table (.error (.unresolvedCall callee))
  | full (elem : Elem) (length : Nat) (reason : String) :
      Rejection table (.error (.device (.allocationFailed elem length reason)))

/-- If the work stops, it has a good reason. -/
def Rejects {ε α : Type} (reason : ε → Prop) (work : Except ε α) : Prop :=
  ∀ stop, work = .error stop → reason stop

namespace Rejects

variable {ε α β : Type} {reason : ε → Prop}

theorem ok (a : α) : Rejects reason (.ok a) := by
  intro stop h
  cases h

theorem error {stop : ε} (h : reason stop) : Rejects reason (.error stop : Except ε α) := by
  intro other ho
  cases ho
  exact h

theorem bind {work : Except ε α} {next : α → Except ε β} (first : Rejects reason work)
    (second : ∀ a, work = .ok a → Rejects reason (next a)) : Rejects reason (work >>= next) := by
  intro stop h
  cases hwork : work with
  | error found =>
    rw [hwork] at h
    cases h
    exact first stop hwork
  | ok a =>
    rw [hwork] at h
    exact second a hwork stop h

theorem orFault {reason : Stop ε → Prop} {found : Option α} {a : α} (h : found = some a) :
    Rejects reason (orFault found : Except (Stop ε) α) := by
  rw [h]
  exact .ok a

end Rejects

namespace Shapes

variable {f : Func} {args : List ArrayValue} {table : HostTable} {signature : Signature}

/-- An accepted argument is there for each parameter. -/
theorem exists_arg (wf : f.Checked) (accepted : signature.Accepts f args) {id : ArrayId}
    {decl : ArrayDecl} {position : Nat} (hd : f.decl? id = some decl)
    (hrole : decl.role = .param position) : ∃ arg, args[position]? = some arg := by
  have hlt : position < args.length := accepted.length ▸ wf.position_lt hd hrole
  exact ⟨_, List.getElem?_eq_getElem hlt⟩

theorem ofDecl_rejects (wf : f.Checked) (accepted : signature.Accepts f args)
    {before : List Shape} {decl : ArrayDecl} (hd : f.decl? before.length = some decl) :
    Rejects (Call.Rejection table) (ofDecl f args before decl) := by
  have addressable : ∀ shape : Shape, Rejects (Call.Rejection table)
      (if shape.count?.isSome then pure shape
        else throw (.error (.arguments f.name (.tooLarge decl.name shape)))) := by
    intro shape
    split
    · exact .ok _
    · exact .error (.arguments _ _)
  unfold ofDecl
  cases hs : decl.shape with
  | fixed dims => exact Rejects.bind (.ok dims) fun shape _ => addressable shape
  | like source =>
    obtain ⟨hlt, _⟩ := wf.like_source hd hs
    exact Rejects.bind (.orFault (List.getElem?_eq_getElem hlt)) fun shape _ => addressable shape
  | param =>
    cases hr : decl.role with
    | scratch => exact absurd hs (wf.scratch_role hd hr)
    | param position =>
      obtain ⟨arg, harg⟩ := exists_arg wf accepted hd hr
      exact Rejects.bind (.orFault (by rw [harg]; rfl)) fun shape _ => addressable shape

/-- The shapes before a declaration are there when it is its turn. -/
theorem ofDecls_rejects (wf : f.Checked) (accepted : signature.Accepts f args)
    {before : List Shape} {decls : List ArrayDecl} (hrest : f.arrays.drop before.length = decls) :
    Rejects (Call.Rejection table) (ofDecls f args before decls) := by
  induction decls generalizing before with
  | nil => exact .ok _
  | cons decl rest ih =>
    have hd : f.decl? before.length = some decl := by
      have := congrArg (·[0]?) hrest
      simpa [Func.decl?] using this
    refine Rejects.bind (ofDecl_rejects wf accepted hd) fun shape _ => ih ?_
    rw [List.length_append, List.length_singleton, ← List.drop_drop, hrest, List.drop_one,
      List.tail_cons]

theorem exists_name {id : ArrayId} (h : id < f.arrays.length) : ∃ name, f.nameOf? id = some name := by
  obtain ⟨decl, hd⟩ := Func.exists_decl h
  exact ⟨decl.name, by simp [Func.nameOf?, hd]⟩

section
variable {shapes : List Shape} (hlength : shapes.length = f.arrays.length)

include hlength

theorem shape_rejects {id : ArrayId} (h : id < f.arrays.length) :
    Rejects (Call.Rejection table)
      (orFault shapes[id]? : Except (Stop OffloadError) Shape) :=
  .orFault (List.getElem?_eq_getElem (hlength ▸ h))

omit hlength in
theorem name_rejects {id : ArrayId} (h : id < f.arrays.length) :
    Rejects (Call.Rejection table)
      (orFault (f.nameOf? id) : Except (Stop OffloadError) String) := by
  obtain ⟨name, hname⟩ := exists_name h
  exact .orFault hname

theorem checkOperands_rejects {out : ArrayId} (hout : out < f.arrays.length) {ids : List ArrayId}
    (hids : ∀ id ∈ ids, id < f.arrays.length) :
    Rejects (Call.Rejection table) (checkOperands f shapes out ids) := by
  induction ids with
  | nil => exact .ok ()
  | cons id rest ih =>
    have hid := hids id (by simp)
    refine Rejects.bind (shape_rejects hlength hid) fun shape _ =>
      Rejects.bind (shape_rejects hlength hout) fun target _ => ?_
    split
    · exact ih fun other ho => hids other (by simp [ho])
    · exact Rejects.bind (name_rejects hid) fun _ _ =>
        Rejects.bind (name_rejects hout) fun _ _ => .error (.arguments _ _)

theorem checkOp_rejects (wf : f.Checked) {op : Op} (hop : op ∈ f.body) :
    Rejects (Call.Rejection table) (checkOp f shapes table op) := by
  have hlt : ∀ id ∈ op.reads ++ op.writes, id < f.arrays.length := fun id => wf.mem_lt hop
  cases op with
  | map out op args =>
    refine checkOperands_rejects hlength (hlt out (by simp [Op.writes])) fun id hid => ?_
    exact hlt id (List.mem_append_left _ (mem_distinct.mpr hid))
  | scan out op input =>
    have hout := hlt out (by simp [Op.writes])
    have hin := hlt input (by simp [Op.reads])
    refine Rejects.bind (shape_rejects hlength hout) fun target _ =>
      Rejects.bind (shape_rejects hlength hin) fun shape _ => ?_
    split
    · exact .ok ()
    · exact Rejects.bind (name_rejects hout) fun _ _ =>
        Rejects.bind (name_rejects hin) fun _ _ => .error (.arguments _ _)
  | store array index constant =>
    have harray := hlt array (by simp [Op.reads])
    refine Rejects.bind (shape_rejects hlength harray) fun shape _ => ?_
    split
    · exact .ok ()
    · exact Rejects.bind (name_rejects harray) fun _ _ => .error (.arguments _ _)
  | call callee reads writes =>
    cases hfind : table.find? callee with
    | none =>
      simp only [checkOp, hfind]
      exact .error (.unresolved hfind)
    | some hostFn =>
      simp only [checkOp, hfind]
      exact .ok ()
  | reduce out op input => exact .ok ()
  | print arrays => exact .ok ()

end

theorem resolve_rejects (wf : f.Checked) (accepted : signature.Accepts f args) :
    Rejects (Call.Rejection table) (resolve f args table) := by
  refine Rejects.bind (ofDecls_rejects wf accepted rfl) fun shapes hshapes => ?_
  have hlength : shapes.length = f.arrays.length := by simpa using (ofDecls_ok hshapes).1
  refine Rejects.bind ?_ fun _ _ => .ok shapes
  -- The operations are checked in order, and each of them stands in the body.
  have checks : ∀ ops : List Op, (∀ op ∈ ops, op ∈ f.body) →
      Rejects (Call.Rejection table) (ops.forM (checkOp f shapes table)) := by
    intro ops
    induction ops with
    | nil => exact fun _ => .ok ()
    | cons op rest ih =>
      intro hops
      exact Rejects.bind (checkOp_rejects hlength wf (hops op (by simp)))
        fun _ _ => ih fun other ho => hops other (by simp [ho])
  exact checks f.body fun _ hop => hop

end Shapes

theorem Tracker.exists_start {f : Func} {args : List ArrayValue} {signature : Signature}
    (wf : f.Checked) (accepted : signature.Accepts f args) :
    ∃ tracker, start? f signature = some tracker := by
  have hall : ∀ entry ∈ f.arrays.zipIdx, ∃ binding,
      bindingOf? f signature entry.2 entry.1 = some binding := by
    rintro ⟨decl, id⟩ hentry
    have hd : f.decl? id = some decl := by
      simpa [Func.decl?] using List.mem_zipIdx_iff_getElem?.mp hentry
    unfold bindingOf?
    cases hr : decl.role with
    | scratch => exact ⟨_, rfl⟩
    | param position =>
      obtain ⟨arg, harg⟩ := Shapes.exists_arg wf accepted hd hr
      have halloc := (accepted.arg (List.getElem?_eq_getElem (wf.position_lt hd hr)) harg).2
      dsimp only
      rw [halloc]
      exact ⟨_, rfl⟩
  obtain ⟨bindings, hbindings⟩ := exists_mapM_some hall
  exact ⟨_, by rw [start?, hbindings]; rfl⟩

namespace Call

theorem hostMemory_rejects {f : Func} {args : List ArrayValue} {table : HostTable}
    {signature : Signature} (wf : f.Checked) (accepted : signature.Accepts f args) (device : Device)
    (first : ArrayId) {pairs : List (ArrayDecl × Shape)}
    (hpairs : ∀ pair ∈ pairs, ∃ id, f.decl? id = some pair.1) :
    Rejects (Rejection table) (hostMemory device args first pairs) := by
  induction pairs generalizing first with
  | nil => exact .ok []
  | cons pair rest ih =>
    obtain ⟨decl, shape⟩ := pair
    obtain ⟨id, hd⟩ := hpairs (decl, shape) (by simp)
    rw [hostMemory_cons]
    refine Rejects.bind ?_ fun storage _ =>
      Rejects.bind (ih _ fun other ho => hpairs other (by simp [ho])) fun _ _ => .ok _
    unfold storageOf
    cases hr : decl.role with
    | param position =>
      obtain ⟨arg, harg⟩ := Shapes.exists_arg wf accepted hd hr
      exact .orFault (by rw [harg]; rfl)
    | scratch =>
      rcases zeros_cases device (.scratch first) decl.elem shape.size with
        ⟨reason, _, hzeros⟩ | ⟨_, hzeros⟩
      · rw [hzeros]
        exact .error (.full _ _ _)
      · rw [hzeros]
        exact .ok _

/-- A call that does not start has a reason that the caller can see. -/
theorem start_rejection {unit : CompiledUnit} {table : HostTable} {args : List ArrayValue}
    {machine : Machine} {stop : Stop OffloadError} (wf : unit.function.Checked)
    (accepted : unit.key.signature.Accepts unit.function args)
    (h : start unit table args machine = .error stop) : Rejection table stop := by
  obtain ⟨tracker, htracker⟩ := Tracker.exists_start wf accepted
  refine Rejects.bind (Shapes.resolve_rejects wf accepted) (fun shapes _ => ?_) stop h
  refine Rejects.bind (hostMemory_rejects wf accepted machine.device 0 ?_) fun host _ =>
    Rejects.bind (.orFault htracker) fun _ _ => .ok _
  rintro ⟨decl, shape⟩ hpair
  obtain ⟨id, hid⟩ := List.getElem?_of_mem (List.of_mem_zip hpair).1
  exact ⟨id, hid⟩

end Call

end ArrayOffload
