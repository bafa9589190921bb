/-!
# Runs of computations

Calls, machines and devices are programmed as computations that change a state and may stop.
`exec` gives the result of one together with the state it leaves. The lemmas take a program apart
into its single actions, so that later proofs follow the program and never the monad.

* `exec_bind`, `exec_bind_eq_ok`: one action after the other;
* `Ensures`: what holds after a computation, for each way in which it can end;
* `Ensures.forM`, `Ensures.mapM`: an invariant of one round is an invariant of the loop;
* `Maintains`: what holds of the state throughout;
* `mapM_some`: what a successful traversal says about each element.
-/

namespace ArrayOffload

theorem bind_eq_ok {ε α β : Type} {work : Except ε α} {next : α → Except ε β} {b : β} :
    work >>= next = .ok b ↔ ∃ a, work = .ok a ∧ next a = .ok b := by
  cases work <;> simp [bind, Except.bind]

theorem mapError_ok {ε δ α : Type} (f : ε → δ) (a : α) :
    (Except.ok a : Except ε α).mapError f = .ok a := rfl

theorem mapError_error {ε δ α : Type} (f : ε → δ) (e : ε) :
    (Except.error e : Except ε α).mapError f = .error (f e) := rfl

/-- What a computation gives from a state, and the state it leaves. -/
def exec {σ ε α : Type} (work : ExceptT ε (StateM σ) α) (s : σ) : Except ε α × σ := work.run.run s

section
variable {σ ε α β : Type}

@[simp]
theorem exec_pure (a : α) (s : σ) : exec (pure a : ExceptT ε (StateM σ) α) s = (.ok a, s) := rfl

@[simp]
theorem exec_get (s : σ) : exec (get : ExceptT ε (StateM σ) σ) s = (.ok s, s) := rfl

@[simp]
theorem exec_set (s t : σ) : exec (set t : ExceptT ε (StateM σ) PUnit) s = (.ok ⟨⟩, t) := rfl

@[simp]
theorem exec_modify (f : σ → σ) (s : σ) :
    exec (modify f : ExceptT ε (StateM σ) PUnit) s = (.ok ⟨⟩, f s) := rfl

@[simp]
theorem exec_ofExcept (r : Except ε α) (s : σ) :
    exec (MonadExcept.ofExcept r : ExceptT ε (StateM σ) α) s = (r, s) := by
  cases r <;> rfl

theorem exec_bind (work : ExceptT ε (StateM σ) α) (next : α → ExceptT ε (StateM σ) β) (s : σ) :
    exec (work >>= next) s =
      match exec work s with
      | (.ok a, t) => exec (next a) t
      | (.error e, t) => (.error e, t) := by
  simp only [exec, ExceptT.run_bind, StateT.run_bind]
  rcases work.run.run s with ⟨_ | _, _⟩ <;> rfl

theorem exec_tryCatch (work : ExceptT ε (StateM σ) α) (handler : ε → ExceptT ε (StateM σ) α)
    (s : σ) :
    exec (tryCatch work handler) s =
      match exec work s with
      | (.ok a, t) => (.ok a, t)
      | (.error e, t) => exec (handler e) t := by
  simp only [exec, tryCatch, tryCatchThe, MonadExceptOf.tryCatch, ExceptT.tryCatch, ExceptT.run_mk,
    StateT.run_bind]
  rw [show StateT.run work s = work.run.run s from rfl]
  rcases work.run.run s with ⟨_ | _, _⟩ <;> rfl

theorem exec_bind_of_ok {work : ExceptT ε (StateM σ) α} {next : α → ExceptT ε (StateM σ) β}
    {s t : σ} {a : α} (h : exec work s = (.ok a, t)) :
    exec (work >>= next) s = exec (next a) t := by
  rw [exec_bind, h]

/-- A sequence succeeds by the success of both parts. -/
theorem exec_bind_eq_ok {work : ExceptT ε (StateM σ) α} {next : α → ExceptT ε (StateM σ) β}
    {s t : σ} {b : β} :
    exec (work >>= next) s = (.ok b, t) ↔
      ∃ a m, exec work s = (.ok a, m) ∧ exec (next a) m = (.ok b, t) := by
  rw [exec_bind]
  rcases h : exec work s with ⟨e | a, m⟩
  · simp
  · constructor
    · intro hn
      exact ⟨a, m, rfl, hn⟩
    · rintro ⟨a', m', hw, hn⟩
      cases hw
      exact hn

theorem exec_forM_cons {γ : Type} (x : γ) (xs : List γ) (f : γ → ExceptT ε (StateM σ) PUnit)
    (s : σ) :
    exec ((x :: xs).forM f) s =
      match exec (f x) s with
      | (.ok _, t) => exec (xs.forM f) t
      | (.error e, t) => (.error e, t) := by
  change exec (f x >>= fun _ => xs.forM f) s = _
  rw [exec_bind]
  rcases exec (f x) s with ⟨_ | _, _⟩ <;> rfl

theorem exec_forM_append {γ : Type} (xs ys : List γ) (f : γ → ExceptT ε (StateM σ) PUnit) (s : σ) :
    exec ((xs ++ ys).forM f) s =
      match exec (xs.forM f) s with
      | (.ok _, t) => exec (ys.forM f) t
      | (.error e, t) => (.error e, t) := by
  induction xs generalizing s with
  | nil => rfl
  | cons x xs ih =>
    rw [List.cons_append, exec_forM_cons, exec_forM_cons]
    rcases exec (f x) s with ⟨_ | _, t⟩
    · rfl
    · exact ih t

/-- A loop succeeds by the success of its first round and of the others. -/
theorem exec_forM_cons_ok {γ : Type} {x : γ} {xs : List γ} {f : γ → ExceptT ε (StateM σ) PUnit}
    {s t : σ} (h : exec ((x :: xs).forM f) s = (.ok ⟨⟩, t)) :
    ∃ m, exec (f x) s = (.ok ⟨⟩, m) ∧ exec (xs.forM f) m = (.ok ⟨⟩, t) := by
  rw [exec_forM_cons] at h
  rcases hexec : exec (f x) s with ⟨e | _, m⟩ <;> rw [hexec] at h
  · cases h
  · exact ⟨m, rfl, h⟩

theorem exec_forM_append_ok {γ : Type} {xs ys : List γ} {f : γ → ExceptT ε (StateM σ) PUnit}
    {s t : σ} (h : exec ((xs ++ ys).forM f) s = (.ok ⟨⟩, t)) :
    ∃ m, exec (xs.forM f) s = (.ok ⟨⟩, m) ∧ exec (ys.forM f) m = (.ok ⟨⟩, t) := by
  rw [exec_forM_append] at h
  rcases hexec : exec (xs.forM f) s with ⟨e | _, m⟩ <;> rw [hexec] at h
  · cases h
  · exact ⟨m, rfl, h⟩

/-- A loop that stops does so in one of its rounds, after the rounds before it. -/
theorem exec_forM_error {γ : Type} {xs : List γ} {f : γ → ExceptT ε (StateM σ) PUnit} {s t : σ}
    {e : ε} (h : exec (xs.forM f) s = (.error e, t)) :
    ∃ done x rest mid, xs = done ++ x :: rest ∧ exec (done.forM f) s = (.ok ⟨⟩, mid) ∧
      exec (f x) mid = (.error e, t) := by
  induction xs generalizing s with
  | nil => cases h
  | cons x xs ih =>
    rw [exec_forM_cons] at h
    rcases hx : exec (f x) s with ⟨stop | _, mid⟩
    · rw [hx] at h
      cases h
      exact ⟨[], x, xs, s, rfl, rfl, hx⟩
    · rw [hx] at h
      obtain ⟨done, y, rest, last, rfl, hdone, hy⟩ := ih h
      refine ⟨x :: done, y, rest, last, rfl, ?_, hy⟩
      rw [exec_forM_cons, hx]
      exact hdone

/-- The work succeeded, and its result passes a check. -/
def passes (check : α → σ → Bool) : Except ε α × σ → Bool
  | (.ok a, t) => check a t
  | (.error _, _) => false

theorem exists_of_passes {check : α → σ → Bool} {ended : Except ε α × σ}
    (h : passes check ended = true) : ∃ a t, ended = (.ok a, t) ∧ check a t = true := by
  rcases ended with ⟨_ | a, t⟩
  · cases h
  · exact ⟨a, t, rfl, h⟩

/-- From a state in `pre`, the work ends well in `post`, or stops for a reason in `fails`. -/
def Ensures (pre : σ → Prop) (work : ExceptT ε (StateM σ) α) (post : α → σ → Prop)
    (fails : ε → σ → Prop) : Prop :=
  ∀ s, pre s →
    match exec work s with
    | (.ok a, t) => post a t
    | (.error e, t) => fails e t

namespace Ensures

variable {pre : σ → Prop} {post : β → σ → Prop} {fails : ε → σ → Prop}

theorem pure {post : α → σ → Prop} (a : α) (h : ∀ s, pre s → post a s) :
    Ensures pre (Pure.pure a : ExceptT ε (StateM σ) α) post fails := h

theorem bind {mid : α → σ → Prop} {work : ExceptT ε (StateM σ) α}
    {next : α → ExceptT ε (StateM σ) β} (first : Ensures pre work mid fails)
    (second : ∀ a, Ensures (mid a) (next a) post fails) :
    Ensures pre (work >>= next) post fails := by
  intro s hs
  have hw := first s hs
  rw [exec_bind]
  rcases h : exec work s with ⟨e | a, t⟩ <;> rw [h] at hw
  · exact hw
  · exact second a t hw

theorem tryCatch {mid : ε → σ → Prop} {work : ExceptT ε (StateM σ) β}
    {handler : ε → ExceptT ε (StateM σ) β} (first : Ensures pre work post mid)
    (second : ∀ e, Ensures (mid e) (handler e) post fails) :
    Ensures pre (MonadExcept.tryCatch work handler) post fails := by
  intro s hs
  have hw := first s hs
  rw [exec_tryCatch]
  rcases h : exec work s with ⟨e | a, t⟩ <;> rw [h] at hw
  · exact second e t hw
  · exact hw

/-- A look at the state. -/
theorem get {next : σ → ExceptT ε (StateM σ) β}
    (h : ∀ s, pre s → Ensures pre (next s) post fails) :
    Ensures pre (MonadState.get >>= next) post fails := by
  intro s hs
  rw [exec_bind, exec_get]
  exact h s hs s hs

/-- What every round keeps, the loop keeps. -/
theorem forM {γ : Type} {inv : σ → Prop} {f : γ → ExceptT ε (StateM σ) PUnit} (xs : List γ)
    (round : ∀ x ∈ xs, Ensures inv (f x) (fun _ => inv) fails) :
    Ensures inv (xs.forM f) (fun _ => inv) fails := by
  induction xs with
  | nil => exact fun s hs => hs
  | cons x xs ih =>
    change Ensures inv (f x >>= fun _ => xs.forM f) (fun _ => inv) fails
    exact (round x (by simp)).bind fun _ => ih fun y hy => round y (by simp [hy])

theorem modify {f : σ → σ} {post : PUnit → σ → Prop} (h : ∀ s, pre s → post ⟨⟩ (f s)) :
    Ensures pre (modify f : ExceptT ε (StateM σ) PUnit) post fails := h

theorem weaken {pre' : σ → Prop} {post' : β → σ → Prop} {fails' : ε → σ → Prop}
    {work : ExceptT ε (StateM σ) β} (h : Ensures pre work post fails)
    (hpre : ∀ s, pre' s → pre s) (hpost : ∀ b s, post b s → post' b s)
    (hfails : ∀ e s, fails e s → fails' e s) : Ensures pre' work post' fails' := by
  intro s hs
  have hw := h s (hpre s hs)
  rcases he : exec work s with ⟨e | a, t⟩ <;> rw [he] at hw
  · exact hfails e t hw
  · exact hpost a t hw

/-- An invariant about the results so far. There is one result for each element. -/
theorem mapM_collect {γ : Type} (inv : List α → σ → Prop) {f : γ → ExceptT ε (StateM σ) α}
    (xs : List γ)
    (round : ∀ x ∈ xs, ∀ done, Ensures (inv done) (f x) (fun a => inv (done ++ [a])) fails)
    (done : List α) :
    Ensures (inv done) (xs.mapM f)
      (fun as s => as.length = xs.length ∧ inv (done ++ as) s) fails := by
  induction xs generalizing done with
  | nil =>
    rw [List.mapM_nil]
    exact Ensures.pure [] fun s hs => ⟨rfl, by rwa [List.append_nil]⟩
  | cons x xs ih =>
    rw [List.mapM_cons]
    refine (round x (by simp) done).bind fun a => ?_
    refine (ih (fun y hy => round y (by simp [hy])) (done ++ [a])).bind fun as => ?_
    refine Ensures.pure (a :: as) fun s ⟨hlength, hs⟩ => ⟨by simp [hlength], ?_⟩
    rwa [List.append_assoc] at hs

/-- What every round keeps, the loop keeps; the results are not looked at. -/
theorem mapM {γ : Type} {inv : σ → Prop} {f : γ → ExceptT ε (StateM σ) α} (xs : List γ)
    (round : ∀ x ∈ xs, Ensures inv (f x) (fun _ => inv) fails) :
    Ensures inv (xs.mapM f) (fun _ => inv) fails :=
  (mapM_collect (fun _ => inv) xs (fun x hx _ => round x hx) []).weaken (fun _ h => h)
    (fun _ _ h => h.2) fun _ _ h => h

/-- What every round says of its result, the loop says of all its results. -/
theorem mapM_forall {γ : Type} {inv : σ → Prop} {good : α → Prop}
    {f : γ → ExceptT ε (StateM σ) α} (xs : List γ)
    (round : ∀ x ∈ xs, Ensures inv (f x) (fun a s => inv s ∧ good a) fails) :
    Ensures inv (xs.mapM f)
      (fun as s => as.length = xs.length ∧ inv s ∧ ∀ a ∈ as, good a) fails := by
  intro s hs
  refine mapM_collect (fun done s => inv s ∧ ∀ a ∈ done, good a) xs ?_ [] s ⟨hs, nofun⟩
  rintro x hx done t ⟨ht, hdone⟩
  refine ((round x hx).weaken (fun _ h => h) (fun a u ⟨hu, ha⟩ => ⟨hu, ?_⟩) fun _ _ h => h) t ht
  exact List.forall_mem_append.mpr ⟨hdone, by simpa using ha⟩

theorem congr {work other : ExceptT ε (StateM σ) β} (h : Ensures pre work post fails)
    (hsame : ∀ s, exec other s = exec work s) : Ensures pre other post fails := by
  intro s hs
  rw [hsame s]
  exact h s hs

theorem of_ok {work : ExceptT ε (StateM σ) β} (h : Ensures pre work post fails) {s t : σ} {b : β}
    (hs : pre s) (he : exec work s = (.ok b, t)) : post b t := by
  have hw := h s hs
  rwa [he] at hw

theorem of_error {work : ExceptT ε (StateM σ) β} (h : Ensures pre work post fails) {s t : σ}
    {e : ε} (hs : pre s) (he : exec work s = (.error e, t)) : fails e t := by
  have hw := h s hs
  rwa [he] at hw

end Ensures

/-- The work keeps a property of the state, however it ends. -/
abbrev Maintains (inv : σ → Prop) (work : ExceptT ε (StateM σ) α) : Prop :=
  Ensures inv work (fun _ => inv) (fun _ => inv)

namespace Maintains

variable {inv : σ → Prop} {work : ExceptT ε (StateM σ) α}

theorem bind {next : α → ExceptT ε (StateM σ) β} (first : Maintains inv work)
    (second : ∀ a, Maintains inv (next a)) : Maintains inv (work >>= next) :=
  Ensures.bind first second

theorem tryCatch {handler : ε → ExceptT ε (StateM σ) α} (first : Maintains inv work)
    (second : ∀ e, Maintains inv (handler e)) : Maintains inv (MonadExcept.tryCatch work handler) :=
  Ensures.tryCatch first second

theorem ofExcept (r : Except ε α) :
    Maintains inv (MonadExcept.ofExcept r : ExceptT ε (StateM σ) α) := by
  intro s hs
  rw [exec_ofExcept]
  cases r <;> exact hs

theorem state (h : Maintains inv work) {s : σ} (hs : inv s) : inv (exec work s).2 := by
  have hw := h s hs
  rcases he : exec work s with ⟨_ | _, _⟩ <;> rw [he] at hw <;> exact hw

theorem of_state (h : ∀ s, inv s → inv (exec work s).2) : Maintains inv work := by
  intro s hs
  have ht := h s hs
  rcases he : exec work s with ⟨_ | _, _⟩ <;> rw [he] at ht <;> exact ht

end Maintains

end

/-! ## Traversals -/

/-- A successful traversal gives one result for each element, in order. -/
theorem mapM_some {α β : Type} {f : α → Option β} {xs : List α} {ys : List β}
    (h : xs.mapM f = some ys) : xs.map f = ys.map some := by
  induction xs generalizing ys with
  | nil =>
    cases h
    rfl
  | cons x xs ih =>
    simp only [List.mapM_cons, Option.bind_eq_bind, Option.bind_eq_some_iff, Option.pure_def,
      Option.some.injEq] at h
    obtain ⟨y, hy, rest, hrest, rfl⟩ := h
    simp [hy, ih hrest]

theorem exists_mapM_some {α β : Type} {f : α → Option β} {xs : List α}
    (h : ∀ x ∈ xs, ∃ y, f x = some y) : ∃ ys, xs.mapM f = some ys := by
  induction xs with
  | nil => exact ⟨[], rfl⟩
  | cons x xs ih =>
    obtain ⟨y, hy⟩ := h x (by simp)
    obtain ⟨ys, hys⟩ := ih fun z hz => h z (by simp [hz])
    exact ⟨y :: ys, by simp [List.mapM_cons, hy, hys]⟩

theorem length_of_map_some {α β : Type} {f : α → Option β} {xs : List α} {ys : List β}
    (h : xs.map f = ys.map some) : ys.length = xs.length := by
  simpa using (congrArg List.length h).symm

theorem get?_of_map_some {α β : Type} {f : α → Option β} {xs : List α} {ys : List β}
    (h : xs.map f = ys.map some) {i : Nat} {x : α} (hx : xs[i]? = some x) :
    ∃ y, ys[i]? = some y ∧ f x = some y := by
  have hi := congrArg (·[i]?) h
  simp only [List.getElem?_map, hx, Option.map_some] at hi
  cases hy : ys[i]? with
  | none => simp [hy] at hi
  | some y => exact ⟨y, rfl, by simpa [hy] using hi⟩

theorem get?_of_map_some' {α β : Type} {f : α → Option β} {xs : List α} {ys : List β}
    (h : xs.map f = ys.map some) {i : Nat} {y : β} (hy : ys[i]? = some y) :
    ∃ x, xs[i]? = some x ∧ f x = some y := by
  have hi := congrArg (·[i]?) h
  simp only [List.getElem?_map, hy, Option.map_some] at hi
  cases hx : xs[i]? with
  | none => simp [hx] at hi
  | some x => exact ⟨x, rfl, by simpa [hx] using hi⟩

end ArrayOffload
