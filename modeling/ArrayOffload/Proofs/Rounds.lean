import ArrayOffload.Proofs.Parsing
import ArrayOffload.Proofs.Progress
import ArrayOffload.Proofs.Watched

/-!
# The parser comes to an end

Each round of a loop takes a token or is the last. So under watch nothing goes wrong, and the rounds of
all loops together are at most seven for each token.

The bound is a price. A token that is left is worth `rate` rounds, and the rounds of some work are paid
for by the tokens it takes and by `extra`. In a loop around that work a token is worth one round more,
and `extra` more.

* `Source.Follows`: the watched work does what the work does, within its price;
* `Source.Follows.round`, `Source.Follows.loopWithin`: one round of a loop, and all of them;
* `Source.follows_funcs`: the whole parser, at seven rounds for each token;
* `Source.parseSource_ends`: every text is parsed, and what is reported can be shown.
-/

namespace ArrayOffload.Source

variable {α β : Type}

/-! ## Work under watch -/

theorem Watched.run_bind {watched : Watched α} {next : α → Watched β}
    {state after : Reader × List Round} {a : α} (h : watched.run state = .ok (a, after)) :
    (watched >>= next).run state = (next a).run after := by
  rw [StateT.run_bind, h]
  rfl

theorem Watched.run_lift {source : String} {r : Reader} {work : Parser α} (hr : r.Sound source)
    (hs : (work.run r).2.Sound source) (rounds : List Round) :
    (liftM work : Watched α).run (r, rounds) = .ok ((work.run r).1, (work.run r).2, rounds) := by
  show (if r.rest.isEmpty || (work.run r).2.rest.isEmpty then _ else _) = _
  rw [hr.rest_ne_nil, hs.rest_ne_nil]
  rfl

theorem Watched.run_left {source : String} {r : Reader} {rounds : List Round} (hr : r.Sound source) :
    (liftM left : Watched Nat).run (r, rounds) = .ok (r.rest.length, r, rounds) := by
  have hs : (left.run r).2.Sound source := hr
  exact Watched.run_lift hr hs rounds

/-- From a sound reader, the watched work does what the work does, and all its rounds are productive.
A round costs one; each token that is left is worth `rate`. -/
structure Follows (source : String) (r : Reader) (rate extra : Nat) (watched : Watched α)
    (work : Parser α) (taken : Prop) (good : α → Prop) : Prop where
  steady : Steady source r work taken good
  runs : r.Sound source → ∀ rounds, ∃ new,
    watched.run (r, rounds) = .ok ((work.run r).1, (work.run r).2, rounds ++ new) ∧
      new.length + rate * (work.run r).2.rest.length ≤ rate * r.rest.length + extra ∧
      ∀ round ∈ new, round.Productive

namespace Follows

variable {source : String} {r : Reader} {rate extra rate' extra' : Nat} {watched : Watched α}
  {watchedNext : α → Watched β} {work : Parser α} {next : α → Parser β} {taken also : Prop}
  {good : α → Prop} {better : β → Prop}

theorem weaken {weaker : α → Prop} (h : Follows source r rate extra watched work taken good)
    (htaken : also → taken) (hgood : ∀ a, good a → weaker a) :
    Follows source r rate extra watched work also weaker :=
  ⟨h.steady.weaken htaken hgood, h.runs⟩

theorem of_run {work' : Parser α} (h : Follows source r rate extra watched work taken good)
    (hrun : work'.run r = work.run r) : Follows source r rate extra watched work' taken good := by
  refine ⟨fun hr => ?_, fun hr rounds => ?_⟩ <;> rw [hrun]
  · exact h.steady hr
  · exact h.runs hr rounds

/-- A look at the reader that the watched work has no need of. -/
theorem glance {next : Reader → Parser α}
    (h : Follows source r rate extra watched (next r) taken good) :
    Follows source r rate extra watched (get >>= next) taken good :=
  h.of_run rfl

/-- A higher price for each token leaves more for the rounds. -/
theorem relax (h : Follows source r rate extra watched work taken good) (hrate : rate ≤ rate')
    (hextra : extra ≤ extra') : Follows source r rate' extra' watched work taken good where
  steady := h.steady
  runs hr rounds := by
    obtain ⟨new, hrun, hcost, hproductive⟩ := h.runs hr rounds
    refine ⟨new, hrun, ?_, hproductive⟩
    obtain ⟨more, rfl⟩ := Nat.exists_eq_add_of_le hrate
    have hmore := Nat.mul_le_mul_left more (h.steady hr).1.length_le
    rw [Nat.add_mul, Nat.add_mul]
    omega

theorem given (h : r.Sound source → Follows source r rate extra watched work taken good) :
    Follows source r rate extra watched work taken good :=
  ⟨.given fun hr => (h hr).steady, fun hr => (h hr).runs hr⟩

theorem lift (h : Steady source r work taken good) :
    Follows source r rate extra (liftM work) work taken good where
  steady := h
  runs hr rounds := by
    refine ⟨[], ?_, ?_, nofun⟩
    · rw [Watched.run_lift hr (h hr).1.sound, List.append_nil]
    · have hle := Nat.mul_le_mul_left rate (h hr).1.length_le
      simp only [List.length_nil]
      omega

theorem pure {a : α} (ha : good a) :
    Follows source r rate extra (Pure.pure a) (Pure.pure a) False good where
  steady := .pure ha
  runs _ rounds := by
    refine ⟨[], by rw [List.append_nil]; rfl, ?_, nofun⟩
    show 0 + rate * r.rest.length ≤ rate * r.rest.length + extra
    omega

theorem bindOr (extra' : Nat) (first : Follows source r rate extra' watched work taken good)
    (second : ∀ a s, work.run r = (a, s) → good a →
      Follows source s rate extra (watchedNext a) (next a) also better) :
    Follows source r rate (extra + extra') (watched >>= watchedNext) (work >>= next)
      (taken ∨ also) better where
  steady := first.steady.bindOr fun a s hrun ha => (second a s hrun ha).steady
  runs hr rounds := by
    obtain ⟨hfirst, ha⟩ := first.steady hr
    obtain ⟨new, hrun, hcost, hproductive⟩ := first.runs hr rounds
    obtain ⟨new', hrun', hcost', hproductive'⟩ :=
      (second (work.run r).1 (work.run r).2 rfl ha).runs hfirst.sound (rounds ++ new)
    refine ⟨new ++ new', ?_, ?_, ?_⟩
    · rw [Watched.run_bind hrun, hrun', List.append_assoc]
      rfl
    · show _ + rate * ((next (work.run r).1).run (work.run r).2).2.rest.length ≤ _
      rw [List.length_append]
      omega
    · intro round hround
      exact (List.mem_append.mp hround).elim (hproductive round) (hproductive' round)

theorem bind (extra' : Nat) (first : Follows source r rate extra' watched work taken good)
    (second : ∀ a s, good a → Follows source s rate extra (watchedNext a) (next a) False better) :
    Follows source r rate (extra + extra') (watched >>= watchedNext) (work >>= next) taken better :=
  (bindOr extra' first fun a s _ => second a s).weaken .inl fun _ => id

theorem before (extra' : Nat) (first : Follows source r rate extra' watched work taken good)
    (second : ∀ a s, good a → Follows source s rate extra (watchedNext a) (next a) False better) :
    Follows source r rate (extra + extra') (watched >>= watchedNext) (work >>= next) False better :=
  (bind extra' first second).weaken False.elim fun _ => id

/-- Nothing has to be spared for what comes after. -/
theorem alone (first : Follows source r rate extra watched work taken good)
    (second : ∀ a s, good a → Follows source s rate 0 (watchedNext a) (next a) False better) :
    Follows source r rate extra (watched >>= watchedNext) (work >>= next) False better :=
  (before extra first second).relax le_rfl (Nat.zero_add extra).le

/-- Work without loops comes first. -/
theorem step (first : Steady source r work taken good)
    (second : ∀ a s, good a → Follows source s rate extra (watchedNext a) (next a) False better) :
    Follows source r rate extra (liftM work >>= watchedNext) (work >>= next) False better :=
  before 0 (lift first) second

/-- Work without loops comes first, and takes a token if one is taken. -/
theorem take (first : Steady source r work taken good)
    (second : ∀ a s, good a → Follows source s rate extra (watchedNext a) (next a) False better) :
    Follows source r rate extra (liftM work >>= watchedNext) (work >>= next) taken better :=
  bind 0 (lift first) second

/-- A look at the reader. -/
theorem look {a : α} (hwork : work.run r = (a, r))
    (h : Follows source r rate extra (watchedNext a) (next a) taken better) :
    Follows source r rate extra (liftM work >>= watchedNext) (work >>= next) taken better := by
  have hlook : Steady source r work False (· = a) := fun hr => by
    rw [hwork]
    exact ⟨⟨hr, le_rfl, False.elim⟩, rfl⟩
  refine (bindOr 0 (lift hlook) fun b s hrun hb => ?_).weaken .inr fun _ => id
  obtain ⟨rfl, rfl⟩ := Prod.mk.inj (hwork.symm.trans hrun)
  exact h

theorem ite {c : Prop} [Decidable c] {watched' : Watched α} {work' : Parser α}
    (h : Follows source r rate extra watched work taken good)
    (h' : Follows source r rate extra watched' work' taken good) :
    Follows source r rate extra (if c then watched else watched') (if c then work else work')
      taken good := by
  split
  · exact h
  · exact h'

end Follows

/-! ## Loops -/

section Loops

variable {source : String} {r : Reader} {rate extra last : Nat}

/-- One round and what comes after it. A round that goes on pays for itself with the token that it
takes; the last one is paid for by `last`. -/
theorem Follows.round {loop : Loop} {watched : Watched (List α × Bool)}
    {body : Parser (List α × Bool)} {watchedNext : List α × Bool → Watched β}
    {next : List α × Bool → Parser β} {better : β → Prop}
    (hround : Follows source r rate extra watched body ((body.run r).1.2 = true)
      fun result => result.2 = false → extra + 1 ≤ last)
    (hagain : ∀ found s, body.run r = ((found, true), s) → s.rest.length < r.rest.length →
      Follows source s (rate + extra + 1) last (watchedNext (found, true)) (next (found, true))
        False better)
    (hdone : ∀ found s, Follows source s (rate + extra + 1) 0 (watchedNext (found, false))
      (next (found, false)) False better) :
    Follows source r (rate + extra + 1) last (do
      let before ← left
      let result ← watched
      let after ← left
      Watched.note ⟨loop, before, after, result.2⟩
      watchedNext result) (body >>= next) ((body.run r).1.2 = true) better := by
  refine .given fun hr => ?_
  obtain ⟨hsettles, hlast⟩ := hround.steady hr
  -- The rest may cost `spare` on top of its tokens, and the round leaves that much.
  obtain ⟨spare, hnext, hspare⟩ : ∃ spare, Follows source (body.run r).2 (rate + extra + 1) spare
      (watchedNext (body.run r).1) (next (body.run r).1) False better ∧
      extra + 1 + (extra + 1) * (body.run r).2.rest.length + spare ≤
        (extra + 1) * r.rest.length + last := by
    rcases hbody : body.run r with ⟨⟨found, _ | _⟩, mid⟩ <;> rw [hbody] at hsettles hlast
    · have htokens : (extra + 1) * mid.rest.length ≤ (extra + 1) * r.rest.length :=
        Nat.mul_le_mul_left _ hsettles.length_le
      exact ⟨0, hdone found mid, by have := hlast rfl; dsimp only; omega⟩
    · have hlt : mid.rest.length < r.rest.length := hsettles.length_lt rfl
      have htokens : (extra + 1) * (mid.rest.length + 1) ≤ (extra + 1) * r.rest.length :=
        Nat.mul_le_mul_left _ hlt
      exact ⟨last, hagain found mid hbody hlt, by rw [Nat.mul_succ] at htokens; dsimp only; omega⟩
  have hsteady : Steady source r (body >>= next) ((body.run r).1.2 = true) better := by
    have hsecond : ∀ a s, body.run r = (a, s) → Steady source s (next a) False better := by
      intro a s hrun
      rw [hrun] at hnext
      exact hnext.steady
    exact (hround.steady.bindOr fun a s hrun _ => hsecond a s hrun).weaken .inl fun _ => id
  refine ⟨hsteady, fun _ rounds => ?_⟩
  obtain ⟨new, hrun, hcost, hproductive⟩ := hround.runs hr rounds
  set round : Round := ⟨loop, r.rest.length, (body.run r).2.rest.length, (body.run r).1.2⟩
  obtain ⟨later, hlater, hcost', hproductive'⟩ :=
    hnext.runs hsettles.sound (rounds ++ new ++ [round])
  refine ⟨new ++ [round] ++ later, ?_, ?_, ?_⟩
  · rw [Watched.run_bind (Watched.run_left hr), Watched.run_bind hrun,
      Watched.run_bind (Watched.run_left hsettles.sound), Watched.run_bind rfl, hlater]
    simp only [List.append_assoc]
    rfl
  · show _ + _ * ((next (body.run r).1).run (body.run r).2).2.rest.length ≤ _
    simp only [List.length_append, List.length_singleton, Nat.add_mul] at hcost' ⊢
    simp only [Nat.add_mul] at hspare
    omega
  · intro noted hnoted
    simp only [List.mem_append, List.mem_singleton] at hnoted
    rcases hnoted with (hnew | rfl) | hlater
    · exact hproductive noted hnew
    · exact hsettles.length_lt
    · exact hproductive' noted hlater

/-- From one round to all rounds of a loop. -/
theorem Follows.loopWithin {loop : Loop} {more : Parser Bool} {goes : Reader → Bool}
    {watched : Watched (List α × Bool)} {body : Parser (List α × Bool)}
    (hmore : ∀ r, more.run r = (goes r, r))
    (hround : ∀ r, goes r = true →
      Follows source r rate extra watched body ((body.run r).1.2 = true)
        fun result => result.2 = false → extra + 1 ≤ last) (bound : Nat) :
    ∀ {r : Reader}, r.rest.length ≤ bound →
      Follows source r (rate + extra + 1) last (Watched.loopWithin loop more watched bound)
        (repeatWithin more body bound) (goes r = true ∧ (body.run r).1.2 = true) fun _ => True := by
  induction bound with
  | zero =>
    intro r hbound
    refine .given fun hr => ?_
    obtain ⟨rest, hrest⟩ := hr.exists_cons
    simp [hrest] at hbound
  | succ bound ih =>
    intro r hbound
    refine .look (hmore r) ?_
    by_cases hgoes : goes r = true
    · rw [if_pos hgoes, if_pos hgoes]
      refine (Follows.round (hround r hgoes) (fun found s _ hlt => ?_) fun found s => ?_).weaken
        And.right fun _ => id
      · exact .alone (ih (r := s) (by omega)) fun _ _ _ => .pure trivial
      · exact .pure trivial
    · rw [if_neg hgoes, if_neg hgoes]
      exact (Follows.pure trivial).weaken (fun h => hgoes h.1) fun _ => id

/-- A loop that starts with all its rounds. -/
theorem Follows.runLoop {loop : Loop} {more : Parser Bool} {goes : Reader → Bool}
    {watched : Watched (List α × Bool)} {body : Parser (List α × Bool)}
    (hmore : ∀ r, more.run r = (goes r, r))
    (hround : ∀ r, goes r = true →
      Follows source r rate extra watched body ((body.run r).1.2 = true)
        fun result => result.2 = false → extra + 1 ≤ last) :
    Follows source r (rate + extra + 1) last (Watched.runLoop loop more watched)
      (repeatWithin more body r.rest.length) (goes r = true ∧ (body.run r).1.2 = true)
      fun _ => True := by
  have hlook : Follows source r (rate + extra + 1) last (Watched.runLoop loop more watched)
      (left >>= repeatWithin more body) (goes r = true ∧ (body.run r).1.2 = true) fun _ => True :=
    .look (rfl : left.run r = (r.rest.length, r)) (Follows.loopWithin hmore hround _ le_rfl)
  exact hlook.of_run rfl

end Loops

section Functions

variable {source : String} {r : Reader} {rate extra last : Nat}

theorem run_outside (close : Symbol) (r : Reader) :
    (outside close).run r = (!(r.isAt close || r.isAt .endOfFile), r) := rfl

theorem run_eat_fst (symbol : Symbol) (r : Reader) :
    ((eat symbol).run r).1 = r.isAt symbol := by
  show ((if r.isAt symbol = true then _ else _ : Parser Bool).run r).1 = _
  cases r.isAt symbol <;> rfl

theorem follows_itemRound {watched : Watched (Option α)} {item : Parser (Option α)}
    (hitem : Follows source r rate extra watched item False fun _ => True) :
    Follows source r rate extra (Watched.itemRound watched) (itemRound item)
      (((itemRound item).run r).1.2 = true) fun _ => True := by
  refine ((Follows.bindOr extra hitem fun value s hrun _ => ?_).weaken .inr fun _ => id).relax
    le_rfl (Nat.zero_add extra).le
  have hagain : ((itemRound item).run r).1.2 = s.isAt .comma := by
    rw [← run_eat_fst]
    show ((eat .comma).run (item.run r).2).1 = _
    rw [hrun]
  rw [hagain, Reader.isAt_iff]
  exact .take (steady_eat.weaken (fun h => ⟨h, by decide⟩) fun _ => id) fun _ _ _ => .pure trivial

theorem follows_listed {loop : Loop} {close : Symbol} {watched : Watched (Option α)}
    {item : Parser (Option α)}
    (hitem : ∀ r, Follows source r rate extra watched item False fun _ => True) :
    Follows source r (rate + extra + 1) (extra + 1) (Watched.listed loop close watched)
      (collect close item) False fun _ => True := by
  refine ((Follows.runLoop (run_outside close) fun r _ => (follows_itemRound (hitem r)).weaken id
    fun _ _ _ => le_rfl).weaken False.elim fun _ => id).of_run ?_
  show (collectWithin close item r.rest.length).run r = _
  rw [collectWithin_eq]

theorem follows_listed_lift {loop : Loop} {close : Symbol} {item : Parser (Option α)}
    (hitem : ∀ r, Steady source r item False fun _ => True) :
    Follows source r 1 1 (Watched.listed loop close (liftM item)) (collect close item) False
      fun _ => True := by
  have hlift : ∀ r, Follows source r 0 0 (liftM item) item False fun _ => True := fun r =>
    .lift (hitem r)
  exact follows_listed hlift

/-- All rounds go on for as long as there is something to take. -/
theorem follows_loop {loop : Loop} {more : Parser Bool} {goes : Reader → Bool}
    {watched : Watched (List α × Bool)} {body : Parser (List α × Bool)}
    (hmore : ∀ r, more.run r = (goes r, r))
    (hround : ∀ r, goes r = true →
      Follows source r rate extra watched body True fun result => result.2 = true) :
    Follows source r (rate + extra + 1) 0 (Watched.runLoop loop more watched)
      (repeatWithin more body r.rest.length) (goes r = true) fun _ => True := by
  refine .given fun hr => (Follows.runLoop hmore fun r hgoes => (hround r hgoes).weaken
    (fun _ => trivial) fun result hresult hdone => ?_).weaken (fun hgoes => ?_) fun _ => id
  · rw [hresult] at hdone
    contradiction
  · exact ⟨hgoes, ((hround r hgoes).steady hr).2⟩

theorem run_repeatWithin_done {more : Parser Bool} {body : Parser (List α × Bool)}
    (hmore : more.run r = (false, r)) (bound : Nat) :
    (repeatWithin more body bound).run r = ([], r) := by
  cases bound with
  | zero => rfl
  | succ bound =>
    show ((if (more.run r).1 = true then _ else _ : Parser (List α)).run (more.run r).2) = _
    rw [hmore]
    rfl

theorem run_repeatWithin_again {more : Parser Bool} {body : Parser (List α × Bool)} {s : Reader}
    {found : List α} (hmore : more.run r = (true, r)) (hbody : body.run r = ((found, true), s))
    (bound : Nat) :
    ((repeatWithin more body (bound + 1)).run r).2 = ((repeatWithin more body bound).run s).2 := by
  show ((if (more.run r).1 = true then body >>= _ else _ : Parser (List α)).run (more.run r).2).2 = _
  rw [hmore]
  show ((if (body.run r).1.2 = true then _ else _ : Parser (List α)).run (body.run r).2).2 = _
  rw [hbody]
  rfl

theorem run_skipTo_of_stop {stop : Token → Bool} (hr : r.Sound source)
    (hstop : stop r.current = true) : (skipTo stop).run r = ((), r) := by
  have hdrop : dropUntil stop r.previous r.rest = (r.previous, r.rest) := by
    obtain ⟨rest, hrest⟩ := hr.exists_cons
    rw [hrest]
    cases rest with
    | nil => rfl
    | cons next rest => rw [dropUntil, if_pos hstop]
  show ((), ({ r with previous := (dropUntil _ _ _).1, rest := (dropUntil _ _ _).2 } : Reader)) = _
  rw [hdrop]

theorem run_skipTo_of_advance {stop : Token → Bool} (hr : r.Sound source)
    (hend : r.current.lexeme ≠ .symbol .endOfFile) (hgoes : stop r.current = false) :
    (skipTo stop).run r = (skipTo stop).run r.advance := by
  obtain ⟨next, rest, hrest⟩ := hr.exists_next hend
  have hmove : r.advance = { r with previous := r.current.span, rest := next :: rest } := by
    simp only [Reader.advance, hrest]
  have hdrop : dropUntil stop r.previous r.rest =
      dropUntil stop r.current.span (next :: rest) := by
    rw [hrest, dropUntil, hgoes]
    rfl
  show ((), ({ r with previous := (dropUntil _ _ _).1, rest := (dropUntil _ _ _).2 } : Reader)) = _
  rw [hmove, hdrop]
  rfl

/-- Dropping tokens is taking them one by one. -/
theorem run_skipTo {stop : Token → Bool}
    (hstop : ∀ token, token.lexeme = .symbol .endOfFile → stop token = true) {r : Reader}
    (hr : r.Sound source) (bound : Nat) (hbound : r.rest.length ≤ bound) :
    (skipTo stop).run r = ((), ((repeatWithin (searching stop) searchRound bound).run r).2) := by
  induction bound generalizing r with
  | zero =>
    obtain ⟨rest, hrest⟩ := hr.exists_cons
    simp [hrest] at hbound
  | succ bound ih =>
    have hlook : (searching stop).run r = (!stop r.current, r) := rfl
    cases hgoes : stop r.current <;> rw [hgoes] at hlook
    case true => rw [run_skipTo_of_stop hr hgoes, run_repeatWithin_done hlook]
    case false =>
      have hend : r.current.lexeme ≠ .symbol .endOfFile := fun hend => by
        simp [hstop _ hend] at hgoes
      have hlt := hr.advance.length_lt hend
      rw [run_skipTo_of_advance hr hend hgoes, ih hr.advance.sound (by omega),
        run_repeatWithin_again hlook (rfl : searchRound.run r = (([], true), r.advance))]

theorem follows_skipTo {stop : Token → Bool}
    (hstop : ∀ token, token.lexeme = .symbol .endOfFile → stop token = true) :
    Follows source r 1 0 (Watched.skipTo stop) (skipTo stop) False fun _ => True := by
  have hround : ∀ r : Reader, (!stop r.current) = true →
      Follows source r 0 0 Watched.searchRound searchRound True fun result => result.2 = true := by
    intro r hgoes
    have hend : r.current.lexeme ≠ .symbol .endOfFile := fun hend => by
      simp [hstop _ hend] at hgoes
    exact .take (steady_advance.weaken (fun _ => hend) fun _ => id) fun _ _ _ => .pure rfl
  have hloop : Follows source r 1 0 (Watched.skipTo stop) (do
      let _ ← repeatWithin (searching stop) searchRound r.rest.length
      return ()) False fun _ => True :=
    .alone (follows_loop (fun _ => rfl) hround) fun _ _ _ => .pure trivial
  exact .given fun hr => hloop.of_run (run_skipTo hstop hr _ le_rfl)

theorem follows_parseArrays :
    Follows source r 1 1 Watched.parseArrays parseArrays False fun _ => True :=
  .step steady_expect fun _ _ _ =>
    .alone (follows_listed_lift fun _ => steady_parseArray.weaken False.elim fun _ => id)
      fun _ _ _ => .step steady_expect fun _ _ _ => .pure trivial

theorem follows_parseLet : Follows source r 1 1 Watched.parseLet parseLet
    (r.current.lexeme = .symbol .let) fun _ => True := by
  refine .take (steady_expect.weaken (fun h => ⟨h, by decide⟩) fun _ => id) fun _ _ _ =>
    .step steady_expectIdent fun name _ hname => .step steady_expect fun _ _ _ =>
    .step steady_parseElem fun elem _ _ => .step steady_eat fun _ _ _ => .ite ?_
      (.step steady_eat fun _ _ _ => .ite ?_ (.lift steady_reportHere))
  · refine .step steady_parseArray fun found _ _ => ?_
    cases found with
    | none => exact .pure trivial
    | some id => exact .lift (steady_declareAs hname _)
  · have hinteger : ∀ r, Steady source r (some <$> expectInteger) False fun _ => True := fun r =>
      steady_expectInteger.bind fun _ _ _ => .pure trivial
    exact .alone (follows_listed_lift hinteger) fun dims _ _ =>
      .step steady_expect fun _ _ _ =>
        .ite (.lift (steady_report hname)) (.lift (steady_declareAs hname _))

theorem follows_parseCall : Follows source r 1 2 Watched.parseCall parseCall
    (r.current.lexeme = .symbol .call) fun _ => True := by
  refine .take (steady_expect.weaken (fun h => ⟨h, by decide⟩) fun _ => id) fun _ _ _ =>
    .step steady_expectIdent fun _ _ _ => .before 1 follows_parseArrays fun _ _ _ =>
    .step steady_eat fun _ _ _ => ?_
  exact .ite (.alone follows_parseArrays fun _ _ _ => .lift (steady_addOp _))
    (.lift (steady_addOp _))

theorem follows_parseMap (out : ArrayId) :
    Follows source r 1 1 (Watched.parseMap out) (parseMap out) False fun _ => True := by
  refine .step steady_expectIdent fun word _ hspan => .step steady_expect fun _ _ _ => ?_
  cases MapOp.ofName? word.value with
  | none => exact .lift (steady_report hspan)
  | some op =>
    exact .alone (follows_listed_lift fun _ => steady_parseOperand) fun _ _ _ =>
      .step steady_expect fun _ _ _ => .lift (steady_addOp _)

theorem follows_parseAssign : Follows source r 1 1 Watched.parseAssign parseAssign
    (∃ name, r.current.lexeme = .ident name) fun _ => True := by
  refine .take steady_parseArray fun target _ _ => ?_
  cases target with
  | none => exact .pure trivial
  | some target =>
    exact .step steady_eat fun _ _ _ => .ite (.lift (steady_parseStore _)) <|
      .step steady_expect fun _ _ _ => .step steady_eat fun _ _ _ =>
        .ite (.lift (steady_parseFold _)) <| .step steady_eat fun _ _ _ =>
          .ite (.lift (steady_parseFold _)) (follows_parseMap _)

theorem follows_parseStatement : Follows source r 1 2 Watched.parseStatement parseStatement
    (r.current.lexeme ≠ .symbol .endOfFile) fun _ => True := by
  refine .look (rfl : current.run r = (r.current, r)) ?_
  have hother : Follows source r 1 2
      (do reportHere (.expected "statement"); advance : Watched Unit)
      (do reportHere (.expected "statement"); advance : Parser Unit)
      (r.current.lexeme ≠ .symbol .endOfFile) fun _ => True :=
    (Follows.bindOr 0 (.lift steady_reportHere) fun _ s hrun _ => by
      obtain ⟨-, rfl⟩ := Prod.mk.inj hrun
      exact .lift steady_advance).weaken .inr fun _ => id
  cases hlexeme : r.current.lexeme with
  | ident name =>
    exact (follows_parseAssign.relax le_rfl (by decide)).weaken (fun _ => ⟨name, hlexeme⟩)
      fun _ => id
  | symbol symbol =>
    rw [hlexeme] at hother
    cases symbol with
    | «let» =>
      exact (follows_parseLet.relax le_rfl (by decide)).weaken (fun _ => hlexeme) fun _ => id
    | print =>
      refine .take (steady_advance.weaken (fun _ => by simp [hlexeme]) fun _ => id) fun _ _ _ => ?_
      exact .alone (follows_parseArrays.relax le_rfl (by decide)) fun _ _ _ =>
        .lift (steady_addOp _)
    | call => exact follows_parseCall.weaken (fun _ => hlexeme) fun _ => id
    | _ => exact hother
  | _ =>
    rw [hlexeme] at hother
    exact hother

theorem isSymbol_of_lexeme {token : Token} {symbol : Symbol} (h : token.lexeme = .symbol symbol) :
    token.isSymbol symbol = true := by
  simp [Token.isSymbol, h]

theorem follows_skipToStatement :
    Follows source r 1 0 Watched.skipToStatement skipToStatement False fun _ => True :=
  follows_skipTo fun token hend => by simp [isSymbol_of_lexeme hend]

theorem follows_skipToItem :
    Follows source r 1 0 Watched.skipToItem skipToItem False fun _ => True :=
  follows_skipTo fun token hend => by simp [isSymbol_of_lexeme hend]

theorem ne_end_of_outside {close : Symbol} (h : (!(r.isAt close || r.isAt .endOfFile)) = true) :
    r.current.lexeme ≠ .symbol .endOfFile := by
  rw [ne_eq, ← Reader.isAt_iff]
  rintro hend
  simp [hend] at h

theorem follows_statementRound (h : r.current.lexeme ≠ .symbol .endOfFile) :
    Follows source r 1 2 Watched.statementRound statementRound True fun result =>
      result.2 = true := by
  refine .look (rfl : (get : Parser Reader).run r = (r, r)) <|
    .bind 2 (follows_parseStatement.weaken (fun _ => h) fun _ => id) fun _ _ _ =>
    .step steady_eat fun _ s _ => .look (rfl : (get : Parser Reader).run s = (s, s)) <| .ite ?_ ?_
  · exact .alone follows_skipToStatement fun _ _ _ => .pure rfl
  · exact .pure rfl

theorem follows_statements :
    Follows source r 4 0 Watched.statements (statementsWithin r.rest.length) False fun _ => True := by
  rw [statementsWithin_eq]
  exact .alone (follows_loop (run_outside _) fun r hgoes =>
    follows_statementRound (ne_end_of_outside hgoes)) fun _ _ _ => .pure trivial

theorem follows_parseParam :
    Follows source r 1 1 Watched.parseParam parseParam False fun _ => True := by
  have hdim : ∀ r, Follows source r 0 0
      (do
        let dim ← expectIdent
        if dim.value ≠ "_" then report (.paramDimension dim.value) dim.span
        return some () : Watched (Option Unit))
      (do
        let dim ← expectIdent
        if dim.value ≠ "_" then report (.paramDimension dim.value) dim.span
        return some () : Parser (Option Unit)) False fun _ => True := fun r =>
    .step steady_expectIdent fun _ _ hspan =>
      .ite (.step (steady_report hspan) fun _ _ _ => .pure trivial) (.pure trivial)
  exact .step steady_expectIdent fun name _ hname => .step steady_expect fun _ _ _ =>
    .step steady_parseElem fun elem _ _ => .step steady_expect fun _ _ _ =>
    .alone (follows_listed hdim) fun _ _ _ =>
    .step steady_expect fun _ _ _ => .lift (steady_declareAs hname _)

theorem follows_params : Follows source r 3 2
    (Watched.listed .params .rightParen do
      Watched.parseParam
      return some ())
    (collect .rightParen do
      parseParam
      return some ()) False fun _ => True := by
  have hparam : ∀ r, Follows source r 1 1 (do Watched.parseParam; return some ())
      (do parseParam; return some ()) False fun _ => True := fun r =>
    .alone follows_parseParam fun _ _ _ => .pure trivial
  exact follows_listed hparam

theorem follows_attributes : Follows source r 1 0 Watched.attributes (attributesWithin r.rest.length)
    (r.current.lexeme = .symbol .hash) fun _ => True := by
  have hround : ∀ r : Reader, r.isAt .hash = true → Follows source r 0 0 Watched.attributeRound
      attributeRound True fun result => result.2 = true := fun r hhash =>
    .take (steady_parseAttribute.weaken (fun _ => Reader.isAt_iff.mp hhash) fun _ => id)
      fun _ _ _ => .pure rfl
  rw [attributesWithin_eq]
  refine (Follows.bind 0 (follows_loop (fun _ => rfl) hround) fun _ _ _ => .pure trivial).weaken
    Reader.isAt_iff.mpr fun _ => id

theorem run_attributesWithin (h : r.current.lexeme ≠ .symbol .hash) (bound : Nat) :
    (attributesWithin bound).run r = ((), r) := by
  have hlook : (isAt .hash).run r = (false, r) :=
    congrArg (·, r) (Bool.eq_false_iff.mpr fun hat => h (Reader.isAt_iff.mp hat))
  rw [attributesWithin_eq]
  show ((), ((repeatWithin (isAt .hash) attributeRound bound).run r).2) = _
  rw [run_repeatWithin_done hlook]

theorem items_eq (close : Symbol) (item : Parser Unit) : items close item = (do
    let _ ← collect close (do item; return some ())
    return ()) := by
  simp only [items, collect, itemsWithin_eq, bind_assoc]

theorem follows_parseFunc : Follows source r 4 2 Watched.parseFunc parseFunc
    (r.current.lexeme = .symbol .hash ∨ r.current.lexeme = .symbol .fn) fun _ => True := by
  unfold Watched.parseFunc parseFunc
  simp only [items_eq, bind_assoc, pure_bind]
  refine .given fun hr => .look (rfl : current.run r = (r.current, r)) <|
    .look (rfl : (get : Parser Reader).run r = (r, r)) <|
    (Follows.bindOr 0 (.lift (steady_redraft _)) fun _ s hdraft _ => ?_).weaken .inr fun _ => id
  obtain ⟨-, rfl⟩ := Prod.mk.inj hdraft
  refine .glance <|
    .bindOr 0 (follows_attributes.relax (by decide) le_rfl) fun _ t hattributes _ => ?_
  -- Without attributes nothing is taken before `fn`.
  have hfn : r.current.lexeme = .symbol .fn → t.current.lexeme = .symbol .fn := by
    intro hlexeme
    have hhash : r.current.lexeme ≠ .symbol .hash := by simp [hlexeme]
    have hstay := run_attributesWithin (r := { r with draft := Func.empty "" }) hhash r.rest.length
    obtain ⟨-, rfl⟩ := Prod.mk.inj (hstay.symm.trans hattributes)
    exact hlexeme
  refine .take (steady_expect.weaken (fun hlexeme => ⟨hfn hlexeme, by decide⟩) fun _ => id)
    fun _ _ _ => .step steady_expectIdent fun _ _ _ => .step (steady_redraft _) fun _ _ _ =>
    .step steady_expect fun _ _ _ => .alone (follows_params.relax (by decide) le_rfl) fun _ _ _ =>
    .step steady_expect fun _ _ _ => .step steady_parseReturned fun returned _ hreturned =>
    .step steady_eat fun _ _ _ => .ite ?_ ?_
  · refine .glance <| .alone follows_statements fun _ _ _ => .step steady_expect fun _ u _ =>
      .step steady_previous fun v _ hprevious => ?_
    have hspan := hr.current_placed.merge hprevious
    cases returned with
    | none => exact .lift (steady_finishFunc hspan)
    | some name =>
      exact .step (steady_setReturn (hreturned name rfl)) fun _ _ _ => .lift (steady_finishFunc hspan)
  · exact .step steady_reportHere fun _ _ _ =>
      .alone (follows_skipToItem.relax (by decide) le_rfl) fun _ _ _ => .pure trivial

theorem follows_funcRound (h : r.current.lexeme ≠ .symbol .endOfFile) :
    Follows source r 4 2 Watched.funcRound funcRound True fun result => result.2 = true := by
  refine .look (rfl : (isAt .hash).run r = (r.isAt .hash, r)) <|
    .look (rfl : (isAt .fn).run r = (r.isAt .fn, r)) ?_
  split
  case isTrue hitem =>
    have htaken : r.current.lexeme = .symbol .hash ∨ r.current.lexeme = .symbol .fn := by
      simpa [Reader.isAt_iff] using hitem
    exact .bind 2 (follows_parseFunc.weaken (fun _ => htaken) fun _ => id) fun _ _ _ => .pure rfl
  case isFalse =>
    refine (Follows.bindOr 0 (.lift steady_reportHere) fun _ s hrun _ => ?_).weaken .inr fun _ => id
    obtain ⟨-, rfl⟩ := Prod.mk.inj hrun
    exact .take (steady_advance.weaken (fun _ => h) fun _ => id) fun _ _ _ =>
      .alone (follows_skipToItem.relax (by decide) (by decide)) fun _ _ _ => .pure rfl

theorem follows_funcs : Follows source r 7 0 Watched.funcs (funcsWithin r.rest.length) False
    fun _ => True := by
  have hround : ∀ r : Reader, (!r.isAt .endOfFile) = true → Follows source r 4 2 Watched.funcRound
      funcRound True fun result => result.2 = true := fun r hgoes => by
    refine follows_funcRound fun hend => ?_
    simp [Reader.isAt_iff.mpr hend] at hgoes
  rw [funcsWithin_eq]
  exact (follows_loop (fun _ => rfl) hround).weaken False.elim fun _ => id

end Functions

/-! ## Whole texts -/

/-- Before the first token is read, with the tokens of a text. -/
theorem sound_tokenize (source : String) :
    Reader.Sound source ⟨Span.empty, (tokenize source).1, [], Func.empty ""⟩ where
  ends := by
    obtain ⟨others, lineStart, htokens, -⟩ := (scan_tokenize source).ends
    exact ⟨others, _, htokens, rfl⟩
  tokens _ htoken := token_placed htoken
  previous := by
    have htext : source.toList = [] ++ [] ++ source.toList := rfl
    exact (Span.of_cuts htext).placed
  problems := nofun

/-- The parser under watch: nothing goes wrong, it answers as the parser does, every round takes a
token or is the last of its loop, and there are at most seven rounds for each token. -/
theorem parseTokens_watched (source : String) : ∃ rounds,
    Watched.parseTokens (tokenize source).1 = .ok (parseTokens (tokenize source).1, rounds) ∧
      (∀ round ∈ rounds, round.Productive) ∧ rounds.length ≤ 7 * (tokenize source).1.length := by
  have hr := sound_tokenize source
  obtain ⟨rounds, hrun, hcost, hproductive⟩ := follows_funcs.runs hr []
  refine ⟨rounds, ?_, hproductive, ?_⟩
  · unfold Watched.parseTokens
    rw [hrun]
    rfl
  · exact (Nat.le_add_right _ _).trans hcost

/-- What the parser reports about tokens lies in the source. -/
theorem parseTokens_placed {source : String} {problems : List Diagnostic}
    (h : parseTokens (tokenize source).1 = .error problems) :
    problems ≠ [] ∧ ∀ found ∈ problems, found.span.Placed source := by
  have hr := sound_tokenize source
  obtain ⟨hsettles, -⟩ := follows_funcs.steady hr
  unfold parseTokens at h
  dsimp only at h
  split at h
  · cases h
  · next hproblems =>
    cases h
    exact ⟨by simpa using hproblems, hsettles.sound.problems⟩

theorem parseSource_validate {source : String} {funcs : List Func}
    (h : parseSource source = .ok funcs) {f : Func} (hf : f ∈ funcs) : f.validate = .ok () := by
  obtain ⟨-, hbuild⟩ := parseTokens_accepted (Vocabulary.all_holds _) (parseSource_ok h).2 hf
  unfold Func.build at hbuild
  cases hvalidate : f.validate with
  | ok => rfl
  | error cause =>
    rw [hvalidate] at hbuild
    cases hbuild

theorem parseSource_placed {source : String} {problems : List Diagnostic}
    (h : parseSource source = .error problems) :
    problems ≠ [] ∧ ∀ found ∈ problems, found.span.Placed source := by
  unfold parseSource at h
  dsimp only at h
  split at h
  · exact parseTokens_placed h
  · next hproblems =>
    cases h
    exact ⟨by simpa using hproblems, fun found => problem_placed⟩

/-- Every text is parsed. Each round of each loop takes a token or is the last one, there are at most
seven rounds for each token, and no token is looked for past the last. The answer is functions that
are well formed, or problems that have a place in the text. -/
theorem parseSource_ends (source : String) (hsize : source.utf8ByteSize < 2 ^ 32) :
    (∃ rounds,
      Watched.parseTokens (tokenize source).1 = .ok (parseTokens (tokenize source).1, rounds) ∧
        (∀ round ∈ rounds, round.Productive) ∧ rounds.length ≤ 7 * (tokenize source).1.length) ∧
      ((∃ funcs, parseSource source = .ok funcs ∧ ∀ f ∈ funcs, f.validate = .ok ()) ∨
        ∃ problems, parseSource source = .error problems ∧ problems ≠ [] ∧
          ∀ found ∈ problems, found.span.Placed source ∧ found.span.stop < 2 ^ 32) := by
  refine ⟨parseTokens_watched source, ?_⟩
  cases hparse : parseSource source with
  | ok funcs => exact .inl ⟨funcs, rfl, fun f hf => parseSource_validate hparse hf⟩
  | error problems =>
    obtain ⟨hproblems, hplaced⟩ := parseSource_placed hparse
    exact .inr ⟨problems, rfl, hproblems, fun found hfound =>
      ⟨hplaced found hfound, (hplaced found hfound).fits hsize⟩⟩

end ArrayOffload.Source

namespace ArrayOffload.Sample

/-- Something wrong in every list: an attribute, a declaration, operands and what closes them. -/
def broken : String := "x #[odd] fn f(a: f32[_]) \x7b\n let = a\n a = add(a, , 7\n ]"

end ArrayOffload.Sample

namespace ArrayOffload.Source

theorem parseSource_ends_broken :
    Sample.broken.utf8ByteSize < 2 ^ 32 ∧ (tokenize Sample.broken).1.length = 29 ∧
      (Watched.parseTokens (tokenize Sample.broken).1).toOption.map (·.2.length) = some 13 ∧
      ((∃ funcs, parseSource Sample.broken = .ok funcs ∧ ∀ f ∈ funcs, f.validate = .ok ()) ∨
        ∃ problems, parseSource Sample.broken = .error problems ∧ problems ≠ [] ∧
          ∀ found ∈ problems, found.span.Placed Sample.broken ∧ found.span.stop < 2 ^ 32) := by
  have hsize : Sample.broken.utf8ByteSize < 2 ^ 32 := by decide +kernel
  exact ⟨hsize, by decide +kernel, by decide +kernel, (parseSource_ends Sample.broken hsize).2⟩

end ArrayOffload.Source
