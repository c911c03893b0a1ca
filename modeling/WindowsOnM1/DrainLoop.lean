import Mathlib.Logic.Basic

/-!
A loop that removes what it finds until it finds nothing. When every removal makes the
state smaller the loop ends, and when what it finds is one of a list as many turns as the
list is long are enough.
-/
namespace WindowsOnM1.DrainLoop

variable {σ ι : Type*}

/-- `pick` finds what is to be removed and `clear` removes it, or fails. -/
def drain (pick : σ → Option ι) (clear : ι → σ → Bool × σ) : (turns : Nat) → σ → Bool × σ
  | 0, state => (true,state)
  | turns+1, state =>
    match pick state with
    | none => (true,state)
    | some entry =>
      match clear entry state with
      | (false,left) => (false,left)
      | (true,left) => drain pick clear turns left

variable {pick : σ → Option ι} {clear : ι → σ → Bool × σ}

theorem drain_spec {keeps : σ → σ → Prop} {items : σ → List ι}
    (refl : ∀ state, keeps state state) (trans : ∀ a b c, keeps a b → keeps b c → keeps a c)
    (inside : ∀ state entry, pick state = some entry → entry ∈ items state) {turns : Nat} {start left : σ} {done : Bool}
    (step : ∀ state entry next removed, keeps start state → pick state = some entry → clear entry state = (removed,next) →
      keeps state next ∧ (removed = true → (items next).length < (items state).length))
    (enough : (items start).length ≤ turns) (loop : drain pick clear turns start = (done,left)) :
    keeps start left ∧ (done = true → pick left = none) := by
  induction turns generalizing start with
  | zero =>
    cases loop
    refine ⟨refl _,fun _ => Option.eq_none_iff_forall_ne_some.mpr (fun entry found => ?_)⟩
    have there := inside _ entry found
    rw [List.eq_nil_of_length_eq_zero (Nat.le_zero.mp enough)] at there
    cases there
  | succ turns ih =>
  unfold drain at loop
  split at loop
  · rename_i missing
    cases loop
    exact ⟨refl _,fun _ => missing⟩
  rename_i entry found
  split at loop
  · rename_i cleared
    cases loop
    exact ⟨(step _ entry _ _ (refl _) found cleared).1,nofun⟩
  rename_i next cleared
  obtain ⟨kept,smaller⟩ := step _ entry _ _ (refl _) found cleared
  obtain ⟨kept',finished⟩ := ih (fun state entry next removed reached => step state entry next removed (trans _ _ _ kept reached))
    (by have := smaller rfl; omega) loop
  exact ⟨trans _ _ _ kept kept',finished⟩

/-- A loop whose removals succeed under a condition succeeds under it, and what successful
    removals keep a successful loop keeps. -/
theorem drain_reaches {fits : Prop} {keeps : σ → Prop} (step : ∀ state entry, keeps state → pick state = some entry →
      (fits → (clear entry state).1 = true) ∧ ((clear entry state).1 = true → keeps (clear entry state).2))
    (turns : Nat) {start : σ} (before : keeps start) : (fits → (drain pick clear turns start).1 = true) ∧
      ((drain pick clear turns start).1 = true → keeps (drain pick clear turns start).2) := by
  induction turns generalizing start with
  | zero => exact ⟨fun _ => rfl,fun _ => before⟩
  | succ turns ih =>
  unfold drain
  cases found : pick start with
  | none => exact ⟨fun _ => rfl,fun _ => before⟩
  | some entry =>
  obtain ⟨succeeds,kept⟩ := step start entry before found
  dsimp only
  cases cleared : clear entry start with | mk done next =>
  rw [cleared] at succeeds kept
  cases done with
  | false => exact ⟨succeeds,nofun⟩
  | true => exact ih (kept rfl)

/-- The loop without a bound on its turns ends. -/
inductive Ends (pick : σ → Option ι) (clear : ι → σ → Bool × σ) : σ → Prop
  | nothing {state : σ} (none : pick state = none) : Ends pick clear state
  | failed {state left : σ} {entry : ι} (found : pick state = some entry) (fails : clear entry state = (false,left)) :
    Ends pick clear state
  | turn {state next : σ} {entry : ι} (found : pick state = some entry) (clears : clear entry state = (true,next))
    (rest : Ends pick clear next) : Ends pick clear state

theorem drain_ends {pick : σ → Option ι} {clear : ι → σ → Bool × σ} {keeps : σ → σ → Prop} {size : σ → Nat}
    (refl : ∀ state, keeps state state) (trans : ∀ a b c, keeps a b → keeps b c → keeps a c) {start : σ}
    (step : ∀ state entry next removed, keeps start state → pick state = some entry → clear entry state = (removed,next) →
      keeps state next ∧ (removed = true → size next < size state)) : Ends pick clear start := by
  induction isSize : size start using Nat.strongRecOn generalizing start with
  | ind n ih =>
  subst isSize
  cases found : pick start with
  | none => exact .nothing found
  | some entry =>
  cases cleared : clear entry start with | mk removed next =>
  obtain ⟨kept,smaller⟩ := step start entry next removed (refl _) found cleared
  cases removed with
  | false => exact .failed found cleared
  | true =>
  exact .turn found cleared (ih _ (smaller rfl)
    (fun state entry next removed reached => step state entry next removed (trans _ _ _ kept reached)) rfl)

end WindowsOnM1.DrainLoop
