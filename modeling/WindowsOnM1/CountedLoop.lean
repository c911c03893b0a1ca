import Mathlib.Logic.Basic

/-!
A loop over an interval of numbers whose body may fail. An invariant of its turns holds
when it ends, and what a failed turn leaves is what the loop leaves.
-/
namespace WindowsOnM1.CountedLoop

variable {σ : Type*}

/-- The turns `first`, `first + 1` and so on, `turns` of them, until one fails. -/
def countLoop (body : Nat → σ → Bool × σ) : (first turns : Nat) → σ → Bool × σ
  | _, 0, state => (true,state)
  | first, turns+1, state =>
    match body first state with
    | (false,left) => (false,left)
    | (true,left) => countLoop body (first + 1) turns left

/-- What a turn or a loop leaves: one property after a success, another after a failure. -/
def Ends (succeeded failed : σ → Prop) (result : Bool × σ) : Prop :=
  (result.1 = true → succeeded result.2) ∧ (result.1 = false → failed result.2)

variable {first turns : Nat} {state : σ}

theorem countLoop_ends (body : Nat → σ → Bool × σ) (invariant : Nat → σ → Prop) (failed : σ → Prop)
    (start : invariant first state)
    (turn : ∀ i state, first ≤ i → i < first + turns → invariant i state → Ends (invariant (i + 1)) failed (body i state)) :
    Ends (invariant (first + turns)) failed (countLoop body first turns state) := by
  induction turns generalizing first state with
  | zero => exact ⟨fun _ => start,nofun⟩
  | succ turns ih =>
  have here := turn first state (Nat.le_refl _) (by omega) start
  unfold countLoop
  cases result : body first state with | mk done left =>
  rw [result] at here
  cases done with
  | false => exact ⟨nofun,here.2⟩
  | true =>
  have rest := ih (here.1 rfl) (fun i state above below => turn i state (by omega) (by omega))
  rw [show first + (turns + 1) = first + 1 + turns by omega]
  exact rest

/-- Two turns or loops that end alike. -/
def Agree {τ : Type*} (related lost : σ → τ → Prop) (result : Bool × σ) (result' : Bool × τ) : Prop :=
  result.1 = result'.1 ∧ (result.1 = true → related result.2 result'.2) ∧ (result.1 = false → lost result.2 result'.2)

variable {body : Nat → σ → Bool × σ}

theorem countLoop_agrees {τ : Type*} {body' : Nat → τ → Bool × τ} {related lost : σ → τ → Prop}
    {state' : τ} (start : related state state')
    (turn : ∀ i state state', first ≤ i → i < first + turns → related state state' →
      Agree related lost (body i state) (body' i state')) :
    Agree related lost (countLoop body first turns state) (countLoop body' first turns state') := by
  induction turns generalizing first state state' with
  | zero => exact ⟨rfl,fun _ => start,nofun⟩
  | succ turns ih =>
  have here := turn first state state' (Nat.le_refl _) (by omega) start
  unfold countLoop
  cases result : body first state with | mk done left =>
  cases result' : body' first state' with | mk done' left' =>
  rw [result,result'] at here
  obtain ⟨same,related,lost⟩ := here
  obtain rfl : done = done' := same
  cases done with
  | false => exact ⟨rfl,nofun,lost⟩
  | true => exact ih (related rfl) (fun i state state' above below => turn i state state' (by omega) (by omega))

theorem countLoop_succeeds (succeeds : ∀ i state, (body i state).1 = true) (first turns : Nat)
    (state : σ) : (countLoop body first turns state).1 = true := by
  induction turns generalizing first state with
  | zero => rfl
  | succ turns ih =>
  have here := succeeds first state
  unfold countLoop
  cases result : body first state with | mk done left =>
  rw [result] at here
  cases here
  exact ih (first + 1) left

/-- The same turns with a body that cannot fail. -/
def forRange (body : Nat → σ → σ) : (first turns : Nat) → σ → σ
  | _, 0, state => state
  | first, turns+1, state => forRange body (first + 1) turns (body first state)

theorem forRange_keeps (body : Nat → σ → σ) (invariant : Nat → σ → Prop) (start : invariant first state)
    (turn : ∀ i state, first ≤ i → i < first + turns → invariant i state → invariant (i + 1) (body i state)) :
    invariant (first + turns) (forRange body first turns state) := by
  induction turns generalizing first state with
  | zero => exact start
  | succ turns ih =>
  have rest := ih (turn first state (Nat.le_refl _) (by omega) start) (fun i state above below => turn i state (by omega) (by omega))
  rw [show first + (turns + 1) = first + 1 + turns by omega]
  exact rest

theorem forRange_counts {body : Nat → σ → σ} (invariant : Nat → σ → Prop) (start : invariant 0 state)
    (turn : ∀ i state, i < turns → invariant i state → invariant (i + 1) (body i state)) :
    invariant turns (forRange body 0 turns state) := by
  have loop : invariant (0 + turns) (forRange body 0 turns state) :=
    forRange_keeps body invariant start (fun i state _ below => turn i state (by omega))
  rwa [Nat.zero_add] at loop

theorem foldlM_range_keeps {step : σ → Nat → Option σ} (invariant : Nat → σ → Prop) (start : invariant 0 state)
    (turn : ∀ i state, i < turns → invariant i state → ∃ next, step state i = some next ∧ invariant (i + 1) next) :
    ∃ last, (List.range turns).foldlM step state = some last ∧ invariant turns last := by
  induction turns with
  | zero => exact ⟨state,rfl,start⟩
  | succ turns ih =>
  obtain ⟨middle,ran,kept⟩ := ih (fun i state below => turn i state (by omega))
  obtain ⟨next,one,after⟩ := turn turns middle (Nat.lt_succ_self turns) kept
  refine ⟨next,?_,after⟩
  rw [List.range_succ,List.foldlM_append,ran]
  simpa using one

end WindowsOnM1.CountedLoop
