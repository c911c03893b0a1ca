import Mathlib.Logic.Basic

/-!
Actions on a state, and what they leave: `Gives action state post` says that the answer of
an action and the state behind it have a property.
-/
namespace WindowsOnM1.Actions

variable {σ ρ α β : Type}

def Gives (action : StateM σ α) (state : σ) (post : α → σ → Prop) : Prop :=
  post (action.run state).1 (action.run state).2

/-- An action on a part of the state. -/
def focus (part : σ → ρ) (replace : ρ → σ → σ) (action : StateM ρ α) : StateM σ α := fun state =>
  ((action.run (part state)).1,replace (action.run (part state)).2 state)
@[simp] theorem gives_pure (value : α) (state : σ) (post : α → σ → Prop) :
    Gives (pure value) state post = post value state := (rfl)
@[simp] theorem gives_bind (first : StateM σ α) (next : α → StateM σ β) (state : σ) (post : β → σ → Prop) :
    Gives (first >>= next) state post = Gives first state (fun value left => Gives (next value) left post) := (rfl)
@[simp] theorem gives_get (state : σ) (post : σ → σ → Prop) : Gives get state post = post state state := (rfl)
@[simp] theorem gives_modify (change : σ → σ) (state : σ) (post : PUnit → σ → Prop) :
    Gives (modify change) state post = post ⟨⟩ (change state) := (rfl)

theorem gives_ite (condition : Prop) [Decidable condition] (first second : StateM σ α) (state : σ) (post : α → σ → Prop) :
    Gives (if condition then first else second) state post ↔
      (condition → Gives first state post) ∧ (¬ condition → Gives second state post) := by
  split
  · rename_i holds
    exact ⟨fun gives => ⟨fun _ => gives,fun fails => absurd holds fails⟩,fun gives => gives.1 holds⟩
  rename_i fails
  exact ⟨fun gives => ⟨fun holds => absurd holds fails,fun _ => gives⟩,fun gives => gives.2 fails⟩

namespace Gives

variable {action : StateM σ α} {state : σ}

theorem mono {post post' : α → σ → Prop} (gives : Gives action state post)
    (implies : ∀ value left, post value left → post' value left) : Gives action state post' :=
  implies _ _ gives
theorem bind {first : StateM σ α} {next : α → StateM σ β} {middle : α → σ → Prop} {post : β → σ → Prop}
    (gives : Gives first state middle) (rest : ∀ value left, middle value left → Gives (next value) left post) :
    Gives (first >>= next) state post :=
  rest _ _ gives
theorem both {post post' : α → σ → Prop} (gives : Gives action state post)
    (gives' : Gives action state post') : Gives action state (fun value left => post value left ∧ post' value left) :=
  ⟨gives,gives'⟩

end Gives

/-- The requests of a run, one after the other; their answers are dropped. -/
def runAll {ι : Type} (act : ι → StateM σ α) : List ι → σ → σ
  | [], state => state
  | request :: rest, state => runAll act rest ((act request).run state).2

/-- A property of single steps holds of every step of a run. -/
def EveryStep {ι : Type} (act : ι → StateM σ α) (allowed : ι → σ → Prop) : List ι → σ → Prop
  | [], _ => True
  | request :: rest, state => allowed request state ∧ EveryStep act allowed rest ((act request).run state).2

theorem runAll_append {ι : Type} (act : ι → StateM σ α) (first second : List ι) (state : σ) :
    runAll act (first ++ second) state = runAll act second (runAll act first state) := by
  induction first generalizing state with
  | nil => rfl
  | cons request rest ih => exact ih _

theorem runAll_keeps {ι : Type} {act : ι → StateM σ α} {allowed : ι → σ → Prop} {invariant : σ → Prop}
    (step : ∀ request state, allowed request state → invariant state → Gives (act request) state (fun _ left => invariant left))
    {requests : List ι} {state : σ} (every : EveryStep act allowed requests state) (start : invariant state) :
    invariant (runAll act requests state) := by
  induction requests generalizing state with
  | nil => exact start
  | cons request rest ih => exact ih every.2 (step request state every.1 start)

theorem runAll_invariant {ι : Type} {act : ι → StateM σ α} {invariant : σ → Prop}
    (step : ∀ request state, invariant state → Gives (act request) state (fun _ left => invariant left))
    (requests : List ι) {state : σ} (start : invariant state) : invariant (runAll act requests state) := by
  induction requests generalizing state with
  | nil => exact start
  | cons request rest ih => exact ih (step request state start)

end WindowsOnM1.Actions
