import Mathlib.Logic.Basic

/-!
Actions on a state that may stop with a reason: `Leaves action state post` says what the
answer of an action and the state behind it are, whether it stops or not.
-/
namespace WindowsOnM1.Attempts

variable {ε σ α β : Type}

def Attempt (ε σ α : Type) := σ → Except ε α × σ

instance : Monad (Attempt ε σ) where
  pure value := fun state => (.ok value,state)
  bind first next := fun state =>
    match first state with
    | (.ok value,left) => next value left
    | (.error reason,left) => (.error reason,left)

def stop (reason : ε) : Attempt ε σ α := fun state => (.error reason,state)
def stopIf (bad : Prop) [Decidable bad] (reason : ε) : Attempt ε σ PUnit := if bad then stop reason else pure ⟨⟩
def current : Attempt ε σ σ := fun state => (.ok state,state)
def change (update : σ → σ) : Attempt ε σ PUnit := fun state => (.ok ⟨⟩,update state)
def Leaves (action : Attempt ε σ α) (state : σ) (post : Except ε α → σ → Prop) : Prop := post (action state).1 (action state).2

/-- What has to hold behind an action for the next one to go on, or to be left out. -/
def Then (next : α → Attempt ε σ β) (post : Except ε β → σ → Prop) : Except ε α → σ → Prop
  | .ok value, left => Leaves (next value) left post
  | .error reason, left => post (.error reason) left
@[simp] theorem leaves_pure (value : α) (state : σ) (post : Except ε α → σ → Prop) :
    Leaves (pure value) state post = post (.ok value) state := (rfl)
@[simp] theorem leaves_current (state : σ) (post : Except ε σ → σ → Prop) :
    Leaves current state post = post (.ok state) state := (rfl)
@[simp] theorem leaves_change (update : σ → σ) (state : σ) (post : Except ε PUnit → σ → Prop) :
    Leaves (change update) state post = post (.ok ⟨⟩) (update state) := (rfl)

theorem leaves_bind (first : Attempt ε σ α) (next : α → Attempt ε σ β) (state : σ) (post : Except ε β → σ → Prop) :
    Leaves (first >>= next) state post = Leaves first state (Then next post) := by
  unfold Leaves
  change post (match first state with
    | (.ok value,left) => next value left
    | (.error reason,left) => (.error reason,left)).1 (match first state with
    | (.ok value,left) => next value left
    | (.error reason,left) => (.error reason,left)).2 = _
  cases first state with | mk answer left =>
  cases answer <;> rfl

theorem leaves_current_then {next : σ → Attempt ε σ β} {state : σ} {post : Except ε β → σ → Prop}
    (rest : Leaves (next state) state post) : Leaves (current >>= next) state post := rest

theorem leaves_stopIf (bad : Prop) [Decidable bad] (reason : ε) (state : σ) (post : Except ε PUnit → σ → Prop) :
    Leaves (stopIf bad reason) state post ↔ (bad → post (.error reason) state) ∧ (¬ bad → post (.ok ⟨⟩) state) := by
  unfold stopIf
  split
  · rename_i holds
    exact ⟨fun stops => ⟨fun _ => stops,fun fails => absurd holds fails⟩,fun both => both.1 holds⟩
  rename_i fails
  exact ⟨fun goes => ⟨fun holds => absurd holds fails,fun _ => goes⟩,fun both => both.2 fails⟩

namespace Leaves

variable {action : Attempt ε σ α} {state : σ}

theorem mono {post post' : Except ε α → σ → Prop} (leaves : Leaves action state post)
    (implies : ∀ answer left, post answer left → post' answer left) : Leaves action state post' := implies _ _ leaves

theorem bind {first : Attempt ε σ α} {next : α → Attempt ε σ β} {middle : Except ε α → σ → Prop}
    {post : Except ε β → σ → Prop} (leaves : Leaves first state middle)
    (stops : ∀ reason left, middle (.error reason) left → post (.error reason) left)
    (goes : ∀ value left, middle (.ok value) left → Leaves (next value) left post) : Leaves (first >>= next) state post := by
  rw [leaves_bind]
  refine leaves.mono (fun answer left holds => ?_)
  cases answer with
  | ok value => exact goes value left holds
  | error reason => exact stops reason left holds

theorem both {post post' : Except ε α → σ → Prop} (leaves : Leaves action state post)
    (leaves' : Leaves action state post') : Leaves action state (fun answer left => post answer left ∧ post' answer left) :=
  ⟨leaves,leaves'⟩

theorem check {bad : Prop} [Decidable bad] {reason : ε} {next : PUnit → Attempt ε σ β}
    {post : Except ε β → σ → Prop} (stops : bad → post (.error reason) state)
    (goes : ¬ bad → Leaves (next ⟨⟩) state post) : Leaves (stopIf bad reason >>= next) state post := by
  rw [leaves_bind,leaves_stopIf]
  exact ⟨stops,goes⟩

end Leaves

/-- What an action keeps, whether it stops or not. -/
def Keeps (invariant : σ → Prop) (action : Attempt ε σ α) : Prop :=
  ∀ state, invariant state → Leaves action state (fun _ left => invariant left)

namespace Keeps

variable {invariant : σ → Prop}

theorem pure (value : α) : Keeps invariant (Pure.pure value : Attempt ε σ α) := fun _ holds => holds
theorem bind {first : Attempt ε σ α} {next : α → Attempt ε σ β} (keeps : Keeps invariant first)
    (rest : ∀ value, Keeps invariant (next value)) : Keeps invariant (first >>= next) := fun state holds =>
  (keeps state holds).bind (fun _ _ left => left) (fun value left kept => rest value left kept)
theorem current {next : σ → Attempt ε σ β} (rest : ∀ state, Keeps invariant (next state)) :
    Keeps invariant (Attempts.current >>= next) := fun state holds => by
  exact rest state state holds

end Keeps

end WindowsOnM1.Attempts
