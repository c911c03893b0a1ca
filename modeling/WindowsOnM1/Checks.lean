import Mathlib.Data.List.Basic

/-!
Checks that read tables: they give a value, reject with a reason, or read outside. A check
meets a property when it never reads outside and every value that it gives has the property.
-/
namespace WindowsOnM1.Checks
open List

universe u

variable {ε α β σ : Type u}

inductive Fault (ε : Type u)
  | outside
  | rejected (reason : ε)
deriving DecidableEq
abbrev Check (ε α : Type u) := Except (Fault ε) α
def reject (reason : ε) : Check ε α := .error (.rejected reason)
def rejectIf (bad : Prop) [Decidable bad] (reason : ε) : Check ε PUnit := if bad then reject reason else pure ⟨⟩
def entry (table : List α) (index : Nat) : Check ε α :=
  match table[index]? with
  | none => .error .outside
  | some found => pure found

def each (body : α → Check ε PUnit) : List α → Check ε PUnit
  | [] => pure ⟨⟩
  | element :: rest => do
    body element
    each body rest

/-- A loop over a list whose turns also see the elements before. -/
def scan (body : List α → α → σ → Check ε σ) : List α → List α → σ → Check ε σ
  | _, [], state => pure state
  | earlier, element :: rest, state => do
    let next ← body earlier element state
    scan body (earlier ++ [element]) rest next

def Meets (check : Check ε α) (post : α → Prop) : Prop :=
  match check with
  | .ok value => post value
  | .error .outside => False
  | .error (.rejected _) => True

namespace Meets

variable {check : Check ε α} {post : α → Prop} {value : α}

theorem ok (meets : Meets check post) (gives : check = .ok value) : post value := by
  subst gives
  exact meets
theorem inside (meets : Meets check post) : check ≠ .error .outside := by
  rintro rfl
  exact meets
theorem pure (holds : post value) : Meets (Pure.pure value : Check ε α) post := holds

theorem mono {post' : α → Prop} (meets : Meets check post) (implies : ∀ value, post value → post' value) :
    Meets check post' := by
  match check, meets with
  | .ok _, holds => exact implies _ holds
  | .error (.rejected _), _ => trivial

theorem bind {next : α → Check ε β} {post' : β → Prop} (first : Meets check post)
    (second : ∀ value, post value → Meets (next value) post') : Meets (check >>= next) post' := by
  match check, first with
  | .ok value, holds => exact second value holds
  | .error (.rejected _), _ => trivial

variable {bad : Prop} {reason : ε}

theorem rejectIf [Decidable bad] : Meets (Checks.rejectIf bad reason) (fun _ => ¬ bad) := by
  unfold Checks.rejectIf
  split
  · trivial
  assumption

theorem entry {table : List α} {index : Nat} (inside : index < table.length) :
    Meets (Checks.entry table index : Check ε α) (fun found => table[index]? = some found) := by
  unfold Checks.entry
  rw [getElem?_eq_getElem inside]
  rfl

theorem passing [Decidable bad] {next : PUnit → Check ε β} {post : β → Prop}
    (good : ¬ bad → Meets (next ⟨⟩) post) : Meets (Checks.rejectIf bad reason >>= next) post :=
  bind rejectIf (fun _ => good)

theorem each {body : α → Check ε PUnit} (post : α → Prop) {list : List α}
    (element : ∀ a ∈ list, Meets (body a) (fun _ => post a)) : Meets (Checks.each body list) (fun _ => ∀ a ∈ list, post a) := by
  induction list with
  | nil => exact fun a impossible => absurd impossible not_mem_nil
  | cons a rest ih =>
  refine bind (element a mem_cons_self) (fun _ here => ?_)
  refine (ih (fun b later => element b (mem_cons_of_mem _ later))).mono (fun _ others b mem => ?_)
  rcases mem_cons.mp mem with rfl | later
  · exact here
  exact others b later

theorem scan {body : List α → α → σ → Check ε σ} (invariant : List α → σ → Prop) {earlier list : List α} {state : σ}
    (start : invariant earlier state)
    (turn : ∀ before element after state, earlier ++ list = before ++ element :: after → invariant before state →
      Meets (body before element state) (invariant (before ++ [element]))) :
    Meets (Checks.scan body earlier list state) (invariant (earlier ++ list)) := by
  induction list generalizing earlier state with
  | nil => exact (append_nil earlier).symm ▸ start
  | cons element rest ih =>
  refine bind (turn earlier element rest state rfl start) (fun next holds => ?_)
  have split : earlier ++ element :: rest = earlier ++ [element] ++ rest := by simp
  rw [split] at turn ⊢
  exact ih holds turn

end Meets

end WindowsOnM1.Checks
