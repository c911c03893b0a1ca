import Mathlib.Data.List.Count
import WindowsOnM1.SerialCounts

/-!
The history of an allocator that numbers its blocks. Every block is handed out once; what
was handed out and not freed is what is held.
-/
namespace WindowsOnM1.MemoryLedger
open SerialCounts

inductive MemoryEvent
  | allocated (block : Nat)
  | freed (block : Nat)
deriving DecidableEq

open MemoryEvent

/-- How often each block is held; blocks from a number on were not handed out. -/
structure Ledger (events : List MemoryEvent) (held : Nat → Nat) (next : Nat) : Prop where
  balance : ∀ block, events.count (allocated block) = events.count (freed block) + held block
  once : ∀ block, events.count (allocated block) ≤ one (decide (block < next))

variable {events : List MemoryEvent} {held held' : Nat → Nat} {next next' block : Nat}

theorem Ledger.nil : Ledger [] (fun _ => 0) 0 := ⟨fun _ => rfl,fun _ => Nat.zero_le _⟩
theorem Ledger.congr (ledger : Ledger events held next) (same : ∀ block, held' block = held block) : Ledger events held' next :=
  ⟨fun block => by rw [same,ledger.balance],ledger.once⟩

theorem Ledger.later (ledger : Ledger events held next) (below : next ≤ next') : Ledger events held next' := by
  refine ⟨ledger.balance,fun block => Nat.le_trans (ledger.once block) ?_⟩
  by_cases old : block < next
  · simp [old,Nat.lt_of_lt_of_le old below]
  rw [decide_eq_false old]
  exact Nat.zero_le _

theorem count_event (events : List MemoryEvent) (new event : MemoryEvent) :
    (events ++ [new]).count event = events.count event + one (new == event) := by
  simp [List.count_append,List.count_singleton,one]

section
variable (ledger : Ledger events held next)
include ledger

theorem Ledger.allocate :
    Ledger (events ++ [allocated next]) (fun block => held block + one (next == block)) (next + 1) := by
  have fresh : events.count (allocated next) = 0 := by
    have once := ledger.once next
    rw [decide_eq_false (Nat.lt_irrefl _)] at once
    exact Nat.le_zero.mp once
  constructor
  · intro block
    have same : (allocated next == allocated block) = (next == block) := by simp
    have other : (allocated next == freed block) = false := by simp
    rw [count_event,count_event,same,other,ledger.balance]
    exact Nat.add_assoc _ _ _
  intro block
  rw [count_event]
  by_cases here : next = block
  · subst here
    simp [fresh]
  have other : (allocated next == allocated block) = false := by simpa using here
  rw [other]
  exact (ledger.later (Nat.le_succ next)).once block

theorem Ledger.free (less : ∀ other, held' other + one (block == other) = held other) :
    Ledger (events ++ [freed block]) held' next := by
  constructor
  · intro other
    have same : (freed block == freed other) = (block == other) := by simp
    have apart : (freed block == allocated other) = false := by simp
    have before := ledger.balance other
    have now := less other
    rw [count_event,count_event,same,apart,one_false]
    omega
  intro other
  have apart : (freed block == allocated other) = false := by simp
  rw [count_event,apart]
  exact ledger.once other

theorem Ledger.freed_le (block : Nat) :
    events.count (freed block) ≤ events.count (allocated block) ∧ events.count (allocated block) ≤ 1 := by
  refine ⟨by rw [ledger.balance]; exact Nat.le_add_right _ _,Nat.le_trans (ledger.once block) ?_⟩
  cases decide (block < next) <;> decide

end

end WindowsOnM1.MemoryLedger
