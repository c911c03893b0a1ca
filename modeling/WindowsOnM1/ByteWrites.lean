import Mathlib.Data.List.Pairwise
import WindowsOnM1.ByteMemory

/-!
Lists of writes to a byte memory: what no write covers stays as it was, what is written
last stays, and writes that do not meet can be made in any order.
-/
namespace WindowsOnM1.ByteWrites
open ByteMemory List BitVec

structure Write where
  offset : Nat
  bytes : List Byte
deriving DecidableEq

namespace Write

def Covers (write : Write) (i : Nat) : Prop := write.offset ≤ i ∧ i < write.offset + write.bytes.length
instance (write : Write) (i : Nat) : Decidable (write.Covers i) := by
  unfold Covers
  infer_instance
def Apart (write other : Write) : Prop := ∀ i, write.Covers i → ¬ other.Covers i
def apply (memory : Memory) (write : Write) : Memory := copyTo memory write.offset (contents write.bytes) write.bytes.length

variable {write : Write}

theorem Apart.symm {other : Write} (apart : write.Apart other) : other.Apart write :=
  fun i covers covers' => apart i covers' covers

variable {memory : Memory} {i : Nat}

theorem apply_outside (outside : ¬ write.Covers i) : write.apply memory i = memory i := copyTo_outside outside
theorem apply_inside (memory : Memory) (write : Write) {k : Nat} (inside : k < write.bytes.length) :
    write.apply memory (write.offset + k) = contents write.bytes k := copyTo_inside k inside
theorem apply_covered (covers : write.Covers i) : write.apply memory i = contents write.bytes (i - write.offset) := if_pos covers
@[simp] theorem covers_mk (offset : Nat) (bytes : List Byte) (i : Nat) :
    Covers ⟨offset,bytes⟩ i ↔ offset ≤ i ∧ i < offset + bytes.length := Iff.rfl

theorem apply_append (memory : Memory) (offset : Nat) (bytes bytes' : List Byte) :
    apply (apply memory ⟨offset,bytes⟩) ⟨offset + bytes.length,bytes'⟩ = apply memory ⟨offset,bytes ++ bytes'⟩ := by
  funext i
  by_cases before : i < offset ∨ offset + bytes.length + bytes'.length ≤ i
  · rw [apply_outside (by simp only [covers_mk]; omega),apply_outside (by simp only [covers_mk]; omega),
      apply_outside (by simp only [covers_mk,length_append]; omega)]
  have joined : Covers ⟨offset,bytes ++ bytes'⟩ i := by simp only [covers_mk,length_append]; omega
  rw [apply_covered joined]
  simp only [contents,getD_eq_getElem?_getD]
  by_cases first : i < offset + bytes.length
  · rw [apply_outside (by simp only [covers_mk]; omega),apply_covered (by simp only [covers_mk]; omega),
      getElem?_append_left (by omega)]
    simp only [contents,getD_eq_getElem?_getD]
  rw [apply_covered (by simp only [covers_mk]; omega),getElem?_append_right (by omega)]
  simp only [contents,getD_eq_getElem?_getD,Nat.sub_sub]

theorem apply_comm {other : Write} (apart : write.Apart other) (memory : Memory) :
    other.apply (write.apply memory) = write.apply (other.apply memory) := by
  funext i
  by_cases covers : write.Covers i
  · rw [apply_outside (apart i covers),apply_covered covers,apply_covered covers]
  rw [apply_outside covers]
  by_cases covers' : other.Covers i
  · rw [apply_covered covers',apply_covered covers']
  rw [apply_outside covers',apply_outside covers',apply_outside covers]

end Write

def applyAll (writes : List Write) (memory : Memory) : Memory := writes.foldl Write.apply memory
@[simp] theorem applyAll_cons (write : Write) (writes : List Write) (memory : Memory) :
    applyAll (write :: writes) memory = applyAll writes (write.apply memory) := rfl
theorem applyAll_append (writes writes' : List Write) (memory : Memory) :
    applyAll (writes ++ writes') memory = applyAll writes' (applyAll writes memory) := foldl_append

theorem applyAll_outside {writes : List Write} {memory : Memory} {i : Nat} (outside : ∀ write ∈ writes, ¬ write.Covers i) :
    applyAll writes memory i = memory i := by
  induction writes generalizing memory with
  | nil => rfl
  | cons write writes ih =>
  rw [applyAll_cons,ih (fun other mem => outside other (mem_cons_of_mem write mem))]
  exact Write.apply_outside (outside write mem_cons_self)

theorem applyAll_last (before after : List Write) (write : Write) (memory : Memory)
    (apart : ∀ later ∈ after, write.Apart later) {k : Nat} (inside : k < write.bytes.length) :
    applyAll (before ++ write :: after) memory (write.offset + k) = contents write.bytes k := by
  have covers : write.Covers (write.offset + k) := ⟨Nat.le_add_right _ _,by omega⟩
  rw [applyAll_append,applyAll_cons,applyAll_outside (fun later mem => apart later mem _ covers)]
  exact Write.apply_inside _ write inside

theorem applyAll_perm {writes writes' : List Write} (perm : writes.Perm writes') (apart : writes.Pairwise Write.Apart)
    (memory : Memory) : applyAll writes memory = applyAll writes' memory := by
  have symmetric : Std.Symm Write.Apart := ⟨fun _ _ apart => apart.symm⟩
  refine perm.foldl_eq' (fun write mem other mem' memory => ?_) memory
  by_cases same : write = other
  · rw [same]
  exact Write.apply_comm (apart.forall mem mem' same) memory

section
variable {α : Type*} {form : α → List Byte} {size : Nat} (sized : ∀ a, (form a).length = size)
include sized

theorem flatMap_length (list : List α) : (list.flatMap form).length = size * list.length := by
  induction list with
  | nil => rfl
  | cons a list ih => rw [flatMap_cons,length_append,sized,ih,length_cons,Nat.mul_succ,Nat.add_comm]

theorem contents_flatMap (list : List α) {k j : Nat} (inside : k < list.length) (within : j < size) :
    contents (list.flatMap form) (size * k + j) = contents (form list[k]) j := by
  induction list generalizing k with
  | nil => simp at inside
  | cons a list ih =>
  simp only [contents,getD_eq_getElem?_getD,flatMap_cons] at ih ⊢
  cases k with
  | zero => rw [getElem?_append_left (by rw [sized]; omega),Nat.mul_zero,Nat.zero_add,getElem_cons_zero]
  | succ k =>
  have behind : size * (k + 1) + j = (form a).length + (size * k + j) := by
    rw [sized,Nat.mul_succ]
    omega
  rw [behind,getElem?_append_right (Nat.le_add_right _ _),Nat.add_sub_cancel_left,
    ih (Nat.lt_of_succ_lt_succ inside),getElem_cons_succ]

end

/-- The bytes of a half word, the lowest first. -/
def u16Bytes (value : BitVec 16) : List Byte := [value.setWidth 8,(value >>> 8).setWidth 8]

variable {memory : Memory} {offset : Nat}

theorem u16At_of_bytes {value : BitVec 16}
    (bytes : ∀ k < 2, memory (offset + k) = contents (u16Bytes value) k) : u16At memory offset = value := by
  have first : memory offset = value.setWidth 8 := bytes 0 (by omega)
  have second : memory (offset + 1) = (value >>> 8).setWidth 8 := bytes 1 (by omega)
  rw [u16At,first,second]
  refine eq_of_getLsbD_eq (fun i inside => ?_)
  simp only [getLsbD_append,getLsbD_setWidth,getLsbD_ushiftRight]
  by_cases low : i < 8
  · simp [low]
  simp [low,show i - 8 < 8 by omega,show 8 + (i - 8) = i by omega]

theorem u32At_of_bytes {value : BitVec 32}
    (bytes : ∀ k < 4, memory (offset + k) = contents (u32Bytes value) k) : u32At memory offset = value := by
  have first : memory offset = contents (u32Bytes value) 0 := bytes 0 (by omega)
  have last : memory (offset + 2 + 1) = contents (u32Bytes value) 3 := bytes 3 (by omega)
  simp only [u32At,u16At,first,bytes 1 (by omega),bytes 2 (by omega),last]
  exact u32Bytes_joined value

/-- The bytes of a double word, the lowest first. -/
def u64Bytes (value : BitVec 64) : List Byte := u32Bytes (value.setWidth 32) ++ u32Bytes ((value >>> 32).setWidth 32)
@[simp] theorem u32Bytes_length (value : BitVec 32) : (u32Bytes value).length = 4 := rfl
@[simp] theorem u64Bytes_length (value : BitVec 64) : (u64Bytes value).length = 8 := rfl

theorem u64At_of_bytes {value : BitVec 64}
    (bytes : ∀ k < 8, memory (offset + k) = contents (u64Bytes value) k) : u64At memory offset = value := by
  have low : u32At memory offset = value.setWidth 32 := u32At_of_bytes (fun k below => by
    rw [bytes k (by omega)]
    simp only [contents,u64Bytes,getD_eq_getElem?_getD]
    rw [getElem?_append_left (by rw [u32Bytes_length]; omega)])
  have high : u32At memory (offset + 4) = (value >>> 32).setWidth 32 := u32At_of_bytes (fun k below => by
    rw [Nat.add_assoc,bytes (4 + k) (by omega)]
    simp only [contents,u64Bytes,getD_eq_getElem?_getD]
    rw [getElem?_append_right (by rw [u32Bytes_length]; omega),u32Bytes_length,Nat.add_sub_cancel_left])
  rw [u64At,low,high]
  exact halves_joined value

end WindowsOnM1.ByteWrites
