import Mathlib.Data.BitVec

/-!
Byte memories and the little-endian values that they hold.
-/
namespace WindowsOnM1.ByteMemory
open List BitVec

abbrev Byte := BitVec 8

/-- A memory holds a byte at every offset. -/
abbrev Memory := Nat → Byte

/-- The bytes of a buffer; behind its end there are zeros. -/
def contents (bytes : List Byte) : Memory := fun i => bytes.getD i 0
def u16At (memory : Memory) (offset : Nat) : BitVec 16 := memory (offset + 1) ++ memory offset
def u32At (memory : Memory) (offset : Nat) : BitVec 32 := u16At memory (offset + 2) ++ u16At memory offset
def u64At (memory : Memory) (offset : Nat) : BitVec 64 := u32At memory (offset + 4) ++ u32At memory offset

/-- The first bytes of a source, copied to an offset of a memory. -/
def copyTo (memory : Memory) (offset : Nat) (source : Memory) (count : Nat) : Memory :=
  fun i => if offset ≤ i ∧ i < offset + count then source (i - offset) else memory i
theorem copyTo_inside {memory source : Memory} {offset count : Nat} (i : Nat) (inside : i < count) :
    copyTo memory offset source count (offset + i) = source i := by
  rw [copyTo,if_pos ⟨Nat.le_add_right _ _,by omega⟩,Nat.add_sub_cancel_left]
theorem copyTo_outside {memory source : Memory} {offset count i : Nat} (outside : ¬ (offset ≤ i ∧ i < offset + count)) :
    copyTo memory offset source count i = memory i := if_neg outside

theorem copyTo_split (memory : Memory) (offset : Nat) (source : Memory) (first second : Nat) :
    copyTo (copyTo memory offset source first) (offset + first) (fun i => source (first + i)) second =
      copyTo memory offset source (first + second) := by
  funext i
  by_cases before : i < offset + first
  · rw [copyTo_outside (by omega)]
    by_cases above : offset ≤ i
    · rw [copyTo,copyTo,if_pos ⟨above,before⟩,if_pos ⟨above,by omega⟩]
    rw [copyTo_outside (by omega),copyTo_outside (by omega)]
  by_cases inside : i < offset + first + second
  · rw [copyTo,if_pos ⟨by omega,inside⟩,copyTo,if_pos ⟨by omega,by omega⟩]
    exact congrArg source (by omega)
  rw [copyTo_outside (by omega),copyTo_outside (by omega),copyTo_outside (by omega)]

/-- The bytes of a word, the lowest first. -/
def u32Bytes (word : BitVec 32) : List Byte :=
  [word.setWidth 8,(word >>> 8).setWidth 8,(word >>> 16).setWidth 8,(word >>> 24).setWidth 8]
def wordBytes (words : List (BitVec 32)) : List Byte := words.flatMap u32Bytes

variable (words : List (BitVec 32))

@[simp] theorem wordBytes_length : (wordBytes words).length = words.length * 4 := by
  induction words with
  | nil => rfl
  | cons word rest ih =>
  simp only [wordBytes,flatMap_cons,length_append,length_cons,u32Bytes] at ih ⊢
  simp only [length_nil]
  omega

theorem u32Bytes_joined (word : BitVec 32) : ((word >>> 24).setWidth 8 ++ (word >>> 16).setWidth 8 : BitVec 16) ++
    ((word >>> 8).setWidth 8 ++ word.setWidth 8 : BitVec 16) = word := by
  refine eq_of_getLsbD_eq (fun i inside => ?_)
  simp only [getLsbD_append,getLsbD_setWidth,getLsbD_ushiftRight]
  by_cases first : i < 8
  · simp [first,show i < 16 by omega]
  by_cases second : i < 16
  · simp [first,second,show i - 8 < 8 by omega,show 8 + (i - 8) = i by omega]
  by_cases third : i - 16 < 8
  · simp [second,third,show 16 + (i - 16) = i by omega]
  simp [second,third,show i - 16 - 8 < 8 by omega,show 24 + (i - 16 - 8) = i by omega]

theorem u32At_wordBytes {offset : Nat} (aligned : offset % 4 = 0) :
    u32At (contents (wordBytes words)) offset = words.getD (offset / 4) 0 := by
  induction words generalizing offset with
  | nil => simp [wordBytes,u32At,u16At,contents]
  | cons word rest ih =>
  by_cases zero : offset = 0
  · subst zero
    exact u32Bytes_joined word
  obtain ⟨before,rfl⟩ : ∃ before, offset = before + 4 := ⟨offset - 4,by omega⟩
  rw [show (before + 4) / 4 = before / 4 + 1 by omega,getD_cons_succ,← ih (by omega)]
  rfl

theorem u64At_wordBytes {offset : Nat} (aligned : offset % 4 = 0) :
    u64At (contents (wordBytes words)) offset = words.getD (offset / 4 + 1) 0 ++ words.getD (offset / 4) 0 := by
  rw [u64At,u32At_wordBytes words aligned,u32At_wordBytes words (by omega),show (offset + 4) / 4 = offset / 4 + 1 by omega]

theorem halves_joined (value : BitVec 64) : (value >>> 32).setWidth 32 ++ value.setWidth 32 = value := by
  refine eq_of_getLsbD_eq (fun i inside => ?_)
  simp only [getLsbD_append,getLsbD_setWidth,getLsbD_ushiftRight]
  by_cases low : i < 32
  · simp [low]
  simp [low,show i - 32 < 32 by omega,show 32 + (i - 32) = i by omega]

end WindowsOnM1.ByteMemory
