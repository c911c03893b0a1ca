import Mathlib.Logic.Equiv.Fin.Basic
import WindowsOnM1.ByteMemory

/-!
Layouts of records in bytes, without padding: a layout writes a value and reads it back, and
reading any bytes of its size and writing them again gives the same bytes.
-/
namespace WindowsOnM1.RecordLayout
open ByteMemory List

structure Layout (α : Type*) where
  size : Nat
  write : α → List Byte
  read : List Byte → α
  write_length : ∀ value, (write value).length = size
  read_write : ∀ value, read (write value) = value
  write_read : ∀ bytes, bytes.length = size → write (read bytes) = bytes

namespace Layout
variable {α β : Type*}

def u8 : Layout Byte where
  size := 1
  write byte := [byte]
  read bytes := bytes.getD 0 0
  write_length _ := rfl
  read_write _ := rfl
  write_read bytes single := by
    obtain ⟨byte,rfl⟩ := List.length_eq_one_iff.mp single
    rfl

def pair (first : Layout α) (second : Layout β) : Layout (α × β) where
  size := first.size + second.size
  write value := first.write value.1 ++ second.write value.2
  read bytes := (first.read (bytes.take first.size),second.read (bytes.drop first.size))
  write_length value := by rw [List.length_append,first.write_length,second.write_length]
  read_write value := by
    rw [List.take_left' (first.write_length _),List.drop_left' (first.write_length _),first.read_write,second.read_write]
  write_read bytes long := by
    have head : (bytes.take first.size).length = first.size := by
      rw [List.length_take,long]
      omega
    have tail : (bytes.drop first.size).length = second.size := by
      rw [List.length_drop,long]
      omega
    rw [first.write_read _ head,second.write_read _ tail,List.take_append_drop]

/-- The same bytes for another type. -/
def map (layout : Layout α) (same : α ≃ β) : Layout β where
  size := layout.size
  write value := layout.write (same.symm value)
  read bytes := same (layout.read bytes)
  write_length value := layout.write_length _
  read_write value := by rw [layout.read_write,Equiv.apply_symm_apply]
  write_read bytes long := by rw [Equiv.symm_apply_apply,layout.write_read bytes long]

def nothing [Unique α] : Layout α where
  size := 0
  write _ := []
  read _ := default
  write_length _ := rfl
  read_write value := (Unique.eq_default value).symm
  write_read _ empty := (List.length_eq_zero_iff.mp empty).symm

/-- `count` values in a row. -/
def array (layout : Layout α) : (count : Nat) → Layout (Fin count → α)
  | 0 => nothing
  | count+1 => (layout.pair (layout.array count)).map (Fin.consEquiv (fun _ => α))

end Layout

/-- A word of two halves, the lower one first. -/
def halves (bits : Nat) : BitVec bits × BitVec bits ≃ BitVec (bits + bits) where
  toFun value := value.2 ++ value.1
  invFun value := (value.extractLsb' 0 bits,value.extractLsb' bits bits)
  left_inv value := by
    obtain ⟨low,high⟩ := value
    refine Prod.ext ?_ ?_
    · refine BitVec.eq_of_getLsbD_eq (fun i inside => ?_)
      simp [BitVec.getLsbD_append,inside]
    refine BitVec.eq_of_getLsbD_eq (fun i inside => ?_)
    simp only [BitVec.getLsbD_extractLsb',BitVec.getLsbD_append,inside,show ¬ bits + i < bits by omega,decide_true,Bool.true_and,
      Nat.add_sub_cancel_left]
    simp
  right_inv value := by simp

namespace Layout

def u16 : Layout (BitVec 16) := (u8.pair u8).map (halves 8)
def u32 : Layout (BitVec 32) := (u16.pair u16).map (halves 16)
def u64 : Layout (BitVec 64) := (u32.pair u32).map (halves 32)

end Layout

/-- The bytes of a memory from an offset. -/
def slice (memory : Memory) (offset size : Nat) : List Byte := (List.range size).map (fun i => memory (offset + i))
@[simp] theorem slice_length (memory : Memory) (offset size : Nat) : (slice memory offset size).length = size := by
  rw [slice,length_map,length_range]

theorem slice_congr {memory memory' : Memory} {offset size : Nat}
    (same : ∀ i, offset ≤ i → i < offset + size → memory i = memory' i) : slice memory offset size = slice memory' offset size := by
  refine map_congr_left (fun i mem => same _ (Nat.le_add_right _ _) ?_)
  have below := mem_range.mp mem
  omega

theorem slice_append (memory : Memory) (offset first second : Nat) :
    slice memory offset (first + second) = slice memory offset first ++ slice memory (offset + first) second := by
  refine ext_getElem (by simp) (fun i inside inside' => ?_)
  rw [getElem_append]
  simp only [slice,getElem_map,getElem_range,length_map,length_range]
  by_cases low : i < first
  · rw [dif_pos low]
  rw [dif_neg low,show offset + first + (i - first) = offset + i by omega]

theorem slice_contents {bytes : List Byte} {offset size : Nat} (inside : offset + size ≤ bytes.length) :
    slice (contents bytes) offset size = (bytes.drop offset).take size := by
  refine ext_getElem ?_ (fun i below below' => ?_)
  · rw [slice_length,length_take,length_drop]
    omega
  rw [slice_length] at below
  simp only [slice,getElem_map,getElem_range,getElem_take,getElem_drop,contents]
  rw [getD_eq_getElem?_getD,getElem?_eq_getElem (by omega),Option.getD_some]

namespace Layout
variable {α : Type*}

def zero (layout : Layout α) : α := layout.read (List.replicate layout.size 0)
def readAt (layout : Layout α) (memory : Memory) (offset : Nat) : α := layout.read (slice memory offset layout.size)
theorem write_readAt (layout : Layout α) (memory : Memory) (offset : Nat) :
    layout.write (layout.readAt memory offset) = slice memory offset layout.size :=
  layout.write_read _ (slice_length _ _ _)

end Layout

/-- The bytes are in the memory at an offset. -/
def Holds (memory : Memory) (offset : Nat) (bytes : List Byte) : Prop := slice memory offset bytes.length = bytes

variable {memory : Memory} {offset : Nat}

theorem holds_append {first second : List Byte} :
    Holds memory offset (first ++ second) ↔ Holds memory offset first ∧ Holds memory (offset + first.length) second := by
  unfold Holds
  rw [length_append,slice_append]
  constructor
  · intro same
    exact append_inj same (slice_length _ _ _)
  rintro ⟨low,high⟩
  rw [low,high]

variable {α : Type*} {layout : Layout α}

theorem holds_write {value : α} : Holds memory offset (layout.write value) ↔ layout.readAt memory offset = value := by
  unfold Holds
  rw [layout.write_length]
  constructor
  · intro same
    rw [Layout.readAt,same,layout.read_write]
  rintro rfl
  exact (layout.write_readAt memory offset).symm

theorem holds_flatMap {values : List α} : Holds memory offset (values.flatMap layout.write) ↔
      ∀ i value, values[i]? = some value → layout.readAt memory (offset + i * layout.size) = value := by
  induction values generalizing offset with
  | nil => exact iff_of_true rfl (fun i value there => by cases there)
  | cons first rest ih =>
  rw [flatMap_cons,holds_append,holds_write,ih,layout.write_length]
  constructor
  · rintro ⟨here,later⟩ i value there
    cases i with
    | zero =>
      cases there
      rwa [Nat.zero_mul,Nat.add_zero]
    | succ i =>
    rw [Nat.succ_mul,Nat.add_comm (i * layout.size),← Nat.add_assoc]
    exact later i value there
  intro all
  refine ⟨?_,fun i value there => ?_⟩
  · have here := all 0 first rfl
    rwa [Nat.zero_mul,Nat.add_zero] at here
  rw [Nat.add_assoc,Nat.add_comm layout.size,← Nat.succ_mul]
  exact all (i + 1) value there

theorem flatMap_write_length (layout : Layout α) (values : List α) :
    (values.flatMap layout.write).length = values.length * layout.size := by
  rw [length_flatMap,map_congr_left (fun value _ => layout.write_length value),map_const',sum_replicate_nat]
theorem holds_contents {bytes : List Byte} : Holds (contents bytes) 0 bytes := by
  unfold Holds
  rw [slice_contents (by omega),drop_zero,take_length]

end WindowsOnM1.RecordLayout
