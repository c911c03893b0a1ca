import Mathlib.Data.BitVec

/-!
Cyclic redundancy checks with the lowest bit first: the remainder is shifted down, bit by bit, and a
polynomial whose highest bit is set is added for every one. Bits that are close together
cannot change without a change of the remainder.
-/
namespace WindowsOnM1.ReflectedCrc
open List

variable {width : Nat}

def step (poly crc : BitVec width) : BitVec width := if crc.getLsbD 0 then (crc >>> 1) ^^^ poly else crc >>> 1
def steps (poly : BitVec width) : Nat → BitVec width → BitVec width
  | 0, crc => crc
  | count+1, crc => steps poly count (step poly crc)
def feedBit (poly crc : BitVec width) (bit : Bool) : BitVec width := step poly (crc ^^^ (BitVec.ofBool bit).setWidth width)
def feed (poly crc : BitVec width) (bits : List Bool) : BitVec width := bits.foldl (feedBit poly) crc

/-- The lowest bits of a value, the lowest one first. -/
def bitsOf {size : Nat} (count : Nat) (value : BitVec size) : List Bool := (List.range count).map value.getLsbD

/-- The value with the given lowest bits. -/
def packed (width : Nat) (bits : List Bool) : BitVec width := (BitVec.ofBoolListLE bits).setWidth width

/-- The bits of two strings differ, and only within a stretch of some length. -/
def Burst (limit : Nat) (sent received : List Bool) : Prop :=
  ∃ before window other after, sent = before ++ window ++ after ∧ received = before ++ other ++ after ∧
    window.length = other.length ∧ window.length ≤ limit ∧ window ≠ other

section
variable {poly : BitVec width}

theorem step_xor (first second : BitVec width) : step poly (first ^^^ second) = step poly first ^^^ step poly second := by
  unfold step
  rw [BitVec.getLsbD_xor,BitVec.ushiftRight_xor_distrib]
  cases first.getLsbD 0 <;> cases second.getLsbD 0 <;> simp only [Bool.false_xor,Bool.true_xor,Bool.not_true,Bool.not_false,
    Bool.false_eq_true,if_true,if_false]
  · rw [BitVec.xor_assoc]
  · rw [BitVec.xor_assoc,BitVec.xor_assoc,BitVec.xor_comm poly]
  have twice : first >>> 1 ^^^ poly ^^^ (second >>> 1 ^^^ poly) = first >>> 1 ^^^ (second >>> 1 ^^^ (poly ^^^ poly)) := by
    ac_rfl
  rw [twice,BitVec.xor_self,BitVec.xor_zero]

section
variable (high : poly.getLsbD (width - 1) = true)
include high

theorem step_eq_zero {crc : BitVec width} (zero : step poly crc = 0) : crc = 0 := by
  unfold step at zero
  cases low : crc.getLsbD 0 with
  | true =>
    rw [low,if_pos rfl] at zero
    have top := congrArg (BitVec.getLsbD · (width - 1)) (BitVec.xor_eq_zero_iff.mp zero)
    simp only [BitVec.getLsbD_ushiftRight,high] at top
    rw [BitVec.getLsbD_of_ge _ _ (by omega)] at top
    cases top
  | false =>
  rw [low,if_neg Bool.false_ne_true] at zero
  refine BitVec.eq_of_getLsbD_eq (fun i inside => ?_)
  cases i with
  | zero => rw [low]; exact BitVec.getLsbD_zero.symm
  | succ i =>
  have bit := congrArg (BitVec.getLsbD · i) zero
  simp only [BitVec.getLsbD_ushiftRight] at bit
  rw [Nat.add_comm i 1,bit]
  simp

theorem step_injective : Function.Injective (step poly) := by
  intro first second same
  refine BitVec.xor_eq_zero_iff.mp (step_eq_zero high ?_)
  rw [step_xor,same]
  exact BitVec.xor_self

theorem steps_injective (count : Nat) : Function.Injective (steps poly count) := by
  induction count with
  | zero => exact fun _ _ same => same
  | succ count ih => exact fun first second same => step_injective high (ih same)

end

variable (count : Nat)

theorem steps_zero : steps poly count 0 = 0 := by
  induction count with
  | zero => rfl
  | succ count ih =>
  have still : step poly 0 = 0 := by simp [step]
  rw [steps,still,ih]

theorem feedBit_injective (high : poly.getLsbD (width - 1) = true) (bit : Bool) :
    Function.Injective (fun crc => feedBit poly crc bit) :=
  fun _ _ same => (BitVec.xor_left_inj _).mp (step_injective high same)

theorem feed_injective (high : poly.getLsbD (width - 1) = true) (bits : List Bool) :
    Function.Injective (fun crc => feed poly crc bits) := by
  induction bits with
  | nil => exact fun _ _ same => same
  | cons bit rest ih => exact fun first second same => feedBit_injective high bit (ih same)

@[simp] theorem bitsOf_length {size : Nat} (value : BitVec size) : (bitsOf count value).length = count := by
  rw [bitsOf,length_map,length_range]

theorem bitsOf_add {size : Nat} (more : Nat) (value : BitVec size) :
    bitsOf (count + more) value = bitsOf count value ++ bitsOf more (value >>> count) := by
  rw [bitsOf,range_add,map_append,map_map]
  refine congrArg (bitsOf count value ++ ·) (map_congr_left (fun i _ => ?_))
  exact (BitVec.getLsbD_ushiftRight value count i).symm

theorem bitsOf_succ {size : Nat} (value : BitVec size) :
    bitsOf (count + 1) value = value.getLsbD 0 :: bitsOf count (value >>> 1) := by
  rw [Nat.add_comm,bitsOf_add]
  rfl

theorem low_xor_high (value : BitVec width) : value = (BitVec.ofBool (value.getLsbD 0)).setWidth width ^^^ (value >>> 1) <<< 1 := by
  refine BitVec.eq_of_getLsbD_eq (fun i inside => ?_)
  cases i with
  | zero => cases low : value.getLsbD 0 <;> simp [inside]
  | succ i =>
  simp [inside,show 1 + i = i + 1 by omega]

theorem step_shifted (value : BitVec width) : step poly ((value >>> 1) <<< 1) = value >>> 1 := by
  have low : ((value >>> 1) <<< 1).getLsbD 0 = false := by simp
  rw [step,low,if_neg Bool.false_ne_true]
  refine BitVec.eq_of_getLsbD_eq (fun i inside => ?_)
  by_cases last : 1 + i < width
  · simp [last]
  simp [last,BitVec.getLsbD_of_ge value (1 + i) (by omega)]

theorem steps_xor (count : Nat) (crc value : BitVec width) :
    steps poly count (crc ^^^ value) = feed poly crc (bitsOf count value) ^^^ value >>> count := by
  induction count generalizing crc value with
  | zero => rw [steps,BitVec.ushiftRight_zero]; rfl
  | succ count ih =>
  have first : step poly (crc ^^^ value) = feedBit poly crc (value.getLsbD 0) ^^^ value >>> 1 := by
    have parts : crc ^^^ value = (crc ^^^ (BitVec.ofBool (value.getLsbD 0)).setWidth width) ^^^ (value >>> 1) <<< 1 := by
      rw [BitVec.xor_assoc,← low_xor_high]
    rw [parts,step_xor,step_shifted]
    rfl
  rw [steps,first,ih,bitsOf_succ,Nat.add_comm,BitVec.shiftRight_add]
  rfl

variable (crc : BitVec width)

theorem feed_window {window : List Bool} (short : window.length ≤ width) :
    feed poly crc window = steps poly window.length (crc ^^^ packed width window) := by
  have bits : bitsOf window.length (packed width window) = window := by
    refine ext_getElem (bitsOf_length _ _) (fun i inside inside' => ?_)
    simp only [bitsOf,packed,getElem_map,getElem_range,BitVec.getLsbD_setWidth,BitVec.getLsbD_ofBoolListLE]
    rw [getD_eq_getElem?_getD,getElem?_eq_getElem inside',Option.getD_some,decide_eq_true (by omega),Bool.true_and]
  have above : packed width window >>> window.length = 0 := by
    refine BitVec.eq_of_getLsbD_eq (fun i inside => ?_)
    rw [packed,BitVec.getLsbD_ushiftRight,BitVec.getLsbD_setWidth,BitVec.getLsbD_ofBoolListLE,getD_eq_getElem?_getD,
      getElem?_eq_none (by omega)]
    simp
  rw [steps_xor,bits,above]
  exact BitVec.xor_zero.symm

theorem window_injective (high : poly.getLsbD (width - 1) = true) (crc : BitVec width) {window other : List Bool}
    (length : window.length = other.length) (short : window.length ≤ width)
    (same : feed poly crc window = feed poly crc other) : window = other := by
  rw [feed_window crc short,feed_window crc (length ▸ short),← length] at same
  have values := (BitVec.xor_right_inj _).mp (steps_injective high _ same)
  refine ext_getElem length (fun i inside inside' => ?_)
  have bit := congrArg (BitVec.getLsbD · i) values
  simp only [packed,BitVec.getLsbD_setWidth,BitVec.getLsbD_ofBoolListLE,getD_eq_getElem?_getD,getElem?_eq_getElem inside,
    getElem?_eq_getElem inside',Option.getD_some,decide_eq_true (show i < width by omega),Bool.true_and] at bit
  exact bit

theorem feed_append (first second : List Bool) :
    feed poly crc (first ++ second) = feed poly (feed poly crc first) second := foldl_append

theorem Burst.detected (high : poly.getLsbD (width - 1) = true) {sent received : List Bool} (burst : Burst width sent received)
    (crc : BitVec width) : feed poly crc sent ≠ feed poly crc received := by
  obtain ⟨before,window,other,after,rfl,rfl,length,short,apart⟩ := burst
  rw [feed_append,feed_append,feed_append,feed_append]
  intro same
  exact apart (window_injective high _ length short (feed_injective high after same))

theorem feed_own : feed poly crc (bitsOf width crc) = 0 := by
  have all := @steps_xor _ poly width crc crc
  have zeros : steps poly width (0 : BitVec width) = 0 := steps_zero width
  rw [BitVec.xor_self] at all
  have none : crc >>> width = 0 := BitVec.eq_of_getLsbD_eq (fun i inside => by
    rw [BitVec.getLsbD_ushiftRight,BitVec.getLsbD_of_ge _ _ (Nat.le_add_right _ _)]
    exact BitVec.getLsbD_zero.symm)
  rw [none] at all
  exact (BitVec.xor_zero.symm.trans all.symm).trans zeros

end

end WindowsOnM1.ReflectedCrc
