import WindowsOnM1.UatModel

/-!
What the bit arithmetic of the page tables means in numbers: which fields of a
descriptor a mask selects, what a validated range satisfies, and how the pages of a
range are numbered inside the half that a root translates.
-/
namespace WindowsOnM1.UatEncoding
open UatModel
open BitVec hiding not_or

private theorem addressMask_bit (i : Fin 64) : addressMask.getLsbD i = decide (14 ≤ i.val ∧ i.val < 40) := by
  revert i
  decide
private theorem pageMask_bit (i : Fin 64) : pageMask.getLsbD i = decide (i.val < 14) := by
  revert i
  decide

variable {a : U64}

theorem address_masked (aligned : a &&& pageMask = 0) (small : a < physicalLimit) : a &&& addressMask = a := by
  apply eq_of_getLsbD_eq
  intro i inside
  rw [getLsbD_and,addressMask_bit ⟨i,inside⟩]
  by_cases low : i < 14
  · have clear := congrArg (fun x => x.getLsbD i) aligned
    simp only [getLsbD_and,pageMask_bit ⟨i,inside⟩,low,decide_true,Bool.and_true] at clear
    simp [clear]
  by_cases high : i < 40
  · simp [high,Nat.le_of_not_lt low]
  have below : a.toNat < 2 ^ i := by
    have limit : a.toNat < 2 ^ 40 := small
    exact limit.trans_le (Nat.pow_le_pow_right (by decide) (Nat.le_of_not_lt high))
  have clear : a.getLsbD i = false := Nat.testBit_lt_two_pow below
  simp [clear]

theorem masked_zero : (0 : U64) &&& addressMask = 0 := by decide
theorem table_masked (address : a &&& addressMask = a) : (a ||| 3) &&& addressMask = a := by
  rw [BitVec.and_comm,and_or_distrib_left,BitVec.and_comm,address]
  have low : addressMask &&& 3 = 0 := by decide
  exact or_zero

theorem table_descriptor (a : U64) : (a ||| 3) &&& descriptorMask = descriptorMask := by
  apply eq_of_getLsbD_eq
  intro i inside
  simp only [getLsbD_or,getLsbD_and]
  cases descriptorMask.getLsbD i <;> cases a.getLsbD i <;> simp_all

theorem ne_zero_of_descriptor {v : U64} (bits : v &&& descriptorMask = descriptorMask) : v ≠ 0 := by
  rintro rfl
  exact absurd bits (by decide)

variable {context : Nat} {protection : UatProtection}

theorem protectionBits_spec {bits : U64} (encoded : protectionBits context protection = .ok bits) :
    context < contextCount ∧ bits &&& addressMask = 0 ∧ bits &&& descriptorMask = descriptorMask := by
  unfold protectionBits at encoded
  split at encoded
  · cases encoded
  rename_i inside
  refine ⟨Nat.lt_of_not_le inside,?_⟩
  by_cases firmware : context = firmwareContext
  all_goals cases protection <;> simp [protectionFields,gpuProtection,firmware] at encoded <;> subst encoded <;> decide

theorem encodePageDescriptor_spec {physical descriptor : U64}
    (encoded : encodePageDescriptor context physical protection = .ok descriptor) :
    descriptor &&& addressMask = physical ∧ descriptor &&& descriptorMask = descriptorMask := by
  unfold encodePageDescriptor at encoded
  cases bitsIs : protectionBits context protection with
  | error result => simp [bitsIs] at encoded
  | ok bits =>
  obtain ⟨_,free,valid⟩ := protectionBits_spec bitsIs
  simp only [bitsIs] at encoded
  split at encoded
  · cases encoded
  rename_i aligned
  split at encoded
  · cases encoded
  rename_i small
  cases encoded
  have address := address_masked (not_not.mp aligned) (BitVec.not_le.mp small)
  constructor
  · rw [BitVec.and_comm,and_or_distrib_left,BitVec.and_comm,address,BitVec.and_comm,free]
    exact or_zero
  rw [BitVec.and_comm,and_or_distrib_left,BitVec.and_comm _ bits,valid]
  apply eq_of_getLsbD_eq
  intro i inside
  simp only [getLsbD_or,getLsbD_and]
  cases descriptorMask.getLsbD i <;> simp

theorem encodePageDescriptor_ok {physical bits : U64}
    (allowed : protectionBits context protection = .ok bits) (aligned : physical &&& pageMask = 0)
    (small : physical < physicalLimit) :
    encodePageDescriptor context physical protection = .ok (physical ||| bits) := by
  simp only [encodePageDescriptor,allowed]
  rw [if_neg (not_not.mpr aligned),if_neg (BitVec.not_le.mpr small)]

theorem aligned_iff (x : U64) : x &&& pageMask = 0 ↔ x.toNat % 0x4000 = 0 := by
  have mask : (x &&& pageMask).toNat = x.toNat % 0x4000 := by
    exact Nat.and_two_pow_sub_one_eq_mod x.toNat 14
  rw [← mask]
  constructor
  · intro zero; rw [zero]; rfl
  intro zero; exact eq_of_toNat_eq zero

/-- The half in which an address lies. -/
def InHalf (half : UatHalf) (va : U64) : Prop :=
  match half with
  | .Ttbr0 => va.toNat < 2 ^ 39
  | .Ttbr1 => 2 ^ 64 - 2 ^ 39 ≤ va.toNat

/-- A range that `validateRange` accepts for a half. -/
structure ValidRange (half : UatHalf) (va physical length : U64) : Prop where
  positive : 0 < length.toNat
  virtualAligned : va.toNat % 0x4000 = 0
  physicalAligned : physical.toNat % 0x4000 = 0
  lengthAligned : length.toNat % 0x4000 = 0
  physicalEnd : physical.toNat + length.toNat ≤ 2 ^ 40
  virtualEnd : va.toNat + length.toNat ≤ match half with | .Ttbr0 => 2 ^ 39 | .Ttbr1 => 2 ^ 64
  start : InHalf half va

private theorem or_aligned {b c : U64} (aligned : (a ||| b ||| c) &&& pageMask = 0) :
    a &&& pageMask = 0 ∧ b &&& pageMask = 0 ∧ c &&& pageMask = 0 := by
  rw [BitVec.and_comm,and_or_distrib_left,and_or_distrib_left] at aligned
  obtain ⟨both,last⟩ := or_eq_zero_iff.mp aligned
  obtain ⟨first,second⟩ := or_eq_zero_iff.mp both
  exact ⟨by rw [BitVec.and_comm]; exact first,by rw [BitVec.and_comm]; exact second, by rw [BitVec.and_comm]; exact last⟩

variable {va : U64} {half : UatHalf}

theorem validateRange_spec {physical length : U64}
    (valid : validateRange context va physical length protection = .ok half) :
    (∃ bits, protectionBits context protection = .ok bits) ∧ ValidRange half va physical length := by
  unfold validateRange at valid
  split at valid
  · cases valid
  rename_i nonzero
  cases bitsIs : protectionBits context protection with
  | error result => simp [bitsIs] at valid
  | ok bits =>
  refine ⟨⟨bits,rfl⟩,?_⟩
  simp only [bitsIs] at valid
  split at valid
  · cases valid
  rename_i aligned
  split at valid
  · cases valid
  rename_i overflow
  split at valid
  · cases valid
  rename_i outside
  obtain ⟨vaAligned,physicalAligned,lengthAligned⟩ := or_aligned (not_not.mp aligned)
  rw [aligned_iff] at vaAligned physicalAligned lengthAligned
  have positive : 0 < length.toNat := by
    refine Nat.pos_of_ne_zero (fun zero => nonzero (eq_of_toNat_eq zero))
  have fits : va.toNat + length.toNat ≤ 2 ^ 64 := by
    rw [lt_def] at overflow
    have unit : (1 : U64).toNat = 1 := rfl
    have one : (length - 1).toNat = length.toNat - 1 := by
      rw [toNat_sub_of_le (le_def.mpr (by omega)),unit]
    have flip : (~~~va).toNat = 2 ^ 64 - 1 - va.toNat := toNat_not
    omega
  have physicalEnd : physical.toNat + length.toNat ≤ 2 ^ 40 := by
    simp only [not_or,le_def,lt_def] at outside
    obtain ⟨small,fits⟩ := outside
    have limit : physicalLimit.toNat = 2 ^ 40 := by decide
    have rest : (physicalLimit - physical).toNat = 2 ^ 40 - physical.toNat := by
      rw [toNat_sub_of_le (le_def.mpr (by omega)),limit]
    omega
  have low : lowLimit.toNat = 2 ^ 39 := by decide
  have high : highBase.toNat = 2 ^ 64 - 2 ^ 39 := by decide
  split at valid
  · rename_i inLow
    cases valid
    refine ⟨positive,vaAligned,physicalAligned,lengthAligned,physicalEnd,?_,?_⟩
    · obtain ⟨first,last⟩ := inLow
      rw [lt_def] at first last
      have sum : (va + length - 1).toNat = va.toNat + length.toNat - 1 := by
        have whole : (va + length).toNat = va.toNat + length.toNat := by
          rw [toNat_add,Nat.mod_eq_of_lt (by omega)]
        have unit : (1 : U64).toNat = 1 := rfl
        rw [toNat_sub_of_le (le_def.mpr (by omega)),whole,unit]
      simp only
      omega
    rw [lt_def] at inLow
    simp only [InHalf]
    omega
  split at valid
  · rename_i inHigh
    cases valid
    refine ⟨positive,vaAligned,physicalAligned,lengthAligned,physicalEnd,fits,?_⟩
    rw [le_def] at inHigh
    simp only [InHalf]
    omega
  cases valid

/-- The number of the page of an address inside its half. -/
def key (va : U64) : Nat := va.toNat / 0x4000 % 2 ^ 25
def halfBase : UatHalf → Nat
  | .Ttbr0 => 0
  | .Ttbr1 => 2 ^ 64 - 2 ^ 39
private theorem and_mask (n k : Nat) : n &&& (2 ^ k - 1) = n % 2 ^ k := Nat.and_two_pow_sub_one_eq_mod n k

section
variable (va)

theorem level0Index_eq : level0Index va = key va / 2 ^ 22 := by
  have mask := and_mask (va.toNat >>> 36) 3
  rw [Nat.shiftRight_eq_div_pow] at mask
  have index : level0Index va = va.toNat / 2 ^ 36 % 2 ^ 3 := by
    rw [level0Index,toNat_and,toNat_ushiftRight,Nat.shiftRight_eq_div_pow]
    exact mask
  rw [index,key]
  omega

theorem level1Index_eq : level1Index va = key va / 2 ^ 11 % 2 ^ 11 := by
  have mask := and_mask (va.toNat >>> 25) 11
  rw [Nat.shiftRight_eq_div_pow] at mask
  have index : level1Index va = va.toNat / 2 ^ 25 % 2 ^ 11 := by
    rw [level1Index,toNat_and,toNat_ushiftRight,Nat.shiftRight_eq_div_pow]
    exact mask
  rw [index,key]
  omega

theorem level2Index_eq : level2Index va = key va % 2 ^ 11 := by
  have mask := and_mask (va.toNat >>> 14) 11
  rw [Nat.shiftRight_eq_div_pow] at mask
  have index : level2Index va = va.toNat / 2 ^ 14 % 2 ^ 11 := by
    rw [level2Index,toNat_and,toNat_ushiftRight,Nat.shiftRight_eq_div_pow]
    exact mask
  rw [index,key]
  omega

private theorem key_lt : key va < 2 ^ 25 := Nat.mod_lt _ (by decide)
theorem level0Index_lt : level0Index va < 8 := by
  have := key_lt va
  rw [level0Index_eq]
  omega
theorem level1Index_lt : level1Index va < 2048 := by
  rw [level1Index_eq]
  exact Nat.mod_lt _ (by decide)
theorem level2Index_lt : level2Index va < 2048 := by
  rw [level2Index_eq]
  exact Nat.mod_lt _ (by decide)

end

theorem key_of_indices {va' : U64} (level0 : level0Index va = level0Index va')
    (level1 : level1Index va = level1Index va') (level2 : level2Index va = level2Index va') : key va = key va' := by
  rw [level0Index_eq,level0Index_eq] at level0
  rw [level1Index_eq,level1Index_eq] at level1
  rw [level2Index_eq,level2Index_eq] at level2
  omega

theorem indices_of_key {va' : U64} (same : key va = key va') :
    level0Index va = level0Index va' ∧ level1Index va = level1Index va' ∧ level2Index va = level2Index va' := by
  rw [level0Index_eq,level0Index_eq,level1Index_eq,level1Index_eq,level2Index_eq,level2Index_eq,same]
  exact ⟨rfl,rfl,rfl⟩

theorem address_of_key (inHalf : InHalf half va) (aligned : va.toNat % 0x4000 = 0) :
    va.toNat = halfBase half + key va * 0x4000 := by
  cases half with
  | Ttbr0 =>
    simp only [InHalf] at inHalf
    simp only [halfBase,key]
    omega
  | Ttbr1 =>
  simp only [InHalf] at inHalf
  simp only [halfBase,key]
  omega

theorem pageAddress_toNat {turn : Nat} (fits : va.toNat + turn * 0x4000 < 2 ^ 64) :
    (pageAddress va turn).toNat = va.toNat + turn * 0x4000 := by
  rw [pageAddress,toNat_add,toNat_ofNat]
  omega

namespace ValidRange

variable {half : UatHalf} {va physical length : U64} (valid : ValidRange half va physical length)
include valid

theorem turns : pageTurns length = length.toNat / 0x4000 := by
  have aligned := valid.lengthAligned
  rw [pageTurns]
  omega

variable {turn : Nat}

section
variable (inside : turn < pageTurns length)
include inside

theorem page_toNat : (pageAddress va turn).toNat = va.toNat + turn * 0x4000 := by
  have last := valid.virtualEnd
  rw [valid.turns] at inside
  apply pageAddress_toNat
  cases half <;> simp only at last <;> omega

theorem physical_toNat : (pageAddress physical turn).toNat = physical.toNat + turn * 0x4000 := by
  have last := valid.physicalEnd
  rw [valid.turns] at inside
  exact pageAddress_toNat (by omega)

theorem page_inHalf : InHalf half (pageAddress va turn) := by
  have last := valid.virtualEnd
  have start := valid.start
  have address := valid.page_toNat inside
  rw [valid.turns] at inside
  cases half <;> simp only [InHalf] at last start ⊢ <;> omega

theorem page_key : key (pageAddress va turn) = key va + turn := by
  have here := address_of_key valid.start valid.virtualAligned
  have there := address_of_key (valid.page_inHalf inside) (by
    rw [valid.page_toNat inside]
    have := valid.virtualAligned
    omega)
  rw [valid.page_toNat inside] at there
  omega

theorem physical_aligned : pageAddress physical turn &&& pageMask = 0 ∧ pageAddress physical turn < physicalLimit := by
  have address := valid.physical_toNat inside
  have aligned := valid.physicalAligned
  have last := valid.physicalEnd
  have limit : physicalLimit.toNat = 2 ^ 40 := by decide
  rw [valid.turns] at inside
  rw [aligned_iff,lt_def,address,limit]
  omega

end

theorem physical_ne_zero (nonzero : physical ≠ 0) (inside : turn < pageTurns length) : pageAddress physical turn ≠ 0 := by
  intro zero
  have address := valid.physical_toNat inside
  have positive : 0 < physical.toNat := Nat.pos_of_ne_zero (fun isZero => nonzero (eq_of_toNat_eq isZero))
  have unit : (0 : U64).toNat = 0 := rfl
  rw [zero,unit] at address
  omega

theorem last : (va + length - 1).toNat = va.toNat + length.toNat - 1 := by
  have positive := valid.positive
  have bound : va.toNat + length.toNat ≤ 2 ^ 64 := by
    have fits := valid.virtualEnd
    cases half <;> simp only at fits <;> omega
  have unit : (1 : U64).toNat = 1 := rfl
  rw [toNat_sub,toNat_add,unit]
  omega

theorem inside {page : Nat} (after : key va ≤ page) (before : page < key va + pageTurns length) :
    key (pageAddress va (page - key va)) = page := by
  rw [valid.page_key (by omega)]
  omega

end ValidRange

end WindowsOnM1.UatEncoding
