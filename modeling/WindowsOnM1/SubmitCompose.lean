import WindowsOnM1.SubmitFrames

/-!
What the user mode driver composes and what the kernel mode driver accepts: a composed header
before its command parses to a view of what was composed, and an accepted envelope is the
composition of its view.
-/
namespace WindowsOnM1.Submit
open List
open Bool hiding not_and not_not not_or

/-- What a composed header says of its command and process ranges; of the buffer, its command counts. -/
structure ComposeFits (buffer : Buffer) (render : NativeRender) (color : U32) (ranges : Fin processRangeCount → ProcessRange) : Prop where
  colour : colorClassValid color = true
  command : validVa buffer.dmaVa.toNat buffer.dmaBytes.toNat = true
  small : buffer.dmaBytes.toNat ≤ nativeMaxBytes
  large : rangesTooSmall render ranges = false
  process : ∀ i, ProcessFits buffer ranges i

variable {ranges : Fin processRangeCount → ProcessRange}

theorem composeRangeRefused_iff {buffer : Buffer} {required : Nat → Nat}
    {i : Fin processRangeCount} (positive : 0 < required i) :
    composeRangeRefused required buffer.dmaVa.toNat buffer.dmaBytes.toNat ranges i = false ↔
      ProcessFits buffer ranges i ∧ required i ≤ (ranges i).bytes.toNat := by
  unfold composeRangeRefused
  simp only [or_eq_false_iff,decide_eq_false_iff_not,not_or,ne_eq,not_not,not_lt,ge_iff_le,not_le,gt_iff_lt,any_eq_false,
    mem_finRange,forall_const,and_eq_true,decide_eq_true_eq,not_and,not_eq_true]
  constructor
  · rintro ⟨⟨⟨reserved,low,high,aligned,whole,enough,inside⟩,command⟩,earlier⟩
    exact ⟨⟨reserved,aligned,whole,validVa_iff.mpr ⟨low,by omega,by omega⟩,command,earlier⟩,enough⟩
  rintro ⟨fits,enough⟩
  obtain ⟨low,some,inside⟩ := validVa_iff.mp fits.valid
  exact ⟨⟨⟨fits.reserved,low,by omega,fits.aligned,fits.whole,enough,by omega⟩,fits.command⟩,fits.earlier⟩

theorem rangesTooSmall_iff {render : NativeRender} : rangesTooSmall render ranges = false ↔
      ∃ required, processRequiredBytes render = some required ∧ ∀ i : Fin processRangeCount, required i ≤ (ranges i).bytes.toNat := by
  unfold rangesTooSmall
  match processRequiredBytes render with
  | none => exact ⟨nofun,fun ⟨_,impossible,_⟩ => by cases impossible⟩
  | some required =>
    simp only [any_eq_false,mem_finRange,forall_const,decide_eq_true_eq,not_lt,Option.some_inj]
    exact ⟨fun all => ⟨required,rfl,all⟩,fun ⟨_,same,all⟩ => same ▸ all⟩

theorem composeHeaderV2_iff {buffer : Buffer} {render : NativeRender} {color : U32} {ranges : Fin processRangeCount → ProcessRange}
    {header : PrivateHeaderV2} : composeHeaderV2 render buffer.dmaVa buffer.dmaBytes color ranges = some header ↔
      header = ⟨⟨privateMagic,versionProcessVa,168,buffer.dmaBytes,color,buffer.dmaVa⟩,ranges⟩ ∧ ComposeFits buffer render color ranges := by
  unfold composeHeaderV2
  constructor
  · intro made
    match sizes : processRequiredBytes render with
    | none =>
      rw [sizes] at made
      cases made
    | some required =>
      rw [sizes] at made
      dsimp only at made
      split at made
      · cases made
      rename_i good
      split at made
      · cases made
      rename_i ranged
      cases made
      simp only [not_or,not_eq_false,not_lt,not_le,ge_iff_le,gt_iff_lt] at good
      obtain ⟨colour,low,high,some,small,inside⟩ := good
      rw [not_eq_true,any_eq_false] at ranged
      have each : ∀ i : Fin processRangeCount, ProcessFits buffer ranges i ∧ required i ≤ (ranges i).bytes.toNat := by
        intro i
        exact (composeRangeRefused_iff (processRequiredBytes_some sizes i i.isLt).1).mp
          (not_eq_true _ ▸ ranged i (mem_finRange i))
      refine ⟨rfl,colour,validVa_iff.mpr ⟨low,zero_bytes_iff.mpr some,by omega⟩,small,?_,fun i => (each i).1⟩
      exact rangesTooSmall_iff.mpr ⟨required,sizes,fun i => (each i).2⟩
  rintro ⟨rfl,fits⟩
  obtain ⟨required,sizes,enough⟩ := rangesTooSmall_iff.mp fits.large
  obtain ⟨low,some,inside⟩ := validVa_iff.mp fits.command
  have small := fits.small
  rw [sizes]
  dsimp only
  have good : ¬ (colorClassValid color = false ∨ buffer.dmaVa.toNat < 0x10000 ∨ buffer.dmaVa.toNat ≥ vaEnd ∨ buffer.dmaBytes = 0 ∨
      buffer.dmaBytes.toNat > nativeMaxBytes ∨ buffer.dmaBytes.toNat > vaEnd - buffer.dmaVa.toNat) := by
    simp only [not_or,not_eq_false,not_lt,not_le,ge_iff_le,gt_iff_lt]
    exact ⟨fits.colour,low,by omega,zero_bytes_iff.mp some,small,by omega⟩
  have ranged : ¬ (finRange processRangeCount).any
      (composeRangeRefused required buffer.dmaVa.toNat buffer.dmaBytes.toNat ranges) = true := by
    rw [not_eq_true,any_eq_false]
    intro i _
    rw [not_eq_true]
    exact (composeRangeRefused_iff (processRequiredBytes_some sizes i i.isLt).1).mpr ⟨fits.process i,enough i⟩
  rw [if_neg good,if_neg ranged]

theorem composeHeaderV3_iff {buffer : Buffer} {render : NativeRender} {color : U32} {ranges : Fin processRangeCount → ProcessRange}
    {lease : PrivateLease} {header : PrivateHeaderV3} :
    composeHeaderV3 render buffer.dmaVa buffer.dmaBytes color ranges lease = some header ↔
      header = ⟨⟨⟨privateMagic,versionPrivateVa,200,buffer.dmaBytes,color,buffer.dmaVa⟩,ranges⟩,lease⟩ ∧ lease.named = true ∧
        ComposeFits buffer render color ranges := by
  unfold composeHeaderV3
  by_cases named : lease.named = true
  · have passes : ¬ lease.named = false := not_eq_false _ ▸ named
    rw [if_neg passes]
    constructor
    · intro made
      match first : composeHeaderV2 render buffer.dmaVa buffer.dmaBytes color ranges with
      | none =>
        rw [first] at made
        cases made
      | some v2 =>
        rw [first] at made
        obtain ⟨rfl,fits⟩ := composeHeaderV2_iff.mp first
        cases made
        exact ⟨rfl,named,fits⟩
    rintro ⟨rfl,-,fits⟩
    rw [composeHeaderV2_iff.mpr ⟨rfl,fits⟩]
  rw [if_pos (not_eq_true _ ▸ named)]
  exact ⟨nofun,fun ⟨_,impossible,_⟩ => absurd impossible named⟩

theorem composeHeaderV5_iff {v3 : PrivateHeaderV3} {va : U64} {bytes : U32} {preemption : ProcessRange} {header : PrivateHeaderV5} :
    composeHeaderV5 v3 va bytes preemption = some header ↔
      header = ⟨⟨⟨⟨privateMagic,versionRenderCompute,216,bytes,v3.v2.base.reserved,va⟩,v3.v2.process⟩,v3.lease⟩,preemption⟩ ∧
        preemption.bytes ≠ 0 ∧ v3.lease.named = true := by
  unfold composeHeaderV5
  split
  · rename_i bad
    refine ⟨nofun,?_⟩
    rintro ⟨-,some,named⟩
    rcases bad with none | unnamed
    · exact absurd none some
    rw [named] at unnamed
    cases unnamed
  rename_i bad
  rw [Option.some_inj]
  rw [not_or,not_eq_false] at bad
  exact ⟨fun same => ⟨same.symm,bad⟩,fun same => same.1.symm⟩

theorem composeHeaderCompute_iff {va : U64} {bytes : U32} {preemption : ProcessRange} {header : PrivateHeaderCompute} :
    composeHeaderCompute va bytes preemption = some header ↔ header = ⟨⟨privateMagic,versionCompute,40,bytes,0,va⟩,preemption⟩ ∧
      validVa va.toNat bytes.toNat = true ∧ bytes.toNat ≤ nativeMaxBytes ∧ preemption.reserved = 0 ∧
      preemption.va.toNat % 0x10000 = 0 ∧ preemption.bytes.toNat % 0x10000 = 0 ∧
      validVa preemption.va.toNat preemption.bytes.toNat = true ∧
      rangesOverlap preemption.va.toNat preemption.bytes.toNat va.toNat bytes.toNat = false := by
  unfold composeHeaderCompute
  dsimp only
  constructor
  · intro made
    split at made
    · cases made
    rename_i good
    cases made
    simp only [not_or,ne_eq,not_not,not_lt,not_le,ge_iff_le,gt_iff_lt,not_eq_true] at good
    obtain ⟨low,high,some,small,inside,reserved,low',high',aligned,some',whole,inside',apart⟩ := good
    have present := zero_bytes_iff.mpr some
    have present' := Nat.pos_of_ne_zero some'
    exact ⟨rfl,validVa_iff.mpr ⟨low,present,by omega⟩,small,reserved,aligned,whole,validVa_iff.mpr ⟨low',present',by omega⟩,apart⟩
  rintro ⟨rfl,command,small,reserved,aligned,whole,range,apart⟩
  obtain ⟨low,some,inside⟩ := validVa_iff.mp command
  obtain ⟨low',some',inside'⟩ := validVa_iff.mp range
  rw [if_neg]
  simp only [not_or,ne_eq,not_not,not_lt,not_le,ge_iff_le,gt_iff_lt,not_eq_true]
  exact ⟨low,by omega,zero_bytes_iff.mp some,small,by omega,reserved,low',by omega,aligned,Nat.ne_of_gt some',whole,by omega,apart⟩

end WindowsOnM1.Submit
