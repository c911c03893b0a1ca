import Mathlib.Tactic.Ring
import WindowsOnM1.GpuvaG3Plan

/-!
What the planners write is what the entries say, and the planner of 64 KiB entries does what
the other one does with sixteen entries for each of its own.
-/
namespace WindowsOnM1.GpuvaG3
open CountedLoop CheckedFill List
open BitVec hiding and_assoc not_not not_or

theorem lowBits_zero {w : Nat} (value mask : BitVec w) (bits : Nat) (is : mask.toNat = 2 ^ bits - 1) :
    value &&& mask = 0 ↔ value.toNat % 2 ^ bits = 0 := by
  rw [← toNat_inj,toNat_and,is,Nat.and_two_pow_sub_one_eq_mod]
  simp

variable {flags : U32}

private theorem flags_known (known : flags &&& ~~~(valid ||| write) = 0) : flags = 0 ∨ flags = 1 ∨ flags = 2 ∨ flags = 3 := by
  have low : flags = flags &&& 3 := by
    have split : (flags &&& ~~~(valid ||| write)) ||| (flags &&& 3) = flags := by
      rw [← and_or_distrib_left]
      exact and_allOnes
    rw [known] at split
    simpa using split.symm
  have small : flags.toNat = flags.toNat % 2 ^ 2 := by
    calc flags.toNat = (flags &&& 3).toNat := congrArg BitVec.toNat low
      _ = flags.toNat % 2 ^ 2 := by
        rw [toNat_and,show (3 : U32).toNat = 2 ^ 2 - 1 from rfl,Nat.and_two_pow_sub_one_eq_mod]
  have : flags.toNat < 4 := by omega
  bv_omega

theorem flags_mapped (flags : U32) : (flags &&& ~~~(valid ||| write) = 0 ∧ flags &&& valid ≠ 0) ↔ (flags = valid ∨ flags = valid ||| write) := by
  constructor
  · rintro ⟨known,mapped⟩
    rcases flags_known known with rfl | rfl | rfl | rfl
    · exact absurd rfl mapped
    · exact .inl rfl
    · exact absurd rfl mapped
    exact .inr rfl
  rintro (rfl | rfl) <;> decide

/-- Four entries that are all invalid. -/
def Empty (p : Nat → LogicalPte) : Prop := ∀ i < 4, (p i).flags = 0

/-- Four entries that are one native page. -/
structure Mapped (p : Nat → LogicalPte) (localSegment : U32) : Prop where
  flags : (p 0).flags = valid ∨ (p 0).flags = valid ||| write
  base : (p 0).guestIpa ≠ 0
  aligned : (p 0).guestIpa.toNat % 0x4000 = 0
  segment : (p 0).segmentId ≤ localSegment
  uniform : ∀ i < 4, (p i).flags = (p 0).flags ∧ (p i).segmentId = (p 0).segmentId ∧
    (p i).guestIpa = (p 0).guestIpa + BitVec.ofNat 64 i * logicalPage

/-- The leaf of an entry, or of a native page of it. -/
def leafOf (va : U64) (pte : LogicalPte) (offset : U64) : NativeLeaf where
  gpuVa := va
  guestIpa := if pte.flags ≠ 0 then pte.guestIpa + offset else 0
  segmentId := if pte.flags ≠ 0 then pte.segmentId else 0
  validMask := if pte.flags ≠ 0 then 15 else 0
  writableMask := if pte.flags &&& write ≠ 0 then 15 else 0

variable {p : Nat → LogicalPte} {localSegment : U32}

theorem planGroup_empty (empty : Empty p) : planGroup p localSegment = (.unmap,fun leaf => leafOf leaf.gpuVa (p 0) 0) := by
  have none : (p 0).flags = 0 := empty 0 (by decide)
  have all : (range 4).any (fun i => (p i).flags != 0) = false := by
    rw [any_eq_false]
    intro i mem
    simp [empty i (mem_range.mp mem)]
  unfold planGroup leafOf
  simp only [none,all]
  rfl

theorem planGroup_mapped (mapped : Mapped p localSegment) :
    planGroup p localSegment = (.ok,fun leaf => leafOf leaf.gpuVa (p 0) 0) := by
  obtain ⟨known,on⟩ := (flags_mapped _).mpr mapped.flags
  have some : (p 0).flags ≠ 0 := by
    intro none
    rw [none] at on
    exact on rfl
  have placed : ¬((p 0).guestIpa = 0 ∨ (p 0).guestIpa &&& (nativePage - 1) ≠ 0 ∨ ~~~0 - (nativePage - 1) < (p 0).guestIpa ∨
      localSegment < (p 0).segmentId) := by
    have aligned := mapped.aligned
    rintro (zero | skew | high | foreign)
    · exact mapped.base zero
    · exact skew ((lowBits_zero _ _ 14 rfl).mpr aligned)
    · rw [lt_def,show (~~~0 - (nativePage - 1) : U64).toNat = 2 ^ 64 - 0x4000 from rfl] at high
      omega
    exact absurd mapped.segment (BitVec.not_le.mpr foreign)
  have same : (range 4).any (fun i => (p i).flags != (p 0).flags || (p i).segmentId != (p 0).segmentId ||
      (p i).guestIpa != (p 0).guestIpa + BitVec.ofNat 64 i * logicalPage) = false := by
    rw [any_eq_false]
    intro i mem
    obtain ⟨flags,segment,ipa⟩ := mapped.uniform i (mem_range.mp mem)
    simp [flags,segment,ipa]
  unfold planGroup leafOf
  rw [if_neg (not_not.mpr known),if_neg on,if_neg placed,if_neg (by rw [same]; decide)]
  simp only [if_pos some]
  rw [show (p 0).guestIpa + 0 = (p 0).guestIpa from BitVec.add_zero _]

private theorem planGroup_refused (some : ¬Empty p) (unmapped : ¬Mapped p localSegment) :
    planGroup p localSegment = (.unrepresentable,id) := by
  unfold planGroup
  dsimp only
  split
  · rfl
  rename_i known
  split
  · split
    · rfl
    rename_i all
    refine absurd (fun i below => ?_) some
    have here := any_eq_false.mp (Bool.not_eq_true _ ▸ all) i (mem_range.mpr below)
    simpa using here
  rename_i on
  split
  · rfl
  rename_i placed
  split
  · rfl
  rename_i same
  simp only [not_or,not_not] at placed
  refine absurd ⟨(flags_mapped _).mp ⟨not_not.mp known,on⟩,placed.1,(lowBits_zero _ _ 14 rfl).mp placed.2.1,
    BitVec.not_lt.mp placed.2.2.2,fun i below => ?_⟩ unmapped
  have here := any_eq_false.mp (Bool.not_eq_true _ ▸ same) i (mem_range.mpr below)
  simpa [and_assoc] using here

/-- What `AppleAgxGpuvaG3PlanSpan` checks before it looks at an entry. -/
structure SpanAdmitted (pointers : Bool) (startIndex count : U32) (firstGpuVa : U64) (localSegment segmentPageBytes leafCapacity : U32) :
    Prop where
  pointers : pointers = true
  localSegment : localSegment ≠ 0
  pageBytes : segmentPageBytes = 0x4000 ∨ segmentPageBytes = 0x10000
  some : count.toNat ≠ 0
  whole : count.toNat % 4 = 0
  wholeStart : startIndex.toNat % 4 = 0
  inTable : startIndex.toNat + count.toNat ≤ 8192
  room : count.toNat / 4 ≤ leafCapacity.toNat
  aligned : firstGpuVa.toNat % 0x4000 = 0
  inSpace : firstGpuVa.toNat + count.toNat * 0x1000 ≤ 2 ^ 39

/-- What `AppleAgxGpuvaG3Plan64KSpan` checks before it looks at an entry. -/
structure SpanAdmitted64K (pointers : Bool) (startIndex count : U32) (firstGpuVa : U64) (localSegment leafCapacity : U32) : Prop where
  pointers : pointers = true
  localSegment : localSegment ≠ 0
  some : count.toNat ≠ 0
  inTable : startIndex.toNat + count.toNat ≤ 512
  room : count.toNat ≤ leafCapacity.toNat / 4
  aligned : firstGpuVa.toNat % 0x10000 = 0
  inSpace : firstGpuVa.toNat + count.toNat * 0x10000 ≤ 2 ^ 39

variable {firstGpuVa : U64}

/-- A span of the address space, as the planners compare it with `va_limit`. -/
theorem inSpace_iff {bytes : U64} {length : Nat} (is : bytes.toNat = length) (some : 0 < length) :
    (¬vaLimit ≤ firstGpuVa ∧ ¬vaLimit - firstGpuVa < bytes) ↔ firstGpuVa.toNat + length ≤ 2 ^ 39 := by
  have limit : (vaLimit : U64).toNat = 2 ^ 39 := rfl
  rw [BitVec.not_le,BitVec.not_lt,lt_def,le_def,limit,is]
  constructor
  · rintro ⟨below,room⟩
    rw [toNat_sub_of_le (by rw [le_def,limit]; omega),limit] at room
    omega
  intro room
  have below : firstGpuVa.toNat < 2 ^ 39 := by omega
  refine ⟨below,?_⟩
  rw [toNat_sub_of_le (by rw [le_def,limit]; omega),limit]
  omega

variable {startIndex count : U32}

theorem inTable_iff (entries : U32) (some : 0 < count.toNat) :
    (¬entries ≤ startIndex ∧ ¬entries - startIndex < count) ↔ startIndex.toNat + count.toNat ≤ entries.toNat := by
  rw [BitVec.not_le,BitVec.not_lt,lt_def,le_def]
  constructor
  · rintro ⟨below,room⟩
    rw [toNat_sub_of_le (by rw [le_def]; omega)] at room
    omega
  intro room
  refine ⟨by omega,?_⟩
  rw [toNat_sub_of_le (by rw [le_def]; omega)]
  omega

theorem count_zero_iff : count = 0 ↔ count.toNat = 0 := by
  rw [← toNat_inj]
  rfl

variable {pointers : Bool}

theorem spanAdmitted_iff {segmentPageBytes leafCapacity : U32} :
    SpanAdmitted pointers startIndex count firstGpuVa localSegment segmentPageBytes leafCapacity ↔
      ¬(pointers = false ∨ localSegment = 0 ∨ (segmentPageBytes ≠ 0x4000 ∧ segmentPageBytes ≠ 0x10000) ∨
        count = 0 ∨ count &&& 3 ≠ 0 ∨ startIndex &&& 3 ≠ 0 ∨ logicalLeafEntries ≤ startIndex ∨
        logicalLeafEntries - startIndex < count ∨ firstGpuVa &&& (nativePage - 1) ≠ 0 ∨ vaLimit ≤ firstGpuVa ∨
        vaLimit - firstGpuVa < count.setWidth 64 * logicalPage) ∧ ¬leafCapacity < count / 4 := by
  have groups : (count / 4).toNat = count.toNat / 4 := toNat_udiv
  have bytes : (count.setWidth 64 * logicalPage).toNat = count.toNat * 0x1000 := by bv_omega
  simp only [not_or,not_and_or,not_not,Bool.not_eq_false]
  constructor
  · intro admitted
    have some : 0 < count.toNat := Nat.pos_of_ne_zero admitted.some
    obtain ⟨below,fits⟩ := (inTable_iff logicalLeafEntries some).mpr admitted.inTable
    obtain ⟨low,room⟩ := (inSpace_iff bytes (by omega)).mpr admitted.inSpace
    refine ⟨⟨admitted.pointers,admitted.localSegment,admitted.pageBytes,?_,(lowBits_zero _ _ 2 rfl).mpr admitted.whole,
      (lowBits_zero _ _ 2 rfl).mpr admitted.wholeStart,below,fits,(lowBits_zero _ _ 14 rfl).mpr admitted.aligned,low,room⟩,?_⟩
    · exact fun none => admitted.some (count_zero_iff.mp none)
    exact Nat.not_lt.mpr admitted.room
  rintro ⟨⟨pointers,segment,pageBytes,some,whole,wholeStart,below,fits,aligned,low,room⟩,capacity⟩
  have some' : count.toNat ≠ 0 := fun none => some (count_zero_iff.mpr none)
  refine ⟨pointers,segment,pageBytes,some',(lowBits_zero _ _ 2 rfl).mp whole,(lowBits_zero _ _ 2 rfl).mp wholeStart,
    (inTable_iff _ (Nat.pos_of_ne_zero some')).mp ⟨below,fits⟩,?_,(lowBits_zero _ _ 14 rfl).mp aligned,
    (inSpace_iff bytes (by omega)).mp ⟨low,room⟩⟩
  exact Nat.not_lt.mp capacity

theorem spanAdmitted64K_iff {leafCapacity : U32} :
    SpanAdmitted64K pointers startIndex count firstGpuVa localSegment leafCapacity ↔
      ¬(pointers = false ∨ localSegment = 0 ∨ count = 0 ∨ 512 ≤ startIndex ∨ 512 - startIndex < count ∨ leafCapacity / 4 < count ∨
        firstGpuVa &&& 0xffff ≠ 0 ∨ vaLimit ≤ firstGpuVa ∨ vaLimit - firstGpuVa < count.setWidth 64 * 0x10000) := by
  have quarter : (leafCapacity / 4).toNat = leafCapacity.toNat / 4 := toNat_udiv
  have bytes : (count.setWidth 64 * 0x10000).toNat = count.toNat * 0x10000 := by bv_omega
  simp only [not_or,not_not,Bool.not_eq_false]
  constructor
  · intro admitted
    have some : 0 < count.toNat := Nat.pos_of_ne_zero admitted.some
    obtain ⟨below,fits⟩ := (inTable_iff 512 some).mpr admitted.inTable
    obtain ⟨low,room⟩ := (inSpace_iff bytes (by omega)).mpr admitted.inSpace
    refine ⟨admitted.pointers,admitted.localSegment,?_,below,fits,?_,(lowBits_zero _ _ 16 rfl).mpr admitted.aligned,low,room⟩
    · exact fun none => admitted.some (count_zero_iff.mp none)
    exact Nat.not_lt.mpr admitted.room
  rintro ⟨pointers,segment,some,below,fits,capacity,aligned,low,room⟩
  have some' : count.toNat ≠ 0 := fun none => some (count_zero_iff.mpr none)
  refine ⟨pointers,segment,some',(inTable_iff 512 (Nat.pos_of_ne_zero some')).mp ⟨below,fits⟩,?_,
    (lowBits_zero _ _ 16 rfl).mp aligned,(inSpace_iff bytes (by omega)).mp ⟨low,room⟩⟩
  exact Nat.not_lt.mp capacity

private theorem pages_place (firstGpuVa : U64) (n : Nat) :
    firstGpuVa + BitVec.ofNat 64 (n / 4) * 0x10000 + BitVec.ofNat 64 (n % 4) * nativePage =
      firstGpuVa + BitVec.ofNat 64 n * nativePage := by
  have split : BitVec.ofNat 64 n = BitVec.ofNat 64 (n / 4) * 4 + BitVec.ofNat 64 (n % 4) := by
    rw [show BitVec.ofNat 64 n = BitVec.ofNat 64 (n / 4 * 4 + n % 4) from congrArg _ (Nat.div_add_mod' n 4).symm,
      ofNat_add,ofNat_mul]
    rfl
  rw [split]
  ring

/-- A 64 KiB entry that can be mapped. -/
structure Mapped64K (pte : LogicalPte) (localSegment : U32) : Prop where
  flags : pte.flags = valid ∨ pte.flags = valid ||| write
  segment : pte.segmentId = 0 ∨ pte.segmentId = localSegment
  base : pte.guestIpa ≠ 0
  aligned : pte.guestIpa.toNat % 0x10000 = 0

theorem mapped_some (mapped : flags = valid ∨ flags = valid ||| write) : flags ≠ 0 := by
  rcases mapped with rfl | rfl <;> decide
theorem Mapped.not_empty (mapped : Mapped p localSegment) : ¬Empty p :=
  fun empty => mapped_some mapped.flags (empty 0 (by decide))

section
attribute [local instance] Classical.propDecidable
variable {entries : Nat → LogicalPte} {localSegment : U32}

private theorem checkGroup_eq (i : Nat) (overall : PlanResult) : checkGroup entries localSegment i overall =
    if Empty (group entries i) ∨ Mapped (group entries i) localSegment then
      (true,if Mapped (group entries i) localSegment then .ok else overall) else (false,.unrepresentable) := by
  unfold checkGroup
  by_cases mapped : Mapped (group entries i) localSegment
  · have fits : Empty (group entries i) ∨ Mapped (group entries i) localSegment := .inr mapped
    rw [planGroup_mapped mapped,if_pos fits,if_pos mapped]
    rfl
  by_cases empty : Empty (group entries i)
  · have fits : Empty (group entries i) ∨ Mapped (group entries i) localSegment := .inl empty
    rw [planGroup_empty empty,if_pos fits,if_neg mapped]
    rfl
  rw [planGroup_refused empty mapped,if_neg (not_or.mpr ⟨empty,mapped⟩)]
  rfl

private theorem check64K_eq (i : Nat) (overall : PlanResult) : check64K entries localSegment i overall =
    if (entries i).flags = 0 ∨ Mapped64K (entries i) localSegment then
      (true,if Mapped64K (entries i) localSegment then .ok else overall) else (false,.unrepresentable) := by
  unfold check64K
  dsimp only
  split
  · rename_i empty
    rw [if_pos (.inl empty),if_neg (fun mapped => mapped_some mapped.flags empty)]
  rename_i empty
  by_cases mapped : Mapped64K (entries i) localSegment
  · have aligned := mapped.aligned
    have fits : (entries i).flags = 0 ∨ Mapped64K (entries i) localSegment := .inr mapped
    rw [if_pos fits,if_pos mapped,if_neg]
    rintro (⟨off,off'⟩ | ⟨foreign,foreign'⟩ | zero | skew | high)
    · exact mapped.flags.elim off off'
    · exact mapped.segment.elim foreign foreign'
    · exact mapped.base zero
    · exact skew ((lowBits_zero _ _ 16 rfl).mpr aligned)
    rw [lt_def,show (~~~0 - 0xffff : U64).toNat = 2 ^ 64 - 0x10000 from rfl] at high
    omega
  have refused : ¬((entries i).flags = 0 ∨ Mapped64K (entries i) localSegment) := not_or.mpr ⟨empty,mapped⟩
  rw [if_neg refused,if_pos]
  by_contra fine
  simp only [not_or,not_and_or,not_not] at fine
  exact mapped ⟨fine.1,fine.2.1,fine.2.2.1,(lowBits_zero _ _ 16 rfl).mp fine.2.2.2.1⟩

variable {pointers : Bool} {startIndex count : U32} {firstGpuVa : U64} {segmentPageBytes leafCapacity : U32} {plan : Plan}

theorem planSpan_invalid
    (refused : ¬SpanAdmitted pointers startIndex count firstGpuVa localSegment segmentPageBytes leafCapacity) :
    planSpan pointers entries startIndex count firstGpuVa localSegment segmentPageBytes leafCapacity plan = (.invalid,plan) := by
  unfold planSpan
  split
  · rfl
  rename_i placed
  rw [if_pos]
  by_contra room
  exact refused (spanAdmitted_iff.mpr ⟨placed,room⟩)

theorem planSpan_admitted (admitted : SpanAdmitted pointers startIndex count firstGpuVa localSegment segmentPageBytes leafCapacity) :
    planSpan pointers entries startIndex count firstGpuVa localSegment segmentPageBytes leafCapacity plan =
      if ∀ i < count.toNat / 4, Empty (group entries i) ∨ Mapped (group entries i) localSegment then
        (if ∃ i < count.toNat / 4, Mapped (group entries i) localSegment then .ok else .unmap,
          ⟨fun n => if n < count.toNat / 4 then leafOf (firstGpuVa + BitVec.ofNat 64 n * nativePage) (entries (n * 4)) 0
            else plan.leaves n,count / 4⟩) else (.unrepresentable,plan) := by
  obtain ⟨placed,room⟩ := spanAdmitted_iff.mp admitted
  have groups : (count / 4).toNat = count.toNat / 4 := toNat_udiv
  unfold planSpan
  rw [if_neg placed]
  rw [if_neg room,countLoop_checks checkGroup_eq,groups]
  by_cases fits : ∀ i < count.toNat / 4, Empty (group entries i) ∨ Mapped (group entries i) localSegment
  · rw [if_pos fits,if_pos fits]
    have leaves : forRange (fillGroup entries firstGpuVa localSegment) 0 (count.toNat / 4) plan.leaves = fun n =>
        if n < count.toNat / 4 then leafOf (firstGpuVa + BitVec.ofNat 64 n * nativePage) (entries (n * 4)) 0 else plan.leaves n := by
      rw [forRange_fills (fillGroup entries firstGpuVa localSegment) (fun i (leaf : NativeLeaf) => (planGroup (group entries i) localSegment).2
        { leaf with gpuVa := firstGpuVa + BitVec.ofNat 64 i * nativePage }) (fun _ _ => rfl)]
      funext n
      by_cases inside : n < count.toNat / 4
      · rw [if_pos (by omega),if_pos inside]
        rcases fits n inside with empty | mapped
        · rw [planGroup_empty empty]
          rfl
        rw [planGroup_mapped mapped]
        rfl
      rw [if_neg (by omega),if_neg inside]
    rw [leaves]
  rw [if_neg fits,if_neg fits]

theorem plan64KSpan_invalid (refused : ¬SpanAdmitted64K pointers startIndex count firstGpuVa localSegment leafCapacity) :
    plan64KSpan pointers entries startIndex count firstGpuVa localSegment leafCapacity plan = (.invalid,plan) := by
  unfold plan64KSpan
  rw [if_pos]
  by_contra placed
  exact refused (spanAdmitted64K_iff.mpr placed)

theorem plan64KSpan_admitted (admitted : SpanAdmitted64K pointers startIndex count firstGpuVa localSegment leafCapacity) :
    plan64KSpan pointers entries startIndex count firstGpuVa localSegment leafCapacity plan =
      if ∀ i < count.toNat, (entries i).flags = 0 ∨ Mapped64K (entries i) localSegment then
        (if ∃ i < count.toNat, Mapped64K (entries i) localSegment then .ok else .unmap, ⟨fun n => if n < count.toNat * 4 then
              leafOf (firstGpuVa + BitVec.ofNat 64 n * nativePage) (entries (n / 4)) (BitVec.ofNat 64 (n % 4) * nativePage)
            else plan.leaves n,count * 4⟩) else (.unrepresentable,plan) := by
  unfold plan64KSpan
  rw [if_neg (spanAdmitted64K_iff.mp admitted),countLoop_checks check64K_eq]
  by_cases fits : ∀ i < count.toNat, (entries i).flags = 0 ∨ Mapped64K (entries i) localSegment
  · rw [if_pos fits,if_pos fits]
    have leaves := forRange_rows (by decide) (fill64K entries firstGpuVa) (fun i j => leafOf (firstGpuVa + BitVec.ofNat 64 i * 0x10000 +
      BitVec.ofNat 64 j * nativePage) (entries i) (BitVec.ofNat 64 j * nativePage)) (fun _ _ _ => rfl) count.toNat plan.leaves
    rw [leaves]
    refine congrArg (fun leaves => (_,Plan.mk leaves _)) (funext fun n => ?_)
    have place : firstGpuVa + BitVec.ofNat 64 (n / 4) * 0x10000 + BitVec.ofNat 64 (n % 4) * nativePage =
        firstGpuVa + BitVec.ofNat 64 n * nativePage := pages_place firstGpuVa n
    rw [place]
  rw [if_neg fits,if_neg fits]

end

private theorem leafOf_translate {pte : LogicalPte} (known : pte.flags = 0 ∨ pte.flags = valid ∨ pte.flags = valid ||| write) (va offset : U64)
    {place : U64} (inside : place.toNat < 0x4000) : (leafOf va pte offset).translate (va + place) = pte.translate (offset + place) := by
  have page : (place >>> 12).toNat < 4 := by
    rw [toNat_ushiftRight,Nat.shiftRight_eq_div_pow]
    omega
  have all (page : Nat) (below : page < 4) : (15 : U32).getLsbD page = true := by
    obtain rfl | rfl | rfl | rfl : page = 0 ∨ page = 1 ∨ page = 2 ∨ page = 3 := by omega
    all_goals rfl
  unfold NativeLeaf.translate LogicalPte.translate
  rw [show va + place - (leafOf va pte offset).gpuVa = place from by rw [BitVec.add_comm]; exact BitVec.add_sub_cancel _ _]
  rcases known with off | on | on
  · simp [leafOf,off]
  · simp only [leafOf,on]
    rw [if_pos (show (valid : U32) ≠ 0 by decide),if_neg (show ¬(valid &&& write : U32) ≠ 0 by decide),
      if_pos (show (valid : U32) ≠ 0 by decide),if_pos (all _ page)]
    simp [BitVec.add_assoc]
  simp only [leafOf,on]
  rw [if_pos (show (valid ||| write : U32) ≠ 0 by decide),if_pos (show ((valid ||| write) &&& write : U32) ≠ 0 by decide),
    if_pos (show (valid ||| write : U32) ≠ 0 by decide),if_pos (all _ page),all _ page]
  simp [BitVec.add_assoc]

private theorem place_split (firstGpuVa : U64) (place : Nat) :
    firstGpuVa + BitVec.ofNat 64 place = (firstGpuVa + BitVec.ofNat 64 (place / 0x4000) * nativePage) + BitVec.ofNat 64 (place % 0x4000) := by
  have split : BitVec.ofNat 64 place = BitVec.ofNat 64 (place / 0x4000) * nativePage + BitVec.ofNat 64 (place % 0x4000) := by
    rw [show BitVec.ofNat 64 place = BitVec.ofNat 64 (place / 0x4000 * 0x4000 + place % 0x4000) from
      congrArg _ (Nat.div_add_mod' place 0x4000).symm,ofNat_add,ofNat_mul]
    rfl
  rw [split,BitVec.add_assoc]

theorem place_within (place rows : Nat) (width : Nat) :
    BitVec.ofNat 64 (place % (width * rows)) = BitVec.ofNat 64 (place / width % rows) * BitVec.ofNat 64 width + BitVec.ofNat 64 (place % width) := by
  rw [Nat.mod_mul,ofNat_add,ofNat_mul]
  ring

section
variable {pointers : Bool} {startIndex count : U32} {firstGpuVa : U64} {localSegment segmentPageBytes leafCapacity : U32}

theorem span_address (place : Nat) {bytes : Nat} (below : place < bytes) (inSpace : firstGpuVa.toNat + bytes ≤ 2 ^ 39) :
    (firstGpuVa + BitVec.ofNat 64 place).toNat = firstGpuVa.toNat + place := by
  rw [toNat_add,toNat_ofNat,Nat.mod_eq_of_lt (by omega : place < 2 ^ 64)]
  exact Nat.mod_eq_of_lt (by omega)
theorem page_address (n : Nat) {bytes : Nat} (below : n * 0x4000 < bytes) (inSpace : firstGpuVa.toNat + bytes ≤ 2 ^ 39) :
    (firstGpuVa + BitVec.ofNat 64 n * nativePage).toNat = firstGpuVa.toNat + n * 0x4000 := by
  rw [show BitVec.ofNat 64 n * nativePage = BitVec.ofNat 64 (n * 0x4000) from (ofNat_mul ..).symm]
  exact span_address _ below inSpace

variable {entries : Nat → LogicalPte} {plan : Plan}

/-- A plan whose leaves are those of some entries is exact where these say what its own entries say. -/
theorem exact_of_leaves {pageBytes count leafs : Nat} {leafCount : U32} {leaf : Nat → NativeLeaf} {pte : Nat → LogicalPte}
    {offset : Nat → U64} (counts : leafCount.toNat = leafs) (length : leafs * 0x4000 = count * pageBytes)
    (inSpace : firstGpuVa.toNat + count * pageBytes ≤ 2 ^ 39)
    (is : ∀ n < leafs, leaf n = leafOf (firstGpuVa + BitVec.ofNat 64 n * nativePage) (pte n) (offset n))
    (known : ∀ n < leafs, (pte n).flags = 0 ∨ (pte n).flags = valid ∨ (pte n).flags = valid ||| write)
    (tells : ∀ place < count * pageBytes,
      (pte (place / 0x4000)).translate (offset (place / 0x4000) + BitVec.ofNat 64 (place % 0x4000)) =
        (entries (place / pageBytes)).translate (BitVec.ofNat 64 (place % pageBytes)) ∧
      ((entries (place / pageBytes)).flags &&& valid ≠ 0 →
        (pte (place / 0x4000)).flags ≠ 0 ∧ (pte (place / 0x4000)).segmentId = (entries (place / pageBytes)).segmentId)) :
    Exact pageBytes entries count firstGpuVa ⟨leaf,leafCount⟩ := by
  subst counts
  refine ⟨length,fun n below => ?_,fun place below => ⟨firstGpuVa + BitVec.ofNat 64 place,span_address place below inSpace,?_⟩⟩
  · have inside : n < leafCount.toNat := below
    dsimp only
    rw [is n inside]
    exact page_address n (by rw [← length]; omega) inSpace
  have inside : place / 0x4000 < leafCount.toNat := by omega
  have small : (BitVec.ofNat 64 (place % 0x4000)).toNat < 0x4000 := by
    rw [toNat_ofNat]
    omega
  obtain ⟨translates,segment⟩ := tells place below
  dsimp only
  rw [is _ inside,place_split,leafOf_translate (known _ inside) _ _ small]
  refine ⟨translates,fun on => ?_⟩
  rw [← (segment on).2]
  exact if_pos (segment on).1

theorem plans_refused {pageBytes count : Nat} {result : PlanResult} (refused : result ≠ .ok ∧ result ≠ .unmap) :
    Plans pageBytes entries count firstGpuVa plan (result,plan) where
  exact := fun planned => absurd planned (not_or.mpr refused)
  untouched := fun _ => rfl

theorem plans_checked {pageBytes count : Nat} {fits some : Prop} [Decidable fits] [Decidable some] {filled : Plan}
    (exact : fits → Exact pageBytes entries count firstGpuVa filled) : Plans pageBytes entries count firstGpuVa plan
      (if fits then (if some then .ok else .unmap,filled) else (.unrepresentable,plan)) := by
  split
  · rename_i fits
    refine ⟨fun _ => exact fits,fun refused => ?_⟩
    split at refused
    · exact absurd rfl refused.1
    exact absurd rfl refused.2
  exact plans_refused (by decide)

private theorem planSpan_plans : Plans 0x1000 entries count.toNat firstGpuVa plan
    (planSpan pointers entries startIndex count firstGpuVa localSegment segmentPageBytes leafCapacity plan) := by
  classical
  by_cases admitted : SpanAdmitted pointers startIndex count firstGpuVa localSegment segmentPageBytes leafCapacity
  swap
  · rw [planSpan_invalid admitted]
    exact plans_refused (by decide)
  rw [planSpan_admitted admitted]
  have whole := admitted.whole
  have groups : (count / 4).toNat = count.toNat / 4 := toNat_udiv
  refine plans_checked (fun fits => exact_of_leaves groups (by omega) admitted.inSpace (fun n below => if_pos below) ?_ ?_)
  · intro n below
    exact (fits n below).imp (fun empty => empty 0 (by decide)) Mapped.flags
  intro place below
  have page : place / 0x1000 = place / 0x4000 * 4 + place / 0x1000 % 4 := by omega
  have column : place / 0x1000 % 4 < 4 := Nat.mod_lt _ (by decide)
  rcases fits (place / 0x4000) (by omega) with empty | mapped
  · have none : (entries (place / 0x1000)).flags = 0 := by
      rw [page]
      exact empty _ column
    have base : (entries (place / 0x4000 * 4)).flags = 0 := empty 0 (by decide)
    refine ⟨?_,fun some => absurd (by rw [none]; rfl) some⟩
    simp [LogicalPte.translate,none,base]
  obtain ⟨flags,segment,ipa⟩ := mapped.uniform _ column
  change (entries (place / 0x4000 * 4 + _)).flags = (entries (place / 0x4000 * 4)).flags at flags
  change (entries (place / 0x4000 * 4 + _)).segmentId = (entries (place / 0x4000 * 4)).segmentId at segment
  change (entries (place / 0x4000 * 4 + _)).guestIpa = (entries (place / 0x4000 * 4)).guestIpa + _ at ipa
  rw [← page] at flags segment ipa
  refine ⟨?_,fun _ => ⟨mapped_some mapped.flags,segment.symm⟩⟩
  unfold LogicalPte.translate
  rw [flags,ipa,BitVec.add_assoc,place_within place 4 0x1000]
  simp

private theorem plan64KSpan_plans : Plans 0x10000 entries count.toNat firstGpuVa plan
    (plan64KSpan pointers entries startIndex count firstGpuVa localSegment leafCapacity plan) := by
  classical
  by_cases admitted : SpanAdmitted64K pointers startIndex count firstGpuVa localSegment leafCapacity
  swap
  · rw [plan64KSpan_invalid admitted]
    exact plans_refused (by decide)
  rw [plan64KSpan_admitted admitted]
  have inTable := admitted.inTable
  have leafs : (count * 4).toNat = count.toNat * 4 := by bv_omega
  have page (place : Nat) : place / 0x4000 / 4 = place / 0x10000 := Nat.div_div_eq_div_mul ..
  refine plans_checked (fun fits => exact_of_leaves leafs (by omega) admitted.inSpace (fun n below => if_pos below) ?_ ?_)
  · intro n below
    exact (fits (n / 4) (by omega)).imp_right Mapped64K.flags
  intro place below
  rw [page,place_within place 4 0x4000]
  refine ⟨rfl,fun some => ⟨fun none => some ?_,rfl⟩⟩
  rw [none]
  rfl

end

section
attribute [local instance] Classical.propDecidable
variable {entries : Nat → LogicalPte} {localSegment : U32}

/-- An address of 64 KiB that one planner takes whenever the other one does: a multiple of the
    native page is a multiple of 64 KiB. -/
def Settled (address : U64) : Prop := address.toNat % 0x4000 = 0 → address.toNat % 0x10000 = 0

theorem group_expand (n : Nat) {k : Nat} (below : k < 4) : group (expand entries) n k =
      { entries (n / 4) with guestIpa := (entries (n / 4)).guestIpa + BitVec.ofNat 64 (n % 4) * nativePage + BitVec.ofNat 64 k * logicalPage } := by
  have row : (n * 4 + k) / 16 = n / 4 := by omega
  have column : (n * 4 + k) % 16 = n % 4 * 4 + k := by omega
  have place (ipa : U64) : ipa + BitVec.ofNat 64 (n % 4 * 4 + k) * logicalPage =
      ipa + BitVec.ofNat 64 (n % 4) * nativePage + BitVec.ofNat 64 k * logicalPage := by
    rw [ofNat_add,ofNat_mul,show BitVec.ofNat 64 4 = (4 : U64) from rfl]
    ring
  unfold group expand
  rw [row,column,place]

theorem empty_expand (n : Nat) : Empty (group (expand entries) n) ↔ (entries (n / 4)).flags = 0 := by
  constructor
  · intro empty
    have first := empty 0 (by decide)
    rwa [group_expand n (by decide)] at first
  intro none k below
  rw [group_expand n below]
  exact none

private theorem page_of_aligned {ipa : U64} (aligned : ipa.toNat % 0x10000 = 0) (n : Nat) :
    (ipa + BitVec.ofNat 64 (n % 4) * nativePage).toNat = ipa.toNat + n % 4 * 0x4000 := by
  rw [show BitVec.ofNat 64 (n % 4) * nativePage = BitVec.ofNat 64 (n % 4 * 0x4000) from (ofNat_mul ..).symm,
    toNat_add,toNat_ofNat]
  omega

theorem Mapped64K.expand {n : Nat} (mapped : Mapped64K (entries (n / 4)) localSegment) : Mapped (group (expand entries) n) localSegment := by
  have bound := page_of_aligned mapped.aligned n
  have aligned := mapped.aligned
  have first : group (GpuvaG3.expand entries) n 0 =
      { entries (n / 4) with guestIpa := (entries (n / 4)).guestIpa + BitVec.ofNat 64 (n % 4) * nativePage } := by
    rw [group_expand n (by decide)]
    simp
  have some : (entries (n / 4)).guestIpa.toNat ≠ 0 := fun none => mapped.base (toNat_inj.mp none)
  refine ⟨?_,?_,?_,?_,fun k below => ?_⟩
  · rw [first]
    exact mapped.flags
  · rw [first]
    intro zero
    rw [show ((entries (n / 4)).guestIpa + BitVec.ofNat 64 (n % 4) * nativePage).toNat = 0 from congrArg BitVec.toNat zero] at bound
    omega
  · rw [first]
    rw [bound]
    omega
  · rw [first]
    rcases mapped.segment with zero | same
    · rw [zero]
      exact Nat.zero_le _
    rw [same]
    exact Nat.le_refl _
  rw [first,group_expand n below]
  exact ⟨rfl,rfl,rfl⟩

theorem Mapped.of_expand {i : Nat} (mapped : Mapped (group (expand entries) (i * 4)) localSegment)
    (segment : (entries i).segmentId = 0 ∨ (entries i).segmentId = localSegment) (settled : Settled (entries i).guestIpa) :
    Mapped64K (entries i) localSegment := by
  have first : group (expand entries) (i * 4) 0 = entries i := by
    rw [group_expand _ (by decide),show i * 4 / 4 = i by omega,show i * 4 % 4 = 0 by omega]
    simp
  obtain ⟨flags,base,aligned,_,_⟩ := mapped
  rw [first] at flags base aligned
  exact ⟨flags,segment,base,settled aligned⟩

variable {count : U32}

theorem fits_expand (segments : ∀ i < count.toNat, (entries i).segmentId = 0 ∨ (entries i).segmentId = localSegment)
    (settled : ∀ i < count.toNat, (entries i).flags ≠ 0 → Settled (entries i).guestIpa) :
    (∀ n < count.toNat * 4, Empty (group (expand entries) n) ∨ Mapped (group (expand entries) n) localSegment) ↔
      ∀ i < count.toNat, (entries i).flags = 0 ∨ Mapped64K (entries i) localSegment := by
  constructor
  · intro fits i below
    by_cases off : (entries i).flags = 0
    · exact .inl off
    rcases fits (i * 4) (by omega) with empty | mapped
    · rw [empty_expand,show i * 4 / 4 = i by omega] at empty
      exact .inl empty
    exact .inr (mapped.of_expand (segments i below) (settled i below off))
  intro fits n below
  rw [empty_expand]
  exact (fits (n / 4) (by omega)).imp_right Mapped64K.expand

private theorem some_expand (fits : ∀ i < count.toNat, (entries i).flags = 0 ∨ Mapped64K (entries i) localSegment) :
    (∃ n < count.toNat * 4, Mapped (group (expand entries) n) localSegment) ↔ ∃ i < count.toNat, Mapped64K (entries i) localSegment := by
  constructor
  · rintro ⟨n,below,mapped⟩
    refine ⟨n / 4,by omega,(fits (n / 4) (by omega)).resolve_left fun off => ?_⟩
    exact mapped.not_empty ((empty_expand n).mpr off)
  rintro ⟨i,below,mapped⟩
  refine ⟨i * 4,by omega,Mapped64K.expand ?_⟩
  rwa [show i * 4 / 4 = i by omega]

private theorem leafOf_expand (va : U64) (n : Nat) : leafOf va (expand entries (n * 4)) 0 =
    leafOf va (entries (n / 4)) (BitVec.ofNat 64 (n % 4) * nativePage) := by
  have first : expand entries (n * 4) =
      { entries (n / 4) with guestIpa := (entries (n / 4)).guestIpa + BitVec.ofNat 64 (n % 4) * nativePage } := by
    have here : group (expand entries) n 0 = _ := group_expand n (by decide)
    simpa [group] using here
  rw [first]
  unfold leafOf
  rw [show (entries (n / 4)).guestIpa + BitVec.ofNat 64 (n % 4) * nativePage + 0 = _ from BitVec.add_zero _]

end

section
attribute [local instance] Classical.propDecidable
variable {pointers : Bool} {entries : Nat → LogicalPte} {startIndex count : U32} {firstGpuVa : U64}
  {localSegment segmentPageBytes leafCapacity : U32} {plan : Plan}

section
variable (small : startIndex.toNat < 2 ^ 28 ∧ count.toNat < 2 ^ 28)
  (pageBytes : segmentPageBytes = 0x4000 ∨ segmentPageBytes = 0x10000)
include small pageBytes

private theorem admitted_expand (settled : Settled firstGpuVa) :
    SpanAdmitted pointers (startIndex * 16) (count * 16) firstGpuVa localSegment segmentPageBytes leafCapacity ↔
      SpanAdmitted64K pointers startIndex count firstGpuVa localSegment leafCapacity := by
  have counts : (count * 16).toNat = count.toNat * 16 := by bv_omega
  have starts : (startIndex * 16).toNat = startIndex.toNat * 16 := by bv_omega
  have bytes : (count * 16).toNat * 0x1000 = count.toNat * 0x10000 := by
    rw [counts,Nat.mul_assoc]
  constructor
  · rintro ⟨pointers,segment,_,some,_,_,inTable,room,aligned,inSpace⟩
    rw [bytes] at inSpace
    exact ⟨pointers,segment,by omega,by omega,by omega,settled aligned,inSpace⟩
  rintro ⟨pointers,segment,some,inTable,room,aligned,inSpace⟩
  refine ⟨pointers,segment,pageBytes,?_,?_,?_,?_,?_,?_,?_⟩
  · omega
  · omega
  · omega
  · omega
  · rw [counts]
    omega
  · exact Nat.mod_eq_zero_of_dvd ((Dvd.intro 4 rfl : 0x4000 ∣ 0x10000).trans (Nat.dvd_of_mod_eq_zero aligned))
  rw [bytes]
  exact inSpace

/-- The planner of 64 KiB entries does what the other one does with the expanded entries, where
    every multiple of the native page it is given is one of 64 KiB. -/
private theorem plan64KSpan_agrees
    (segments : ∀ i < count.toNat, (entries i).segmentId = 0 ∨ (entries i).segmentId = localSegment) (settledVa : Settled firstGpuVa)
    (settled : ∀ i < count.toNat, (entries i).flags ≠ 0 → Settled (entries i).guestIpa) :
    plan64KSpan pointers entries startIndex count firstGpuVa localSegment leafCapacity plan =
      planSpan pointers (expand entries) (startIndex * 16) (count * 16) firstGpuVa localSegment segmentPageBytes leafCapacity plan := by
  have admittance : SpanAdmitted pointers (startIndex * 16) (count * 16) firstGpuVa localSegment segmentPageBytes leafCapacity ↔
      SpanAdmitted64K pointers startIndex count firstGpuVa localSegment leafCapacity := admitted_expand small pageBytes settledVa
  by_cases admitted : SpanAdmitted64K pointers startIndex count firstGpuVa localSegment leafCapacity
  swap
  · rw [plan64KSpan_invalid admitted,planSpan_invalid (fun other => admitted (admittance.mp other))]
  rw [plan64KSpan_admitted admitted,planSpan_admitted (admittance.mpr admitted)]
  have groups : (count * 16).toNat / 4 = count.toNat * 4 := by bv_omega
  have leafs : count * 16 / 4 = count * 4 := by
    have last : (count * 4).toNat = count.toNat * 4 := by bv_omega
    rw [← toNat_inj,toNat_udiv,last]
    exact groups
  rw [groups,leafs]
  split
  · rename_i fits
    rw [if_pos ((fits_expand segments settled).mpr fits)]
    simp only [leafOf_expand]
    rw [if_congr (some_expand fits) rfl rfl]
  rename_i fits
  rw [if_neg (fun other => fits ((fits_expand segments settled).mp other))]

end

private theorem plan64KSpan_skew (skew : firstGpuVa.toNat % 0x10000 ≠ 0 ∨ ∃ i < count.toNat, (entries i).flags ≠ 0 ∧ (entries i).guestIpa.toNat % 0x10000 ≠ 0) :
    (plan64KSpan pointers entries startIndex count firstGpuVa localSegment leafCapacity plan).1 = .invalid ∨
      (plan64KSpan pointers entries startIndex count firstGpuVa localSegment leafCapacity plan).1 = .unrepresentable := by
  by_cases admitted : SpanAdmitted64K pointers startIndex count firstGpuVa localSegment leafCapacity
  swap
  · rw [plan64KSpan_invalid admitted]
    exact .inl rfl
  rcases skew with start | ⟨i,below,some,skew⟩
  · exact absurd admitted.aligned start
  rw [plan64KSpan_admitted admitted,if_neg]
  · exact .inr rfl
  intro fits
  rcases fits i below with none | mapped
  · exact some none
  exact skew mapped.aligned

end

/-- The plans are exact, and what is refused changes nothing. The planner of 64 KiB entries does
    what the other one does with sixteen entries for each of its own, unless it is given a
    multiple of the native page that is none of 64 KiB: that it refuses. -/
theorem plans_exact_and_agree (pointers : Bool) (entries : Nat → LogicalPte) (startIndex count : U32) (firstGpuVa : U64)
    (localSegment segmentPageBytes leafCapacity : U32) (plan : Plan) : Plans 0x1000 entries count.toNat firstGpuVa plan
      (planSpan pointers entries startIndex count firstGpuVa localSegment segmentPageBytes leafCapacity plan) ∧
    Plans 0x10000 entries count.toNat firstGpuVa plan
      (plan64KSpan pointers entries startIndex count firstGpuVa localSegment leafCapacity plan) ∧
    ((startIndex.toNat < 2 ^ 28 ∧ count.toNat < 2 ^ 28) → (segmentPageBytes = 0x4000 ∨ segmentPageBytes = 0x10000) →
      (∀ i < count.toNat, (entries i).segmentId = 0 ∨ (entries i).segmentId = localSegment) → Settled firstGpuVa →
      (∀ i < count.toNat, (entries i).flags ≠ 0 → Settled (entries i).guestIpa) →
      plan64KSpan pointers entries startIndex count firstGpuVa localSegment leafCapacity plan =
        planSpan pointers (expand entries) (startIndex * 16) (count * 16) firstGpuVa localSegment segmentPageBytes leafCapacity plan) ∧
    ((firstGpuVa.toNat % 0x10000 ≠ 0 ∨ ∃ i < count.toNat, (entries i).flags ≠ 0 ∧ (entries i).guestIpa.toNat % 0x10000 ≠ 0) →
      (plan64KSpan pointers entries startIndex count firstGpuVa localSegment leafCapacity plan).1 = .invalid ∨
        (plan64KSpan pointers entries startIndex count firstGpuVa localSegment leafCapacity plan).1 = .unrepresentable) :=
  ⟨planSpan_plans,plan64KSpan_plans,
    fun small pageBytes segments settledVa settled => plan64KSpan_agrees small pageBytes segments settledVa settled,plan64KSpan_skew⟩

/-- A start at a native page that is none of 64 KiB is refused by one planner only. -/
theorem native_start_differs : ¬∀ (entries : Nat → LogicalPte) (startIndex count : U32) (firstGpuVa : U64)
    (localSegment leafCapacity : U32) (plan : Plan),
    (∀ i < count.toNat, (entries i).segmentId = 0 ∨ (entries i).segmentId = localSegment) →
    (plan64KSpan true entries startIndex count firstGpuVa localSegment leafCapacity plan).1 =
      (planSpan true (expand entries) (startIndex * 16) (count * 16) firstGpuVa localSegment 0x10000 leafCapacity plan).1 := by
  intro agree
  have here := agree (fun _ => ⟨0x10000,0,1⟩) 0 1 0x4000 1 4 ⟨fun _ => ⟨0,0,0,0,0⟩,0⟩ (fun _ _ => .inl rfl)
  revert here
  decide

end WindowsOnM1.GpuvaG3
