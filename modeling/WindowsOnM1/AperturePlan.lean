import Mathlib.Data.BitVec
import WindowsOnM1.ArrayCells
import WindowsOnM1.Stretches

/-!
The plan of an aperture mapping, `AppleAgxAperturePlan64K` of `apple_agx_aperture.c`: a list
of system pages is cut into runs that are contiguous in the aperture and in memory. The
pointers are not NULL, and the counters of the two loops stay below the number of pages.
-/
namespace WindowsOnM1.AperturePlan
open ArrayCells List
open Function hiding iterate_add
open BitVec hiding append_assoc cast not_not not_or
open Stretches

abbrev U32 := BitVec 32
abbrev U64 := BitVec 64

/-- `APPLE_AGX_SYSTEM_PAGE_SIZE`. -/
abbrev systemPageSize : U64 := 0x1000

/-- `APPLE_AGX_UAT_PAGE_SIZE_16K`. -/
abbrev uatPageSize : U64 := 0x4000

/-- `APPLE_AGX_WDDM_PAGE_SIZE_64K`. -/
abbrev wddmPageSize : U64 := 0x10000

/-- `APPLE_AGX_SYSTEM_PAGES_PER_UAT_PAGE`. -/
abbrev pagesPerUatPage : Nat := 4

/-- `APPLE_AGX_SYSTEM_PAGES_PER_WDDM_PAGE`. -/
abbrev pagesPerWddmPage : U32 := 16

/-- `APPLE_AGX_APERTURE_RESULT`. -/
inductive Result
  | ok | invalidArgument | alignment | range | physicalLayout | capacity
deriving DecidableEq

/-- `APPLE_AGX_APERTURE_RUN`. -/
structure Run where
  gpuVirtualAddress : U64
  physicalAddress : U64
  length : U64
deriving DecidableEq

/-- The arguments of `AppleAgxAperturePlan64K` that it reads. -/
structure Request where
  apertureBase : U64
  apertureSize : U64
  rangeOffsetBytes : U64
  systemPageAddresses : Nat → U64
  systemPageCount : U32
  runCapacity : U32

structure Outcome where
  result : Result
  runs : Nat → Run
  runCount : Nat

/-- `AppleAgxApertureAligned`. -/
def aligned (value alignment : U64) : Bool := value &&& (alignment - 1) == 0

/-- `AppleAgxApertureLeafIsContiguous`. -/
def leafIsContiguous (pages : Nat → U64) : Bool :=
  if pages 0 = 0 ∨ aligned (pages 0) uatPageSize = false then false
  else (List.range' 1 (pagesPerUatPage - 1)).all (fun index => pages index == pages 0 + BitVec.ofNat 64 index * systemPageSize)

/-- A leaf starts a run: it is the first one, or does not follow from the leaf before it. -/
def startsRun (runs : Nat) (physical previous : U64) : Bool := runs == 0 || physical != previous + uatPageSize

/-- The first loop of `AppleAgxAperturePlan64K`: the runs that are required, or nothing behind a leaf that is none. -/
def countRuns (pages : Nat → U64) : (turns index required : Nat) → (previous : U64) → Option Nat
  | 0, _, required, _ => some required
  | turns+1, index, required, previous =>
    if leafIsContiguous (fun page => pages (index + page)) = false then none
    else countRuns pages turns (index + pagesPerUatPage)
      (if startsRun required (pages index) previous then required + 1 else required) (pages index)

/-- What a turn of the second loop writes. -/
def writeLeaf (gpu physical : U64) (required : Nat) (previous : U64) (runs : Nat → Run) : Nat × (Nat → Run) :=
  if startsRun required physical previous then (required + 1,Function.update runs required ⟨gpu,physical,uatPageSize⟩)
  else (required,Function.update runs (required - 1) { runs (required - 1) with length := (runs (required - 1)).length + uatPageSize })

/-- The second loop of `AppleAgxAperturePlan64K`. -/
def writeRuns (start : U64) (pages : Nat → U64) : (turns index required : Nat) → (previous : U64) → (Nat → Run) → Nat × (Nat → Run)
  | 0, _, required, _, runs => (required,runs)
  | turns+1, index, required, previous, runs =>
    let (required,runs) :=
      writeLeaf (start + BitVec.ofNat 64 index * systemPageSize) (pages index) required previous runs
    writeRuns start pages turns (index + pagesPerUatPage) required (pages index) runs

def Request.turns (request : Request) : Nat := (request.systemPageCount.toNat + (pagesPerUatPage - 1)) / pagesPerUatPage

/-- `AppleAgxAperturePlan64K`, with the runs as they were before. -/
def aperturePlan64K (request : Request) (before : Nat → Run) : Outcome :=
  let ⟨base,size,offset,pages,count,capacity⟩ := request
  if count = 0 ∨ capacity = 0 ∨ size = 0 then ⟨.invalidArgument,before,0⟩
  else if aligned base wddmPageSize = false ∨ aligned size wddmPageSize = false ∨ aligned offset wddmPageSize = false ∨
      count % pagesPerWddmPage ≠ 0 then ⟨.alignment,before,0⟩
  else if ~~~(0 : U64) / systemPageSize < count.setWidth 64 then ⟨.range,before,0⟩
  else
    let length := count.setWidth 64 * systemPageSize
    if size < offset ∨ size < length ∨ size - length < offset ∨ ~~~(0 : U64) - offset < base ∨
        ~~~(0 : U64) - length < base + offset then ⟨.range,before,0⟩
    else match countRuns pages request.turns 0 0 0 with
      | none => ⟨.physicalLayout,before,0⟩
      | some required =>
        if capacity.toNat < required then ⟨.capacity,before,0⟩
        else
          let (required,runs) := writeRuns (base + offset) pages request.turns 0 0 0 before
          ⟨.ok,runs,required⟩

/-- A page of the aperture and the system page behind it. -/
abbrev Page := U64 × U64
def nextPage (page : Page) : Page := (page.1 + systemPageSize,page.2 + systemPageSize)
def pageMap (start : U64) (pages : Nat → U64) (count : Nat) : List Page :=
  (List.range count).map (fun index => (start + BitVec.ofNat 64 index * systemPageSize,pages index))
def Request.pageMap (request : Request) : List Page :=
  AperturePlan.pageMap (request.apertureBase + request.rangeOffsetBytes) request.systemPageAddresses request.systemPageCount.toNat
def Run.stretch (run : Run) : Page × Nat := ((run.gpuVirtualAddress,run.physicalAddress),run.length.toNat / 0x1000)

/-- The pages that runs map, in their order. -/
def mapped (runs : List Run) : List Page := expand nextPage (runs.map Run.stretch)

/-- Two runs one behind the other that are one. -/
def Merges (run later : Run) : Prop :=
  later.gpuVirtualAddress = run.gpuVirtualAddress + run.length ∧ later.physicalAddress = run.physicalAddress + run.length

/-- The alignment and the range of a request, without wrapping. -/
structure Request.Fits (request : Request) : Prop where
  pages : request.systemPageCount ≠ 0
  capacity : request.runCapacity ≠ 0
  size : request.apertureSize ≠ 0
  baseAligned : request.apertureBase.toNat % 0x10000 = 0
  sizeAligned : request.apertureSize.toNat % 0x10000 = 0
  offsetAligned : request.rangeOffsetBytes.toNat % 0x10000 = 0
  whole : request.systemPageCount.toNat % 16 = 0
  inside : request.rangeOffsetBytes.toNat + request.systemPageCount.toNat * 0x1000 ≤ request.apertureSize.toNat
  below : request.apertureBase.toNat + request.rangeOffsetBytes.toNat + request.systemPageCount.toNat * 0x1000 < 2 ^ 64

/-- Four system pages that are one page of 16 KiB. -/
def Leaf (pages : Nat → U64) (index : Nat) : Prop :=
  pages index ≠ 0 ∧ (pages index).toNat % 0x4000 = 0 ∧
    ∀ page < 4, pages (index + page) = pages index + BitVec.ofNat 64 page * systemPageSize

theorem aligned_iff (value : U64) {alignment : U64} (bits : Nat) (power : (alignment - 1).toNat = 2 ^ bits - 1) :
    aligned value alignment = true ↔ value.toNat % 2 ^ bits = 0 := by
  rw [aligned,beq_iff_eq,← toNat_inj,toNat_and,power,Nat.and_two_pow_sub_one_eq_mod]
  rfl

private theorem leafIsContiguous_iff (pages : Nat → U64) (index : Nat) :
    leafIsContiguous (fun page => pages (index + page)) = true ↔ Leaf pages index := by
  unfold leafIsContiguous
  simp only [Nat.add_zero]
  split
  · rename_i wrong
    refine ⟨nofun,fun leaf => ?_⟩
    rcases wrong with zero | unaligned
    · exact absurd zero leaf.1
    have isAligned := (aligned_iff (pages index) 14 (rfl : (uatPageSize - 1).toNat = 2 ^ 14 - 1)).mpr leaf.2.1
    rw [isAligned] at unaligned
    cases unaligned
  rename_i right
  rw [not_or,Bool.not_eq_false,aligned_iff (pages index) 14 (rfl : (uatPageSize - 1).toNat = 2 ^ 14 - 1)] at right
  rw [all_eq_true]
  simp only [beq_iff_eq]
  have four : pagesPerUatPage = 4 := rfl
  constructor
  · intro follows
    refine ⟨right.1,right.2,fun page below => ?_⟩
    cases page with
    | zero => simp
    | succ page => exact follows (page + 1) (mem_range'_1.mpr (by omega))
  intro leaf page mem
  exact leaf.2.2 page (by have inside := mem_range'_1.mp mem; omega)

theorem fits_iff (request : Request) : request.Fits ↔
    ¬ (request.systemPageCount = 0 ∨ request.runCapacity = 0 ∨ request.apertureSize = 0) ∧
    ¬ (aligned request.apertureBase wddmPageSize = false ∨ aligned request.apertureSize wddmPageSize = false ∨
      aligned request.rangeOffsetBytes wddmPageSize = false ∨ request.systemPageCount % pagesPerWddmPage ≠ 0) ∧
    ¬ (~~~(0 : U64) / systemPageSize < request.systemPageCount.setWidth 64) ∧
    ¬ (request.apertureSize < request.rangeOffsetBytes ∨
      request.apertureSize < request.systemPageCount.setWidth 64 * systemPageSize ∨
      request.apertureSize - request.systemPageCount.setWidth 64 * systemPageSize < request.rangeOffsetBytes ∨
      ~~~(0 : U64) - request.rangeOffsetBytes < request.apertureBase ∨
      ~~~(0 : U64) - request.systemPageCount.setWidth 64 * systemPageSize < request.apertureBase + request.rangeOffsetBytes) := by
  obtain ⟨base,size,offset,pages,count,capacity⟩ := request
  have most : (~~~(0 : U64)).toNat = 2 ^ 64 - 1 := rfl
  have bound : (~~~(0 : U64) / systemPageSize).toNat = 0xfffffffffffff := rfl
  have width : (count.setWidth 64 : U64).toNat = count.toNat := by
    rw [toNat_setWidth,Nat.mod_eq_of_lt (by omega)]
  have length : (count.setWidth 64 * systemPageSize).toNat = count.toNat * 0x1000 := by
    rw [toNat_mul,width,show systemPageSize.toNat = 0x1000 from rfl,Nat.mod_eq_of_lt (by omega)]
  simp only [not_or,not_not,Bool.not_eq_false,aligned_iff _ 16 (rfl : (wddmPageSize - 1).toNat = 2 ^ 16 - 1),
    ← toNat_inj,toNat_umod,lt_def,not_lt,bound,width,length]
  have zero : (0 : U32).toNat = 0 := rfl
  have zero' : (0 : U64).toNat = 0 := rfl
  have sixteen : pagesPerWddmPage.toNat = 16 := rfl
  constructor
  · rintro ⟨pages,capacity,size,baseAligned,sizeAligned,offsetAligned,whole,inside,below⟩
    dsimp only at *
    have sum : (base + offset).toNat = base.toNat + offset.toNat := toNat_add_of_lt (by omega)
    rw [toNat_sub_of_le (le_def.mpr (by omega)),toNat_sub_of_le (le_def.mpr (by omega)),
      toNat_sub_of_le (le_def.mpr (by omega)),sum,length,most]
    refine ⟨⟨fun none => pages (eq_of_toNat_eq none),fun none => capacity (eq_of_toNat_eq none),
      fun none => size (eq_of_toNat_eq none)⟩,⟨baseAligned,sizeAligned,offsetAligned,whole⟩,by omega,?_⟩
    omega
  rintro ⟨⟨pages,capacity,size⟩,⟨baseAligned,sizeAligned,offsetAligned,whole⟩,_,offsetIn,lengthIn,inside,below,below'⟩
  rw [toNat_sub_of_le (le_def.mpr (by omega)),length] at inside
  rw [toNat_sub_of_le (le_def.mpr (by omega)),most] at below
  have sum : (base + offset).toNat = base.toNat + offset.toNat := toNat_add_of_lt (by omega)
  rw [toNat_sub_of_le (le_def.mpr (by omega)),sum,length,most] at below'
  exact ⟨fun none => pages (congrArg BitVec.toNat none),fun none => capacity (congrArg BitVec.toNat none),
    fun none => size (congrArg BitVec.toNat none),
    baseAligned,sizeAligned,offsetAligned,whole,by dsimp only; omega,by dsimp only; omega⟩

private theorem nextPage_iterate (page : Page) (count : Nat) :
    nextPage^[count] page = (page.1 + BitVec.ofNat 64 count * systemPageSize,page.2 + BitVec.ofNat 64 count * systemPageSize) := by
  induction count with
  | zero => simp
  | succ count ih =>
  have step : BitVec.ofNat 64 (count + 1) * systemPageSize = BitVec.ofNat 64 count * systemPageSize + systemPageSize := by
    rw [ofNat_add,BitVec.add_mul]
    rfl
  rw [iterate_succ_apply',ih,nextPage,step,← BitVec.add_assoc,← BitVec.add_assoc]

private theorem pageMap_leaf {start : U64} {pages : Nat → U64} {index : Nat} (leaf : Leaf pages index) :
    pageMap start pages (index + 4) =
      pageMap start pages index ++ List.iterate nextPage (start + BitVec.ofNat 64 index * systemPageSize,pages index) 4 := by
  have split : pageMap start pages (index + 4) = pageMap start pages index ++
      (List.range 4).map (fun page => (start + BitVec.ofNat 64 (index + page) * systemPageSize,pages (index + page))) := by
    unfold pageMap
    rw [range_add,map_append,map_map]
    rfl
  rw [split]
  refine congrArg (pageMap start pages index ++ ·) ?_
  rw [← range_map_iterate]
  refine map_congr_left (fun page mem => ?_)
  rw [nextPage_iterate,leaf.2.2 page (mem_range.mp mem)]
  simp only [ofNat_add,BitVec.add_mul,BitVec.add_assoc]

theorem Run.stretch_first (run : Run) (length : U64) : (Run.stretch { run with length := length }).1 = run.stretch.1 := rfl

private theorem length_pages {length : U64} {leaves : Nat} (whole : length.toNat = leaves * 0x4000) :
    BitVec.ofNat 64 (length.toNat / 0x1000) * systemPageSize = length := by
  apply eq_of_toNat_eq
  rw [toNat_mul,toNat_ofNat,show systemPageSize.toNat = 0x1000 from rfl,Nat.mod_eq_of_lt (by omega),
    Nat.mod_eq_of_lt (by omega)]
  omega

/-- What the second loop has written for the pages before some one. -/
structure Written (start : U64) (pages : Nat → U64) (before : Nat → Run) (index required : Nat) (previous : U64)
    (runs : Nat → Run) : Prop where
  exact : mapped (cells runs required) = pageMap start pages index
  lengths : ∀ i < required, ∃ leaves, 0 < leaves ∧ leaves * 4 ≤ index ∧ (runs i).length.toNat = leaves * 0x4000
  joined : ∀ i, i + 1 < required → (runs (i + 1)).gpuVirtualAddress = (runs i).gpuVirtualAddress + (runs i).length
  apart : ∀ i, i + 1 < required → (runs (i + 1)).physicalAddress ≠ (runs i).physicalAddress + (runs i).length
  last : required ≠ 0 → (runs (required - 1)).physicalAddress + (runs (required - 1)).length = previous + uatPageSize ∧
    (runs (required - 1)).gpuVirtualAddress + (runs (required - 1)).length = start + BitVec.ofNat 64 index * systemPageSize
  none : required = 0 → index = 0
  rest : ∀ i, required ≤ i → runs i = before i

private theorem startsRun_iff {runs : Nat} {physical previous : U64} :
    startsRun runs physical previous = true ↔ runs = 0 ∨ physical ≠ previous + uatPageSize := by
  simp [startsRun]
private theorem next_address (start : U64) (index : Nat) : start + BitVec.ofNat 64 index * systemPageSize + uatPageSize =
    start + BitVec.ofNat 64 (index + 4) * systemPageSize := by
  rw [ofNat_add,BitVec.add_mul,BitVec.add_assoc]
  rfl

variable {start : U64} {pages : Nat → U64} {before runs : Nat → Run} {index required : Nat} {previous : U64}

section
variable (written : Written start pages before index required previous runs) (leaf : Leaf pages index)
include written leaf

theorem Written.push (starts : required = 0 ∨ pages index ≠ previous + uatPageSize) :
    Written start pages before (index + 4) (required + 1) (pages index)
      (Function.update runs required ⟨start + BitVec.ofNat 64 index * systemPageSize,pages index,uatPageSize⟩) := by
  have old : ∀ i, i ≠ required → update runs required
      ⟨start + BitVec.ofNat 64 index * systemPageSize,pages index,uatPageSize⟩ i = runs i :=
    fun i other => update_of_ne other _ _
  refine ⟨?_,fun i below => ?_,fun i below => ?_,fun i below => ?_,fun _ => ?_,nofun,fun i above => ?_⟩
  · rw [cells_push]
    unfold mapped
    have one : (Run.stretch ⟨start + BitVec.ofNat 64 index * systemPageSize,pages index,uatPageSize⟩).2 = 4 := by
      show (0x4000 : U64).toNat / 0x1000 = 4
      decide
    rw [map_append,expand_append,pageMap_leaf leaf,← written.exact]
    simp only [expand,map_cons,map_nil,flatMap_cons,flatMap_nil,append_nil]
    rw [one]
    rfl
  · by_cases here : i = required
    · subst here
      exact ⟨1,by omega,by omega,by rw [update_self]; rfl⟩
    obtain ⟨leaves,positive,few,length⟩ := written.lengths i (by omega)
    rw [old i here]
    exact ⟨leaves,positive,by omega,length⟩
  · rw [old i (by omega)]
    by_cases here : i + 1 = required
    · obtain ⟨_,gpu⟩ := written.last (by omega)
      rw [show required - 1 = i by omega] at gpu
      rw [here,update_self,gpu]
    rw [old (i + 1) here]
    exact written.joined i (by omega)
  · rw [old i (by omega)]
    by_cases here : i + 1 = required
    · obtain ⟨physical,_⟩ := written.last (by omega)
      rw [show required - 1 = i by omega] at physical
      rw [here,update_self,physical]
      exact starts.resolve_left (by omega)
    rw [old (i + 1) here]
    exact written.apart i (by omega)
  · rw [Nat.add_sub_cancel,update_self]
    exact ⟨rfl,next_address start index⟩
  rw [old i (by omega)]
  exact written.rest i (by omega)

theorem Written.extend
    (few : index + 4 ≤ 2 ^ 32) (some : required ≠ 0) (follows : pages index = previous + uatPageSize) :
    Written start pages before (index + 4) required (pages index) (Function.update runs (required - 1)
      { runs (required - 1) with length := (runs (required - 1)).length + uatPageSize }) := by
  obtain ⟨physical,gpu⟩ := written.last some
  obtain ⟨leaves,positive,within,whole⟩ := written.lengths (required - 1) (by omega)
  have longer : ((runs (required - 1)).length + uatPageSize).toNat = (leaves + 1) * 0x4000 := by
    have size : uatPageSize.toNat = 0x4000 := rfl
    rw [toNat_add_of_lt (by omega),whole,size]
    omega
  have old : ∀ i, i ≠ required - 1 → update runs (required - 1)
      { runs (required - 1) with length := (runs (required - 1)).length + uatPageSize } i = runs i :=
    fun i other => update_of_ne other _ _
  obtain ⟨less,isRequired⟩ : ∃ less, required = less + 1 := ⟨required - 1,by omega⟩
  subst isRequired
  rw [Nat.add_sub_cancel] at *
  refine ⟨?_,fun i below => ?_,fun i below => ?_,fun i below => ?_,fun _ => ?_,fun bad => absurd bad some,
    fun i above => ?_⟩
  · have exact := written.exact
    rw [cells_succ] at exact
    rw [cells_push,pageMap_leaf leaf,← exact]
    unfold mapped
    rw [map_append,map_append,expand_append,expand_append,append_assoc]
    refine congrArg (expand nextPage ((cells runs less).map Run.stretch) ++ ·) ?_
    have count : (Run.stretch { runs less with length := (runs less).length + uatPageSize }).2 = (Run.stretch (runs less)).2 + 4 := by
      unfold Run.stretch
      rw [longer,whole]
      omega
    have ends : nextPage^[(Run.stretch (runs less)).2] (Run.stretch (runs less)).1 =
        (start + BitVec.ofNat 64 index * systemPageSize,pages index) := by
      rw [nextPage_iterate]
      unfold Run.stretch
      rw [length_pages whole,gpu,physical,follows]
    simp only [expand,map_cons,map_nil,flatMap_cons,flatMap_nil,append_nil]
    rw [count,Run.stretch_first,iterate_add,ends]
  · by_cases here : i = less
    · subst here
      rw [update_self]
      exact ⟨leaves + 1,by omega,by omega,longer⟩
    obtain ⟨leaves',positive',few',length'⟩ := written.lengths i below
    rw [old i here]
    exact ⟨leaves',positive',by omega,length'⟩
  · rw [old i (by omega)]
    by_cases here : i + 1 = less
    · have joined := written.joined i below
      rw [here] at joined ⊢
      rw [update_self]
      exact joined
    rw [old (i + 1) here]
    exact written.joined i below
  · rw [old i (by omega)]
    by_cases here : i + 1 = less
    · have apart := written.apart i below
      rw [here] at apart ⊢
      rw [update_self]
      exact apart
    rw [old (i + 1) here]
    exact written.apart i below
  · rw [Nat.add_sub_cancel,update_self]
    refine ⟨?_,?_⟩
    · rw [← BitVec.add_assoc,physical,follows]
    rw [← BitVec.add_assoc,gpu,next_address]
  rw [old i (by omega)]
  exact written.rest i above

theorem Written.turn (few : index + 4 ≤ 2 ^ 32) : Written start pages before (index + 4)
      (writeLeaf (start + BitVec.ofNat 64 index * systemPageSize) (pages index) required previous runs).1 (pages index)
      (writeLeaf (start + BitVec.ofNat 64 index * systemPageSize) (pages index) required previous runs).2 := by
  unfold writeLeaf
  split
  · rename_i starts
    exact written.push leaf (startsRun_iff.mp starts)
  rename_i starts
  rw [startsRun_iff,not_or,not_not] at starts
  exact written.extend leaf few starts.1 starts.2

end

private theorem writeRuns_written (turns : Nat) (written : Written start pages before index required previous runs)
    (leaves : ∀ turn < turns, Leaf pages (index + 4 * turn)) (few : index + 4 * turns ≤ 2 ^ 32) :
    ∃ previous', Written start pages before (index + 4 * turns) (writeRuns start pages turns index required previous runs).1
      previous' (writeRuns start pages turns index required previous runs).2 := by
  induction turns generalizing index required previous runs with
  | zero => exact ⟨previous,written⟩
  | succ turns ih =>
  have here := written.turn (leaves 0 (by omega)) (by omega)
  have rest := ih here (fun turn below => by
    have later := leaves (turn + 1) (by omega)
    rwa [show index + 4 * (turn + 1) = index + 4 + 4 * turn by omega] at later) (by omega)
  rw [show index + 4 * (turns + 1) = index + 4 + 4 * turns by omega]
  exact rest

/-- Both loops count the same runs, and the first one stops at the first four pages that are no leaf. -/
private theorem countRuns_eq (turns index required : Nat) (previous : U64) (runs : Nat → Run) :
    ((∀ turn < turns, Leaf pages (index + 4 * turn)) →
      countRuns pages turns index required previous = some (writeRuns start pages turns index required previous runs).1) ∧
    ((¬ ∀ turn < turns, Leaf pages (index + 4 * turn)) → countRuns pages turns index required previous = none) := by
  induction turns generalizing index required previous runs with
  | zero => exact ⟨fun _ => rfl,fun some => absurd (fun turn below => absurd below (Nat.not_lt_zero turn)) some⟩
  | succ turns ih =>
  have split : (∀ turn < turns + 1, Leaf pages (index + 4 * turn)) ↔
      Leaf pages index ∧ ∀ turn < turns, Leaf pages (index + 4 + 4 * turn) := by
    constructor
    · intro all
      refine ⟨all 0 (by omega),fun turn below => ?_⟩
      have later := all (turn + 1) (by omega)
      rwa [show index + 4 * (turn + 1) = index + 4 + 4 * turn by omega] at later
    rintro ⟨here,rest⟩ turn below
    cases turn with
    | zero => exact here
    | succ turn =>
    rw [show index + 4 * (turn + 1) = index + 4 + 4 * turn by omega]
    exact rest turn (by omega)
  rw [split]
  unfold countRuns
  by_cases here : Leaf pages index
  · rw [if_neg (by rw [(leafIsContiguous_iff pages index).mpr here]; decide)]
    have counts : (if startsRun required (pages index) previous then required + 1 else required) =
        (writeLeaf (start + BitVec.ofNat 64 index * systemPageSize) (pages index) required previous runs).1 := by
      unfold writeLeaf
      split <;> rfl
    rw [counts]
    have rest := ih (index + 4)
      (writeLeaf (start + BitVec.ofNat 64 index * systemPageSize) (pages index) required previous runs).1 (pages index)
      (writeLeaf (start + BitVec.ofNat 64 index * systemPageSize) (pages index) required previous runs).2
    exact ⟨fun all => rest.1 all.2,fun some => rest.2 (fun all => some ⟨here,all⟩)⟩
  rw [if_pos (Bool.not_eq_true _ ▸ fun is => here ((leafIsContiguous_iff pages index).mp is))]
  exact ⟨fun all => absurd all.1 here,fun _ => rfl⟩

private theorem written_none (start : U64) (pages : Nat → U64) (before : Nat → Run) : Written start pages before 0 0 0 before where
  exact := rfl
  lengths := fun _ bad => absurd bad (Nat.not_lt_zero _)
  joined := fun _ bad => absurd bad (Nat.not_lt_zero _)
  apart := fun _ bad => absurd bad (Nat.not_lt_zero _)
  last := fun bad => absurd rfl bad
  none := fun _ => rfl
  rest := fun _ _ => rfl

theorem Written.separate (written : Written start pages before index required previous runs) :
    Separate nextPage ((cells runs required).map Run.stretch) := by
  constructor
  · intro stretch mem
    obtain ⟨run,mem',rfl⟩ := mem_map.mp mem
    obtain ⟨i,below,rfl⟩ := mem_cells.mp mem'
    obtain ⟨leaves,positive,_,whole⟩ := written.lengths i below
    show 0 < (runs i).length.toNat / 0x1000
    omega
  rw [isChain_iff_getElem]
  intro i below
  rw [length_map,cells_length] at below
  obtain ⟨leaves,_,_,whole⟩ := written.lengths i (by omega)
  simp only [getElem_map,cells,getElem_range]
  intro follows
  rw [nextPage_iterate] at follows
  have physical : (runs (i + 1)).physicalAddress =
      (runs i).physicalAddress + BitVec.ofNat 64 ((runs i).length.toNat / 0x1000) * systemPageSize := congrArg Prod.snd follows
  rw [length_pages whole] at physical
  exact written.apart i below physical

/-- How many runs a request needs: one more than there are breaks in what it maps. -/
def Request.runsNeeded (request : Request) : Nat := breaks nextPage request.pageMap + 1

/-- What the runs of a successful plan are. -/
structure Planned (request : Request) (before : Nat → Run) (outcome : Outcome) : Prop where
  exact : mapped (cells outcome.runs outcome.runCount) = request.pageMap
  whole : ∀ i < outcome.runCount, 0 < (outcome.runs i).length.toNat ∧ (outcome.runs i).length.toNat % 0x4000 = 0
  joined : ∀ i, i + 1 < outcome.runCount →
    (outcome.runs (i + 1)).gpuVirtualAddress = (outcome.runs i).gpuVirtualAddress + (outcome.runs i).length
  apart : ∀ i, i + 1 < outcome.runCount → ¬ Merges (outcome.runs i) (outcome.runs (i + 1))
  counted : countRuns request.systemPageAddresses request.turns 0 0 0 = some outcome.runCount
  fewest : ∀ other : List Run, mapped other = request.pageMap → outcome.runCount ≤ other.length
  rest : ∀ i, outcome.runCount ≤ i → outcome.runs i = before i

theorem Request.turns_eq {request : Request} (whole : request.systemPageCount.toNat % 16 = 0) :
    4 * request.turns = request.systemPageCount.toNat := by
  unfold Request.turns
  rw [show pagesPerUatPage = 4 from rfl]
  omega

private theorem written_planned {request : Request} {before : Nat → Run} (fits : request.Fits)
    (leaves : ∀ leaf < request.turns, Leaf request.systemPageAddresses (4 * leaf)) :
    ∃ runs runCount, writeRuns (request.apertureBase + request.rangeOffsetBytes) request.systemPageAddresses request.turns 0 0 0
        before = (runCount,runs) ∧
      countRuns request.systemPageAddresses request.turns 0 0 0 = some runCount ∧ runCount = request.runsNeeded ∧
      Planned request before ⟨.ok,runs,runCount⟩ := by
  have whole := fits.whole
  have turns := Request.turns_eq whole
  have each : ∀ turn < request.turns, Leaf request.systemPageAddresses (0 + 4 * turn) :=
    fun turn below => by rw [Nat.zero_add]; exact leaves turn below
  obtain ⟨previous,written⟩ := writeRuns_written request.turns
    (written_none (request.apertureBase + request.rangeOffsetBytes) request.systemPageAddresses before) each (by omega)
  have counted := (@countRuns_eq (request.apertureBase + request.rangeOffsetBytes) request.systemPageAddresses request.turns
    0 0 0 before).1 each
  rw [Nat.zero_add,turns] at written
  generalize writeRuns (request.apertureBase + request.rangeOffsetBytes) request.systemPageAddresses request.turns 0 0 0
    before = result at written counted ⊢
  obtain ⟨runCount,runs⟩ := result
  dsimp only at written counted
  have some : runCount ≠ 0 := by
    intro none
    have empty := written.none none
    exact fits.pages (eq_of_toNat_eq empty)
  have exact : expand nextPage ((cells runs runCount).map Run.stretch) = request.pageMap := written.exact
  have needed : runCount = request.runsNeeded := by
    have length := written.separate.length (by
      rw [ne_eq,map_eq_nil_iff]
      intro none
      have length := congrArg List.length none
      rw [cells_length] at length
      exact some length)
    rw [exact,length_map,cells_length] at length
    exact length.symm
  refine ⟨runs,runCount,rfl,counted,needed,written.exact,fun i below => ?_,written.joined,
    fun i below merges => written.apart i below merges.2,counted,fun other covers => ?_,written.rest⟩
  · obtain ⟨leaves,positive,_,length⟩ := written.lengths i below
    dsimp only
    omega
  have least := @breaks_lt_length _ _ nextPage (other.map Run.stretch) (by
    intro none
    rw [mapped,none] at covers
    have length := congrArg List.length covers
    simp [Request.pageMap,pageMap] at length
    exact fits.pages (eq_of_toNat_eq length.symm))
  rw [length_map] at least
  unfold mapped at covers
  rw [covers] at least
  rw [needed]
  exact least

/-- **The aperture plan is exact and minimal.** A plan succeeds exactly when the request fits, every four pages are a
    leaf and the runs it needs have room; its runs map each page of the request in order, and no fewer runs do. A plan
    that fails writes nothing. -/
theorem aperture_plan_exact (request : Request) (before : Nat → Run) :
    ((aperturePlan64K request before).result = .ok ↔ request.Fits ∧
      (∀ leaf < request.systemPageCount.toNat / 4, Leaf request.systemPageAddresses (4 * leaf)) ∧
      request.runsNeeded ≤ request.runCapacity.toNat) ∧
    ((aperturePlan64K request before).result = .ok → Planned request before (aperturePlan64K request before)) ∧
    ((aperturePlan64K request before).result ≠ .ok →
      (aperturePlan64K request before).runCount = 0 ∧ (aperturePlan64K request before).runs = before) := by
  by_cases fits : request.Fits
  swap
  · have refused : ∃ result, result ≠ .ok ∧ aperturePlan64K request before = ⟨result,before,0⟩ := by
      by_contra succeeds
      refine fits ((fits_iff request).mpr ⟨?_,?_,?_,?_⟩)
      all_goals
        intro wrong
        refine succeeds ?_
        unfold aperturePlan64K
        dsimp only
      · exact ⟨.invalidArgument,by decide,if_pos wrong⟩
      · split
        · exact ⟨.invalidArgument,by decide,rfl⟩
        · exact ⟨.alignment,by decide,rfl⟩
      · split
        · exact ⟨.invalidArgument,by decide,rfl⟩
        split
        · exact ⟨.alignment,by decide,rfl⟩
        · exact ⟨.range,by decide,rfl⟩
      split
      · exact ⟨.invalidArgument,by decide,rfl⟩
      split
      · exact ⟨.alignment,by decide,rfl⟩
      split
      all_goals exact ⟨.range,by decide,rfl⟩
    obtain ⟨result,fails,isOutcome⟩ := refused
    rw [isOutcome]
    exact ⟨⟨fun bad => absurd bad fails,fun all => absurd all.1 fits⟩,fun bad => absurd bad fails,
      fun _ => ⟨rfl,rfl⟩⟩
  have whole := fits.whole
  have turns : request.turns = request.systemPageCount.toNat / 4 := by
    have turns := Request.turns_eq whole
    omega
  have passes : aperturePlan64K request before = match countRuns request.systemPageAddresses request.turns 0 0 0 with
      | none => ⟨.physicalLayout,before,0⟩
      | some required =>
        if request.runCapacity.toNat < required then ⟨.capacity,before,0⟩
        else
          let (required,runs) := writeRuns (request.apertureBase + request.rangeOffsetBytes) request.systemPageAddresses
            request.turns 0 0 0 before
          ⟨.ok,runs,required⟩ := by
    obtain ⟨arguments,alignment,bound,range⟩ := (fits_iff request).mp fits
    unfold aperturePlan64K
    dsimp only
    rw [if_neg arguments,if_neg alignment,if_neg bound,if_neg range]
  by_cases leaves : ∀ leaf < request.turns, Leaf request.systemPageAddresses (4 * leaf)
  swap
  · have none := (@countRuns_eq 0 request.systemPageAddresses request.turns 0 0 0 before).2
      (by simpa only [Nat.zero_add] using leaves)
    rw [passes,none]
    dsimp only
    rw [← turns]
    exact ⟨⟨nofun,fun all => absurd all.2.1 leaves⟩,nofun,
      fun _ => ⟨rfl,rfl⟩⟩
  obtain ⟨runs,runCount,writes,counts,needed,planned⟩ := @written_planned request before fits leaves
  rw [passes,counts,writes]
  dsimp only
  split
  · rename_i room
    exact ⟨⟨nofun,fun all => absurd all.2.2 (by omega)⟩,nofun,
      fun _ => ⟨rfl,rfl⟩⟩
  · rw [← turns]
    exact ⟨⟨fun _ => ⟨fits,leaves,by omega⟩,fun _ => rfl⟩,fun _ => planned,fun bad => absurd rfl bad⟩

end WindowsOnM1.AperturePlan
