import Mathlib.Tactic.Ring
import Mathlib.Algebra.BigOperators.Group.List.Basic
import WindowsOnM1.PresentModel

/-!
The blit copies exactly the pixels of its rectangles. The snapshot holds the rows of the
source one behind the other; every row that is written holds what the source had before, so
that the order of the rectangles and their overlaps do not matter.
-/
namespace WindowsOnM1.PresentBlit
open ByteMemory CountedLoop PresentModel List
open BitVec hiding not_not not_or

theorem wide_toNat (value : U32) : (wide value).toNat = value.toNat := by
  rw [wide,toNat_setWidth]
  omega
private theorem low_bits : ∀ i < 64, (15 : U64).getLsbD i = decide (i < 4) := by decide

private theorem align_eq (x : U64) : x &&& ~~~(15 : U64) = (x >>> 4) <<< 4 := by
  refine eq_of_getLsbD_eq (fun i h => ?_)
  simp only [getLsbD_and,getLsbD_not,low_bits i h,getLsbD_shiftLeft,getLsbD_ushiftRight,h,decide_true,Bool.true_and]
  by_cases small : i < 4
  · simp [small]
  simp [small]
  congr 1
  omega

theorem align_toNat (x : U64) : (x &&& ~~~(15 : U64)).toNat = x.toNat / 16 * 16 := by
  rw [align_eq,toNat_shiftLeft,toNat_ushiftRight,Nat.shiftRight_eq_div_pow,Nat.shiftLeft_eq]
  omega

theorem wide_mul_add {a b c : U32} (small : a.toNat * b.toNat + c.toNat * 4 < 2 ^ 64) :
    (wide a * wide b + wide c * 4).toNat = a.toNat * b.toNat + c.toNat * 4 := by
  rw [toNat_add,toNat_mul,toNat_mul,wide_toNat,wide_toNat,wide_toNat,show (4 : U64).toNat = 4 from rfl]
  rw [Nat.mod_eq_of_lt (by omega : a.toNat * b.toNat < 2 ^ 64),Nat.mod_eq_of_lt (by omega : c.toNat * 4 < 2 ^ 64),
    Nat.mod_eq_of_lt small]

theorem row_unique {pitch y y' a a' : Nat} (inside : a < pitch) (inside' : a' < pitch) (same : y * pitch + a = y' * pitch + a') :
    y = y' ∧ a = a' := by
  have rows := congrArg (fun i => i / pitch) same
  simp only [Nat.mul_comm _ pitch,Nat.mul_add_div (by omega : 0 < pitch),Nat.div_eq_of_lt inside,Nat.div_eq_of_lt inside',
    Nat.add_zero] at rows
  subst rows
  exact ⟨rfl,by omega⟩

/-- A description whose rows hold words of its width and whose size holds all rows. -/
structure Fits (description : AllocationDescription) : Prop where
  row : description.width.toNat * 4 ≤ description.pitch.toNat
  words : description.pitch.toNat % 4 = 0
  size : description.pitch.toNat * description.height.toNat ≤ description.size.toNat

theorem fits_of_valid {description : AllocationDescription} (valid : allocationDescriptionValid description = true)
    (four : description.bytesPerPixel = 4) : Fits description := by
  unfold allocationDescriptionValid at valid
  split_ifs at valid
  split at valid
  · cases valid
  rename_i expected described
  unfold allocationDescribe at described
  dsimp only at described
  split_ifs at described with _ wideRow wideSize
  cases described
  simp only [Bool.and_eq_true,decide_eq_true_eq,beq_iff_eq] at valid
  obtain ⟨⟨pitch,aligned⟩,size⟩ := valid
  have row : (wide description.width * wide description.bytesPerPixel).toNat = description.width.toNat * 4 := by
    rw [four,toNat_mul,wide_toNat,wide_toNat,show (4 : U32).toNat = 4 from rfl]
    omega
  refine ⟨?_,?_,?_⟩
  · rw [le_def,toNat_setWidth,align_toNat,toNat_add,row,show (15 : U64).toNat = 15 from rfl] at pitch
    have fitting := BitVec.not_lt.mp (not_or.mp wideSize).1
    rw [le_def,align_toNat,toNat_add,row,show (15 : U64).toNat = 15 from rfl,
      show maxU32.toNat = 2 ^ 32 - 1 from rfl] at fitting
    omega
  · have low := congrArg BitVec.toNat aligned
    rw [toNat_and,show (15 : U32).toNat = 2 ^ 4 - 1 from rfl,Nat.and_two_pow_sub_one_eq_mod] at low
    simp at low
    omega
  rw [le_def,toNat_mul,wide_toNat,wide_toNat] at size
  have bound : description.pitch.toNat * description.height.toNat < 2 ^ 64 :=
    calc description.pitch.toNat * description.height.toNat ≤ (2 ^ 32 - 1) * (2 ^ 32 - 1) :=
          Nat.mul_le_mul (Nat.le_sub_one_of_lt description.pitch.isLt) (Nat.le_sub_one_of_lt description.height.isLt)
      _ < 2 ^ 64 := by decide
  rwa [Nat.mod_eq_of_lt bound] at size

def rectWidth (rect : GdiRect) : Nat := rect.right.toNat - rect.left.toNat
def rectHeight (rect : GdiRect) : Nat := rect.bottom.toNat - rect.top.toNat

/-- One rectangle inside another, and not empty. -/
structure Within (outer inner : GdiRect) : Prop where
  left : outer.left.toNat ≤ inner.left.toNat
  top : outer.top.toNat ≤ inner.top.toNat
  right : inner.right.toNat ≤ outer.right.toNat
  bottom : inner.bottom.toNat ≤ outer.bottom.toNat
  wide : inner.left.toNat < inner.right.toNat
  high : inner.top.toNat < inner.bottom.toNat

theorem within_of_contains {outer inner : GdiRect} (contains : rectContains outer inner = true) : Within outer inner := by
  simp only [rectContains,rectValid,Bool.and_eq_true,decide_eq_true_eq,le_def,lt_def] at contains
  obtain ⟨⟨⟨⟨⟨wide,high⟩,left⟩,top⟩,right⟩,bottom⟩ := contains
  exact ⟨left,top,right,bottom,wide,high⟩

/-- What a valid geometry says about the numbers. -/
structure Geometry (command : PresentBltCommand) : Prop where
  source : Fits command.sourceDescription
  destination : Fits command.destinationDescription
  sourceWide : command.sourceRect.left.toNat < command.sourceRect.right.toNat
  sourceHigh : command.sourceRect.top.toNat < command.sourceRect.bottom.toNat
  sourceRight : command.sourceRect.right.toNat ≤ command.sourceDescription.width.toNat
  sourceBottom : command.sourceRect.bottom.toNat ≤ command.sourceDescription.height.toNat
  destinationRight : command.destinationRect.right.toNat ≤ command.destinationDescription.width.toNat
  destinationBottom : command.destinationRect.bottom.toNat ≤ command.destinationDescription.height.toNat
  width : rectWidth command.destinationRect = rectWidth command.sourceRect
  height : rectHeight command.destinationRect = rectHeight command.sourceRect

theorem sub_toNat {a b : U32} (le : b.toNat ≤ a.toNat) : (a - b).toNat = a.toNat - b.toNat := by
  bv_omega

theorem geometry_of_valid {command : PresentBltCommand} (valid : geometryValid command = true) : Geometry command := by
  simp only [geometryValid,rectValid,Bool.and_eq_true,decide_eq_true_eq,le_def,lt_def,beq_iff_eq,bne_iff_ne] at valid
  obtain ⟨⟨⟨⟨⟨⟨⟨⟨⟨⟨⟨⟨⟨⟨source,destination⟩,sourceFour⟩,destinationFour⟩,_⟩,_⟩,_⟩,sourceWide,sourceHigh⟩,destinationWide,
    destinationHigh⟩,sourceRight⟩,sourceBottom⟩,destinationRight⟩,destinationBottom⟩,width⟩,height⟩ := valid
  refine ⟨fits_of_valid source sourceFour,fits_of_valid destination destinationFour,sourceWide,sourceHigh,sourceRight,
    sourceBottom,destinationRight,destinationBottom,?_,?_⟩
  · have same := congrArg BitVec.toNat width
    rw [sub_toNat sourceWide.le,sub_toNat destinationWide.le] at same
    exact same.symm
  have same := congrArg BitVec.toNat height
  rw [sub_toNat sourceHigh.le,sub_toNat destinationHigh.le] at same
  exact same.symm

variable {command : PresentBltCommand}

theorem row_toNat (geometry : Geometry command) : ((command.sourceRect.right - command.sourceRect.left) * 4 : U32).toNat =
    rectWidth command.sourceRect * 4 := by
  have wide := geometry.sourceWide
  have right := geometry.sourceRight
  have pitch := geometry.source.row
  rw [toNat_mul,sub_toNat wide.le,rectWidth,show (4 : U32).toNat = 4 from rfl]
  omega

theorem needed_toNat (geometry : Geometry command) {needed : U32} (scratch : presentBltScratchBytes command = some needed) :
    needed.toNat = rectHeight command.sourceRect * (rectWidth command.sourceRect * 4) := by
  have wide := geometry.sourceWide
  have high := geometry.sourceHigh
  have right := geometry.sourceRight
  have pitch := geometry.source.row
  unfold presentBltScratchBytes at scratch
  dsimp only at scratch
  split_ifs at scratch with _ large
  cases scratch
  have narrow : rectWidth command.sourceRect * 4 ≤ 2 ^ 32 - 1 := by
    rw [rectWidth]
    omega
  have low : rectHeight command.sourceRect ≤ 2 ^ 32 - 1 := by
    have := command.sourceRect.bottom.isLt
    rw [rectHeight]
    omega
  have area : rectHeight command.sourceRect * (rectWidth command.sourceRect * 4) < 2 ^ 64 :=
    calc rectHeight command.sourceRect * (rectWidth command.sourceRect * 4) ≤ (2 ^ 32 - 1) * (2 ^ 32 - 1) :=
          Nat.mul_le_mul low narrow
      _ < 2 ^ 64 := by decide
  have size : (PresentModel.wide (command.sourceRect.right - command.sourceRect.left) *
      PresentModel.wide (command.sourceRect.bottom - command.sourceRect.top) * 4 : U64).toNat =
      rectHeight command.sourceRect * (rectWidth command.sourceRect * 4) := by
    have order : rectWidth command.sourceRect * rectHeight command.sourceRect * 4 =
        rectHeight command.sourceRect * (rectWidth command.sourceRect * 4) := by ring
    rw [toNat_mul,toNat_mul,wide_toNat,wide_toNat,sub_toNat wide.le,sub_toNat high.le,
      show (4 : U64).toNat = 4 from rfl,← rectWidth,← rectHeight,Nat.mod_eq_of_lt (by omega :
        rectWidth command.sourceRect * rectHeight command.sourceRect < 2 ^ 64),order,Nat.mod_eq_of_lt area]
  have fitting := BitVec.not_lt.mp (not_or.mp large).2
  rw [le_def,size,show maxU32.toNat = 2 ^ 32 - 1 from rfl] at fitting
  rw [toNat_setWidth,size]
  omega

theorem scratch_enough (geometry : Geometry command) {needed : U32} (needs : presentBltScratchBytes command = some needed)
    (fits : ¬ scratchBytes < needed) : rectHeight command.sourceRect * (rectWidth command.sourceRect * 4) ≤ scratchBytes.toNat := by
  rw [← needed_toNat geometry needs]
  exact le_def.mp (BitVec.not_lt.mp fits)

theorem Geometry.rows (geometry : Geometry command) :
    (command.sourceRect.bottom - command.sourceRect.top).toNat = rectHeight command.sourceRect := sub_toNat geometry.sourceHigh.le

theorem span_inside {description : AllocationDescription} (fits : Fits description) {row : Nat} (left width : Nat)
    (below : row < description.height.toNat) (right : left + width ≤ description.width.toNat) :
    row * description.pitch.toNat + left * 4 + width * 4 ≤ description.size.toNat := by
  have inRow : left * 4 + width * 4 ≤ description.pitch.toNat := by
    have := fits.row
    omega
  calc row * description.pitch.toNat + left * 4 + width * 4 ≤ row * description.pitch.toNat + description.pitch.toNat := by omega
    _ = description.pitch.toNat * (row + 1) := by ring
    _ ≤ description.pitch.toNat * description.height.toNat := Nat.mul_le_mul_left _ below
    _ ≤ description.size.toNat := fits.size

theorem scratch_inside {row : Nat} (left width : Nat) (below : row < rectHeight command.sourceRect)
    (right : left + width ≤ rectWidth command.sourceRect) :
    row * (rectWidth command.sourceRect * 4) + left * 4 + width * 4 ≤
      rectHeight command.sourceRect * (rectWidth command.sourceRect * 4) :=
  calc row * (rectWidth command.sourceRect * 4) + left * 4 + width * 4 ≤
        row * (rectWidth command.sourceRect * 4) + rectWidth command.sourceRect * 4 := by omega
    _ = (row + 1) * (rectWidth command.sourceRect * 4) := by ring
    _ ≤ rectHeight command.sourceRect * (rectWidth command.sourceRect * 4) := Nat.mul_le_mul_right _ below

/-- An access inside the surface and inside the scratch buffer. -/
def Inside (command : PresentBltCommand) (scratchBytes : U32) : Access → Prop
  | .read offset scratch count => offset.toNat + count.toNat ≤ command.sourceDescription.size.toNat ∧
      scratch + count.toNat ≤ scratchBytes.toNat
  | .write offset scratch count => offset.toNat + count.toNat ≤ command.destinationDescription.size.toNat ∧
      scratch + count.toNat ≤ scratchBytes.toNat

def Bounded (command : PresentBltCommand) (scratchBytes : U32) (state : BltState) : Prop :=
  ∀ access ∈ state.accesses, Inside command scratchBytes access

/-- The byte of the source at a pixel of the source rectangle. -/
def sourceByte (command : PresentBltCommand) (source : Memory) (x y k : Nat) : Byte :=
  source ((command.sourceRect.top.toNat + y) * command.sourceDescription.pitch.toNat +
    (command.sourceRect.left.toNat + x) * 4 + k)

/-- A scratch buffer with the first rows of the source rectangle. -/
def Holds (command : PresentBltCommand) (source : Memory) (rows : Nat) (scratch : Memory) : Prop :=
  ∀ y < rows, ∀ x < rectWidth command.sourceRect, ∀ k < 4,
    scratch (y * (rectWidth command.sourceRect * 4) + x * 4 + k) = sourceByte command source x y k

/-- The state after some rows of the snapshot. -/
structure Snapshot (command : PresentBltCommand) (scratchBytes : U32) (start : BltState) (rows : Nat) (state : BltState) :
    Prop where
  bounded : Bounded command scratchBytes state
  surfaces : state.surfaces = start.surfaces
  bytesCopied : state.bytesCopied = start.bytesCopied
  holds : Holds command start.surfaces.source rows state.scratch

variable {answers : Nat → Bool} {scratchBytes : U32}

theorem bounded_push {state : BltState} (bounded : Bounded command scratchBytes state) {access : Access}
    (inside : Inside command scratchBytes access) :
    Bounded command scratchBytes { state with accesses := state.accesses ++ [access] } := by
  intro other mem
  rcases mem_append.mp mem with old | new
  · exact bounded other old
  rw [mem_singleton.mp new]
  exact inside

private theorem readSource_ends (answers : Nat → Bool) (offset : U64) (scratch : Nat) (count : U32) (state : BltState) :
    Ends (· = { state with
        accesses := state.accesses ++ [.read offset scratch count]
        scratch := copyTo state.scratch scratch (fun i => state.surfaces.source (offset.toNat + i)) count.toNat })
      (· = { state with accesses := state.accesses ++ [.read offset scratch count] })
      (readSource answers offset scratch count state) := by
  unfold readSource
  split_ifs
  · exact ⟨fun _ => rfl,nofun⟩
  exact ⟨nofun,fun _ => rfl⟩

private theorem writeDestination_ends (answers : Nat → Bool) (offset : U64) (scratch : Nat) (count : U32) (state : BltState) :
    Ends (· = { state with
        accesses := state.accesses ++ [.write offset scratch count]
        surfaces := state.surfaces.write offset.toNat (fun i => state.scratch (scratch + i)) count.toNat })
      (· = { state with accesses := state.accesses ++ [.write offset scratch count] })
      (writeDestination answers offset scratch count state) := by
  unfold writeDestination
  split_ifs
  · exact ⟨fun _ => rfl,nofun⟩
  exact ⟨nofun,fun _ => rfl⟩

theorem snapshot_offsets (geometry : Geometry command) {row : Nat} (below : row < rectHeight command.sourceRect)
    (enough : rectHeight command.sourceRect * (rectWidth command.sourceRect * 4) ≤ scratchBytes.toNat) :
    (wide (command.sourceRect.top + BitVec.ofNat 32 row) * wide command.sourceDescription.pitch +
      wide command.sourceRect.left * 4 : U64).toNat =
        (command.sourceRect.top.toNat + row) * command.sourceDescription.pitch.toNat + command.sourceRect.left.toNat * 4 ∧
    (BitVec.ofNat 64 row * wide ((command.sourceRect.right - command.sourceRect.left) * 4) : U64).toNat =
      row * (rectWidth command.sourceRect * 4) := by
  have bottom := geometry.sourceBottom
  have inHeight : command.sourceRect.top.toNat + row < command.sourceDescription.height.toNat := by
    rw [rectHeight] at below
    omega
  have top : (command.sourceRect.top + BitVec.ofNat 32 row).toNat = command.sourceRect.top.toNat + row := by
    rw [toNat_add,toNat_ofNat]
    omega
  constructor
  · have right := geometry.sourceRight
    have wide := geometry.sourceWide
    have span := span_inside geometry.source command.sourceRect.left.toNat 0 inHeight (by omega)
    rw [wide_mul_add (by rw [top]; omega),top]
  have inside := scratch_inside 0 0 below (Nat.zero_le _)
  rw [toNat_mul,wide_toNat,row_toNat geometry,toNat_ofNat,Nat.mod_eq_of_lt (by omega : row < 2 ^ 64)]
  exact Nat.mod_eq_of_lt (by omega)

theorem snapshot_span (geometry : Geometry command) {row : Nat} (below : row < rectHeight command.sourceRect) :
    (command.sourceRect.top.toNat + row) * command.sourceDescription.pitch.toNat + command.sourceRect.left.toNat * 4 +
      rectWidth command.sourceRect * 4 ≤ command.sourceDescription.size.toNat := by
  have bottom := geometry.sourceBottom
  have right := geometry.sourceRight
  have wide := geometry.sourceWide
  have width : rectWidth command.sourceRect = command.sourceRect.right.toNat - command.sourceRect.left.toNat := rfl
  rw [rectHeight] at below
  exact span_inside geometry.source command.sourceRect.left.toNat (rectWidth command.sourceRect) (by omega) (by omega)

variable (answers) in
private theorem snapshotRow_ends (geometry : Geometry command)
    (enough : rectHeight command.sourceRect * (rectWidth command.sourceRect * 4) ≤ scratchBytes.toNat) {start : BltState}
    {row : Nat} (below : row < rectHeight command.sourceRect) {state : BltState}
    (snapshot : Snapshot command scratchBytes start row state) :
    Ends (Snapshot command scratchBytes start (row + 1)) (Bounded command scratchBytes) (snapshotRow answers command row state) := by
  obtain ⟨source,scratch⟩ := snapshot_offsets geometry below enough
  have count := row_toNat geometry
  have sourceSpan := snapshot_span geometry below
  have scratchSpan := scratch_inside 0 (rectWidth command.sourceRect) below (by omega)
  unfold snapshotRow
  rw [scratch]
  generalize isOffset : (wide (command.sourceRect.top + BitVec.ofNat 32 row) * wide command.sourceDescription.pitch +
    wide command.sourceRect.left * 4 : U64) = offset at source
  generalize ((command.sourceRect.right - command.sourceRect.left) * 4 : U32) = rowBytes at count
  have bounded : Bounded command scratchBytes { state with
      accesses := state.accesses ++ [.read offset (row * (rectWidth command.sourceRect * 4)) rowBytes] } := by
    refine bounded_push snapshot.bounded ⟨?_,?_⟩
    · rw [source,count]
      exact sourceSpan
    omega
  obtain ⟨done,lost⟩ := readSource_ends answers offset (row * (rectWidth command.sourceRect * 4)) rowBytes state
  refine ⟨fun success => ?_,fun failure => by rw [lost failure]; exact bounded⟩
  rw [done success]
  refine ⟨bounded,snapshot.surfaces,snapshot.bytesCopied,fun y inside x narrow k small => ?_⟩
  dsimp only
  by_cases last : y = row
  · subst last
    have place : y * (rectWidth command.sourceRect * 4) + x * 4 + k = y * (rectWidth command.sourceRect * 4) + (x * 4 + k) := by
      omega
    rw [place,copyTo_inside _ (by omega),source,snapshot.surfaces,sourceByte]
    congr 1
    ring
  rw [copyTo_outside]
  · exact snapshot.holds y (by omega) x narrow k small
  rintro ⟨above,_⟩
  have before : (y + 1) * (rectWidth command.sourceRect * 4) ≤ row * (rectWidth command.sourceRect * 4) :=
    Nat.mul_le_mul_right _ (by omega)
  rw [Nat.succ_mul] at before
  omega

/-- The byte that a pixel of the destination rectangle gets. -/
def blitByte (command : PresentBltCommand) (source : Memory) (x y k : Nat) : Byte :=
  sourceByte command source (x - command.destinationRect.left.toNat) (y - command.destinationRect.top.toNat) k

/-- Where the bytes of a pixel of the destination are. -/
def pixelOffset (command : PresentBltCommand) (x y k : Nat) : Nat :=
  y * command.destinationDescription.pitch.toNat + x * 4 + k

/-- The state after the pixels of a set were written. -/
structure Written (command : PresentBltCommand) (scratchBytes : U32) (start : BltState) (covered : Nat → Nat → Prop)
    (bytes : Nat) (state : BltState) : Prop where
  bounded : Bounded command scratchBytes state
  holds : Holds command start.surfaces.source (rectHeight command.sourceRect) state.scratch
  inside : ∀ x y, covered x y → x < command.destinationDescription.width.toNat
  pixels : ∀ x y, covered x y → ∀ k < 4,
    state.surfaces.destination (pixelOffset command x y k) = blitByte command start.surfaces.source x y k
  others : ∀ i, (∀ x y k, covered x y → k < 4 → i ≠ pixelOffset command x y k) →
    state.surfaces.destination i = start.surfaces.destination i
  source : ∀ source destination, start.surfaces = .separate source destination →
    ∃ destination', state.surfaces = .separate source destination'
  bytesCopied : state.bytesCopied = BitVec.ofNat 64 bytes

theorem Written.congr {start state : BltState} {covered covered' : Nat → Nat → Prop} {bytes bytes' : Nat}
    (written : Written command scratchBytes start covered bytes state) (same : ∀ x y, covered x y ↔ covered' x y)
    (sameBytes : bytes = bytes') : Written command scratchBytes start covered' bytes' state := by
  have isSame : covered = covered' := funext fun x => funext fun y => propext (same x y)
  rw [← isSame,← sameBytes]
  exact written

theorem write_destination (surfaces : Surfaces) (offset : Nat) (bytes : Memory) (count : Nat) :
    (surfaces.write offset bytes count).destination = copyTo surfaces.destination offset bytes count := by
  cases surfaces <;> rfl

private theorem scratch_place (geometry : Geometry command) {rect : GdiRect} (within : Within command.destinationRect rect) {row : Nat}
    (above : rect.top.toNat ≤ row) (below : row < rect.bottom.toNat) :
    rect.left.toNat - command.destinationRect.left.toNat + rectWidth rect ≤ rectWidth command.sourceRect ∧
      row - command.destinationRect.top.toNat < rectHeight command.sourceRect := by
  obtain ⟨left,top,right,bottom,narrow,_⟩ := within
  rw [← geometry.height,← geometry.width,rectWidth,rectWidth,rectHeight]
  omega

theorem write_offsets (geometry : Geometry command)
    (enough : rectHeight command.sourceRect * (rectWidth command.sourceRect * 4) ≤ scratchBytes.toNat) {rect : GdiRect}
    (within : Within command.destinationRect rect) {row : Nat} (above : rect.top.toNat ≤ row) (below : row < rect.bottom.toNat) :
    (wide (BitVec.ofNat 32 row) * wide command.destinationDescription.pitch + wide rect.left * 4 : U64).toNat =
      row * command.destinationDescription.pitch.toNat + rect.left.toNat * 4 ∧
    ((wide (BitVec.ofNat 32 row - command.destinationRect.top) * wide (command.sourceRect.right - command.sourceRect.left) +
      wide rect.left - wide command.destinationRect.left) * 4 : U64).toNat =
      (row - command.destinationRect.top.toNat) * (rectWidth command.sourceRect * 4) +
        (rect.left.toNat - command.destinationRect.left.toNat) * 4 ∧
    ((rect.right - rect.left) * 4 : U32).toNat = rectWidth rect * 4 := by
  obtain ⟨inRow,inScratch⟩ := scratch_place geometry within above below
  obtain ⟨left,top,right,bottom,narrow,_⟩ := within
  have isRow : (BitVec.ofNat 32 row).toNat = row := by
    rw [toNat_ofNat]
    omega
  have height := geometry.height
  have width := geometry.width
  refine ⟨?_,?_,?_⟩
  · have destinationBottom := geometry.destinationBottom
    have destinationRight := geometry.destinationRight
    have span := span_inside geometry.destination rect.left.toNat 0 (by omega : row < _) (by omega)
    rw [wide_mul_add (by rw [isRow]; omega),isRow]
  · have span := scratch_inside (rect.left.toNat - command.destinationRect.left.toNat) 0 inScratch (by omega)
    generalize hRow : row - command.destinationRect.top.toNat = y at span
    have product : (wide (BitVec.ofNat 32 row - command.destinationRect.top) *
        wide (command.sourceRect.right - command.sourceRect.left) : U64).toNat = y * rectWidth command.sourceRect := by
      rw [toNat_mul,wide_toNat,wide_toNat,sub_toNat (by rw [isRow]; omega),sub_toNat geometry.sourceWide.le,isRow,hRow,
        ← rectWidth]
      refine Nat.mod_eq_of_lt ?_
      rw [← Nat.mul_assoc] at span
      omega
    rw [← Nat.mul_assoc] at span ⊢
    have sum : (wide (BitVec.ofNat 32 row - command.destinationRect.top) *
        wide (command.sourceRect.right - command.sourceRect.left) + wide rect.left : U64).toNat =
        y * rectWidth command.sourceRect + rect.left.toNat := by
      rw [toNat_add,product,wide_toNat]
      omega
    rw [toNat_mul,toNat_sub,sum,wide_toNat,show (4 : U64).toNat = 4 from rfl]
    omega
  have span := scratch_inside 0 (rectWidth command.sourceRect) inScratch (by omega)
  rw [toNat_mul,sub_toNat narrow.le,← rectWidth,show (4 : U32).toNat = 4 from rfl]
  omega

theorem write_span (geometry : Geometry command) {rect : GdiRect} (within : Within command.destinationRect rect) {row : Nat}
    (below : row < rect.bottom.toNat) :
    row * command.destinationDescription.pitch.toNat + rect.left.toNat * 4 + rectWidth rect * 4 ≤
      command.destinationDescription.size.toNat := by
  have destinationBottom := geometry.destinationBottom
  have destinationRight := geometry.destinationRight
  obtain ⟨_,_,right,bottom,narrow,_⟩ := within
  have isWidth : rectWidth rect = rect.right.toNat - rect.left.toNat := rfl
  exact span_inside geometry.destination rect.left.toNat (rectWidth rect) (by omega) (by omega)

private theorem pixel_of_row {row left width i : Nat} (first : row * command.destinationDescription.pitch.toNat + left * 4 ≤ i)
    (last : i < row * command.destinationDescription.pitch.toNat + left * 4 + width * 4) :
    ∃ x k, left ≤ x ∧ x < left + width ∧ k < 4 ∧ i = pixelOffset command x row k := by
  refine ⟨left + (i - (row * command.destinationDescription.pitch.toNat + left * 4)) / 4,
    (i - (row * command.destinationDescription.pitch.toNat + left * 4)) % 4,by omega,by omega,by omega,?_⟩
  rw [pixelOffset]
  omega

variable (answers) in
private theorem writeRow_ends (geometry : Geometry command)
    (enough : rectHeight command.sourceRect * (rectWidth command.sourceRect * 4) ≤ scratchBytes.toNat) {rect : GdiRect}
    (within : Within command.destinationRect rect) {start : BltState} {covered : Nat → Nat → Prop} {bytes row : Nat}
    (above : rect.top.toNat ≤ row) (below : row < rect.bottom.toNat) {state : BltState}
    (written : Written command scratchBytes start covered bytes state) : Ends (Written command scratchBytes start
        (fun x y => covered x y ∨ (y = row ∧ rect.left.toNat ≤ x ∧ x < rect.right.toNat)) (bytes + rectWidth rect * 4))
      (Bounded command scratchBytes) (writeRow answers command rect row state) := by
  obtain ⟨destination,scratch,count⟩ := write_offsets geometry enough within above below
  have destinationRight := geometry.destinationRight
  have height := geometry.height
  have width := geometry.width
  have pitch := geometry.destination.row
  obtain ⟨inRow,inScratch⟩ := scratch_place geometry within above below
  obtain ⟨left,top,right,bottom,narrow,_⟩ := within
  have isWidth : rectWidth rect = rect.right.toNat - rect.left.toNat := rfl
  have span := write_span geometry ⟨left,top,right,bottom,narrow,by omega⟩ below
  have scratchSpan := scratch_inside (rect.left.toNat - command.destinationRect.left.toNat) (rectWidth rect) inScratch inRow
  unfold writeRow
  dsimp only
  rw [scratch]
  generalize (wide (BitVec.ofNat 32 row) * wide command.destinationDescription.pitch + wide rect.left * 4 : U64) = offset
    at destination
  generalize ((rect.right - rect.left) * 4 : U32) = rowBytes at count
  generalize isScratch : (row - command.destinationRect.top.toNat) * (rectWidth command.sourceRect * 4) +
    (rect.left.toNat - command.destinationRect.left.toNat) * 4 = scratchOffset at scratchSpan
  have bounded : Bounded command scratchBytes { state with
      accesses := state.accesses ++ [.write offset scratchOffset rowBytes] } := by
    refine bounded_push written.bounded ⟨?_,?_⟩
    · rw [destination,count]
      exact span
    omega
  obtain ⟨done,lost⟩ := writeDestination_ends answers offset scratchOffset rowBytes state
  cases result : writeDestination answers offset scratchOffset rowBytes state with | mk success after =>
  rw [result] at done lost
  cases success with
  | false =>
    obtain rfl : after = _ := lost rfl
    exact ⟨nofun,fun _ => bounded⟩
  | true =>
  obtain rfl : after = _ := done rfl
  refine ⟨fun _ => ?_,nofun⟩
  -- what the row holds after the write
  have inSpan : ∀ x k, rect.left.toNat ≤ x → x < rect.right.toNat → k < 4 →
      (state.surfaces.write offset.toNat (fun i => state.scratch (scratchOffset + i)) rowBytes.toNat).destination
        (pixelOffset command x row k) = blitByte command start.surfaces.source x row k := by
    intro x k first last small
    have place : pixelOffset command x row k = offset.toNat + ((x - rect.left.toNat) * 4 + k) := by
      rw [pixelOffset,destination]
      omega
    have scratchPlace : scratchOffset + ((x - rect.left.toNat) * 4 + k) =
        (row - command.destinationRect.top.toNat) * (rectWidth command.sourceRect * 4) +
          (x - command.destinationRect.left.toNat) * 4 + k := by
      omega
    rw [write_destination,place,copyTo_inside _ (by omega),scratchPlace,blitByte]
    exact written.holds _ inScratch _ (by omega) k small
  have offSpan : ∀ i, (∀ x k, rect.left.toNat ≤ x → x < rect.right.toNat → k < 4 → i ≠ pixelOffset command x row k) →
      (state.surfaces.write offset.toNat (fun i => state.scratch (scratchOffset + i)) rowBytes.toNat).destination i =
        state.surfaces.destination i := by
    intro i apart
    rw [write_destination]
    refine copyTo_outside (fun inside => ?_)
    rw [destination,count] at inside
    obtain ⟨x,k,first,last,small,same⟩ := pixel_of_row inside.1 inside.2
    exact apart x k first (by omega) small same
  refine ⟨bounded,written.holds,?_,?_,?_,?_,?_⟩
  · rintro x y (old | ⟨_,_,last⟩)
    · exact written.inside x y old
    omega
  · rintro x y (old | ⟨rfl,first,last⟩) k small
    · by_cases here : y = row ∧ rect.left.toNat ≤ x ∧ x < rect.right.toNat
      · obtain ⟨rfl,first,last⟩ := here
        exact inSpan x k first last small
      refine (offSpan _ (fun x' k' first last small' same => here ?_)).trans (written.pixels x y old k small)
      have inPitch := written.inside x y old
      rw [pixelOffset,pixelOffset,Nat.add_assoc,Nat.add_assoc] at same
      obtain ⟨isRow,isPlace⟩ := row_unique (by omega) (by omega) same
      exact ⟨isRow,by omega,by omega⟩
    exact inSpan x k first last small
  · intro i apart
    refine (offSpan i (fun x k first last small => apart x row k (.inr ⟨rfl,first,last⟩) small)).trans ?_
    exact written.others i (fun x y k old small => apart x y k (.inl old) small)
  · intro source target isSeparate
    obtain ⟨target',same⟩ := written.source source target isSeparate
    exact ⟨copyTo target' _ _ _,by simp only [same]; rfl⟩
  dsimp only
  rw [written.bytesCopied,ofNat_add,← count]
  congr 1
  exact eq_of_toNat_eq (by rw [wide_toNat,toNat_ofNat]; have := rowBytes.isLt; omega)

def InRect (rect : GdiRect) (x y : Nat) : Prop :=
  rect.left.toNat ≤ x ∧ x < rect.right.toNat ∧ rect.top.toNat ≤ y ∧ y < rect.bottom.toNat
def rectArea (rect : GdiRect) : Nat := rectHeight rect * (rectWidth rect * 4)

variable (answers) in
private theorem writeRect_ends (geometry : Geometry command)
    (enough : rectHeight command.sourceRect * (rectWidth command.sourceRect * 4) ≤ scratchBytes.toNat) {buffer : List Byte}
    {index : Nat} (within : Within command.destinationRect (bufferRect (contents buffer) index)) {start : BltState}
    {covered : Nat → Nat → Prop} {bytes : Nat} {state : BltState}
    (written : Written command scratchBytes start covered bytes state) :
    Ends (Written command scratchBytes start (fun x y => covered x y ∨ InRect (bufferRect (contents buffer) index) x y)
        (bytes + rectArea (bufferRect (contents buffer) index)))
      (Bounded command scratchBytes) (writeRect answers buffer command index state) := by
  unfold writeRect
  generalize bufferRect (contents buffer) index = rect at within ⊢
  -- the rows before a row are written
  have rows : Ends (Written command scratchBytes start
      (fun x y => covered x y ∨ (InRect rect x y ∧ y < rect.top.toNat + (rect.bottom.toNat - rect.top.toNat)))
      (bytes + (rect.top.toNat + (rect.bottom.toNat - rect.top.toNat) - rect.top.toNat) * (rectWidth rect * 4)))
      (Bounded command scratchBytes)
      (countLoop (writeRow answers command rect) rect.top.toNat (rect.bottom.toNat - rect.top.toNat) state) := by
    refine countLoop_ends _ (fun row => Written command scratchBytes start (fun x y => covered x y ∨ (InRect rect x y ∧ y < row))
      (bytes + (row - rect.top.toNat) * (rectWidth rect * 4))) _ (written.congr (fun x y => ?_) (by simp))
      (fun row state above below inside => ?_)
    · simp only [InRect]
      grind
    obtain ⟨done,lost⟩ := writeRow_ends answers geometry enough within above (by omega) inside
    refine ⟨fun success => (done success).congr (fun x y => ?_) ?_,lost⟩
    · simp only [InRect]
      grind
    rw [Nat.succ_sub above,Nat.succ_mul]
    omega
  refine ⟨fun success => (rows.1 success).congr (fun x y => ?_) (by rw [Nat.add_sub_cancel_left]; rfl),rows.2⟩
  simp only [InRect]
  grind

theorem validate_spec {buffer : List Byte} {requireResidency : Bool}
    (valid : presentBltValidate buffer requireResidency = some command) :
    Geometry command ∧ ∀ index < command.rectCount.toNat, Within command.destinationRect (bufferRect (contents buffer) index) := by
  unfold presentBltValidate at valid
  dsimp only at valid
  split_ifs at valid with _ wrong _ contained
  cases valid
  simp only [not_or,not_not] at wrong
  refine ⟨geometry_of_valid wrong.2.2.2.2.2.2,fun index below => within_of_contains ?_⟩
  exact all_eq_true.mp contained index (mem_range.mpr below)

theorem validate_command {buffer : List Byte} {requireResidency : Bool}
    (valid : presentBltValidate buffer requireResidency = some command) : command = commandAt (contents buffer) := by
  unfold presentBltValidate at valid
  dsimp only at valid
  split_ifs at valid
  cases valid
  rfl

private theorem validate_residency {buffer : List Byte} {requireResidency : Bool}
    (valid : presentBltValidate buffer requireResidency = some command) :
    presentBltValidate buffer true = none ∨ presentBltValidate buffer true = some command := by
  cases again : presentBltValidate buffer true with
  | none => exact .inl rfl
  | some command' =>
  have same : command' = command := (validate_command again).trans (validate_command valid).symm
  exact .inr (congrArg some same)

/-- The bytes of the first rectangles of a buffer. -/
def rectsArea (buffer : List Byte) (count : Nat) : Nat :=
  ((List.range count).map (fun index => rectArea (bufferRect (contents buffer) index))).sum
theorem rectsArea_succ (buffer : List Byte) (count : Nat) :
    rectsArea buffer (count + 1) = rectsArea buffer count + rectArea (bufferRect (contents buffer) count) := by
  simp [rectsArea,range_succ]

/-- A pixel of one of the first rectangles of a buffer. -/
def Covered (buffer : List Byte) (count x y : Nat) : Prop :=
  ∃ index < count, InRect (bufferRect (contents buffer) index) x y

private theorem covered_succ (buffer : List Byte) (count x y : Nat) :
    Covered buffer (count + 1) x y ↔ Covered buffer count x y ∨ InRect (bufferRect (contents buffer) count) x y := by
  constructor
  · rintro ⟨index,below,inside⟩
    rcases Nat.lt_succ_iff_lt_or_eq.mp below with earlier | rfl
    · exact .inl ⟨index,earlier,inside⟩
    exact .inr inside
  rintro (⟨index,below,inside⟩ | inside)
  · exact ⟨index,by omega,inside⟩
  exact ⟨count,Nat.lt_succ_self _,inside⟩

private theorem rectArea_le (geometry : Geometry command) {rect : GdiRect} (within : Within command.destinationRect rect) :
    rectArea rect ≤ rectHeight command.sourceRect * (rectWidth command.sourceRect * 4) := by
  obtain ⟨left,top,right,bottom,_,_⟩ := within
  rw [rectArea,← geometry.height,← geometry.width]
  refine Nat.mul_le_mul ?_ (Nat.mul_le_mul_right _ ?_)
  · rw [rectHeight,rectHeight]
    omega
  rw [rectWidth,rectWidth]
  omega

private theorem rectsArea_lt (geometry : Geometry command)
    (enough : rectHeight command.sourceRect * (rectWidth command.sourceRect * 4) ≤ scratchBytes.toNat) {buffer : List Byte}
    (within : ∀ index < command.rectCount.toNat, Within command.destinationRect (bufferRect (contents buffer) index))
    {count : Nat} (upTo : count ≤ command.rectCount.toNat) : rectsArea buffer count ≤ count * (2 ^ 32 - 1) := by
  induction count with
  | zero => exact Nat.zero_le _
  | succ count ih =>
  have area := rectArea_le geometry (within count upTo)
  rw [rectsArea_succ]
  omega

/-- What a blit does to the surfaces. -/
structure Exact (buffer : List Byte) (command : PresentBltCommand) (start left : BltState) : Prop where
  pixels : ∀ x y, Covered buffer command.rectCount.toNat x y → ∀ k < 4,
    left.surfaces.destination (pixelOffset command x y k) = blitByte command start.surfaces.source x y k
  others : ∀ i, (∀ x y k, Covered buffer command.rectCount.toNat x y → k < 4 → i ≠ pixelOffset command x y k) →
    left.surfaces.destination i = start.surfaces.destination i
  source : ∀ source destination, start.surfaces = .separate source destination →
    ∃ destination', left.surfaces = .separate source destination'
  bytesCopied : left.bytesCopied.toNat = rectsArea buffer command.rectCount.toNat

/-- A blit of an accepted command keeps the bounds of its accesses, and copies exactly the
    pixels of its rectangles when it succeeds. -/
theorem presentBltAccepted_ends (answers : Nat → Bool) {buffer : List Byte} (geometry : Geometry command)
    (within : ∀ index < command.rectCount.toNat, Within command.destinationRect (bufferRect (contents buffer) index))
    {start : BltState} (bounded : Bounded command scratchBytes start) :
    Ends (fun left => Bounded command scratchBytes left ∧ Exact buffer command start left) (Bounded command scratchBytes)
      (presentBltAccepted answers buffer command scratchBytes start) := by
  unfold presentBltAccepted
  cases needs : presentBltScratchBytes command with
  | none => exact ⟨nofun,fun _ => bounded⟩
  | some needed =>
  dsimp only
  split
  · exact ⟨nofun,fun _ => bounded⟩
  rename_i short
  have enough := scratch_enough geometry needs short
  rw [geometry.rows]
  let zeroed : BltState := { start with bytesCopied := 0 }
  have snapshot : Ends (Snapshot command scratchBytes zeroed (0 + rectHeight command.sourceRect)) (Bounded command scratchBytes)
      (countLoop (snapshotRow answers command) 0 (rectHeight command.sourceRect) zeroed) := by
    refine countLoop_ends _ (Snapshot command scratchBytes zeroed) _ ⟨bounded,rfl,rfl,fun _ bad => ?_⟩
      (fun row state _ below inside => snapshotRow_ends answers geometry enough (by omega) inside)
    exact absurd bad (Nat.not_lt_zero _)
  cases isSnapshot : countLoop (snapshotRow answers command) 0 (rectHeight command.sourceRect) zeroed with | mk done middle =>
  rw [isSnapshot] at snapshot
  cases done with
  | false => exact ⟨nofun,fun _ => snapshot.2 rfl⟩
  | true =>
  obtain ⟨bounded,sameSurfaces,sameBytes,holds⟩ := snapshot.1 rfl
  rw [Nat.zero_add] at holds
  have first : Written command scratchBytes zeroed (Covered buffer 0) (rectsArea buffer 0) middle := by
    refine ⟨bounded,holds,?_,?_,fun i _ => by rw [sameSurfaces],fun source destination same => ⟨destination,?_⟩,sameBytes⟩
    · rintro x y ⟨_,bad,_⟩
      exact absurd bad (Nat.not_lt_zero _)
    · rintro x y ⟨_,bad,_⟩
      exact absurd bad (Nat.not_lt_zero _)
    rw [sameSurfaces]
    exact same
  have writes : Ends (Written command scratchBytes zeroed (Covered buffer (0 + command.rectCount.toNat))
      (rectsArea buffer (0 + command.rectCount.toNat))) (Bounded command scratchBytes)
      (countLoop (writeRect answers buffer command) 0 command.rectCount.toNat middle) := by
    refine countLoop_ends _ (fun index => Written command scratchBytes zeroed (Covered buffer index) (rectsArea buffer index)) _
      first (fun index state _ below inside => ?_)
    obtain ⟨written,lost⟩ := writeRect_ends answers geometry enough (within index (by omega)) inside
    exact ⟨fun success => (written success).congr (fun x y => (covered_succ buffer index x y).symm)
      (rectsArea_succ buffer index).symm,lost⟩
  rw [Nat.zero_add] at writes
  refine ⟨fun success => ?_,writes.2⟩
  have written := writes.1 success
  refine ⟨written.bounded,written.pixels,written.others,written.source,?_⟩
  have area := rectsArea_lt geometry enough within (Nat.le_refl _)
  have count := command.rectCount.isLt
  have small : rectsArea buffer command.rectCount.toNat < 2 ^ 64 :=
    area.trans_lt ((Nat.mul_le_mul_right _ (Nat.le_sub_one_of_lt count)).trans_lt (by decide))
  rw [written.bytesCopied,toNat_ofNat,Nat.mod_eq_of_lt small]

/-- A blit of an accepted buffer stays inside its surfaces and its scratch buffer, and when
    it succeeds it copies exactly the pixels of its rectangles. -/
theorem presentBlt_exact (answers : Nat → Bool) (buffer : List Byte) (scratchBytes : U32) (surfaces : Surfaces) (scratch : Memory)
    (bytesCopied : U64) (requireResidency : Bool) (command : PresentBltCommand)
    (accepted : presentBltValidate buffer requireResidency = some command) :
    (∀ access ∈ (presentBltExecute answers buffer scratchBytes ⟨surfaces,scratch,[],bytesCopied⟩).2.accesses,
      Inside command scratchBytes access) ∧
    ((presentBltExecute answers buffer scratchBytes ⟨surfaces,scratch,[],bytesCopied⟩).1 = true →
      Exact buffer command ⟨surfaces,scratch,[],bytesCopied⟩
        (presentBltExecute answers buffer scratchBytes ⟨surfaces,scratch,[],bytesCopied⟩).2) := by
  obtain ⟨geometry,within⟩ := validate_spec accepted
  have nothing : Bounded command scratchBytes ⟨surfaces,scratch,[],bytesCopied⟩ :=
    fun _ bad => absurd bad not_mem_nil
  rcases validate_residency accepted with again | again
  · rw [presentBltExecute_refused again]
    exact ⟨nothing,nofun⟩
  rw [presentBltExecute_accepted again]
  obtain ⟨done,lost⟩ := presentBltAccepted_ends answers geometry within nothing
  refine ⟨?_,fun success => (done success).2⟩
  cases success : (presentBltAccepted answers buffer command scratchBytes ⟨surfaces,scratch,[],bytesCopied⟩).1 with
  | false => exact lost success
  | true => exact (done success).1

/-- Two pixels that move down by one row in one allocation. -/
def shiftDown : List Byte :=
  [(presentMagic : U32),1,184,1,allocationMagic,1,1,21,1,3,16,4,48,0,0,0,allocationMagic,1,1,21,1,3,16,4,48,0,0,0,
    0,0,1,2,0,1,1,3,0x4000,0x02000000,0x4000,0x02000000,1,0,0,1,1,3].flatMap
    (fun word : U32 => [word.setWidth 8,(word >>> 8).setWidth 8,(word >>> 16).setWidth 8,(word >>> 24).setWidth 8])

theorem presentBlt_exact_shiftDown : (presentBltExecute (fun _ => true) shiftDown 8
      ⟨.shared (fun i => BitVec.ofNat 8 i),fun _ => 0,[],0⟩).2.surfaces.destination 32 = 16 ∧
    (presentBltExecute (fun _ => true) shiftDown 8
      ⟨.shared (fun i => BitVec.ofNat 8 i),fun _ => 0,[],0⟩).2.bytesCopied.toNat = 8 := by
  have exact' := (presentBlt_exact (fun _ => true) shiftDown 8 (.shared (fun i => BitVec.ofNat 8 i)) (fun _ => 0) 0
    true (commandAt (contents shiftDown)) (by decide +kernel)).2 (by decide +kernel)
  have pixel := exact'.pixels 0 2 ⟨0,by decide +kernel,by unfold InRect; decide +kernel⟩ 0 (by decide)
  have place : pixelOffset (commandAt (contents shiftDown)) 0 2 0 = 32 := by decide +kernel
  rw [place] at pixel
  exact ⟨pixel.trans (by decide +kernel),exact'.bytesCopied.trans (by decide +kernel)⟩

end WindowsOnM1.PresentBlit
