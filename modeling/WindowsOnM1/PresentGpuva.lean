import WindowsOnM1.PresentModel

/-!
The blit of `render_present.c` with callbacks, and the one that reaches its surfaces through
the page tables of a process: `PresentGpuvaRead`, `PresentGpuvaWrite` and
`AdmissionPresentBltExecuteGpuvaSeparate`.
-/
namespace WindowsOnM1.PresentModel
open ByteMemory CountedLoop

variable {σ : Type}

/-- `ReadSource` and `WriteDestination`. A call has the offset in the surface, the one in the
    scratch buffer and the number of bytes. -/
structure CopyIo (σ : Type) where
  readSource : U64 → Nat → U32 → σ → Bool × σ
  writeDestination : U64 → Nat → U32 → σ → Bool × σ

/-- What a blit works on: the memories of its callbacks, and `*BytesCopied`. -/
structure Blit (σ : Type) where
  world : σ
  bytesCopied : U64

def snapshotRowWith (io : CopyIo σ) (command : PresentBltCommand) (row : Nat) (blit : Blit σ) : Bool × Blit σ :=
  let width := command.sourceRect.right - command.sourceRect.left
  let rowBytes := width * 4
  let sourceOffset := wide (command.sourceRect.top + BitVec.ofNat 32 row) * wide command.sourceDescription.pitch +
    wide command.sourceRect.left * 4
  match io.readSource sourceOffset (BitVec.ofNat 64 row * wide rowBytes).toNat rowBytes blit.world with
  | (done,world) => (done,⟨world,blit.bytesCopied⟩)

def writeRowWith (io : CopyIo σ) (command : PresentBltCommand) (rect : GdiRect) (row : Nat) (blit : Blit σ) :
    Bool × Blit σ :=
  let width := command.sourceRect.right - command.sourceRect.left
  let scratchOffset := (wide (BitVec.ofNat 32 row - command.destinationRect.top) * wide width +
    wide rect.left - wide command.destinationRect.left) * 4
  let destinationOffset := wide (BitVec.ofNat 32 row) * wide command.destinationDescription.pitch + wide rect.left * 4
  let rowBytes := (rect.right - rect.left) * 4
  match io.writeDestination destinationOffset scratchOffset.toNat rowBytes blit.world with
  | (false,world) => (false,⟨world,blit.bytesCopied⟩)
  | (true,world) => (true,⟨world,blit.bytesCopied + wide rowBytes⟩)

def writeRectWith (io : CopyIo σ) (buffer : List Byte) (command : PresentBltCommand) (index : Nat) :
    Blit σ → Bool × Blit σ :=
  let rect := bufferRect (contents buffer) index
  countLoop (writeRowWith io command rect) rect.top.toNat (rect.bottom.toNat - rect.top.toNat)

/-- `AdmissionPresentBltExecute` with any callbacks. -/
def presentBltExecuteWith (io : CopyIo σ) (buffer : List Byte) (scratchBytes : U32) (blit : Blit σ) : Bool × Blit σ :=
  match presentBltValidate buffer true with
  | none => (false,blit)
  | some command =>
    match presentBltScratchBytes command with
    | none => (false,blit)
    | some needed =>
      if scratchBytes < needed then (false,blit)
      else
        match countLoop (snapshotRowWith io command) 0 (command.sourceRect.bottom - command.sourceRect.top).toNat
            ⟨blit.world,0⟩ with
        | (false,left) => (false,left)
        | (true,left) => countLoop (writeRectWith io buffer command) 0 command.rectCount.toNat left

/-- A source, a destination and a scratch buffer. -/
structure PlainState where
  source : Memory
  destination : Memory
  scratch : Memory

/-- Whether every byte of a range is in a set. -/
def rangeIn (set : Nat → Bool) (offset count : Nat) : Bool := (List.range count).all (fun i => set (offset + i))

/-- Callbacks that copy all bytes at once where the memory can be accessed. -/
def plainIo (readable writable : Nat → Bool) : CopyIo PlainState where
  readSource offset scratch count state :=
    if rangeIn readable offset.toNat count.toNat then
      (true,{ state with scratch := copyTo state.scratch scratch (fun i => state.source (offset.toNat + i)) count.toNat })
    else (false,state)
  writeDestination offset scratch count state :=
    if rangeIn writable offset.toNat count.toNat then
      (true,{ state with
        destination := copyTo state.destination offset.toNat (fun i => state.scratch (scratch + i)) count.toNat })
    else (false,state)

/-- A translation by pages: it keeps the place in a page, and what it says of one address of
    a page it says of all of them. -/
structure Translation (page : Nat) where
  translate : U64 → Option U64
  place : ∀ va ipa, translate va = some ipa → ipa.toNat % page = va.toNat % page
  whole : ∀ va va' ipa, va.toNat / page = va'.toNat / page → translate va = some ipa →
    ∃ ipa', translate va' = some ipa' ∧ ipa'.toNat / page = ipa.toNat / page

abbrev sourcePage : Nat := 0x1000
abbrev destinationPage : Nat := 0x4000

/-- `SourceTranslate`, `DestinationTranslate`, and the guest-physical bytes that `Read` and `Write` can reach. -/
structure GpuvaIo where
  sourceTranslate : Translation sourcePage
  destinationTranslate : Translation destinationPage
  readable : Nat → Bool
  writable : Nat → Bool

/-- The guest-physical memory and the scratch buffer. -/
structure GpuvaState where
  memory : Memory
  scratch : Memory

/-- `Read`. -/
def GpuvaIo.read (io : GpuvaIo) (ipa : U64) (scratch : Nat) (count : U32) (state : GpuvaState) : Bool × GpuvaState :=
  if rangeIn io.readable ipa.toNat count.toNat then
    (true,{ state with scratch := copyTo state.scratch scratch (fun i => state.memory (ipa.toNat + i)) count.toNat })
  else (false,state)

/-- `Write`; without `Commit` it only says whether the bytes can be reached. -/
def GpuvaIo.write (io : GpuvaIo) (commit : Bool) (ipa : U64) (scratch : Nat) (count : U32) (state : GpuvaState) :
    Bool × GpuvaState :=
  if rangeIn io.writable ipa.toNat count.toNat then
    if commit then
      (true,{ state with memory := copyTo state.memory ipa.toNat (fun i => state.scratch (scratch + i)) count.toNat })
    else (true,state)
  else (false,state)

/-- The bytes from an address to the end of its page, or what is left. -/
def chunkOf (page : U32) (va left : U64) : U32 :=
  let chunk := page - (va &&& wide (page - 1)).setWidth 32
  if left < wide chunk then left.setWidth 32 else chunk

/-- The transfers of a range, one in each page: the loops of `PresentGpuvaRead` and
    `PresentGpuvaWrite`. Each turn takes a byte or more; they never run out of turns. -/
def transferPages (page : U32) (translate : U64 → Option U64) (base : U64)
    (transfer : U64 → Nat → U32 → GpuvaState → Bool × GpuvaState) :
    (turns : Nat) → (offset : U64) → (scratch : Nat) → (left : U32) → GpuvaState → Bool × GpuvaState
  | 0, _, _, _, state => (false,state)
  | turns+1, offset, scratch, left, state =>
    if left = 0 then (true,state)
    else
      let va := base + offset
      let chunk := chunkOf page va (wide left)
      match translate va with
      | none => (false,state)
      | some ipa =>
        match transfer ipa scratch chunk state with
        | (false,after) => (false,after)
        | (true,after) =>
          transferPages page translate base transfer turns (offset + wide chunk) (scratch + chunk.toNat) (left - chunk) after

/-- `PresentGpuvaRead`. -/
def presentGpuvaRead (io : GpuvaIo) (command : PresentBltCommand) (offset : U64) (scratch : Nat) (count : U32)
    (state : GpuvaState) : Bool × GpuvaState :=
  let sourceBytes := command.sourceDescription.size
  if sourceBytes < offset ∨ sourceBytes - offset < wide count then (false,state)
  else transferPages 0x1000 io.sourceTranslate.translate command.sourceLocation io.read (count.toNat + 1) offset scratch count
    state

/-- `PresentGpuvaWrite`. -/
def presentGpuvaWrite (io : GpuvaIo) (command : PresentBltCommand) (offset : U64) (scratch : Nat) (count : U32)
    (state : GpuvaState) : Bool × GpuvaState :=
  let destinationBytes := command.destinationDescription.size
  if destinationBytes < offset ∨ destinationBytes - offset < wide count then (false,state)
  else transferPages 0x4000 io.destinationTranslate.translate command.destinationLocation (io.write true) (count.toNat + 1)
    offset scratch count state

def gpuvaCopy (io : GpuvaIo) (command : PresentBltCommand) : CopyIo GpuvaState where
  readSource := presentGpuvaRead io command
  writeDestination := presentGpuvaWrite io command

/-- The probe of the destination, before anything is written. -/
def probeDestination (io : GpuvaIo) (command : PresentBltCommand) (state : GpuvaState) : (turns : Nat) → (offset : U64) → Bool
  | 0, _ => false
  | turns+1, offset =>
    let destinationBytes := command.destinationDescription.size
    if offset < destinationBytes then
      let va := command.destinationLocation + offset
      let chunk := chunkOf 0x4000 va (destinationBytes - offset)
      match io.destinationTranslate.translate va with
      | none => false
      | some ipa =>
        if (io.write false ipa 0 chunk state).1 then probeDestination io command state turns (offset + wide chunk) else false
    else true

/-- `AdmissionPresentBltExecuteGpuvaSeparate`. -/
def presentBltExecuteGpuvaSeparate (io : GpuvaIo) (buffer : List Byte) (scratchBytes : U32) (blit : Blit GpuvaState) :
    Bool × Blit GpuvaState :=
  match presentBltValidate buffer true with
  | none => (false,blit)
  | some command =>
    if command.version ≠ 2 then (false,blit)
    else if probeDestination io command blit.world (command.destinationDescription.size.toNat + 1) 0 then
      presentBltExecuteWith (gpuvaCopy io command) buffer scratchBytes blit
    else (false,blit)

theorem rangeIn_iff {set : Nat → Bool} {offset count : Nat} :
    rangeIn set offset count = true ↔ ∀ i < count, set (offset + i) = true := by
  rw [rangeIn,List.all_eq_true]
  exact ⟨fun all i inside => all i (List.mem_range.mpr inside),fun all i inside => all i (List.mem_range.mp inside)⟩

end WindowsOnM1.PresentModel
