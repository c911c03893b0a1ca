import WindowsOnM1.RecordLayout

/-!
The records of a submission of `apple_agx_g4_submit.h` and their bytes, the sizes that a
render needs of its process ranges, and the headers that the user mode driver composes.
-/
namespace WindowsOnM1.Submit
open ByteMemory RecordLayout
open RecordLayout.Layout (u8 u16 u32 u64)

abbrev U16 := BitVec 16
abbrev U32 := BitVec 32
abbrev U64 := BitVec 64

abbrev privateMagic : U32 := 0x34584741
abbrev privateVersion : U16 := 1
abbrev versionProcessVa : U16 := 2
abbrev versionPrivateVa : U16 := 3
abbrev versionCompute : U16 := 4
abbrev versionRenderCompute : U16 := 5
abbrev processRangeCount : Nat := 9
abbrev nativeMaxBytes : Nat := 4096
abbrev nativeRenderType : U16 := 0
abbrev nativeComputeType : U16 := 1
abbrev fragmentAttachments : U16 := 3
abbrev colorBgra8 : U32 := 1
abbrev color1Byte : U32 := 2
abbrev color2Byte : U32 := 3
abbrev colorNone : U32 := 4
abbrev color8Byte : U32 := 5
abbrev color16Byte : U32 := 6
abbrev uscExecutionBase : Nat := 0x1100000000
abbrev timestampRequest : U32 := 1
abbrev samplerBytes : Nat := 16
abbrev maxSamplers : Nat := 1024
abbrev occlusionQueries : Nat := 32768
abbrev occlusionHeapBytes : Nat := occlusionQueries * 8
abbrev cdmStreamMaxBytes : Nat := 0x10000000
abbrev tvbWindowBlocks : Nat := 32

/-- The end of the process address space. -/
abbrev vaEnd : Nat := 2 ^ 39

def colorBytes (colorFormat : U32) : Nat :=
  if colorFormat = colorBgra8 then 4
  else if colorFormat = color1Byte then 1
  else if colorFormat = color2Byte then 2
  else if colorFormat = color8Byte then 8
  else if colorFormat = color16Byte then 16
  else 0

def colorClassValid (colorFormat : U32) : Bool := colorBytes colorFormat ≠ 0 || colorFormat = colorNone

structure PrivateHeader where
  magic : U32
  version : U16
  headerBytes : U16
  commandBytes : U32
  reserved : U32
  commandVa : U64
deriving DecidableEq

def privateHeader : Layout PrivateHeader :=
  (u32.pair (u16.pair (u16.pair (u32.pair (u32.pair u64))))).map
    ⟨fun ⟨a,b,c,d,e,f⟩ => ⟨a,b,c,d,e,f⟩,fun ⟨a,b,c,d,e,f⟩ => ⟨a,b,c,d,e,f⟩,fun _ => rfl,fun _ => rfl⟩

structure ProcessRange where
  va : U64
  bytes : U32
  reserved : U32
deriving DecidableEq

def processRange : Layout ProcessRange :=
  (u64.pair (u32.pair u32)).map
    ⟨fun ⟨a,b,c⟩ => ⟨a,b,c⟩,fun ⟨a,b,c⟩ => ⟨a,b,c⟩,fun _ => rfl,fun _ => rfl⟩
structure PrivateHeaderV2 where
  base : PrivateHeader
  process : Fin processRangeCount → ProcessRange
def privateHeaderV2 : Layout PrivateHeaderV2 :=
  (privateHeader.pair (processRange.array processRangeCount)).map
    ⟨fun ⟨a,b⟩ => ⟨a,b⟩,fun ⟨a,b⟩ => ⟨a,b⟩,fun _ => rfl,fun _ => rfl⟩

structure PrivateLease where
  managerId : U64
  managerGeneration : U64
  sceneId : U64
  sceneGeneration : U64
deriving DecidableEq

def privateLease : Layout PrivateLease :=
  (u64.pair (u64.pair (u64.pair u64))).map
    ⟨fun ⟨a,b,c,d⟩ => ⟨a,b,c,d⟩,fun ⟨a,b,c,d⟩ => ⟨a,b,c,d⟩,fun _ => rfl,fun _ => rfl⟩
structure PrivateHeaderV3 where
  v2 : PrivateHeaderV2
  lease : PrivateLease
def privateHeaderV3 : Layout PrivateHeaderV3 :=
  (privateHeaderV2.pair privateLease).map ⟨fun ⟨a,b⟩ => ⟨a,b⟩,fun ⟨a,b⟩ => ⟨a,b⟩,fun _ => rfl,fun _ => rfl⟩
structure PrivateHeaderV5 where
  v3 : PrivateHeaderV3
  preemption : ProcessRange
def privateHeaderV5 : Layout PrivateHeaderV5 :=
  (privateHeaderV3.pair processRange).map ⟨fun ⟨a,b⟩ => ⟨a,b⟩,fun ⟨a,b⟩ => ⟨a,b⟩,fun _ => rfl,fun _ => rfl⟩
structure PrivateHeaderCompute where
  base : PrivateHeader
  preemption : ProcessRange
def privateHeaderCompute : Layout PrivateHeaderCompute :=
  (privateHeader.pair processRange).map ⟨fun ⟨a,b⟩ => ⟨a,b⟩,fun ⟨a,b⟩ => ⟨a,b⟩,fun _ => rfl,fun _ => rfl⟩

structure NativeHeader where
  type : U16
  size : U16
  vdmBarrier : U16
  cdmBarrier : U16
deriving DecidableEq

def nativeHeader : Layout NativeHeader :=
  (u16.pair (u16.pair (u16.pair u16))).map
    ⟨fun ⟨a,b,c,d⟩ => ⟨a,b,c,d⟩,fun ⟨a,b,c,d⟩ => ⟨a,b,c,d⟩,fun _ => rfl,fun _ => rfl⟩

structure Attachment where
  pointer : U64
  size : U64
  pad : U32
  flags : U32
deriving DecidableEq

def attachment : Layout Attachment :=
  (u64.pair (u64.pair (u32.pair u32))).map
    ⟨fun ⟨a,b,c,d⟩ => ⟨a,b,c,d⟩,fun ⟨a,b,c,d⟩ => ⟨a,b,c,d⟩,fun _ => rfl,fun _ => rfl⟩

structure Helper where
  binary : U32
  cfg : U32
  data : U64
deriving DecidableEq

def helper : Layout Helper :=
  (u32.pair (u32.pair u64)).map
    ⟨fun ⟨a,b,c⟩ => ⟨a,b,c⟩,fun ⟨a,b,c⟩ => ⟨a,b,c⟩,fun _ => rfl,fun _ => rfl⟩

structure Zls where
  base : U64
  compBase : U64
  stride : U32
  compStride : U32
deriving DecidableEq

def zls : Layout Zls :=
  (u64.pair (u64.pair (u32.pair u32))).map
    ⟨fun ⟨a,b,c,d⟩ => ⟨a,b,c,d⟩,fun ⟨a,b,c,d⟩ => ⟨a,b,c,d⟩,fun _ => rfl,fun _ => rfl⟩
structure BgEot where
  usc : U32
  resourceSpec : U32
deriving DecidableEq
def bgEot : Layout BgEot :=
  (u32.pair u32).map ⟨fun ⟨a,b⟩ => ⟨a,b⟩,fun ⟨a,b⟩ => ⟨a,b⟩,fun _ => rfl,fun _ => rfl⟩

structure Timestamps where
  startHandle : U32
  startOffset : U32
  endHandle : U32
  endOffset : U32
deriving DecidableEq

def timestamps : Layout Timestamps :=
  (u32.pair (u32.pair (u32.pair u32))).map
    ⟨fun ⟨a,b,c,d⟩ => ⟨a,b,c,d⟩,fun ⟨a,b,c,d⟩ => ⟨a,b,c,d⟩,fun _ => rfl,fun _ => rfl⟩

structure NativeCompute where
  flags : U32
  samplerCount : U32
  cdmCtrlStreamBase : U64
  cdmCtrlStreamEnd : U64
  samplerHeap : U64
  helper : Helper
  timestamps : Timestamps
deriving DecidableEq

def nativeCompute : Layout NativeCompute :=
  (u32.pair (u32.pair (u64.pair (u64.pair (u64.pair (helper.pair timestamps)))))).map
    ⟨fun ⟨a,b,c,d,e,f,g⟩ => ⟨a,b,c,d,e,f,g⟩,fun ⟨a,b,c,d,e,f,g⟩ => ⟨a,b,c,d,e,f,g⟩,fun _ => rfl,fun _ => rfl⟩

structure NativeRender where
  flags : U32
  ispZlsPixels : U32
  vdmCtrlStreamBase : U64
  vertexHelper : Helper
  fragmentHelper : Helper
  ispScissorBase : U64
  ispDbiasBase : U64
  ispOclQryBase : U64
  depth : Zls
  stencil : Zls
  zlsCtrl : U64
  pppMultisampleCtrl : U64
  samplerHeap : U64
  pppCtrl : U32
  widthPx : U16
  heightPx : U16
  layers : U16
  samplerCount : U16
  utileWidthPx : Byte
  utileHeightPx : Byte
  samples : Byte
  sampleSizeBytes : Byte
  ispMergeUpperX : U32
  ispMergeUpperY : U32
  bg : BgEot
  eot : BgEot
  partialBg : BgEot
  partialEot : BgEot
  ispBgObjDepth : U32
  ispBgObjVals : U32
  timestampsVertex : Timestamps
  timestampsFragment : Timestamps
deriving DecidableEq

/-- A render of 64 by 64 pixels. -/
def sampleRender : NativeRender :=
  ⟨0,0,0x10000,⟨0,0,0⟩,⟨0,0,0⟩,0,0,0x100000,⟨0x200000,0,0,0⟩,⟨0,0,0,0⟩,0,0,0,0,64,64,1,0,32,32,1,0,0,0,⟨64,0⟩,⟨0,0⟩,⟨0,0⟩,⟨0,0⟩,0,0,
    ⟨0,0,0,0⟩,⟨0,0,0,0⟩⟩
def nativeRender : Layout NativeRender :=
  (u32.pair (u32.pair (u64.pair (helper.pair (helper.pair (u64.pair (u64.pair (u64.pair
    (zls.pair (zls.pair (u64.pair (u64.pair (u64.pair (u32.pair (u16.pair (u16.pair
    (u16.pair (u16.pair (u8.pair (u8.pair (u8.pair (u8.pair (u32.pair
    (u32.pair (bgEot.pair (bgEot.pair (bgEot.pair (bgEot.pair (u32.pair (u32.pair
    (timestamps.pair timestamps))))))))))))))))))))))))))))))).map
    ⟨fun ⟨a,b,c,d,e,f,g,h,i,j,k,l,m,n,o,p,q,r,s,t,u,v,w,x,y,z,a',b',c',d',e',f'⟩ =>
        ⟨a,b,c,d,e,f,g,h,i,j,k,l,m,n,o,p,q,r,s,t,u,v,w,x,y,z,a',b',c',d',e',f'⟩,
      fun ⟨a,b,c,d,e,f,g,h,i,j,k,l,m,n,o,p,q,r,s,t,u,v,w,x,y,z,a',b',c',d',e',f'⟩ =>
        ⟨a,b,c,d,e,f,g,h,i,j,k,l,m,n,o,p,q,r,s,t,u,v,w,x,y,z,a',b',c',d',e',f'⟩,fun _ => rfl,fun _ => rfl⟩

theorem record_sizes : privateHeader.size = 24 ∧ nativeHeader.size = 8 ∧ attachment.size = 24 ∧ nativeRender.size = 240 ∧
    processRange.size = 16 ∧ privateHeaderV2.size = 168 ∧ privateHeaderV3.size = 200 ∧ privateHeaderV5.size = 216 ∧
    nativeCompute.size = 64 ∧ privateHeaderCompute.size = 40 := by
  decide

/-- The blocks that a render of this size needs of the heap window. -/
def minTvbBlocks (width height : Nat) : Nat :=
  let tiles := ((width + 31) / 32) * ((height + 31) / 32)
  if width = 0 ∨ height = 0 ∨ width > 16384 ∨ height > 16384 then 0
  else
    let blocks := (((tiles + 127) / 128 + 7) / 8) * 8
    if blocks > tvbWindowBlocks then tvbWindowBlocks else blocks

def NativeRender.utileValid (render : NativeRender) : Bool :=
  (render.utileWidthPx = 32 && render.utileHeightPx = 32) || (render.utileWidthPx = 32 && render.utileHeightPx = 16) ||
    (render.utileWidthPx = 16 && render.utileHeightPx = 16)

/-- The bytes of each process range before they are rounded. No term exceeds 2^37. -/
def requiredRaw (render : NativeRender) (index : Nat) : Nat :=
  let tilesX := (render.widthPx.toNat + 31) / 32
  let tilesY := (render.heightPx.toNat + 31) / 32
  let mtilesX := (((tilesX + 3) / 4 + 3) / 4) * 4
  let mtilesY := (((tilesY + 3) / 4 + 3) / 4) * 4
  let perMtile := mtilesX * mtilesY
  let utiles := (32 / render.utileWidthPx.toNat) * (32 / render.utileHeightPx.toNat)
  let blocks := tvbWindowBlocks
  let tilemapWords := (5 * perMtile * utiles + 3) / 4
  match index with
  | 0 => blocks * 4 * 4
  | 1 => blocks * 2 * 4
  | 2 => blocks * 0x20000
  | 3 => 0x10080
  | 4 => 4 * tilemapWords * 16 * render.layers.toNat
  | 5 => 0x200 + (if render.layers.toNat > 1 then 0x100 else 0)
  | 6 => 8 * utiles * perMtile * 16 * render.layers.toNat * 8
  | 7 => 9 * (0x540 + 0x280 + 0x20)
  | 8 => 0x8000
  | _ => 0

/-- The bytes that a render needs of each process range, in whole 64-KiB units. -/
def processRequiredBytes (render : NativeRender) : Option (Nat → Nat) :=
  if render.widthPx = 0 ∨ render.heightPx = 0 ∨ render.layers = 0 ∨ render.widthPx.toNat > 16384 ∨ render.heightPx.toNat > 16384 ∨
      render.layers.toNat > 2048 ∨ render.utileValid = false then none
  else if (List.range processRangeCount).any (fun i => requiredRaw render i = 0 || requiredRaw render i > 0xffff0000) = true then none
  else some (fun i => (requiredRaw render i + 0xffff) / 0x10000 * 0x10000)

theorem processRequiredBytes_some {render : NativeRender} {required : Nat → Nat} (sizes : processRequiredBytes render = some required) :
    ∀ i < processRangeCount, 0 < required i ∧ required i % 0x10000 = 0 ∧ required i ≤ 0xffff0000 ∧
      required i = (requiredRaw render i + 0xffff) / 0x10000 * 0x10000 := by
  intro i below
  unfold processRequiredBytes at sizes
  split at sizes
  · cases sizes
  split at sizes
  · cases sizes
  rename_i all
  cases sizes
  rw [Bool.not_eq_true,List.any_eq_false] at all
  have here := all i (List.mem_range.mpr below)
  simp only [Bool.or_eq_true,decide_eq_true_eq,not_or,not_lt] at here
  refine ⟨?_,?_,?_,rfl⟩ <;> dsimp only <;> omega

/-- Two stretches of addresses meet. -/
def rangesOverlap (a aBytes b bBytes : Nat) : Bool := a < b + bBytes && b < a + aBytes
def ProcessRange.meets (range other : ProcessRange) : Bool :=
  rangesOverlap range.va.toNat range.bytes.toNat other.va.toNat other.bytes.toNat

/-- The check of process range `i` of a header of version 2 that is composed. -/
def composeRangeRefused (required : Nat → Nat) (commandVa commandBytes : Nat) (ranges : Fin processRangeCount → ProcessRange)
    (i : Fin processRangeCount) : Bool :=
  let va := (ranges i).va.toNat
  let bytes := (ranges i).bytes.toNat
  decide ((ranges i).reserved ≠ 0 ∨ va < 0x10000 ∨ va ≥ vaEnd ∨ va % 0x10000 ≠ 0 ∨ bytes % 0x10000 ≠ 0 ∨ bytes < required i ∨
      bytes > vaEnd - va) || rangesOverlap va bytes commandVa commandBytes ||
    (List.finRange processRangeCount).any (fun j => j < i && (ranges i).meets (ranges j))

def composeHeaderV2 (render : NativeRender) (commandVa : U64) (commandBytes colorFormat : U32)
    (ranges : Fin processRangeCount → ProcessRange) : Option PrivateHeaderV2 :=
  match processRequiredBytes render with
  | none => none
  | some required =>
    if colorClassValid colorFormat = false ∨ commandVa.toNat < 0x10000 ∨ commandVa.toNat ≥ vaEnd ∨ commandBytes = 0 ∨
        commandBytes.toNat > nativeMaxBytes ∨ commandBytes.toNat > vaEnd - commandVa.toNat then none
    else if (List.finRange processRangeCount).any (composeRangeRefused required commandVa.toNat commandBytes.toNat ranges) = true then
      none
    else some ⟨⟨privateMagic,versionProcessVa,168,commandBytes,colorFormat,commandVa⟩,ranges⟩

def PrivateLease.named (lease : PrivateLease) : Bool :=
  lease.managerId ≠ 0 && lease.managerGeneration ≠ 0 && lease.sceneId ≠ 0 && lease.sceneGeneration ≠ 0

def composeHeaderV3 (render : NativeRender) (commandVa : U64) (commandBytes colorFormat : U32)
    (ranges : Fin processRangeCount → ProcessRange) (lease : PrivateLease) : Option PrivateHeaderV3 :=
  if lease.named = false then none
  else
    match composeHeaderV2 render commandVa commandBytes colorFormat ranges with
    | none => none
    | some header => some ⟨{ header with base := { header.base with version := versionPrivateVa, headerBytes := 200 } },lease⟩

def composeHeaderV5 (v3 : PrivateHeaderV3) (commandVa : U64) (commandBytes : U32) (preemption : ProcessRange) :
    Option PrivateHeaderV5 :=
  if preemption.bytes = 0 ∨ v3.lease.named = false then none
  else
    let base : PrivateHeader := ⟨privateMagic,versionRenderCompute,216,commandBytes,v3.v2.base.reserved,commandVa⟩
    some ⟨{ v3 with v2 := { v3.v2 with base := base } },preemption⟩

def composeHeaderCompute (commandVa : U64) (commandBytes : U32) (preemption : ProcessRange) : Option PrivateHeaderCompute :=
  let va := preemption.va.toNat
  let bytes := preemption.bytes.toNat
  if commandVa.toNat < 0x10000 ∨ commandVa.toNat ≥ vaEnd ∨ commandBytes = 0 ∨ commandBytes.toNat > nativeMaxBytes ∨
      commandBytes.toNat > vaEnd - commandVa.toNat ∨ preemption.reserved ≠ 0 ∨ va < 0x10000 ∨ va ≥ vaEnd ∨ va % 0x10000 ≠ 0 ∨
      bytes = 0 ∨ bytes % 0x10000 ≠ 0 ∨ bytes > vaEnd - va ∨ rangesOverlap va bytes commandVa.toNat commandBytes.toNat = true then none
  else some ⟨⟨privateMagic,versionCompute,40,commandBytes,0,commandVa⟩,preemption⟩

end WindowsOnM1.Submit
