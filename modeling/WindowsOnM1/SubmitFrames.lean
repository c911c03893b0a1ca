import WindowsOnM1.SubmitParseSound

/-!
The native command of a submission as bytes, and that a buffer holds these bytes exactly if
the parser reads its parts there.
-/
namespace WindowsOnM1.Submit
open ByteMemory RecordLayout BitVec Option

structure NativeCommand where
  compute : Option NativeCompute
  attachments : Option (List Attachment)
  render : NativeRender
def computeHeader : NativeHeader := ⟨nativeComputeType,64,0,0⟩
def attachmentsHeader (count : Nat) : NativeHeader := ⟨fragmentAttachments,BitVec.ofNat 16 (24 * count),0xffff,0xffff⟩
def computeFrame (compute : NativeCompute) : List Byte := nativeHeader.write computeHeader ++ nativeCompute.write compute
def attachmentsFrame (attached : List Attachment) : List Byte :=
  nativeHeader.write (attachmentsHeader attached.length) ++ attached.flatMap attachment.write
def renderFrame (withCompute : Bool) (render : NativeRender) : List Byte :=
  nativeHeader.write (renderHeader withCompute) ++ nativeRender.write render

namespace NativeCommand

/-- The compute command, the attachments and the render. -/
def bytes (command : NativeCommand) : List Byte :=
  (command.compute.elim [] computeFrame ++ command.attachments.elim [] attachmentsFrame) ++
    renderFrame command.compute.isSome command.render

/-- The offset of the attachments or of the render. -/
def start (command : NativeCommand) : Nat := if command.compute.isSome then 72 else 0
def position (command : NativeCommand) : Nat := command.start + command.attachments.elim 0 (fun attached => 8 + 24 * attached.length)

variable (command : NativeCommand)

theorem compute_length : (command.compute.elim [] computeFrame).length = command.start := by
  unfold start
  match command.compute with
  | none => rfl
  | some compute =>
    show (nativeHeader.write _ ++ nativeCompute.write compute).length = 72
    rfl

theorem position_length :
    (command.compute.elim [] computeFrame ++ command.attachments.elim [] attachmentsFrame).length = command.position := by
  rw [List.length_append,compute_length]
  unfold position
  match command.attachments with
  | none => rfl
  | some attached =>
    show command.start + (nativeHeader.write _ ++ attached.flatMap attachment.write).length = command.start + (8 + 24 * attached.length)
    have header : nativeHeader.size = 8 := record_sizes.2.1
    have element : attachment.size = 24 := record_sizes.2.2.1
    rw [List.length_append,nativeHeader.write_length,flatMap_write_length,header,element,Nat.mul_comm]

theorem bytes_length : command.bytes.length = command.position + 248 := by
  rw [bytes,List.length_append,position_length]
  show _ + (nativeHeader.write _ ++ nativeRender.write command.render).length = _
  rw [List.length_append,nativeHeader.write_length,nativeRender.write_length]
  rfl

/-- The parts of a command in a memory. -/
structure ReadsAs (memory : Memory) (native : Nat) (command : NativeCommand) : Prop where
  compute : ∀ compute, command.compute = some compute →
    nativeHeader.readAt memory native = computeHeader ∧ nativeCompute.readAt memory (native + 8) = compute
  attachments : ∀ attached, command.attachments = some attached →
    nativeHeader.readAt memory (native + command.start) = attachmentsHeader attached.length ∧
      ∀ i value, attached[i]? = some value → attachmentAt memory (native + command.start + 8) i = value
  header : nativeHeader.readAt memory (native + command.position) = renderHeader command.compute.isSome
  render : nativeRender.readAt memory (native + command.position + 8) = command.render

theorem holds_iff {memory : Memory} {native : Nat} {command : NativeCommand} :
    Holds memory native command.bytes ↔ ReadsAs memory native command := by
  have first : Holds memory native (command.compute.elim [] computeFrame) ↔ ∀ compute, command.compute = some compute →
      nativeHeader.readAt memory native = computeHeader ∧ nativeCompute.readAt memory (native + 8) = compute := by
    match command.compute with
    | none => exact iff_of_true rfl nofun
    | some compute =>
      show Holds memory native (nativeHeader.write _ ++ nativeCompute.write compute) ↔ _
      rw [holds_append,holds_write,holds_write,nativeHeader.write_length]
      exact ⟨fun both other same => by cases same; exact both,fun all => all compute rfl⟩
  have second : Holds memory (native + command.start) (command.attachments.elim [] attachmentsFrame) ↔
      ∀ attached, command.attachments = some attached →
        nativeHeader.readAt memory (native + command.start) = attachmentsHeader attached.length ∧
          ∀ i value, attached[i]? = some value → attachmentAt memory (native + command.start + 8) i = value := by
    match command.attachments with
    | none => exact iff_of_true rfl nofun
    | some attached =>
      show Holds memory _ (nativeHeader.write _ ++ attached.flatMap attachment.write) ↔ _
      rw [holds_append,holds_write,holds_flatMap,nativeHeader.write_length]
      exact ⟨fun both other same => by cases same; exact both,fun all => all attached rfl⟩
  have third : Holds memory (native + command.position) (renderFrame command.compute.isSome command.render) ↔
      nativeHeader.readAt memory (native + command.position) = renderHeader command.compute.isSome ∧
        nativeRender.readAt memory (native + command.position + 8) = command.render := by
    rw [renderFrame,holds_append,holds_write,holds_write,nativeHeader.write_length]
    rfl
  rw [bytes,holds_append,position_length,holds_append,compute_length,first,second,third]
  exact ⟨fun ⟨⟨compute,attached⟩,header,render⟩ => ⟨compute,attached,header,render⟩,
    fun reads => ⟨⟨reads.compute,reads.attachments⟩,reads.header,reads.render⟩⟩

end NativeCommand

/-- The command that the parser reads in a submission of a version. -/
def commandOf (memory : Memory) (version : U16) : NativeCommand where
  compute := if version = versionRenderCompute then some (computeOf memory version) else none
  attachments := (attachedOf memory (headerSize version) (startOf version)).base.map (fun base =>
    (List.range (attachedOf memory (headerSize version) (startOf version)).count).map (attachmentAt memory base))
  render := renderOf memory (headerSize version) (attachedOf memory (headerSize version) (startOf version))

theorem commandOf_start (memory : Memory) (version : U16) : (commandOf memory version).start = startOf version := by
  unfold NativeCommand.start commandOf startOf
  by_cases five : version = versionRenderCompute
  · rw [if_pos five,if_pos five]
    rfl
  rw [if_neg five,if_neg five]
  rfl

theorem commandOf_isSome (memory : Memory) (version : U16) :
    (commandOf memory version).compute.isSome = decide (version = versionRenderCompute) := by
  unfold commandOf
  split
  · rename_i five
    rw [decide_eq_true five]
    rfl
  rename_i five
  rw [decide_eq_false five]
  rfl

private theorem attachmentsHeader_of {header : NativeHeader} (framed : header.type = fragmentAttachments) (vdm : header.vdmBarrier = 0xffff)
    (cdm : header.cdmBarrier = 0xffff) (whole : header.size.toNat % 24 = 0) : header = attachmentsHeader (header.size.toNat / 24) := by
  refine nativeHeader_eq framed ?_ vdm cdm
  rw [Nat.mul_div_cancel' (Nat.dvd_of_mod_eq_zero whole),ofNat_toNat,setWidth_eq]

variable {buffer : Buffer} {preemptBytes : U32} {header : PrivateHeader}

theorem commandOf_position (fits : EnvelopeFits buffer preemptBytes header) :
    (commandOf buffer.memory header.version).position =
      (attachedOf buffer.memory (headerSize header.version) (startOf header.version)).position := by
  unfold NativeCommand.position
  rw [commandOf_start]
  unfold commandOf
  match there : (attachedOf buffer.memory (headerSize header.version) (startOf header.version)).base with
  | none => exact (attachedOf_none there).1.symm
  | some base =>
    obtain ⟨framed,-,position,count⟩ := attachedOf_some there
    have whole := (fits.attached framed).whole
    show startOf header.version + (8 + 24 * ((List.range _).map _).length) = _
    rw [position,List.length_map,List.length_range,count]
    omega

theorem commandOf_reads (fits : EnvelopeFits buffer preemptBytes header) :
    (commandOf buffer.memory header.version).ReadsAs buffer.memory (headerSize header.version) := by
  refine ⟨?_,?_,?_,?_⟩
  · intro compute there
    unfold commandOf at there
    by_cases five : header.version = versionRenderCompute
    · rw [if_pos five,some_inj] at there
      refine ⟨(fits.compute five).header,?_⟩
      rw [← there,computeOf,if_pos five]
    rw [if_neg five] at there
    cases there
  · intro attached there
    rw [commandOf_start]
    obtain ⟨base,found,rfl⟩ := map_eq_some_iff.mp there
    obtain ⟨framed,rfl,-,count⟩ := attachedOf_some found
    have good := fits.attached framed
    refine ⟨?_,?_⟩
    · rw [List.length_map,List.length_range,count]
      exact attachmentsHeader_of framed good.vdm good.cdm good.whole
    intro i value at_i
    rw [List.getElem?_map] at at_i
    obtain ⟨k,at_k,rfl⟩ := map_eq_some_iff.mp at_i
    obtain ⟨below,rfl⟩ := List.getElem?_eq_some_iff.mp at_k
    rw [List.getElem_range]
  · rw [commandOf_position fits,commandOf_isSome,← attachedOf_header]
    exact fits.command.header
  rw [commandOf_position fits]
  rfl

/-- What the parser finds of the attachments of a command. -/
def NativeCommand.attached (command : NativeCommand) (native : Nat) : Attached :=
  ⟨command.position,command.attachments.map (fun _ => native + command.start + 8),command.attachments.elim 0 List.length,
    renderHeader command.compute.isSome⟩
theorem attachmentsHeader_size {count : Nat} (few : 24 * count < 2 ^ 16) : (attachmentsHeader count).size.toNat = 24 * count := by
  show (BitVec.ofNat 16 (24 * count)).toNat = _
  exact Nat.mod_eq_of_lt few

theorem attachedOf_reads {memory : Memory} {native : Nat} {command : NativeCommand} (reads : command.ReadsAs memory native)
    (few : ∀ attached, command.attachments = some attached → 24 * attached.length < 2 ^ 16) :
    attachedOf memory native command.start = command.attached native := by
  have header := reads.header
  unfold attachedOf NativeCommand.attached NativeCommand.position
  unfold NativeCommand.position at header
  match there : command.attachments with
  | none =>
    rw [there] at header
    change nativeHeader.readAt memory (native + command.start) = _ at header
    rw [header]
    exact if_neg (show ¬ nativeRenderType = fragmentAttachments by decide)
  | some attached =>
    obtain ⟨first,-⟩ := reads.attachments attached there
    have size := attachmentsHeader_size (few attached there)
    rw [there] at header
    dsimp only [elim_some] at header
    rw [first]
    rw [if_pos (show (attachmentsHeader attached.length).type = fragmentAttachments from rfl),size,
      Nat.mul_div_cancel_left _ (by decide : 0 < 24),Nat.add_assoc command.start,header]
    rfl

end WindowsOnM1.Submit
