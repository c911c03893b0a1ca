import WindowsOnM1.SubmitParse

/-!
What each part of the submission parsers does: the condition under which it passes, the value
that it gives and the requests that it asks for.
-/
namespace WindowsOnM1.Submit
open AskParse ByteMemory List
open Bool (not_eq_false not_eq_true or_eq_false_iff)
open BitVec (ofNat toNat toNat_and toNat_inj)

theorem validVa_iff {va bytes : Nat} : validVa va bytes = true ↔ 0x10000 ≤ va ∧ 0 < bytes ∧ va + bytes ≤ vaEnd := by
  unfold validVa
  simp only [Bool.and_eq_true,decide_eq_true_eq]
  omega
theorem whole_iff (va : U64) : va &&& 0xffff = 0 ↔ va.toNat % 0x10000 = 0 := by
  rw [← toNat_inj,toNat_and]
  exact iff_of_eq (congrArg (· = 0) (Nat.and_two_pow_sub_one_eq_mod va.toNat 16))
theorem whole_bytes_iff (bytes : U32) : bytes &&& 0xffff = 0 ↔ bytes.toNat % 0x10000 = 0 := by
  rw [← toNat_inj,toNat_and]
  exact iff_of_eq (congrArg (· = 0) (Nat.and_two_pow_sub_one_eq_mod bytes.toNat 16))
theorem word_iff (va : U64) : va &&& 3 = 0 ↔ va.toNat % 4 = 0 := by
  rw [← toNat_inj,toNat_and]
  exact iff_of_eq (congrArg (· = 0) (Nat.and_two_pow_sub_one_eq_mod va.toNat 2))
theorem rangesOverlap_iff {a aBytes b bBytes : Nat} : rangesOverlap a aBytes b bBytes = false ↔ a + aBytes ≤ b ∨ b + bBytes ≤ a := by
  unfold rangesOverlap
  simp only [Bool.and_eq_false_iff,decide_eq_false_iff_not,not_lt]
  exact or_comm

variable {bytes : U32}

theorem zero_bytes_iff : 0 < bytes.toNat ↔ bytes ≠ 0 := by
  rw [Nat.pos_iff_ne_zero,ne_eq,ne_eq,← toNat_inj]
  rfl

/-- The requests of a list of addresses. -/
def RenderAddress.requests (address : RenderAddress) : List AccessRequest :=
  if address.va = 0 then [] else [⟨address.va,address.bytes,address.write,.render⟩]
def RenderAddress.Fits (address : RenderAddress) : Prop := address.va ≠ 0 → validVa address.va.toNat address.bytes.toNat = true

structure RenderFits (render : NativeRender) : Prop where
  fields : render.fieldsRefused = false
  unnamed : render.timestampsVertex.named = false ∧ render.timestampsFragment.named = false
  unmoved : render.timestampsVertex.moved = false ∧ render.timestampsFragment.moved = false
  heap : render.ispOclQryBase &&& 7 = 0
  stream : render.vdmCtrlStreamBase ≠ 0
  addresses : ∀ address ∈ renderAddresses render, address.Fits

def renderRequests (render : NativeRender) : List AccessRequest := (renderAddresses render).flatMap RenderAddress.requests

variable {access : Access}

theorem checkAccess_does {va : U64} {write : Bool} {kind : AccessKind} :
    Does access (checkAccess access va bytes write kind) True ⟨⟩ [⟨va,bytes,write,kind⟩] :=
  Does.ask

theorem RenderAddress.check_does (access : Access) (address : RenderAddress) :
    Does access (address.check access) address.Fits ⟨⟩ address.requests := by
  by_cases zero : address.va = 0
  · unfold RenderAddress.check RenderAddress.requests
    rw [if_pos zero,if_pos zero]
    exact Does.pure.iff (iff_of_true trivial (fun present => absurd zero present))
  unfold RenderAddress.check RenderAddress.requests
  rw [if_neg zero,if_neg zero]
  refine (Does.passing (fun _ => checkAccess_does)).iff ?_
  rw [and_true,not_eq_false]
  exact ⟨fun fits _ => fits,fun fits => fits zero⟩

theorem validateRender_does (access : Access) (render : NativeRender) :
    Does access (validateRender access render) (RenderFits render) ⟨⟩ (renderRequests render) := by
  refine (Does.passing (fun _ => Does.passing (fun _ => Does.passing (fun _ => Does.passing (fun _ => Does.passing (fun _ =>
    Does.forEach (fun address _ => address.check_does access))))))).iff ?_
  simp only [not_eq_true,not_or,ne_eq,not_not]
  constructor
  · rintro ⟨fields,unnamed,unmoved,heap,stream,addresses⟩
    exact ⟨fields,unnamed,unmoved,heap,stream,addresses⟩
  intro fits
  exact ⟨fits.fields,fits.unnamed,fits.unmoved,fits.heap,fits.stream,fits.addresses⟩

def samplerRequests (compute : NativeCompute) : List AccessRequest :=
  if compute.samplerCount ≠ 0 then [⟨compute.samplerHeap,compute.samplerCount * ofNat 32 samplerBytes,false,.samplerHeap⟩] else []
def helperRequests (compute : NativeCompute) : List AccessRequest :=
  if compute.helper.binary ≠ 0 then
    [⟨uscVa compute.helper.binary,1,false,.computeStream⟩,⟨compute.helper.data,1,false,.computeStream⟩]
  else []
def computeRequests (compute : NativeCompute) (preemption : ProcessRange) : List AccessRequest :=
  [⟨compute.cdmCtrlStreamBase,ofNat 32 compute.streamBytes,false,.computeStream⟩] ++ (samplerRequests compute ++
    (helperRequests compute ++ [⟨preemption.va,preemption.bytes,true,.computePreemption⟩]))

section
variable (access) (compute : NativeCompute)
include compute

private theorem samplerAccess_does : Does access (samplerAccess access compute) True ⟨⟩ (samplerRequests compute) :=
  (Does.ite (fun _ => checkAccess_does) (fun _ => Does.pure)).iff (by rw [ite_self])
private theorem helperAccess_does : Does access (helperAccess access compute) True ⟨⟩ (helperRequests compute) :=
  (Does.ite (fun _ => checkAccess_does.bind (fun _ => checkAccess_does)) (fun _ => Does.pure)).iff (by rw [true_and,ite_self])
theorem validateComputeAccess_does (preemption : ProcessRange) :
    Does access (validateComputeAccess access compute preemption) True ⟨⟩ (computeRequests compute preemption) :=
  (checkAccess_does.bind (fun _ => (samplerAccess_does access compute).bind (fun _ => (helperAccess_does access compute).bind
    (fun _ => checkAccess_does)))).iff (by simp)

end

structure HeaderFits (buffer : Buffer) (preemptBytes : U32) (header : PrivateHeader) : Prop where
  magic : header.magic = privateMagic
  known : header.version = privateVersion ∨ header.version = versionProcessVa ∨ header.version = versionPrivateVa ∨
    header.version = versionRenderCompute
  sized : header.headerBytes.toNat = headerSize header.version
  plain : header.version = privateVersion → header.reserved = 0
  placed : header.commandVa = buffer.dmaVa
  counted : header.commandBytes = buffer.dmaBytes
  filled : buffer.umd = header.headerBytes.toNat + buffer.dmaBytes.toNat
  required : header.version = versionRenderCompute → preemptBytes ≠ 0

private theorem parseHeader_does {buffer : Buffer} (preemptBytes : U32) (long : 24 ≤ buffer.umd) :
    Does buffer.access (parseHeader buffer preemptBytes) (HeaderFits buffer preemptBytes (privateHeader.readAt buffer.memory 0))
      (privateHeader.readAt buffer.memory 0) [] := by
  apply Does.iff
  · exact Does.fetching long (Does.passing (fun _ => Does.passing (fun _ => Does.pure)))
  generalize privateHeader.readAt buffer.memory 0 = header
  simp only [headerRefused,not_and,not_eq_true,or_eq_false_iff,Bool.and_eq_false_iff,decide_eq_false_iff_not,ne_eq,not_not,
    and_true]
  constructor
  · rintro ⟨required,⟨⟨⟨⟨⟨magic,known⟩,sized⟩,plain⟩,placed⟩,counted⟩,filled⟩
    refine ⟨magic,?_,sized,?_,placed,counted,filled,required magic⟩
    · rcases known with ((one | two) | three) | five
      exacts [.inl one,.inr (.inl two),.inr (.inr (.inl three)),.inr (.inr (.inr five))]
    intro one
    exact plain.resolve_left (fun other => other one)
  intro fits
  refine ⟨fun _ => fits.required,⟨⟨⟨⟨⟨fits.magic,?_⟩,fits.sized⟩,?_⟩,fits.placed⟩,fits.counted⟩,fits.filled⟩
  · rcases fits.known with one | two | three | five
    exacts [.inl (.inl (.inl one)),.inl (.inl (.inr two)),.inl (.inr three),.inr five]
  by_cases one : header.version = privateVersion
  · exact .inr (fits.plain one)
  exact .inl one

structure ProcessFits (buffer : Buffer) (process : Fin processRangeCount → ProcessRange) (i : Fin processRangeCount) : Prop where
  reserved : (process i).reserved = 0
  aligned : (process i).va.toNat % 0x10000 = 0
  whole : (process i).bytes.toNat % 0x10000 = 0
  valid : validVa (process i).va.toNat (process i).bytes.toNat = true
  command : rangesOverlap (process i).va.toNat (process i).bytes.toNat buffer.dmaVa.toNat buffer.dmaBytes.toNat = false
  earlier : ∀ j < i, (process i).meets (process j) = false

def ProcessRange.request (range : ProcessRange) : AccessRequest := ⟨range.va,range.bytes,true,.process⟩

private theorem processCheck_does (buffer : Buffer) (process : Fin processRangeCount → ProcessRange) (i : Fin processRangeCount) :
    Does buffer.access (processCheck buffer process i) (ProcessFits buffer process i) ⟨⟩ [(process i).request] := by
  refine (Does.passing (fun _ => Does.passing (fun _ => checkAccess_does))).iff ?_
  simp only [ProcessRange.refused,not_eq_true,or_eq_false_iff,decide_eq_false_iff_not,ne_eq,not_not,any_eq_false,
    mem_finRange,forall_const,Bool.and_eq_true,decide_eq_true_eq,not_and,and_true,not_eq_false]
  constructor
  · rintro ⟨⟨⟨⟨⟨⟨reserved,-⟩,aligned⟩,whole⟩,valid⟩,command⟩,earlier⟩
    exact ⟨reserved,(whole_iff _).mp aligned,(whole_bytes_iff _).mp whole,valid,command,earlier⟩
  intro fits
  have present := zero_bytes_iff.mp (validVa_iff.mp fits.valid).2.1
  exact ⟨⟨⟨⟨⟨⟨fits.reserved,present⟩,(whole_iff _).mpr fits.aligned⟩,(whole_bytes_iff _).mpr fits.whole⟩,fits.valid⟩,fits.command⟩,
    fits.earlier⟩

/-- A header of this version names a lease. -/
def Leased (version : U16) : Prop := version = versionPrivateVa ∨ version = versionRenderCompute
instance (version : U16) : Decidable (Leased version) := inferInstanceAs (Decidable (_ ∨ _))
def preemptionOf (memory : Memory) (version : U16) : ProcessRange :=
  if version = versionRenderCompute then (privateHeaderV5.readAt memory 0).preemption else processRange.zero
def leaseOf (memory : Memory) (version : U16) : PrivateLease :=
  if Leased version then (privateHeaderV3.readAt memory 0).lease else privateLease.zero
def tailOf (memory : Memory) (version : U16) : HeaderTail :=
  if version ≥ versionProcessVa then ⟨(privateHeaderV2.readAt memory 0).process,leaseOf memory version,preemptionOf memory version⟩
  else .zero
structure TailFits (buffer : Buffer) (header : PrivateHeader) : Prop where
  colour : header.version ≥ versionProcessVa → colorClassValid header.reserved = true
  lease : Leased header.version → (leaseOf buffer.memory header.version).named = true
  process : header.version ≥ versionProcessVa → ∀ i, ProcessFits buffer (privateHeaderV2.readAt buffer.memory 0).process i
def processRequests (memory : Memory) (version : U16) : List AccessRequest :=
  if version ≥ versionProcessVa then
    (List.finRange processRangeCount).map (fun i => ((privateHeaderV2.readAt memory 0).process i).request)
  else []

variable {buffer : Buffer} {version : U16}

private theorem parsePreemption_does (long : headerSize version ≤ buffer.umd) :
    Does buffer.access (parsePreemption buffer version) True (preemptionOf buffer.memory version) [] := by
  refine ((Does.ite (fun five => ?_) (fun _ => Does.pure)).iff (by rw [ite_self])).giving
    (fun _ => ⟨rfl,by rw [ite_self]⟩)
  refine Does.fetching ?_ Does.pure
  rw [five] at long
  exact long

private theorem parseLease_does (long : headerSize version ≤ buffer.umd) :
    Does buffer.access (parseLease buffer version) (Leased version → (leaseOf buffer.memory version).named = true)
      (leaseOf buffer.memory version,preemptionOf buffer.memory version) [] := by
  by_cases leased : Leased version
  · have lease : leaseOf buffer.memory version = (privateHeaderV3.readAt buffer.memory 0).lease := if_pos leased
    have size : ¬ buffer.umd < if version = versionRenderCompute then 216 else 200 := by
      rcases leased with rfl | rfl
      all_goals exact Nat.not_lt.mpr long
    have inside : 0 + privateHeaderV3.size ≤ buffer.umd := by
      rcases leased with rfl | rfl
      · exact long
      exact (show 200 ≤ 216 by decide).trans long
    have either : version = versionPrivateVa ∨ version = versionRenderCompute := leased
    unfold parseLease
    rw [if_pos either,lease]
    apply Does.iff
    · exact Does.passing (fun _ => Does.fetching inside ((parsePreemption_does long).bind (fun _ => Does.passing (fun _ => Does.pure))))
    simp only [size,not_false_eq_true,true_and,and_true,not_eq_false]
    exact ⟨fun named _ => named,fun named => named leased⟩
  have lease : leaseOf buffer.memory version = privateLease.zero := if_neg leased
  have preemption : preemptionOf buffer.memory version = processRange.zero := if_neg (fun five => leased (.inr five))
  have neither : ¬ (version = versionPrivateVa ∨ version = versionRenderCompute) := leased
  unfold parseLease
  rw [if_neg neither,lease,preemption]
  exact Does.pure.iff (iff_of_true trivial (fun yes => absurd yes leased))

variable {preemptBytes : U32} {header : PrivateHeader}

private theorem parseTail_does (fits : HeaderFits buffer preemptBytes header) :
    Does buffer.access (parseTail buffer header) (TailFits buffer header) (tailOf buffer.memory header.version)
      (processRequests buffer.memory header.version) := by
  have long : headerSize header.version ≤ buffer.umd := by
    rw [fits.filled,fits.sized]
    exact Nat.le_add_right _ _
  unfold parseTail tailOf
  by_cases newer : header.version ≥ versionProcessVa
  · have size : 168 ≤ buffer.umd := by
      refine Nat.le_trans ?_ long
      rcases fits.known with one | two | three | five
      · rw [one] at newer
        cases (show ¬ (privateVersion ≥ versionProcessVa) by decide) newer
      · rw [two]
        decide
      · rw [three]
        decide
      rw [five]
      decide
    rw [if_pos newer,if_pos newer]
    have ranges : processRequests buffer.memory header.version =
        [] ++ ((finRange processRangeCount).flatMap (fun i => [((privateHeaderV2.readAt buffer.memory 0).process i).request]) ++ []) := by
      rw [processRequests,if_pos newer,map_eq_flatMap,append_nil,nil_append]
    rw [ranges]
    apply Does.iff
    · exact Does.passing (fun _ => Does.passing (fun _ => Does.fetching size ((parseLease_does long).bind (fun _ =>
        (Does.forEach (fun i _ => processCheck_does buffer _ i)).bind (fun _ => Does.pure)))))
    simp only [not_eq_false,not_lt,size,true_and,and_true,mem_finRange,forall_const]
    constructor
    · rintro ⟨colour,lease,process⟩
      exact ⟨fun _ => colour,lease,fun _ => process⟩
    intro tail
    exact ⟨tail.colour newer,tail.lease,tail.process newer⟩
  rw [if_neg newer,if_neg newer,processRequests,if_neg newer]
  refine Does.pure.iff (iff_of_true trivial ⟨fun yes => absurd yes newer,?_,fun yes => absurd yes newer⟩)
  rintro (three | five)
  · rw [three] at newer
    exact absurd (by decide) newer
  rw [five] at newer
  exact absurd (by decide) newer

theorem nativeHeader_eq {header : NativeHeader} {type size vdm cdm : U16} (typed : header.type = type) (sized : header.size = size)
    (vdmIs : header.vdmBarrier = vdm) (cdmIs : header.cdmBarrier = cdm) : header = ⟨type,size,vdm,cdm⟩ := by
  subst typed sized vdmIs cdmIs
  rfl

/-- Where the attachments or the render start in the command. -/
def startOf (version : U16) : Nat := if version = versionRenderCompute then 72 else 0
def computeOf (memory : Memory) (version : U16) : NativeCompute :=
  if version = versionRenderCompute then nativeCompute.readAt memory (headerSize version + 8) else nativeCompute.zero

structure ComputeFits (buffer : Buffer) (preemptBytes : U32) (version : U16) : Prop where
  header : nativeHeader.readAt buffer.memory (headerSize version) = ⟨nativeComputeType,64,0,0⟩
  fields : validateComputeFields (computeOf buffer.memory version) (preemptionOf buffer.memory version) preemptBytes buffer.dmaVa
    buffer.dmaBytes = .ok
  room : 80 ≤ buffer.dmaBytes.toNat

def commandRequests (memory : Memory) (version : U16) : List AccessRequest :=
  if version = versionRenderCompute then computeRequests (computeOf memory version) (preemptionOf memory version) else []

private theorem parseCompute_does (fits : HeaderFits buffer preemptBytes header) (least : 8 ≤ buffer.dmaBytes.toNat) :
    Does buffer.access (parseCompute buffer header preemptBytes (preemptionOf buffer.memory header.version))
      (header.version = versionRenderCompute → ComputeFits buffer preemptBytes header.version)
      (startOf header.version,computeOf buffer.memory header.version) (commandRequests buffer.memory header.version) := by
  have filled := fits.filled
  by_cases five : header.version = versionRenderCompute
  · have compute : computeOf buffer.memory header.version = nativeCompute.readAt buffer.memory (headerSize header.version + 8) :=
      if_pos five
    have start : startOf header.version = 72 := if_pos five
    have requests : commandRequests buffer.memory header.version = computeRequests (computeOf buffer.memory header.version)
        (preemptionOf buffer.memory header.version) ++ [] := by
      rw [commandRequests,if_pos five,append_nil]
    unfold parseCompute
    rw [if_pos five,requests,start,fits.sized,compute]
    rw [fits.sized] at filled
    have inside : ¬ buffer.dmaBytes.toNat - 8 < 64 → headerSize header.version + 8 + nativeCompute.size ≤ buffer.umd := by
      intro room
      have size : nativeCompute.size = 64 := record_sizes.2.2.2.2.2.2.2.2.1
      omega
    apply Does.iff
    · exact Does.fetching (Nat.le_trans (Nat.add_le_add_left least _) filled.ge) (Does.passing (fun good =>
        Does.fetching (inside (fun short => good (.inr (.inr (.inr (.inr short)))))) (Does.passing (fun _ =>
          (validateComputeAccess_does _ _ _).bind (fun _ => Does.passing (fun _ => Does.pure))))))
    rw [← compute]
    constructor
    · rintro ⟨framed,fields,-,room,-⟩ -
      simp only [not_or,not_not,ne_eq,not_lt] at framed fields room
      obtain ⟨type,size,vdm,cdm,long⟩ := framed
      exact ⟨nativeHeader_eq type size vdm cdm,fields,by omega⟩
    intro here
    have room := (here five).room
    refine ⟨?_,?_,trivial,by omega,trivial⟩
    · rw [(here five).header]
      simp only [ne_eq,not_true_eq_false,false_or,not_lt]
      omega
    exact fun bad => bad (here five).fields
  have compute : computeOf buffer.memory header.version = nativeCompute.zero := if_neg five
  have start : startOf header.version = 0 := if_neg five
  unfold parseCompute
  rw [if_neg five,start,compute,commandRequests,if_neg five]
  exact Does.pure.iff (iff_of_true trivial (fun yes => absurd yes five))

/-! ### The attachments -/

def Attachment.request (attached : Attachment) : AccessRequest := ⟨attached.pointer,attached.size.setWidth 32,true,.attachment⟩

/-- The native headers of the attachments and of the render, and the attachments between them. -/
def attachedOf (memory : Memory) (native start : Nat) : Attached :=
  let first := nativeHeader.readAt memory (native + start)
  if first.type = fragmentAttachments then
    ⟨start + 8 + first.size.toNat,some (native + start + 8),first.size.toNat / 24,
      nativeHeader.readAt memory (native + (start + 8 + first.size.toNat))⟩
  else ⟨start,none,0,first⟩

def attachmentAt (memory : Memory) (base i : Nat) : Attachment := attachment.readAt memory (base + i * 24)

structure AttachmentsFit (buffer : Buffer) (native start : Nat) (first : NativeHeader) : Prop where
  vdm : first.vdmBarrier = 0xffff
  cdm : first.cdmBarrier = 0xffff
  whole : first.size.toNat % 24 = 0
  room : start + 8 + first.size.toNat + 8 ≤ buffer.dmaBytes.toNat
  fits : ∀ i < first.size.toNat / 24, (attachmentAt buffer.memory (native + start + 8) i).refused = false

def attachmentRequests (memory : Memory) (native start : Nat) : List AccessRequest :=
  (List.range (attachedOf memory native start).count).map (fun i => (attachmentAt memory (native + start + 8) i).request)

private theorem attachmentCheck_does {base i : Nat} (inside : base + i * 24 + 24 ≤ buffer.umd) :
    Does buffer.access (attachmentCheck buffer base i) ((attachmentAt buffer.memory base i).refused = false) ⟨⟩
      [(attachmentAt buffer.memory base i).request] := by
  apply Does.iff
  · exact Does.fetching inside (Does.passing (fun _ => checkAccess_does))
  rw [and_true,not_eq_true]
  rfl

private theorem parseAttachments_does {native start : Nat} (filled : buffer.umd = native + buffer.dmaBytes.toNat)
    (room : start + 8 ≤ buffer.dmaBytes.toNat) : Does buffer.access (parseAttachments buffer native start)
      ((nativeHeader.readAt buffer.memory (native + start)).type = fragmentAttachments →
        AttachmentsFit buffer native start (nativeHeader.readAt buffer.memory (native + start)))
      (attachedOf buffer.memory native start) (attachmentRequests buffer.memory native start) := by
  have inside : native + start + nativeHeader.size ≤ buffer.umd := by
    rw [filled,Nat.add_assoc]
    exact Nat.add_le_add_left room _
  refine Does.fetching inside ?_
  unfold attachmentRequests attachedOf
  generalize nativeHeader.readAt buffer.memory (native + start) = first
  by_cases framed : first.type = fragmentAttachments
  · rw [if_pos framed,if_pos framed]
    have requests : (List.range (first.size.toNat / 24)).map (fun i => (attachmentAt buffer.memory (native + start + 8) i).request) =
        (List.range (first.size.toNat / 24)).flatMap (fun i => [(attachmentAt buffer.memory (native + start + 8) i).request]) ++ [] := by
      rw [map_eq_flatMap,append_nil]
    rw [requests]
    have turn : ¬ first.size.toNat > buffer.dmaBytes.toNat - start - 8 → ∀ i ∈ List.range (first.size.toNat / 24),
        native + start + 8 + i * 24 + 24 ≤ buffer.umd := by
      intro short i mem
      have below := mem_range.mp mem
      omega
    have next : ¬ buffer.dmaBytes.toNat - (start + 8 + first.size.toNat) < 8 →
        native + (start + 8 + first.size.toNat) + nativeHeader.size ≤ buffer.umd := by
      intro long
      have size : nativeHeader.size = 8 := record_sizes.2.1
      omega
    apply Does.iff
    · exact Does.passing (fun good => (Does.forEach (fun i mem =>
        attachmentCheck_does (turn (fun long => good (.inr (.inr (.inr long)))) i mem))).bind (fun _ => Does.passing (fun long =>
          Does.fetching (next long) Does.pure)))
    simp only [not_or,not_not,ne_eq,not_lt,mem_range,and_true]
    constructor
    · rintro ⟨⟨vdm,cdm,whole,short⟩,fits,long⟩ -
      exact ⟨vdm,cdm,whole,by omega,fits⟩
    intro here
    obtain ⟨vdm,cdm,whole,long,fits⟩ := here framed
    exact ⟨⟨vdm,cdm,whole,by omega⟩,fits,by omega⟩
  rw [if_neg framed,if_neg framed]
  exact Does.pure.iff (iff_of_true trivial (fun yes => absurd yes framed))

/-- The native header of a render, which waits on the compute command before it. -/
def renderHeader (withCompute : Bool) : NativeHeader :=
  ⟨nativeRenderType,240,if withCompute then 0xffff else 0,if withCompute then 1 else 0⟩
def renderOf (memory : Memory) (native : Nat) (attached : Attached) : NativeRender :=
  nativeRender.readAt memory (native + attached.position + 8)

structure CommandFits (buffer : Buffer) (version : U16) (process : Fin processRangeCount → ProcessRange) (attached : Attached) : Prop where
  header : attached.header = renderHeader (version = versionRenderCompute)
  ends : attached.position + 248 = buffer.dmaBytes.toNat
  render : RenderFits (renderOf buffer.memory (headerSize version) attached)
  required : version ≥ versionProcessVa → rangesTooSmall (renderOf buffer.memory (headerSize version) attached) process = false

private theorem parseRender_does (fits : HeaderFits buffer preemptBytes header)
    (process : Fin processRangeCount → ProcessRange) (attached : Attached) :
    Does buffer.access (parseRender buffer header process attached) (CommandFits buffer header.version process attached)
      (headerSize header.version + attached.position + 8)
      (renderRequests (renderOf buffer.memory (headerSize header.version) attached)) := by
  have filled := fits.filled
  unfold parseRender
  rw [fits.sized] at filled ⊢
  have requests : renderRequests (renderOf buffer.memory (headerSize header.version) attached) =
      renderRequests (renderOf buffer.memory (headerSize header.version) attached) ++ [] := (append_nil _).symm
  have ends : renderHeaderRefused attached.header (header.version = versionRenderCompute)
      (buffer.dmaBytes.toNat - attached.position) = false →
        attached.header.size = 240 ∧ attached.position + 248 = buffer.dmaBytes.toNat := by
    intro framed
    simp only [renderHeaderRefused,or_eq_false_iff,decide_eq_false_iff_not,ne_eq,not_not] at framed
    obtain ⟨⟨⟨size,-⟩,-⟩,left⟩ := framed
    rw [size] at left
    have value : toNat (240 : U16) = 240 := rfl
    exact ⟨size,by omega⟩
  have inside : renderHeaderRefused attached.header (header.version = versionRenderCompute)
      (buffer.dmaBytes.toNat - attached.position) = false →
        headerSize header.version + attached.position + 8 + nativeRender.size ≤ buffer.umd := by
    intro framed
    have size : nativeRender.size = 240 := record_sizes.2.2.2.1
    have left := (ends framed).2
    omega
  rw [requests]
  apply Does.iff
  · exact Does.passing (fun _ => Does.passing (fun framed => Does.fetching (inside (not_eq_true _ ▸ framed))
      ((validateRender_does _ _).bind (fun _ => Does.passing (fun _ => Does.pure)))))
  simp only [ne_eq,not_not,not_eq_true,not_and,and_true]
  constructor
  · rintro ⟨type,framed,render,required⟩
    have last := (ends framed).2
    simp only [renderHeaderRefused,or_eq_false_iff,decide_eq_false_iff_not,ne_eq,not_not] at framed
    exact ⟨nativeHeader_eq type framed.1.1.1 framed.1.1.2 framed.1.2,last,render,required⟩
  intro here
  refine ⟨by rw [here.header]; rfl,?_,here.render,here.required⟩
  have last := here.ends
  have left : buffer.dmaBytes.toNat - attached.position = 248 := by omega
  rw [here.header,left]
  simp only [renderHeaderRefused,renderHeader,or_eq_false_iff,decide_eq_false_iff_not,ne_eq,not_not,and_self,true_and]
  rfl

/-- What a parse of a buffer passes. -/
structure EnvelopeFits (buffer : Buffer) (preemptBytes : U32) (header : PrivateHeader) : Prop where
  head : HeaderFits buffer preemptBytes header
  tail : TailFits buffer header
  least : 8 ≤ buffer.dmaBytes.toNat
  compute : header.version = versionRenderCompute → ComputeFits buffer preemptBytes header.version
  attached : (nativeHeader.readAt buffer.memory (headerSize header.version + startOf header.version)).type = fragmentAttachments →
    AttachmentsFit buffer (headerSize header.version) (startOf header.version)
      (nativeHeader.readAt buffer.memory (headerSize header.version + startOf header.version))
  command : CommandFits buffer header.version (tailOf buffer.memory header.version).process
    (attachedOf buffer.memory (headerSize header.version) (startOf header.version))

def viewOf (buffer : Buffer) (header : PrivateHeader) : SubmitView :=
  let tail := tailOf buffer.memory header.version
  let attached := attachedOf buffer.memory (headerSize header.version) (startOf header.version)
  { SubmitView.zero with
    lease := tail.lease
    native := some (headerSize header.version)
    render := some (headerSize header.version + attached.position + 8)
    attachments := attached.base
    commandBytes := buffer.dmaBytes
    renderBytes := attached.header.size.setWidth 32
    attachmentCount := ofNat 32 attached.count
    commandVa := buffer.dmaVa
    colorFormat := if header.version ≥ versionProcessVa then header.reserved else 0
    process := if header.version ≥ versionProcessVa then tail.process else SubmitView.zero.process
    hasCompute := header.version = versionRenderCompute
    compute := if header.version = versionRenderCompute then computeOf buffer.memory header.version else nativeCompute.zero
    preemption := if header.version = versionRenderCompute then tail.preemption else processRange.zero }

def envelopeRequests (buffer : Buffer) (version : U16) : List AccessRequest :=
  processRequests buffer.memory version ++ ([⟨buffer.dmaVa,buffer.dmaBytes,false,.cpuEnvelope⟩] ++ (commandRequests buffer.memory version ++
    (attachmentRequests buffer.memory (headerSize version) (startOf version) ++
      renderRequests (renderOf buffer.memory (headerSize version) (attachedOf buffer.memory (headerSize version) (startOf version))))))

theorem tail_preemption (fits : HeaderFits buffer preemptBytes header) :
    (tailOf buffer.memory header.version).preemption = preemptionOf buffer.memory header.version := by
  unfold tailOf
  by_cases newer : header.version ≥ versionProcessVa
  · rw [if_pos newer]
  rcases fits.known with one | two | three | five
  · rw [one]
    rfl
  · rw [two] at newer
    exact absurd (by decide) newer
  · rw [three] at newer
    exact absurd (by decide) newer
  rw [five] at newer
  exact absurd (by decide) newer

theorem parseEnvelope_does {buffer : Buffer} (preemptBytes : U32) (long : 24 ≤ buffer.umd) :
    Does buffer.access (parseEnvelope buffer preemptBytes)
      (EnvelopeFits buffer preemptBytes (privateHeader.readAt buffer.memory 0))
      (viewOf buffer (privateHeader.readAt buffer.memory 0))
      (envelopeRequests buffer (privateHeader.readAt buffer.memory 0).version) := by
  have first := @parseHeader_does buffer preemptBytes long
  generalize privateHeader.readAt buffer.memory 0 = header at first ⊢
  have compute : HeaderFits buffer preemptBytes header → ¬ buffer.dmaBytes.toNat < 8 →
      Does buffer.access (parseCompute buffer header preemptBytes (tailOf buffer.memory header.version).preemption)
        (header.version = versionRenderCompute → ComputeFits buffer preemptBytes header.version)
        (startOf header.version,computeOf buffer.memory header.version) (commandRequests buffer.memory header.version) := by
    intro fits least
    rw [tail_preemption fits]
    exact parseCompute_does fits (Nat.le_of_not_lt least)
  have attached : HeaderFits buffer preemptBytes header → ¬ buffer.dmaBytes.toNat < 8 →
      (header.version = versionRenderCompute → ComputeFits buffer preemptBytes header.version) →
      Does buffer.access (parseAttachments buffer header.headerBytes.toNat (startOf header.version))
        ((nativeHeader.readAt buffer.memory (headerSize header.version + startOf header.version)).type = fragmentAttachments →
          AttachmentsFit buffer (headerSize header.version) (startOf header.version)
            (nativeHeader.readAt buffer.memory (headerSize header.version + startOf header.version)))
        (attachedOf buffer.memory (headerSize header.version) (startOf header.version))
        (attachmentRequests buffer.memory (headerSize header.version) (startOf header.version)) := by
    intro fits least here
    have filled := fits.filled
    rw [fits.sized] at filled ⊢
    refine parseAttachments_does filled ?_
    by_cases five : header.version = versionRenderCompute
    · rw [startOf,if_pos five]
      exact (here five).room
    rw [startOf,if_neg five]
    exact Nat.le_of_not_lt least
  have requests : envelopeRequests buffer header.version = [] ++ (processRequests buffer.memory header.version ++
      ([⟨buffer.dmaVa,buffer.dmaBytes,false,.cpuEnvelope⟩] ++ ([] ++ (commandRequests buffer.memory header.version ++
        (attachmentRequests buffer.memory (headerSize header.version) (startOf header.version) ++
          (renderRequests (renderOf buffer.memory (headerSize header.version)
            (attachedOf buffer.memory (headerSize header.version) (startOf header.version))) ++ [])))))) := by
    rw [append_nil,nil_append,nil_append]
    rfl
  rw [requests]
  apply Does.iff
  · apply Does.giving
    · exact first.bind (fun fits => (parseTail_does fits).bind (fun _ => checkAccess_does.bind (fun _ => Does.passing (fun least =>
        (compute fits least).bind (fun here => (attached fits least here).bind (fun _ => (parseRender_does fits _ _).bind (fun _ =>
          Does.pure)))))))
    rintro ⟨fits,-⟩
    rw [viewOf,fits.sized]
    exact ⟨rfl,rfl⟩
  constructor
  · rintro ⟨head,tail,-,least,compute,attached,command,-⟩
    exact ⟨head,tail,Nat.le_of_not_lt least,compute,attached,command⟩
  intro fits
  exact ⟨fits.head,fits.tail,trivial,Nat.not_lt.mpr fits.least,fits.compute,fits.attached,fits.command,trivial⟩

structure ComputeEnvelopeFits (buffer : Buffer) (preemptBytes : U32) : Prop where
  base : (privateHeaderCompute.readAt buffer.memory 0).base = ⟨privateMagic,versionCompute,40,buffer.dmaBytes,0,buffer.dmaVa⟩
  filled : buffer.umd = 40 + buffer.dmaBytes.toNat
  exact : buffer.dmaBytes.toNat = 72
  header : nativeHeader.readAt buffer.memory 40 = ⟨nativeComputeType,64,0,0⟩
  fields : validateComputeFields (nativeCompute.readAt buffer.memory 48) (privateHeaderCompute.readAt buffer.memory 0).preemption preemptBytes
    buffer.dmaVa buffer.dmaBytes = .ok

def computeViewOf (buffer : Buffer) : ComputeView :=
  ⟨some 40,nativeCompute.readAt buffer.memory 48,(privateHeaderCompute.readAt buffer.memory 0).preemption,buffer.dmaBytes,buffer.dmaVa⟩
def computeEnvelopeRequests (buffer : Buffer) : List AccessRequest :=
  [⟨buffer.dmaVa,buffer.dmaBytes,false,.cpuEnvelope⟩] ++
    computeRequests (nativeCompute.readAt buffer.memory 48) (privateHeaderCompute.readAt buffer.memory 0).preemption

theorem computeHeaderRefused_iff : computeHeaderRefused buffer header = false ↔
    header = ⟨privateMagic,versionCompute,40,buffer.dmaBytes,0,buffer.dmaVa⟩ ∧ buffer.umd = 40 + buffer.dmaBytes.toNat ∧
      buffer.dmaBytes.toNat = 72 := by
  obtain ⟨magic,version,headerBytes,commandBytes,reserved,commandVa⟩ := header
  simp only [computeHeaderRefused,or_eq_false_iff,decide_eq_false_iff_not,ne_eq,not_not,PrivateHeader.mk.injEq]
  constructor
  · rintro ⟨⟨⟨⟨⟨⟨⟨magic,version⟩,size⟩,reserved⟩,placed⟩,counted⟩,filled⟩,exactly⟩
    exact ⟨⟨magic,version,size,counted,reserved,placed⟩,filled,exactly⟩
  rintro ⟨⟨magic,version,size,counted,reserved,placed⟩,filled,exactly⟩
  exact ⟨⟨⟨⟨⟨⟨⟨magic,version⟩,size⟩,reserved⟩,placed⟩,counted⟩,filled⟩,exactly⟩

theorem parseComputeEnvelope_does {buffer : Buffer} (preemptBytes : U32) (long : 40 ≤ buffer.umd) :
    Does buffer.access (parseComputeEnvelope buffer preemptBytes) (ComputeEnvelopeFits buffer preemptBytes) (computeViewOf buffer)
      (computeEnvelopeRequests buffer) := by
  have inside : ¬ computeHeaderRefused buffer (privateHeaderCompute.readAt buffer.memory 0).base = true → 40 + 72 ≤ buffer.umd := by
    intro good
    obtain ⟨-,filled,exactly⟩ := computeHeaderRefused_iff.mp (not_eq_true _ ▸ good)
    omega
  have requests : computeEnvelopeRequests buffer = [] ++ ([] ++ ([] ++ ([] ++ ([⟨buffer.dmaVa,buffer.dmaBytes,false,.cpuEnvelope⟩] ++
      (computeRequests (nativeCompute.readAt buffer.memory 48) (privateHeaderCompute.readAt buffer.memory 0).preemption ++ []))))) := by
    rw [append_nil]
    rfl
  rw [requests]
  apply Does.iff
  · exact Does.fetching long (Does.passing (fun good => Does.fetching (Nat.le_trans (by decide) (inside good)) (Does.passing (fun _ =>
      Does.passing (fun _ => Does.fetching (inside good) (Does.passing (fun _ => checkAccess_does.bind (fun _ =>
        (validateComputeAccess_does _ _ _).bind (fun _ => Does.pure)))))))))
  simp only [not_eq_true,computeHeaderRefused_iff,not_or,not_not,ne_eq,and_true]
  constructor
  · rintro ⟨⟨base,filled,exactly⟩,type,⟨size,vdm,cdm⟩,fields⟩
    exact ⟨base,filled,exactly,nativeHeader_eq type size vdm cdm,fields⟩
  intro here
  refine ⟨⟨here.base,here.filled,here.exact⟩,?_,?_,here.fields⟩
  · rw [here.header]
  rw [here.header]
  exact ⟨rfl,rfl,rfl⟩

variable {call : SubmitCall} {size : Nat}

theorem buffer_some : call.buffer size = some buffer ↔
    (call.data = some buffer.memory ∧ call.access = some buffer.access ∧ buffer.umd = call.umdPrivateBytes.toNat ∧
      buffer.dmaVa = call.dmaVa ∧ buffer.dmaBytes = call.dmaBytes) ∧ call.argumentsRefused size = false := by
  unfold SubmitCall.buffer
  match data : call.data, oracle : call.access with
  | none, _ => exact ⟨nofun,fun ⟨⟨impossible,_⟩,_⟩ => by cases impossible⟩
  | some _, none => exact ⟨nofun,fun ⟨⟨_,impossible,_⟩,_⟩ => by cases impossible⟩
  | some found, some answer =>
    dsimp only
    by_cases refused : call.argumentsRefused size = true
    · rw [if_pos refused]
      exact ⟨nofun,fun ⟨_,good⟩ => by rw [refused] at good; cases good⟩
    rw [if_neg refused,Option.some_inj,Buffer.mk.injEq,Option.some_inj,Option.some_inj]
    exact ⟨fun ⟨a,b,c,d,e⟩ => ⟨⟨a,e,b.symm,c.symm,d.symm⟩,Bool.eq_false_iff.mpr refused⟩,
      fun ⟨⟨a,e,b,c,d⟩,_⟩ => ⟨a,b.symm,c.symm,d.symm,e⟩⟩

structure ArgumentsFit (call : SubmitCall) (size : Nat) : Prop where
  view : call.hasView = true
  long : size ≤ call.umdPrivateBytes.toNat
  capacity : call.umdPrivateBytes ≤ call.capacity
  small : call.dmaBytes.toNat ≤ nativeMaxBytes
  valid : validVa call.dmaVa.toNat call.dmaBytes.toNat = true

theorem argumentsRefused_iff : call.argumentsRefused size = false ↔ ArgumentsFit call size := by
  simp only [SubmitCall.argumentsRefused,or_eq_false_iff,decide_eq_false_iff_not,not_lt,not_eq_false]
  constructor
  · rintro ⟨⟨⟨⟨⟨⟨view,-⟩,long⟩,capacity⟩,-⟩,small⟩,valid⟩
    exact ⟨view,long,BitVec.not_lt.mp capacity,small,valid⟩
  intro fits
  have room := fits.long.trans (BitVec.le_def.mp fits.capacity)
  exact ⟨⟨⟨⟨⟨⟨fits.view,room⟩,fits.long⟩,BitVec.not_lt.mpr fits.capacity⟩,zero_bytes_iff.mp (validVa_iff.mp fits.valid).2.1⟩,fits.small⟩,fits.valid⟩

/-- A parse ends, with the view and the granted requests or with the zero view. -/
structure Ends {View : Type} (access : Access) (zero : View) (result : Option (Outcome View)) (condition : Prop) (value : View)
    (requests : List AccessRequest) : Prop where
  inside : result ≠ none
  clear : ∀ given, result = some given → given.result ≠ .ok → given.view = zero
  sound : ∀ given, result = some given → given.result = .ok →
    condition ∧ given.view = value ∧ given.granted = requests ∧ Granted access [] requests
  complete : condition → Granted access [] requests → ∃ given, result = some given ∧ given.result = .ok

theorem ends_of_does {View : Type} {parser : Parser View} {condition : Prop} {value : View}
    {requests : List AccessRequest} (does : Does access parser condition value requests) (zero : View) (failure : Option Failure) :
    Ends access zero (outcome zero failure (parser [])) condition value requests := by
  match run : parser [] with
  | .error .outside => exact absurd run (does.inside [])
  | .error (.rejected refusal) =>
    refine ⟨nofun,?_,?_,?_⟩
    · intro given there _
      cases there
      rfl
    · intro given there good
      cases there
      exact absurd good refusal.refused
    intro holds all
    have passes := (does.gives [] value requests).mpr ⟨holds,rfl,rfl,all⟩
    rw [run] at passes
    cases passes
  | .ok (found,granted) =>
    obtain ⟨holds,rfl,rfl,all⟩ := (does.gives [] found granted).mp run
    refine ⟨nofun,?_,?_,fun _ _ => ⟨_,rfl,rfl⟩⟩
    · intro given there bad
      cases there
      exact absurd rfl bad
    intro given there _
    cases there
    exact ⟨holds,rfl,rfl,all⟩

end WindowsOnM1.Submit
