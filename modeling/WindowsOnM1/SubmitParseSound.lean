import WindowsOnM1.SubmitParseJobs

/-!
What a parsed submission is known to be: the command is tiled by its parts, and every address
that the GPU will use was granted by the access callback.
-/
namespace WindowsOnM1.Submit
open AskParse ByteMemory List
open BitVec hiding not_and not_not not_or

/-- The callback granted the request, after those before it. -/
def Accepted (access : Access) (granted : List AccessRequest) (request : AccessRequest) : Prop :=
  ∃ before after, granted = before ++ request :: after ∧ access before request = true

/-- Two stretches of addresses do not meet. -/
def Apart (a aBytes b bBytes : Nat) : Prop := a + aBytes ≤ b ∨ b + bBytes ≤ a

/-- A compute command and its preemption range as they are accepted. -/
structure ComputeSound (access : Access) (granted : List AccessRequest) (compute : NativeCompute) (preemption : ProcessRange)
    (preemptBytes : U32) (dmaVa : U64) (dmaBytes : U32) : Prop where
  stream : compute.cdmCtrlStreamBase.toNat < compute.cdmCtrlStreamEnd.toNat ∧ compute.cdmCtrlStreamEnd.toNat ≤ vaEnd ∧
    0x10000 ≤ compute.cdmCtrlStreamBase.toNat ∧ compute.cdmCtrlStreamBase.toNat % 4 = 0 ∧ compute.cdmCtrlStreamEnd.toNat % 4 = 0
  stream_accepted : ∃ bytes : U32, bytes.toNat = compute.cdmCtrlStreamEnd.toNat - compute.cdmCtrlStreamBase.toNat ∧
    Accepted access granted ⟨compute.cdmCtrlStreamBase,bytes,false,.computeStream⟩
  samplers_accepted : compute.samplerCount ≠ 0 → ∃ bytes : U32, bytes.toNat = compute.samplerCount.toNat * samplerBytes ∧
    Accepted access granted ⟨compute.samplerHeap,bytes,false,.samplerHeap⟩
  samplers_absent : compute.samplerCount = 0 → compute.samplerHeap = 0
  helper_accepted : compute.helper.binary ≠ 0 → Accepted access granted ⟨uscVa compute.helper.binary,1,false,.computeStream⟩ ∧
    Accepted access granted ⟨compute.helper.data,1,false,.computeStream⟩
  helper_absent : compute.helper.binary = 0 → compute.helper.data = 0 ∧ compute.helper.cfg = 0
  preemption_large : preemption.reserved = 0 ∧ preemptBytes.toNat ≤ preemption.bytes.toNat
  preemption_whole : preemption.va.toNat % 0x10000 = 0 ∧ preemption.bytes.toNat % 0x10000 = 0
  preemption_inside : 0x10000 ≤ preemption.va.toNat ∧ preemption.va.toNat + preemption.bytes.toNat ≤ vaEnd
  preemption_command : Apart preemption.va.toNat preemption.bytes.toNat dmaVa.toNat dmaBytes.toNat
  preemption_stream : Apart preemption.va.toNat preemption.bytes.toNat compute.cdmCtrlStreamBase.toNat
    (compute.cdmCtrlStreamEnd.toNat - compute.cdmCtrlStreamBase.toNat)
  preemption_accepted : Accepted access granted ⟨preemption.va,preemption.bytes,true,.computePreemption⟩

/-- The command is its compute command, its attachments and its render, one after another. -/
structure Tiled (memory : Memory) (view : SubmitView) (dmaBytes : U32) (native start position : Nat) : Prop where
  native_at : view.native = some native
  bytes : view.commandBytes = dmaBytes
  compute : view.hasCompute = true → start = 8 + 64 ∧ nativeHeader.readAt memory native = ⟨nativeComputeType,64,0,0⟩ ∧
    view.compute = nativeCompute.readAt memory (native + 8)
  no_compute : view.hasCompute = false → start = 0
  attached : ∀ base, view.attachments = some base → base = native + start + 8 ∧ position = start + 8 + 24 * view.attachmentCount.toNat ∧
    ∃ size : U16, size.toNat = 24 * view.attachmentCount.toNat ∧
      nativeHeader.readAt memory (native + start) = ⟨fragmentAttachments,size,0xffff,0xffff⟩
  no_attachments : view.attachments = none → position = start ∧ view.attachmentCount = 0
  render_at : view.render = some (native + position + 8) ∧ nativeHeader.readAt memory (native + position) = renderHeader view.hasCompute
  ends : position + 8 + 240 = dmaBytes.toNat

/-- The process ranges of a submission of version 2, 3 or 5. -/
structure ProcessSound (access : Access) (granted : List AccessRequest) (process : Fin processRangeCount → ProcessRange)
    (render : NativeRender) (dmaVa : U64) (dmaBytes : U32) : Prop where
  aligned : ∀ i, (process i).va.toNat % 0x10000 = 0 ∧ (process i).bytes.toNat % 0x10000 = 0
  inside : ∀ i, 0x10000 ≤ (process i).va.toNat ∧ (process i).va.toNat + (process i).bytes.toNat ≤ vaEnd
  apart : ∀ i j, i ≠ j → Apart (process i).va.toNat (process i).bytes.toNat (process j).va.toNat (process j).bytes.toNat
  command : ∀ i, Apart (process i).va.toNat (process i).bytes.toNat dmaVa.toNat dmaBytes.toNat
  accepted : ∀ i, Accepted access granted ⟨(process i).va,(process i).bytes,true,.process⟩
  required : ∃ required, processRequiredBytes render = some required ∧ ∀ i : Fin processRangeCount, required i ≤ (process i).bytes.toNat

structure SubmitSound (memory : Memory) (access : Access) (call : SubmitCall) (preemptBytes : U32) (given : Outcome SubmitView)
    (version : U16) (render : NativeRender) : Prop where
  version_is : (privateHeader.readAt memory 0).version = version
  known : version = privateVersion ∨ version = versionProcessVa ∨ version = versionPrivateVa ∨ version = versionRenderCompute
  filled : call.umdPrivateBytes.toNat = headerSize version + call.dmaBytes.toNat
  tiled : ∃ start position, Tiled memory given.view call.dmaBytes (headerSize version) start position
  render_is : ∃ offset, given.view.render = some offset ∧ render = nativeRender.readAt memory offset
  command : Accepted access given.granted ⟨call.dmaVa,call.dmaBytes,false,.cpuEnvelope⟩
  stream : render.vdmCtrlStreamBase ≠ 0
  addresses : ∀ address ∈ renderAddresses render, address.va ≠ 0 → validVa address.va.toNat address.bytes.toNat = true ∧
    Accepted access given.granted ⟨address.va,address.bytes,address.write,.render⟩
  written : ∀ va ∈ [render.depth.base,render.depth.compBase,render.stencil.base,render.stencil.compBase], va ≠ 0 →
    Accepted access given.granted ⟨va,1,true,.render⟩
  occlusion : render.ispOclQryBase ≠ 0 →
    Accepted access given.granted ⟨render.ispOclQryBase,BitVec.ofNat 32 occlusionHeapBytes,true,.render⟩
  attachments : ∀ base, given.view.attachments = some base → ∀ i < given.view.attachmentCount.toNat,
    (attachmentAt memory base i).refused = false ∧ ∃ bytes : U32, bytes.toNat = (attachmentAt memory base i).size.toNat ∧
      Accepted access given.granted ⟨(attachmentAt memory base i).pointer,bytes,true,.attachment⟩
  process : version ≠ privateVersion → ProcessSound access given.granted given.view.process render call.dmaVa call.dmaBytes
  has_compute : given.view.hasCompute = true ↔ version = versionRenderCompute
  compute : version = versionRenderCompute →
    ComputeSound access given.granted given.view.compute given.view.preemption preemptBytes call.dmaVa call.dmaBytes

/-- A parse of a submission reads the bytes of the user mode driver only, and leaves a view only
    where the submission is sound. -/
def ParseSound (call : SubmitCall) (preemptBytes : U32) (result : Option (Outcome SubmitView)) : Prop :=
  ∃ given, result = some given ∧ (given.result ≠ .ok → given.view = .zero) ∧
    (given.result = .ok → ∃ memory access version render, call.data = some memory ∧ call.access = some access ∧
      SubmitSound memory access call preemptBytes given version render)

/-- The same of a compute envelope, whose command is the compute command. -/
def ComputeParseSound (call : SubmitCall) (preemptBytes : U32) (result : Option (Outcome ComputeView)) : Prop :=
  ∃ given, result = some given ∧ (given.result ≠ .ok → given.view = .zero) ∧
    (given.result = .ok → ∃ memory access, call.data = some memory ∧ call.access = some access ∧
      given.view.native = some 40 ∧ call.umdPrivateBytes.toNat = 40 + call.dmaBytes.toNat ∧ call.dmaBytes.toNat = 8 + 64 ∧
      nativeHeader.readAt memory 40 = ⟨nativeComputeType,64,0,0⟩ ∧ given.view.compute = nativeCompute.readAt memory (40 + 8) ∧
      Accepted access given.granted ⟨call.dmaVa,call.dmaBytes,false,.cpuEnvelope⟩ ∧
      ComputeSound access given.granted given.view.compute given.view.preemption preemptBytes call.dmaVa call.dmaBytes)

/-- What the fields of a compute command are when they pass. -/
structure ComputeFieldsFit (compute : NativeCompute) (preemption : ProcessRange) (preemptBytes : U32) (dmaVa : U64) (dmaBytes : U32) :
    Prop where
  helper_together : compute.helper.binary = 0 ↔ compute.helper.data = 0
  helper_absent : compute.helper.binary = 0 → compute.helper.cfg = 0
  helper_valid : compute.helper.binary ≠ 0 → validVa (uscVa compute.helper.binary).toNat 1 = true ∧
    validVa compute.helper.data.toNat 1 = true
  ordered : compute.cdmCtrlStreamBase.toNat < compute.cdmCtrlStreamEnd.toNat
  words : compute.cdmCtrlStreamBase.toNat % 4 = 0 ∧ compute.cdmCtrlStreamEnd.toNat % 4 = 0
  stream_small : compute.streamBytes ≤ cdmStreamMaxBytes
  stream_valid : validVa compute.cdmCtrlStreamBase.toNat compute.streamBytes = true
  samplers_few : compute.samplerCount.toNat ≤ maxSamplers
  samplers_together : compute.samplerCount ≠ 0 ↔ compute.samplerHeap ≠ 0
  reserved : preemption.reserved = 0
  large : preemptBytes.toNat ≤ preemption.bytes.toNat
  aligned : preemption.va.toNat % 0x10000 = 0
  whole : preemption.bytes.toNat % 0x10000 = 0
  valid : validVa preemption.va.toNat preemption.bytes.toNat = true
  command : rangesOverlap preemption.va.toNat preemption.bytes.toNat dmaVa.toNat dmaBytes.toNat = false
  stream : rangesOverlap preemption.va.toNat preemption.bytes.toNat compute.cdmCtrlStreamBase.toNat compute.streamBytes = false

variable {compute : NativeCompute} {preemption : ProcessRange} {preemptBytes : U32} {dmaVa : U64} {dmaBytes : U32}

theorem computeFieldsFit (passes : validateComputeFields compute preemption preemptBytes dmaVa dmaBytes = .ok) :
    ComputeFieldsFit compute preemption preemptBytes dmaVa dmaBytes := by
  unfold validateComputeFields at passes
  split at passes
  · cases passes
  split at passes
  · cases passes
  rename_i helper
  split at passes
  · cases passes
  split at passes
  · cases passes
  rename_i order
  split at passes
  · cases passes
  rename_i sizes
  split at passes
  · cases passes
  rename_i range
  simp only [not_or,not_and,not_not,ne_eq,Bool.not_eq_false,not_lt,ge_iff_le,gt_iff_lt,Bool.not_eq_true] at helper order sizes range
  refine ⟨helper.1,helper.2.1,helper.2.2,lt_def.mp (BitVec.not_le.mp order.1),⟨(word_iff _).mp order.2.1,(word_iff _).mp order.2.2⟩,
    sizes.1,sizes.2.1,sizes.2.2.1,sizes.2.2.2.1,range.1,le_def.mp (BitVec.not_lt.mp range.2.1),(whole_iff _).mp range.2.2.1,
    (whole_bytes_iff _).mp range.2.2.2.1,range.2.2.2.2.1,range.2.2.2.2.2.1,range.2.2.2.2.2.2⟩

private theorem streamBytes_eq (ordered : compute.cdmCtrlStreamBase.toNat < compute.cdmCtrlStreamEnd.toNat) :
    compute.streamBytes = compute.cdmCtrlStreamEnd.toNat - compute.cdmCtrlStreamBase.toNat :=
  toNat_sub_of_le (le_def.mpr ordered.le)

variable {access : Access} {granted : List AccessRequest}

theorem computeSound (passes : validateComputeFields compute preemption preemptBytes dmaVa dmaBytes = .ok)
    (accepted : ∀ request ∈ computeRequests compute preemption, Accepted access granted request) :
    ComputeSound access granted compute preemption preemptBytes dmaVa dmaBytes := by
  have fits := computeFieldsFit passes
  have length := streamBytes_eq fits.ordered
  obtain ⟨low,-,high⟩ := validVa_iff.mp fits.stream_valid
  have small := fits.stream_small
  have stream := accepted _ (mem_append_left _ (mem_singleton.mpr rfl))
  have rest : ∀ request ∈ samplerRequests compute ++ (helperRequests compute ++
      [⟨preemption.va,preemption.bytes,true,.computePreemption⟩]), Accepted access granted request :=
    fun request mem => accepted request (mem_append_right _ mem)
  refine ⟨⟨fits.ordered,by omega,low,fits.words.1,fits.words.2⟩,⟨_,?_,stream⟩,?_,?_,?_,?_,⟨fits.reserved,fits.large⟩,
    ⟨fits.aligned,fits.whole⟩,?_,rangesOverlap_iff.mp fits.command,?_,?_⟩
  · rw [toNat_ofNat,length]
    refine Nat.mod_eq_of_lt ?_
    have limit : cdmStreamMaxBytes = 0x10000000 := rfl
    omega
  · intro some
    refine ⟨compute.samplerCount * BitVec.ofNat 32 samplerBytes,?_,rest _ (mem_append_left _ ?_)⟩
    rotate_left
    · rw [samplerRequests,if_pos some]
      exact mem_singleton.mpr rfl
    have few := fits.samplers_few
    have limit : maxSamplers = 1024 := rfl
    refine Nat.mod_eq_of_lt ?_
    show compute.samplerCount.toNat * 16 < 2 ^ 32
    omega
  · intro none
    by_contra present
    exact fits.samplers_together.mpr present none
  · intro some
    refine ⟨rest _ (mem_append_right _ (mem_append_left _ ?_)),rest _ (mem_append_right _ (mem_append_left _ ?_))⟩
    · rw [helperRequests,if_pos some]
      exact mem_cons_self
    rw [helperRequests,if_pos some]
    exact mem_cons_of_mem _ mem_cons_self
  · exact fun none => ⟨fits.helper_together.mp none,fits.helper_absent none⟩
  · obtain ⟨low,-,high⟩ := validVa_iff.mp fits.valid
    exact ⟨low,high⟩
  · rw [← length]
    exact rangesOverlap_iff.mp fits.stream
  exact rest _ (mem_append_right _ (mem_append_right _ (mem_singleton.mpr rfl)))

theorem accepted_of_granted {requests : List AccessRequest} (all : Granted access [] requests) :
    ∀ request ∈ requests, Accepted access requests request := fun _ mem => all.mem mem

variable {buffer : Buffer} {render : NativeRender}

private theorem processSound {process : Fin processRangeCount → ProcessRange}
    (fits : ∀ i, ProcessFits buffer process i) (large : rangesTooSmall render process = false)
    (accepted : ∀ i, Accepted buffer.access granted (process i).request) :
    ProcessSound buffer.access granted process render buffer.dmaVa buffer.dmaBytes := by
  refine ⟨fun i => ⟨(fits i).aligned,(fits i).whole⟩,?_,?_,fun i => rangesOverlap_iff.mp (fits i).command,accepted,?_⟩
  · intro i
    obtain ⟨low,-,high⟩ := validVa_iff.mp (fits i).valid
    exact ⟨low,high⟩
  · intro i j other
    rcases lt_or_gt_of_ne other with before | after
    · exact (rangesOverlap_iff.mp ((fits j).earlier i before)).symm
    exact rangesOverlap_iff.mp ((fits i).earlier j after)
  unfold rangesTooSmall at large
  split at large
  · cases large
  rename_i required sizes
  refine ⟨required,sizes,fun i => ?_⟩
  have here := any_eq_false.mp large i (mem_finRange i)
  exact Nat.le_of_not_lt (fun small => here (decide_eq_true small))

variable {memory : Memory}

theorem attachedOf_some {native start base : Nat} (there : (attachedOf memory native start).base = some base) :
    (nativeHeader.readAt memory (native + start)).type = fragmentAttachments ∧ base = native + start + 8 ∧
      (attachedOf memory native start).position = start + 8 + (nativeHeader.readAt memory (native + start)).size.toNat ∧
      (attachedOf memory native start).count = (nativeHeader.readAt memory (native + start)).size.toNat / 24 := by
  unfold attachedOf at there ⊢
  by_cases framed : (nativeHeader.readAt memory (native + start)).type = fragmentAttachments
  · rw [if_pos framed] at there
    cases there
    rw [if_pos framed]
    exact ⟨framed,rfl,rfl,rfl⟩
  rw [if_neg framed] at there
  cases there

theorem attachedOf_none {native start : Nat} (there : (attachedOf memory native start).base = none) :
    (attachedOf memory native start).position = start ∧ (attachedOf memory native start).count = 0 := by
  unfold attachedOf at there ⊢
  by_cases framed : (nativeHeader.readAt memory (native + start)).type = fragmentAttachments
  · rw [if_pos framed] at there
    cases there
  rw [if_neg framed]
  exact ⟨rfl,rfl⟩

theorem attachedOf_header (memory : Memory) (native start : Nat) :
    (attachedOf memory native start).header = nativeHeader.readAt memory (native + (attachedOf memory native start).position) := by
  unfold attachedOf
  dsimp only
  split
  · rfl
  rfl

theorem attachmentCount_toNat (size : U16) : (BitVec.ofNat 32 (size.toNat / 24)).toNat = size.toNat / 24 := by
  exact Nat.mod_eq_of_lt (by omega)

theorem tiled {header : PrivateHeader} (fits : EnvelopeFits buffer preemptBytes header) :
    Tiled buffer.memory (viewOf buffer header) buffer.dmaBytes (headerSize header.version) (startOf header.version)
      (attachedOf buffer.memory (headerSize header.version) (startOf header.version)).position := by
  refine ⟨rfl,rfl,?_,?_,?_,?_,⟨rfl,?_⟩,fits.command.ends⟩
  · intro yes
    have five : header.version = versionRenderCompute := of_decide_eq_true yes
    refine ⟨if_pos five,(fits.compute five).header,?_⟩
    show (if header.version = versionRenderCompute then computeOf buffer.memory header.version else nativeCompute.zero) = _
    rw [if_pos five,computeOf,if_pos five]
  · intro no
    exact if_neg (of_decide_eq_false no)
  · intro base there
    obtain ⟨framed,rfl,position,count⟩ := attachedOf_some there
    have attached := fits.attached framed
    have whole := attached.whole
    show _ = _ ∧ _ = _ + 24 * (BitVec.ofNat 32 (attachedOf buffer.memory _ _).count).toNat ∧ ∃ size : U16,
      size.toNat = 24 * (BitVec.ofNat 32 (attachedOf buffer.memory _ _).count).toNat ∧ _
    rw [position,count,attachmentCount_toNat]
    exact ⟨rfl,by omega,_,by omega,nativeHeader_eq framed rfl attached.vdm attached.cdm⟩
  · intro none
    obtain ⟨position,count⟩ := attachedOf_none none
    refine ⟨position,?_⟩
    show BitVec.ofNat 32 (attachedOf buffer.memory _ _).count = 0
    rw [count]
    rfl
  exact (attachedOf_header _ _ _).symm.trans fits.command.header

variable {version : U16}

theorem mem_envelope {request : AccessRequest} (mem : request ∈ processRequests buffer.memory version ∨
    request = ⟨buffer.dmaVa,buffer.dmaBytes,false,.cpuEnvelope⟩ ∨ request ∈ commandRequests buffer.memory version ∨
    request ∈ attachmentRequests buffer.memory (headerSize version) (startOf version) ∨ request ∈ renderRequests
      (renderOf buffer.memory (headerSize version) (attachedOf buffer.memory (headerSize version) (startOf version)))) :
    request ∈ envelopeRequests buffer version := by
  simp only [envelopeRequests,mem_append,mem_singleton]
  exact mem

private theorem mem_renderRequests {address : RenderAddress} (listed : address ∈ renderAddresses render)
    (present : address.va ≠ 0) : ⟨address.va,address.bytes,address.write,.render⟩ ∈ renderRequests render := by
  refine mem_flatMap.mpr ⟨address,listed,?_⟩
  rw [RenderAddress.requests,if_neg present]
  exact mem_singleton.mpr rfl

private theorem mem_written {va : U64}
    (mem : va ∈ [render.depth.base,render.depth.compBase,render.stencil.base,render.stencil.compBase]) :
    ⟨va,1,true⟩ ∈ renderAddresses render := by
  simp only [mem_cons,not_mem_nil,or_false] at mem
  rcases mem with rfl | rfl | rfl | rfl
  · exact mem_of_getElem? (i := 8) rfl
  · exact mem_of_getElem? (i := 9) rfl
  · exact mem_of_getElem? (i := 10) rfl
  exact mem_of_getElem? (i := 11) rfl

private theorem mem_occlusion (render : NativeRender) : ⟨render.ispOclQryBase,BitVec.ofNat 32 occlusionHeapBytes,true⟩ ∈ renderAddresses render :=
  mem_of_getElem? (i := 7) rfl
private theorem mem_processRequests (newer : version ≥ versionProcessVa) (i : Fin processRangeCount) :
    ((tailOf memory version).process i).request ∈ processRequests memory version := by
  rw [tailOf,if_pos newer,processRequests,if_pos newer]
  exact mem_map_of_mem (mem_finRange i)

private theorem submitSound {call : SubmitCall} {given : Outcome SubmitView}
    (same : buffer.umd = call.umdPrivateBytes.toNat ∧ buffer.dmaVa = call.dmaVa ∧ buffer.dmaBytes = call.dmaBytes)
    (fits : EnvelopeFits buffer preemptBytes (privateHeader.readAt buffer.memory 0))
    (view : given.view = viewOf buffer (privateHeader.readAt buffer.memory 0))
    (granted : given.granted = envelopeRequests buffer (privateHeader.readAt buffer.memory 0).version)
    (all : Granted buffer.access [] (envelopeRequests buffer (privateHeader.readAt buffer.memory 0).version)) :
    ∃ version render, SubmitSound buffer.memory buffer.access call preemptBytes given version render := by
  generalize found : privateHeader.readAt buffer.memory 0 = header at fits view granted all
  obtain ⟨umd,va,bytes⟩ := same
  have accepted : ∀ request ∈ envelopeRequests buffer header.version, Accepted buffer.access given.granted request := by
    rw [granted]
    exact accepted_of_granted all
  have renders : ∀ address ∈ renderAddresses (renderOf buffer.memory (headerSize header.version)
      (attachedOf buffer.memory (headerSize header.version) (startOf header.version))), address.va ≠ 0 →
        Accepted buffer.access given.granted { address with kind := .render } :=
    fun address listed present => accepted _ (mem_envelope (.inr (.inr (.inr (.inr (mem_renderRequests listed present))))))
  have tail := fits.tail
  have filled := fits.head.filled
  rw [fits.head.sized] at filled
  refine ⟨header.version,renderOf buffer.memory (headerSize header.version)
    (attachedOf buffer.memory (headerSize header.version) (startOf header.version)),congrArg _ found,fits.head.known,?_,
    ⟨startOf header.version,_,view ▸ bytes ▸ tiled fits⟩,⟨_,by rw [view]; rfl,rfl⟩,?_,fits.command.render.stream,?_,?_,?_,?_,?_,?_,?_⟩
  · rw [← umd,← bytes]
    exact filled
  · rw [← va,← bytes]
    exact accepted _ (mem_envelope (.inr (.inl rfl)))
  · exact fun address listed present => ⟨fits.command.render.addresses address listed present,renders address listed present⟩
  · exact fun written mem present => renders ⟨written,1,true⟩ (mem_written mem) present
  · exact fun present => renders ⟨_,_,true⟩ (mem_occlusion _) present
  · intro base there i below
    rw [view] at there below
    obtain ⟨framed,rfl,-,count⟩ := attachedOf_some there
    change i < (BitVec.ofNat 32 (attachedOf buffer.memory _ _).count).toNat at below
    rw [count,attachmentCount_toNat] at below
    have good := (fits.attached framed).fits i below
    refine ⟨good,_,?_,accepted _ (mem_envelope (.inr (.inr (.inr (.inl (mem_map.mpr ⟨i,?_,rfl⟩))))))⟩
    · simp only [Attachment.refused,Bool.or_eq_false_iff,decide_eq_false_iff_not] at good
      exact Nat.mod_eq_of_lt (Nat.lt_of_le_of_lt (le_def.mp (BitVec.not_lt.mp good.1.2)) (by decide))
    rw [count]
    exact mem_range.mpr below
  · intro newer
    have newer : header.version ≥ versionProcessVa := by
      rcases fits.head.known with one | two | three | five
      · exact absurd one newer
      · rw [two]
        decide
      · rw [three]
        decide
      rw [five]
      decide
    have process : given.view.process = (tailOf buffer.memory header.version).process := by
      rw [view]
      exact if_pos newer
    rw [process,← va,← bytes]
    refine processSound ?_ (fits.command.required newer) (fun i => accepted _ (mem_envelope (.inl (mem_processRequests newer i))))
    rw [tailOf,if_pos newer]
    exact tail.process newer
  · rw [view]
    exact decide_eq_true_iff
  intro five
  have compute : given.view.compute = computeOf buffer.memory header.version := by
    rw [view]
    exact if_pos five
  have preemption : given.view.preemption = preemptionOf buffer.memory header.version := by
    rw [view,← tail_preemption fits.head]
    exact if_pos five
  rw [compute,preemption,← va,← bytes]
  refine computeSound (fits.compute five).fields (fun request mem => accepted _ (mem_envelope (.inr (.inr (.inl ?_)))))
  rw [commandRequests,if_pos five]
  exact mem

theorem parse_sound (call : SubmitCall) (preemptBytes : U32) (failure : Option Failure) :
    ParseSound call preemptBytes (parse call preemptBytes failure) := by
  unfold parse
  match made : call.buffer 24 with
  | none => exact ⟨_,rfl,fun _ => rfl,nofun⟩
  | some buffer =>
    obtain ⟨⟨data,access,umd,va,bytes⟩,arguments⟩ := buffer_some.mp made
    have long : 24 ≤ buffer.umd := umd ▸ (argumentsRefused_iff.mp arguments).long
    have ends := ends_of_does (parseEnvelope_does preemptBytes long) SubmitView.zero failure
    obtain ⟨given,there⟩ := Option.ne_none_iff_exists'.mp ends.inside
    refine ⟨given,there,ends.clear given there,fun good => ?_⟩
    obtain ⟨fits,view,granted,all⟩ := ends.sound given there good
    obtain ⟨version,render,sound⟩ := submitSound ⟨umd,va,bytes⟩ fits view granted all
    exact ⟨buffer.memory,buffer.access,version,render,data,access,sound⟩

private theorem parse_compute_sound (call : SubmitCall) (preemptBytes : U32) (failure : Option Failure) :
    ComputeParseSound call preemptBytes (parseComputeEx call preemptBytes failure) := by
  unfold parseComputeEx
  match made : call.buffer 40 with
  | none => exact ⟨_,rfl,fun _ => rfl,nofun⟩
  | some buffer =>
    obtain ⟨⟨data,access,umd,va,bytes⟩,arguments⟩ := buffer_some.mp made
    dsimp only
    split
    · exact ⟨_,rfl,fun _ => rfl,nofun⟩
    have long : 40 ≤ buffer.umd := umd ▸ (argumentsRefused_iff.mp arguments).long
    have ends := ends_of_does (parseComputeEnvelope_does preemptBytes long) ComputeView.zero failure
    obtain ⟨given,there⟩ := Option.ne_none_iff_exists'.mp ends.inside
    refine ⟨given,there,ends.clear given there,fun good => ?_⟩
    obtain ⟨fits,view,granted,all⟩ := ends.sound given there good
    have accepted := accepted_of_granted all
    refine ⟨buffer.memory,buffer.access,data,access,by rw [view]; rfl,?_,?_,fits.header,by rw [view]; rfl,?_,?_⟩
    · rw [← umd,← bytes]
      exact fits.filled
    · rw [← bytes]
      exact fits.exact
    · rw [granted,← va,← bytes]
      exact accepted _ mem_cons_self
    rw [view,granted,← va,← bytes]
    exact computeSound fits.fields (fun request mem => accepted request (mem_append_right _ mem))

/-- Every parser of a submission is sound, for every bytes, arguments and callback. -/
theorem submission_parsers_sound :
    (∀ call access, ParseSound { call with access := access.map OldAccess.typed } 0 (parseSubmit call access)) ∧
    (∀ call failure, ParseSound call 0 (parseSubmitEx call failure)) ∧
    (∀ call preemptBytes failure, ParseSound call preemptBytes (parseSubmitComputeEx call preemptBytes failure)) ∧
    (∀ call preemptBytes failure, ComputeParseSound call preemptBytes (parseComputeEx call preemptBytes failure)) := by
  refine ⟨fun call access => parse_sound _ 0 none,fun call failure => parse_sound call 0 failure,?_,parse_compute_sound⟩
  intro call preemptBytes failure
  unfold parseSubmitComputeEx
  split
  · exact ⟨_,rfl,fun _ => rfl,nofun⟩
  · exact parse_sound call preemptBytes failure

end WindowsOnM1.Submit
