import WindowsOnM1.HidReassembly

/-!
What every sequence of pushes completes: the chains of packets without a break.
-/
namespace WindowsOnM1.Hid
open ByteMemory RecordLayout List Option
open BitVec hiding append_assoc cast cons cons_append

namespace PacketView

theorem last_toNat (packet : PacketView) : packet.last.toNat = packet.offset.toNat + packet.length.toNat := by
  have := packet.offset.isLt
  have := packet.length.isLt
  simp only [last,toNat_add,toNat_setWidth]
  omega

theorem total_toNat (packet : PacketView) :
    packet.total.toNat = packet.offset.toNat + packet.length.toNat + packet.remaining.toNat := by
  have := packet.offset.isLt
  have := packet.length.isLt
  have := packet.remaining.isLt
  rw [total,toNat_add,last_toNat,toNat_setWidth]
  omega

@[simp] theorem bytes_length (packet : PacketView) : packet.bytes.length = packet.length.toNat := slice_length _ _ _
theorem offset_zero_iff {packet : PacketView} : packet.offset = 0 ↔ packet.offset.toNat = 0 := toNat_inj.symm

end PacketView

/-- The lengths of a packet stay within those of a message. -/
def Fits (packet : PacketView) : Prop :=
  packet.length.toNat ≤ packetDataSize ∧ packet.offset.toNat + packet.length.toNat + packet.remaining.toNat ≤ maxMessageSize

/-- A packet starts a message, or goes on with the one that the state holds. -/
def Follows (state : Reassembler) (packet : PacketView) : Prop :=
  packet.offset = 0 ∨ (state.active = true ∧ packet.flags = state.flags ∧ packet.device = state.device ∧
    packet.offset.toNat = state.used.toNat ∧ packet.total = state.total)

/-- The state with the bytes of a packet. -/
def stored (state : Reassembler) (packet : PacketView) : Reassembler :=
  { active := decide (packet.remaining ≠ 0), flags := packet.flags, device := packet.device, used := packet.last,
    total := packet.total,
    data := copyTo state.data packet.offset.toNat (packet.data.getD (fun _ => 0)) packet.length.toNat }

/-- What an accepted packet is answered with. -/
def accepted (state : Reassembler) (packet : PacketView) : Status × Option MessageView :=
  if packet.remaining ≠ 0 then (.ok,none)
  else (.complete,some ⟨packet.flags,packet.device,(stored state packet).data,packet.total⟩)

variable {call : Call} {packet : PacketView}

theorem given_eq_some (given : call.given = some packet) :
    call.packet = some packet ∧ call.state = true ∧ call.message = true ∧ (packet.length = 0 ∨ packet.data.isSome = true) := by
  obtain ⟨holds,fine⟩ := filter_eq_some_iff.mp given
  simp only [Bool.and_eq_true,Bool.or_eq_true,beq_iff_eq] at fine
  exact ⟨holds,fine.1.1,fine.1.2,fine.2⟩

theorem push_ungiven (ungiven : call.given = none) (state : Reassembler) :
    reassemblerPush call state = some (.errArgument,none,state) := by
  unfold reassemblerPush
  cases held : call.packet with
  | none => rfl
  | some packet =>
  have fails := filter_eq_none_iff.mp ungiven packet held
  refine if_pos ?_
  by_contra fine
  push Not at fine
  refine fails ?_
  simp only [Bool.and_eq_true,Bool.or_eq_true,beq_iff_eq]
  refine ⟨⟨by simpa using fine.1,by simpa using fine.2.1⟩,?_⟩
  by_cases empty : packet.length = 0
  · exact .inl empty
  exact .inr (isSome_iff_ne_none.mpr (by simpa using fine.2.2 empty))

private theorem copyTo_nothing (memory source : Memory) (offset : Nat) : copyTo memory offset source 0 = memory :=
  funext (fun _ => copyTo_outside (by omega))

theorem given_arguments (given : call.given = some packet) :
    ¬ (call.state = false ∨ call.message = false ∨ (packet.length ≠ 0 ∧ packet.data.isNone)) := by
  obtain ⟨-,pointed,messaged,carried⟩ := given_eq_some given
  rintro (state | message | ⟨length,none⟩)
  · exact absurd (pointed.symm.trans state) (by decide)
  · exact absurd (messaged.symm.trans message) (by decide)
  exact absurd (carried.resolve_left length) (by simp [none])

theorem fits_iff (packet : PacketView) :
    Fits packet ↔ ¬ (packet.last < packet.offset.setWidth 64 ∨ packet.total < packet.last ∨
      packet.total.toNat > maxMessageSize ∨ packet.length.toNat > packetDataSize) := by
  have first : ¬ packet.last < packet.offset.setWidth 64 := by
    have := packet.offset.isLt
    rw [lt_def,packet.last_toNat,toNat_setWidth]
    omega
  have second : ¬ packet.total < packet.last := by
    rw [lt_def,packet.last_toNat,packet.total_toNat]
    omega
  rw [Fits,packet.total_toNat]
  constructor
  · rintro ⟨short,small⟩ (wrong | wrong | wrong | wrong)
    · exact first wrong
    · exact second wrong
    · omega
    omega
  intro none
  push Not at none
  exact ⟨by omega,by omega⟩

variable {state : Reassembler}

private theorem admitted_of_follows (follows : Follows state packet) :
    ∃ used, admitted state packet = some ⟨true,packet.flags,packet.device,used,packet.total,state.data⟩ := by
  unfold admitted
  by_cases initial : packet.offset = 0
  · exact ⟨0,if_pos initial⟩
  obtain starts | ⟨active,flags,device,used,total⟩ := follows
  · exact absurd starts initial
  refine ⟨state.used,?_⟩
  have placed : packet.offset.setWidth 64 = state.used := by
    refine toNat_inj.mp ?_
    have := packet.offset.isLt
    rw [toNat_setWidth,← used]
    omega
  rw [if_neg initial,if_neg (by simp [active,flags,device,placed,total]),flags,device,total,← active]

private theorem admitted_none (refused : ¬ Follows state packet) : admitted state packet = none := by
  have initial : ¬ packet.offset = 0 := fun zero => refused (.inl zero)
  rw [admitted,if_neg initial,if_pos]
  by_contra fine
  push Not at fine
  obtain ⟨active,flags,device,used,total⟩ := fine
  refine refused (.inr ⟨by simpa using active,flags,device,?_,total⟩)
  have := packet.offset.isLt
  rw [← used,toNat_setWidth]
  omega

private theorem push_refuses (given : call.given = some packet) (refused : ¬ (Fits packet ∧ Follows state packet)) :
    ∃ status, (status = .errLength ∨ status = .errSequence) ∧
      reassemblerPush call state = some (status,none,reassemblerReset) := by
  have held := (given_eq_some given).1
  have arguments := given_arguments given
  by_cases fits : Fits packet
  · refine ⟨.errSequence,.inr rfl,?_⟩
    simp only [reassemblerPush,held]
    rw [if_neg arguments,if_neg ((fits_iff packet).mp fits),admitted_none (fun follows => refused ⟨fits,follows⟩)]
  refine ⟨.errLength,.inl rfl,?_⟩
  simp only [reassemblerPush,held]
  rw [if_neg arguments,if_pos (not_not.mp (mt (fits_iff packet).mpr fits))]

private theorem packetData_eq (fits : Fits packet) (carried : packet.length = 0 ∨ packet.data.isSome = true)
    (data : Memory) : packetData data packet =
      some (copyTo data packet.offset.toNat (packet.data.getD (fun _ => 0)) packet.length.toNat) := by
  by_cases empty : packet.length = 0
  · rw [packetData,if_neg (not_not.mpr empty),empty]
    exact congrArg some (copyTo_nothing _ _ _).symm
  obtain ⟨source,sourced⟩ := isSome_iff_exists.mp (carried.resolve_left empty)
  rw [packetData,if_pos empty,copyIn,if_pos (by have := fits.2; omega),sourced]
  rfl

private theorem push_accepts (given : call.given = some packet) (fits : Fits packet) (follows : Follows state packet) :
    reassemblerPush call state = some ((accepted state packet).1,(accepted state packet).2,stored state packet) := by
  obtain ⟨held,-,-,carried⟩ := given_eq_some given
  obtain ⟨used,admits⟩ := admitted_of_follows follows
  simp only [reassemblerPush,held]
  rw [if_neg (given_arguments given),if_neg ((fits_iff packet).mp fits),admits]
  simp only [packetData_eq fits carried]
  by_cases more : packet.remaining = 0
  · have whole : packet.last = packet.total := by
      refine toNat_inj.mp ?_
      rw [packet.last_toNat,packet.total_toNat,more]
      rfl
    simp only [accepted,stored,whole,more,ne_eq,not_true_eq_false,if_false,decide_false]
    rfl
  simp only [accepted,stored,ne_eq,more,not_false_eq_true,if_true,decide_true]
  rfl

theorem unbroken_single (initial : packet.offset = 0) : Unbroken [packet] ↔ Fits packet := by
  constructor
  · intro unbroken
    exact unbroken.fitting packet (mem_singleton_self _)
  intro fits
  refine ⟨fun before other after split => ?_,fun first firstIn second secondIn => ?_,fun other otherIn => ?_,
    fun _ otherIn => absurd otherIn not_mem_nil⟩
  · obtain ⟨rfl,rfl,rfl⟩ | ⟨_,rfl,_⟩ := cons_eq_append_iff.mp split <;> simp_all
  · rw [mem_singleton.mp firstIn,mem_singleton.mp secondIn]
    exact ⟨rfl,rfl,rfl⟩
  rw [mem_singleton.mp otherIn]
  exact fits

variable {packets : List PacketView}

theorem unbroken_concat (later : packet.offset ≠ 0) :
    Unbroken (packets ++ [packet]) ↔ (packets ≠ [] ∧ Unbroken packets ∧ ∀ other ∈ packets, other.remaining ≠ 0) ∧
      packet.offset.toNat = (packets.map (·.length.toNat)).sum ∧ Fits packet ∧
      ∀ other ∈ packets, packet.flags = other.flags ∧ packet.device = other.device ∧ packet.total = other.total := by
  have totals (other : PacketView) : packet.total = other.total ↔
      packet.offset.toNat + packet.length.toNat + packet.remaining.toNat =
        other.offset.toNat + other.length.toNat + other.remaining.toNat := by
    rw [← toNat_inj,packet.total_toNat,other.total_toNat]
  constructor
  · intro unbroken
    have placed := unbroken.placed packets packet [] rfl
    have open_ (other : PacketView) (otherIn : other ∈ packets) : other.remaining ≠ 0 :=
      unbroken.remains other (by rwa [dropLast_concat])
    refine ⟨⟨?_,⟨fun before other after split => ?_,fun first firstIn second secondIn => ?_,fun other otherIn => ?_,
      fun other otherIn => open_ other (mem_of_mem_dropLast otherIn)⟩,open_⟩,placed,?_,fun other otherIn => ?_⟩
    · rintro rfl
      exact later (PacketView.offset_zero_iff.mpr placed)
    · exact unbroken.placed before other (after ++ [packet]) (by simp [split])
    · exact unbroken.alike first (mem_append_left _ firstIn) second (mem_append_left _ secondIn)
    · exact unbroken.fitting other (mem_append_left _ otherIn)
    · exact unbroken.fitting packet (mem_append_right _ (mem_singleton_self _))
    rw [totals]
    exact unbroken.alike packet (mem_append_right _ (mem_singleton_self _)) other (mem_append_left _ otherIn)
  rintro ⟨⟨-,unbroken,open_⟩,placed,fits,alike⟩
  simp only [totals] at alike
  refine ⟨fun before other after split => ?_,fun first firstIn second secondIn => ?_,fun other otherIn => ?_,
    fun other otherIn => open_ other (by rwa [dropLast_concat] at otherIn)⟩
  · obtain rfl | ⟨inner,final,rfl⟩ := eq_nil_or_concat after
    · obtain ⟨rfl,same⟩ := append_inj' split rfl
      cases same
      exact placed
    rw [concat_eq_append,← cons_append,← append_assoc] at split
    exact unbroken.placed before other inner (append_inj' split rfl).1
  · rcases mem_append.mp firstIn with firstIn | firstIn <;> rcases mem_append.mp secondIn with secondIn | secondIn
    · exact unbroken.alike first firstIn second secondIn
    · rw [mem_singleton.mp secondIn]
      obtain ⟨flags,device,total⟩ := alike first firstIn
      exact ⟨flags.symm,device.symm,total.symm⟩
    · rw [mem_singleton.mp firstIn]
      exact alike second secondIn
    rw [mem_singleton.mp firstIn,mem_singleton.mp secondIn]
    exact ⟨rfl,rfl,rfl⟩
  rcases mem_append.mp otherIn with otherIn | otherIn
  · exact unbroken.fitting other otherIn
  rw [mem_singleton.mp otherIn]
  exact fits

/-- A chain that the next packet may continue. -/
def Pending (packets : List PacketView) : Prop :=
  packets ≠ [] ∧ Unbroken packets ∧ ∀ packet ∈ packets, packet.remaining ≠ 0

/-- What a state keeps of the packets since the last first one: their chain while it is pending, nothing otherwise. -/
structure Tracks (state : Reassembler) (packets : List PacketView) : Prop where
  active : state.active = true ↔ Pending packets
  alike : Pending packets → ∀ packet ∈ packets,
    packet.flags = state.flags ∧ packet.device = state.device ∧ packet.total = state.total
  used : Pending packets → state.used.toNat = (packets.map (·.length.toNat)).sum
  data : Pending packets → slice state.data 0 state.used.toNat = packets.flatMap PacketView.bytes

/-- The packets since the last first one, with one more. -/
def joined (packets : List PacketView) (packet : PacketView) : List PacketView :=
  if packet.offset = 0 then [packet] else packets ++ [packet]
private theorem sinceInitial_concat (packets : List PacketView) (packet : PacketView) :
    sinceInitial (packets ++ [packet]) = joined (sinceInitial packets) packet := by
  rw [sinceInitial,foldl_append]
  rfl

theorem unbroken_joined_iff (tracks : Tracks state packets)
    (packet : PacketView) : Unbroken (joined packets packet) ↔ Fits packet ∧ Follows state packet := by
  by_cases initial : packet.offset = 0
  · rw [joined,if_pos initial,unbroken_single initial]
    exact ⟨fun fits => ⟨fits,.inl initial⟩,fun both => both.1⟩
  rw [joined,if_neg initial,unbroken_concat initial]
  constructor
  · rintro ⟨pending,placed,fits,alike⟩
    obtain ⟨first,firstIn⟩ := exists_mem_of_ne_nil packets pending.1
    obtain ⟨flags,device,total⟩ := alike first firstIn
    obtain ⟨heldFlags,heldDevice,heldTotal⟩ := tracks.alike pending first firstIn
    exact ⟨fits,.inr ⟨tracks.active.mpr pending,flags.trans heldFlags,device.trans heldDevice,
      placed.trans (tracks.used pending).symm,total.trans heldTotal⟩⟩
  rintro ⟨fits,starts | ⟨active,flags,device,used,total⟩⟩
  · exact absurd starts initial
  have pending := tracks.active.mp active
  refine ⟨pending,used.trans (tracks.used pending),fits,fun other otherIn => ?_⟩
  obtain ⟨heldFlags,heldDevice,heldTotal⟩ := tracks.alike pending other otherIn
  exact ⟨flags.trans heldFlags.symm,device.trans heldDevice.symm,total.trans heldTotal.symm⟩

theorem stored_data (tracks : Tracks state packets) (unbroken : Unbroken (joined packets packet)) :
    (stored state packet).used.toNat = ((joined packets packet).map (·.length.toNat)).sum ∧
      slice (stored state packet).data 0 (stored state packet).used.toNat =
        (joined packets packet).flatMap PacketView.bytes := by
  have copied : slice (stored state packet).data packet.offset.toNat packet.length.toNat = packet.bytes := by
    refine map_congr_left (fun i inside => ?_)
    rw [Nat.zero_add]
    exact copyTo_inside i (mem_range.mp inside)
  have used : (stored state packet).used.toNat = packet.offset.toNat + packet.length.toNat := packet.last_toNat
  rw [used]
  by_cases initial : packet.offset = 0
  · have zero := PacketView.offset_zero_iff.mp initial
    rw [zero] at copied
    rw [joined,if_pos initial,zero,Nat.zero_add,copied]
    simp
  obtain ⟨pending,placed,-,-⟩ := (unbroken_concat initial).mp (by rwa [joined,if_neg initial] at unbroken)
  have kept : slice (stored state packet).data 0 packet.offset.toNat = slice state.data 0 packet.offset.toNat :=
    slice_congr (fun i _ inside => copyTo_outside (by omega))
  have held := tracks.data pending
  rw [tracks.used pending,← placed] at held
  rw [joined,if_neg initial,slice_append,Nat.zero_add,copied,kept,held,map_append,sum_append,← placed]
  simp

theorem pending_iff (unbroken : Unbroken (joined packets packet)) :
    Pending (joined packets packet) ↔ packet.remaining ≠ 0 := by
  by_cases initial : packet.offset = 0
  · rw [joined,if_pos initial] at unbroken ⊢
    exact ⟨fun pending => pending.2.2 packet (mem_singleton_self _),
      fun more => ⟨cons_ne_nil _ _,unbroken,fun other otherIn => by rwa [mem_singleton.mp otherIn]⟩⟩
  rw [joined,if_neg initial] at unbroken ⊢
  have before := ((unbroken_concat initial).mp unbroken).1
  refine ⟨fun pending => pending.2.2 packet (mem_append_right _ (mem_singleton_self _)),
    fun more => ⟨by simp,unbroken,fun other otherIn => ?_⟩⟩
  rcases mem_append.mp otherIn with otherIn | otherIn
  · exact before.2.2 other otherIn
  rwa [mem_singleton.mp otherIn]

private theorem packet_mem_joined (packets : List PacketView) (packet : PacketView) : packet ∈ joined packets packet := by
  unfold joined
  split <;> simp

private theorem tracks_stored (tracks : Tracks state packets)
    (unbroken : Unbroken (joined packets packet)) : Tracks (stored state packet) (joined packets packet) where
  active := by
    rw [pending_iff unbroken,stored]
    exact decide_eq_true_iff
  alike := fun _ other otherIn => by
    obtain ⟨flags,device,total⟩ := unbroken.alike other otherIn packet (packet_mem_joined _ _)
    refine ⟨flags,device,toNat_inj.mp ?_⟩
    rw [stored,other.total_toNat,packet.total_toNat,total]
  used := fun _ => (stored_data tracks unbroken).1
  data := fun _ => (stored_data tracks unbroken).2

theorem tracks_reset (broken : ¬ Pending packets) : Tracks reassemblerReset packets where
  active := ⟨fun active => absurd active Bool.false_ne_true,fun pending => absurd pending broken⟩
  alike := fun pending => absurd pending broken
  used := fun pending => absurd pending broken
  data := fun pending => absurd pending broken

/-- What a push says about its packet, when the packets since the last first one are a chain. -/
structure Answered (packets : List PacketView) (packet : PacketView) (status : Status) (message : Option MessageView) :
    Prop where
  complete : status = .complete ↔ Unbroken packets ∧ packet.remaining = 0
  ok : status = .ok ↔ Unbroken packets ∧ packet.remaining ≠ 0
  refused : ¬ Unbroken packets → status = .errLength ∨ status = .errSequence
  yields : status = .complete → ∃ view, message = some view ∧ view.flags = packet.flags ∧ view.device = packet.device ∧
    view.bytes = packets.flatMap PacketView.bytes
  withheld : status ≠ .complete → message = none

/-- One push of a packet, behind which the state tracks the packets with it. -/
theorem push_tracks (tracks : Tracks state packets) (held : call.given = some packet) :
    ∃ status message next, reassemblerPush call state = some (status,message,next) ∧
      Answered (joined packets packet) packet status message ∧ Tracks next (joined packets packet) := by
  have chained := unbroken_joined_iff tracks packet
  by_cases unbroken : Unbroken (joined packets packet)
  · obtain ⟨fits,follows⟩ := chained.mp unbroken
    refine ⟨_,_,_,push_accepts held fits follows,?_,tracks_stored tracks unbroken⟩
    by_cases more : packet.remaining = 0
    · rw [accepted,if_neg (not_not.mpr more)]
      obtain ⟨used,data⟩ := stored_data tracks unbroken
      have whole : packet.total.toNat = (stored state packet).used.toNat := by
        rw [packet.total_toNat,more]
        exact packet.last_toNat.symm
      refine ⟨⟨fun _ => ⟨unbroken,more⟩,fun _ => rfl⟩,⟨Status.noConfusion,fun both => absurd more both.2⟩,
        fun broken => absurd unbroken broken,fun _ => ⟨_,rfl,rfl,rfl,?_⟩,fun unfinished => absurd rfl unfinished⟩
      rw [MessageView.bytes,whole]
      exact data
    rw [accepted,if_pos more]
    exact ⟨⟨Status.noConfusion,fun both => absurd both.2 more⟩,⟨fun _ => ⟨unbroken,more⟩,fun _ => rfl⟩,
      fun broken => absurd unbroken broken,Status.noConfusion,fun _ => rfl⟩
  obtain ⟨status,refused,pushed⟩ := push_refuses held (mt chained.mpr unbroken)
  refine ⟨status,none,_,pushed,?_,tracks_reset (fun pending => unbroken pending.2.1)⟩
  have incomplete : status ≠ .complete := by rcases refused with rfl | rfl <;> decide
  have failed : status ≠ .ok := by rcases refused with rfl | rfl <;> decide
  exact ⟨⟨fun complete => absurd complete incomplete,fun both => absurd both.1 unbroken⟩,
    ⟨fun ok => absurd ok failed,fun both => absurd both.1 unbroken⟩,fun _ => refused,
    fun complete => absurd complete incomplete,fun _ => rfl⟩

variable {answers : List (Status × Option MessageView)}

theorem pushAll_cons {rest : List Call} {middle next : Reassembler} {status : Status} {message : Option MessageView}
    (first : reassemblerPush call state = some (status,message,middle)) (others : pushAll rest middle = some (answers,next)) :
    pushAll (call :: rest) state = some ((status,message) :: answers,next) := by
  rw [pushAll,first]
  simp only [bind_eq_bind,bind_some,others]

private theorem pushAll_tracks (calls : List Call) (tracks : Tracks state packets) :
    ∃ answers next, pushAll calls state = some (answers,next) ∧ answers.length = calls.length ∧
      Tracks next ((given calls).foldl joined packets) := by
  induction calls generalizing state packets with
  | nil => exact ⟨[],state,rfl,rfl,tracks⟩
  | cons call rest ih =>
  cases held : call.given with
  | none =>
    obtain ⟨answers,next,pushed,counted,left⟩ := ih tracks
    refine ⟨_,next,pushAll_cons (push_ungiven held state) pushed,congrArg Nat.succ counted,?_⟩
    rwa [given,filterMap_cons_none held]
  | some packet =>
  obtain ⟨status,message,middle,first,-,kept⟩ := push_tracks tracks held
  obtain ⟨answers,next,pushed,counted,left⟩ := ih kept
  refine ⟨_,next,pushAll_cons first pushed,congrArg Nat.succ counted,?_⟩
  rwa [given,filterMap_cons_some held]

/-- Without a pending chain, packets that start no message complete none. -/
theorem pushAll_broken (calls : List Call) (tracks : Tracks state packets)
    (broken : ¬ Pending packets) (later : ∀ packet ∈ given calls, packet.offset ≠ 0) :
    ∃ answers next, pushAll calls state = some (answers,next) ∧
      ∀ answer ∈ answers, answer.1 ≠ .complete ∧ answer.2 = none := by
  induction calls generalizing state packets with
  | nil => exact ⟨[],state,rfl,fun _ mem => absurd mem not_mem_nil⟩
  | cons call rest ih =>
  cases held : call.given with
  | none =>
    rw [given,filterMap_cons_none held] at later
    obtain ⟨answers,next,pushed,silent⟩ := ih tracks broken later
    exact ⟨_,next,pushAll_cons (push_ungiven held state) pushed,forall_mem_cons.mpr ⟨⟨Status.noConfusion,rfl⟩,silent⟩⟩
  | some packet =>
  rw [given,filterMap_cons_some held,forall_mem_cons] at later
  obtain ⟨status,message,middle,first,answered,kept⟩ := push_tracks tracks held
  have unjoined : ¬ Unbroken (joined packets packet) := by
    rw [joined,if_neg later.1,unbroken_concat later.1]
    exact fun all => broken all.1
  have incomplete : status ≠ .complete := fun complete => unjoined (answered.complete.mp complete).1
  obtain ⟨answers,next,pushed,silent⟩ := ih kept (fun pending => unjoined pending.2.1) later.2
  exact ⟨_,next,pushAll_cons first pushed,forall_mem_cons.mpr ⟨⟨incomplete,answered.withheld incomplete⟩,silent⟩⟩

theorem completed_cons_some (status : Status) (view : MessageView) (answers : List (Status × Option MessageView)) :
    completed ((status,some view) :: answers) = view.content :: completed answers := rfl
private theorem completed_cons_none (status : Status) (answers : List (Status × Option MessageView)) :
    completed ((status,none) :: answers) = completed answers := rfl
private theorem completed_silent
    (silent : ∀ answer ∈ answers, answer.1 ≠ .complete ∧ answer.2 = none) : completed answers = [] :=
  filterMap_eq_nil_iff.mpr (fun answer mem => by rw [(silent answer mem).2,map_none])

/-- The pending chain carries the bytes sent so far. -/
structure Ready (packets : List PacketView) (flags device : Byte) (sent : List Byte) (total : Nat) : Prop where
  pending : Pending packets
  bytes : packets.flatMap PacketView.bytes = sent
  alike : ∀ packet ∈ packets, flags = packet.flags ∧ device = packet.device ∧ total = packet.total.toNat

private theorem lengths_sum (packets : List PacketView) :
    (packets.map (·.length.toNat)).sum = (packets.flatMap PacketView.bytes).length := by
  rw [length_flatMap]
  exact congrArg sum (map_congr_left (fun packet _ => packet.bytes_length.symm))

theorem fragment_joined {sent : List Byte} {total : Nat}
    (ready : sent = [] ∨ Ready packets packet.flags packet.device sent total) (offset : packet.offset.toNat = sent.length)
    (whole : packet.total.toNat = total) (fits : Fits packet) :
    Unbroken (joined packets packet) ∧ (joined packets packet).flatMap PacketView.bytes = sent ++ packet.bytes ∧
      ∀ other ∈ joined packets packet, packet.flags = other.flags ∧ packet.device = other.device ∧
        total = other.total.toNat := by
  by_cases initial : packet.offset = 0
  · have none : sent = [] := length_eq_zero_iff.mp (offset ▸ PacketView.offset_zero_iff.mp initial)
    rw [joined,if_pos initial,unbroken_single initial,none]
    refine ⟨fits,by simp,fun other otherIn => ?_⟩
    rw [mem_singleton.mp otherIn]
    exact ⟨rfl,rfl,whole.symm⟩
  have ready := ready.resolve_left (fun none => initial (PacketView.offset_zero_iff.mpr (offset.trans (by rw [none]; rfl))))
  rw [joined,if_neg initial,unbroken_concat initial,lengths_sum,ready.bytes]
  refine ⟨⟨ready.pending,offset,fits,fun other otherIn => ?_⟩,?_,fun other otherIn => ?_⟩
  · obtain ⟨flags,device,same⟩ := ready.alike other otherIn
    exact ⟨flags,device,toNat_inj.mp (whole.trans same)⟩
  · rw [flatMap_append,ready.bytes]
    simp
  rcases mem_append.mp otherIn with otherIn | otherIn
  · exact ready.alike other otherIn
  rw [mem_singleton.mp otherIn]
  exact ⟨rfl,rfl,whole.symm⟩

variable {parts : List (List Byte)} {calls : List Call}

private theorem carries_later {flags device : Byte} {offset : Nat}
    (carries : Carries flags device offset parts calls) (started : offset ≠ 0) :
    ∀ packet ∈ given calls, packet.offset ≠ 0 := by
  induction parts generalizing calls offset with
  | nil =>
    cases calls with
    | nil => exact fun _ mem => absurd mem not_mem_nil
    | cons => exact carries.elim
  | cons part rest ih =>
  cases calls with
  | nil => exact carries.elim
  | cons call later =>
  obtain ⟨⟨packet,held,-,-,-,placed,-⟩,others⟩ := carries
  rw [given,filterMap_cons_some held,forall_mem_cons]
  refine ⟨fun zero => started ?_,ih others (by omega)⟩
  rw [← placed,zero]
  rfl

/-- The fragments of a message that is not empty complete it once, and no other. -/
private theorem fragments_complete {flags device : Byte} {parts : List (List Byte)} {calls : List Call} {state : Reassembler}
    {packets : List PacketView} {sent : List Byte} {total : Nat} (carries : Carries flags device sent.length parts calls)
    (short : ∀ part ∈ parts, part.length ≤ packetDataSize) (whole : sent.length + parts.flatten.length = total)
    (fits : total ≤ maxMessageSize) (tracks : Tracks state packets) (ready : sent = [] ∨ Ready packets flags device sent total)
    (more : parts.flatten ≠ []) : ∃ answers next, pushAll calls state = some (answers,next) ∧
      completed answers = [(flags,device,sent ++ parts.flatten)] := by
  induction parts generalizing calls state packets sent with
  | nil => exact absurd rfl more
  | cons part rest ih =>
  cases calls with
  | nil => exact carries.elim
  | cons call later =>
  obtain ⟨⟨packet,held,rfl,rfl,rfl,placed,remaining⟩,others⟩ := carries
  have partShort := short packet.bytes mem_cons_self
  rw [flatten_cons,length_append] at whole
  rw [packet.bytes_length] at partShort whole
  have packetFits : Fits packet := ⟨partShort,by omega⟩
  have wholePacket : packet.total.toNat = total := by
    rw [packet.total_toNat]
    omega
  obtain ⟨unbroken,bytes,alike⟩ := fragment_joined ready placed wholePacket packetFits
  obtain ⟨status,message,middle,first,answered,kept⟩ := push_tracks tracks held
  rw [← length_append] at others
  by_cases last : rest.flatten = []
  · -- the message is complete; what follows are empty fragments behind it
    have finished : packet.remaining = 0 := toNat_inj.mp (remaining.trans (by rw [last]; rfl))
    have started : (sent ++ packet.bytes).length ≠ 0 := by
      rw [flatten_cons,last,append_nil] at more
      exact fun zero => more (append_eq_nil_iff.mp (length_eq_zero_iff.mp zero)).2
    obtain ⟨answers,next,pushed,silent⟩ := pushAll_broken later kept
      (fun pending => (pending_iff unbroken).mp pending finished) (carries_later others started)
    obtain ⟨view,rfl,viewFlags,viewDevice,viewBytes⟩ := answered.yields (answered.complete.mpr ⟨unbroken,finished⟩)
    refine ⟨_,next,pushAll_cons first pushed,?_⟩
    rw [completed_cons_some,completed_silent silent,MessageView.content,viewFlags,
      viewDevice,viewBytes,bytes,flatten_cons,last,append_nil]
  have remains : packet.remaining ≠ 0 := by
    intro zero
    rw [zero] at remaining
    exact last (length_eq_zero_iff.mp remaining.symm)
  have pending := (pending_iff unbroken).mpr remains
  obtain ⟨answers,next,pushed,yields⟩ := ih others (fun other otherIn => short other (mem_cons_of_mem _ otherIn))
    (by rw [length_append,packet.bytes_length]; omega) kept (.inr ⟨pending,bytes,alike⟩) last
  have unfinished : status ≠ .complete := fun complete => remains (answered.complete.mp complete).2
  refine ⟨_,next,pushAll_cons first pushed,?_⟩
  rw [answered.withheld unfinished,completed_cons_none,yields,flatten_cons,append_assoc]

private theorem fragments_empty {flags device : Byte}
    (carries : Carries flags device 0 parts calls) (tracks : Tracks state packets) (none : parts.flatten = []) :
    ∃ answers next, pushAll calls state = some (answers,next) ∧
      completed answers = List.replicate parts.length (flags,device,[]) := by
  induction parts generalizing calls state packets with
  | nil =>
    cases calls with
    | nil => exact ⟨[],state,rfl,rfl⟩
    | cons => exact carries.elim
  | cons part rest ih =>
  cases calls with
  | nil => exact carries.elim
  | cons call later =>
  obtain ⟨⟨packet,held,rfl,rfl,rfl,placed,remaining⟩,others⟩ := carries
  obtain ⟨empty,last⟩ := append_eq_nil_iff.mp none
  rw [empty] at others
  have length : packet.length.toNat = 0 := by rw [← packet.bytes_length,empty]; rfl
  have finished : packet.remaining = 0 := toNat_inj.mp (remaining.trans (by rw [last]; rfl))
  have zero : packet.remaining.toNat = 0 := by rw [finished]; rfl
  obtain ⟨unbroken,bytes,-⟩ := fragment_joined (.inl (rfl : ([] : List Byte) = [])) placed
    (show packet.total.toNat = 0 by rw [packet.total_toNat]; omega) ⟨by omega,by omega⟩
  obtain ⟨status,message,middle,first,answered,kept⟩ := push_tracks tracks held
  obtain ⟨answers,next,pushed,yields⟩ := ih others kept last
  obtain ⟨view,rfl,viewFlags,viewDevice,viewBytes⟩ := answered.yields (answered.complete.mpr ⟨unbroken,finished⟩)
  refine ⟨_,next,pushAll_cons first pushed,?_⟩
  rw [completed_cons_some,yields,MessageView.content,viewFlags,viewDevice,viewBytes,bytes,empty]
  rfl

theorem pushAll_append {first second : List Call} {middle next : Reassembler}
    {others : List (Status × Option MessageView)} (pushed : pushAll first state = some (answers,middle))
    (rest : pushAll second middle = some (others,next)) : pushAll (first ++ second) state = some (answers ++ others,next) := by
  induction first generalizing state answers with
  | nil =>
    obtain ⟨rfl,rfl⟩ := Prod.mk.inj (Option.some.inj pushed)
    exact rest
  | cons call calls ih =>
  obtain ⟨⟨status,message,left⟩,one,pushed⟩ := bind_eq_some_iff.mp pushed
  obtain ⟨⟨inner,final⟩,later,same⟩ := bind_eq_some_iff.mp pushed
  obtain ⟨rfl,rfl⟩ := Prod.mk.inj (Option.some.inj same)
  exact pushAll_cons one (ih later)

private theorem tracks_nil : Tracks reassemblerReset [] := tracks_reset (fun pending => pending.1 rfl)
theorem pushAll_since (calls : List Call) :
    ∃ answers state, pushAll calls reassemblerReset = some (answers,state) ∧ answers.length = calls.length ∧
      Tracks state (sinceInitial (given calls)) := pushAll_tracks calls tracks_nil
theorem given_concat (held : call.given = some packet) :
    sinceInitial (given (calls ++ [call])) = joined (sinceInitial (given calls)) packet := by
  rw [← sinceInitial_concat,given,filterMap_append,filterMap_cons_some held]
  rfl

/-- Every sequence of pushes stays inside the data. A push completes a message exactly if the packets since the last
first one are a chain and nothing remains, and then the message is what they carry; behind a packet that breaks the
chain nothing is completed before the next first one; and the fragments of a message, however it is split and
whatever was pushed before, yield that message and nothing else. -/
theorem reassembly_exact :
    (∀ calls call, ∃ answers state status message next, pushAll calls reassemblerReset = some (answers,state) ∧
      reassemblerPush call state = some (status,message,next) ∧
      (call.given = none → status = .errArgument ∧ message = none ∧ next = state) ∧
      ∀ packet, call.given = some packet → Answered (sinceInitial (given (calls ++ [call]))) packet status message) ∧
    (∀ calls call packet later, call.given = some packet → packet.offset ≠ 0 →
      ¬ Unbroken (sinceInitial (given (calls ++ [call]))) → (∀ other ∈ given later, other.offset ≠ 0) →
      ∃ before status behind state, pushAll (calls ++ call :: later) reassemblerReset =
          some (before ++ (status,none) :: behind,state) ∧ before.length = calls.length ∧
        (status = .errLength ∨ status = .errSequence) ∧ ∀ answer ∈ behind, answer.1 ≠ .complete ∧ answer.2 = none) ∧
    (∀ calls flags device parts fragments, (∀ part ∈ parts, part.length ≤ packetDataSize) →
      parts.flatten.length ≤ maxMessageSize → Carries flags device 0 parts fragments →
      ∃ before behind state, pushAll (calls ++ fragments) reassemblerReset = some (before ++ behind,state) ∧
        before.length = calls.length ∧ completed behind =
          if parts.flatten = [] then List.replicate parts.length (flags,device,[])
          else [(flags,device,parts.flatten)]) := by
  refine ⟨fun calls call => ?_,fun calls call packet later held initial broken others => ?_,
    fun calls flags device parts fragments short fits carries => ?_⟩
  · obtain ⟨answers,state,pushed,-,tracks⟩ := pushAll_since calls
    cases held : call.given with
    | none =>
      exact ⟨answers,state,_,_,_,pushed,push_ungiven held state,fun _ => ⟨rfl,rfl,rfl⟩,nofun⟩
    | some packet =>
    obtain ⟨status,message,next,one,answered,-⟩ := push_tracks tracks held
    refine ⟨answers,state,status,message,next,pushed,one,nofun,fun other same => ?_⟩
    cases same
    rwa [given_concat held]
  · obtain ⟨before,state,pushed,counted,tracks⟩ := pushAll_since calls
    obtain ⟨status,message,next,one,answered,kept⟩ := push_tracks tracks held
    rw [given_concat held] at broken
    obtain ⟨behind,final,rest,silent⟩ := pushAll_broken later kept (fun pending => broken pending.2.1) others
    have incomplete : status ≠ .complete := fun complete => broken (answered.complete.mp complete).1
    rw [answered.withheld incomplete] at one
    exact ⟨before,status,behind,final,pushAll_append pushed (pushAll_cons one rest),counted,answered.refused broken,silent⟩
  obtain ⟨before,state,pushed,counted,tracks⟩ := pushAll_since calls
  by_cases none : parts.flatten = []
  · obtain ⟨behind,final,rest,yields⟩ := fragments_empty carries tracks none
    exact ⟨before,behind,final,pushAll_append pushed rest,counted,by rw [yields,if_pos none]⟩
  obtain ⟨behind,final,rest,yields⟩ :=
    @fragments_complete flags device parts fragments state _ [] _ carries short rfl (by rwa [length_nil,Nat.zero_add])
      tracks (.inl rfl) none
  exact ⟨before,behind,final,pushAll_append pushed rest,counted,by rw [yields,if_neg none]; rfl⟩

/-- A packet without its data is refused in the midst of a message, and the message is completed all the same; and a
split of the empty message into two fragments yields it twice. -/
theorem refused_packet_passed_over :
    (∃ first refused last : Call, (∃ packet, refused.packet = some packet ∧ packet.offset ≠ 0 ∧ packet.length ≠ 0) ∧
      (pushAll [first,refused,last] reassemblerReset).map (·.1.map (·.1)) = some [.ok,.errArgument,.complete]) ∧
    ∃ fragments : List Call, Carries 0 0 0 [[],[]] fragments ∧
      (pushAll fragments reassemblerReset).map (fun pushed => completed pushed.1) = some [(0,0,[]),(0,0,[])] := by
  refine ⟨⟨⟨true,some ⟨0,0,0,1,1,some (fun _ => 7)⟩,true⟩,⟨true,some ⟨0,0,1,1,5,none⟩,true⟩,
    ⟨true,some ⟨0,0,1,0,1,some (fun _ => 8)⟩,true⟩,⟨_,rfl,by decide,by decide⟩,by decide⟩,
    [⟨true,some ⟨0,0,0,0,0,none⟩,true⟩,⟨true,some ⟨0,0,0,0,0,none⟩,true⟩],?_,by decide⟩
  exact ⟨⟨⟨0,0,0,0,0,none⟩,rfl,rfl,rfl,rfl,rfl,rfl⟩,⟨⟨0,0,0,0,0,none⟩,rfl,rfl,rfl,rfl,rfl,rfl⟩,trivial⟩

end WindowsOnM1.Hid
