import Mathlib.Algebra.BigOperators.Group.List.Basic
import Mathlib.Data.List.Infix
import Mathlib.Tactic.Ring
import WindowsOnM1.HidContract

/-!
The descriptors whose contract is computed, as sequences of short items, and what that contract is:
a report has the bytes that the bits of its input items take, and one more for its identifier.
-/
namespace WindowsOnM1.Hid
open ByteMemory Checks CountedLoop List Function
open BitVec (eq_of_toNat_eq lt_def ofNat toNat toNat_add toNat_setWidth)
open Nat (add_zero mod_eq_of_lt mul_comm zero_add zero_le)

structure ShortItem where
  lead : Byte
  data : List Byte
  short : lead ≠ 0xfe
  whole : data.length = itemSize lead

inductive ItemKind
  | reportSize | reportId | reportCount | push | pop | input | other
deriving DecidableEq
def unsigned (data : List Byte) : Nat := data.foldr (fun byte rest => byte.toNat + 256 * rest) 0

namespace ShortItem

def wire (item : ShortItem) : List Byte := item.lead :: item.data
def value (item : ShortItem) : Nat := unsigned item.data

def kind (item : ShortItem) : ItemKind :=
  if itemType item.lead = 1 then
    match itemTag item.lead with
    | 7 => .reportSize
    | 8 => .reportId
    | 9 => .reportCount
    | 10 => .push
    | 11 => .pop
    | _ => .other
  else if itemType item.lead = 0 ∧ itemTag item.lead = 8 then .input
  else .other

end ShortItem

/-- The bytes of a sequence of items. -/
def wires (items : List ShortItem) : List Byte := items.flatMap ShortItem.wire

/-- The global state at some place, and the states that are pushed there. -/
structure Scope where
  globals : GlobalState
  pushed : List GlobalState

def Scope.after (scope : Scope) (item : ShortItem) : Scope :=
  match item.kind with
  | .reportSize => { scope with globals := { scope.globals with reportSize := ofNat 32 item.value } }
  | .reportId => { scope with globals := { scope.globals with reportId := ofNat 8 item.value } }
  | .reportCount => { scope with globals := { scope.globals with reportCount := ofNat 32 item.value } }
  | .push => { scope with pushed := scope.globals :: scope.pushed }
  | .pop => ⟨scope.pushed.headD scope.globals,scope.pushed.tail⟩
  | _ => scope

def scopeAfter (items : List ShortItem) : Scope := items.foldl Scope.after ⟨⟨0,0,0⟩,[]⟩

/-- The global states under which the input items of a sequence stand. -/
def inputsFrom (scope : Scope) : List ShortItem → List GlobalState
  | [] => []
  | item :: rest => (if item.kind = .input then [scope.globals] else []) ++ inputsFrom (scope.after item) rest
def inputs (items : List ShortItem) : List GlobalState := inputsFrom ⟨⟨0,0,0⟩,[]⟩ items
def GlobalState.bits (globals : GlobalState) : Nat := globals.reportSize.toNat * globals.reportCount.toNat

/-- The bits of the input items under an identifier. -/
def bitsUnder (items : List ShortItem) (id : Byte) : Nat :=
  (((inputs items).filter (fun input => input.reportId = id)).map GlobalState.bits).sum
def depth (items : List ShortItem) : Int :=
  (items.countP (fun item => item.kind = .push) : Int) - (items.countP (fun item => item.kind = .pop) : Int)
def usesIds (items : List ShortItem) : Bool := items.any (fun item => item.kind = .reportId)

/-- The length of the reports with an identifier; zero if there are none. -/
def reportBytes (items : List ShortItem) (id : Byte) : Nat :=
  if ∃ input ∈ inputs items, input.reportId = id then
    (bitsUnder items id + 7) / 8 + if usesIds items then 1 else 0
  else 0

/-- The items of a descriptor that describes its input reports. -/
structure Proper (items : List ShortItem) : Prop where
  nested : ∀ before, before <+: items → 0 ≤ depth before ∧ depth before ≤ 4
  balanced : depth items = 0
  ids : ∀ item ∈ items, item.kind = .reportId → 1 ≤ item.value ∧ item.value ≤ 255
  sized : ∀ input ∈ inputs items, input.reportSize ≠ 0 ∧ input.reportCount ≠ 0
  reported : inputs items ≠ []
  named : usesIds items = true → ∀ input ∈ inputs items, input.reportId ≠ 0
  fitting : ∀ id, reportBytes items id ≤ 65535

private theorem unsigned_lt (data : List Byte) : unsigned data < 256 ^ data.length := by
  induction data with
  | nil => decide
  | cons byte rest ih =>
  rw [length_cons,pow_succ]
  change byte.toNat + 256 * unsigned rest < _
  omega

private theorem or_shifted {value : BitVec 32} {byte : Byte} {index : Nat} (inside : index < 4) (below : value.toNat < 256 ^ index) :
    (value ||| byte.setWidth 32 <<< (index * 8)).toNat = value.toNat + byte.toNat * 256 ^ index := by
  have powers : 256 ^ index = 2 ^ (index * 8) := by rw [mul_comm,pow_mul,show 2 ^ 8 = 256 from rfl]
  have small : byte.toNat * 2 ^ (index * 8) < 2 ^ 32 := by
    have low : byte.toNat < 2 ^ 8 := byte.isLt
    calc byte.toNat * 2 ^ (index * 8) < 2 ^ 8 * 2 ^ (index * 8) := Nat.mul_lt_mul_of_pos_right low (Nat.two_pow_pos _)
      _ = 2 ^ (8 + index * 8) := (pow_add 2 8 _).symm
      _ ≤ 2 ^ 32 := Nat.pow_le_pow_right (by decide) (by omega)
  rw [powers] at below ⊢
  rw [BitVec.toNat_or,BitVec.toNat_shiftLeft,toNat_setWidth,mod_eq_of_lt (show byte.toNat < 2 ^ 32 by omega),
    Nat.shiftLeft_eq,mod_eq_of_lt small,Nat.or_comm,mul_comm,← Nat.two_pow_add_eq_or_of_lt below,Nat.add_comm,mul_comm]

private theorem unsignedFrom_eq {before data rest : List Byte} {index : Nat} {value : BitVec 32} (short : index + data.length ≤ 4)
    (below : value.toNat < 256 ^ index) {offset : Nat} (place : offset + index = before.length) :
    unsignedFrom (before ++ data ++ rest) offset index data.length value =
      .ok (ofNat 32 (value.toNat + unsigned data * 256 ^ index)) := by
  induction data generalizing before index value with
  | nil =>
    change Except.ok value = _
    rw [show unsigned [] = 0 from rfl,Nat.zero_mul,add_zero,BitVec.ofNat_toNat,BitVec.setWidth_eq]
  | cons byte data ih =>
  rw [length_cons] at short
  have here : (entry (before ++ byte :: data ++ rest) (offset + index) : Check Status Byte) = .ok byte := by
    rw [entry,place,append_assoc,getElem?_append_right (le_refl _),Nat.sub_self]
    rfl
  have joined := @or_shifted value byte index (by omega) below
  have next : (value ||| byte.setWidth 32 <<< (index * 8)).toNat < 256 ^ (index + 1) := by
    have most : byte.toNat * 256 ^ index ≤ 255 * 256 ^ index := Nat.mul_le_mul_right _ (by omega)
    omega
  have longer : offset + (index + 1) = (before ++ [byte]).length := by
    rw [length_append,length_singleton]
    omega
  have step := ih (by omega) next longer
  rw [append_assoc before [byte],singleton_append] at step
  change (entry (before ++ byte :: data ++ rest) (offset + index) >>= _ : Check Status (BitVec 32)) = _
  rw [here]
  change unsignedFrom (before ++ byte :: data ++ rest) offset (index + 1) data.length _ = _
  rw [step,joined]
  refine congrArg (fun total => Except.ok (ofNat 32 total)) ?_
  change _ = value.toNat + (byte.toNat + 256 * unsigned data) * 256 ^ index
  ring

theorem itemSize_le (lead : Byte) : itemSize lead ≤ 4 := by
  unfold itemSize
  split
  · exact Nat.le_refl 4
  exact (Nat.and_le_right).trans (by decide)

theorem ShortItem.value_lt (item : ShortItem) : item.value < 2 ^ 32 := by
  refine (unsigned_lt item.data).trans_le ?_
  rw [item.whole]
  exact (Nat.pow_le_pow_right (by decide) (itemSize_le item.lead)).trans (by decide)

theorem unsignedValue_eq (before rest : List Byte) (item : ShortItem) :
    unsignedValue (before ++ item.wire ++ rest) (before.length + 1) (itemSize item.lead) = .ok (ofNat 32 item.value) := by
  have read := @unsignedFrom_eq (before ++ [item.lead]) item.data rest 0 0 (by rw [item.whole,zero_add]; exact itemSize_le _)
    (by decide) (before.length + 1) (by simp)
  rw [append_assoc before [item.lead],singleton_append,item.whole] at read
  simpa [unsignedValue,ShortItem.wire,ShortItem.value] using read

/-- A sequence of items, one after the other. -/
def runItems (state : ParseState) (items : List ShortItem) : Check Status ParseState :=
  items.foldlM (fun state item => parseItem item.lead (ofNat 32 item.value) state) state
theorem wires_cons (item : ShortItem) (items : List ShortItem) : wires (item :: items) = item.wire ++ wires items := rfl
theorem ShortItem.wire_length (item : ShortItem) : item.wire.length = itemSize item.lead + 1 := by
  rw [wire,length_cons,item.whole]

private theorem parseItems_turn (before rest : List Byte) (item : ShortItem) (turns : Nat) (state : ParseState) :
    parseItems (before ++ item.wire ++ rest) (turns + 1) before.length state =
      parseItem item.lead (ofNat 32 item.value) state >>=
        parseItems (before ++ item.wire ++ rest) turns (before ++ item.wire).length := by
  have total : (before ++ item.wire ++ rest).length = before.length + (itemSize item.lead + 1) + rest.length := by
    rw [length_append,length_append,item.wire_length]
  have lead : (entry (before ++ item.wire ++ rest) before.length : Check Status Byte) = .ok item.lead := by
    rw [entry,append_assoc,getElem?_append_right (le_refl _),Nat.sub_self]
    rfl
  rw [parseItems,if_pos (by omega),lead]
  change (if item.lead = 0xfe then _ else _) = _
  rw [if_neg item.short,if_neg (by omega),unsignedValue_eq before rest item]
  rw [length_append,item.wire_length,show before.length + 1 + itemSize item.lead = before.length + (itemSize item.lead + 1) by omega]
  rfl

private theorem parseItems_end (descriptor : List Byte) (turns : Nat) (state : ParseState) :
    parseItems descriptor (turns + 1) descriptor.length state = .ok state := by
  rw [parseItems,if_neg (lt_irrefl _)]
  rfl

private theorem parseItems_wires {before : List Byte} {items : List ShortItem} {turns : Nat} (enough : items.length < turns)
    (state : ParseState) : parseItems (before ++ wires items) turns before.length state = runItems state items := by
  induction items generalizing before turns state with
  | nil =>
    obtain ⟨more,rfl⟩ : ∃ more, turns = more + 1 := ⟨turns - 1,by rw [length_nil] at enough; omega⟩
    have ends := parseItems_end before more state
    rw [show wires [] = [] from rfl,append_nil]
    exact ends
  | cons item items ih =>
  obtain ⟨more,rfl⟩ : ∃ more, turns = more + 1 := ⟨turns - 1,by omega⟩
  rw [wires_cons,← append_assoc,parseItems_turn,runItems,foldlM_cons]
  refine congrArg (parseItem item.lead (ofNat 32 item.value) state >>= ·) (funext fun next => ?_)
  exact ih (by rw [length_cons] at enough; omega) next

/-- A check that reads inside, and that refuses with an error. -/
def Settles {α : Type} (check : Check Status α) (post : α → Prop) : Prop :=
  Meets check post ∧ ∀ status, check = reject status → status ≠ .ok

namespace Settles
variable {α β : Type}

variable {post : α → Prop}

theorem pure {value : α} (holds : post value) : Settles (Pure.pure value : Check Status α) post :=
  ⟨holds,fun status refused => by cases refused⟩
theorem reject {status : Status} (error : status ≠ .ok) : Settles (Checks.reject status : Check Status α) post :=
  ⟨trivial,fun status refused => by cases refused; exact error⟩

theorem bind {check : Check Status α} {next : α → Check Status β} {post' : β → Prop}
    (first : Settles check post) (second : ∀ value, post value → Settles (next value) post') : Settles (check >>= next) post' := by
  match check, first with
  | .ok value, first => exact second value first.1
  | .error (.rejected status), first =>
    refine ⟨trivial,fun other refused => ?_⟩
    cases refused
    exact first.2 status rfl

theorem entry {table : List α} {index : Nat} (inside : index < table.length) :
    Settles (Checks.entry table index : Check Status α) (fun found => table[index]? = some found) := by
  refine ⟨Meets.entry inside,fun status refused => ?_⟩
  rw [Checks.entry,getElem?_eq_getElem inside] at refused
  cases refused

end Settles

private theorem parseItem_settles (lead : Byte) (value : BitVec 32) (state : ParseState) :
    Settles (parseItem lead value state) (fun _ => True) := by
  unfold parseItem globalItem inputItem
  dsimp only
  repeat' split
  all_goals first | exact Settles.reject (by decide) | exact Settles.pure trivial

/-- The loop reads inside and ends, and what it accepts are items. -/
private theorem parseItems_settles {descriptor : List Byte} {turns offset : Nat} (inside : offset ≤ descriptor.length)
    (enough : descriptor.length - offset < turns) (state : ParseState) :
    Settles (parseItems descriptor turns offset state) (fun _ => ∃ items, descriptor.drop offset = wires items) := by
  induction turns generalizing offset state with
  | zero => exact absurd enough (Nat.not_lt_zero _)
  | succ turns ih =>
  rw [parseItems]
  split
  · rename_i more
    refine Settles.bind (Settles.entry more) (fun lead found => ?_)
    have here : descriptor.drop offset = lead :: descriptor.drop (offset + 1) := by
      rw [drop_eq_getElem_cons more,Option.some.inj ((getElem?_eq_getElem more).symm.trans found)]
    split
    · exact Settles.reject (by decide)
    rename_i short
    split
    · exact Settles.reject (by decide)
    have size : ((descriptor.drop (offset + 1)).take (itemSize lead)).length = itemSize lead := by
      rw [length_take,length_drop]
      omega
    -- The item that stands here.
    let item : ShortItem := ⟨lead,(descriptor.drop (offset + 1)).take (itemSize lead),short,size⟩
    have split : descriptor.drop offset = item.wire ++ descriptor.drop (offset + 1 + itemSize lead) := by
      have rest : descriptor.drop (offset + 1 + itemSize lead) = (descriptor.drop (offset + 1)).drop (itemSize lead) :=
        drop_drop.symm
      rw [here,rest]
      exact congrArg (lead :: ·) (take_append_drop (itemSize lead) _).symm
    have value := unsignedValue_eq (descriptor.take offset) (descriptor.drop (offset + 1 + itemSize lead)) item
    rw [append_assoc,← split,take_append_drop,length_take,Nat.min_eq_left inside] at value
    rw [value]
    change Settles (parseItem lead (ofNat 32 item.value) state >>= _) _
    refine Settles.bind (parseItem_settles _ _ _) (fun next _ => ?_)
    obtain ⟨meets,errors⟩ := ih (show offset + 1 + itemSize lead ≤ descriptor.length by omega) (by omega) next
    refine ⟨meets.mono (fun _ ⟨items,rest⟩ => ⟨item :: items,?_⟩),errors⟩
    rw [wires_cons,← rest,split]
  rw [show offset = descriptor.length by omega,drop_length]
  exact Settles.pure ⟨[],rfl⟩

variable (items : List ShortItem) (item : ShortItem)

theorem scopeAfter_concat : scopeAfter (items ++ [item]) = (scopeAfter items).after item := by
  rw [scopeAfter,foldl_append]
  rfl

private theorem inputsFrom_append (scope : Scope) (items later : List ShortItem) :
    inputsFrom scope (items ++ later) = inputsFrom scope items ++ inputsFrom (items.foldl Scope.after scope) later := by
  induction items generalizing scope with
  | nil => rfl
  | cons item items ih => rw [cons_append,inputsFrom,inputsFrom,ih,append_assoc,foldl_cons]

theorem inputs_concat :
    inputs (items ++ [item]) = inputs items ++ if item.kind = .input then [(scopeAfter items).globals] else [] := by
  rw [inputs,inputsFrom_append,inputsFrom,inputsFrom,append_nil]
  rfl

theorem bitsUnder_concat (id : Byte) : bitsUnder (items ++ [item]) id = bitsUnder items id +
      if item.kind = .input ∧ (scopeAfter items).globals.reportId = id then (scopeAfter items).globals.bits else 0 := by
  rw [bitsUnder,inputs_concat,filter_append,map_append,sum_append]
  refine congrArg (bitsUnder items id + ·) ?_
  by_cases input : item.kind = .input
  · by_cases here : (scopeAfter items).globals.reportId = id
    all_goals simp [input,here]
  simp [input]

theorem depth_concat :
    depth (items ++ [item]) = depth items + if item.kind = .push then 1 else if item.kind = .pop then -1 else 0 := by
  unfold depth
  rw [countP_append,countP_append,countP_singleton,countP_singleton]
  cases kind : item.kind <;> simp <;> omega

theorem usesIds_concat : usesIds (items ++ [item]) = (usesIds items || decide (item.kind = .reportId)) := by
  rw [usesIds,any_append,any_cons,any_nil,Bool.or_false]
  rfl

/-- What the items up to some place satisfy when none of them is refused. -/
structure FitsParser (items : List ShortItem) : Prop where
  nested : ∀ before, before <+: items → 0 ≤ depth before ∧ depth before ≤ 4
  ids : ∀ item ∈ items, item.kind = .reportId → 1 ≤ item.value ∧ item.value ≤ 255
  sized : ∀ input ∈ inputs items, input.reportSize ≠ 0 ∧ input.reportCount ≠ 0
  filled : ∀ id, bitsUnder items id ≤ 65535 * 8

/-- What the next item has to satisfy. -/
structure Admits (items : List ShortItem) (item : ShortItem) : Prop where
  push : item.kind = .push → depth items < 4
  pop : item.kind = .pop → 0 < depth items
  id : item.kind = .reportId → 1 ≤ item.value ∧ item.value ≤ 255
  sized : item.kind = .input → (scopeAfter items).globals.reportSize ≠ 0 ∧ (scopeAfter items).globals.reportCount ≠ 0
  filled : item.kind = .input →
    bitsUnder items (scopeAfter items).globals.reportId + (scopeAfter items).globals.bits ≤ 65535 * 8

theorem Admits.plain {items : List ShortItem} {item : ShortItem}
    (plain : item.kind = .reportSize ∨ item.kind = .reportCount ∨ item.kind = .other) : Admits items item := by
  refine ⟨?_,?_,?_,?_,?_⟩ <;> intro kind <;> rw [kind] at plain <;> simp at plain

private theorem fitsParser_nil : FitsParser [] where
  nested := fun before shorter => by
    rw [prefix_nil.mp shorter]
    decide
  ids := fun item mem => absurd mem not_mem_nil
  sized := fun input mem => absurd mem not_mem_nil
  filled := fun id => zero_le _

private theorem fitsParser_concat : FitsParser (items ++ [item]) ↔ FitsParser items ∧ Admits items item := by
  constructor
  · intro fits
    have here := fits.nested _ (prefix_refl _)
    rw [depth_concat] at here
    refine ⟨⟨fun before shorter => fits.nested before (shorter.trans (prefix_append _ _)),
      fun other mem => fits.ids other (mem_append_left _ mem),fun input mem => fits.sized input ?_,fun id => ?_⟩,
      fun push => ?_,fun pop => ?_,fun id => fits.ids item (mem_append_right _ mem_cons_self) id,
      fun input => fits.sized _ ?_,fun input => ?_⟩
    · rw [inputs_concat]
      exact mem_append_left _ mem
    · have more := fits.filled id
      rw [bitsUnder_concat] at more
      omega
    · rw [if_pos push] at here
      omega
    · rw [if_neg (by rw [pop]; decide),if_pos pop] at here
      omega
    · rw [inputs_concat,if_pos input]
      exact mem_append_right _ mem_cons_self
    have more := fits.filled (scopeAfter items).globals.reportId
    rwa [bitsUnder_concat,if_pos ⟨input,rfl⟩] at more
  rintro ⟨fits,admits⟩
  have here := fits.nested items (prefix_refl _)
  refine ⟨fun before shorter => ?_,fun other mem => ?_,fun input mem => ?_,fun id => ?_⟩
  · rcases prefix_concat_iff.mp shorter with rfl | shorter
    · rw [depth_concat]
      split
      · have := admits.push ‹_›
        omega
      split
      · have := admits.pop ‹_›
        omega
      omega
    exact fits.nested before shorter
  · rcases mem_append.mp mem with mem | mem
    · exact fits.ids other mem
    rw [mem_singleton.mp mem]
    exact admits.id
  · rw [inputs_concat] at mem
    rcases mem_append.mp mem with mem | mem
    · exact fits.sized input mem
    split at mem
    · rw [mem_singleton.mp mem]
      exact admits.sized ‹_›
    exact absurd mem not_mem_nil
  rw [bitsUnder_concat]
  split
  · rename_i both
    rw [← both.2]
    exact admits.filled both.1
  exact fits.filled id

structure Holds (items : List ShortItem) (state : ParseState) : Prop where
  globals : state.globals = (scopeAfter items).globals
  stack : state.stack = (scopeAfter items).pushed
  deep : (state.stack.length : Int) = depth items
  uses : state.usesReportIds = usesIds items
  bits : ∀ id : Byte, (state.bitsById id.toNat).toNat = bitsUnder items id
  count : state.reportCount = (inputs items).length

private theorem parseItem_kind (value : BitVec 32) (state : ParseState) : parseItem item.lead value state = match item.kind with
      | .reportSize => globalItem 7 value state | .reportId => globalItem 8 value state
      | .reportCount => globalItem 9 value state | .push => globalItem 10 value state
      | .pop => globalItem 11 value state | .input => inputItem state | .other => pure state := by
  unfold parseItem ShortItem.kind
  by_cases global : itemType item.lead = 1
  · rw [if_pos global,if_pos global]
    generalize itemTag item.lead = tag
    by_cases known : tag = 7 ∨ tag = 8 ∨ tag = 9 ∨ tag = 10 ∨ tag = 11
    · rcases known with rfl | rfl | rfl | rfl | rfl <;> rfl
    push Not at known
    have global : globalItem tag value state = pure state := by
      unfold globalItem
      split <;> first | rfl | contradiction
    rw [global]
    split <;> rename_i kind <;> split at kind <;> first | rfl | contradiction
  rw [if_neg global,if_neg global]
  split <;> rfl

section
variable {items : List ShortItem} {item : ShortItem} {state next : ParseState}

theorem Holds.scoped (holds : Holds items state) (apart : item.kind ≠ .input)
    (scope : (⟨next.globals,next.stack⟩ : Scope) = (⟨state.globals,state.stack⟩ : Scope).after item)
    (deep : (next.stack.length : Int) = state.stack.length + if item.kind = .push then 1 else if item.kind = .pop then -1 else 0)
    (uses : next.usesReportIds = (state.usesReportIds || decide (item.kind = .reportId)))
    (bits : next.bitsById = state.bitsById) (count : next.reportCount = state.reportCount) : Holds (items ++ [item]) next := by
  rw [holds.globals,holds.stack,← scopeAfter_concat] at scope
  refine ⟨congrArg Scope.globals scope,congrArg Scope.pushed scope,?_,?_,fun id => ?_,?_⟩
  · rw [deep,holds.deep,depth_concat]
  · rw [uses,holds.uses,usesIds_concat]
  · rw [bits,holds.bits,bitsUnder_concat,if_neg (fun both => apart both.1),add_zero]
  rw [count,holds.count,inputs_concat,if_neg apart,append_nil]

theorem bits_lt (globals : GlobalState) : globals.bits < 2 ^ 64 - 2 ^ 32 := by
  calc globals.bits ≤ (2 ^ 32 - 1) * (2 ^ 32 - 1) := Nat.mul_le_mul (by omega) (by omega)
    _ < 2 ^ 64 - 2 ^ 32 := by decide

private theorem contribution_toNat (globals : GlobalState) :
    (globals.reportSize.setWidth 64 * globals.reportCount.setWidth 64 : BitVec 64).toNat = globals.bits := by
  have bound := bits_lt globals
  rw [BitVec.toNat_mul,toNat_setWidth,toNat_setWidth,mod_eq_of_lt (a := globals.reportSize.toNat) (by omega),
    mod_eq_of_lt (a := globals.reportCount.toNat) (by omega)]
  exact mod_eq_of_lt (bound.trans (by decide))

/-- An input item adds its bits, as long as all of the report fits. -/
private theorem inputItem_step (input : item.kind = .input) (holds : Holds items state) :
    (Admits items item → ∃ next, inputItem state = .ok next ∧ Holds (items ++ [item]) next) ∧
      (¬ Admits items item → ∃ status, status ≠ .ok ∧ inputItem state = reject status) := by
  have contribution := contribution_toNat state.globals
  have bound := bits_lt state.globals
  have total : ((state.bitsById state.globals.reportId.toNat).setWidth 64 +
      state.globals.reportSize.setWidth 64 * state.globals.reportCount.setWidth 64 : BitVec 64).toNat =
        bitsUnder items (scopeAfter items).globals.reportId + (scopeAfter items).globals.bits := by
    rw [toNat_add,toNat_setWidth,contribution,mod_eq_of_lt (a := (state.bitsById _).toNat) (by omega),
      mod_eq_of_lt (by omega),holds.bits,holds.globals]
  have most : maximumBits.toNat = 65535 * 8 := by decide
  unfold inputItem
  split
  · rename_i sized
    refine ⟨fun admits => absurd sized ?_,fun _ => ⟨_,by decide,rfl⟩⟩
    rw [holds.globals,not_or]
    exact admits.sized input
  rename_i sized
  by_cases large : bitsUnder items (scopeAfter items).globals.reportId + (scopeAfter items).globals.bits ≤ 65535 * 8
  · rw [if_neg (by
      rw [gt_iff_lt,gt_iff_lt,lt_def,lt_def,total,contribution,most,holds.globals]
      omega)]
    refine ⟨fun _ => ⟨_,rfl,?_⟩,fun refused => absurd ⟨?_,?_,?_,fun _ => ?_,fun _ => large⟩ refused⟩
    · have scope : scopeAfter (items ++ [item]) = scopeAfter items := by
        rw [scopeAfter_concat,Scope.after,input]
      refine ⟨by rw [scope,← holds.globals],by rw [scope,← holds.stack],?_,?_,fun id => ?_,?_⟩
      · rw [depth_concat,if_neg (by rw [input]; decide),if_neg (by rw [input]; decide),Int.add_zero]
        exact holds.deep
      · rw [usesIds_concat,input]
        exact holds.uses.trans (Bool.or_false _).symm
      · rw [bitsUnder_concat]
        by_cases here : (scopeAfter items).globals.reportId = id
        · subst here
          rw [if_pos ⟨input,rfl⟩,← holds.globals]
          dsimp only
          rw [update_self,toNat_setWidth,total,← holds.globals]
          exact mod_eq_of_lt (by rw [holds.globals]; omega)
        rw [if_neg (fun both => here both.2),add_zero,← holds.bits]
        refine congrArg toNat (update_of_ne (fun same => here ?_) _ _)
        rw [← holds.globals]
        exact (eq_of_toNat_eq same).symm
      rw [inputs_concat,if_pos input,length_append,length_singleton]
      exact congrArg (· + 1) holds.count
    · exact fun push => absurd (push.symm.trans input) (by decide)
    · exact fun pop => absurd (pop.symm.trans input) (by decide)
    · exact fun id => absurd (id.symm.trans input) (by decide)
    rw [← holds.globals,← not_or]
    exact sized
  rw [if_pos (by
    rw [gt_iff_lt,gt_iff_lt,lt_def,lt_def,total,most]
    omega)]
  exact ⟨fun admits => absurd (admits.filled input) large,fun _ => ⟨_,by decide,rfl⟩⟩

private theorem ofNat_setWidth {value : Nat} : (ofNat 32 value).setWidth 8 = ofNat 8 value :=
  eq_of_toNat_eq (by
    exact Nat.mod_mod_of_dvd _ (by decide))

section
variable (value : BitVec 32) (state)
include value

private theorem globalItem_id : globalItem 8 value state =
    if value = 0 ∨ value.toNat ≥ reportIdCapacity then reject .errProtocol
    else pure { state with globals := { state.globals with reportId := value.setWidth 8 }, usesReportIds := true } := rfl
private theorem globalItem_push : globalItem 10 value state =
    if state.stack.length = globalStackCapacity then reject .errProtocol
    else pure { state with stack := state.globals :: state.stack } := rfl
private theorem globalItem_pop : globalItem 11 value state = match state.stack with
    | [] => reject .errProtocol
    | top :: below => pure { state with globals := top, stack := below } := rfl

end

/-- An item is accepted as long as what stands before allows it. -/
private theorem parseItem_step (item : ShortItem) (holds : Holds items state) (fits : FitsParser items) :
    (Admits items item → ∃ next, parseItem item.lead (ofNat 32 item.value) state = .ok next ∧ Holds (items ++ [item]) next) ∧
      (¬ Admits items item → ∃ status, status ≠ .ok ∧ parseItem item.lead (ofNat 32 item.value) state = reject status) := by
  have here := fits.nested items (prefix_refl _)
  have value : (ofNat 32 item.value).toNat = item.value := mod_eq_of_lt item.value_lt
  have deep := holds.deep
  rw [parseItem_kind]
  cases kind : item.kind with
  | reportId =>
    rw [globalItem_id]
    by_cases named : 1 ≤ item.value ∧ item.value ≤ 255
    · rw [if_neg (by
        rw [value,not_or]
        refine ⟨fun zero => ?_,by unfold reportIdCapacity; omega⟩
        have := congrArg toNat zero
        rw [value] at this
        exact absurd this (by change item.value ≠ 0; omega))]
      refine ⟨fun _ => ⟨_,rfl,holds.scoped (by rw [kind]; decide) ?_ ?_ ?_ rfl rfl⟩,
        fun refused => absurd ⟨?_,?_,fun _ => named,?_,?_⟩ refused⟩
      · rw [Scope.after,kind]
        rw [ofNat_setWidth]
      · simp [kind]
      · simp [kind]
      all_goals exact fun same => by rw [kind] at same; cases same
    rw [if_pos (by
      by_cases zero : item.value = 0
      · exact .inl (by rw [zero]; rfl)
      exact .inr (by rw [value]; unfold reportIdCapacity; omega))]
    exact ⟨fun admits => absurd (admits.id kind) named,fun _ => ⟨_,by decide,rfl⟩⟩
  | push =>
    dsimp only
    rw [globalItem_push]
    split
    · rename_i full
      refine ⟨fun admits => absurd (admits.push kind) ?_,fun _ => ⟨_,by decide,rfl⟩⟩
      rw [← deep,full]
      decide
    rename_i full
    refine ⟨fun _ => ⟨_,rfl,holds.scoped (by rw [kind]; decide) (by rw [Scope.after,kind]) ?_ ?_ rfl rfl⟩,
      fun refused => absurd ⟨fun _ => ?_,?_,?_,?_,?_⟩ refused⟩
    · simp [kind]
    · simp [kind]
    · unfold globalStackCapacity at full
      omega
    all_goals exact fun same => by rw [kind] at same; cases same
  | pop =>
    rw [globalItem_pop]
    cases stack : state.stack with
    | nil =>
      refine ⟨fun admits => absurd (admits.pop kind) ?_,fun _ => ⟨_,by decide,rfl⟩⟩
      rw [← deep,stack]
      decide
    | cons top below =>
    rw [stack,length_cons] at deep
    refine ⟨fun _ => ⟨_,rfl,holds.scoped (by rw [kind]; decide) (by rw [Scope.after,kind,stack]; rfl) ?_ ?_ rfl rfl⟩,
      fun refused => absurd ⟨?_,fun _ => by omega,?_,?_,?_⟩ refused⟩
    · simp [kind,stack]
    · simp [kind]
    all_goals exact fun same => by rw [kind] at same; cases same
  | input => exact inputItem_step kind holds
  | _ =>
  refine ⟨fun _ => ⟨_,rfl,holds.scoped (by rw [kind]; decide) (by rw [Scope.after,kind]) ?_ ?_ rfl rfl⟩,
    fun refused => absurd (Admits.plain (by rw [kind]; decide)) refused⟩
  · simp [kind]
  simp [kind]

theorem runItems_spec (items : List ShortItem) :
    (FitsParser items → ∃ state, runItems .zero items = .ok state ∧ Holds items state) ∧
      (¬ FitsParser items → ∃ status, status ≠ .ok ∧ runItems .zero items = reject status) := by
  induction items using reverseRecOn with
  | nil => exact ⟨fun _ => ⟨_,rfl,⟨rfl,rfl,rfl,rfl,fun _ => rfl,rfl⟩⟩,fun refused => absurd fitsParser_nil refused⟩
  | append_singleton items item ih =>
  have split : runItems .zero (items ++ [item]) = runItems .zero items >>= fun state =>
      parseItem item.lead (ofNat 32 item.value) state := by
    rw [runItems,foldlM_append]
    refine congrArg (runItems .zero items >>= ·) (funext fun state => ?_)
    exact bind_pure _
  rw [split,fitsParser_concat]
  by_cases fits : FitsParser items
  · obtain ⟨state,ran,holds⟩ := ih.1 fits
    obtain ⟨accepted,refused⟩ := parseItem_step item holds fits
    rw [ran]
    exact ⟨fun both => accepted both.2,fun neither => refused (fun admits => neither ⟨fits,admits⟩)⟩
  obtain ⟨status,bad,ran⟩ := ih.2 fits
  rw [ran]
  exact ⟨fun both => absurd both.1 fits,fun _ => ⟨status,bad,rfl⟩⟩

/-! ### The contract -/

theorem bitsUnder_pos (fits : FitsParser items) {id : Byte} (some : ∃ input ∈ inputs items, input.reportId = id) :
    0 < bitsUnder items id := by
  obtain ⟨input,mem,here⟩ := some
  obtain ⟨size,count⟩ := fits.sized input mem
  have bits : 0 < input.bits := Nat.mul_pos (Nat.pos_of_ne_zero fun zero => size (eq_of_toNat_eq zero))
    (Nat.pos_of_ne_zero fun zero => count (eq_of_toNat_eq zero))
  refine List.sum_pos_iff_exists_pos_nat.mpr ⟨input.bits,mem_map_of_mem ?_,bits⟩
  exact mem_filter.mpr ⟨mem,decide_eq_true here⟩

theorem bitsUnder_none {id : Byte} (none : ¬ ∃ input ∈ inputs items, input.reportId = id) : bitsUnder items id = 0 := by
  have empty : (inputs items).filter (fun input => input.reportId = id) = [] :=
    filter_eq_nil_iff.mpr (fun input mem same => none ⟨input,mem,of_decide_eq_true same⟩)
  rw [bitsUnder,empty]
  rfl

theorem proper_iff : Proper items ↔ FitsParser items ∧ depth items = 0 ∧ inputs items ≠ [] ∧
    (usesIds items = true → ∀ input ∈ inputs items, input.reportId ≠ 0) ∧ ∀ id, reportBytes items id ≤ 65535 := by
  constructor
  · intro proper
    refine ⟨{ proper with filled := fun id => ?_ },proper.balanced,proper.reported,proper.named,proper.fitting⟩
    by_cases some : ∃ input ∈ inputs items, input.reportId = id
    · have fit := proper.fitting id
      rw [reportBytes,if_pos some] at fit
      omega
    rw [bitsUnder_none some]
    exact zero_le _
  rintro ⟨fits,balanced,reported,named,fitting⟩
  exact ⟨fits.nested,balanced,fits.ids,fits.sized,reported,named,fitting⟩

private theorem reportLength_eq (holds : Holds items state) (fits : FitsParser items) (id : Byte) :
    (state.bitsById id.toNat = 0 → reportBytes items id = 0) ∧ (state.bitsById id.toNat ≠ 0 →
        (reportLength state.usesReportIds (state.bitsById id.toNat)).toNat = reportBytes items id) := by
  have bits := holds.bits id
  have filled := fits.filled id
  by_cases some : ∃ input ∈ inputs items, input.reportId = id
  · have positive := bitsUnder_pos fits some
    refine ⟨fun zero => ?_,fun _ => ?_⟩
    · rw [zero] at bits
      exact absurd bits positive.ne
    have sum : (state.bitsById id.toNat + 7).toNat = bitsUnder items id + 7 := by
      rw [toNat_add,bits]
      exact mod_eq_of_lt (by change bitsUnder items id + 7 < 2 ^ 32; omega)
    have quotient : ((state.bitsById id.toNat + 7) / 8).toNat = (bitsUnder items id + 7) / 8 := by
      rw [BitVec.toNat_udiv,sum]
      rfl
    rw [reportBytes,if_pos some,reportLength,← holds.uses]
    cases state.usesReportIds with
    | false => simpa using quotient
    | true =>
    simp only [if_true]
    rw [toNat_add,quotient]
    exact mod_eq_of_lt (by change (bitsUnder items id + 7) / 8 + 1 < 2 ^ 32; omega)
  refine ⟨fun _ => if_neg some,fun held => absurd ?_ held⟩
  rw [bitsUnder_none some] at bits
  exact eq_of_toNat_eq bits

/-- What a contract says about the reports of a sequence of items. -/
structure Describes (items : List ShortItem) (contract : InputContract) : Prop where
  valid : contract.valid = true
  uses : contract.usesReportIds = usesIds items
  bytes : ∀ id : Byte, (contract.bytesById id.toNat).toNat = reportBytes items id

/-- What the loop over the identifiers has left before some one. -/
structure Filled (items : List ShortItem) (stop : Nat) (result : InputContract) : Prop where
  uses : result.usesReportIds = usesIds items
  bytes : ∀ id : Byte, (result.bytesById id.toNat).toNat = if id.toNat < stop then reportBytes items id else 0
  fitting : ∀ id : Byte, id.toNat < stop → reportBytes items id ≤ 65535

private theorem fillBytes_ends (holds : Holds items state) (fits : FitsParser items) :
    Ends (Filled items (0 + reportIdCapacity)) (fun _ => ∃ id, 65535 < reportBytes items id)
      (countLoop (fillBytes state) 0 reportIdCapacity ⟨false,state.usesReportIds,fun _ => 0⟩) := by
  refine countLoop_ends _ (Filled items) _ ?_ (fun place result _ below filled => ?_)
  · exact ⟨holds.uses,fun id => (if_neg (Nat.not_lt_zero _)).symm,fun id below => absurd below (Nat.not_lt_zero _)⟩
  have here : (ofNat 8 place).toNat = place := mod_eq_of_lt (by unfold reportIdCapacity at below; omega)
  have only (id : Byte) (inside : id.toNat < place + 1) (apart : ¬ id.toNat < place) : id = ofNat 8 place :=
    eq_of_toNat_eq (by rw [here]; omega)
  obtain ⟨none,some⟩ := reportLength_eq holds fits (ofNat 8 place)
  rw [here] at none some
  unfold fillBytes
  split
  · rename_i empty
    refine ⟨fun _ => ⟨filled.uses,fun id => ?_,fun id inside => ?_⟩,nofun⟩
    · rw [filled.bytes]
      split
      · rw [if_pos (by omega)]
      rename_i before
      split
      · rw [only id ‹_› before,none empty]
      rfl
    by_cases before : id.toNat < place
    · exact filled.fitting id before
    rw [only id inside before,none empty]
    exact zero_le _
  rename_i empty
  rw [some empty]
  split
  · rename_i large
    exact ⟨nofun,fun _ => ⟨_,large⟩⟩
  refine ⟨fun _ => ⟨filled.uses,fun id => ?_,fun id inside => ?_⟩,nofun⟩
  · by_cases same : id.toNat = place
    · dsimp only
      rw [same,update_self,toNat_setWidth,some empty,if_pos (Nat.lt_succ_self _),only id (by omega) (by omega)]
      exact mod_eq_of_lt (by omega)
    dsimp only
    rw [update_of_ne same,filled.bytes]
    exact if_congr (by omega) rfl rfl
  by_cases before : id.toNat < place
  · exact filled.fitting id before
  rw [only id inside before]
  omega

theorem contractOf_spec (holds : Holds items state) (fits : FitsParser items) :
    (Proper items → ∃ contract, contractOf state = .ok contract ∧ Describes items contract) ∧
      (¬ Proper items → ∃ status, status ≠ .ok ∧ contractOf state = reject status) := by
  have balanced : state.stack.length ≠ 0 ↔ depth items ≠ 0 := by
    rw [← holds.deep]
    omega
  have reported : state.reportCount = 0 ↔ inputs items = [] := by
    rw [holds.count]
    exact length_eq_zero_iff
  have zeroth : state.bitsById 0 ≠ 0 ↔ ∃ input ∈ inputs items, input.reportId = 0 := by
    have bits := holds.bits 0
    constructor
    · refine fun held => by_contra fun none => held ?_
      rw [bitsUnder_none none] at bits
      exact eq_of_toNat_eq bits
    intro some zero
    have positive := bitsUnder_pos fits some
    rw [show (0 : Byte).toNat = 0 from rfl,zero] at bits
    exact absurd bits positive.ne
  unfold contractOf rejectIf
  by_cases ends : depth items ≠ 0 ∨ inputs items = []
  · rw [if_pos (ends.imp balanced.mpr reported.mpr)]
    refine ⟨fun proper => ?_,fun _ => ⟨_,by decide,rfl⟩⟩
    exact absurd ends (not_or.mpr ⟨not_not.mpr proper.balanced,proper.reported⟩)
  rw [if_neg (fun either => ends (either.imp balanced.mp reported.mp))]
  rw [not_or,not_not] at ends
  by_cases unnamed : usesIds items = true ∧ ∃ input ∈ inputs items, input.reportId = 0
  · obtain ⟨uses,input,mem,zero⟩ := unnamed
    rw [if_pos ⟨holds.uses.trans uses,zeroth.mpr ⟨input,mem,zero⟩⟩]
    exact ⟨fun proper => absurd zero (proper.named uses input mem),fun _ => ⟨_,by decide,rfl⟩⟩
  rw [if_neg (fun both => unnamed ⟨holds.uses.symm.trans both.1,zeroth.mp both.2⟩)]
  have named (uses : usesIds items = true) (input : GlobalState) (mem : input ∈ inputs items) : input.reportId ≠ 0 :=
    fun zero => unnamed ⟨uses,input,mem,zero⟩
  have filling := fillBytes_ends holds fits
  cases result : countLoop (fillBytes state) 0 reportIdCapacity ⟨false,state.usesReportIds,fun _ => 0⟩ with | mk done left =>
  rw [result] at filling
  cases done with
  | false =>
    obtain ⟨id,large⟩ := filling.2 rfl
    exact ⟨fun proper => absurd (proper.fitting id) (Nat.not_le.mpr large),fun _ => ⟨_,by decide,rfl⟩⟩
  | true =>
  have filled := filling.1 rfl
  refine ⟨fun _ => ⟨_,rfl,rfl,filled.uses,fun id => ?_⟩,fun improper => absurd ?_ improper⟩
  · exact (filled.bytes id).trans (if_pos (by rw [zero_add]; exact id.isLt))
  exact proper_iff.mpr ⟨fits,ends.1,ends.2,named,fun id => filled.fitting id (by rw [zero_add]; exact id.isLt)⟩

end

/-- The identifier under which a report stands. -/
def reportIdOf (items : List ShortItem) (report : List Byte) : Byte := if usesIds items then report.headD 0 else 0

variable {items : List ShortItem}

theorem Describes.accepts {contract : InputContract} (describes : Describes items contract) (report : List Byte) :
    inputReportValid (some contract) (some report) =
      some (if report ≠ [] ∧ report.length = reportBytes items (reportIdOf items report) then some (reportIdOf items report)
        else none) := by
  cases report with
  | nil => rw [inputReportValid,if_pos (.inr rfl),if_neg (fun both => both.1 rfl)]
  | cons lead rest =>
  have id : (if contract.usesReportIds then (lead :: rest)[0]? else some 0) = some (reportIdOf items (lead :: rest)) := by
    rw [describes.uses,reportIdOf]
    split <;> rfl
  rw [inputReportValid,if_neg (by simp [describes.valid])]
  rw [id,Option.bind_some]
  have bytes := describes.bytes (reportIdOf items (lead :: rest))
  by_cases same : (lead :: rest).length = reportBytes items (reportIdOf items (lead :: rest))
  · rw [if_neg ?_,if_pos ⟨cons_ne_nil _ _,same⟩]
    rintro (zero | apart)
    · rw [zero] at bytes
      rw [← bytes] at same
      exact absurd same (Nat.succ_ne_zero _)
    exact apart (bytes.trans same.symm)
  rw [if_pos (.inr (fun equal => same (equal.symm.trans bytes))),if_neg (fun both => same both.2)]

theorem wires_length (items : List ShortItem) : items.length ≤ (wires items).length := by
  induction items with
  | nil => exact zero_le _
  | cons item items ih =>
  rw [wires_cons,length_append,item.wire_length,length_cons]
  omega

variable {descriptor : List Byte}

theorem parseItems_run (bytes : descriptor = wires items) :
    parseItems descriptor (descriptor.length + 1) 0 .zero = runItems .zero items := by
  have loop := @parseItems_wires [] items (descriptor.length + 1) (by have := wires_length items; rw [bytes]; omega) .zero
  rw [bytes] at loop ⊢
  exact loop

private theorem wires_eq_nil : wires items = [] ↔ items = [] := by
  constructor
  · intro none
    have short := wires_length items
    rw [none,length_nil] at short
    exact length_eq_zero_iff.mp (Nat.le_zero.mp short)
  rintro rfl
  rfl

theorem inputContractParse_some (some : descriptor ≠ []) (before : InputContract) :
    inputContractParse (.some descriptor) (.some before) =
      match parseItems descriptor (descriptor.length + 1) 0 .zero >>= contractOf with
      | .ok contract => .some (.ok,.some contract) | .error (.rejected status) => .some (status,.some .zero)
      | .error .outside => .none :=
  if_neg (fun none => some (length_eq_zero_iff.mp none))

theorem inputContractParse_proper (bytes : descriptor = wires items) (proper : Proper items) (before : InputContract) :
    ∃ contract, inputContractParse (some descriptor) (some before) = some (.ok,some contract) ∧ Describes items contract := by
  have fits := (proper_iff.mp proper).1
  obtain ⟨state,ran,holds⟩ := (runItems_spec items).1 fits
  obtain ⟨contract,computed,describes⟩ := (contractOf_spec holds fits).1 proper
  refine ⟨contract,?_,describes⟩
  rw [inputContractParse_some ?_,parseItems_run bytes,ran]
  · change (match contractOf state with | .ok _ => _ | .error (.rejected _) => _ | .error .outside => _) = _
    rw [computed]
  rw [bytes]
  exact fun none => proper.reported (wires_eq_nil.mp none ▸ rfl)

private theorem inputContractParse_improper (improper : ∀ items, descriptor = wires items → ¬ Proper items)
    (before : InputContract) : ∃ status, status ≠ .ok ∧ inputContractParse (some descriptor) (some before) =
      some (status,some (if descriptor = [] then before else .zero)) := by
  by_cases none : descriptor = []
  · subst none
    exact ⟨.errArgument,by decide,rfl⟩
  rw [inputContractParse_some none,if_neg none]
  obtain ⟨meets,errors⟩ := parseItems_settles (zero_le _) (show descriptor.length - 0 < descriptor.length + 1 by omega) .zero
  cases result : parseItems descriptor (descriptor.length + 1) 0 .zero with
  | ok state =>
    obtain ⟨items,bytes⟩ := meets.ok result
    have ran := (parseItems_run bytes).symm.trans result
    by_cases fits : FitsParser items
    · obtain ⟨state',ran',holds⟩ := (runItems_spec items).1 fits
      obtain rfl := Except.ok.inj (ran.symm.trans ran')
      obtain ⟨status,error,refused⟩ := (contractOf_spec holds fits).2 (improper items bytes)
      refine ⟨status,error,?_⟩
      change (match contractOf state with | .ok _ => _ | .error (.rejected _) => _ | .error .outside => _) = _
      rw [refused]
      rfl
    obtain ⟨status,-,refused⟩ := (runItems_spec items).2 fits
    rw [ran] at refused
    cases refused
  | error fault =>
  cases fault with
  | outside => exact absurd result meets.inside
  | rejected status => exact ⟨status,errors status result,rfl⟩

/-- For every descriptor, the parse ends and reads nothing outside. It succeeds exactly for the bytes of a proper sequence
of short items; then the contract has the lengths of the reports, and exactly the reports of these lengths are accepted.
Behind an error the contract is all zero, but for an empty descriptor, which leaves it as it was. -/
theorem inputContractParse_exact (descriptor : List Byte) (before : InputContract) :
    ∃ status contract, inputContractParse (some descriptor) (some before) = some (status,some contract) ∧
      (status = .ok ↔ ∃ items, descriptor = wires items ∧ Proper items) ∧
      (∀ items, descriptor = wires items → Proper items → Describes items contract ∧
        ∀ report, inputReportValid (some contract) (some report) =
          some (if report ≠ [] ∧ report.length = reportBytes items (reportIdOf items report) then
            some (reportIdOf items report) else none)) ∧
      (status ≠ .ok → contract = if descriptor = [] then before else .zero) := by
  by_cases decodes : ∃ items, descriptor = wires items ∧ Proper items
  · obtain ⟨items,bytes,proper⟩ := decodes
    obtain ⟨contract,parsed,-⟩ := inputContractParse_proper bytes proper before
    refine ⟨.ok,contract,parsed,iff_of_true rfl ⟨items,bytes,proper⟩,fun items' bytes' proper' => ?_,fun error => absurd rfl error⟩
    obtain ⟨contract',parsed',describes⟩ := inputContractParse_proper bytes' proper' before
    rw [parsed] at parsed'
    cases parsed'
    exact ⟨describes,describes.accepts⟩
  obtain ⟨status,error,refused⟩ :=
    inputContractParse_improper (fun items bytes proper => decodes ⟨items,bytes,proper⟩) before
  exact ⟨status,_,refused,iff_of_false error decodes,fun items bytes proper => absurd ⟨items,bytes,proper⟩ decodes,fun _ => rfl⟩

example : ((inputContractParse (some [0x75,4,0x95,3,0x81,2]) (some .zero)).map (fun answer => answer.2.map (·.bytesById 0))) =
    some (some 2) := by decide

/-- An empty descriptor is refused, and the contract of an earlier one stays. -/
theorem empty_keeps_contract : ¬ ∀ (descriptor : List Byte) (before contract : InputContract) (status : Status),
    inputContractParse (some descriptor) (some before) = some (status,some contract) → status ≠ .ok → contract = .zero :=
  fun all => absurd (congrArg InputContract.valid (all [] ⟨true,false,fun _ => 8⟩ ⟨true,false,fun _ => 8⟩ .errArgument rfl (by decide)))
    (by decide)

end WindowsOnM1.Hid
