import WindowsOnM1.UatPrune

/-!
The records of an inventory against its tables. `Agrees` says that every leaf of a root
is the descriptor that a record of this root assigns to its page, and that the records
of a context do not overlap; it is kept by writing, clearing and rewriting the leaves of
one record together with the record.
-/
namespace WindowsOnM1.UatRecords
open UatModel UatEncoding UatTree UatMap UatPrune

/-- An address space: its context and the roots that it was created with. -/
abbrev Space := Nat × UatRoots

/-- The root of a half of an address space. -/
def Owns (spaces : List Space) (context : Nat) (half : UatHalf) (root : U64) : Prop :=
  ∃ space ∈ spaces, space.1 = context ∧ space.2.half half = root

/-- How a record assigns physical pages: one after the other, one for all, or a list that begins with the recorded page. -/
def Assigns (mapping : UatMapping) : Prop :=
  (mapping.physicalStride = pageSize ∧ ∀ turn, mapping.assigned turn = pageAddress mapping.physicalAddress turn) ∨
  (mapping.physicalStride = 0 ∧ ∀ turn, mapping.assigned turn = mapping.physicalAddress) ∨
  (mapping.physicalStride = ~~~0 ∧ mapping.assigned 0 = mapping.physicalAddress)

/-- A record whose pages lie in a half of an address space and have descriptors. -/
structure Recorded (spaces : List Space) (mapping : UatMapping) (half : UatHalf) : Prop where
  owned : Owns spaces mapping.context half mapping.root
  valid : ValidRange half mapping.virtualAddress mapping.physicalAddress mapping.length
  encoded : ∀ turn < pageTurns mapping.length, mapping.assigned turn ≠ 0 ∧
    ∃ descriptor, encodePageDescriptor mapping.context (mapping.assigned turn) mapping.protection = .ok descriptor
  assigns : Assigns mapping

/-- The record covers the page number. -/
def Covers (mapping : UatMapping) (page : Nat) : Prop :=
  key mapping.virtualAddress ≤ page ∧ page < key mapping.virtualAddress + pageTurns mapping.length
instance (mapping : UatMapping) (page : Nat) : Decidable (Covers mapping page) :=
  inferInstanceAs (Decidable (_ ∧ _))

/-- The pages of two records of one context are different. -/
def Apart (first second : UatMapping) : Prop :=
  first.context = second.context → first.virtualAddress.toNat + first.length.toNat ≤ second.virtualAddress.toNat ∨
      second.virtualAddress.toNat + second.length.toNat ≤ first.virtualAddress.toNat

/-- The descriptor of a page of a record. -/
def descriptorOf (mapping : UatMapping) (turn : Nat) : U64 :=
  descriptorAt mapping.context mapping.protection mapping.assigned turn

structure Agrees (spaces : List Space) (pages : List UatPage) (mappings : List UatMapping) : Prop where
  tree : Tree pages
  roots : ∀ address, IsRoot pages address ↔ ∃ context half, Owns spaces context half address
  owner : ∀ {context context' half half' root}, Owns spaces context half root → Owns spaces context' half' root →
    context = context' ∧ half = half'
  records : ∀ mapping ∈ mappings, ∃ half, Recorded spaces mapping half
  apart : mappings.Pairwise Apart
  leaves : ∀ mapping ∈ mappings, ∀ va, Covers mapping (key va) →
    leafValue pages mapping.root va = descriptorOf mapping (key va - key mapping.virtualAddress)
  covered : ∀ root va, leafValue pages root va ≠ 0 → ∃ mapping ∈ mappings, mapping.root = root ∧ Covers mapping (key va)

theorem Apart.symm {first second : UatMapping} (apart : Apart first second) : Apart second first :=
  fun same => (apart same.symm).symm

theorem eq_of_not_apart {mappings : List UatMapping} (pairwise : mappings.Pairwise Apart) {i j : Nat}
    {first second : UatMapping} (here : mappings[i]? = some first) (there : mappings[j]? = some second)
    (meets : ¬ Apart first second) : i = j := by
  obtain ⟨insideI,rfl⟩ := List.getElem?_eq_some_iff.mp here
  obtain ⟨insideJ,rfl⟩ := List.getElem?_eq_some_iff.mp there
  rcases Nat.lt_trichotomy i j with before | same | after
  · exact absurd (List.pairwise_iff_getElem.mp pairwise i j insideI insideJ before) meets
  · exact same
  exact absurd (List.pairwise_iff_getElem.mp pairwise j i insideJ insideI after).symm meets

/-- What decides which records are apart. -/
def placeOf (mapping : UatMapping) : Nat × U64 × U64 := (mapping.context,mapping.virtualAddress,mapping.length)

theorem apart_of_places {old new : List UatMapping} (same : new.map placeOf = old.map placeOf)
    (apart : old.Pairwise Apart) : new.Pairwise Apart := by
  have places : ∀ list : List UatMapping, list.Pairwise Apart ↔ (list.map placeOf).Pairwise (fun first second =>
      first.1 = second.1 → first.2.1.toNat + first.2.2.toNat ≤ second.2.1.toNat ∨
        second.2.1.toNat + second.2.2.toNat ≤ first.2.1.toNat) := by
    intro list
    rw [List.pairwise_map]
    rfl
  rw [places,same,← places]
  exact apart

theorem Apart.covers {half : UatHalf} {first second : UatMapping} (apart : Apart first second)
    (same : first.context = second.context)
    (valid : ValidRange half first.virtualAddress first.physicalAddress first.length)
    (valid' : ValidRange half second.virtualAddress second.physicalAddress second.length) {page : Nat}
    (covers : Covers first page) : ¬ Covers second page := by
  intro covers'
  have base := address_of_key valid.start valid.virtualAligned
  have base' := address_of_key valid'.start valid'.virtualAligned
  have turns := valid.turns
  have turns' := valid'.turns
  obtain ⟨after,before⟩ := covers
  obtain ⟨after',before'⟩ := covers'
  rcases apart same with early | late <;> omega

theorem apart_of_overlaps {half half' : UatHalf} {mapping new : UatMapping}
    (valid : ValidRange half mapping.virtualAddress mapping.physicalAddress mapping.length)
    (valid' : ValidRange half' new.virtualAddress new.physicalAddress new.length)
    (free : overlaps new.context new.virtualAddress new.length mapping = false) : Apart mapping new := by
  intro same
  simp only [overlaps,same,beq_self_eq_true,Bool.true_and,Bool.and_eq_false_iff,decide_eq_false_iff_not,
    BitVec.le_def,valid.last,valid'.last] at free
  omega

namespace Agrees

variable {spaces : List Space} {pages pages' : List UatPage} {mappings : List UatMapping}
  (agrees : Agrees spaces pages mappings)
include agrees

theorem translation (same : SameTranslation pages pages') : Agrees spaces pages' mappings where
  tree := same.tree
  roots := fun address => (same.roots address).trans (agrees.roots address)
  owner := agrees.owner
  records := agrees.records
  apart := agrees.apart
  leaves := fun mapping mem va covers => by rw [same.leaf]; exact agrees.leaves mapping mem va covers
  covered := fun root va there => agrees.covered root va (by rw [← same.leaf]; exact there)

theorem record_of_root {mapping : UatMapping} (mem : mapping ∈ mappings) {context : Nat} {half : UatHalf}
    (owns : Owns spaces context half mapping.root) : mapping.context = context ∧ Recorded spaces mapping half := by
  obtain ⟨half',recorded⟩ := agrees.records mapping mem
  obtain ⟨sameContext,sameHalf⟩ := agrees.owner recorded.owned owns
  exact ⟨sameContext,sameHalf ▸ recorded⟩

theorem leaf_ne_zero {mapping : UatMapping} (mem : mapping ∈ mappings) {va : U64} (covers : Covers mapping (key va)) :
    leafValue pages mapping.root va ≠ 0 := by
  obtain ⟨half,recorded⟩ := agrees.records mapping mem
  have inside : key va - key mapping.virtualAddress < pageTurns mapping.length := by
    have := covers.1
    have := covers.2
    omega
  obtain ⟨_,descriptor,encoded⟩ := recorded.encoded _ inside
  rw [agrees.leaves mapping mem va covers,descriptorOf,descriptorAt_ok encoded]
  exact ne_zero_of_descriptor (encodePageDescriptor_spec encoded).2

theorem unique {i j : Nat} {first second : UatMapping} (here : mappings[i]? = some first)
    (there : mappings[j]? = some second) (root : first.root = second.root) {page : Nat} (covers : Covers first page)
    (covers' : Covers second page) : i = j := by
  obtain ⟨half,recorded⟩ := agrees.records first (List.mem_of_getElem? here)
  obtain ⟨context,recorded'⟩ := agrees.record_of_root (List.mem_of_getElem? there) (root ▸ recorded.owned)
  refine eq_of_not_apart agrees.apart here there (fun apart => ?_)
  exact apart.covers context.symm recorded.valid recorded'.valid covers covers'

end Agrees

variable {spaces : List Space} {mappings : List UatMapping} {mapping : UatMapping}

theorem Agrees.insert {start pages : List UatPage}
    (agrees : Agrees spaces start mappings) (half : UatHalf) (recorded : Recorded spaces mapping half)
    (free : ∀ old ∈ mappings, overlaps mapping.context mapping.virtualAddress mapping.length old = false)
    (filled : Filled start mapping.root mapping.virtualAddress (descriptorOf mapping) (pageTurns mapping.length) pages) :
    Agrees spaces pages (mappings ++ [mapping]) := by
  have apart : ∀ old ∈ mappings, Apart old mapping := by
    intro old mem
    obtain ⟨half',recorded'⟩ := agrees.records old mem
    exact apart_of_overlaps recorded'.valid recorded.valid (free old mem)
  refine ⟨filled.tree,fun address => ?_,agrees.owner,fun m mem => ?_,?_,fun m mem va covers => ?_,fun root va there => ?_⟩
  · rw [← agrees.roots]
    constructor
    · rintro ⟨page,mem,isAddress,isRoot⟩
      rw [← List.take_append_drop start.length pages] at mem
      rcases List.mem_append.mp mem with old | added
      · obtain ⟨page',found,same,level⟩ := filled.shape.symm.exists old
        exact ⟨page',found,same.trans isAddress,level.trans isRoot⟩
      exact absurd isRoot (filled.tables page added)
    rintro ⟨page,mem,isAddress,isRoot⟩
    obtain ⟨page',found,same,level⟩ := filled.shape.exists_take mem
    exact ⟨page',found,same.trans isAddress,level.trans isRoot⟩
  · rcases List.mem_append.mp mem with old | new
    · exact agrees.records m old
    rw [List.mem_singleton.mp new]
    exact ⟨half,recorded⟩
  · refine List.pairwise_append.mpr ⟨agrees.apart,List.pairwise_singleton _ _,fun old mem new isNew => ?_⟩
    rw [List.mem_singleton.mp isNew]
    exact apart old mem
  · rw [filled.leaf]
    rcases List.mem_append.mp mem with old | new
    · rw [if_neg,agrees.leaves m old va covers]
      rintro ⟨root,inside⟩
      obtain ⟨context,recorded'⟩ := agrees.record_of_root old (root ▸ recorded.owned)
      exact (apart m old).covers context recorded'.valid recorded.valid covers inside
    rw [List.mem_singleton.mp new] at covers ⊢
    rw [if_pos ⟨rfl,covers⟩]
  rw [filled.leaf] at there
  split_ifs at there with inside
  · exact ⟨mapping,by simp,inside.1.symm,inside.2⟩
  obtain ⟨m,mem,root,covers⟩ := agrees.covered root va there
  exact ⟨m,List.mem_append_left _ mem,root,covers⟩

theorem leaf_of_written {value : Nat → U64} {pages pages' : List UatPage}
    (written : Written mapping.root mapping.virtualAddress value 0 (pageTurns mapping.length) pages pages') (root va : U64) :
    leafValue pages' root va = if root = mapping.root ∧ Covers mapping (key va)
      then value (key va - key mapping.virtualAddress) else leafValue pages root va := by
  rw [written.leaf,Nat.add_zero]
  rfl

theorem isRoot_of_shape {pages pages' : List UatPage} (shape : SameShape pages pages') (address : U64) :
    IsRoot pages' address ↔ IsRoot pages address := by
  constructor
  · rintro ⟨page,mem,isAddress,isRoot⟩
    obtain ⟨page',found,same,level⟩ := shape.symm.exists mem
    exact ⟨page',found,same.trans isAddress,level.trans isRoot⟩
  rintro ⟨page,mem,isAddress,isRoot⟩
  obtain ⟨page',found,same,level⟩ := shape.exists mem
  exact ⟨page',found,same.trans isAddress,level.trans isRoot⟩

variable {i : Nat}

theorem Agrees.remove {pages pages' : List UatPage}
    (agrees : Agrees spaces pages mappings) (here : mappings[i]? = some mapping)
    (written : Written mapping.root mapping.virtualAddress (fun _ => 0) 0 (pageTurns mapping.length) pages pages') :
    Agrees spaces pages' (mappings.eraseIdx i) := by
  have leaf := leaf_of_written written
  refine ⟨written.tree,fun address => (isRoot_of_shape written.shape address).trans (agrees.roots address),agrees.owner,
    fun m mem => agrees.records m (List.mem_of_mem_eraseIdx mem),
    agrees.apart.sublist (List.eraseIdx_sublist ..),fun m mem va covers => ?_,fun root va there => ?_⟩
  · obtain ⟨j,apart,there⟩ := List.mem_eraseIdx_iff_getElem?.mp mem
    rw [leaf,if_neg,agrees.leaves m (List.mem_of_getElem? there) va covers]
    rintro ⟨root,inside⟩
    exact apart (agrees.unique there here root covers inside)
  rw [leaf] at there
  split_ifs at there with inside
  · exact absurd rfl there
  obtain ⟨m,mem,root,covers⟩ := agrees.covered root va there
  obtain ⟨j,place⟩ := List.getElem?_of_mem mem
  refine ⟨m,List.mem_eraseIdx_iff_getElem?.mpr ⟨j,?_,place⟩,root,covers⟩
  rintro rfl
  rw [here] at place
  cases place
  exact inside ⟨root.symm,covers⟩

/-- A record is replaced by one of the same range with its leaves. -/
theorem Agrees.replace {pages pages' : List UatPage} (agrees : Agrees spaces pages mappings) {new : UatMapping}
    (here : mappings[i]? = some mapping) (half : UatHalf) (recorded : Recorded spaces new half)
    (context : new.context = mapping.context) (root : new.root = mapping.root)
    (start : new.virtualAddress = mapping.virtualAddress) (length : new.length = mapping.length)
    (written : Written mapping.root mapping.virtualAddress (descriptorOf new) 0 (pageTurns mapping.length) pages pages') :
    Agrees spaces pages' (mappings.set i new) := by
  have leaf := leaf_of_written written
  have place : ∀ {m : UatMapping}, m ∈ mappings.set i new → m = new ∨ ∃ j, j ≠ i ∧ mappings[j]? = some m := by
    intro m mem
    obtain ⟨j,there⟩ := List.getElem?_of_mem mem
    rw [List.getElem?_set] at there
    split_ifs at there with atNew inside
    · exact .inl (Option.some.inj there).symm
    exact .inr ⟨j,Ne.symm atNew,there⟩
  have covers_iff : ∀ page, Covers new page ↔ Covers mapping page := by
    intro page
    rw [Covers,Covers,start,length]
  have inside : i < mappings.length := (List.getElem?_eq_some_iff.mp here).1
  refine ⟨written.tree,fun address => (isRoot_of_shape written.shape address).trans (agrees.roots address),agrees.owner,
    fun m mem => ?_,?_,fun m mem va covers => ?_,fun root' va there => ?_⟩
  · rcases place mem with rfl | ⟨j,_,there⟩
    · exact ⟨half,recorded⟩
    exact agrees.records m (List.mem_of_getElem? there)
  · refine apart_of_places ?_ agrees.apart
    obtain ⟨_,rfl⟩ := List.getElem?_eq_some_iff.mp here
    rw [List.map_set,placeOf,context,start,length]
    exact (List.map_set ..).symm.trans (congrArg _ (List.set_getElem_self inside))
  · rcases place mem with rfl | ⟨j,away,there⟩
    · rw [leaf,if_pos ⟨root,(covers_iff _).mp covers⟩,start]
    rw [leaf,if_neg,agrees.leaves m (List.mem_of_getElem? there) va covers]
    rintro ⟨sameRoot,covers'⟩
    exact away (agrees.unique there here sameRoot covers covers')
  rw [leaf] at there
  split_ifs at there with atNew
  · exact ⟨new,List.mem_of_getElem? (i := i) (List.getElem?_set_self inside),root.trans atNew.1.symm,
      (covers_iff _).mpr atNew.2⟩
  obtain ⟨m,mem,sameRoot,covers⟩ := agrees.covered root' va there
  obtain ⟨j,found⟩ := List.getElem?_of_mem mem
  have away : i ≠ j := by
    rintro rfl
    rw [here] at found
    cases found
    exact atNew ⟨sameRoot.symm,covers⟩
  exact ⟨m,List.mem_of_getElem? (i := j) (by rw [List.getElem?_set_ne away]; exact found),sameRoot,covers⟩

end WindowsOnM1.UatRecords
