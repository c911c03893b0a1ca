import WindowsOnM1.GpuvaModel

/-!
The lists of the graph and the pointers into them. `Slots` says that the slots of the
tables of one kind point to exactly the entries of a list, each under its table and its
index; adding, changing and removing an entry together with its slot keep it.
-/
namespace WindowsOnM1.GpuvaLists
open GpuvaModel List Function

/-- No two nodes have one serial number. -/
def Ids (nodes : List GpuvaNode) : Prop := (nodes.map (fun item => item.id)).Nodup

variable {nodes : List GpuvaNode}

theorem Ids.eq (ids : Ids nodes) {a b : GpuvaNode} (here : a ∈ nodes) (there : b ∈ nodes)
    (same : a.id = b.id) : a = b := inj_on_of_nodup_map ids here there same

variable {new : GpuvaNode}

theorem Ids.push (ids : Ids nodes) (fresh : ∀ item ∈ nodes, item.id < new.id) : Ids (new :: nodes) := by
  refine nodup_cons.mpr ⟨fun mem => ?_,ids⟩
  obtain ⟨item,here,same⟩ := mem_map.mp mem
  exact absurd same (Nat.ne_of_lt (fresh item here))
theorem Ids.without (ids : Ids nodes) (id : Nat) : Ids (without nodes id) :=
  List.Nodup.sublist (List.Sublist.map _ (filter_sublist ..)) ids

variable {id : Nat} {item : GpuvaNode}

theorem nodeAt_some (found : nodeAt nodes id = some item) : item ∈ nodes ∧ item.id = id := by
  have here := find?_some found
  rw [beq_iff_eq] at here
  exact ⟨mem_of_find?_eq_some found,here⟩

theorem nodeAt_mem (ids : Ids nodes) (mem : item ∈ nodes) : nodeAt nodes item.id = some item := by
  cases found : nodeAt nodes item.id with
  | none =>
    have absent := find?_eq_none.mp found item mem
    simp at absent
  | some other =>
  obtain ⟨here,same⟩ := nodeAt_some found
  rw [ids.eq here mem same]

theorem nodeAt_none (missing : nodeAt nodes id = none) : ∀ item ∈ nodes, item.id ≠ id := by
  intro item mem same
  have absent := find?_eq_none.mp missing item mem
  simp [same] at absent

@[simp] theorem mem_without : item ∈ without nodes id ↔ item ∈ nodes ∧ item.id ≠ id := by
  simp [without]

variable {change : GpuvaNode → GpuvaNode}

theorem mem_modifyNode :
    item ∈ modifyNode nodes id change ↔ ∃ old ∈ nodes, (if old.id = id then change old else old) = item := by
  simp [modifyNode]

variable {β : Type*}

theorem map_modifyNode (nodes : List GpuvaNode) (id : Nat) (change : GpuvaNode → GpuvaNode) (f : GpuvaNode → β)
    (keeps : ∀ item ∈ nodes, item.id = id → f (change item) = f item) :
    (modifyNode nodes id change).map f = nodes.map f := by
  rw [modifyNode,map_map]
  refine map_congr_left (fun item mem => ?_)
  simp only [comp_apply]
  split_ifs with here
  · exact keeps item mem here
  rfl

theorem Ids.modify (ids : Ids nodes) (id : Nat)
    (keeps : ∀ item, (change item).id = item.id) : Ids (modifyNode nodes id change) := by
  rw [Ids,map_modifyNode _ _ _ _ (fun item _ _ => keeps item)]
  exact ids
theorem mem_modifyNode_self (mem : item ∈ nodes) : change item ∈ modifyNode nodes item.id change :=
  mem_modifyNode.mpr ⟨item,mem,if_pos rfl⟩
theorem mem_modifyNode_other (mem : item ∈ nodes) (other : item.id ≠ id) : item ∈ modifyNode nodes id change :=
  mem_modifyNode.mpr ⟨item,mem,if_neg other⟩

theorem length_without (ids : Ids nodes) (mem : item ∈ nodes) : (without nodes item.id).length + 1 = nodes.length := by
  induction nodes with
  | nil => exact absurd mem not_mem_nil
  | cons first rest ih =>
  obtain ⟨apart,ids⟩ := nodup_cons.mp ids
  rcases mem_cons.mp mem with rfl | later
  · have kept : without (item :: rest) item.id = rest := by
      rw [without,filter_cons_of_neg (by simp),filter_eq_self]
      intro other here
      rw [bne_iff_ne]
      exact fun same => apart (mem_map.mpr ⟨other,here,same⟩)
    rw [kept]
    rfl
  have away : first.id ≠ item.id := fun same => apart (mem_map.mpr ⟨item,later,same.symm⟩)
  rw [without,filter_cons_of_pos (by simpa using away),length_cons,length_cons]
  have rest := ih ids later
  rw [without] at rest
  omega

/-- No two entries have one table and one index. -/
def Keys (entries : List GpuvaNode) : Prop := (entries.map (fun entry => (entry.ipa,entry.index))).Nodup

variable {entries : List GpuvaNode}

section
variable (keys : Keys entries)
include keys

theorem Keys.eq {a b : GpuvaNode} (here : a ∈ entries)
    (there : b ∈ entries) (ipa : a.ipa = b.ipa) (index : a.index = b.index) : a = b :=
  inj_on_of_nodup_map keys here there (by simp only [ipa,index])

theorem Keys.push
    (free : ∀ entry ∈ entries, ¬ (entry.ipa = new.ipa ∧ entry.index = new.index)) : Keys (new :: entries) := by
  refine nodup_cons.mpr ⟨fun mem => ?_,keys⟩
  obtain ⟨entry,here,same⟩ := mem_map.mp mem
  exact free entry here ⟨congrArg Prod.fst same,congrArg Prod.snd same⟩

theorem Keys.without (id : Nat) : Keys (without entries id) :=
  List.Nodup.sublist (List.Sublist.map _ (filter_sublist ..)) keys
theorem Keys.modify (id : Nat) (keeps : ∀ entry, (change entry).ipa = entry.ipa ∧ (change entry).index = entry.index) :
    Keys (modifyNode entries id change) := by
  rw [Keys,map_modifyNode _ _ _ _ (fun entry _ _ => by rw [(keeps entry).1,(keeps entry).2])]
  exact keys

end

variable {ipa : U64} {index : Nat} {edge : GpuvaNode}

theorem findEdge_some
    (found : findEdge entries ipa index = some edge) : edge ∈ entries ∧ edge.ipa = ipa ∧ edge.index = index := by
  have here := find?_some found
  simp only [Bool.and_eq_true,beq_iff_eq] at here
  exact ⟨mem_of_find?_eq_some found,here⟩

theorem findEdge_none (missing : findEdge entries ipa index = none) :
    ∀ entry ∈ entries, ¬ (entry.ipa = ipa ∧ entry.index = index) := by
  intro entry mem same
  have absent := find?_eq_none.mp missing entry mem
  simp [same] at absent

theorem findEdge_mem (keys : Keys entries) (mem : edge ∈ entries) :
    findEdge entries edge.ipa edge.index = some edge := by
  cases found : findEdge entries edge.ipa edge.index with
  | none => exact absurd ⟨rfl,rfl⟩ (findEdge_none found edge mem)
  | some other =>
  obtain ⟨here,ipa,index⟩ := findEdge_some found
  rw [keys.eq here mem ipa index]

/-- The slots of the tables of one kind point to exactly the entries of the list. -/
def Slots (leaf : Prop) (tables entries : List GpuvaNode) : Prop :=
  ∀ table ∈ tables, (table.level = 2 ↔ leaf) → ∀ index id, table.slots index = some id ↔
    ∃ entry ∈ entries, entry.ipa = table.ipa ∧ entry.index = index ∧ entry.id = id

/-- The addresses of the tables are different. -/
def Addresses (tables : List GpuvaNode) : Prop := (tables.map (fun table => table.ipa)).Nodup

variable {tables : List GpuvaNode}

theorem Addresses.eq (addresses : Addresses tables) {a b : GpuvaNode} (here : a ∈ tables)
    (there : b ∈ tables) (same : a.ipa = b.ipa) : a = b := inj_on_of_nodup_map addresses here there same
theorem Addresses.without (addresses : Addresses tables) (id : Nat) : Addresses (without tables id) :=
  List.Nodup.sublist (List.Sublist.map _ (filter_sublist ..)) addresses

theorem Addresses.push (addresses : Addresses tables)
    (free : ∀ table ∈ tables, table.ipa ≠ new.ipa) : Addresses (new :: tables) := by
  refine nodup_cons.mpr ⟨fun mem => ?_,addresses⟩
  obtain ⟨table,here,same⟩ := mem_map.mp mem
  exact free table here same

variable {table : GpuvaNode}

theorem mem_setSlot {target : Option Nat} : table ∈ setSlot tables id index target ↔ ∃ old ∈ tables,
      (if old.id = id then { old with slots := Function.update old.slots index target } else old) = table :=
  mem_modifyNode

variable {leaf : Prop} {tables entries : List GpuvaNode}

section
variable (slots : Slots leaf tables entries)
include slots

theorem Slots.slot (mem : table ∈ tables) (kind : table.level = 2 ↔ leaf) (index : Nat) :
    table.slots index = (findEdge entries table.ipa index).map (fun entry => entry.id) := by
  cases found : findEdge entries table.ipa index with
  | some entry =>
    obtain ⟨there,ipa,atIndex⟩ := findEdge_some found
    exact (slots table mem kind index entry.id).mpr ⟨entry,there,ipa,atIndex,rfl⟩
  | none =>
  cases pointer : table.slots index with
  | none => rfl
  | some id =>
  obtain ⟨entry,there,ipa,atIndex,_⟩ := (slots table mem kind index id).mp pointer
  exact absurd ⟨ipa,atIndex⟩ (findEdge_none found entry there)

theorem Slots.find (ids : Ids entries) (mem : table ∈ tables) (kind : table.level = 2 ↔ leaf) (index : Nat) :
    (table.slots index).bind (nodeAt entries) = findEdge entries table.ipa index := by
  rw [slots.slot mem kind index]
  cases found : findEdge entries table.ipa index with
  | some entry => exact nodeAt_mem ids (findEdge_some found).1
  | none => rfl

theorem Slots.push (addresses : Addresses tables) (ids : Ids tables)
    (entry : GpuvaNode) (mem : table ∈ tables) (ipa : entry.ipa = table.ipa)
    (free : ∀ other ∈ entries, ¬ (other.ipa = table.ipa ∧ other.index = entry.index)) :
    Slots leaf (setSlot tables table.id entry.index (some entry.id)) (entry :: entries) := by
  intro changed here kind index id
  obtain ⟨old,there,rfl⟩ := mem_setSlot.mp here
  by_cases same : old.id = table.id
  · have isTable := ids.eq there mem same
    subst isTable
    simp only [if_true] at kind ⊢
    by_cases atIndex : index = entry.index
    · subst atIndex
      rw [update_self]
      constructor
      · rintro ⟨⟩
        exact ⟨entry,mem_cons_self,ipa,rfl,rfl⟩
      rintro ⟨other,found,sameIpa,sameIndex,rfl⟩
      rcases mem_cons.mp found with rfl | later
      · rfl
      exact absurd ⟨sameIpa,sameIndex⟩ (free other later)
    rw [update_of_ne atIndex,slots old there kind index id]
    constructor
    · rintro ⟨other,found,rest⟩
      exact ⟨other,mem_cons_of_mem _ found,rest⟩
    rintro ⟨other,found,sameIpa,sameIndex,rfl⟩
    rcases mem_cons.mp found with rfl | later
    · exact absurd sameIndex.symm atIndex
    exact ⟨other,later,sameIpa,sameIndex,rfl⟩
  simp only [same,if_false] at kind ⊢
  rw [slots old there kind index id]
  constructor
  · rintro ⟨other,found,rest⟩
    exact ⟨other,mem_cons_of_mem _ found,rest⟩
  rintro ⟨other,found,sameIpa,sameIndex,rfl⟩
  rcases mem_cons.mp found with rfl | later
  · exact absurd (congrArg GpuvaNode.id (addresses.eq there mem (sameIpa.symm.trans ipa))) same
  exact ⟨other,later,sameIpa,sameIndex,rfl⟩

theorem Slots.pop (addresses : Addresses tables) (ids : Ids tables)
    (entryIds : Ids entries) (keys : Keys entries) {entry : GpuvaNode} (mem : table ∈ tables)
    (there : entry ∈ entries) (ipa : entry.ipa = table.ipa) :
    Slots leaf (setSlot tables table.id entry.index none) (without entries entry.id) := by
  intro changed here kind index id
  obtain ⟨old,found,rfl⟩ := mem_setSlot.mp here
  have others : ∀ P : GpuvaNode → Prop, ¬ P entry →
      ((∃ other ∈ without entries entry.id, P other) ↔ ∃ other ∈ entries, P other) := by
    intro P absent
    constructor
    · rintro ⟨other,inside,holds⟩
      exact ⟨other,(mem_without.mp inside).1,holds⟩
    rintro ⟨other,inside,holds⟩
    refine ⟨other,mem_without.mpr ⟨inside,fun same => absent ?_⟩,holds⟩
    rw [← entryIds.eq inside there same]
    exact holds
  by_cases same : old.id = table.id
  · have isTable := ids.eq found mem same
    subst isTable
    simp only [if_true] at kind ⊢
    by_cases atIndex : index = entry.index
    · subst atIndex
      rw [update_self]
      constructor
      · rintro ⟨⟩
      rintro ⟨other,inside,sameIpa,sameIndex,_⟩
      obtain ⟨inside,apart⟩ := mem_without.mp inside
      exact absurd (congrArg GpuvaNode.id (keys.eq inside there (sameIpa.trans ipa.symm) sameIndex)) apart
    rw [update_of_ne atIndex,slots old found kind index id,others]
    rintro ⟨_,sameIndex,_⟩
    exact atIndex sameIndex.symm
  simp only [same,if_false] at kind ⊢
  rw [slots old found kind index id,others]
  rintro ⟨sameIpa,_⟩
  exact same (congrArg GpuvaNode.id (addresses.eq found mem (sameIpa.symm.trans ipa)))

theorem Slots.other (ids : Ids tables) (mem : table ∈ tables)
    (kind : ¬ (table.level = 2 ↔ leaf)) (index : Nat) (target : Option Nat) :
    Slots leaf (setSlot tables table.id index target) entries := by
  intro changed here isKind
  obtain ⟨old,found,rfl⟩ := mem_setSlot.mp here
  by_cases same : old.id = table.id
  · rw [ids.eq found mem same] at isKind
    simp only [if_true] at isKind
    exact absurd isKind kind
  simp only [same,if_false] at isKind ⊢
  exact slots old found isKind

theorem Slots.modify (id : Nat)
    (keeps : ∀ entry, (change entry).id = entry.id ∧ (change entry).ipa = entry.ipa ∧ (change entry).index = entry.index) :
    Slots leaf tables (modifyNode entries id change) := by
  intro table mem kind index target
  rw [slots table mem kind index target]
  have place : ∀ entry : GpuvaNode, (if entry.id = id then change entry else entry).ipa = entry.ipa ∧
      (if entry.id = id then change entry else entry).index = entry.index ∧
      (if entry.id = id then change entry else entry).id = entry.id := by
    intro entry
    split_ifs
    · exact ⟨(keeps entry).2.1,(keeps entry).2.2,(keeps entry).1⟩
    exact ⟨rfl,rfl,rfl⟩
  constructor
  · rintro ⟨entry,here,ipa,index,isId⟩
    obtain ⟨sameIpa,sameIndex,sameId⟩ := place entry
    exact ⟨_,mem_modifyNode.mpr ⟨entry,here,rfl⟩,sameIpa.trans ipa,sameIndex.trans index,sameId.trans isId⟩
  rintro ⟨_,here,ipa,index,isId⟩
  obtain ⟨entry,old,rfl⟩ := mem_modifyNode.mp here
  obtain ⟨sameIpa,sameIndex,sameId⟩ := place entry
  exact ⟨entry,old,sameIpa.symm.trans ipa,sameIndex.symm.trans index,sameId.symm.trans isId⟩

theorem Slots.addTable (empty : ∀ index, table.slots index = none)
    (free : ∀ entry ∈ entries, entry.ipa ≠ table.ipa) : Slots leaf (table :: tables) entries := by
  intro other mem kind index id
  rcases mem_cons.mp mem with rfl | old
  · rw [empty]
    constructor
    · rintro ⟨⟩
    rintro ⟨entry,here,ipa,_⟩
    exact absurd ipa (free entry here)
  exact slots other old kind index id

theorem Slots.removeTable (id : Nat) : Slots leaf (without tables id) entries :=
  fun table mem => slots table (mem_without.mp mem).1

end

theorem map_setSlot (tables : List GpuvaNode) (id index : Nat) (target : Option Nat) (f : GpuvaNode → β)
    (keeps : ∀ (table : GpuvaNode) (slots : Nat → Option Nat), f { table with slots := slots } = f table) :
    (setSlot tables id index target).map f = tables.map f :=
  map_modifyNode _ _ _ _ (fun table _ _ => keeps table _)

end WindowsOnM1.GpuvaLists
