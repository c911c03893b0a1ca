import WindowsOnM1.UatEncoding

/-!
The inventory as one radix tree for each root. Pages are looked up by address, and a
missing page reads as zeros, so that adding or removing a page of zeros changes no
entry. `Tree` says that every table entry points to a page of the next level and that
no page has two parents; from this, writing a leaf changes one page of one root.
-/
namespace WindowsOnM1.UatTree
open UatModel UatEncoding

attribute [ext] UatPage

/-- The page with an address and a level. -/
def pageAt (pages : List UatPage) (address : U64) (level : Nat) : Option UatPage :=
  pages.find? (fun page => page.physicalAddress == address && page.level == level)

/-- The entry of the page with an address and a level, or 0. -/
def entryAt (pages : List UatPage) (address : U64) (level index : Nat) : U64 :=
  (pageAt pages address level).elim 0 (fun page => page.entries index)

/-- The address of the leaf table that translates an address under a root, or 0. -/
def leafTable (pages : List UatPage) (root va : U64) : U64 :=
  entryAt pages (entryAt pages root 0 (level0Index va) &&& addressMask) 1 (level1Index va) &&& addressMask

/-- The leaf of an address under a root, or 0. -/
def leafValue (pages : List UatPage) (root va : U64) : U64 :=
  entryAt pages (leafTable pages root va) 2 (level2Index va)
def Distinct (pages : List UatPage) : Prop := (pages.map (fun page => page.physicalAddress)).Nodup

structure Tree (pages : List UatPage) : Prop where
  distinct : Distinct pages
  real : ∀ page ∈ pages, page.physicalAddress ≠ 0 ∧ page.physicalAddress &&& addressMask = page.physicalAddress
  levels : ∀ page ∈ pages, page.level ≤ 2
  child : ∀ address level index, level < 2 → index < entryCount level → entryAt pages address level index ≠ 0 →
    ∃ page ∈ pages, page.level = level + 1 ∧ entryAt pages address level index = page.physicalAddress ||| 3
  parent : ∀ address address' level index index', level < 2 → index < entryCount level →
    index' < entryCount level → entryAt pages address level index ≠ 0 →
    entryAt pages address level index = entryAt pages address' level index' → address = address' ∧ index = index'

variable {pages : List UatPage} {page : UatPage}

theorem Distinct.eq_of_address (distinct : Distinct pages) {page' : UatPage}
    (mem : page ∈ pages) (mem' : page' ∈ pages) (same : page.physicalAddress = page'.physicalAddress) :
    page = page' := List.inj_on_of_nodup_map distinct mem mem' same

variable {address : U64} {level : Nat}

theorem pageAt_some (found : pageAt pages address level = some page) :
    page ∈ pages ∧ page.physicalAddress = address ∧ page.level = level := by
  have here := List.find?_some found
  simp only [Bool.and_eq_true,beq_iff_eq] at here
  exact ⟨List.mem_of_find?_eq_some found,here⟩

private theorem pageAt_mem (distinct : Distinct pages) (mem : page ∈ pages) :
    pageAt pages page.physicalAddress page.level = some page := by
  cases found : pageAt pages page.physicalAddress page.level with
  | none =>
    have absent := List.find?_eq_none.mp found page mem
    simp at absent
  | some other =>
  obtain ⟨inside,address,_⟩ := pageAt_some found
  rw [distinct.eq_of_address inside mem address]

theorem entryAt_mem (distinct : Distinct pages) (mem : page ∈ pages)
    (index : Nat) : entryAt pages page.physicalAddress page.level index = page.entries index := by
  rw [entryAt,pageAt_mem distinct mem]
  rfl

variable {index : Nat}

theorem exists_of_entryAt (nonzero : entryAt pages address level index ≠ 0) :
    ∃ page ∈ pages, page.physicalAddress = address ∧ page.level = level := by
  cases found : pageAt pages address level with
  | none => simp [entryAt,found] at nonzero
  | some page => exact ⟨page,pageAt_some found⟩

theorem entryAt_absent
    (absent : ∀ page ∈ pages, ¬ (page.physicalAddress = address ∧ page.level = level)) (index : Nat) :
    entryAt pages address level index = 0 := by
  by_contra nonzero
  obtain ⟨page,mem,here⟩ := exists_of_entryAt nonzero
  exact absent page mem here

theorem Tree.entryAt_zero (tree : Tree pages) (level index : Nat) : entryAt pages 0 level index = 0 :=
  entryAt_absent (fun page mem here => (tree.real page mem).1 here.1) index

variable {j : Nat}

theorem findPage_some (found : findPage pages address level = some j) :
    ∃ page, pages[j]? = some page ∧ page.physicalAddress = address ∧ page.level = level := by
  obtain ⟨inside,here,_⟩ := List.findIdx?_eq_some_iff_getElem.mp found
  simp only [Bool.and_eq_true,beq_iff_eq] at here
  exact ⟨pages[j],List.getElem?_eq_getElem inside,here⟩

theorem findPage_none (missing : findPage pages address level = none) :
    ∀ page ∈ pages, ¬ (page.physicalAddress = address ∧ page.level = level) := by
  intro page mem here
  have absent := List.findIdx?_eq_none_iff.mp missing page mem
  simp [here] at absent

theorem findPage_getElem (distinct : Distinct pages)
    (here : pages[j]? = some page) : findPage pages page.physicalAddress page.level = some j := by
  have mem := List.mem_of_getElem? here
  cases found : findPage pages page.physicalAddress page.level with
  | none => exact absurd ⟨rfl,rfl⟩ (findPage_none found page mem)
  | some k =>
  obtain ⟨other,there,address,_⟩ := findPage_some found
  -- the addresses at the two places agree
  have left : (pages.map (fun p => p.physicalAddress))[k]? = some page.physicalAddress := by
    rw [List.getElem?_map,there]; exact congrArg some address
  have right : (pages.map (fun p => p.physicalAddress))[j]? = some page.physicalAddress := by
    rw [List.getElem?_map,here]; rfl
  obtain ⟨insideK,valueK⟩ := List.getElem?_eq_some_iff.mp left
  obtain ⟨insideJ,valueJ⟩ := List.getElem?_eq_some_iff.mp right
  exact congrArg some ((List.Nodup.getElem_inj_iff distinct).mp (valueK.trans valueJ.symm))

theorem readEntry_eq (distinct : Distinct pages) (here : pages[j]? = some page) (index : Nat) :
    readEntry pages j index = entryAt pages page.physicalAddress page.level index := by
  rw [readEntry,here,entryAt_mem distinct (List.mem_of_getElem? here)]

theorem findExistingLeaf_eq (tree : Tree pages) {root : UatPage}
    (here : pages[j]? = some root) (level : root.level = 0) (va : U64) : findExistingLeaf pages j va =
      (findPage pages (leafTable pages root.physicalAddress va) 2).map (fun page => (page,level2Index va)) := by
  unfold findExistingLeaf leafTable
  rw [readEntry_eq tree.distinct here,level]
  cases level1 : findPage pages (entryAt pages root.physicalAddress 0 (level0Index va) &&& addressMask) 1 with
  | none =>
    have missing : entryAt pages (entryAt pages root.physicalAddress 0 (level0Index va) &&& addressMask) 1
        (level1Index va) = 0 := entryAt_absent (findPage_none level1) _
    have none : findPage pages 0 2 = none := by
      cases found : findPage pages 0 2 with
      | none => rfl
      | some k =>
      obtain ⟨page,there,address,_⟩ := findPage_some found
      exact absurd address (tree.real page (List.mem_of_getElem? there)).1
    rw [missing]
    have zero : (0 : U64) &&& addressMask = 0 := by decide
    rw [zero,none]
    rfl
  | some k =>
  obtain ⟨page,there,address,isLevel1⟩ := findPage_some level1
  simp only
  rw [readEntry_eq tree.distinct there,address,isLevel1]
  cases findPage pages (entryAt pages (entryAt pages root.physicalAddress 0 (level0Index va) &&& addressMask) 1
    (level1Index va) &&& addressMask) 2 <;> rfl

theorem findExistingLeaf_value (tree : Tree pages) {root : UatPage}
    (here : pages[j]? = some root) (level : root.level = 0) (va : U64) : (match findExistingLeaf pages j va with
      | none => 0 | some (page,index) => readEntry pages page index) = leafValue pages root.physicalAddress va := by
  rw [findExistingLeaf_eq tree here level]
  cases table : findPage pages (leafTable pages root.physicalAddress va) 2 with
  | none => exact (entryAt_absent (findPage_none table) _).symm
  | some k =>
  obtain ⟨page,there,address,isLeaf⟩ := findPage_some table
  simp only [Option.map_some]
  rw [readEntry_eq tree.distinct there,address,isLeaf,leafValue]

theorem Tree.entry_of_masked (tree : Tree pages) {address' : U64}
    {index' : Nat} (below : level < 2) (inside : index < entryCount level)
    (inside' : index' < entryCount level) (nonzero : entryAt pages address level index &&& addressMask ≠ 0)
    (same : entryAt pages address level index &&& addressMask = entryAt pages address' level index' &&& addressMask) :
    address = address' ∧ index = index' := by
  have here : entryAt pages address level index ≠ 0 := fun zero => nonzero (by rw [zero,masked_zero])
  have there : entryAt pages address' level index' ≠ 0 := fun zero => nonzero (by rw [same,zero,masked_zero])
  obtain ⟨page,mem,_,entry⟩ := tree.child address level index below inside here
  obtain ⟨page',mem',_,entry'⟩ := tree.child address' level index' below inside' there
  rw [entry,entry',table_masked (tree.real page mem).2,table_masked (tree.real page' mem').2] at same
  exact tree.parent address address' level index index' below inside inside' here (by rw [entry,entry',same])

theorem Tree.path_injective (tree : Tree pages) {root root' va va' : U64}
    (nonzero : leafTable pages root va ≠ 0) (same : leafTable pages root va = leafTable pages root' va') :
    root = root' ∧ level0Index va = level0Index va' ∧ level1Index va = level1Index va' := by
  obtain ⟨tables,level1⟩ := tree.entry_of_masked (by decide) (level1Index_lt va) (level1Index_lt va') nonzero same
  have middle : entryAt pages root 0 (level0Index va) &&& addressMask ≠ 0 := by
    intro zero
    apply nonzero
    rw [leafTable,zero,tree.entryAt_zero,masked_zero]
  obtain ⟨roots,level0⟩ := tree.entry_of_masked (by decide) (level0Index_lt va) (level0Index_lt va') middle tables
  exact ⟨roots,level0,level1⟩

/-- Two inventories hold the same pages apart from their entries. -/
def SameShape (pages pages' : List UatPage) : Prop :=
  pages'.map (fun page => (page.physicalAddress,page.level)) = pages.map (fun page => (page.physicalAddress,page.level))

variable {pages' : List UatPage}

section
variable (shape : SameShape pages pages')
include shape

theorem SameShape.addresses :
    pages'.map (fun page => page.physicalAddress) = pages.map (fun page => page.physicalAddress) := by
  have first := congrArg (List.map Prod.fst) shape
  simpa [List.map_map,Function.comp_def] using first
theorem SameShape.distinct (distinct : Distinct pages) : Distinct pages' := by
  rw [Distinct,shape.addresses]
  exact distinct

theorem SameShape.exists
    (mem : page ∈ pages) : ∃ page' ∈ pages', page'.physicalAddress = page.physicalAddress ∧ page'.level = page.level := by
  have inside : (page.physicalAddress,page.level) ∈ pages'.map (fun page => (page.physicalAddress,page.level)) := by
    rw [shape]
    exact List.mem_map_of_mem mem
  obtain ⟨page',mem',same⟩ := List.mem_map.mp inside
  exact ⟨page',mem',congrArg Prod.fst same,congrArg Prod.snd same⟩

theorem SameShape.symm : SameShape pages' pages :=
  Eq.symm shape

end

theorem writeEntry_shape (pages : List UatPage) (j index : Nat) (value : U64) :
    SameShape pages (writeEntry pages j index value) := by
  apply List.ext_getElem?
  intro k
  rw [List.getElem?_map,List.getElem?_map,writeEntry,List.getElem?_modify]
  cases pages[k]? with
  | none => rfl
  | some page => split_ifs <;> rfl

/-- A written entry reads back, and every other entry is unchanged. -/
theorem entryAt_write (distinct : Distinct pages)
    (here : pages[j]? = some page) (index : Nat) (value : U64) (address : U64) (level i : Nat) :
    entryAt (writeEntry pages j index value) address level i =
      if address = page.physicalAddress ∧ level = page.level ∧ i = index then value
      else entryAt pages address level i := by
  have shape := writeEntry_shape pages j index value
  have written : (writeEntry pages j index value)[j]? =
      some { page with entries := Function.update page.entries index value } := by
    rw [writeEntry,List.getElem?_modify,here]
    simp
  by_cases at_page : address = page.physicalAddress ∧ level = page.level
  · obtain ⟨rfl,rfl⟩ := at_page
    have now := entryAt_mem (shape.distinct distinct) (List.mem_of_getElem? written) i
    rw [entryAt_mem distinct (List.mem_of_getElem? here) i]
    refine now.trans ?_
    by_cases same : i = index
    · subst same; simp
    simp [same]
  rw [if_neg (fun all => at_page ⟨all.1,all.2.1⟩)]
  cases found : pageAt pages address level with
  | none =>
    have absent : ∀ p ∈ writeEntry pages j index value, ¬ (p.physicalAddress = address ∧ p.level = level) := by
      intro p mem here'
      obtain ⟨q,inside,sameAddress,sameLevel⟩ := shape.symm.exists mem
      have missing := List.find?_eq_none.mp found q inside
      simp [sameAddress,sameLevel,here'] at missing
    rw [entryAt_absent absent,entryAt,found]
    rfl
  | some other =>
  obtain ⟨mem,isAddress,isLevel⟩ := pageAt_some found
  subst isAddress isLevel
  -- the other page is at another place and is not modified
  obtain ⟨k,there⟩ := List.getElem?_of_mem mem
  have apart : j ≠ k := by
    rintro rfl
    rw [here] at there
    cases there
    exact at_page ⟨rfl,rfl⟩
  have unmodified : (writeEntry pages j index value)[k]? = some other := by
    rw [writeEntry,List.getElem?_modify,there]
    simp [apart]
  rw [entryAt_mem distinct mem,entryAt_mem (shape.distinct distinct) (List.mem_of_getElem? unmodified)]

theorem Tree.writeLeaf (tree : Tree pages)
    (here : pages[j]? = some page) (leaf : page.level = 2) (index : Nat) (value : U64) :
    Tree (writeEntry pages j index value) := by
  have shape := writeEntry_shape pages j index value
  have tables : ∀ address level i, level < 2 →
      entryAt (writeEntry pages j index value) address level i = entryAt pages address level i := by
    intro address level i below
    rw [entryAt_write tree.distinct here,if_neg]
    rintro ⟨_,same,_⟩
    omega
  refine ⟨shape.distinct tree.distinct,?_,?_,?_,?_⟩
  · intro p mem
    obtain ⟨q,inside,address,_⟩ := shape.symm.exists mem
    rw [← address]
    exact tree.real q inside
  · intro p mem
    obtain ⟨q,inside,_,level⟩ := shape.symm.exists mem
    rw [← level]
    exact tree.levels q inside
  · intro address level i below inside nonzero
    rw [tables _ _ _ below] at nonzero ⊢
    obtain ⟨q,mem,isLevel,entry⟩ := tree.child address level i below inside nonzero
    obtain ⟨p,mem',sameAddress,sameLevel⟩ := shape.exists mem
    exact ⟨p,mem',sameLevel.trans isLevel,by rw [entry,sameAddress]⟩
  intro address address' level i i' below inside inside' nonzero same
  rw [tables _ _ _ below] at nonzero
  rw [tables _ _ _ below,tables _ _ _ below] at same
  exact tree.parent address address' level i i' below inside inside' nonzero same

theorem leafTable_write (distinct : Distinct pages)
    (here : pages[j]? = some page) (leaf : page.level = 2) (index : Nat) (value root va : U64) :
    leafTable (writeEntry pages j index value) root va = leafTable pages root va := by
  simp only [leafTable,entryAt_write distinct here,leaf]
  simp

theorem leafValue_write (tree : Tree pages) (here : pages[j]? = some page) (leaf : page.level = 2) {root va : U64}
    (table : page.physicalAddress = leafTable pages root va) (value root' va' : U64) :
    leafValue (writeEntry pages j (level2Index va) value) root' va' =
      if root' = root ∧ key va' = key va then value else leafValue pages root' va' := by
  rw [leafValue,leafTable_write tree.distinct here leaf,entryAt_write tree.distinct here,leaf,table]
  have real : leafTable pages root va ≠ 0 := table ▸ (tree.real page (List.mem_of_getElem? here)).1
  by_cases same : root' = root ∧ key va' = key va
  · obtain ⟨rfl,keys⟩ := same
    obtain ⟨level0,level1,level2⟩ := indices_of_key keys
    have tables : leafTable pages root' va' = leafTable pages root' va := by simp only [leafTable,level0,level1]
    rw [if_pos ⟨tables,rfl,level2⟩,if_pos ⟨rfl,keys⟩]
  rw [if_neg same,if_neg,leafValue]
  rintro ⟨tables,_,level2⟩
  obtain ⟨roots,level0,level1⟩ := tree.path_injective real tables.symm
  exact same ⟨roots.symm,(key_of_indices level0 level1 level2.symm).symm⟩

theorem pageIsZero_apply {entries : Nat → U64} (zero : pageIsZero entries = true) (inside : index < 2048) :
    entries index = 0 := by
  have all := List.all_eq_true.mp zero index (List.mem_range.mpr inside)
  simpa using all
theorem entryCount_le (level : Nat) : entryCount level ≤ 2048 := by
  unfold entryCount
  split_ifs <;> omega

theorem entryAt_of_mem_iff (distinct : Distinct pages) (distinct' : Distinct pages')
    (same : ∀ page, page.physicalAddress = address → page.level = level → (page ∈ pages' ↔ page ∈ pages))
    (index : Nat) : entryAt pages' address level index = entryAt pages address level index := by
  by_cases found : ∃ page ∈ pages, page.physicalAddress = address ∧ page.level = level
  · obtain ⟨page,mem,rfl,rfl⟩ := found
    rw [entryAt_mem distinct mem,entryAt_mem distinct' ((same page rfl rfl).mpr mem)]
  rw [entryAt_absent (fun page mem here => found ⟨page,mem,here⟩),
    entryAt_absent (fun page mem here => found ⟨page,(same page here.1 here.2).mp mem,here⟩)]

theorem entryAt_append (distinct : Distinct (pages ++ [page])) (zero : pageIsZero page.entries = true)
    (known : index < 2048 ∨ ∃ old ∈ pages, old.physicalAddress = address ∧ old.level = level) :
    entryAt (pages ++ [page]) address level index = entryAt pages address level index := by
  have before : Distinct pages := by
    rw [Distinct,List.map_append] at distinct
    exact (List.nodup_append.mp distinct).1
  by_cases here : page.physicalAddress = address ∧ page.level = level
  · obtain ⟨rfl,rfl⟩ := here
    have absent : ∀ old ∈ pages, ¬ (old.physicalAddress = page.physicalAddress ∧ old.level = page.level) := by
      intro old mem same
      rw [Distinct,List.map_append] at distinct
      exact (List.nodup_append.mp distinct).2.2 _ (List.mem_map_of_mem mem) _ (by simp) same.1
    have inside : index < 2048 := known.resolve_right (fun ⟨old,mem,same⟩ => absent old mem same)
    rw [entryAt_absent absent,entryAt_mem distinct (by simp),pageIsZero_apply zero inside]
  refine entryAt_of_mem_iff before distinct (fun old address level => ?_) index
  constructor
  · intro mem
    rcases List.mem_append.mp mem with mem | last
    · exact mem
    rw [List.mem_singleton.mp last] at address level
    exact absurd ⟨address,level⟩ here
  exact List.mem_append_left _

/-- Tables are added and no leaf changes: every changed entry was empty and now points to a page behind the old ones. -/
structure Grows (pages pages' : List UatPage) : Prop where
  tree : Tree pages'
  shape : SameShape pages (pages'.take pages.length)
  tables : ∀ page ∈ pages'.drop pages.length, page.level ≠ 0
  leaf : ∀ root va, leafValue pages' root va = leafValue pages root va
  keeps : ∀ address level index, (index < 2048 ∨ ∃ old ∈ pages, old.physicalAddress = address ∧ old.level = level) →
    entryAt pages' address level index ≠ entryAt pages address level index →
    entryAt pages address level index = 0 ∧ level < 2 ∧ index < entryCount level ∧ ∃ page ∈ pages'.drop pages.length,
        page.physicalAddress = entryAt pages' address level index &&& addressMask

theorem Grows.refl (tree : Tree pages) : Grows pages pages :=
  ⟨tree,by rw [List.take_length]; rfl,fun _ added => absurd added (by simp),fun _ _ => rfl,
    fun _ _ _ _ changed => absurd rfl changed⟩
theorem SameShape.length (shape : SameShape pages (pages'.take pages.length)) : pages.length ≤ pages'.length := by
  have lengths := congrArg List.length shape
  simp only [List.length_map,List.length_take] at lengths
  omega

theorem SameShape.take (shape : SameShape pages pages') : SameShape pages (pages'.take pages.length) := by
  have lengths := congrArg List.length shape
  simp only [List.length_map] at lengths
  rw [List.take_of_length_le (Nat.le_of_eq lengths)]
  exact shape

theorem SameShape.getElem (shape : SameShape pages (pages'.take pages.length)) (here : pages[j]? = some page) :
    ∃ page', pages'[j]? = some page' ∧ page'.physicalAddress = page.physicalAddress ∧ page'.level = page.level := by
  have inside : j < pages.length := (List.getElem?_eq_some_iff.mp here).1
  have ids := congrArg (fun list : List (U64 × Nat) => list[j]?) shape
  simp only [List.getElem?_map,here,List.getElem?_take_of_lt inside,Option.map_some] at ids
  obtain ⟨page',there,same⟩ := Option.map_eq_some_iff.mp ids
  exact ⟨page',there,congrArg Prod.fst same,congrArg Prod.snd same⟩

theorem SameShape.exists_take (shape : SameShape pages (pages'.take pages.length)) (mem : page ∈ pages) :
    ∃ page' ∈ pages', page'.physicalAddress = page.physicalAddress ∧ page'.level = page.level := by
  obtain ⟨j,here⟩ := List.getElem?_of_mem mem
  obtain ⟨page',there,same⟩ := shape.getElem here
  exact ⟨page',List.mem_of_getElem? there,same⟩

theorem SameShape.trans_take {a b c : List UatPage} (first : SameShape a (b.take a.length))
    (second : SameShape b (c.take b.length)) : SameShape a (c.take a.length) := by
  have shorter := first.length
  have taken := congrArg (List.take a.length) second
  simp only [← List.map_take,List.take_take,Nat.min_eq_left shorter] at taken
  exact taken.trans first

variable {n : Nat}

theorem SameShape.exists_drop {b c : List UatPage} (shape : SameShape b (c.take b.length))
    (mem : page ∈ b.drop n) : ∃ page' ∈ c.drop n, page'.physicalAddress = page.physicalAddress := by
  obtain ⟨j,here⟩ := List.getElem?_of_mem mem
  rw [List.getElem?_drop] at here
  obtain ⟨page',there,same,_⟩ := shape.getElem here
  exact ⟨page',List.mem_of_getElem? (i := j) (by rw [List.getElem?_drop]; exact there),same⟩

/-- Tables behind tables: a page behind the first ones is one of the second or an old one with its level. -/
theorem SameShape.tables {b c : List UatPage} (shape : SameShape b (c.take b.length))
    (first : ∀ page ∈ b.drop n, page.level ≠ 0) (second : ∀ page ∈ c.drop b.length, page.level ≠ 0) :
    ∀ page ∈ c.drop n, page.level ≠ 0 := by
  intro page mem
  obtain ⟨j,here⟩ := List.getElem?_of_mem mem
  rw [List.getElem?_drop] at here
  by_cases old : n + j < b.length
  · obtain ⟨page',there,_,level⟩ := shape.getElem (List.getElem?_eq_getElem old)
    rw [here] at there
    cases there
    rw [level]
    exact first _ (List.mem_of_getElem? (i := j) (by rw [List.getElem?_drop]; exact List.getElem?_eq_getElem old))
  refine second page (List.mem_of_getElem? (i := n + j - b.length) ?_)
  rw [List.getElem?_drop,← here]
  congr 1
  omega

theorem Grows.trans {a b c : List UatPage} (first : Grows a b) (second : Grows b c) : Grows a c := by
  refine ⟨second.tree,first.shape.trans_take second.shape,second.shape.tables first.tables second.tables,
    fun root va => (second.leaf root va).trans (first.leaf root va),?_⟩
  intro address level index known changed
  have known' : index < 2048 ∨ ∃ old ∈ b, old.physicalAddress = address ∧ old.level = level := by
    rcases known with inside | ⟨old,mem,isAddress,isLevel⟩
    · exact .inl inside
    obtain ⟨page,found,sameAddress,sameLevel⟩ := first.shape.exists_take mem
    exact .inr ⟨page,found,sameAddress.trans isAddress,sameLevel.trans isLevel⟩
  by_cases early : entryAt b address level index = entryAt a address level index
  · rw [← early] at changed ⊢
    obtain ⟨empty,below,inside,page,found,points⟩ := second.keeps address level index known' changed
    refine ⟨empty,below,inside,page,?_,points⟩
    have split : c.drop b.length = (c.drop a.length).drop (b.length - a.length) := by
      have := first.shape.length
      rw [List.drop_drop]
      congr 1
      omega
    rw [split] at found
    exact List.mem_of_mem_drop found
  obtain ⟨empty,below,inside,page,found,points⟩ := first.keeps address level index known early
  have kept : entryAt c address level index = entryAt b address level index := by
    by_contra late
    exact early ((second.keeps address level index known' late).1.trans empty.symm)
  obtain ⟨page',found',same⟩ := second.shape.exists_drop found
  exact ⟨empty,below,inside,page',found',by rw [kept,same,points]⟩

theorem Grows.leafTable (grows : Grows pages pages') (tree : Tree pages) {root va : U64}
    (there : leafTable pages root va ≠ 0) : leafTable pages' root va = leafTable pages root va := by
  have keeps : ∀ address level index, index < 2048 → entryAt pages address level index ≠ 0 →
      entryAt pages' address level index = entryAt pages address level index := by
    intro address level index inside nonzero
    by_contra changed
    exact nonzero (grows.keeps address level index (.inl inside) changed).1
  have level1 : entryAt pages root 0 (level0Index va) ≠ 0 := by
    intro zero
    apply there
    rw [UatTree.leafTable,zero,masked_zero,tree.entryAt_zero,masked_zero]
  have level2 : entryAt pages (entryAt pages root 0 (level0Index va) &&& addressMask) 1 (level1Index va) ≠ 0 := by
    intro zero
    apply there
    rw [UatTree.leafTable,zero,masked_zero]
  have small := level0Index_lt va
  rw [UatTree.leafTable,UatTree.leafTable,keeps _ _ _ (by omega) level1,keeps _ _ _ (level1Index_lt va) level2]

theorem Distinct.append (distinct : Distinct pages) (fresh : ∀ old ∈ pages, old.physicalAddress ≠ page.physicalAddress) :
    Distinct (pages ++ [page]) := by
  rw [Distinct,List.map_append]
  refine List.nodup_append.mpr ⟨distinct,by simp,?_⟩
  intro a isOld b isNew
  obtain ⟨old,mem,rfl⟩ := List.mem_map.mp isOld
  simp only [List.map_cons,List.map_nil,List.mem_singleton] at isNew
  exact isNew ▸ fresh old mem

/-- A page that may join pages: it is none of them, lies at a real address and is all zeros. -/
structure Fresh (pages : List UatPage) (page : UatPage) : Prop where
  apart : ∀ old ∈ pages, old.physicalAddress ≠ page.physicalAddress
  zero : pageIsZero page.entries = true
  real : page.physicalAddress ≠ 0 ∧ page.physicalAddress &&& addressMask = page.physicalAddress

theorem Tree.append (tree : Tree pages) (page : UatPage) (fresh : Fresh pages page) (level : page.level ≤ 2) :
    Tree (pages ++ [page]) ∧ ∀ root va, leafValue (pages ++ [page]) root va = leafValue pages root va := by
  have distinct := tree.distinct.append fresh.apart
  have entries : ∀ address level index, index < 2048 →
      entryAt (pages ++ [page]) address level index = entryAt pages address level index :=
    fun address level index small => entryAt_append distinct fresh.zero (.inl small)
  refine ⟨⟨distinct,fun p mem => ?_,fun p mem => ?_,?_,?_⟩,fun root va => ?_⟩
  · rcases List.mem_append.mp mem with old | new
    · exact tree.real p old
    rw [List.mem_singleton.mp new]; exact fresh.real
  · rcases List.mem_append.mp mem with old | new
    · exact tree.levels p old
    rw [List.mem_singleton.mp new]; exact level
  · intro address level index below walk nonzero
    rw [entries _ _ _ (walk.trans_le (entryCount_le _))] at nonzero ⊢
    obtain ⟨child,mem,level,entry⟩ := tree.child address level index below walk nonzero
    exact ⟨child,List.mem_append_left _ mem,level,entry⟩
  · intro address address' level index index' below walk walk' nonzero same
    rw [entries _ _ _ (walk.trans_le (entryCount_le _))] at nonzero same
    rw [entries _ _ _ (walk'.trans_le (entryCount_le _))] at same
    exact tree.parent address address' level index index' below walk walk' nonzero same
  have small := level0Index_lt va
  rw [leafValue,UatTree.leafTable,entries _ _ _ (level2Index_lt va),entries _ _ _ (level1Index_lt va),
    entries _ _ _ (by omega)]
  rfl

/-- An empty page is taken in, and an entry of an old one is written. -/
theorem entryAt_added (distinct : Distinct (pages ++ [page])) {parent : UatPage} (here : pages[j]? = some parent)
    (zero : pageIsZero page.entries = true) (at_ : Nat) (value address : U64) (level index : Nat)
    (known : index < 2048 ∨ ∃ old ∈ pages, old.physicalAddress = address ∧ old.level = level) :
    entryAt (writeEntry (pages ++ [page]) j at_ value) address level index =
      if address = parent.physicalAddress ∧ level = parent.level ∧ index = at_ then value else entryAt pages address level index := by
  have place : (pages ++ [page])[j]? = some parent := by
    rw [List.getElem?_append_left (List.getElem?_eq_some_iff.mp here).1]
    exact here
  rw [entryAt_write distinct place,entryAt_append distinct zero known]

/-- A fresh page of zeros that an empty entry comes to point to. -/
theorem Tree.addChild (tree : Tree pages) (page : UatPage) {parent : UatPage}
    (fresh : Fresh pages page) (here : pages[j]? = some parent) (below : parent.level < 2) (level : page.level = parent.level + 1)
    (inside : index < entryCount parent.level) (empty : entryAt pages parent.physicalAddress parent.level index = 0) :
    Grows pages (writeEntry (pages ++ [page]) j index (page.physicalAddress ||| 3)) ∧
      entryAt (writeEntry (pages ++ [page]) j index (page.physicalAddress ||| 3)) parent.physicalAddress parent.level
        index = page.physicalAddress ||| 3 ∧
      ∃ page', (writeEntry (pages ++ [page]) j index (page.physicalAddress ||| 3))[pages.length]? = some page' ∧
        page'.physicalAddress = page.physicalAddress ∧ page'.level = page.level := by
  have appended := (tree.append page fresh (by omega)).1
  have shape := writeEntry_shape (pages ++ [page]) j index (page.physicalAddress ||| 3)
  -- every entry but the new one is as before
  have entries := entryAt_added appended.distinct here fresh.zero index (page.physicalAddress ||| 3)
  have walked : ∀ l i, i < entryCount l → i < 2048 := fun l i bound => bound.trans_le (entryCount_le l)
  have pointed : (page.physicalAddress ||| 3 : U64) &&& addressMask = page.physicalAddress := table_masked fresh.real.2
  have nonzero : (page.physicalAddress ||| 3 : U64) ≠ 0 := ne_zero_of_descriptor (table_descriptor _)
  have old_child : ∀ address l i, l < 2 → i < entryCount l → entryAt pages address l i ≠ 0 →
      entryAt pages address l i ≠ page.physicalAddress ||| 3 := by
    intro address l i bound walk there same
    obtain ⟨old,mem,_,entry⟩ := tree.child address l i bound walk there
    rw [entry] at same
    have masks := congrArg (fun v => v &&& addressMask) same
    simp only [table_masked (tree.real old mem).2,pointed] at masks
    exact fresh.apart old mem masks
  have grown : Tree (writeEntry (pages ++ [page]) j index (page.physicalAddress ||| 3)) := by
    refine ⟨shape.distinct appended.distinct,?_,?_,?_,?_⟩
    · intro p mem
      obtain ⟨q,found,address,_⟩ := shape.symm.exists mem
      exact address ▸ appended.real q found
    · intro p mem
      obtain ⟨q,found,_,isLevel⟩ := shape.symm.exists mem
      exact isLevel ▸ appended.levels q found
    · intro address l i bound walk there
      rw [entries _ _ _ (.inl (walked l i walk))] at there ⊢
      split_ifs at there ⊢ with new
      · obtain ⟨p,found,same,isLevel⟩ := shape.exists (by simp : page ∈ pages ++ [page])
        exact ⟨p,found,by rw [isLevel,level,new.2.1],by rw [same]⟩
      obtain ⟨q,mem,isLevel,entry⟩ := tree.child address l i bound walk there
      obtain ⟨p,found,same,sameLevel⟩ := shape.exists (List.mem_append_left [page] mem)
      exact ⟨p,found,sameLevel.trans isLevel,by rw [entry,same]⟩
    intro address address' l i i' bound walk walk' there same
    rw [entries _ _ _ (.inl (walked l i walk))] at there same
    rw [entries _ _ _ (.inl (walked l i' walk'))] at same
    split_ifs at there same with new new'
    · exact ⟨new.1.trans new'.1.symm,new.2.2.trans new'.2.2.symm⟩
    · exact absurd same.symm (old_child address' l i' bound walk' (same ▸ nonzero))
    · exact absurd same (old_child address l i bound walk there)
    exact tree.parent address address' l i i' bound walk walk' there same
  have newZero : ∀ l i, i < 2048 → entryAt pages page.physicalAddress l i = 0 := fun l i _ =>
    entryAt_absent (fun old mem same => fresh.apart old mem same.1) i
  have parentNew : parent.physicalAddress ≠ page.physicalAddress := fresh.apart parent (List.mem_of_getElem? here)
  obtain ⟨added,there,sameAddress,sameLevel⟩ : ∃ p, (writeEntry (pages ++ [page]) j index
      (page.physicalAddress ||| 3))[pages.length]? = some p ∧ p.physicalAddress = page.physicalAddress ∧
      p.level = page.level := shape.take.getElem (List.getElem?_concat_length ..)
  refine ⟨⟨grown,?_,?_,?_,?_⟩,?_,added,there,sameAddress,sameLevel⟩
  · have taken := congrArg (List.take pages.length) shape
    simp only [List.map_append,List.take_left' (List.length_map ..)] at taken
    rw [SameShape,List.map_take]
    exact taken
  · intro p mem
    obtain ⟨k,place⟩ := List.getElem?_of_mem mem
    rw [List.getElem?_drop] at place
    have bound := (List.getElem?_eq_some_iff.mp place).1
    simp only [writeEntry,List.length_modify,List.length_append,List.length_singleton] at bound
    have isAdded : pages.length + k = pages.length := by omega
    rw [isAdded,there] at place
    cases place
    omega
  · intro root va
    have small := level0Index_lt va
    have mid := level1Index_lt va
    have last := level2Index_lt va
    unfold leafValue UatTree.leafTable
    rw [entries _ 0 _ (.inl (by omega))]
    split_ifs with top
    · -- the path enters the new page of level 1, where everything is empty
      rw [pointed,entries _ 1 _ (.inl mid),if_neg (fun all => parentNew all.1.symm),newZero _ _ mid,masked_zero,
        grown.entryAt_zero,top.1,top.2.1,top.2.2,empty,masked_zero,tree.entryAt_zero,masked_zero,tree.entryAt_zero]
    rw [entries _ 1 _ (.inl mid)]
    split_ifs with middle
    · -- the path enters the new leaf table
      rw [pointed,entries _ 2 _ (.inl last),if_neg (fun all => parentNew all.1.symm),newZero _ _ last,
        middle.1,middle.2.1,middle.2.2,empty,masked_zero,tree.entryAt_zero]
    rw [entries _ 2 _ (.inl last),if_neg]
    rintro ⟨_,isLeaf,_⟩
    omega
  · intro address l i known changed
    rw [entries address l i known] at changed ⊢
    split_ifs at changed ⊢ with new
    · obtain ⟨rfl,rfl,rfl⟩ := new
      refine ⟨empty,below,inside,added,?_,by rw [pointed,sameAddress]⟩
      exact List.mem_of_getElem? (i := 0) (by rw [List.getElem?_drop]; exact there)
    exact absurd rfl changed
  rw [entries _ _ _ (.inl (walked _ _ inside)),if_pos ⟨rfl,rfl,rfl⟩]

end WindowsOnM1.UatTree
