import WindowsOnM1.GpuvaRelink

/-!
The attachment of a private leaf under any allocator and any broker. A failure that leaves
the graph certain leaves its edges as they were; a success adds edges and changes none.
-/
namespace WindowsOnM1.GpuvaAttach
open GpuvaModel GpuvaLists GpuvaMoves GpuvaLinked GpuvaSteps List
open GpuvaOperations GpuvaWorld GpuvaWalk

variable {env : GpuvaEnv}

/-- What an operation on edges keeps. -/
structure Around (graph left : GpuvaGraph) : Prop where
  leaves : left.leaves = graph.leaves
  rootIpa : left.rootIpa = graph.rootIpa
  created : left.created = graph.created
  uncertain : graph.uncertain = true → left.uncertain = true

theorem Around.refl (graph : GpuvaGraph) : Around graph graph := ⟨rfl,rfl,rfl,id⟩
theorem Around.trans {a b c : GpuvaGraph} (first : Around a b) (second : Around b c) : Around a c :=
  ⟨second.leaves.trans first.leaves,second.rootIpa.trans first.rootIpa,second.created.trans first.created,
    fun uncertain => second.uncertain (first.uncertain uncertain)⟩
theorem Around.of_quiet {graph left : GpuvaGraph} (quiet : Quiet graph left) : Around graph left := by
  obtain ⟨_,_,leaves,_,_,created,rootIpa,uncertain⟩ := quiet_fields quiet
  exact ⟨leaves,rootIpa,created,fun isUncertain => uncertain.trans isUncertain⟩

/-- The edges after a store, in a graph whose edges had different serial numbers. -/
structure Stored (tableIpa : U64) (index : Nat) (childIpa : U64) (graph left : GpuvaGraph) : Prop where
  certain : left.uncertain = false
  cleared : childIpa = 0 → ∀ edge, findEdge graph.parents tableIpa index = some edge → left.parents = without graph.parents edge.id
  kept : childIpa ≠ 0 → ∀ edge, findEdge graph.parents tableIpa index = some edge → edge.auxIpa = childIpa →
    left.parents = graph.parents
  linked : childIpa ≠ 0 → findEdge graph.parents tableIpa index = none → ∃ edge, left.parents = edge :: graph.parents ∧
    edge.ipa = tableIpa ∧ edge.index = index ∧ edge.auxIpa = childIpa ∧ ∀ old ∈ graph.parents, old.id ≠ edge.id

variable {tableIpa : U64} {index : Nat} {childIpa : U64}

theorem updateParent_effect {graph left : GpuvaGraph} {done : Bool}
    (linked : Linked graph) (update : updateParent env tableIpa index childIpa graph = (done,left)) :
    Around graph left ∧ (done = false → left.parents = graph.parents) ∧
      (done = true → Stored tableIpa index childIpa graph left) := by
  cases updates_of update with
  | refused quiet => exact ⟨.of_quiet quiet,fun _ => (quiet_fields quiet).2.1,nofun⟩
  | lost quiet unanswered =>
    obtain ⟨_,_,_,rfl,keeps⟩ := unanswered
    exact ⟨(Around.of_quiet quiet).trans ⟨rfl,rfl,rfl,keeps⟩,fun _ => (quiet_fields quiet).2.1,nofun⟩
  | same certain quiet cleared leads =>
    obtain ⟨_,parents,_,_,_,_,_,uncertain⟩ := quiet_fields quiet
    refine ⟨.of_quiet quiet,nofun,fun _ => ⟨uncertain.trans certain,fun zero edge there => ?_,fun _ _ _ _ => parents,
      fun nonzero free => ?_⟩⟩
    · rw [cleared zero] at there
      cases there
    obtain ⟨edge,there,_⟩ := leads nonzero
    rw [free] at there
    cases there
  | unlinked clear asks _ _ isEdge =>
    refine ⟨(Around.of_quiet asks.quiet).trans ⟨rfl,rfl,rfl,id⟩,nofun,fun _ => ⟨asks.certain,fun _ other there => ?_,
      (absurd clear ·),(absurd clear ·)⟩⟩
    rw [isEdge] at there
    cases there
    exact congrArg (fun nodes => without nodes _) (quiet_fields asks.quiet).2.1
  | relinked links asks _ _ _ _ _ isEdge apart =>
    refine ⟨(Around.of_quiet asks.quiet).trans ⟨rfl,rfl,rfl,id⟩,nofun,fun _ => ⟨asks.certain,(absurd · links),
      fun _ other there same => ?_,fun _ free => ?_⟩⟩
    · rw [isEdge] at there
      cases there
      exact absurd same apart
    rw [isEdge] at free
    cases free
  | linked links asks _ here _ isChild _ _ free =>
    obtain ⟨_,parents,_⟩ := quiet_fields asks.quiet
    refine ⟨(Around.of_quiet asks.quiet).trans ⟨rfl,rfl,rfl,id⟩,nofun,fun _ => ⟨asks.certain,(absurd · links),
      fun _ other there => ?_,fun _ _ => ⟨_,congrArg (_ :: ·) parents,here,rfl,isChild,fun old mem => ?_⟩⟩⟩
    · rw [free] at there
      cases there
    exact Nat.ne_of_lt ((linked_quiet linked asks.quiet).tree.oldParents old (parents ▸ mem))

variable {edge : GpuvaNode} {parents : List GpuvaNode}

private theorem findEdge_push {ipa : U64} {found : GpuvaNode}
    (free : findEdge parents edge.ipa edge.index = none) (there : findEdge parents ipa index = some found) :
    findEdge (edge :: parents) ipa index = some found := by
  unfold findEdge at *
  rw [find?_cons_of_neg]
  · exact there
  rw [Bool.and_eq_true,beq_iff_eq,beq_iff_eq]
  rintro ⟨rfl,rfl⟩
  rw [free] at there
  cases there

theorem findEdge_new (edge : GpuvaNode) (parents : List GpuvaNode) :
    findEdge (edge :: parents) edge.ipa edge.index = some edge := by
  rw [findEdge,find?_cons_of_pos (by simp)]
private theorem without_push (fresh : ∀ old ∈ parents, old.id ≠ edge.id) : without (edge :: parents) edge.id = parents := by
  unfold without
  rw [filter_cons_of_neg (by simp)]
  exact filter_eq_self.mpr (fun old mem => by simpa using fresh old mem)

/-- The graph has the edges that it had, and maybe more. -/
structure Extends (graph left : GpuvaGraph) : Prop where
  around : Around graph left
  edges : ∀ ipa index edge, findEdge graph.parents ipa index = some edge → findEdge left.parents ipa index = some edge
theorem Extends.of_parents {graph left : GpuvaGraph} (around : Around graph left) (parents : left.parents = graph.parents) :
    Extends graph left := ⟨around,fun _ _ _ found => parents ▸ found⟩
theorem Extends.trans {a b c : GpuvaGraph} (first : Extends a b) (second : Extends b c) : Extends a c :=
  ⟨first.around.trans second.around,fun ipa index edge found => second.edges ipa index edge (first.edges ipa index edge found)⟩

theorem Extends.translate {graph left : GpuvaGraph} (more : Extends graph left) {va page : U64}
    (found : listTranslate graph va = some page) : listTranslate left va = some page := by
  obtain ⟨leaf,isLeaf,rfl⟩ := Option.map_eq_some_iff.mp found
  obtain ⟨edge,isMiddle,under⟩ := Option.bind_eq_some_iff.mp isLeaf
  obtain ⟨first,isFirst,isSecond⟩ := Option.bind_eq_some_iff.mp isMiddle
  have middle : listMiddle left va = some edge := by
    rw [listMiddle,more.around.rootIpa,more.edges _ _ _ isFirst]
    exact more.edges _ _ _ isSecond
  rw [listTranslate,listLeaf,middle,more.around.leaves]
  exact congrArg (Option.map _) under

theorem Stored.extends {graph left : GpuvaGraph}
    (stored : Stored tableIpa index childIpa graph left) (around : Around graph left) (nonzero : childIpa ≠ 0)
    (fits : ∀ edge, findEdge graph.parents tableIpa index = some edge → edge.auxIpa = childIpa) :
    Extends graph left ∧ ∃ edge, findEdge left.parents tableIpa index = some edge ∧ edge.auxIpa = childIpa := by
  cases found : findEdge graph.parents tableIpa index with
  | some edge =>
    have same := stored.kept nonzero edge found (fits edge found)
    exact ⟨.of_parents around same,edge,same ▸ found,fits edge found⟩
  | none =>
  obtain ⟨edge,parents,rfl,rfl,leads,_⟩ := stored.linked nonzero found
  refine ⟨⟨around,fun ipa index other there => ?_⟩,edge,?_,leads⟩
  · rw [parents]
    exact findEdge_push found there
  rw [parents]
  exact findEdge_new edge graph.parents

section Attach

variable {va middle leaf : U64} {graph : GpuvaGraph}

structure Attached (va leaf : U64) (graph : GpuvaGraph) (answer : Bool × GpuvaGraph) : Prop where
  around : Around graph answer.2
  undone : answer.1 = false → answer.2.uncertain = false → answer.2.parents = graph.parents
  done : answer.1 = true → Extends graph answer.2 ∧ answer.2.uncertain = false ∧
    ∃ first second, findEdge answer.2.parents graph.rootIpa (privateRootIndex va) = some first ∧
      findEdge answer.2.parents first.auxIpa (middleIndex va) = some second ∧ second.auxIpa = leaf

/-- The links of an attachment through the middle table that the root leads to, or through the one that is named. -/
private theorem attachLinks_attached (linked : Linked graph) (nonzero : middle ≠ 0 ∧ leaf ≠ 0) {rootEdge leafEdge : Option GpuvaNode}
    (isRootEdge : findEdge graph.parents graph.rootIpa (privateRootIndex va) = rootEdge)
    (through : ∀ edge, rootEdge = some edge → edge.auxIpa = middle) (apart : middle ≠ graph.rootIpa)
    (isLeafEdge : findEdge graph.parents middle (middleIndex va) = leafEdge)
    (fits : ∀ edge, leafEdge = some edge → edge.auxIpa = leaf) :
    Attached va leaf graph (attachLinks env va middle leaf rootEdge leafEdge graph) := by
  unfold attachLinks
  cases isJoined : updateParent env middle (middleIndex va) leaf graph with | mk done joined =>
  obtain ⟨around,failing,storing⟩ := updateParent_effect linked isJoined
  have linked' := (updates_of isJoined).steps.linked linked
  cases done with
  | false =>
    refine ⟨around.trans (.of_quiet (attachFailure_quiet joined 8)),fun _ _ => failing rfl,nofun⟩
  | true =>
  dsimp only
  have stored := storing rfl
  obtain ⟨more,second,isSecond,leads⟩ := stored.extends around nonzero.2 (fun edge found => fits edge (isLeafEdge ▸ found))
  cases rootEdge with
  | some edge =>
    refine ⟨around,nofun,fun _ => ⟨more,stored.certain,edge,second,more.edges _ _ _ isRootEdge,?_,leads⟩⟩
    rw [through edge rfl]
    exact isSecond
  | none =>
  rw [if_neg (by simp)]
  cases isRooted : updateParent env joined.rootIpa (privateRootIndex va) middle joined with | mk done' left =>
  obtain ⟨around',failing',storing'⟩ := updateParent_effect linked' isRooted
  have linked'' := (updates_of isRooted).steps.linked linked'
  cases done' with
  | true =>
    have stored' := storing' rfl
    -- the first link is not in the slot of the root
    have free : findEdge joined.parents joined.rootIpa (privateRootIndex va) = none := by
      rw [around.rootIpa]
      cases leafEdge with
      | some edge => rw [stored.kept nonzero.2 edge isLeafEdge (fits edge rfl),isRootEdge]
      | none =>
      obtain ⟨edge,parents,under,_⟩ := stored.linked nonzero.2 isLeafEdge
      unfold findEdge at isRootEdge ⊢
      rw [parents,find?_cons_of_neg]
      · exact isRootEdge
      rw [Bool.and_eq_true,beq_iff_eq,under]
      exact fun both => apart both.1
    obtain ⟨more',first,isFirst,leads'⟩ := stored'.extends around' nonzero.1 (fun edge found => by
      rw [free] at found
      cases found)
    refine ⟨around.trans around',nofun,fun _ => ⟨more.trans more',stored'.certain,first,second,?_,?_,leads⟩⟩
    · rw [← around.rootIpa]
      exact isFirst
    rw [leads']
    exact more'.edges _ _ _ isSecond
  | false =>
  have parents := failing' rfl
  have quiet := attachFailure_quiet left 9
  dsimp only
  split_ifs with settled
  · refine ⟨(around.trans around').trans (.of_quiet quiet),fun _ certain => ?_,nofun⟩
    rcases settled with old | uncertain
    · obtain ⟨edge,rfl⟩ := Option.isSome_iff_exists.mp old
      exact parents.trans (stored.kept nonzero.2 edge isLeafEdge (fits edge rfl))
    rw [uncertain] at certain
    cases certain
  obtain ⟨new,_⟩ := not_or.mp settled
  obtain rfl : leafEdge = none := by simpa using new
  obtain ⟨edge,pushed,under,atIndex,_,fresh⟩ := stored.linked nonzero.2 isLeafEdge
  cases isCleared : updateParent env middle (middleIndex va) 0 { left with attachFailure := 9 } with | mk done'' left' =>
  obtain ⟨around'',_,clearing⟩ := updateParent_effect (linked_quiet linked'' quiet) isCleared
  have all := ((around.trans around').trans (.of_quiet quiet)).trans around''
  cases done'' with
  | false =>
    refine ⟨{ all with uncertain := fun _ => rfl },nofun,nofun⟩
  | true =>
  refine ⟨all,fun _ _ => ?_,nofun⟩
  have there : findEdge left.parents middle (middleIndex va) = some edge := by
    rw [parents,pushed,← under,← atIndex]
    exact findEdge_new edge graph.parents
  rw [(clearing rfl).cleared rfl edge there]
  rw [parents,pushed]
  exact without_push fresh

private theorem attachPrivate_attached (linked : Linked graph) (va middle leaf : U64) :
    Attached va leaf graph (attachPrivate env va middle leaf graph) := by
  have refused : ∀ {left : GpuvaGraph} {failure : Nat}, Quiet graph left →
      Attached va leaf graph (false,{ left with attachFailure := failure }) := by
    intro left failure quiet
    have all := quiet.trans (attachFailure_quiet left failure)
    exact ⟨.of_quiet all,fun _ _ => (quiet_fields all).2.1,nofun⟩
  unfold attachPrivate
  split
  · exact refused (.refl graph)
  rename_i absent
  split
  · exact refused (.refl graph)
  have present : graph.created = true := by simpa using (not_or.mp absent).1
  have certain : graph.uncertain = false := by simpa using (not_or.mp absent).2
  split
  · rename_i found search
    exact refused (findTable_spec search).1
  rename_i table found search
  obtain ⟨quiet,isMiddle,_⟩ := findTable_spec search
  split
  · rename_i found' search'
    exact refused (quiet.trans (findTable_spec search').1)
  rename_i table' found' search'
  obtain ⟨quiet',isLeaf,_⟩ := findTable_spec search'
  obtain ⟨middleIn,middleHere,middleLevel⟩ := isMiddle table rfl
  obtain ⟨leafIn,leafHere,leafLevel⟩ := isLeaf table' rfl
  have both := quiet.trans quiet'
  have opened := both.trans (attachFailure_quiet found' 0)
  obtain ⟨_,parents,leaves,_,_,created,rootIpa,uncertain⟩ := quiet_fields both
  dsimp only
  generalize isRootEdge : findEdge found'.parents found'.rootIpa (privateRootIndex va) = rootEdge
  generalize isThrough : rootEdge.elim middle (fun edge => edge.auxIpa) = through
  generalize isLeafEdge : findEdge found'.parents through (middleIndex va) = leafEdge
  have isEdge := isRootEdge
  rw [parents,rootIpa] at isEdge
  obtain ⟨root,rootIn,isRoot,rootLevel,_⟩ := linked.tree.root present
  -- the middle table is one of the graph, and not the root
  have isTable : ∃ item ∈ graph.tables, item.ipa = through ∧ item.level = 1 := by
    cases rootEdge with
    | none => exact ⟨table,middleIn,middleHere.trans isThrough,middleLevel⟩
    | some edge =>
    obtain ⟨edgeIn,under,_⟩ := findEdge_some isEdge
    obtain ⟨_,_,child,childIn,level,aux,_⟩ := linked.tree.edge_table edgeIn rootIn (under.trans isRoot.symm)
    exact ⟨child,childIn,aux.symm.trans isThrough,by omega⟩
  obtain ⟨item,itemIn,itemHere,itemLevel⟩ := isTable
  split_ifs with whole busy leased unfit
  · obtain ⟨some,leads⟩ := whole
    obtain ⟨edge,rfl⟩ := Option.isSome_iff_exists.mp some
    obtain ⟨second,isSecond,same⟩ := (Option.any_eq_true _ _).mp leads
    subst isSecond
    refine ⟨.of_quiet opened,nofun,fun _ => ⟨.of_parents (.of_quiet opened) parents,
      uncertain.trans certain,edge,second,?_,?_,beq_iff_eq.mp same⟩⟩
    · rw [← rootIpa]
      exact isRootEdge
    have into : edge.auxIpa = through := isThrough
    rw [into]
    exact isLeafEdge
  · exact refused both
  · exact refused both
  · exact refused both
  have linked' := linked_quiet linked opened
  have attached := @attachLinks_attached env va through leaf { found' with attachFailure := 0 } linked'
    ⟨itemHere ▸ (linked.tree.real item itemIn).1,
      leafHere ▸ (linked.tree.real table' ((quiet_fields quiet).1 ▸ leafIn)).1⟩ rootEdge leafEdge
    isRootEdge (fun edge same => by rw [same] at isThrough; exact isThrough)
    (fun same => by
      have equal := linked.tree.addresses.eq itemIn rootIn (itemHere.trans (same.trans (rootIpa.trans isRoot.symm)))
      rw [equal] at itemLevel
      omega)
    isLeafEdge (fun edge same => by
      by_contra different
      exact unfit ((Option.any_eq_true _ _).mpr ⟨edge,same,bne_iff_ne.mpr different⟩))
  have here := Around.of_quiet opened
  refine ⟨here.trans attached.around,fun failed sure => (attached.undone failed sure).trans parents,fun isOk => ?_⟩
  obtain ⟨more,sure,first,second,isFirst,rest⟩ := attached.done isOk
  exact ⟨(Extends.of_parents here parents).trans more,sure,first,second,by rw [← rootIpa]; exact isFirst,rest⟩

end Attach

/-- In every state that calls lead to, an attachment that fails and leaves the graph certain leaves the edges and the
    translations as they were; one that succeeds leads to the leaf and keeps every translation. -/
theorem run_attachPrivate {n : Nat} (env : Fin n → GpuvaEnv) (owners : Fin n → Owner) (script : List (Fin n × Call))
    (who : Fin n) (va middle leaf : U64) : let graph := (run env (worldInit owners) script).graphs who
    let answer := attachPrivate (env who) va middle leaf graph
    (answer.1 = false → answer.2.uncertain = false → answer.2.parents = graph.parents ∧
      ∀ address, translateVa answer.2 address = translateVa graph address) ∧
    (answer.1 = true → leafTableIpa answer.2 va = some leaf ∧
      ∀ address page, translateVa graph address = some page → translateVa answer.2 address = some page) := by
  intro graph answer
  have linked : Linked graph := (run_linked env (worldInit_linked owners) script).graphs who
  have linked' : Linked answer.2 := (attachPrivate_steps va middle leaf graph).linked linked
  have attached : Attached va leaf graph answer := attachPrivate_attached linked va middle leaf
  have certain_of : answer.2.uncertain = false → graph.uncertain = false := by
    intro sure
    cases before : graph.uncertain with
    | false => rfl
    | true => rw [attached.around.uncertain before] at sure; cases sure
  constructor
  · intro failed sure
    have parents := attached.undone failed sure
    refine ⟨parents,translate_of_walks linked linked' (certain_of sure) sure (fun address => ?_)⟩
    simp only [listTranslate,listLeaf,listMiddle,parents,attached.around.leaves,attached.around.rootIpa]
  intro isOk
  obtain ⟨more,sure,first,second,isFirst,isSecond,leads⟩ := attached.done isOk
  have reserved : privateVa va = true := by
    by_contra outside
    have refused : answer.1 = false := by
      show (attachPrivate (env who) va middle leaf graph).1 = false
      unfold attachPrivate
      split_ifs
      · rfl
      · rfl
    rw [refused] at isOk
    cases isOk
  have small : va < 1 <<< 39 := by
    simp only [privateVa,Bool.and_eq_true,decide_eq_true_eq] at reserved
    exact reserved.1.2
  refine ⟨?_,fun address page found => ?_⟩
  · rw [(walk_linked linked' sure small).2,listLeafTable,listMiddle,attached.around.rootIpa]
    have first' : findEdge answer.2.parents graph.rootIpa (va >>> 36).toNat = some first := isFirst
    have second' : findEdge answer.2.parents first.auxIpa (va >>> 25 &&& 2047).toNat = some second := isSecond
    rw [first']
    dsimp only [Option.bind]
    rw [second']
    exact congrArg some leads
  have inside : address < 1 <<< 39 := by
    by_contra outside
    rw [translateVa,if_pos (.inr (.inr (BitVec.not_lt.mp outside)))] at found
    cases found
  rw [(walk_linked linked (certain_of sure) inside).1] at found
  rw [(walk_linked linked' sure inside).1]
  exact more.translate found

end WindowsOnM1.GpuvaAttach
