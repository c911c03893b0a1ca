import WindowsOnM1.Context0Steps

/-!
What the journal of context-0 mappings shows after every run of map, verify and retire.
-/
namespace WindowsOnM1.Context0
open Attempts List
open BitVec hiding not_not not_or

/-- The leaves of a mapping by address. -/
def addresses (mapping : Mapping) : List U64 :=
  (List.range (mapping.length.toNat / 0x4000)).map (fun k => mapping.virtualAddress + BitVec.ofNat 64 (0x4000 * k))

private theorem places_addresses (graph : Graph) : (places graph).map Place.va = graph.mappings.flatMap addresses := by
  have each : ∀ mapping : Mapping × Nat, (placesOf mapping.2 mapping.1).map Place.va = addresses mapping.1 := by
    intro mapping
    unfold placesOf addresses
    rw [map_map]
    rfl
  unfold places
  rw [map_flatMap]
  simp only [each]
  rw [← flatMap_map,zipIdx_map_fst]

variable {objects : List MemoryObject}

private theorem checkMappings_sound {earlier rest : List Mapping} {total sum : Nat}
    (checked : checkMappings objects earlier rest total = some sum) :
    (∀ mapping ∈ rest, ∃ before, ¬ BadMapping objects mapping before) ∧ rest.Pairwise (fun first second => ¬ Clash second first) ∧
      ∀ mapping ∈ rest, ∀ before ∈ earlier, ¬ Clash mapping before := by
  induction rest generalizing earlier total with
  | nil => exact ⟨nofun,List.Pairwise.nil,nofun⟩
  | cons mapping rest ih =>
  unfold checkMappings at checked
  split at checked
  · cases checked
  rename_i good
  split at checked
  · cases checked
  rename_i apart
  obtain ⟨goods,pairs,aparts⟩ := ih checked
  refine ⟨fun one mem => ?_,pairwise_cons.mpr ⟨fun later mem => ?_,pairs⟩,fun one mem before among => ?_⟩
  · rcases mem_cons.mp mem with rfl | mem
    · exact ⟨_,good⟩
    exact goods one mem
  · exact aparts later mem mapping (mem_append_right _ mem_cons_self)
  rcases mem_cons.mp mem with rfl | mem
  · exact fun clash => apart ⟨before,among,clash⟩
  exact aparts one mem before (mem_append_left _ among)

variable {mapping : Mapping}

private theorem good_mapping {total : Nat} (good : ¬ BadMapping objects mapping total) :
    mapping.virtualAddress.toNat + mapping.length.toNat < 2^64 := by
  unfold BadMapping at good
  split at good
  · exact absurd trivial good
  simp only [not_or] at good
  have low := le_def.mp (BitVec.not_lt.mp good.2.2.2.2.2.2.2.2.2.2.2.1)
  have fits : mapping.length ≤ allOnes 64 := le_def.mpr (by simp; omega)
  rw [toNat_sub_of_le fits,toNat_allOnes] at low
  omega

theorem mem_addresses {va : U64} (fits : mapping.virtualAddress.toNat + mapping.length.toNat < 2^64)
    (mem : va ∈ addresses mapping) :
    mapping.virtualAddress.toNat ≤ va.toNat ∧ va.toNat < mapping.virtualAddress.toNat + mapping.length.toNat := by
  obtain ⟨k,inside,rfl⟩ := mem_map.mp mem
  have small := mem_range.mp inside
  rw [toNat_add,toNat_ofNat]
  have room : 0x4000 * k < 2^64 := by omega
  omega

private theorem addresses_nodup (mapping : Mapping) : (addresses mapping).Nodup := by
  refine List.Nodup.map_on (fun first mem second mem' same => ?_) nodup_range
  have small := mem_range.mp mem
  have small' := mem_range.mp mem'
  have here := congrArg BitVec.toNat same
  simp only [toNat_add,toNat_ofNat] at here
  omega

private theorem apart_addresses {first second : Mapping} (fits : first.virtualAddress.toNat + first.length.toNat < 2^64)
    (fits' : second.virtualAddress.toNat + second.length.toNat < 2^64) (apart : ¬ Clash second first) :
    (addresses first).Disjoint (addresses second) := by
  intro va mem mem'
  obtain ⟨low,high⟩ := mem_addresses fits mem
  obtain ⟨low',high'⟩ := mem_addresses fits' mem'
  refine apart (.inl ⟨?_,?_⟩)
  · rw [lt_def,toNat_add,Nat.mod_eq_of_lt fits]
    omega
  rw [lt_def,toNat_add,Nat.mod_eq_of_lt fits']
  omega

variable {graph : Graph}

private theorem places_nodup (valid : GraphValid graph) : ((places graph).map Place.va).Nodup := by
  obtain ⟨-,-,-,-,-,-,-,-,-,-,-,checked⟩ := valid
  obtain ⟨goods,pairs,-⟩ := checkMappings_sound checked
  have fits : ∀ mapping ∈ graph.mappings, mapping.virtualAddress.toNat + mapping.length.toNat < 2^64 := by
    intro mapping mem
    obtain ⟨total,good⟩ := goods mapping mem
    exact good_mapping good
  rw [places_addresses,nodup_flatMap]
  refine ⟨fun mapping mem => addresses_nodup mapping,?_⟩
  refine List.Pairwise.imp_of_mem (fun mem mem' apart => ?_) pairs
  exact apart_addresses (fits _ mem) (fits _ mem') apart

def Ready (journal : Journal) (mappings : List Mapping) : Prop :=
  ∃ graph, journal.graph = some graph ∧ graph.mappingsReady = true ∧ graph.mappings = mappings

/-- What a call leaves, by what it asked the broker. -/
structure Kept (world : World) (call : Call) (answer : Except Failure Unit) (left : World) (asked : List Exchange) : Prop where
  log : left.log = world.log ++ asked
  ready : ∀ graph, left.journal.graph = some graph → graph.mappingsReady = true →
    Ready world.journal graph.mappings ∨ ∀ place ∈ places graph, ∃ exchange ∈ asked, Queried place exchange
  retired : call = .retire → answer = .ok ⟨⟩ → left.journal.leaves = [] ∧ left.journal.uncertain = false ∧
    ∀ graph, left.journal.graph = some graph → graph.brokerOutstanding = 0 ∧ graph.mappingsReady = false
  uncertain : world.journal.uncertain = true → (∃ failure, answer = .error failure) ∧ left = world

theorem ready_shape {journal left : Journal} (same : shape left = shape journal) (some : left.graph = some graph)
    (ready : graph.mappingsReady = true) : Ready journal graph.mappings := by
  unfold shape at same
  rw [some] at same
  obtain ⟨before,there,parts⟩ := Option.map_eq_some_iff.mp same.symm
  obtain ⟨mappings,flag⟩ := Prod.mk.inj parts
  exact ⟨before,there,flag.trans ready,mappings⟩

theorem kept_refused {world : World} {call : Call} (failure : Failure) : Kept world call (.error failure) world [] :=
  ⟨(append_nil _).symm,fun _ some ready => .inl (ready_shape rfl some ready),nofun,fun _ => ⟨⟨failure,rfl⟩,rfl⟩⟩

section
variable {io : Io} {journal : Journal} {log : List Exchange} {α : Type} {post : Except Failure α → World → Prop}

theorem Exact.regraph {graph' : Graph} {epoch root : U64} (exact : Exact ⟨journal,log⟩)
    (outstanding : graph'.brokerOutstanding = journal.leaves.length + journal.uncertain.toNat) :
    Exact ⟨{ journal with graph := some graph', epoch := epoch, root := root },log⟩ := by
  refine { exact with outstanding := fun other same => ?_, empty := nofun }
  cases same
  exact outstanding

variable {graph : Graph}

theorem mark_then {marks : Graph → List MemoryObject × Bool} {failure : Failure} {next : PUnit → Op α}
    (some : journal.graph = some graph)
    (fails : post (.error failure) ⟨{ journal with graph := Option.some { graph with objects := (marks graph).1 } },log⟩)
    (goes : Leaves (next ⟨⟩) ⟨{ journal with graph := Option.some { graph with objects := (marks graph).1 } },log⟩ post) :
    Leaves (mark marks failure >>= next) ⟨journal,log⟩ post := by
  rw [leaves_bind]
  apply current_then
  rw [some]
  apply setJournal_then
  rw [some,leaves_stopIf]
  exact ⟨fun _ => fails,fun _ => goes⟩

private theorem places_congr {graph' : Graph} (same : graph'.mappings = graph.mappings) : places graph' = places graph := by
  unfold places
  rw [same]

theorem Mapped.graph_of {left : World} {list : List Place} {answer : Except Failure Unit} {asked : List Exchange}
    (mapped : Mapped ⟨journal,log⟩ list answer left asked) (some : journal.graph = some graph) :
    ∃ graph', left.journal.graph = Option.some graph' ∧ graph'.mappings = graph.mappings ∧ graph'.mappingsReady = graph.mappingsReady := by
  have same := mapped.shape
  unfold Context0.shape at same
  rw [some] at same
  obtain ⟨graph',there,parts⟩ := Option.map_eq_some_iff.mp same
  exact ⟨graph',there,(Prod.mk.inj parts).1,(Prod.mk.inj parts).2⟩

private theorem brokerMap_leaves (graph : Graph) (resolve : Nat → U64 → Option U64) (epoch root : U64) (exact : Exact ⟨journal,log⟩) :
    Leaves (brokerMap io graph resolve epoch root) ⟨journal,log⟩ (fun answer left => Exact left ∧
      ∃ asked, Kept ⟨journal,log⟩ (.map graph resolve epoch root) answer left asked) := by
  apply current_then
  apply Leaves.check
  · intro refused
    exact ⟨exact,[],kept_refused _⟩
  intro goes
  simp only [not_or,not_not] at goes
  obtain ⟨empty,certain,-,-,-,valid⟩ := goes
  rw [Bool.not_eq_true] at certain
  have unheld : ∀ {answer : Except Failure Unit} {left : World}, journal.uncertain = true →
      (∃ failure, answer = .error failure) ∧ left = ⟨journal,log⟩ := fun wrong => by rw [certain] at wrong; cases wrong
  apply setJournal_then
  have start : Exact ⟨{ journal with graph := some graph, epoch := epoch, root := root },log⟩ := by
    apply exact.regraph
    rw [valid.2.2.2.2.1,empty,certain]
    exact rfl
  have distinct : (journal.leaves.map Leaf.va ++ (places graph).map Place.va).Nodup := by
    rw [empty]
    exact places_nodup valid
  refine (mapLeaves_leaves (places graph) start certain rfl distinct).bind (fun failure left mapped => ?_) (fun _ left mapped => ?_)
  · obtain ⟨asked,mapped⟩ := mapped
    refine ⟨mapped.exact,asked,mapped.log,fun graph' there ready => ?_,nofun,unheld⟩
    obtain ⟨other,same,-,flag⟩ := mapped.graph_of rfl
    rw [same] at there
    cases there
    rw [flag,valid.2.2.2.1] at ready
    cases ready
  obtain ⟨asked,mapped⟩ := mapped
  obtain ⟨graph',there,mappings,flag⟩ := mapped.graph_of rfl
  have queried := mapped.queried rfl
  have outstanding := mapped.exact.outstanding graph' there
  have unready : ∀ {objects : List MemoryObject}, Kept ⟨journal,log⟩ (.map graph resolve epoch root) (.error .invalid)
        ⟨{ left.journal with graph := some { graph' with objects := objects } },left.log⟩ asked := by
    intro objects
    refine ⟨mapped.log,fun other same ready => ?_,nofun,unheld⟩
    cases same
    rw [flag,valid.2.2.2.1] at ready
    cases ready
  apply mark_then there
  · exact ⟨mapped.exact.regraph outstanding,asked,unready⟩
  apply mark_then rfl
  · exact ⟨mapped.exact.regraph outstanding,asked,unready⟩
  refine ⟨mapped.exact.regraph outstanding,asked,mapped.log,fun other same ready => .inr (fun place mem => ?_),nofun,unheld⟩
  cases same
  exact queried place ((congrArg (place ∈ ·) (places_congr mappings)).mp mem)

private theorem verifyLeaves_leaves (leaves : List Leaf) (exact : Exact ⟨journal,log⟩) (certain : journal.uncertain = false)
    (some : journal.graph = some graph) :
    Leaves (verifyLeaves io leaves) ⟨journal,log⟩ (fun _ left => Exact left ∧ left.journal = journal ∧ ∃ asked, left.log = log ++ asked) := by
  induction leaves generalizing log with
  | nil => exact ⟨exact,rfl,[],(append_nil _).symm⟩
  | cons leaf rest ih =>
  apply Leaves.check
  · intro unmapped
    exact ⟨exact,rfl,[],(append_nil _).symm⟩
  intro mapped
  refine (queryLeaf_leaves exact certain some).bind (fun failure left queried => ?_) (fun _ left queried => ?_)
  · obtain ⟨asked,rfl,exact',-⟩ := queried
    exact ⟨exact',rfl,[asked],rfl⟩
  obtain ⟨asked,rfl,exact',-⟩ := queried
  refine (ih exact').mono (fun _ left' rest' => ?_)
  obtain ⟨exact'',same,asked',grown⟩ := rest'
  exact ⟨exact'',same,asked :: asked',grown.trans (append_assoc _ _ _)⟩

private theorem brokerVerify_leaves (exact : Exact ⟨journal,log⟩) :
    Leaves (brokerVerify io) ⟨journal,log⟩ (fun answer left => Exact left ∧ ∃ asked, Kept ⟨journal,log⟩ .verify answer left asked) := by
  apply current_then
  split
  · exact ⟨exact,[],kept_refused _⟩
  rename_i graph some
  apply Leaves.check
  · intro refused
    exact ⟨exact,[],kept_refused _⟩
  intro goes
  simp only [not_or] at goes
  have certain := Bool.eq_false_iff.mpr goes.2.1
  refine (verifyLeaves_leaves _ exact certain some).mono (fun answer left verified => ?_)
  obtain ⟨exact',same,asked,grown⟩ := verified
  refine ⟨exact',asked,grown,fun graph' there ready => .inl ?_,nofun,fun wrong => ?_⟩
  · rw [same] at there
    exact ⟨graph',there,ready,rfl⟩
  exact absurd wrong goes.2.1

private theorem brokerRetire_leaves (exact : Exact ⟨journal,log⟩) :
    Leaves (brokerRetire io) ⟨journal,log⟩ (fun answer left => Exact left ∧ ∃ asked, Kept ⟨journal,log⟩ .retire answer left asked) := by
  apply current_then
  apply Leaves.check
  · intro uncertain
    exact ⟨exact,[],kept_refused _⟩
  intro certain
  have unheld : ∀ {answer : Except Failure Unit} {left : World}, journal.uncertain = true →
      (∃ failure, answer = .error failure) ∧ left = ⟨journal,log⟩ := fun wrong => absurd wrong certain
  have certain := Bool.eq_false_iff.mpr certain
  split
  · rename_i none
    rw [leaves_stopIf]
    refine ⟨fun leaves => absurd (exact.empty none).1 leaves,fun empty => ⟨exact,[],?_⟩⟩
    refine ⟨(append_nil _).symm,fun graph some => ?_,fun _ _ => ⟨(exact.empty none).1,certain,fun graph some => ?_⟩,unheld⟩
    all_goals
      rw [none] at some
      cases some
  rename_i graph some
  have there : journal.graph ≠ none := by
    rw [some]
    nofun
  refine (retireLeaves_leaves _ exact certain there rfl).bind (fun failure left retired => ?_) (fun _ left retired => ?_)
  · obtain ⟨asked,grown⟩ := retired.log
    exact ⟨retired.exact,asked,grown,fun graph' some' ready => .inl (ready_shape retired.shape some' ready),nofun,unheld⟩
  obtain ⟨asked,grown⟩ := retired.log
  have same := retired.shape
  unfold shape at same
  rw [some] at same
  obtain ⟨graph',some',-⟩ := Option.map_eq_some_iff.mp same
  have outstanding := retired.exact.outstanding graph' some'
  have zero := outstanding
  rw [retired.leaves rfl,retired.certain] at zero
  have left_exact : ∀ graph : Graph, graph.brokerOutstanding = graph'.brokerOutstanding →
      Exact ⟨{ left.journal with graph := Option.some graph },left.log⟩ :=
    fun graph same => retired.exact.regraph (same.trans outstanding)
  apply mark_then some'
  · refine ⟨left_exact _ rfl,asked,grown,fun other same ready => .inl ?_,nofun,unheld⟩
    cases same
    have before : Ready journal graph'.mappings := ready_shape retired.shape some' ready
    exact before
  refine ⟨left_exact _ rfl,asked,grown,fun other same ready => ?_,fun _ _ => ⟨retired.leaves rfl,retired.certain,fun other same => ?_⟩,unheld⟩
  · cases same
    cases ready
  cases same
  exact ⟨zero,rfl⟩

theorem act_leaves (call : Call) (exact : Exact ⟨journal,log⟩) :
    Leaves (act io call) ⟨journal,log⟩ (fun answer left => Exact left ∧ ∃ asked, Kept ⟨journal,log⟩ call answer left asked) := by
  cases call with
  | map graph resolve epoch root => exact brokerMap_leaves graph resolve epoch root exact
  | verify => exact brokerVerify_leaves exact
  | retire => exact brokerRetire_leaves exact

end

theorem fresh_exact : Exact fresh := by
  refine ⟨rfl,⟨nofun,fun ⟨_,mem,_⟩ => nomatch mem⟩,nofun,fun _ => ⟨rfl,rfl⟩,nodup_nil,fun before exchange after parts => ?_⟩
  have wrong := congrArg length parts
  simp [fresh] at wrong
theorem run_exact (io : Io) (calls : List Call) (world : World) (exact : Exact world) : Exact (runCalls io calls world) := by
  induction calls generalizing world with
  | nil => exact exact
  | cons call rest ih => exact ih _ (@act_leaves io world.journal world.log call exact).1

/-- In every state of every run the journal and the graph's count are what the broker's answers
tell, and every call keeps to the rules on what it asks, on readiness and on retirement. -/
theorem context0_never_guessed (io : Io) (calls : List Call) : Exact (runCalls io calls fresh) ∧ ∀ call, ∃ asked,
      Kept (runCalls io calls fresh) call (act io call (runCalls io calls fresh)).1 (act io call (runCalls io calls fresh)).2 asked := by
  have exact := run_exact io calls fresh fresh_exact
  exact ⟨exact,fun call => (act_leaves call exact).2⟩

/-- The addresses of a graph with one leaf for each of its mappings. -/
def plainAddress (index : Nat) : U64 := 0x1000000000 + BitVec.ofNat 64 (0x4000 * index)

def plainGraph : Graph where
  initialized := true
  built := true
  brokerOnly := true
  mappingsReady := false
  brokerOutstanding := 0
  ttbr0PhysicalAddress := 0
  ttbr1PhysicalAddress := 0
  ttbr0 := 0
  ttbr1 := 0
  pageCount := 0
  mappings := (List.range 94).map (fun index => ⟨0,plainAddress index,plainAddress index,0x4000,.firmwareSharedReadWrite,index⟩)
  objects := (List.range 94).map (fun index => ⟨1,plainAddress index,0x4000,0,0,0,0,0,.prepared⟩)
  channelMemory := (List.range 35).map (fun index => (8 + index,plainAddress (8 + index)))
  renderSharedMemory := (List.range 40).map (fun index => (54 + index,plainAddress (54 + index)))

/-- Only the first mapping can be resolved. -/
def firstOnly (range : Nat) (_ : U64) : Option U64 := if range = 0 then some 0x4000 else none

/-- A broker whose response area keeps an old refusal. -/
def staleIo : Io := ⟨true,fun _ _ address => if address = 0x688 then 5 else 0⟩

/-- A broker that answers everything with success and the number one. -/
def countingIo : Io := ⟨true,fun log asked address =>
  if address = 0x680 then BitVec.ofNat 64 log.length + (if asked.isSome then 1 else 0)
  else if address = 0x688 then 0x600000000
  else if address = 0x690 ∨ address = 0x6c8 then 1
  else if address = 0x698 then 0x4000
  else if address = 0x6b8 then 7
  else if address = 0x6c0 then plainAddress 0
  else 0⟩

/-- Maps whose answers were never given leave no doubt, and an unmap with a success is asked again. -/
theorem stale_refusal_believed :
    (let world := runCalls staleIo [.map plainGraph firstOnly 1 0x4000,.map plainGraph firstOnly 1 0x4000] fresh;
      world.journal.uncertain = false ∧
      world.log.map (fun asked => (asked.request.command,decide (asked.last.receipt = asked.request.sequence))) =
        [(commandMap,false),(commandMap,false)]) ∧
    (let world := runCalls countingIo [.map plainGraph firstOnly 1 0x4000,.retire,.retire] fresh;
      world.log.map (fun asked => (asked.request.command,decide asked.Accepted)) =
        [(commandMap,true),(commandQuery,true),(commandUnmap,true),(commandUnmap,true)]) := by
  decide +kernel

end WindowsOnM1.Context0
