import WindowsOnM1.Context0Model

/-!
What each exchange and each loop of the context-0 broker keeps: the journal shows the leaves
that the broker's answers leave mapped.
-/
namespace WindowsOnM1.Context0
open Attempts List

/-- A mapping that the broker has acknowledged, and whether it has acknowledged that it is unmapped. -/
structure Held where
  va : U64
  ipa : U64
  handle : U64
  unmapped : Bool
  deriving DecidableEq

def Held.Named (held : Held) (request : Request) : Prop :=
  held.va = request.va ∧ held.ipa = request.ipa ∧ held.handle = request.handle
instance (held : Held) (request : Request) : Decidable (held.Named request) := inferInstanceAs (Decidable (_ ∧ _))

def heldBy (held : List Held) (exchange : Exchange) : List Held :=
  if exchange.request.command = commandMap then
    if exchange.Accepted ∧ exchange.last.handle ≠ 0 then
      held ++ [⟨exchange.request.va,exchange.request.ipa,exchange.last.handle,false⟩]
    else held
  else if exchange.request.command = commandUnmap then
    if exchange.Counts (held.length - 1) then
      held.map (fun one => if one.Named exchange.request then { one with unmapped := true } else one)
    else held
  else if exchange.request.command = commandVerifyAbsent then
    if exchange.Counts (held.length - 1) then held.filter (fun one => ¬ one.Named exchange.request) else held
  else held

/-- The leaves that are mapped and not known to be absent. -/
def held (log : List Exchange) : List Held := log.foldl heldBy []

/-- A map that may have been carried out under a handle that is not known. -/
def Exchange.Doubtful (exchange : Exchange) : Prop :=
  exchange.request.command = commandMap ∧
    (¬ exchange.Accepted ∧ (exchange.last.status = 0 ∨ exchange.last.handle ≠ 0) ∨ exchange.Accepted ∧ exchange.last.handle = 0)

/-- What may be asked behind the exchanges of a log. -/
structure Sent (before : List Exchange) (exchange : Exchange) : Prop where
  certain : ∀ earlier ∈ before, ¬ earlier.Doubtful
  unmap : exchange.request.command = commandUnmap →
    ⟨exchange.request.va,exchange.request.ipa,exchange.request.handle,false⟩ ∈ held before

def Leaf.shown (leaf : Leaf) : Held := ⟨leaf.va,leaf.ipa,leaf.handle,decide (leaf.state = .unmapped)⟩

/-- The journal is what the answers tell, and the graph counts it. -/
structure Exact (world : World) : Prop where
  leaves : world.journal.leaves.map Leaf.shown = held world.log
  uncertain : world.journal.uncertain = true ↔ ∃ exchange ∈ world.log, exchange.Doubtful
  outstanding : ∀ graph, world.journal.graph = some graph →
    graph.brokerOutstanding = world.journal.leaves.length + world.journal.uncertain.toNat
  empty : world.journal.graph = none → world.journal.leaves = [] ∧ world.journal.uncertain = false
  distinct : (world.journal.leaves.map Leaf.va).Nodup
  sent : ∀ before exchange after, world.log = before ++ exchange :: after → Sent before exchange

private theorem held_append (log : List Exchange) (asked : Exchange) : held (log ++ [asked]) = heldBy (held log) asked := by
  unfold held
  rw [foldl_append]
  rfl

variable {log : List Exchange} {asked : Exchange}

private theorem sent_append
    (sent : ∀ before exchange after, log = before ++ exchange :: after → Sent before exchange) (next : Sent log asked) :
    ∀ before exchange after, log ++ [asked] = before ++ exchange :: after → Sent before exchange := by
  intro before exchange after parts
  rcases eq_nil_or_concat after with rfl | ⟨init,last,rfl⟩
  · obtain ⟨rfl,same⟩ := append_inj' parts rfl
    cases same
    exact next
  rw [concat_eq_append,← cons_append,← append_assoc] at parts
  obtain ⟨same,-⟩ := append_inj' parts rfl
  exact sent before exchange init same

private theorem doubtful_append :
    (∃ exchange ∈ log ++ [asked], exchange.Doubtful) ↔ (∃ exchange ∈ log, exchange.Doubtful) ∨ asked.Doubtful := by
  constructor
  · rintro ⟨exchange,mem,doubtful⟩
    rcases mem_append.mp mem with mem | mem
    · exact .inl ⟨exchange,mem,doubtful⟩
    rw [mem_singleton.mp mem] at doubtful
    exact .inr doubtful
  rintro (⟨exchange,mem,doubtful⟩ | doubtful)
  · exact ⟨exchange,mem_append_left _ mem,doubtful⟩
  exact ⟨asked,mem_append_right _ mem_cons_self,doubtful⟩

theorem doubtful_map (doubtful : asked.Doubtful) : asked.request.command = commandMap := doubtful.1

/-- What is asked of the broker about a leaf. -/
structure Asked (journal : Journal) (command : U32) (leaf : Leaf) (asked : Exchange) : Prop where
  operation : asked.request.command = command
  epoch : asked.request.epoch = journal.epoch
  root : asked.root = journal.root
  va : asked.request.va = leaf.va
  ipa : asked.request.ipa = leaf.ipa
  handle : command ≠ commandMap → asked.request.handle = leaf.handle

section
variable {io : Io} {journal : Journal} {log : List Exchange} {α : Type} {post : Except Failure α → World → Prop}

theorem exchange_then {command : U32} {leaf : Leaf} {next : Exchange → Op α}
    (goes : ∀ asked, Asked journal command leaf asked → Leaves (next asked) ⟨journal,log ++ [asked]⟩ post) :
    Leaves (exchange io command leaf >>= next) ⟨journal,log⟩ post := by
  have asked : ∀ request, request.command = command → request.epoch = journal.epoch → request.va = leaf.va → request.ipa = leaf.ipa →
      (command ≠ commandMap → request.handle = leaf.handle) →
      Asked journal command leaf ⟨(retainedExchange io log request).1,journal.root,(retainedExchange io log request).2⟩ := by
    intro request same epoch va ipa handle
    unfold retainedExchange
    split
    · exact ⟨same,epoch,rfl,va,ipa,handle⟩
    dsimp only
    split <;> exact ⟨same,epoch,rfl,va,ipa,handle⟩
  exact goes _ (asked _ rfl rfl rfl rfl (fun other => if_neg other))

theorem current_then {next : World → Op α} {world : World} (goes : Leaves (next world) world post) :
    Leaves (current >>= next) world post := by
  exact goes
theorem setJournal_then {update : Journal → Journal} {next : PUnit → Op α} (goes : Leaves (next ⟨⟩) ⟨update journal,log⟩ post) :
    Leaves (setJournal update >>= next) ⟨journal,log⟩ post := by
  exact goes

end

theorem Exact.append {journal left : Journal} {log : List Exchange} {asked : Exchange} (exact : Exact ⟨journal,log⟩)
    (certain : journal.uncertain = false) (unmap : asked.request.command = commandUnmap →
      ⟨asked.request.va,asked.request.ipa,asked.request.handle,false⟩ ∈ journal.leaves.map Leaf.shown)
    (leaves : left.leaves.map Leaf.shown = heldBy (journal.leaves.map Leaf.shown) asked)
    (uncertain : left.uncertain = true ↔ asked.Doubtful)
    (outstanding : ∀ graph, left.graph = some graph → graph.brokerOutstanding = left.leaves.length + left.uncertain.toNat)
    (graph : left.graph ≠ none) (distinct : (left.leaves.map Leaf.va).Nodup) : Exact ⟨left,log ++ [asked]⟩ := by
  have quiet : ¬ ∃ exchange ∈ log, exchange.Doubtful := by
    intro doubtful
    have wrong := exact.uncertain.mpr doubtful
    rw [certain] at wrong
    cases wrong
  constructor
  · rw [held_append,← exact.leaves,leaves]
  · rw [doubtful_append,or_iff_right quiet]
    exact uncertain
  · exact outstanding
  · intro none
    exact absurd none graph
  · exact distinct
  refine sent_append exact.sent ⟨fun earlier mem doubtful => quiet ⟨earlier,mem,doubtful⟩,fun same => ?_⟩
  rw [← exact.leaves]
  exact unmap same

def shape (journal : Journal) : Option (List Mapping × Bool) := journal.graph.map (fun graph => (graph.mappings,graph.mappingsReady))

/-- A leaf that the broker has answered for, with its own physical address. -/
def Queried (place : Place) (exchange : Exchange) : Prop :=
  exchange.request.command = commandQuery ∧ exchange.Accepted ∧ exchange.request.va = place.va ∧ exchange.last.pa = place.pa

/-- What the loop over some places of a graph leaves. -/
structure Mapped (world : World) (places : List Place) (answer : Except Failure Unit) (left : World) (asked : List Exchange) :
    Prop where
  exact : Exact left
  log : left.log = world.log ++ asked
  shape : shape left.journal = shape world.journal
  certain : answer = .ok ⟨⟩ → left.journal.uncertain = false
  leaves : answer = .ok ⟨⟩ → left.journal.leaves.map Leaf.va = world.journal.leaves.map Leaf.va ++ places.map Place.va
  queried : answer = .ok ⟨⟩ → ∀ place ∈ places, ∃ exchange ∈ asked, Queried place exchange

theorem mapped_error {world left : World} {places : List Place} {asked : List Exchange} (failure : Failure) (exact : Exact left)
    (log : left.log = world.log ++ asked) (same : shape left.journal = shape world.journal) :
    Mapped world places (.error failure) left asked :=
  ⟨exact,log,same,nofun,nofun,nofun⟩

section
variable {io : Io} {journal : Journal} {log : List Exchange}

variable {leaf : Leaf} {asked : Exchange} {graph : Graph}

section
variable (exact : Exact ⟨journal,log⟩) (certain : journal.uncertain = false) (some : journal.graph = some graph)
include exact certain some

private theorem exact_query (query : Asked journal commandQuery leaf asked) : Exact ⟨journal,log ++ [asked]⟩ := by
  have same := query.operation
  apply exact.append certain
  · intro other
    rw [same] at other
    cases other
  · unfold heldBy
    rw [same,if_neg (by decide),if_neg (by decide),if_neg (by decide)]
  · rw [certain]
    refine ⟨nofun,fun doubtful => ?_⟩
    have other := doubtful_map doubtful
    rw [same] at other
    cases other
  · exact exact.outstanding
  · rw [some]
    nofun
  exact exact.distinct

theorem queryLeaf_leaves :
    Leaves (queryLeaf io leaf) ⟨journal,log⟩ (fun answer left => ∃ asked, left = ⟨journal,log ++ [asked]⟩ ∧ Exact left ∧
      (answer = .ok ⟨⟩ → asked.request.command = commandQuery ∧ asked.Accepted ∧ asked.request.va = leaf.va ∧ asked.last.pa = leaf.pa)) := by
  apply current_then
  apply exchange_then
  intro asked query
  have next := exact_query exact certain some query
  rw [leaves_stopIf]
  constructor
  · intro refused
    exact ⟨asked,rfl,next,nofun⟩
  intro seen
  rw [not_not] at seen
  exact ⟨asked,rfl,next,fun _ => ⟨query.operation,seen.1.1,query.va,seen.2⟩⟩

end

variable {left : Journal}

section
variable (exact : Exact ⟨journal,log⟩) (certain : journal.uncertain = false) (some : journal.graph = some graph)
include exact certain some

theorem exact_unmapped (map : Asked journal commandMap leaf asked)
    (unheld : ¬ (asked.Accepted ∧ asked.last.handle ≠ 0)) (uncertain : left.uncertain = true ↔ asked.Doubtful)
    (leaves : left.leaves = journal.leaves)
    (outstanding : left.graph = Option.some { graph with brokerOutstanding := graph.brokerOutstanding + left.uncertain.toNat }) :
    Exact ⟨left,log ++ [asked]⟩ := by
  apply exact.append certain
  · intro other
    rw [map.operation] at other
    cases other
  · unfold heldBy
    rw [map.operation,if_pos rfl,if_neg unheld,leaves]
  · exact uncertain
  · intro graph' same
    rw [outstanding] at same
    cases same
    have before := exact.outstanding graph some
    rw [certain] at before
    rw [before,leaves]
    rfl
  · rw [outstanding]
    nofun
  rw [leaves]
  exact exact.distinct

private theorem exact_mapped (map : Asked journal commandMap leaf asked)
    (accepted : asked.Accepted) (handle : asked.last.handle ≠ 0) (certain' : left.uncertain = false)
    (leaves : left.leaves = journal.leaves ++ [{ leaf with handle := asked.last.handle, state := .mapped }])
    (outstanding : left.graph = Option.some { graph with brokerOutstanding := graph.brokerOutstanding + 1 })
    (new : leaf.va ∉ journal.leaves.map Leaf.va) : Exact ⟨left,log ++ [asked]⟩ := by
  apply exact.append certain
  · intro other
    rw [map.operation] at other
    cases other
  · unfold heldBy
    rw [map.operation,if_pos rfl,if_pos ⟨accepted,handle⟩,leaves,map_append,map.va,map.ipa]
    rfl
  · rw [certain']
    refine ⟨nofun,fun doubtful => ?_⟩
    rcases doubtful.2 with ⟨refused,-⟩ | ⟨-,zero⟩
    · exact absurd accepted refused
    exact absurd zero handle
  · intro graph' same
    rw [outstanding] at same
    cases same
    have before := exact.outstanding graph some
    rw [certain] at before
    rw [before,leaves,certain',length_append]
    rfl
  · rw [outstanding]
    nofun
  rw [leaves,map_append,nodup_append]
  refine ⟨exact.distinct,nodup_singleton _,fun va mem other mem' same => new ?_⟩
  rw [map_singleton,mem_singleton] at mem'
  subst same mem'
  exact mem

private theorem mapLeaf_leaves {place : Place} {ipa : U64} (new : place.va ∉ journal.leaves.map Leaf.va) :
    Leaves (mapLeaf io place ipa) ⟨journal,log⟩ (fun answer left => ∃ asked, Mapped ⟨journal,log⟩ [place] answer left asked) := by
  apply Leaves.check
  · intro unaligned
    exact ⟨[],mapped_error _ exact (append_nil _).symm rfl⟩
  intro aligned
  apply exchange_then
  intro asked map
  split
  · rename_i accepted
    split
    · rename_i zero
      apply setJournal_then
      refine ⟨[asked],mapped_error _ (exact_unmapped exact certain some map (fun both => both.2 zero) ⟨fun _ => ⟨map.operation,.inr ⟨accepted,zero⟩⟩,fun _ => rfl⟩ rfl ?_) rfl ?_⟩
      · rw [some]
        rfl
      unfold shape
      rw [some]
      rfl
    rename_i handle
    apply setJournal_then
    have added : Exact ⟨{ journal with
        leaves := journal.leaves ++ [⟨place.va,ipa,place.pa,asked.last.handle,place.range,.mapped⟩]
        graph := journal.graph.map (fun graph => { graph with brokerOutstanding := graph.brokerOutstanding + 1 }) },log ++ [asked]⟩ :=
      exact_mapped exact certain some map accepted handle certain rfl (by rw [some]; rfl) new
    have same : shape { journal with
        leaves := journal.leaves ++ [⟨place.va,ipa,place.pa,asked.last.handle,place.range,.mapped⟩]
        graph := journal.graph.map (fun graph => { graph with brokerOutstanding := graph.brokerOutstanding + 1 }) } = shape journal := by
      unfold shape
      rw [some]
      rfl
    apply current_then
    apply Leaves.check
    · intro other
      exact ⟨[asked],mapped_error _ added rfl same⟩
    intro counted
    refine (queryLeaf_leaves added certain (by rw [some]; rfl)).mono (fun answer left queried => ?_)
    obtain ⟨seen,rfl,exact',query⟩ := queried
    refine ⟨[asked,seen],exact',append_assoc _ _ _,same,fun _ => certain,fun _ => map_append,fun ok place' mem => ?_⟩
    rw [mem_singleton.mp mem]
    exact ⟨seen,mem_cons_of_mem _ mem_cons_self,query ok⟩
  rename_i refused
  unfold refuseMap
  split
  · rename_i doubtful
    apply setJournal_then
    refine ⟨[asked],mapped_error _ (exact_unmapped exact certain some map (fun both => refused both.1)
      ⟨fun _ => ⟨map.operation,.inl ⟨refused,doubtful⟩⟩,fun _ => rfl⟩ rfl ?_) rfl ?_⟩
    · rw [some]
      rfl
    unfold shape
    rw [some]
    rfl
  rename_i clear
  refine ⟨[asked],mapped_error _ (exact_unmapped exact certain some map (fun both => refused both.1) ?_ rfl ?_) rfl rfl⟩
  · rw [certain]
    refine ⟨nofun,fun doubtful => ?_⟩
    rcases doubtful.2 with ⟨-,possible⟩ | ⟨accepted,-⟩
    · exact absurd possible clear
    exact absurd accepted refused
  rw [some,certain]
  rfl

end

theorem mapLeaves_leaves {resolve : Nat → U64 → Option U64} (places : List Place) (exact : Exact ⟨journal,log⟩)
    (certain : journal.uncertain = false) (some : journal.graph = some graph)
    (new : (journal.leaves.map Leaf.va ++ places.map Place.va).Nodup) :
    Leaves (mapLeaves io resolve places) ⟨journal,log⟩ (fun answer left => ∃ asked, Mapped ⟨journal,log⟩ places answer left asked) := by
  induction places generalizing journal log graph with
  | nil => exact ⟨[],exact,(append_nil _).symm,rfl,fun _ => certain,fun _ => (append_nil _).symm,nofun⟩
  | cons place rest ih =>
  unfold mapLeaves
  split
  · exact ⟨[],mapped_error _ exact (append_nil _).symm rfl⟩
  rw [map_cons,append_cons] at new
  have first := (nodup_append.mp new).1
  have fresh : place.va ∉ journal.leaves.map Leaf.va :=
    fun mem => (nodup_append.mp first).2.2 _ mem _ mem_cons_self rfl
  refine (mapLeaf_leaves exact certain some fresh).bind (fun failure left mapped => ?_) (fun _ left mapped => ?_)
  · obtain ⟨asked,mapped⟩ := mapped
    exact ⟨asked,mapped_error _ mapped.exact mapped.log mapped.shape⟩
  obtain ⟨asked,mapped⟩ := mapped
  have there : ∃ graph', left.journal.graph = Option.some graph' := by
    have same := mapped.shape
    unfold shape at same
    rw [some] at same
    cases here : left.journal.graph with
    | none => rw [here] at same; cases same
    | some graph' => exact ⟨graph',rfl⟩
  obtain ⟨graph',there⟩ := there
  have leaves := mapped.leaves rfl
  refine (ih mapped.exact (mapped.certain rfl) there (by rw [leaves]; exact new)).mono (fun answer left' rest' => ?_)
  obtain ⟨asked',rest'⟩ := rest'
  refine ⟨asked ++ asked',rest'.exact,?_,rest'.shape.trans mapped.shape,rest'.certain,fun ok => ?_,fun ok place' mem => ?_⟩
  · rw [rest'.log]
    rw [mapped.log,append_assoc]
  · rw [rest'.leaves ok]
    rw [leaves,append_assoc]
    rfl
  rcases mem_cons.mp mem with rfl | mem
  · obtain ⟨exchange,among,queried⟩ := mapped.queried rfl place' mem_cons_self
    exact ⟨exchange,mem_append_left _ among,queried⟩
  obtain ⟨exchange,among,queried⟩ := rest'.queried ok place' mem
  exact ⟨exchange,mem_append_right _ among,queried⟩

private theorem shown_va {leaves : List Leaf} (leaf : Leaf) (distinct : (leaves.map Leaf.va ++ [leaf.va]).Nodup) {request : Request}
    (va : request.va = leaf.va) : ∀ one ∈ leaves.map Leaf.shown, ¬ one.Named request := by
  intro one mem named
  obtain ⟨earlier,among,rfl⟩ := mem_map.mp mem
  have same : earlier.va = leaf.va := named.1.trans va
  exact (nodup_append.mp distinct).2.2 _ (mem_map_of_mem among) _ mem_cons_self same

/-- The journal with its last leaf apart. -/
structure Last (journal : Journal) (others : List Leaf) (leaf : Leaf) : Prop where
  leaves : journal.leaves = others ++ [leaf]
  certain : journal.uncertain = false
  graph : journal.graph ≠ none

variable {others : List Leaf}

theorem Last.distinct (last : Last journal others leaf) (exact : Exact ⟨journal,log⟩) :
    (others.map Leaf.va ++ [leaf.va]).Nodup := by
  have all := exact.distinct
  rw [last.leaves,map_append] at all
  exact all

variable {command : U32}

private theorem named_shown (about : Asked journal command leaf asked)
    (other : command ≠ commandMap) : leaf.shown.Named asked.request :=
  ⟨about.va.symm,about.ipa.symm,(about.handle other).symm⟩

section
variable (exact : Exact ⟨journal,log⟩) (last : Last journal others leaf) (about : Asked journal command leaf asked)
include exact last about

theorem exact_same (retiring : command = commandVerifyAbsent ∨ command = commandUnmap ∧ leaf.state = .mapped)
    (refused : ¬ asked.Counts others.length) : Exact ⟨journal,log ++ [asked]⟩ := by
  have same := about.operation
  have length : (journal.leaves.map Leaf.shown).length - 1 = others.length := by
    rw [last.leaves]
    simp
  have other : command ≠ commandMap := by
    rcases retiring with rfl | ⟨rfl,-⟩ <;> decide
  apply exact.append last.certain
  · intro unmap
    rw [same] at unmap
    subst unmap
    rcases retiring with wrong | ⟨-,mapped⟩
    · cases wrong
    rw [about.va,about.ipa,about.handle other]
    refine mem_map.mpr ⟨leaf,?_,?_⟩
    · rw [last.leaves]
      exact mem_append_right _ mem_cons_self
    unfold Leaf.shown
    rw [mapped]
    rfl
  · unfold heldBy
    rw [same,if_neg other,length,if_neg refused,if_neg refused,ite_self,ite_self]
  · rw [last.certain]
    refine ⟨nofun,fun doubtful => ?_⟩
    rw [← same] at other
    exact absurd (doubtful_map doubtful) other
  · exact exact.outstanding
  · exact last.graph
  exact exact.distinct

theorem exact_retired (retiring : command = commandVerifyAbsent ∧ left.leaves = others ∨
      command = commandUnmap ∧ leaf.state = .mapped ∧ left.leaves = others ++ [{ leaf with state := .unmapped }])
    (counts : asked.Counts others.length) (certain : left.uncertain = false)
    (outstanding : ∀ graph, left.graph = some graph → graph.brokerOutstanding = left.leaves.length) (graph : left.graph ≠ none) :
    Exact ⟨left,log ++ [asked]⟩ := by
  have same := about.operation
  have shown : journal.leaves.map Leaf.shown = others.map Leaf.shown ++ [leaf.shown] := by
    rw [last.leaves,map_append]
    rfl
  have length : (journal.leaves.map Leaf.shown).length - 1 = others.length := by
    rw [last.leaves]
    simp
  have other : command ≠ commandMap := by
    rcases retiring with ⟨rfl,-⟩ | ⟨rfl,-⟩ <;> decide
  have unnamed := shown_va leaf (last.distinct exact) about.va
  have named := named_shown about other
  apply exact.append last.certain
  · intro unmap
    rw [same] at unmap
    subst unmap
    rcases retiring with ⟨wrong,-⟩ | ⟨-,mapped,-⟩
    · cases wrong
    rw [shown,about.va,about.ipa,about.handle other]
    refine mem_append_right _ (mem_singleton.mpr ?_)
    unfold Leaf.shown
    rw [mapped]
    rfl
  · unfold heldBy
    rcases retiring with ⟨rfl,leaves⟩ | ⟨rfl,mapped,leaves⟩
    · rw [same,if_neg (by decide),if_neg (by decide),if_pos rfl,length,if_pos counts,shown,leaves,filter_append]
      have keeps : (others.map Leaf.shown).filter (fun one => ¬ one.Named asked.request) = others.map Leaf.shown :=
        filter_eq_self.mpr (fun one mem => decide_eq_true (unnamed one mem))
      rw [keeps,filter_singleton]
      simp [named]
    rw [same,if_neg (by decide),if_pos rfl,length,if_pos counts,shown,leaves,map_append,map_append]
    have keeps : (others.map Leaf.shown).map (fun one => if one.Named asked.request then { one with unmapped := true } else one) =
        others.map Leaf.shown := by
      refine (map_congr_left (fun one mem => ?_)).trans (map_id _)
      exact if_neg (unnamed one mem)
    rw [keeps,map_singleton,map_singleton,if_pos named]
    rfl
  · rw [certain]
    refine ⟨nofun,fun doubtful => ?_⟩
    rw [← same] at other
    exact absurd (doubtful_map doubtful) other
  · intro graph' some
    rw [outstanding graph' some,certain]
    rfl
  · exact graph
  have distinct := last.distinct exact
  rcases retiring with ⟨-,leaves⟩ | ⟨-,-,leaves⟩
  · rw [leaves]
    exact (nodup_append.mp distinct).1
  rw [leaves,map_append]
  exact distinct

end

/-- What retiring leaves, as far as it gets. -/
structure Retired (world : World) (answer : Except Failure Unit) (left : World) (leaves : List Leaf) : Prop where
  exact : Exact left
  log : ∃ asked, left.log = world.log ++ asked
  shape : shape left.journal = shape world.journal
  certain : left.journal.uncertain = false
  leaves : answer = .ok ⟨⟩ → left.journal.leaves = leaves

theorem Last.graph_of (last : Last journal others leaf) (same : shape left = shape journal) : left.graph ≠ none := by
  intro none
  unfold shape at same
  rw [none] at same
  exact last.graph (Option.map_eq_none_iff.mp same.symm)

theorem verifyAbsent_leaves {leaf : Leaf} {others : List Leaf} (exact : Exact ⟨journal,log⟩) (last : Last journal others leaf) :
    Leaves (verifyAbsent io leaf others) ⟨journal,log⟩ (fun answer left => Retired ⟨journal,log⟩ answer left others) := by
  apply exchange_then
  intro asked about
  apply Leaves.check
  · intro refused
    exact ⟨exact_same exact last about (.inl rfl) refused,⟨[asked],rfl⟩,rfl,last.certain,nofun⟩
  intro counts
  rw [not_not] at counts
  have same : shape { journal with
      leaves := others
      graph := journal.graph.map (fun graph => { graph with brokerOutstanding := graph.brokerOutstanding - 1 }) } = shape journal := by
    unfold shape
    rw [Option.map_map]
    rfl
  refine ⟨exact_retired exact last about (.inl ⟨rfl,rfl⟩) counts last.certain (fun graph some => ?_) (last.graph_of same),
    ⟨[asked],rfl⟩,same,last.certain,fun _ => rfl⟩
  obtain ⟨graph',there,rfl⟩ := Option.map_eq_some_iff.mp some
  have before := exact.outstanding graph' there
  rw [before]
  rw [last.leaves,last.certain,length_append]
  rfl

private theorem retireLeaf_leaves (exact : Exact ⟨journal,log⟩) (last : Last journal others leaf) :
    Leaves (retireLeaf io leaf others) ⟨journal,log⟩ (fun answer left => Retired ⟨journal,log⟩ answer left others) := by
  unfold retireLeaf
  split
  · rename_i mapped
    rw [leaves_bind]
    apply exchange_then
    intro asked about
    apply Leaves.check
    · intro refused
      exact ⟨exact_same exact last about (.inr ⟨rfl,mapped⟩) refused,⟨[asked],rfl⟩,rfl,last.certain,nofun⟩
    intro counts
    rw [not_not] at counts
    have unmapped : Exact ⟨{ journal with leaves := others ++ [{ leaf with state := .unmapped }] },log ++ [asked]⟩ := by
      refine exact_retired exact last about (.inr ⟨rfl,mapped,rfl⟩) counts last.certain (fun graph some => ?_) last.graph
      have before := exact.outstanding graph some
      rw [before]
      rw [last.leaves,last.certain,length_append,length_append]
      rfl
    have absent := @verifyAbsent_leaves io _ _ { leaf with state := .unmapped } others unmapped
      ⟨rfl,last.certain,last.graph⟩
    have goes : Leaves (verifyAbsent io leaf others) ⟨{ journal with leaves := others ++ [{ leaf with state := .unmapped }] },log ++ [asked]⟩
        (fun answer left => Retired ⟨journal,log⟩ answer left others) := by
      refine absent.mono (fun answer left retired => ?_)
      obtain ⟨asked',grown⟩ := retired.log
      exact { retired with log := ⟨asked :: asked',grown.trans (append_assoc _ _ _)⟩ }
    exact goes
  exact verifyAbsent_leaves exact last

theorem retireLeaves_leaves (count : Nat) (exact : Exact ⟨journal,log⟩) (certain : journal.uncertain = false)
    (graph : journal.graph ≠ none) (length : journal.leaves.length = count) :
    Leaves (retireLeaves io count) ⟨journal,log⟩ (fun answer left => Retired ⟨journal,log⟩ answer left []) := by
  induction count generalizing journal log with
  | zero => exact ⟨exact,⟨[],(append_nil _).symm⟩,rfl,certain,fun _ => length_eq_zero_iff.mp length⟩
  | succ count ih =>
  apply current_then
  rcases eq_nil_or_concat journal.leaves with none | ⟨others,leaf,some⟩
  · rw [none] at length
    cases length
  rw [concat_eq_append] at some
  rw [some,getLast?_append,dropLast_concat]
  have last : Last journal others leaf := ⟨some,certain,graph⟩
  have shorter : others.length = count := by
    rw [some,length_append] at length
    exact Nat.succ.inj length
  refine (retireLeaf_leaves exact last).bind (fun failure left retired => ?_) (fun _ left retired => ?_)
  · exact { retired with leaves := nofun }
  obtain ⟨asked,grown⟩ := retired.log
  refine (ih retired.exact retired.certain (last.graph_of retired.shape) (by rw [retired.leaves rfl,shorter])).mono
    (fun answer left' rest => ?_)
  obtain ⟨asked',grown'⟩ := rest.log
  refine ⟨rest.exact,⟨asked ++ asked',?_⟩,rest.shape.trans retired.shape,rest.certain,rest.leaves⟩
  rw [grown']
  rw [grown,append_assoc]

end

end WindowsOnM1.Context0
