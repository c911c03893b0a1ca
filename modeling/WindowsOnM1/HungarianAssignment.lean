import Mathlib.Order.Interval.Finset.Nat
import WindowsOnM1.CountedLoop

/-!
The assignment of rows to columns along shortest augmenting paths, with potentials.
Rows and columns are counted from one; column zero holds the row that is being placed,
and a column that holds row zero is free.
-/
namespace WindowsOnM1.Hungarian
open CountedLoop List Function

structure Search where
  u : Nat → Int
  v : Nat → Int
  minv : Nat → Int
  way : Nat → Nat
  used : Nat → Bool

/-- One look at the columns: the least reduced cost, and the column that has it. -/
structure Scan where
  minv : Nat → Int
  way : Nat → Nat
  delta : Int
  column : Nat

section
variable (cost : Nat → Nat → Int) (limit : Int) (columns : Nat) (p : Nat → Nat)

/-- The reduced cost of a column for the row that a column holds. -/
def reduced (state : Search) (j0 j : Nat) : Int := cost (p j0) j - state.u (p j0) - state.v j
def relaxed (state : Search) (j0 j : Nat) (scan : Scan) : Scan :=
  if reduced cost p state j0 j < scan.minv j then
    { scan with minv := Function.update scan.minv j (reduced cost p state j0 j), way := Function.update scan.way j j0 }
  else scan
def chosen (j : Nat) (scan : Scan) : Scan :=
  if scan.minv j < scan.delta ∨ (scan.minv j = scan.delta ∧ scan.column = 0) then
    { scan with delta := scan.minv j, column := j }
  else scan
def scanColumn (state : Search) (j0 j : Nat) (scan : Scan) : Scan :=
  if state.used j then scan else chosen j (relaxed cost p state j0 j scan)

def shiftColumn (delta : Int) (j : Nat) (state : Search) : Search :=
  if state.used j then
    { state with
      u := Function.update state.u (p j) (state.u (p j) + delta)
      v := Function.update state.v j (state.v j - delta) }
  else { state with minv := Function.update state.minv j (state.minv j - delta) }

def scanned (state : Search) (j0 : Nat) : Scan :=
  forRange (scanColumn cost p state j0) 1 columns ⟨state.minv,state.way,limit,0⟩
def shifted (delta : Int) (state : Search) : Search := forRange (shiftColumn p delta) 0 (columns + 1) state

/-- One turn of the search: the column that is reached next, and what is known then. -/
def searchTurn (j0 : Nat) (state : Search) : Nat × Search :=
  let state := { state with used := Function.update state.used j0 true }
  let scan := scanned cost limit columns p state j0
  (scan.column,shifted columns p scan.delta { state with minv := scan.minv, way := scan.way })

def search : (fuel j0 : Nat) → Search → Option (Nat × Search)
  | 0, _, _ => none
  | fuel+1, j0, state =>
    let (j1,state) := searchTurn cost limit columns p j0 state
    if p j1 ≠ 0 then search fuel j1 state else some (j1,state)

end

/-- The rows move along the path that leads to a column. -/
def augment (way : Nat → Nat) : (fuel j0 : Nat) → (Nat → Nat) → Option (Nat → Nat)
  | 0, _, _ => none
  | fuel+1, j0, p =>
    let p := Function.update p j0 (p (way j0))
    if way j0 ≠ 0 then augment way fuel (way j0) p else some p

structure Assignment where
  u : Nat → Int
  v : Nat → Int
  p : Nat → Nat
  way : Nat → Nat

def placeRow (cost : Nat → Nat → Int) (limit : Int) (columns i : Nat) (held : Assignment) : Option Assignment := do
  let p := Function.update held.p 0 i
  let (j0,state) ← search cost limit columns p (columns + 1) 0 ⟨held.u,held.v,fun _ => limit,held.way,fun _ => false⟩
  let p ← augment state.way (columns + 1) j0 p
  some ⟨state.u,state.v,p,state.way⟩

/-- The placement of the first rows, one after the other. -/
def assign (cost : Nat → Nat → Int) (limit : Int) (columns : Nat) : (rows : Nat) → Option Assignment
  | 0 => some ⟨fun _ => 0,fun _ => 0,fun _ => 0,fun _ => 0⟩
  | rows+1 => (assign cost limit columns rows).bind (placeRow cost limit columns (rows + 1))

variable {cost : Nat → Nat → Int} {limit : Int} {columns : Nat} {p : Nat → Nat}

/-- The columns that a turn looks at. -/
def Open (columns : Nat) (state : Search) (j : Nat) : Prop := 1 ≤ j ∧ j ≤ columns ∧ state.used j = false

theorem relaxed_here (state : Search) (j0 j : Nat) (scan : Scan) :
    (relaxed cost p state j0 j scan).minv j = min (scan.minv j) (reduced cost p state j0 j) ∧
      (relaxed cost p state j0 j scan).way j = if reduced cost p state j0 j < scan.minv j then j0 else scan.way j := by
  unfold relaxed
  by_cases less : reduced cost p state j0 j < scan.minv j
  · simp only [if_pos less,min_eq_right less.le,update_self,and_self]
  simp only [if_neg less,min_eq_left (not_lt.mp less),and_self]

theorem relaxed_else (state : Search) (j0 : Nat) {j k : Nat} (other : k ≠ j) (scan : Scan) :
    (relaxed cost p state j0 j scan).minv k = scan.minv k ∧ (relaxed cost p state j0 j scan).way k = scan.way k := by
  unfold relaxed
  split
  · exact ⟨update_of_ne other _ _,update_of_ne other _ _⟩
  exact ⟨rfl,rfl⟩

theorem relaxed_choice (state : Search) (j0 j : Nat) (scan : Scan) :
    (relaxed cost p state j0 j scan).delta = scan.delta ∧ (relaxed cost p state j0 j scan).column = scan.column := by
  unfold relaxed
  split <;> exact ⟨rfl,rfl⟩
theorem chosen_tables (j : Nat) (scan : Scan) : (chosen j scan).minv = scan.minv ∧ (chosen j scan).way = scan.way := by
  unfold chosen
  split <;> exact ⟨rfl,rfl⟩

theorem chosen_choice (j : Nat) (scan : Scan) :
    ((chosen j scan).column = j ∧ (chosen j scan).delta = scan.minv j ∧ scan.minv j ≤ scan.delta) ∨
      ((chosen j scan).column = scan.column ∧ (chosen j scan).delta = scan.delta ∧ scan.delta ≤ scan.minv j ∧
        (scan.column = 0 → scan.delta < scan.minv j)) := by
  unfold chosen
  split
  · exact .inl ⟨rfl,rfl,by omega⟩
  exact .inr ⟨rfl,rfl,by omega,by omega⟩

/-- What a scan of the columns up to some one leaves. -/
structure Scanned (cost : Nat → Nat → Int) (limit : Int) (columns : Nat) (p : Nat → Nat) (state : Search) (j0 stop : Nat)
    (scan : Scan) : Prop where
  least : ∀ j, Open columns state j → j < stop → scan.minv j = min (state.minv j) (reduced cost p state j0 j)
  way : ∀ j, Open columns state j → j < stop →
    scan.way j = if reduced cost p state j0 j < state.minv j then j0 else state.way j
  kept : ∀ j, ¬ (Open columns state j ∧ j < stop) → scan.minv j = state.minv j ∧ scan.way j = state.way j
  chosen : (scan.column = 0 ∧ scan.delta = limit ∧ ∀ j, Open columns state j → j < stop → limit < scan.minv j) ∨
    (Open columns state scan.column ∧ scan.column < stop ∧ scan.delta = scan.minv scan.column ∧
      ∀ j, Open columns state j → j < stop → scan.delta ≤ scan.minv j)

theorem scanned_spec (state : Search) (j0 : Nat) :
    Scanned cost limit columns p state j0 (columns + 1) (scanned cost limit columns p state j0) := by
  rw [Nat.add_comm columns 1]
  refine forRange_keeps _ (Scanned cost limit columns p state j0) ?_ (fun j scan first last inv => ?_)
  · exact ⟨fun j opened below => absurd opened.1 (by omega),fun j opened below => absurd opened.1 (by omega),
      fun _ _ => ⟨rfl,rfl⟩,.inl ⟨rfl,rfl,fun j opened below => absurd opened.1 (by omega)⟩⟩
  cases used : state.used j with
  | true =>
    have closed (k : Nat) (opened : Open columns state k) (below : k < j + 1) : k < j := by
      refine lt_of_le_of_ne (by omega) (fun same => ?_)
      rw [same,Open,used] at opened
      exact absurd opened.2.2 (by decide)
    rw [scanColumn,if_pos used]
    refine ⟨fun k opened below => inv.least k opened (closed k opened below),
      fun k opened below => inv.way k opened (closed k opened below),
      fun k outside => inv.kept k (fun both => outside ⟨both.1,by omega⟩),?_⟩
    rcases inv.chosen with ⟨column,delta,above⟩ | ⟨opened,below,delta,least⟩
    · exact .inl ⟨column,delta,fun k opened below => above k opened (closed k opened below)⟩
    exact .inr ⟨opened,by omega,delta,fun k opened below => least k opened (closed k opened below)⟩
  | false =>
  have here : Open columns state j := ⟨first,by omega,used⟩
  have same := inv.kept j (fun both => absurd both.2 (lt_irrefl j))
  have relaxes := @relaxed_here cost p state j0 j scan
  have elsewhere {k : Nat} (other : k ≠ j) := @relaxed_else cost p state j0 _ _ other scan
  have tables := chosen_tables j (relaxed cost p state j0 j scan)
  obtain ⟨delta,column⟩ := @relaxed_choice cost p state j0 j scan
  have choice := chosen_choice j (relaxed cost p state j0 j scan)
  rw [delta,column] at choice
  rw [scanColumn,if_neg (by simp [used])]
  refine ⟨fun k opened below => ?_,fun k opened below => ?_,fun k outside => ?_,?_⟩
  · rw [tables.1]
    by_cases other : k = j
    · rw [other,relaxes.1,same.1]
    rw [(elsewhere other).1]
    exact inv.least k opened (by omega)
  · rw [tables.2]
    by_cases other : k = j
    · rw [other,relaxes.2,same.1,same.2]
    rw [(elsewhere other).2]
    exact inv.way k opened (by omega)
  · have other : k ≠ j := by
      rintro rfl
      exact outside ⟨here,by omega⟩
    rw [tables.1,tables.2,(elsewhere other).1,(elsewhere other).2]
    exact inv.kept k (fun both => outside ⟨both.1,by omega⟩)
  rw [tables.1]
  have earlier (k : Nat) (below : k < j + 1) (other : k ≠ j) :
      (relaxed cost p state j0 j scan).minv k = scan.minv k ∧ k < j := ⟨(elsewhere other).1,by omega⟩
  rcases inv.chosen with ⟨none,most,above⟩ | ⟨opened,below,delta,least⟩
  · rcases choice with ⟨picked,value,less⟩ | ⟨picked,value,more,strict⟩
    · refine .inr ⟨by rwa [picked],by omega,by rw [value,picked],fun k opened below => ?_⟩
      by_cases other : k = j
      · rw [other,value]
      rw [(earlier k below other).1,value]
      exact less.trans (most ▸ (above k opened (earlier k below other).2).le)
    refine .inl ⟨picked.trans none,value.trans most,fun k opened below => ?_⟩
    by_cases other : k = j
    · rw [other]
      exact most ▸ strict none
    rw [(earlier k below other).1]
    exact above k opened (earlier k below other).2
  rcases choice with ⟨picked,value,less⟩ | ⟨picked,value,more,-⟩
  · refine .inr ⟨by rwa [picked],by omega,by rw [value,picked],fun k opened below => ?_⟩
    by_cases other : k = j
    · rw [other,value]
    rw [(earlier k below other).1,value]
    exact less.trans (least k opened (earlier k below other).2)
  have other : scan.column ≠ j := by omega
  refine .inr ⟨by rwa [picked],by omega,by rw [value,picked,(elsewhere other).1,delta],fun k opened below => ?_⟩
  rw [value]
  by_cases other : k = j
  · rw [other]
    exact more
  rw [(earlier k below other).1]
  exact least k opened (earlier k below other).2

/-- The rows that the used columns hold, each by one of them. -/
def Distinct (columns : Nat) (p : Nat → Nat) (used : Nat → Bool) : Prop :=
  ∀ j k, j ≤ columns → k ≤ columns → used j = true → used k = true → p j = p k → j = k

/-- What a shift of the columns up to some one leaves. -/
structure Shifted (p : Nat → Nat) (delta : Int) (state : Search) (stop : Nat) (left : Search) : Prop where
  used : left.used = state.used
  way : left.way = state.way
  raised : ∀ j < stop, state.used j = true → left.u (p j) = state.u (p j) + delta
  row : ∀ r, (∀ j < stop, state.used j = true → p j ≠ r) → left.u r = state.u r
  column : ∀ j, left.v j = if j < stop ∧ state.used j = true then state.v j - delta else state.v j
  minv : ∀ j, left.minv j = if j < stop ∧ state.used j = false then state.minv j - delta else state.minv j

theorem shifted_spec {state : Search} (distinct : Distinct columns p state.used) (delta : Int) :
    Shifted p delta state (columns + 1) (shifted columns p delta state) := by
  rw [← Nat.zero_add (columns + 1)]
  refine forRange_keeps _ (Shifted p delta state) ?_ (fun j left _ last inv => ?_)
  · exact ⟨rfl,rfl,fun j below => absurd below (Nat.not_lt_zero j),fun _ _ => rfl,
      fun j => (if_neg (fun both => absurd both.1 (Nat.not_lt_zero j))).symm,
      fun j => (if_neg (fun both => absurd both.1 (Nat.not_lt_zero j))).symm⟩
  unfold shiftColumn
  have usedLeft : left.used j = state.used j := congrFun inv.used j
  cases used : state.used j with
  | true =>
    rw [if_pos (usedLeft.trans used)]
    have fresh : left.u (p j) = state.u (p j) := by
      refine inv.row (p j) (fun k below usedK same => ?_)
      exact absurd (distinct k j (by omega) (by omega) usedK used same) (by omega)
    refine ⟨inv.used,inv.way,fun k below usedK => ?_,fun r outside => ?_,fun k => ?_,fun k => ?_⟩ <;> dsimp only
    · by_cases same : p k = p j
      · rw [same,update_self,fresh]
      rw [update_of_ne same]
      exact inv.raised k (lt_of_le_of_ne (by omega) (fun equal => same (congrArg p equal))) usedK
    · rw [update_of_ne (fun same => outside j (by omega) used same.symm)]
      exact inv.row r (fun k below => outside k (by omega))
    · by_cases same : k = j
      · rw [same,update_self,if_pos ⟨by omega,used⟩,inv.column,if_neg (by omega)]
      rw [update_of_ne same,inv.column]
      exact if_congr (and_congr_left' (by omega)) rfl rfl
    rw [inv.minv]
    by_cases same : k = j
    · rw [same,if_neg (by omega),if_neg (by simp [used])]
    exact if_congr (and_congr_left' (by omega)) rfl rfl
  | false =>
  rw [if_neg (by rw [usedLeft,used]; decide)]
  refine ⟨inv.used,inv.way,fun k below usedK => ?_,fun r outside => ?_,fun k => ?_,fun k => ?_⟩ <;> dsimp only
  · refine inv.raised k (lt_of_le_of_ne (by omega) (fun equal => ?_)) usedK
    rw [equal,used] at usedK
    exact absurd usedK (by decide)
  · exact inv.row r (fun k below => outside k (by omega))
  · rw [inv.column]
    by_cases same : k = j
    · rw [same,if_neg (by omega),if_neg (by simp [used])]
    exact if_congr (and_congr_left' (by omega)) rfl rfl
  by_cases same : k = j
  · rw [same,update_self,if_pos ⟨by omega,used⟩,inv.minv,if_neg (by omega)]
  rw [update_of_ne same,inv.minv]
  exact if_congr (and_congr_left' (by omega)) rfl rfl

/-- Potentials below the costs, within a bound. -/
structure Duals (cost : Nat → Nat → Int) (rows columns : Nat) (u v : Nat → Int) (bound : Int) : Prop where
  feasible : ∀ r j, 1 ≤ r → r ≤ rows → 1 ≤ j → j ≤ columns → u r + v j ≤ cost r j
  row : ∀ r, 0 ≤ u r ∧ u r ≤ bound
  column : ∀ j, -bound ≤ v j ∧ v j ≤ 0

/-- Every column of a path leads to an earlier one, up to column zero. -/
def Chained (way : Nat → Nat) : List Nat → Prop
  | [] => True
  | j :: rest => (j ≠ 0 → way j ∈ rest) ∧ Chained way rest

theorem Chained.congr {way way' : Nat → Nat} {path : List Nat} (chained : Chained way path)
    (same : ∀ j ∈ path, way' j = way j) : Chained way' path := by
  induction path with
  | nil => trivial
  | cons j rest ih =>
  refine ⟨fun later => ?_,ih chained.2 (fun k mem => same k (mem_cons_of_mem _ mem))⟩
  rw [same j mem_cons_self]
  exact chained.1 later

/-- The rows that the columns hold when a row is being placed. -/
structure Rows (columns i : Nat) (p : Nat → Nat) : Prop where
  held : p 0 = i
  inside : ∀ j ≤ columns, p j ≤ i
  distinct : ∀ j ≤ columns, ∀ k ≤ columns, p j ≠ 0 → p j = p k → j = k

/-- The costs of an assignment, with a bound that the limit leaves room above. -/
structure Priced (cost : Nat → Nat → Int) (rows columns : Nat) (top : Int) : Prop where
  low : ∀ r j, 1 ≤ r → r ≤ rows → 1 ≤ j → j ≤ columns → 0 ≤ cost r j
  high : ∀ r j, 1 ≤ r → r ≤ rows → 1 ≤ j → j ≤ columns → cost r j ≤ top

/-- What is known of the columns that a search has not used. -/
def Known (cost : Nat → Nat → Int) (columns i : Nat) (p : Nat → Nat) (path : List Nat) (spent : Int) (state : Search) : Prop :=
  ∀ j, 1 ≤ j → j ≤ columns → j ∉ path → 0 ≤ state.minv j ∧ state.way j ∈ path ∧
    (∀ k ∈ path, state.minv j ≤ reduced cost p state k j) ∧ (p j = 0 → spent + state.minv j ≤ cost i j)

/-- A search has used the columns of a path and has reached one more. -/
structure Reached (cost : Nat → Nat → Int) (limit top bound : Int) (rows columns i : Nat) (p : Nat → Nat)
    (path : List Nat) (spent : Int) (j0 : Nat) (state : Search) : Prop where
  used : ∀ j, state.used j = true ↔ j ∈ path
  nodup : (j0 :: path).Nodup
  within : j0 ≤ columns
  inside : ∀ j ∈ path, j ≤ columns ∧ p j ≠ 0
  chained : Chained state.way (j0 :: path)
  duals : Duals cost rows columns state.u state.v (bound + spent)
  paid : 0 ≤ spent ∧ spent ≤ top
  free : ∀ j, 1 ≤ j → j ≤ columns → p j = 0 → state.v j = 0
  unplaced : ∀ r, i < r → state.u r = 0
  fresh : path = [] → j0 = 0 ∧ spent = 0 ∧ state.u i = 0 ∧ ∀ j, state.minv j = limit
  known : path ≠ [] → Known cost columns i p path spent state

section
variable {top bound : Int} {rows i : Nat} {path : List Nat} {spent : Int} {j0 : Nat} {state : Search}

/-- The search with the column that it has reached. -/
def Search.using (state : Search) (j0 : Nat) : Search := { state with used := Function.update state.used j0 true }

section
variable (reached : Reached cost limit top bound rows columns i p path spent j0 state)
include reached

theorem using_used (j : Nat) : (state.using j0).used j = true ↔ j ∈ j0 :: path := by
  rw [mem_cons]
  by_cases same : j = j0
  · rw [same]
    exact ⟨fun _ => .inl rfl,fun _ => update_self _ _ _⟩
  rw [← reached.used,or_iff_right same]
  exact iff_of_eq (congrArg (· = true) (update_of_ne same _ _))

theorem open_iff (j : Nat) : Open columns (state.using j0) j ↔ 1 ≤ j ∧ j ≤ columns ∧ j ∉ j0 :: path := by
  rw [Open,← using_used reached,Bool.not_eq_true]

/-- What the scan of a turn finds out about the columns that are still unused. -/
theorem scan_knows
    (priced : Priced cost rows columns top) (placing : Rows columns i p) (placed : p j0 ≠ 0) (room : top + bound < limit)
    (row : i ≤ rows) : Known cost columns i p (j0 :: path) spent { state.using j0 with
        minv := (scanned cost limit columns p (state.using j0) j0).minv
        way := (scanned cost limit columns p (state.using j0) j0).way } := by
  intro j first last unused
  have scan := @scanned_spec cost limit columns p (state.using j0) j0
  have opened := (open_iff reached j).mpr ⟨first,last,unused⟩
  have row : 1 ≤ p j0 ∧ p j0 ≤ rows :=
    ⟨Nat.one_le_iff_ne_zero.mpr placed,(placing.inside j0 reached.within).trans row⟩
  have dual := reached.duals.feasible (p j0) j row.1 row.2 first last
  have current : 0 ≤ reduced cost p (state.using j0) j0 j := by
    change 0 ≤ cost (p j0) j - state.u (p j0) - state.v j
    omega
  have least := scan.least j opened (by omega)
  have way := scan.way j opened (by omega)
  dsimp only
  by_cases started : path = []
  · -- the first scan: every column is seen from column zero
    obtain ⟨zero,none,fresh,all⟩ := reached.fresh started
    have below : reduced cost p (state.using j0) j0 j < (state.using j0).minv j := by
      change cost (p j0) j - state.u (p j0) - state.v j < state.minv j
      have high := priced.high (p j0) j row.1 row.2 first last
      have low := (reached.duals.row (p j0)).1
      have column := (reached.duals.column j).1
      rw [all j]
      omega
    rw [least,way,min_eq_right below.le,if_pos below]
    refine ⟨current,mem_cons_self,fun k mem => ?_,fun free => ?_⟩
    · rw [started,mem_singleton] at mem
      rw [mem]
      exact le_refl _
    change spent + (cost (p j0) j - state.u (p j0) - state.v j) ≤ cost i j
    rw [zero,placing.held,reached.free j first last free,fresh,none]
    omega
  obtain ⟨known,led,lowest,bounded⟩ := reached.known started j first last
    (fun mem => unused (mem_cons_of_mem _ mem))
  rw [least,way]
  refine ⟨le_min known current,?_,fun k mem => ?_,fun free => ?_⟩
  · split
    · exact mem_cons_self
    exact mem_cons_of_mem _ led
  · rcases mem_cons.mp mem with rfl | mem
    · exact min_le_right _ _
    exact (min_le_left _ _).trans (lowest k mem)
  change spent + min (state.minv j) (reduced cost p (state.using j0) j0 j) ≤ cost i j
  have := bounded free
  omega

end

/-- What a turn does to the search, in terms of what its scan has found. -/
structure Turned (columns : Nat) (p : Nat → Nat) (path : List Nat) (j0 : Nat) (state : Search) (found : Scan) (left : Search) :
    Prop where
  opened : 1 ≤ found.column ∧ found.column ≤ columns ∧ found.column ∉ j0 :: path
  delta : found.delta = found.minv found.column
  least : ∀ j, 1 ≤ j → j ≤ columns → j ∉ j0 :: path → found.delta ≤ found.minv j
  used : ∀ j, left.used j = true ↔ j ∈ j0 :: path
  column : ∀ j ≤ columns, (j ∈ j0 :: path → left.v j = state.v j - found.delta) ∧ (j ∉ j0 :: path → left.v j = state.v j)
  raised : ∀ j ∈ j0 :: path, left.u (p j) = state.u (p j) + found.delta
  row : ∀ r, (∃ j ∈ j0 :: path, p j = r) ∨ left.u r = state.u r
  lowered : ∀ j, left.v j = state.v j - found.delta ∨ left.v j = state.v j
  minv : ∀ j, 1 ≤ j → j ≤ columns → j ∉ j0 :: path → left.minv j = found.minv j - found.delta
  way : left.way = found.way
  kept : ∀ j ∈ j0 :: path, found.way j = state.way j

section
variable (reached : Reached cost limit top bound rows columns i p path spent j0 state)
  (priced : Priced cost rows columns top) (placing : Rows columns i p) (placed : p j0 ≠ 0) (room : top + bound < limit)
  (row : 1 ≤ i ∧ i ≤ rows) (low : 0 ≤ bound) (vacant : ∃ j, 1 ≤ j ∧ j ≤ columns ∧ p j = 0)
include reached priced placing placed room row low vacant

theorem turn_turns :
    (searchTurn cost limit columns p j0 state).1 = (scanned cost limit columns p (state.using j0) j0).column ∧
      Turned columns p path j0 state (scanned cost limit columns p (state.using j0) j0)
        (searchTurn cost limit columns p j0 state).2 := by
  have knows := scan_knows reached priced placing placed room row.2
  have scan := @scanned_spec cost limit columns p (state.using j0) j0
  have used := using_used reached
  have inside : ∀ j ∈ j0 :: path, j ≤ columns ∧ p j ≠ 0 := forall_mem_cons.mpr ⟨⟨reached.within,placed⟩,reached.inside⟩
  refine ⟨rfl,?_⟩
  change Turned columns p path j0 state (scanned cost limit columns p (state.using j0) j0)
    (shifted columns p (scanned cost limit columns p (state.using j0) j0).delta
      { state.using j0 with
        minv := (scanned cost limit columns p (state.using j0) j0).minv
        way := (scanned cost limit columns p (state.using j0) j0).way })
  generalize scanned cost limit columns p (state.using j0) j0 = found at scan knows ⊢
  -- a free column is open, and its cost bounds what is left to pay
  obtain ⟨free,freeFirst,freeLast,freeRow⟩ := vacant
  have freeUnused : free ∉ j0 :: path := fun mem => (inside free mem).2 freeRow
  have freeOpen := (open_iff reached free).mpr ⟨freeFirst,freeLast,freeUnused⟩
  have paid : spent + found.minv free ≤ cost i free := (knows free freeFirst freeLast freeUnused).2.2.2 freeRow
  have high := priced.high i free row.1 row.2 freeFirst freeLast
  have start := reached.paid
  obtain ⟨opened,-,delta,least⟩ := scan.chosen.resolve_left (fun none => by
    have := none.2.2 free freeOpen (by omega)
    omega)
  have shift := @shifted_spec columns p { state.using j0 with minv := found.minv, way := found.way }
    (fun j k jLast kLast usedJ usedK same =>
      placing.distinct j jLast k kLast (inside j ((used j).mp usedJ)).2 same) found.delta
  generalize shifted columns p found.delta { state.using j0 with minv := found.minv, way := found.way } = left at shift ⊢
  refine ⟨(open_iff reached found.column).mp opened,delta,fun j first last unused => ?_,fun j => by rw [shift.used]; exact used j,
    fun j here => ?_,fun j mem => ?_,fun r => ?_,fun j => ?_,fun j first last outside => ?_,shift.way,fun j mem => ?_⟩
  · exact least j ((open_iff reached j).mpr ⟨first,last,unused⟩) (by omega)
  · rw [shift.column j]
    exact ⟨fun mem => if_pos ⟨by omega,(used j).mpr mem⟩,fun mem => if_neg (fun both => mem ((used j).mp both.2))⟩
  · exact shift.raised j (by have := (inside j mem).1; omega) ((used j).mpr mem)
  · by_cases held : ∃ j ∈ j0 :: path, p j = r
    · exact .inl held
    exact .inr (shift.row r (fun j _ usedJ same => held ⟨j,(used j).mp usedJ,same⟩))
  · rw [shift.column j]
    split
    · exact .inl rfl
    exact .inr rfl
  · have unusedJ : (state.using j0).used j = false := by
      rw [← Bool.not_eq_true,used j]
      exact outside
    rw [shift.minv j]
    exact if_pos ⟨by omega,unusedJ⟩
  exact (scan.kept j (fun both => ((open_iff reached j).mp both.1).2.2 mem)).2

theorem turn_reaches : ∃ spent', 1 ≤ (searchTurn cost limit columns p j0 state).1 ∧
      Reached cost limit top bound rows columns i p (j0 :: path) spent' (searchTurn cost limit columns p j0 state).1
        (searchTurn cost limit columns p j0 state).2 := by
  have knows := scan_knows reached priced placing placed room row.2
  have inside : ∀ j ∈ j0 :: path, j ≤ columns ∧ p j ≠ 0 := forall_mem_cons.mpr ⟨⟨reached.within,placed⟩,reached.inside⟩
  obtain ⟨next,turned⟩ := turn_turns reached priced placing placed room row low vacant
  rw [next]
  generalize scanned cost limit columns p (state.using j0) j0 = found at knows turned ⊢
  generalize (searchTurn cost limit columns p j0 state).2 = left at turned ⊢
  obtain ⟨first,last,unused⟩ := turned.opened
  have positive : 0 ≤ found.delta := by
    rw [turned.delta]
    exact (knows found.column first last unused).1
  have start := reached.paid
  have paid : found.delta + spent ≤ top := by
    obtain ⟨free,freeFirst,freeLast,freeRow⟩ := vacant
    have freeUnused : free ∉ j0 :: path := fun mem => (inside free mem).2 freeRow
    have bounded : spent + found.minv free ≤ cost i free := (knows free freeFirst freeLast freeUnused).2.2.2 freeRow
    have high := priced.high i free row.1 row.2 freeFirst freeLast
    have below := turned.least free freeFirst freeLast freeUnused
    omega
  refine ⟨spent + found.delta,first,
    { used := turned.used
      nodup := nodup_cons.mpr ⟨unused,reached.nodup⟩
      within := last
      inside := inside
      chained := ?_
      duals := ⟨fun r j rFirst rLast jFirst jLast => ?_,fun r => ?_,fun j => ?_⟩
      paid := by omega
      free := fun j jFirst jLast none => ?_
      unplaced := fun r later => ?_
      fresh := fun empty => absurd empty (cons_ne_nil _ _)
      known := fun _ j jFirst jLast outside => ?_ }⟩
  · rw [turned.way]
    exact ⟨fun _ => (knows found.column first last unused).2.1,reached.chained.congr turned.kept⟩
  · have dual := reached.duals.feasible r j rFirst rLast jFirst jLast
    by_cases mem : j ∈ j0 :: path
    · rw [(turned.column j jLast).1 mem]
      rcases turned.row r with ⟨k,kMember,rfl⟩ | same
      · rw [turned.raised k kMember]
        omega
      omega
    rw [(turned.column j jLast).2 mem]
    rcases turned.row r with ⟨k,kMember,rfl⟩ | same
    · rw [turned.raised k kMember]
      have lowest := (knows j jFirst jLast mem).2.2.1 k kMember
      have under := turned.least j jFirst jLast mem
      change found.minv j ≤ cost (p k) j - state.u (p k) - state.v j at lowest
      omega
    rw [same]
    exact dual
  · have old := reached.duals.row r
    rcases turned.row r with ⟨k,kMember,rfl⟩ | same
    · rw [turned.raised k kMember]
      omega
    omega
  · have old := reached.duals.column j
    rcases turned.lowered j with same | same <;> rw [same] <;> omega
  · have outside : j ∉ j0 :: path := fun mem => (inside j mem).2 none
    rw [(turned.column j jLast).2 outside]
    exact reached.free j jFirst jLast none
  · rcases turned.row r with ⟨k,kMember,rfl⟩ | same
    · exact absurd (placing.inside k (inside k kMember).1) (by omega)
    rw [same]
    exact reached.unplaced r later
  obtain ⟨-,led,lowest,bounded⟩ := knows j jFirst jLast outside
  have under := turned.least j jFirst jLast outside
  rw [turned.minv j jFirst jLast outside,turned.way]
  refine ⟨by omega,led,fun k mem => ?_,fun none => ?_⟩
  · have lowest := lowest k mem
    rw [reduced,turned.raised k mem,(turned.column j jLast).2 outside]
    change found.minv j ≤ cost (p k) j - state.u (p k) - state.v j at lowest
    omega
  have bounded := bounded none
  dsimp only at bounded
  omega

end

/-- The pairs of the columns and their rows cost what their potentials say, and so do the steps along the path. -/
structure Tight (cost : Nat → Nat → Int) (columns : Nat) (p : Nat → Nat) (path : List Nat) (j0 : Nat) (state : Search) : Prop where
  matched : ∀ j, 1 ≤ j → j ≤ columns → p j ≠ 0 → state.u (p j) + state.v j = cost (p j) j
  led : ∀ j ∈ j0 :: path, j ≠ 0 → state.u (p (state.way j)) + state.v j = cost (p (state.way j)) j
  nearest : path ≠ [] → ∀ j, 1 ≤ j → j ≤ columns → j ∉ path → state.minv j = reduced cost p state (state.way j) j

theorem Chained.mem {way : Nat → Nat} {path : List Nat} (chained : Chained way path) {j : Nat} (mem : j ∈ path) (some : j ≠ 0) :
    way j ∈ path := by
  induction path with
  | nil => cases mem
  | cons k rest ih =>
  rcases mem_cons.mp mem with rfl | later
  · exact mem_cons_of_mem _ (chained.1 some)
  exact mem_cons_of_mem _ (ih chained.2 later)

section
variable (reached : Reached cost limit top bound rows columns i p path spent j0 state)
  (priced : Priced cost rows columns top) (placing : Rows columns i p) (placed : p j0 ≠ 0) (room : top + bound < limit)
include reached priced placing placed room

/-- The least reduced cost that a scan keeps is the one along the way. -/
theorem scan_nearest
    (row : i ≤ rows) (tight : Tight cost columns p path j0 state) {j : Nat} (first : 1 ≤ j) (last : j ≤ columns)
    (unused : j ∉ j0 :: path) : (scanned cost limit columns p (state.using j0) j0).minv j =
      reduced cost p state ((scanned cost limit columns p (state.using j0) j0).way j) j := by
  have scan := @scanned_spec cost limit columns p (state.using j0) j0
  have opened := (open_iff reached j).mpr ⟨first,last,unused⟩
  have least := scan.least j opened (by omega)
  have way := scan.way j opened (by omega)
  have same : reduced cost p (state.using j0) j0 j = reduced cost p state j0 j := rfl
  rw [least,way]
  split
  · rename_i below
    rw [min_eq_right below.le,same]
  rename_i below
  rw [min_eq_left (not_lt.mp below)]
  by_cases started : path = []
  · -- the first scan sees every column below the limit
    refine absurd ?_ below
    obtain ⟨_,_,_,all⟩ := reached.fresh started
    have inside : 1 ≤ p j0 ∧ p j0 ≤ rows :=
      ⟨Nat.one_le_iff_ne_zero.mpr placed,(placing.inside j0 reached.within).trans row⟩
    have high := priced.high (p j0) j inside.1 inside.2 first last
    have low := (reached.duals.row (p j0)).1
    have column := (reached.duals.column j).1
    change cost (p j0) j - state.u (p j0) - state.v j < state.minv j
    rw [all j]
    omega
  exact tight.nearest started j first last (fun mem => unused (mem_cons_of_mem _ mem))

theorem turn_tight (row : 1 ≤ i ∧ i ≤ rows) (low : 0 ≤ bound) (vacant : ∃ j, 1 ≤ j ∧ j ≤ columns ∧ p j = 0)
    (tight : Tight cost columns p path j0 state) :
    Tight cost columns p (j0 :: path) (searchTurn cost limit columns p j0 state).1 (searchTurn cost limit columns p j0 state).2 := by
  have knows := scan_knows reached priced placing placed room row.2
  have nearest := @scan_nearest cost limit columns p top bound rows i path spent j0 state reached priced placing placed room row.2 tight
  have inside : ∀ j ∈ j0 :: path, j ≤ columns ∧ p j ≠ 0 := forall_mem_cons.mpr ⟨⟨reached.within,placed⟩,reached.inside⟩
  obtain ⟨next,turned⟩ := turn_turns reached priced placing placed room row low vacant
  rw [next]
  generalize scanned cost limit columns p (state.using j0) j0 = found at knows nearest turned ⊢
  generalize (searchTurn cost limit columns p j0 state).2 = left at turned ⊢
  obtain ⟨first,last,unused⟩ := turned.opened
  refine ⟨fun j jFirst jLast some => ?_,fun j mem some => ?_,fun _ j jFirst jLast outside => ?_⟩
  · have before := tight.matched j jFirst jLast some
    by_cases mem : j ∈ j0 :: path
    · rw [turned.raised j mem,(turned.column j jLast).1 mem]
      omega
    rw [(turned.column j jLast).2 mem]
    rcases turned.row (p j) with ⟨k,kMember,same⟩ | same
    · refine absurd ?_ mem
      rwa [← placing.distinct k (inside k kMember).1 j jLast (inside k kMember).2 same]
    rw [same]
    exact before
  · rw [turned.way]
    rcases mem_cons.mp mem with rfl | mem
    · have closest := nearest first last unused
      have led := (knows found.column first last unused).2.1
      dsimp only at led
      have delta := turned.delta
      rw [closest,reduced] at delta
      rw [turned.raised _ led,(turned.column _ last).2 unused]
      omega
    rw [turned.kept j mem]
    have before := tight.led j mem some
    have led := reached.chained.mem mem some
    rw [turned.raised _ led,(turned.column j (inside j mem).1).1 mem]
    omega
  have closest := nearest jFirst jLast outside
  have led := (knows j jFirst jLast outside).2.1
  dsimp only at led
  rw [turned.minv j jFirst jLast outside,turned.way,closest,reduced,reduced,turned.raised _ led,
    (turned.column j jLast).2 outside]
  omega

end

theorem nodup_length {numbers : List Nat} (nodup : numbers.Nodup) (within : ∀ j ∈ numbers, j ≤ columns) :
    numbers.length ≤ columns + 1 := by
  rw [← toFinset_card_of_nodup nodup,← Finset.card_range (columns + 1)]
  refine Finset.card_le_card (fun j mem => ?_)
  have := within j (mem_toFinset.mp mem)
  exact Finset.mem_range.mpr (by omega)

theorem search_finds (priced : Priced cost rows columns top) (placing : Rows columns i p) (room : top + bound < limit)
    (row : 1 ≤ i ∧ i ≤ rows) (low : 0 ≤ bound) (vacant : ∃ j, 1 ≤ j ∧ j ≤ columns ∧ p j = 0) {fuel : Nat}
    (reached : Reached cost limit top bound rows columns i p path spent j0 state) (tight : Tight cost columns p path j0 state)
    (placed : p j0 ≠ 0) (enough : columns + 1 ≤ fuel + path.length) :
    ∃ path' spent' last left, search cost limit columns p fuel j0 state = some (last,left) ∧ path' ≠ [] ∧ 1 ≤ last ∧
      p last = 0 ∧ Reached cost limit top bound rows columns i p path' spent' last left ∧ Tight cost columns p path' last left := by
  induction fuel generalizing path spent j0 state with
  | zero =>
    have := nodup_length reached.nodup
      (forall_mem_cons.mpr ⟨reached.within,fun j mem => (reached.inside j mem).1⟩)
    rw [length_cons] at this
    omega
  | succ fuel ih =>
  obtain ⟨spent',first,next⟩ := turn_reaches reached priced placing placed room row low vacant
  have nextTight := turn_tight reached priced placing placed room row low vacant tight
  change ∃ path' spent' last left, (if p (searchTurn cost limit columns p j0 state).1 ≠ 0 then
    search cost limit columns p fuel (searchTurn cost limit columns p j0 state).1
      (searchTurn cost limit columns p j0 state).2 else _) = _ ∧ _
  by_cases free : p (searchTurn cost limit columns p j0 state).1 = 0
  · rw [if_neg (not_not.mpr free)]
    exact ⟨_,spent',_,_,rfl,cons_ne_nil _ _,first,free,next,nextTight⟩
  rw [if_pos free]
  exact ih next nextTight free (by rw [length_cons]; omega)

end

/-- The first rows in the columns, one column apart. -/
structure Placed (columns i : Nat) (v : Nat → Int) (p : Nat → Nat) (hole : Nat) : Prop where
  cover : ∀ r, 1 ≤ r → r ≤ i → ∃ j ≤ columns, j ≠ hole ∧ p j = r
  distinct : ∀ j ≤ columns, ∀ k ≤ columns, j ≠ hole → k ≠ hole → p j ≠ 0 → p j = p k → j = k
  inside : ∀ j ≤ columns, j ≠ hole → p j ≤ i
  free : ∀ j, 1 ≤ j → j ≤ columns → j ≠ hole → p j = 0 → v j = 0

theorem Placed.move {columns i : Nat} {v : Nat → Int} {p : Nat → Nat} {hole next : Nat} (placed : Placed columns i v p hole)
    (within : hole ≤ columns) (nextWithin : next ≤ columns) (other : next ≠ hole) (held : p next ≠ 0) :
    Placed columns i v (Function.update p hole (p next)) next := by
  have here : update p hole (p next) hole = p next := update_self _ _ _
  have there {j : Nat} (apart : j ≠ hole) : update p hole (p next) j = p j := update_of_ne apart _ _
  refine ⟨fun r first last => ?_,fun j jLast k kLast jNext kNext some same => ?_,fun j jLast jNext => ?_,
    fun j first last jNext none => ?_⟩
  · obtain ⟨j,jLast,apart,row⟩ := placed.cover r first last
    by_cases moved : j = next
    · exact ⟨hole,within,fun same => other same.symm,by rw [here,← moved,row]⟩
    exact ⟨j,jLast,moved,by rw [there apart,row]⟩
  · by_cases jHole : j = hole
    · by_cases kHole : k = hole
      · rw [jHole,kHole]
      rw [jHole,here,there kHole] at same
      exact absurd (placed.distinct next nextWithin k kLast other kHole held same).symm kNext
    rw [there jHole] at same some
    by_cases kHole : k = hole
    · rw [kHole,here] at same
      exact absurd (placed.distinct j jLast next nextWithin jHole other some same) jNext
    rw [there kHole] at same
    exact placed.distinct j jLast k kLast jHole kHole some same
  · by_cases jHole : j = hole
    · rw [jHole,here]
      exact placed.inside next nextWithin other
    rw [there jHole]
    exact placed.inside j jLast jHole
  by_cases jHole : j = hole
  · rw [jHole,here] at none
    exact absurd none held
  rw [there jHole] at none
  exact placed.free j first last jHole none

theorem Chained.right {way : Nat → Nat} {before after : List Nat} (chained : Chained way (before ++ after)) :
    Chained way after := by
  induction before with
  | nil => exact chained
  | cons j rest ih => exact ih chained.2

/-- The pairs of the columns and their rows cost what their potentials say, but for a hole. -/
def TightBut (cost : Nat → Nat → Int) (columns : Nat) (u v : Nat → Int) (p : Nat → Nat) (hole : Nat) : Prop :=
  ∀ j, 1 ≤ j → j ≤ columns → j ≠ hole → p j ≠ 0 → u (p j) + v j = cost (p j) j

theorem augment_places {columns i : Nat} {u v : Nat → Int} {way p : Nat → Nat} {path : List Nat} {hole fuel : Nat}
    (chained : Chained way path) (led : way hole ∈ path) (nodup : (hole :: path).Nodup) (within : hole ≤ columns)
    (inside : ∀ j ∈ path, j ≤ columns ∧ p j ≠ 0) (placed : Placed columns i v p hole) (tight : TightBut cost columns u v p hole)
    (edges : ∀ j ∈ hole :: path, j ≠ 0 → u (p (way j)) + v j = cost (p (way j)) j) (enough : path.length ≤ fuel) :
    ∃ p', augment way fuel hole p = some p' ∧ Placed columns i v p' 0 ∧ TightBut cost columns u v p' 0 := by
  induction fuel generalizing path hole p with
  | zero =>
    rw [length_eq_zero_iff.mp (Nat.le_zero.mp enough)] at led
    exact absurd led not_mem_nil
  | succ fuel ih =>
  obtain ⟨nextWithin,held⟩ := inside (way hole) led
  have other : way hole ≠ hole := fun same => (nodup_cons.mp nodup).1 (same ▸ led)
  have moved := placed.move within nextWithin other held
  have movedTight : TightBut cost columns u v (update p hole (p (way hole))) (way hole) := by
    intro j first last apart some
    by_cases here : j = hole
    · subst here
      rw [update_self]
      exact edges j mem_cons_self (by omega)
    rw [update_of_ne here] at some ⊢
    exact tight j first last here some
  rw [augment]
  by_cases last : way hole = 0
  · rw [if_neg (not_not.mpr last)]
    exact ⟨_,rfl,last ▸ moved,last ▸ movedTight⟩
  rw [if_pos last]
  obtain ⟨before,rest,split⟩ := append_of_mem led
  rw [split] at chained nodup enough
  have tail := chained.right
  have nodupTail : (way hole :: rest).Nodup := (nodup_append.mp (nodup_cons.mp nodup).2).2.1
  have onPath : ∀ j ∈ way hole :: rest, j ∈ path ∧ j ≠ hole := by
    intro j mem
    have memberPath : j ∈ path := by
      rw [split]
      exact mem_append_right _ mem
    refine ⟨memberPath,?_⟩
    rintro rfl
    exact (nodup_cons.mp nodup).1 (split ▸ memberPath)
  refine ih tail.2 (tail.1 last) nodupTail nextWithin (fun j mem => ?_) moved movedTight (fun j mem some => ?_) ?_
  · obtain ⟨memberPath,apart⟩ := onPath j (mem_cons_of_mem _ mem)
    rw [update_of_ne apart]
    exact inside j memberPath
  · obtain ⟨memberPath,apart⟩ := onPath j mem
    have wayApart := (onPath (way j) (tail.mem mem some)).2
    rw [update_of_ne wayApart]
    exact edges j (mem_cons_of_mem _ memberPath) some
  rw [length_append,length_cons] at enough
  omega

theorem Duals.mono {rows columns : Nat} {u v : Nat → Int} {bound bound' : Int} (duals : Duals cost rows columns u v bound)
    (below : bound ≤ bound') : Duals cost rows columns u v bound' where
  feasible := duals.feasible
  row := fun r => ⟨(duals.row r).1,(duals.row r).2.trans below⟩
  column := fun j => ⟨by have := (duals.column j).1; omega,(duals.column j).2⟩

theorem Placed.vacant {columns i : Nat} {v : Nat → Int} {p : Nat → Nat} (placed : Placed columns i v p 0) (fewer : i < columns) :
    ∃ j, 1 ≤ j ∧ j ≤ columns ∧ p j = 0 := by
  by_contra full
  push Not at full
  have counted := @Finset.card_le_card_of_injOn _ _ (Finset.Icc 1 columns) (Finset.Icc 1 i) p
    (fun j mem => by
      obtain ⟨first,last⟩ := Finset.mem_Icc.mp mem
      exact Finset.mem_Icc.mpr ⟨Nat.one_le_iff_ne_zero.mpr (full j first last),placed.inside j last (by omega)⟩)
    (fun j jMember k kMember same => by
      obtain ⟨jFirst,jLast⟩ := Finset.mem_Icc.mp jMember
      obtain ⟨kFirst,kLast⟩ := Finset.mem_Icc.mp kMember
      exact placed.distinct j jLast k kLast (by omega) (by omega) (full j jFirst jLast) same)
  rw [Nat.card_Icc,Nat.card_Icc] at counted
  omega

/-- What holds when the first rows are placed. -/
structure Assigned (cost : Nat → Nat → Int) (rows columns i : Nat) (bound : Int) (held : Assignment) : Prop where
  placed : Placed columns i held.v held.p 0
  duals : Duals cost rows columns held.u held.v bound
  unplaced : ∀ r, i < r → held.u r = 0

theorem placeRow_assigns {top bound : Int} {rows i : Nat} {held : Assignment} (priced : Priced cost rows columns top)
    (wide : rows ≤ columns) (row : i + 1 ≤ rows) (low : 0 ≤ bound) (room : top + bound < limit)
    (assigned : Assigned cost rows columns i bound held) (tight : TightBut cost columns held.u held.v held.p 0) :
    ∃ next, placeRow cost limit columns (i + 1) held = some next ∧ Assigned cost rows columns (i + 1) (bound + top) next ∧
      TightBut cost columns next.u next.v next.p 0 := by
  have first : update held.p 0 (i + 1) 0 = i + 1 := update_self _ _ _
  have later {j : Nat} (apart : j ≠ 0) : update held.p 0 (i + 1) j = held.p j := update_of_ne apart _ _
  have placing : Rows columns (i + 1) (update held.p 0 (i + 1)) := by
    refine ⟨first,fun j last => ?_,fun j jLast k kLast some same => ?_⟩
    · by_cases zero : j = 0
      · rw [zero,first]
      rw [later zero]
      exact (assigned.placed.inside j last zero).trans (Nat.le_succ i)
    by_cases jZero : j = 0 <;> by_cases kZero : k = 0
    · rw [jZero,kZero]
    · rw [jZero,first,later kZero] at same
      have := assigned.placed.inside k kLast kZero
      omega
    · rw [kZero,first,later jZero] at same
      have := assigned.placed.inside j jLast jZero
      omega
    rw [later jZero,later kZero] at same
    rw [later jZero] at some
    exact assigned.placed.distinct j jLast k kLast jZero kZero some same
  have vacant : ∃ j, 1 ≤ j ∧ j ≤ columns ∧ update held.p 0 (i + 1) j = 0 := by
    obtain ⟨j,jFirst,jLast,none⟩ := assigned.placed.vacant (by omega)
    exact ⟨j,jFirst,jLast,by rw [later (by omega),none]⟩
  have top_low : 0 ≤ top := by
    obtain ⟨j,jFirst,jLast,-⟩ := vacant
    exact (priced.low (i + 1) j (by omega) row jFirst jLast).trans (priced.high (i + 1) j (by omega) row jFirst jLast)
  have start : Reached cost limit top bound rows columns (i + 1) (update held.p 0 (i + 1)) [] 0 0
      ⟨held.u,held.v,fun _ => limit,held.way,fun _ => false⟩ :=
    { used := fun j => ⟨fun used => absurd used Bool.false_ne_true,fun mem => absurd mem not_mem_nil⟩
      nodup := nodup_singleton 0
      within := Nat.zero_le _
      inside := fun j mem => absurd mem not_mem_nil
      chained := ⟨fun some => absurd rfl some,trivial⟩
      duals := assigned.duals.mono (by omega)
      paid := ⟨le_refl 0,top_low⟩
      free := fun j jFirst jLast none => assigned.placed.free j jFirst jLast (by omega) (by rwa [later (by omega)] at none)
      unplaced := fun r above => assigned.unplaced r (by omega)
      fresh := fun _ => ⟨rfl,rfl,assigned.unplaced (i + 1) (Nat.lt_succ_self i),fun _ => rfl⟩
      known := fun some => absurd rfl some }
  have startTight : Tight cost columns (update held.p 0 (i + 1)) [] 0
      ⟨held.u,held.v,fun _ => limit,held.way,fun _ => false⟩ := by
    refine ⟨fun j jFirst jLast some => ?_,fun j mem some => absurd (mem_singleton.mp mem) some,
      fun some => absurd rfl some⟩
    rw [later (by omega)] at some ⊢
    exact tight j jFirst jLast (by omega) some
  obtain ⟨path,spent,hole,left,found,nonempty,holeFirst,free,reached,leftTight⟩ :=
    search_finds priced placing room ⟨by omega,row⟩ low vacant start startTight (by rw [first]; omega) (Nat.le_refl _)
  have holed : Placed columns (i + 1) left.v (update held.p 0 (i + 1)) hole := by
    refine ⟨fun r rFirst rLast => ?_,fun j jLast k kLast _ _ some same => placing.distinct j jLast k kLast some same,
      fun j jLast _ => placing.inside j jLast,fun j jFirst jLast _ none => reached.free j jFirst jLast none⟩
    by_cases new : r = i + 1
    · exact ⟨0,Nat.zero_le _,by omega,by rw [first,new]⟩
    obtain ⟨j,jLast,jZero,rowJ⟩ := assigned.placed.cover r rFirst (by omega)
    refine ⟨j,jLast,?_,by rw [later jZero,rowJ]⟩
    rintro rfl
    rw [later jZero] at free
    omega
  have shorter : path.length ≤ columns + 1 :=
    nodup_length (nodup_cons.mp reached.nodup).2 (fun j mem => (reached.inside j mem).1)
  have matched : TightBut cost columns left.u left.v (update held.p 0 (i + 1)) hole :=
    fun j jFirst jLast _ some => leftTight.matched j jFirst jLast some
  obtain ⟨p',augmented,placed,tight'⟩ := augment_places reached.chained.2 (reached.chained.1 (by omega)) reached.nodup
    reached.within reached.inside holed matched leftTight.led shorter
  refine ⟨⟨left.u,left.v,p',left.way⟩,?_,⟨placed,reached.duals.mono (by have := reached.paid; omega),reached.unplaced⟩,tight'⟩
  simp only [placeRow,found,Option.bind_eq_bind,Option.bind_some,augmented]

/-- All rows find a place, each in a column of its own, and no potential leaves the bound. -/
theorem assign_places {top : Int} {rows : Nat} (priced : Priced cost rows columns top) (low : 0 ≤ top) (wide : rows ≤ columns)
    (room : (rows + 1) * top < limit) :
    ∃ held, assign cost limit columns rows = some held ∧ Assigned cost rows columns rows (rows * top) held ∧
      TightBut cost columns held.u held.v held.p 0 := by
  have upto (i : Nat) (inside : i ≤ rows) :
      ∃ held, assign cost limit columns i = some held ∧ Assigned cost rows columns i (i * top) held ∧
        TightBut cost columns held.u held.v held.p 0 := by
    induction i with
    | zero =>
      refine ⟨_,rfl,⟨⟨fun r first last => absurd first (by omega),fun _ _ _ _ _ _ some => absurd rfl some,
        fun _ _ _ => le_refl _,fun _ _ _ _ _ => rfl⟩,⟨fun r j rFirst rLast jFirst jLast => ?_,fun _ => ⟨le_refl _,?_⟩,
        fun _ => ⟨?_,le_refl _⟩⟩,fun _ _ => rfl⟩,fun _ _ _ _ some => absurd rfl some⟩
      · exact priced.low r j rFirst rLast jFirst jLast
      · simp
      simp
    | succ i ih =>
    obtain ⟨held,found,assigned,tight⟩ := ih (by omega)
    have few : ((i + 1 : Nat) : Int) * top ≤ (rows + 1) * top :=
      Int.mul_le_mul_of_nonneg_right (by omega) low
    have more : ((i + 1 : Nat) : Int) * top = i * top + top := by
      rw [Int.natCast_add,Int.add_mul]
      omega
    obtain ⟨next,placed,after,tight'⟩ := placeRow_assigns priced wide inside (Int.mul_nonneg (by omega) low)
      (show top + i * top < limit by omega) assigned tight
    rw [← more] at after
    exact ⟨next,by rw [assign,found,Option.bind_some,placed],after,tight'⟩
  exact upto rows (Nat.le_refl rows)

end WindowsOnM1.Hungarian
