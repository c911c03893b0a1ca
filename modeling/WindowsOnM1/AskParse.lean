import WindowsOnM1.Checks
import WindowsOnM1.RecordLayout

/-!
Parsers that read the first bytes of a buffer and ask an oracle to grant requests. The oracle
sees every request that it granted before, so that it may keep a state of its own. A parser
does a job when it gives its value exactly if a condition holds and every request of the job is
granted in its order.
-/
namespace WindowsOnM1.AskParse
open Checks ByteMemory RecordLayout List

variable {ρ ε α β : Type}

/-- The state is the list of the granted requests. -/
abbrev Ask (ρ ε α : Type) := StateT (List ρ) (Check ε) α
abbrev Oracle (ρ : Type) := List ρ → ρ → Bool
def ask (oracle : Oracle ρ) (refusal : Nat → ρ → ε) (request : ρ) : Ask ρ ε PUnit := fun granted =>
  if oracle granted request = true then .ok (⟨⟩,granted ++ [request]) else .error (.rejected (refusal granted.length request))
def refuseIf (bad : Prop) [Decidable bad] (reason : ε) : Ask ρ ε PUnit := fun granted =>
  if bad then .error (.rejected reason) else .ok (⟨⟩,granted)

/-- A record inside the first `limit` bytes. -/
def fetch (layout : Layout α) (memory : Memory) (limit offset : Nat) : Ask ρ ε α := fun granted =>
  if offset + layout.size ≤ limit then .ok (layout.readAt memory offset,granted) else .error .outside

def forEach (body : α → Ask ρ ε PUnit) : List α → Ask ρ ε PUnit
  | [] => pure ⟨⟩
  | element :: rest => do
    body element
    forEach body rest

/-- The oracle grants the requests one after another. -/
def Granted (oracle : Oracle ρ) : List ρ → List ρ → Prop
  | _, [] => True
  | granted, request :: rest => oracle granted request = true ∧ Granted oracle (granted ++ [request]) rest

variable {oracle : Oracle ρ}

theorem granted_append {granted first second : List ρ} :
    Granted oracle granted (first ++ second) ↔ Granted oracle granted first ∧ Granted oracle (granted ++ first) second := by
  induction first generalizing granted with
  | nil => simp [Granted]
  | cons request rest ih =>
  simp only [cons_append,Granted,ih,append_assoc,nil_append]
  exact and_assoc.symm

theorem Granted.mem {granted requests : List ρ} (all : Granted oracle granted requests) {request : ρ}
    (mem : request ∈ requests) : ∃ before after, requests = before ++ request :: after ∧ oracle (granted ++ before) request = true := by
  obtain ⟨before,after,rfl⟩ := append_of_mem mem
  exact ⟨before,after,rfl,(granted_append.mp all).2.1⟩

theorem granted_all (accepts : ∀ granted request, oracle granted request = true) :
    ∀ granted requests, Granted oracle granted requests := by
  intro granted requests
  induction requests generalizing granted with
  | nil => trivial
  | cons request rest ih => exact ⟨accepts _ _,ih _⟩

/-- The parser never reads outside, and gives the value exactly if the condition holds and the requests are granted. -/
structure Does (oracle : Oracle ρ) (parser : Ask ρ ε α) (condition : Prop) (value : α) (requests : List ρ) : Prop where
  inside : ∀ granted, parser granted ≠ .error .outside
  gives : ∀ granted value' granted', parser granted = .ok (value',granted') ↔
    condition ∧ value' = value ∧ granted' = granted ++ requests ∧ Granted oracle granted requests

namespace Does
variable {oracle : Oracle ρ} {parser : Ask ρ ε α} {condition condition' : Prop} {value value' : α} {requests requests' : List ρ}

theorem pure : Does oracle (Pure.pure value : Ask ρ ε α) True value [] where
  inside granted impossible := by cases impossible
  gives granted value' granted' := by
    constructor
    · intro given
      cases given
      exact ⟨trivial,rfl,(append_nil granted).symm,trivial⟩
    rintro ⟨-,rfl,rfl,-⟩
    show Except.ok _ = _
    rw [append_nil]

variable {bad : Prop} {reason : ε}

theorem refuseIf [Decidable bad] : Does oracle (AskParse.refuseIf bad reason) (¬ bad) ⟨⟩ [] where
  inside granted := by
    unfold AskParse.refuseIf
    split
    all_goals
      intro impossible
      cases impossible
  gives granted value' granted' := by
    unfold AskParse.refuseIf
    by_cases holds : bad
    · rw [if_pos holds]
      exact ⟨nofun,fun ⟨good,_⟩ => absurd holds good⟩
    rw [if_neg holds,append_nil]
    constructor
    · intro given
      cases given
      exact ⟨holds,rfl,rfl,trivial⟩
    rintro ⟨-,rfl,rfl,-⟩
    rfl

variable {layout : Layout α} {memory : Memory}

theorem fetch {limit offset : Nat} (inside : offset + layout.size ≤ limit) :
    Does oracle (AskParse.fetch layout memory limit offset : Ask ρ ε α) True (layout.readAt memory offset) [] := by
  have runs : (AskParse.fetch layout memory limit offset : Ask ρ ε α) = Pure.pure (layout.readAt memory offset) :=
    funext fun granted => if_pos inside
  rw [runs]
  exact pure

theorem ask {refusal : Nat → ρ → ε} {request : ρ} : Does oracle (AskParse.ask oracle refusal request) True ⟨⟩ [request] where
  inside granted := by
    unfold AskParse.ask
    split
    all_goals
      intro impossible
      cases impossible
  gives granted value' granted' := by
    unfold AskParse.ask
    split
    · rename_i accepted
      constructor
      · intro given
        cases given
        exact ⟨trivial,rfl,rfl,accepted,trivial⟩
      rintro ⟨-,rfl,rfl,-⟩
      rfl
    rename_i accepted
    exact ⟨nofun,fun ⟨_,_,_,yes,_⟩ => absurd yes accepted⟩

variable {next : α → Ask ρ ε β} {after : Prop}

/-- The second parser is judged only where the first one passes. -/
theorem bind {value' : β} {requests' : List ρ}
    (first : Does oracle parser condition value requests) (second : condition → Does oracle (next value) after value' requests') :
    Does oracle (parser >>= next) (condition ∧ after) value' (requests ++ requests') where
  inside granted outside := by
    change (parser granted >>= fun result => next result.1 result.2) = _ at outside
    match run : parser granted with
    | .error .outside => exact first.inside granted run
    | .error (.rejected reason) =>
      rw [run] at outside
      cases outside
    | .ok (found,granted') =>
      rw [run] at outside
      obtain ⟨holds,rfl,rfl,-⟩ := (first.gives granted found granted').mp run
      exact (second holds).inside _ outside
  gives granted result granted' := by
    change (parser granted >>= fun result => next result.1 result.2) = _ ↔ _
    constructor
    · intro given
      match run : parser granted with
      | .error fault =>
        rw [run] at given
        cases given
      | .ok (found,between) =>
        rw [run] at given
        obtain ⟨holds,rfl,rfl,early⟩ := (first.gives granted found between).mp run
        obtain ⟨holds',rfl,rfl,late⟩ := ((second holds).gives _ result granted').mp given
        exact ⟨⟨holds,holds'⟩,rfl,append_assoc _ _ _,granted_append.mpr ⟨early,late⟩⟩
    rintro ⟨⟨holds,holds'⟩,rfl,rfl,all⟩
    obtain ⟨early,late⟩ := granted_append.mp all
    rw [(first.gives granted value (granted ++ requests)).mpr ⟨holds,rfl,rfl,early⟩]
    exact ((second holds).gives _ _ _).mpr ⟨holds',rfl,(append_assoc _ _ _).symm,late⟩

theorem iff (does : Does oracle parser condition value requests) (same : condition ↔ condition') :
    Does oracle parser condition' value requests := by
  rwa [← propext same]

theorem giving (does : Does oracle parser condition value requests) (same : condition → value = value' ∧ requests = requests') :
    Does oracle parser condition value' requests' where
  inside := does.inside
  gives granted result granted' := by
    rw [does.gives]
    constructor
    · rintro ⟨holds,rfl,rfl,all⟩
      obtain ⟨rfl,rfl⟩ := same holds
      exact ⟨holds,rfl,rfl,all⟩
    rintro ⟨holds,rfl,rfl,all⟩
    obtain ⟨rfl,rfl⟩ := same holds
    exact ⟨holds,rfl,rfl,all⟩

theorem ite {other : Ask ρ ε α} {choice : Prop} [Decidable choice] (yes : choice → Does oracle parser condition value requests)
    (no : ¬ choice → Does oracle other condition' value' requests') :
    Does oracle (if choice then parser else other) (if choice then condition else condition') (if choice then value else value')
      (if choice then requests else requests') := by
  by_cases holds : choice
  · simp only [if_pos holds]
    exact yes holds
  simp only [if_neg holds]
  exact no holds

theorem passing [Decidable bad] {next : PUnit → Ask ρ ε β} {value : β} {requests : List ρ}
    (rest : ¬ bad → Does oracle (next ⟨⟩) after value requests) :
    Does oracle (AskParse.refuseIf bad reason >>= next) (¬ bad ∧ after) value requests :=
  refuseIf.bind rest
theorem fetching {limit offset : Nat} {value : β} {requests : List ρ} (inside : offset + layout.size ≤ limit)
    (rest : Does oracle (next (layout.readAt memory offset)) after value requests) :
    Does oracle (AskParse.fetch layout memory limit offset >>= next) after value requests :=
  ((fetch inside).bind (fun _ => rest)).iff (iff_of_eq (true_and _))

theorem forEach {body : α → Ask ρ ε PUnit} {fits : α → Prop} {wants : α → List ρ} {list : List α}
    (element : ∀ a ∈ list, Does oracle (body a) (fits a) ⟨⟩ (wants a)) :
    Does oracle (AskParse.forEach body list) (∀ a ∈ list, fits a) ⟨⟩ (list.flatMap wants) := by
  induction list with
  | nil => exact pure.iff (by simp)
  | cons a rest ih =>
  refine ((element a mem_cons_self).bind (fun _ => ih (fun b later => element b (mem_cons_of_mem _ later)))).iff ?_
  exact forall_mem_cons.symm

end Does

end WindowsOnM1.AskParse
