import Mathlib.Data.List.Induction

/-!
A ledger of jobs that are accepted, handled, completed and taken, one at a time. What the
rules of the ledger say about every place in it.
-/
namespace WindowsOnM1.JobLedger
open List

variable {J E C : Type*}

inductive Entry (J E C : Type*)
  | accepted (job : J)
  | handled (event : E)
  | produced (completion : C)
  | taken (completion : C)
  | reset

inductive Account (J E C : Type*)
  | free
  | outstanding (job : J) (since : List E)
  | completed (job : J) (since : List E) (completion : C)

/-- The ledgers that keep the rules, and where they stand: a job is accepted when none is
    outstanding, events are handled for it, a completion that is sound for the job and its
    events ends it, and is taken. A reset drops a job that has no completion. -/
inductive Kept (sound : J → List E → C → Prop) : List (Entry J E C) → Account J E C → Prop
  | empty : Kept sound [] .free
  | accepted {ledger} (job : J) (before : Kept sound ledger .free) : Kept sound (ledger ++ [.accepted job]) (.outstanding job [])
  | handled {ledger job since} (event : E) (before : Kept sound ledger (.outstanding job since)) :
      Kept sound (ledger ++ [.handled event]) (.outstanding job (since ++ [event]))
  | produced {ledger job since} (completion : C) (before : Kept sound ledger (.outstanding job since))
      (is : sound job since completion) : Kept sound (ledger ++ [.produced completion]) (.completed job since completion)
  | taken {ledger job since completion} (before : Kept sound ledger (.completed job since completion)) :
      Kept sound (ledger ++ [.taken completion]) .free
  | resetFree {ledger} (before : Kept sound ledger .free) : Kept sound (ledger ++ [.reset]) .free
  | resetJob {ledger job since} (before : Kept sound ledger (.outstanding job since)) : Kept sound (ledger ++ [.reset]) .free

variable {sound : J → List E → C → Prop} {ledger before after : List (Entry J E C)} {account : Account J E C}

theorem Kept.last {entry : Entry J E C} (kept : Kept sound (before ++ [entry]) account) : ∃ account', Kept sound before account' := by
  generalize whole : before ++ [entry] = ledger at kept
  cases kept with
  | empty => exact absurd whole (append_ne_nil_of_right_ne_nil _ (cons_ne_nil _ _))
  | accepted job prior | handled event prior | produced completion prior | taken prior | resetFree prior | resetJob prior =>
  exact ⟨_,(append_inj_left' whole rfl) ▸ prior⟩

theorem Kept.prefix (kept : Kept sound (before ++ after) account) : ∃ account', Kept sound before account' := by
  induction after using reverseRecOn generalizing account with
  | nil => exact ⟨account,by rwa [append_nil] at kept⟩
  | append_singleton after entry ih =>
  rw [← append_assoc] at kept
  obtain ⟨account',prior⟩ := kept.last
  exact ih prior

theorem Kept.outstanding {job : J} {since : List E} (kept : Kept sound ledger (.outstanding job since)) :
    ∃ earlier, Kept sound earlier .free ∧ ledger = earlier ++ .accepted job :: since.map .handled := by
  generalize is : Account.outstanding job since = account at kept
  induction kept generalizing since with
  | accepted job' prior =>
    cases is
    exact ⟨_,prior,rfl⟩
  | handled event prior ih =>
    cases is
    obtain ⟨earlier,free,rfl⟩ := ih rfl
    exact ⟨earlier,free,by rw [map_append,append_assoc]; rfl⟩
  | empty | produced | taken | resetFree | resetJob => cases is

variable {completion : C}

theorem Kept.produced_for (kept : Kept sound (before ++ .produced completion :: after) account) :
    ∃ earlier job since, before = earlier ++ .accepted job :: since.map .handled ∧ sound job since completion := by
  obtain ⟨account',prior⟩ := Kept.prefix (show Kept sound ((before ++ [.produced completion]) ++ after) account by
    rwa [append_assoc])
  generalize whole : before ++ [Entry.produced completion] = ledger at prior
  cases prior with
  | empty => exact absurd whole (append_ne_nil_of_right_ne_nil _ (cons_ne_nil _ _))
  | produced completion' earlier is =>
    obtain ⟨rfl,same⟩ := append_inj' whole rfl
    cases same
    obtain ⟨start,_,rfl⟩ := earlier.outstanding
    exact ⟨start,_,_,rfl,is⟩
  | accepted | handled | taken | resetFree | resetJob =>
  obtain ⟨_,same⟩ := append_inj' whole rfl
  cases same

theorem Kept.taken_for (kept : Kept sound (before ++ .taken completion :: after) account) :
    ∃ earlier job since, before = earlier ++ .accepted job :: since.map .handled ++ [.produced completion] ∧
      sound job since completion := by
  obtain ⟨account',prior⟩ := Kept.prefix (show Kept sound ((before ++ [.taken completion]) ++ after) account by
    rwa [append_assoc])
  generalize whole : before ++ [Entry.taken completion] = ledger at prior
  cases prior with
  | empty => exact absurd whole (append_ne_nil_of_right_ne_nil _ (cons_ne_nil _ _))
  | taken earlier =>
    obtain ⟨rfl,same⟩ := append_inj' whole rfl
    cases same
    cases earlier with
    | produced _ start is =>
    obtain ⟨first,_,rfl⟩ := start.outstanding
    exact ⟨first,_,_,rfl,is⟩
  | accepted | handled | produced | resetFree | resetJob =>
  obtain ⟨_,same⟩ := append_inj' whole rfl
  cases same

variable {between : List (Entry J E C)}

/-- Between two accepted jobs a completion was taken, or there was a reset. -/
theorem Kept.between_accepted {job job' : J}
    (kept : Kept sound (before ++ .accepted job :: between ++ .accepted job' :: after) account) :
    (∃ completion, .taken completion ∈ between) ∨ .reset ∈ between := by
  obtain ⟨account',prior⟩ := Kept.prefix (show Kept sound ((before ++ .accepted job :: between ++ [.accepted job']) ++ after) account by
    rwa [append_assoc])
  generalize whole : before ++ .accepted job :: between ++ [Entry.accepted job'] = ledger at prior
  have free : Kept sound (before ++ .accepted job :: between) .free := by
    cases prior with
    | empty => exact absurd whole (append_ne_nil_of_right_ne_nil _ (cons_ne_nil _ _))
    | accepted _ earlier =>
      obtain ⟨rfl,_⟩ := append_inj' whole rfl
      exact earlier
    | handled | produced | taken | resetFree | resetJob =>
    obtain ⟨_,same⟩ := append_inj' whole rfl
    cases same
  -- the last entry before the second job is what made the account free
  rcases eq_nil_or_concat between with rfl | ⟨rest,entry,rfl⟩
  · generalize whole' : before ++ [Entry.accepted job] = ledger' at free
    cases free with
    | empty => exact absurd whole' (append_ne_nil_of_right_ne_nil _ (cons_ne_nil _ _))
    | taken | resetFree | resetJob =>
    obtain ⟨_,same⟩ := append_inj' whole' rfl
    cases same
  rw [concat_eq_append] at free ⊢
  rw [show before ++ Entry.accepted job :: (rest ++ [entry]) = (before ++ .accepted job :: rest) ++ [entry] by simp] at free
  generalize whole' : (before ++ Entry.accepted job :: rest) ++ [entry] = ledger' at free
  cases free with
  | empty => exact absurd whole' (append_ne_nil_of_right_ne_nil _ (cons_ne_nil _ _))
  | @taken _ _ _ completion =>
    obtain ⟨_,same⟩ := append_inj' whole' rfl
    cases same
    exact .inl ⟨completion,mem_append_right _ (mem_singleton.mpr rfl)⟩
  | resetFree | resetJob =>
  obtain ⟨_,same⟩ := append_inj' whole' rfl
  cases same
  exact .inr (mem_append_right _ (mem_singleton.mpr rfl))

theorem Kept.between_produced {completion' : C}
    (kept : Kept sound (before ++ .produced completion :: between ++ .produced completion' :: after) account) :
    ∃ job, .accepted job ∈ between := by
  obtain ⟨earlier,job,since,same,_⟩ := kept.produced_for
  refine ⟨job,?_⟩
  rcases append_eq_append_iff.mp same with ⟨rest,isEarlier,isBetween⟩ | ⟨rest,isBefore,isSuffix⟩
  · cases rest with
    | nil => cases isBetween
    | cons first rest =>
      obtain ⟨_,same'⟩ := List.cons.inj isBetween
      rw [same']
      exact mem_append_right _ mem_cons_self
  -- a completion among the events of a job
  cases rest with
  | nil => cases isSuffix
  | cons first rest =>
  obtain ⟨_,same'⟩ := List.cons.inj isSuffix
  have mem : Entry.produced completion ∈ since.map (Entry.handled (J := J) (C := C)) := by
    rw [same']
    exact mem_append_right _ mem_cons_self
  obtain ⟨_,_,bad⟩ := mem_map.mp mem
  cases bad

end WindowsOnM1.JobLedger
