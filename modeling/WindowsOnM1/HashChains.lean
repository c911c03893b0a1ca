import Mathlib.Data.List.Nodup
import Mathlib.Logic.Function.Basic

/-!
A hash index over a list of items: every bucket is a chain of serial numbers, and the
chains hold exactly the items, each in the bucket of its key. A search of a chain then
finds what a search of the list would find.
-/
namespace WindowsOnM1.HashChains
open List Function

variable {α κ : Type*} {serial : α → Nat} {key : α → κ} {place : κ → Nat} {items : List α} {buckets : Nat → List Nat}

/-- The chains hold exactly the items, and no serial number and no key is used twice. -/
structure Chained (serial : α → Nat) (key : α → κ) (place : κ → Nat) (items : List α) (buckets : Nat → List Nat) :
    Prop where
  serials : (items.map serial).Nodup
  keys : (items.map key).Nodup
  chained : ∀ b s, s ∈ buckets b ↔ ∃ item ∈ items, serial item = s ∧ place (key item) = b
  once : ∀ b, (buckets b).Nodup

def itemAt (serial : α → Nat) (items : List α) (s : Nat) : Option α := items.find? (fun item => serial item == s)
def search [BEq κ] (serial : α → Nat) (key : α → κ) (place : κ → Nat) (items : List α) (buckets : Nat → List Nat) (k : κ) :
    Option α := ((buckets (place k)).filterMap (itemAt serial items)).find? (fun item => key item == k)
theorem itemAt_some {s : Nat} {item : α} (found : itemAt serial items s = some item) : item ∈ items ∧ serial item = s := by
  have here := find?_some found
  rw [beq_iff_eq] at here
  exact ⟨mem_of_find?_eq_some found,here⟩
theorem itemAt_none {s : Nat} (missing : itemAt serial items s = none) : ∀ item ∈ items, serial item ≠ s := by
  intro item mem same
  exact find?_eq_none.mp missing item mem (beq_iff_eq.mpr same)

namespace Chained

section
variable (chains : Chained serial key place items buckets)
include chains

theorem eq_of_serial {a b : α} (here : a ∈ items) (there : b ∈ items)
    (same : serial a = serial b) : a = b := inj_on_of_nodup_map chains.serials here there same
theorem eq_of_key {a b : α} (here : a ∈ items) (there : b ∈ items)
    (same : key a = key b) : a = b := inj_on_of_nodup_map chains.keys here there same

theorem itemAt_mem {item : α} (mem : item ∈ items) : itemAt serial items (serial item) = some item := by
  cases found : itemAt serial items (serial item) with
  | none => exact absurd rfl (itemAt_none found item mem)
  | some other =>
  obtain ⟨here,same⟩ := itemAt_some found
  rw [chains.eq_of_serial here mem same]

theorem search_iff [BEq κ] [LawfulBEq κ] {k : κ} {item : α} :
    search serial key place items buckets k = some item ↔ item ∈ items ∧ key item = k := by
  constructor
  · intro found
    have here := find?_some found
    rw [beq_iff_eq] at here
    obtain ⟨s,_,pointer⟩ := mem_filterMap.mp (mem_of_find?_eq_some found)
    exact ⟨(itemAt_some pointer).1,here⟩
  rintro ⟨mem,rfl⟩
  have chained : item ∈ (buckets (place (key item))).filterMap (itemAt serial items) :=
    mem_filterMap.mpr ⟨serial item,(chains.chained _ _).mpr ⟨item,mem,rfl,rfl⟩,chains.itemAt_mem mem⟩
  cases found : search serial key place items buckets (key item) with
  | none => exact absurd (beq_iff_eq.mpr rfl) (find?_eq_none.mp found item chained)
  | some other =>
  have here := find?_some found
  rw [beq_iff_eq] at here
  obtain ⟨s,_,pointer⟩ := mem_filterMap.mp (mem_of_find?_eq_some found)
  rw [chains.eq_of_key (itemAt_some pointer).1 mem here]

theorem search_none [BEq κ] [LawfulBEq κ] {k : κ}
    (missing : search serial key place items buckets k = none) : ∀ item ∈ items, key item ≠ k := by
  intro item mem same
  rw [chains.search_iff.mpr ⟨mem,same⟩] at missing
  cases missing

theorem push (new : α) (fresh : ∀ item ∈ items, serial item ≠ serial new) (free : ∀ item ∈ items, key item ≠ key new) :
    Chained serial key place (new :: items)
      (Function.update buckets (place (key new)) (serial new :: buckets (place (key new)))) := by
  have notChained : ∀ b, serial new ∉ buckets b := by
    intro b mem
    obtain ⟨item,there,same,_⟩ := (chains.chained b _).mp mem
    exact fresh item there same
  refine ⟨nodup_cons.mpr ⟨fun mem => ?_,chains.serials⟩,nodup_cons.mpr ⟨fun mem => ?_,chains.keys⟩,
    fun b s => ?_,fun b => ?_⟩
  · obtain ⟨item,there,same⟩ := mem_map.mp mem
    exact fresh item there same
  · obtain ⟨item,there,same⟩ := mem_map.mp mem
    exact free item there same
  · rw [exists_mem_cons_iff]
    by_cases here : b = place (key new)
    · subst here
      rw [update_self,mem_cons,chains.chained]
      simp only [and_true,eq_comm]
    rw [update_of_ne here,chains.chained]
    simp only [Ne.symm here,and_false,false_or]
  by_cases here : b = place (key new)
  · subst here
    rw [update_self]
    exact nodup_cons.mpr ⟨notChained _,chains.once _⟩
  rw [update_of_ne here]
  exact chains.once b

theorem remove {gone : α} (mem : gone ∈ items) :
    Chained serial key place (items.filter (fun item => serial item != serial gone))
      (Function.update buckets (place (key gone)) ((buckets (place (key gone))).erase (serial gone))) := by
  have others : ∀ b s, (∃ item ∈ items.filter (fun item => serial item != serial gone),
      serial item = s ∧ place (key item) = b) ↔
      s ≠ serial gone ∧ ∃ item ∈ items, serial item = s ∧ place (key item) = b := by
    intro b s
    constructor
    · rintro ⟨item,there,rfl,isPlace⟩
      obtain ⟨there,apart⟩ := mem_filter.mp there
      exact ⟨bne_iff_ne.mp apart,item,there,rfl,isPlace⟩
    rintro ⟨apart,item,there,rfl,isPlace⟩
    exact ⟨item,mem_filter.mpr ⟨there,bne_iff_ne.mpr apart⟩,rfl,isPlace⟩
  refine ⟨chains.serials.sublist (filter_sublist.map _),chains.keys.sublist (filter_sublist.map _),
    fun b s => ?_,fun b => ?_⟩
  · rw [others]
    by_cases here : b = place (key gone)
    · subst here
      rw [update_self,(chains.once _).mem_erase_iff,chains.chained]
    rw [update_of_ne here,chains.chained]
    constructor
    · rintro ⟨item,there,rfl,isPlace⟩
      refine ⟨fun same => here ?_,item,there,rfl,isPlace⟩
      rw [← isPlace,chains.eq_of_serial there mem same]
    exact And.right
  by_cases here : b = place (key gone)
  · subst here
    rw [update_self]
    exact (chains.once _).erase _
  rw [update_of_ne here]
  exact chains.once b

theorem map {change : α → α} (keeps : ∀ item, serial (change item) = serial item ∧ key (change item) = key item) :
    Chained serial key place (items.map change) buckets := by
  refine ⟨?_,?_,fun b s => ?_,chains.once⟩
  · have same : serial ∘ change = serial := funext (fun item => (keeps item).1)
    rw [map_map,same]
    exact chains.serials
  · have same : key ∘ change = key := funext (fun item => (keeps item).2)
    rw [map_map,same]
    exact chains.keys
  rw [chains.chained]
  constructor
  · rintro ⟨item,there,isSerial,isPlace⟩
    exact ⟨_,mem_map_of_mem there,(keeps item).1.trans isSerial,by rw [(keeps item).2,isPlace]⟩
  rintro ⟨_,mem,isSerial,isPlace⟩
  obtain ⟨item,there,rfl⟩ := mem_map.mp mem
  exact ⟨item,there,(keeps item).1.symm.trans isSerial,by rw [← (keeps item).2,isPlace]⟩

end

end Chained

end WindowsOnM1.HashChains
