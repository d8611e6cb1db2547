import Ferrotype.Output.Declaration
import Mathlib.Data.List.Nodup
import Mathlib.Data.String.Basic

/-!
# The order of names

Sorting by name loses nothing, doubles nothing, and leaves elements of one name in their order.
Where the names are distinct, it does not matter in which order the elements come.
-/

namespace Ferrotype.Output

variable {α β : Type} {name : α → String} {as bs : List α}

/-- `bs` holds the elements of `as` by name; those of one name stand as they do in `as`. -/
structure Sorts (name : α → String) (as bs : List α) : Prop where
  perm : bs.Perm as
  sorted : bs.Pairwise fun a b => name a ≤ name b
  stable : ∀ n, (bs.filter fun a => name a = n) = as.filter fun a => name a = n

/-! ## Sorting -/

theorem nameLe_trans (name : α → String) (a b c : α) (hab : decide (name a ≤ name b) = true)
    (hbc : decide (name b ≤ name c) = true) : decide (name a ≤ name c) = true :=
  decide_eq_true (le_trans (of_decide_eq_true hab) (of_decide_eq_true hbc))

theorem nameLe_total (name : α → String) (a b : α) :
    (decide (name a ≤ name b) || decide (name b ≤ name a)) = true := by
  simpa using le_total (name a) (name b)

theorem sortByName_sorted (name : α → String) (as : List α) :
    (sortByName name as).Pairwise fun a b => name a ≤ name b :=
  (List.pairwise_mergeSort (nameLe_trans name) (nameLe_total name) as).imp of_decide_eq_true

/-- Elements of one name are in order already, so the sort leaves them as they are. -/
theorem sortByName_stable (name : α → String) (as : List α) (n : String) :
    ((sortByName name as).filter fun a => name a = n) = as.filter fun a => name a = n := by
  have hp : ((sortByName name as).filter fun a => name a = n).Perm
      (as.filter fun a => name a = n) := (List.mergeSort_perm as _).filter _
  have ho : (as.filter fun a => name a = n).Pairwise fun a b =>
      decide (name a ≤ name b) = true := by
    apply List.pairwise_of_forall_mem_list
    intro a ha b hb
    have ha := of_decide_eq_true (List.mem_filter.1 ha).2
    have hb := of_decide_eq_true (List.mem_filter.1 hb).2
    simp [ha, hb]
  have hs : (as.filter fun a => name a = n).Sublist (sortByName name as) :=
    List.sublist_mergeSort (nameLe_trans name) (nameLe_total name) ho List.filter_sublist
  have hf := hs.filter fun a => name a = n
  rw [List.filter_filter] at hf
  simp only [Bool.and_self] at hf
  exact (hf.eq_of_length hp.length_eq.symm).symm

theorem sortByName_sorts (name : α → String) (as : List α) :
    Sorts name as (sortByName name as) where
  perm := List.mergeSort_perm as _
  sorted := sortByName_sorted name as
  stable := sortByName_stable name as

/-- What keeps the names keeps the order. -/
theorem ordered_map (name : α → String) (name' : β → String) {f : α → β}
    (hf : ∀ a, name' (f a) = name a) (sort : Bool) (as : List α) :
    ordered sort name' (as.map f) = (ordered sort name as).map f := by
  cases sort with
  | false => rfl
  | true =>
    apply (List.map_mergeSort _).symm
    intro a _ b _
    rw [hf, hf]

/-- What is in order stays as it is. -/
theorem sortByName_of_sorted (h : as.Pairwise fun a b => name a ≤ name b) :
    sortByName name as = as :=
  List.mergeSort_of_pairwise (h.imp fun hab => decide_eq_true hab)

/-! ## Distinct names -/

/-- Of distinct names there is one list in order. -/
theorem eq_of_sorted (h : as.Perm bs) (hn : (as.map name).Nodup)
    (ha : as.Pairwise fun a b => name a ≤ name b) (hb : bs.Pairwise fun a b => name a ≤ name b) :
    as = bs := by
  refine h.eq_of_pairwise ?_ ha hb
  intro a b hma hmb hab hba
  exact List.inj_on_of_nodup_map hn hma (h.mem_iff.2 hmb) (le_antisymm hab hba)

theorem sortByName_perm (h : as.Perm bs) (hn : (as.map name).Nodup) :
    sortByName name as = sortByName name bs := by
  have ha := sortByName_sorts name as
  have hb := sortByName_sorts name bs
  apply eq_of_sorted (ha.perm.trans (h.trans hb.perm.symm)) _ ha.sorted hb.sorted
  exact (ha.perm.map name).nodup_iff.2 hn

end Ferrotype.Output
