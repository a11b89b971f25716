import Mathlib.Data.List.Sort
import SpanJoin.Collection.Sort

/-!
# Sorted lists

Sorting by a relation is the insertion sort of the library (`sortBy_eq_insertionSort`), which gives
a permutation of the list. The result is sorted if the relation is total and transitive among
elements such as the list has (`pairwise_sortBy_of_forall`).
-/

namespace SpanJoin

variable {α : Type} {le : α → α → Bool}

theorem insertBy_eq_orderedInsert (a : α) (l : List α) :
    insertBy le a l = l.orderedInsert (fun b c => le b c) a := by
  induction l with
  | nil => rfl
  | cons b rest ih => rw [insertBy, ih, List.orderedInsert_cons]

theorem sortBy_eq_insertionSort (l : List α) :
    sortBy le l = l.insertionSort fun a b => le a b := by
  induction l with
  | nil => rfl
  | cons a rest ih => rw [sortBy, ih, insertBy_eq_orderedInsert, List.insertionSort_cons]

theorem sortBy_perm (l : List α) : (sortBy le l).Perm l := by
  rw [sortBy_eq_insertionSort]
  exact List.perm_insertionSort _ l

/-- The result is sorted if the relation is total and transitive among elements such as the list
has. -/
theorem pairwise_sortBy_of_forall {S : α → Prop}
    (total : ∀ a b, S a → S b → le a b || le b a)
    (trans : ∀ a b c, S a → S b → S c → le a b → le b c → le a c) {l : List α}
    (hl : ∀ a ∈ l, S a) : (sortBy le l).Pairwise fun b c => le b c := by
  -- sorting commutes with forgetting that the elements are such
  let among : Subtype S → Subtype S → Prop := fun a b => le a b
  have : Std.Total among := ⟨fun a b => by simpa [among] using total a b a.2 b.2⟩
  have : IsTrans (Subtype S) among := ⟨fun a b c => trans a b c a.2 b.2 c.2⟩
  have sorted := List.pairwise_insertionSort among (l.attachWith S hl)
  have forgotten : (l.attachWith S hl).map Subtype.val = l := List.attachWith_map_subtype_val hl
  rw [sortBy_eq_insertionSort, ← forgotten, ← List.map_insertionSort among _ Subtype.val]
  · exact sorted.map Subtype.val fun _ _ h => h
  · exact fun _ _ _ _ => .rfl

end SpanJoin
