import SpanJoin.Cell.Order
import SpanJoin.Proofs.Table.Keys

/-!
# Matching labels

`Cell.sameLabel` is symmetric (`sameLabel_symm`), but it is neither reflexive nor transitive: a NaN
matches nothing, and a floating-point number may match two different integers that round to it. So
there are no classes of labels, and `Cell.Apart` says of a list that no two labels in it match. The
order of the list does not matter (`Apart.perm`), and different texts are apart (`apart_texts`).
Among labels that are no floating-point numbers to match is to be identical (`sameLabel_iff_eq`).
-/

namespace SpanJoin.Cell

/-! ## Symmetry -/

theorem orderInt_eq_iff {a b : Int} : orderInt a b = .eq ↔ a = b := by
  unfold orderInt
  split
  · simp only [reduceCtorEq, false_iff]
    omega
  · split
    · simp only [reduceCtorEq, false_iff]
      omega
    · simp only [true_iff]
      omega

theorem orderText_eq_iff {a b : String} : orderText a b = .eq ↔ a = b := by
  unfold orderText
  split
  · rename_i h
    simp only [reduceCtorEq, false_iff]
    rintro rfl
    exact lt_irrefl a h
  · split
    · rename_i h
      simp only [reduceCtorEq, false_iff]
      rintro rfl
      exact lt_irrefl a h
    · rename_i hab hba
      simp only [true_iff]
      exact le_antisymm (not_lt.1 hba) (not_lt.1 hab)

theorem orderFloat?_symm {x y : Float} (h : orderFloat? x y = some .eq) :
    orderFloat? y x = some .eq := by
  unfold orderFloat? at h ⊢
  split at h
  · cases h
  · rename_i hxy
    split at h
    · cases h
    · rename_i hyx
      split at h
      · rename_i heq
        rw [if_neg hyx, if_neg hxy, if_pos (by rw [BEq.comm, heq])]
      · cases h

theorem compare?_symm {a b : Cell} (h : a.compare? b = some .eq) : b.compare? a = some .eq := by
  cases a <;> cases b <;> simp only [compare?, number?, Option.some.injEq, reduceCtorEq] at h ⊢
  case int.int | bool.bool => exact orderInt_eq_iff.2 (orderInt_eq_iff.1 h).symm
  case text.text => exact orderText_eq_iff.2 (orderText_eq_iff.1 h).symm
  case int.float | float.int | float.float => exact orderFloat?_symm h

theorem sameLabel_iff {a b : Cell} :
    a.sameLabel b = true ↔ (a == b) = true ∨ a.compare? b = some .eq := by
  simp [sameLabel]

theorem sameLabel_symm {a b : Cell} (h : a.sameLabel b = true) : b.sameLabel a = true :=
  sameLabel_iff.2 ((sameLabel_iff.1 h).imp beq_symm compare?_symm)

/-! ## Labels that are apart -/

variable {l l' : List Cell}

/-- No two of the labels match. -/
def Apart (labels : List Cell) : Prop := labels.Pairwise fun a b => a.sameLabel b = false

theorem Apart.perm (h : Apart l) (hp : l.Perm l') : Apart l' := by
  refine hp.pairwise h fun {a b} hab => ?_
  rw [Bool.eq_false_iff] at hab ⊢
  exact fun hba => hab (sameLabel_symm hba)

theorem apart_append_singleton {a : Cell} :
    Apart (l ++ [a]) ↔ Apart l ∧ ∀ b ∈ l, b.sameLabel a = false := by
  simp [Apart, List.pairwise_append]

theorem sameLabel_text {s t : String} : (text s).sameLabel (text t) = true ↔ s = t := by
  rw [sameLabel_iff, compare?, Option.some.injEq, orderText_eq_iff]
  simp [beq_def, equal]

theorem apart_texts {ss : List String} (h : ss.Nodup) : Apart (ss.map text) := by
  refine List.pairwise_map.2 (h.imp fun {s t} hne => ?_)
  rw [Bool.eq_false_iff]
  exact fun hst => hne (sameLabel_text.1 hst)

/-! ## Labels that are no floating-point numbers -/

/-- Is the cell a floating-point number? -/
def isFloat : Cell → Bool
  | float _ => true
  | _ => false

theorem sameLabel_iff_eq {a b : Cell} (ha : a.isFloat = false) (hb : b.isFloat = false) :
    a.sameLabel b = true ↔ a = b := by
  rw [sameLabel_iff]
  cases a <;> cases b <;>
    simp [isFloat, beq_def, equal, compare?, number?, orderInt_eq_iff, orderText_eq_iff] at ha hb ⊢
  case bool.bool b c => cases b <;> cases c <;> simp
  case int.int => exact Int64.toInt_inj.1

end SpanJoin.Cell
