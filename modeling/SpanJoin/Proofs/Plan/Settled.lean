import SpanJoin.Plan.Reorder
import SpanJoin.Proofs.Plan.Ordered
import SpanJoin.Proofs.Tree.Identity

/-!
# What bringing declarations into order does

A pass that exchanges nothing has found no reference to a later declaration (`exchangeEach_eq_iff`).
So what `Plan.settle` gives are the same declarations, with no reference to a later one
(`settle_spec`). Declarations in a circle have no such order and are refused (`settle_eq_error`).
Where there is no reference to a later one, nothing changes (`settle_eq_self`), as in an ordered
plan (`Ordered.settle_eq`).
-/

namespace SpanJoin.Plan

/-- No declaration refers to a later one. -/
def Settled (ds : List (String × Tree)) : Prop :=
  ds.Pairwise fun d e => Tree.refer e.1 ∉ d.2.subtrees

variable {ds es : List (String × Tree)}

/-! ## One pass -/

theorem exchange_perm (ds : List (String × Tree)) (i j : Nat) : (exchange ds i j).Perm ds := by
  unfold exchange
  split
  next d e hd he =>
    obtain ⟨hi, rfl⟩ := List.getElem?_eq_some_iff.1 hd
    obtain ⟨hj, rfl⟩ := List.getElem?_eq_some_iff.1 he
    exact List.set_set_perm hi hj
  next => exact .refl ds

/-- A pass keeps all declarations. -/
theorem exchangeEach_perm (pairs : List (Nat × Nat)) (ds : List (String × Tree)) :
    (exchangeEach pairs ds).1.Perm ds := by
  induction pairs generalizing ds with
  | nil => exact .refl ds
  | cons q rest ih =>
    rw [exchangeEach]
    split
    · exact (ih _).trans (exchange_perm ds q.1 q.2)
    · exact ih ds

/-- A pass that exchanges nothing leaves the declarations as they are, and comes about if there is
no reference between the positions that it looks at. -/
theorem exchangeEach_eq_iff {pairs : List (Nat × Nat)} :
    exchangeEach pairs ds = (es, false) ↔
      es = ds ∧ ∀ q ∈ pairs, refersAt ds q.1 q.2 = false := by
  induction pairs with
  | nil =>
    rw [exchangeEach, Prod.mk.injEq, eq_comm]
    simp
  | cons q rest ih =>
    rw [exchangeEach, List.forall_mem_cons]
    cases refersAt ds q.1 q.2 with
    | true => simp
    | false => simpa using ih

theorem mem_positionPairs {n i j : Nat} : (i, j) ∈ positionPairs n ↔ i < j ∧ j < n := by
  simp only [positionPairs, List.mem_flatMap, List.mem_range, List.mem_map, List.mem_range'_1,
    Prod.mk.injEq]
  constructor
  · rintro ⟨k, hk, l, hl, rfl, rfl⟩
    omega
  · rintro ⟨hij, hj⟩
    exact ⟨i, by omega, j, by omega, rfl, rfl⟩

/-- There is no reference between any two positions exactly if the declarations are settled. -/
theorem settled_iff : Settled ds ↔
    ∀ q ∈ positionPairs ds.length, refersAt ds q.1 q.2 = false := by
  rw [Settled, List.pairwise_iff_getElem]
  constructor
  · rintro h ⟨i, j⟩ hq
    obtain ⟨hij, hj⟩ := mem_positionPairs.1 hq
    have hi : i < ds.length := by omega
    simp [refersAt, List.getElem?_eq_getElem hi, List.getElem?_eq_getElem hj,
      ← Bool.not_eq_true, Tree.contains_refer_iff, h i j hi hj hij]
  · intro h i j hi hj hij hm
    have no := h (i, j) (mem_positionPairs.2 ⟨hij, hj⟩)
    simp [refersAt, List.getElem?_eq_getElem hi, List.getElem?_eq_getElem hj,
      Tree.contains_refer_iff.2 hm] at no

/-! ## All passes -/

/-- **Bringing declarations into order** gives the same declarations, and none of them refers to a
later one. -/
theorem settle_spec (h : settle ds = .ok es) : es.Perm ds ∧ Settled es := by
  unfold settle at h
  generalize maxPasses = passes at h
  induction passes generalizing ds with
  | zero => cases h
  | succ passes ih =>
    rw [settleWithin] at h
    have perm := exchangeEach_perm (positionPairs ds.length) ds
    split at h
    next fs he =>
      obtain ⟨rfl, quiet⟩ := exchangeEach_eq_iff.1 he
      obtain rfl : fs = es := Except.ok.inj h
      exact ⟨.refl fs, settled_iff.2 quiet⟩
    next fs he =>
      rw [he] at perm
      obtain ⟨hp, hs⟩ := ih h
      exact ⟨hp.trans perm, hs⟩

example : settle [("outer", .refer "inner"), ("inner", .leftColumn "A")] =
    .ok [("inner", .leftColumn "A"), ("outer", .refer "inner")] := rfl

theorem eq_of_settleWithin_eq_error {passes : Nat} {e : PlanError}
    (h : settleWithin passes ds = .error e) : e = .circularDeclaration maxPasses := by
  induction passes generalizing ds with
  | zero => exact (Except.error.inj h).symm
  | succ passes ih =>
    rw [settleWithin] at h
    split at h
    · cases h
    · exact ih h

/-- Declarations that cannot be brought into order are refused. -/
theorem settle_eq_error (h : ∀ es, es.Perm ds → ¬ Settled es) :
    settle ds = .error (.circularDeclaration maxPasses) := by
  cases hs : settle ds with
  | ok es =>
    obtain ⟨perm, settled⟩ := settle_spec hs
    exact absurd settled (h es perm)
  | error e => rw [eq_of_settleWithin_eq_error hs]

example : settle [("a", .refer "b"), ("b", .refer "a")] = .error (.circularDeclaration 50) := rfl

/-- Declarations without references to later ones are in order as they are. -/
theorem settle_eq_self (h : Settled ds) : settle ds = .ok ds := by
  have quiet : exchangeEach (positionPairs ds.length) ds = (ds, false) :=
    exchangeEach_eq_iff.2 ⟨rfl, settled_iff.1 h⟩
  rw [settle, maxPasses, settleWithin, quiet]

/-- The declarations of an ordered plan stay where they are. -/
theorem Ordered.settle_eq {p : Plan} (h : p.Ordered) :
    settle p.declarations = .ok p.declarations := by
  refine settle_eq_self (List.pairwise_iff_getElem.2 fun i j hi hj hij hm => ?_)
  obtain ⟨k, hk, e, he, hcs⟩ := h.earlier i _ (List.getElem?_eq_getElem hi) _ hm
  have hn : p.declarations[j].1 = e.1 := by simpa [Tree.ofText] using hcs
  have := h.position_eq (List.getElem?_eq_getElem hj) he hn
  omega

end SpanJoin.Plan
