/-!
# Updating or adding an element

`upsert` walks a list to the first element with a property and updates it; if no element has the
property, a fresh one is added at the end. Groups of rows, bindings of names and occurrences of
subtrees are collected in this way, so that they stay in the order in which they were first met.

The main statements say what `upsert` does in the two cases (`upsert_of_forall_not`,
`upsert_append_cons`) and what becomes of the keys of the elements (`map_upsert`).
-/

namespace SpanJoin

/-- The list with its first element that satisfies `p` updated, or with `fresh` at the end if no
element does. -/
def upsert {α : Type} (p : α → Bool) (update : α → α) (fresh : α) : List α → List α
  | [] => [fresh]
  | a :: rest => if p a then update a :: rest else a :: upsert p update fresh rest

variable {α β : Type} {p : α → Bool} {update : α → α} {fresh : α}

theorem upsert_of_forall_not {l : List α} (h : ∀ a ∈ l, p a = false) :
    upsert p update fresh l = l ++ [fresh] := by
  induction l with
  | nil => rfl
  | cons a rest ih =>
    have ha : p a = false := h a List.mem_cons_self
    simp [upsert, ha, ih fun b hb => h b (List.mem_cons_of_mem a hb)]

theorem upsert_append_cons {l r : List α} {a : α} (h : ∀ b ∈ l, p b = false) (ha : p a = true) :
    upsert p update fresh (l ++ a :: r) = l ++ update a :: r := by
  induction l with
  | nil => simp [upsert, ha]
  | cons b rest ih =>
    have hb : p b = false := h b List.mem_cons_self
    simp [upsert, hb, ih fun c hc => h c (List.mem_cons_of_mem b hc)]

/-- What the update keeps is kept at every place, and only a fresh element adds to it. -/
theorem map_upsert {f : α → β} (l : List α) (h : ∀ a ∈ l, p a = true → f (update a) = f a) :
    (upsert p update fresh l).map f =
      if l.any p then l.map f else l.map f ++ [f fresh] := by
  induction l with
  | nil => rfl
  | cons a rest ih =>
    have hr := ih fun b hb => h b (List.mem_cons_of_mem a hb)
    cases ha : p a with
    | true => simp [upsert, ha, h a List.mem_cons_self ha]
    | false =>
      simp only [upsert, ha, List.map_cons, List.any_cons, Bool.false_or, hr, Bool.false_eq_true,
        if_false]
      split <;> simp

end SpanJoin
