import SpanJoin.Proofs.Tree.Subtrees
import SpanJoin.Tree.Naming

/-!
# The shape of accepted nodes

What it says about the children of a node that its action accepts them: they fit their slots
(`fits_of_accepted`), none of them is a literal that is not a number, and their number and kind are
those of the action. An accepted tree is accepted throughout, and deriving its name is never led to
a missing child.
-/

namespace SpanJoin.Tree

theorem accepted_node {a : Action} {cs : List Tree} : (node a cs).accepted = true ↔
    (check a cs).isOk = true ∧ ∀ c ∈ cs, c.accepted = true := by
  simp [accepted, acceptedEach_eq_all]

/-- The subtrees of an accepted tree are accepted. -/
theorem accepted_of_mem_subtrees {s t : Tree} (ht : t.accepted = true) (h : s ∈ t.subtrees) :
    s.accepted = true :=
  forall_mem_subtrees (P := fun u => u.accepted = true)
    (fun _ _ hn => (accepted_node.1 hn).2) ht s h

/-! ## Slots -/

/-- A tree fits a slot and is no literal that is not a number. -/
def Fills (slot : Slot) (c : Tree) : Prop := slot.fits c = true ∧ c.isNaN = false

theorem fills_of_checkChildren {a : Action} {position : Nat} {slots : List Slot} {cs : List Tree}
    (hl : slots.length = cs.length) (h : (checkChildren a position slots cs).isOk = true) :
    List.Forall₂ Fills slots cs := by
  induction slots generalizing position cs with
  | nil =>
    obtain rfl := List.eq_nil_of_length_eq_zero hl.symm
    exact .nil
  | cons slot slots ih =>
    cases cs with
    | nil => simp at hl
    | cons c cs =>
      cases hn : c.isNaN with
      | true => simp [checkChildren, hn, Except.isOk, Except.toBool] at h
      | false =>
        cases hf : slot.fits c with
        | false => simp [checkChildren, hn, hf, Except.isOk, Except.toBool] at h
        | true =>
          simp only [checkChildren, hn, hf, Bool.false_eq_true, if_false, if_true] at h
          exact .cons ⟨hf, hn⟩ (ih (by simpa using hl) h)

/-- There are as many slots as children. -/
theorem length_slots {a : Action} {n : Nat} {slots : List Slot} (h : Arity.slots a n = .ok slots) :
    slots.length = n := by
  unfold Arity.slots at h
  cases ha : a.arity with
  | fixed ss =>
    rw [ha] at h
    by_cases hn : ss.length = n
    · obtain rfl : ss = slots := by simpa [hn] using h
      exact hn
    · simp [hn] at h
  | variadic slot =>
    rw [ha] at h
    by_cases hn : n = 0
    · simp [hn] at h
    · obtain rfl : List.replicate n slot = slots := by simpa [hn] using h
      simp

theorem checkChildren_isOk_iff {a : Action} {position : Nat} {slots : List Slot} {cs : List Tree}
    (hl : slots.length = cs.length) :
    (checkChildren a position slots cs).isOk = true ↔ List.Forall₂ Fills slots cs := by
  refine ⟨fills_of_checkChildren hl, fun h => ?_⟩
  clear hl
  induction h generalizing position with
  | nil => rfl
  | @cons slot c slots cs hc _ ih =>
    rw [checkChildren, hc.2, if_neg (by simp), hc.1, if_pos rfl]
    exact ih

/-- An action accepts children that fit its slots. -/
theorem check_isOk_iff {a : Action} {cs : List Tree} : (check a cs).isOk = true ↔
    ∃ slots, Arity.slots a cs.length = .ok slots ∧ List.Forall₂ Fills slots cs := by
  unfold check
  cases hs : Arity.slots a cs.length with
  | error e => simp [Except.isOk, Except.toBool]
  | ok slots => simp [checkChildren_isOk_iff (length_slots hs)]

/-- The children of an accepted node fit the slots of its action. -/
theorem fits_of_accepted {a : Action} {cs : List Tree} (h : (node a cs).accepted = true) :
    ∃ slots, Arity.slots a cs.length = .ok slots ∧ List.Forall₂ Fills slots cs :=
  check_isOk_iff.1 (accepted_node.1 h).1

theorem slots_of_fixed {a : Action} {slots ss : List Slot} {n : Nat} (ha : a.arity = .fixed slots)
    (h : Arity.slots a n = .ok ss) : ss = slots := by
  simp only [Arity.slots, ha] at h
  split at h <;> simp_all

theorem fits_of_fixed {a : Action} {slots : List Slot} {cs : List Tree}
    (ha : a.arity = .fixed slots) (h : (node a cs).accepted = true) :
    List.Forall₂ Fills slots cs := by
  obtain ⟨ss, hs, hf⟩ := fits_of_accepted h
  rwa [slots_of_fixed ha hs] at hf

theorem fills_text {c : Tree} (h : Fills .text c) : ∃ s, c = ofText s := by
  obtain ⟨hf, -⟩ := h
  match c with
  | literal (.text s) => exact ⟨s, rfl⟩

theorem fills_node {c : Tree} (h : Fills .node c) : c.isLiteral = false := by
  obtain ⟨hf, -⟩ := h
  match c with
  | node a cs => rfl

/-! ## Actions -/

variable {cs : List Tree}

/-- A node whose one slot is a text has a text as its only child. -/
theorem text_child {a : Action} (ha : a.arity = .fixed [.text]) (h : (node a cs).accepted = true) :
    ∃ s, cs = [ofText s] := by
  cases fits_of_fixed ha h with
  | cons hc hn =>
    cases hn
    obtain ⟨s, rfl⟩ := fills_text hc
    exact ⟨s, rfl⟩

/-- The name and the value of a binding. -/
theorem declare_children (h : (node .declare cs).accepted = true) :
    ∃ s v, cs = [ofText s, v] := by
  cases fits_of_fixed rfl h with
  | cons hc hn =>
    obtain ⟨s, rfl⟩ := fills_text hc
    cases hn with
    | cons hv hn =>
      cases hn
      exact ⟨s, _, rfl⟩

/-- A node under a slot for nodes followed by one for a text. -/
theorem node_text_children {a : Action} (ha : a.arity = .fixed [.node, .text])
    (h : (node a cs).accepted = true) : ∃ c s, cs = [c, ofText s] ∧ c.isLiteral = false := by
  cases fits_of_fixed ha h with
  | cons hc hn =>
    cases hn with
    | cons hv hn =>
      cases hn
      obtain ⟨s, rfl⟩ := fills_text hv
      exact ⟨_, s, rfl, fills_node hc⟩

theorem no_children {a : Action} (ha : a.arity = .fixed []) (h : (node a cs).accepted = true) :
    cs = [] := by
  cases fits_of_fixed ha h
  rfl

/-- The columns put side by side are nodes. -/
theorem hstack_children (h : (node .hstack cs).accepted = true) :
    ∀ c ∈ cs, c.isLiteral = false := by
  obtain ⟨slots, hs, hf⟩ := fits_of_accepted h
  simp only [Arity.slots, Action.arity] at hs
  split at hs
  · cases hs
  · obtain rfl : List.replicate cs.length Slot.node = slots := by simpa using hs
    intro c hc
    obtain ⟨i, hi, rfl⟩ := List.getElem_of_mem hc
    exact fills_node (by simpa using hf.get (by simpa using hi) hi)

/-- A child of an accepted node is no literal that is not a number. -/
theorem isNaN_of_mem {a : Action} (h : (node a cs).accepted = true) {c : Tree} (hc : c ∈ cs) :
    c.isNaN = false := by
  obtain ⟨slots, -, hf⟩ := fits_of_accepted h
  obtain ⟨i, hi, rfl⟩ := List.getElem_of_mem hc
  exact (hf.get (by rw [hf.length_eq]; exact hi) hi).2

/-- The name of an accepted tree is derived without reading a missing child. -/
theorem outputName_ne_outOfRange {t : Tree} (h : t.accepted = true) :
    t.outputName ≠ .error .outOfRange := by
  have first {a : Action} {c : Tree} {ds : List Tree} (h : (node a (c :: ds)).accepted = true) :
      c.accepted = true := (accepted_node.1 h).2 c List.mem_cons_self
  have second {a : Action} {c d : Tree} {ds : List Tree}
      (h : (node a (c :: d :: ds)).accepted = true) : d.accepted = true :=
    (accepted_node.1 h).2 d (List.mem_cons_of_mem c List.mem_cons_self)
  fun_induction outputName t with
  | case1 | case10 | case11 | case14 | case16 => nofun
  | case2 _ _ ih | case4 _ _ ih | case8 _ _ ih => exact ih (first h)
  | case6 _ _ _ ih => exact ih (second h)
  | case3 | case5 =>
    obtain ⟨s, hs⟩ := text_child rfl h
    cases hs
  | case7 cs hcs =>
    obtain ⟨c, s, rfl, -⟩ := node_text_children rfl h
    exact (hcs _ _ _ rfl).elim
  | case9 => cases fits_of_fixed rfl h
  | case12 _ _ _ _ _ _ _ hc ih | case13 _ _ _ _ _ _ _ _ hc ih =>
    exact fun he => ih (first h) (hc.trans he)
  | case15 _ _ _ _ _ _ _ _ _ _ hd _ ih => exact fun he => ih (second h) (hd.trans he)

end SpanJoin.Tree
