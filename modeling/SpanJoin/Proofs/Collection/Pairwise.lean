import Mathlib.Data.List.Forall2
import SpanJoin.Outcome

/-!
# Lists related element by element

Lemmas on `List.Forall₂`: the relation may be weakened at the members of the lists only
(`forall₂_imp_of_mem`), elements at the same position are related (`exists_getElem?_of_forall₂`),
a list whose members all have a partner is related to a list of partners (`exists_forall₂`), and a
computation that goes through a list relates the list to its answers (`mapM_eq_ok_iff`,
`mapM_eq_some_iff`). One that keeps or refuses each member keeps or refuses the list
(`mapM_eq_ite`).
-/

namespace SpanJoin

variable {α β : Type}

theorem forall₂_imp_of_mem {R S : α → β → Prop} {as : List α} {bs : List β}
    (h : List.Forall₂ R as bs) (imp : ∀ a ∈ as, ∀ b ∈ bs, R a b → S a b) :
    List.Forall₂ S as bs := by
  induction h with
  | nil => exact .nil
  | @cons a b as bs hab _ ih =>
    refine .cons (imp a List.mem_cons_self b List.mem_cons_self hab) (ih fun c hc d hd => ?_)
    exact imp c (List.mem_cons_of_mem a hc) d (List.mem_cons_of_mem b hd)

/-- A list of copies of one element is related to a list of the same length if it is related
to every member. -/
theorem forall₂_replicate_iff {R : α → β → Prop} {a : α} {bs : List β} :
    List.Forall₂ R (List.replicate bs.length a) bs ↔ ∀ b ∈ bs, R a b := by
  induction bs with
  | nil => simp
  | cons b bs ih => rw [List.length_cons, List.replicate_succ, List.forall₂_cons, ih,
      List.forall_mem_cons]

theorem exists_getElem?_of_forall₂ {R : α → β → Prop} {as : List α} {bs : List β}
    (h : List.Forall₂ R as bs) {i : Nat} {a : α} (ha : as[i]? = some a) :
    ∃ b, bs[i]? = some b ∧ R a b := by
  induction h generalizing i with
  | nil => simp at ha
  | @cons c d as bs hcd _ ih =>
    cases i with
    | zero =>
      obtain rfl : c = a := by simpa using ha
      exact ⟨d, rfl, hcd⟩
    | succ i => exact ih (by simpa using ha)

theorem exists_getElem?_of_forall₂_right {R : α → β → Prop} {as : List α} {bs : List β}
    (h : List.Forall₂ R as bs) {i : Nat} {b : β} (hb : bs[i]? = some b) :
    ∃ a, as[i]? = some a ∧ R a b :=
  exists_getElem?_of_forall₂ (R := fun b a => R a b) h.flip hb

theorem exists_mem_of_forall₂_right {R : α → β → Prop} {as : List α} {bs : List β}
    (h : List.Forall₂ R as bs) {b : β} (hb : b ∈ bs) : ∃ a ∈ as, R a b := by
  obtain ⟨i, hi⟩ := List.mem_iff_getElem?.1 hb
  obtain ⟨a, ha, hab⟩ := exists_getElem?_of_forall₂_right h hi
  exact ⟨a, List.mem_of_getElem? ha, hab⟩

/-- A list whose members have partners has a list of partners. -/
theorem exists_forall₂ {R : α → β → Prop} {as : List α} (h : ∀ a ∈ as, ∃ b, R a b) :
    ∃ bs, List.Forall₂ R as bs := by
  induction as with
  | nil => exact ⟨[], .nil⟩
  | cons a as ih =>
    obtain ⟨b, hb⟩ := h a List.mem_cons_self
    obtain ⟨bs, hbs⟩ := ih fun c hc => h c (List.mem_cons_of_mem a hc)
    exact ⟨b :: bs, .cons hb hbs⟩

/-- If related elements have a common partner, then the two lists have a common list of partners. -/
theorem exists_forall₂_of_exists {γ : Type} {R : β → γ → Prop} {S : α → γ → Prop} {as : List α}
    {bs : List β} (h : List.Forall₂ (fun a b => ∃ c, R b c ∧ S a c) as bs) :
    ∃ cs, List.Forall₂ R bs cs ∧ List.Forall₂ S as cs := by
  induction h with
  | nil => exact ⟨[], .nil, .nil⟩
  | cons hc _ ih =>
    obtain ⟨c, hb, ha⟩ := hc
    obtain ⟨cs, hbs, has⟩ := ih
    exact ⟨c :: cs, .cons hb hbs, .cons ha has⟩

/-- Part of a list is related to part of the list that this is related to. -/
theorem exists_sublist_of_forall₂ {R : α → β → Prop} {as cs : List α} {bs : List β}
    (hs : cs.Sublist as) (h : List.Forall₂ R as bs) :
    ∃ ds, ds.Sublist bs ∧ List.Forall₂ R cs ds := by
  induction hs generalizing bs with
  | slnil =>
    cases h
    exact ⟨[], .slnil, .nil⟩
  | cons a _ ih =>
    cases h with
    | @cons _ b _ bs hab h =>
      obtain ⟨ds, hds, hcs⟩ := ih h
      exact ⟨ds, hds.cons b, hcs⟩
  | cons_cons a _ ih =>
    cases h with
    | @cons _ b _ bs hab h =>
      obtain ⟨ds, hds, hcs⟩ := ih h
      exact ⟨b :: ds, hds.cons_cons b, .cons hab hcs⟩

/-- Lists of one length are related if elements at the same position are. -/
theorem forall₂_of_getElem? {R : α → β → Prop} {as : List α} {bs : List β}
    (length : as.length = bs.length)
    (h : ∀ (i : Nat) a b, as[i]? = some a → bs[i]? = some b → R a b) : List.Forall₂ R as bs :=
  List.forall₂_iff_get.2 ⟨length, fun i hi hj =>
    h i _ _ (List.getElem?_eq_getElem hi) (List.getElem?_eq_getElem hj)⟩

/-- Elements at the same position stay related when the position is written beside them. -/
theorem forall₂_zipIdx {R : α → β → Prop} {as : List α} {bs : List β} (h : List.Forall₂ R as bs) :
    List.Forall₂ (fun a bi => R a bi.1 ∧ bs[bi.2]? = some bi.1) as bs.zipIdx := by
  refine List.forall₂_iff_get.2 ⟨by rw [h.length_eq, List.length_zipIdx], fun i ha hb => ?_⟩
  have hb' : i < bs.length := h.length_eq ▸ ha
  simp only [List.get_eq_getElem, List.getElem_zipIdx, Nat.zero_add]
  exact ⟨h.get ha hb', List.getElem?_eq_getElem hb'⟩

/-- In a list that ascends by some measure, what is less comes earlier. -/
theorem lt_of_pairwise_le {f : α → Nat} {as : List α} (h : as.Pairwise fun a b => f a ≤ f b)
    {i j : Nat} {a b : α} (hi : as[i]? = some a) (hj : as[j]? = some b) (hlt : f a < f b) :
    i < j := by
  by_contra hle
  have ascending := List.pairwise_iff_getElem.1 h
  obtain ⟨hi', rfl⟩ := List.getElem?_eq_some_iff.1 hi
  obtain ⟨hj', rfl⟩ := List.getElem?_eq_some_iff.1 hj
  rcases Nat.lt_or_ge j i with hji | hij
  · have := ascending j i hj' hi' hji
    omega
  · obtain rfl : i = j := by omega
    omega

/-- A computation that goes through a list gives the answers in the order of the list. -/
theorem mapM_eq_ok_iff {ε : Type} {f : α → Except ε β} {as : List α} {bs : List β} :
    as.mapM f = .ok bs ↔ List.Forall₂ (fun a b => f a = .ok b) as bs := by
  induction as generalizing bs with
  | nil =>
    rw [List.mapM_nil, List.forall₂_nil_left_iff]
    exact ⟨fun h => (Except.ok.inj h).symm, fun h => by rw [h]; rfl⟩
  | cons a as ih =>
    rw [List.mapM_cons, Outcome.bind_eq_ok, List.forall₂_cons_left_iff]
    constructor
    · rintro ⟨b, hb, h⟩
      obtain ⟨cs, hcs, h⟩ := Outcome.bind_eq_ok.1 h
      exact ⟨b, cs, hb, ih.1 hcs, (Except.ok.inj h).symm⟩
    · rintro ⟨b, cs, hb, hcs, rfl⟩
      exact ⟨b, hb, by rw [ih.2 hcs]; rfl⟩

/-- A computation that goes through a list ends in the error of one of its steps if there is one. -/
theorem exists_mapM_eq_error {ε : Type} {f : α → Except ε β} {as : List α} {a : α} (ha : a ∈ as)
    {e : ε} (h : f a = .error e) : ∃ b ∈ as, ∃ e', f b = .error e' ∧ as.mapM f = .error e' := by
  induction as with
  | nil => cases ha
  | cons b bs ih =>
    rw [List.mapM_cons]
    cases hb : f b with
    | error e' => exact ⟨b, List.mem_cons_self, e', hb, rfl⟩
    | ok y =>
      have later : a ∈ bs := by
        rcases List.mem_cons.1 ha with rfl | ha
        · rw [h] at hb
          cases hb
        · exact ha
      obtain ⟨c, hc, e', he, rest⟩ := ih later
      rw [rest]
      exact ⟨c, List.mem_cons_of_mem b hc, e', he, rfl⟩

theorem mapM_eq_some_iff {f : α → Option β} {as : List α} {bs : List β} :
    as.mapM f = some bs ↔ List.Forall₂ (fun a b => f a = some b) as bs := by
  induction as generalizing bs with
  | nil =>
    rw [List.mapM_nil, List.forall₂_nil_left_iff]
    exact ⟨fun h => (Option.some.inj h).symm, fun h => by rw [h]; rfl⟩
  | cons a as ih =>
    rw [List.mapM_cons, List.forall₂_cons_left_iff, Option.bind_eq_bind,
      Option.bind_eq_some_iff]
    constructor
    · rintro ⟨b, hb, h⟩
      obtain ⟨cs, hcs, h⟩ := Option.bind_eq_some_iff.1 h
      exact ⟨b, cs, hb, ih.1 hcs, (Option.some.inj h).symm⟩
    · rintro ⟨b, cs, hb, hcs, rfl⟩
      exact ⟨b, hb, by rw [ih.2 hcs]; rfl⟩

/-- A computation that keeps or refuses each member of a list keeps the list if it keeps all of
them. -/
theorem mapM_eq_ite {f : α → Option α} {P : α → Prop} [DecidablePred P] {as : List α}
    (h : ∀ a ∈ as, f a = if P a then some a else none) :
    as.mapM f = if ∀ a ∈ as, P a then some as else none := by
  induction as with
  | nil => rfl
  | cons a as ih =>
    rw [List.mapM_cons, h a List.mem_cons_self, ih fun b hb => h b (List.mem_cons_of_mem a hb)]
    simp only [List.forall_mem_cons, ite_and]
    split_ifs <;> rfl

/-- Computations that go through two lists give the same if they do at every place. -/
theorem mapM_congr_of_forall₂ {ε γ : Type} {f : α → Except ε γ} {g : β → Except ε γ} {as : List α}
    {bs : List β} (h : List.Forall₂ (fun a b => f a = g b) as bs) : as.mapM f = bs.mapM g := by
  induction h with
  | nil => rfl
  | cons hab _ ih => rw [List.mapM_cons, List.mapM_cons, hab, ih]

/-- A computation that goes through the positions of a list gives its elements. -/
theorem eq_getElem?_of_mapM_range {f : Nat → Option β} {n : Nat} {bs : List β}
    (h : (List.range n).mapM f = some bs) : bs.length = n ∧ ∀ i < n, f i = bs[i]? := by
  have each := mapM_eq_some_iff.1 h
  refine ⟨by rw [← each.length_eq, List.length_range], fun i hi => ?_⟩
  obtain ⟨b, hb, hf⟩ := exists_getElem?_of_forall₂ each (List.getElem?_range hi)
  rw [hf, hb]

/-! ## Lookup -/

section

variable {κ : Type} [BEq κ] [LawfulBEq κ] {key : α → κ} {R : α → β → Prop} {as : List α}
  {entries : List (κ × β)}

/-- In a list of entries that stand for the members of another list under their keys, a key that is
there once leads to its entry. -/
theorem exists_lookup_of_forall₂ (h : List.Forall₂ (fun a e => e.1 = key a ∧ R a e.2) as entries)
    (nodup : (as.map key).Nodup) {a : α} (ha : a ∈ as) :
    ∃ b, entries.lookup (key a) = some b ∧ R a b := by
  induction h with
  | nil => simp at ha
  | @cons c e as entries hc _ ih =>
    obtain ⟨hk, hR⟩ := hc
    rw [List.map_cons, List.nodup_cons] at nodup
    rcases List.mem_cons.1 ha with rfl | ha
    · exact ⟨e.2, by rw [List.lookup_cons, hk, BEq.rfl], hR⟩
    · have hne : (key a == e.1) = false := by
        rw [hk, beq_eq_false_iff_ne]
        intro e
        exact nodup.1 (e ▸ List.mem_map_of_mem ha)
      obtain ⟨b, hb, hR⟩ := ih nodup.2 ha
      exact ⟨b, by rw [List.lookup_cons, hne, hb], hR⟩

theorem lookup_eq_none_of_forall₂
    (h : List.Forall₂ (fun a e => e.1 = key a ∧ R a e.2) as entries) {k : κ}
    (hk : ∀ a ∈ as, key a ≠ k) : entries.lookup k = none := by
  induction h with
  | nil => rfl
  | @cons c e as entries hc _ ih =>
    have hne : (k == e.1) = false := by
      rw [hc.1, beq_eq_false_iff_ne]
      exact (hk c List.mem_cons_self).symm
    rw [List.lookup_cons, hne]
    exact ih fun a ha => hk a (List.mem_cons_of_mem c ha)

end

end SpanJoin
