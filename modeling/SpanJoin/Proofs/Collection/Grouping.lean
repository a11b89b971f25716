import SpanJoin.Collection.Upsert

/-!
# Grouping by key

Rows with a key and occurrences of a subtree are collected alike: one item after the other joins the
first group of a related key, or founds a group. `Grouped` says what the groups hold after the items
seen so far, and `Grouped.add` that one more step by `upsert` keeps it. Keys may be related by any
symmetric and transitive test; an item whose key is not related to itself cannot be collected.

Part of this does not depend on the test. `Dealt` says that every item is in one group and that the
groups come in the order of the items that founded them, and `Dealt.add` that one more step keeps it
by whatever test the step finds a group for its item.
-/

namespace SpanJoin

variable {ι κ γ β : Type}

/-- Either no element has the property and one is added, or the first one that has it is updated. -/
theorem upsert_cases (p : γ → Bool) (update : γ → γ) (fresh : γ) (l : List γ) :
    ((∀ g ∈ l, p g = false) ∧ upsert p update fresh l = l ++ [fresh]) ∨
      ∃ l₁ g l₂, l = l₁ ++ g :: l₂ ∧ (∀ b ∈ l₁, p b = false) ∧ p g = true ∧
        upsert p update fresh l = l₁ ++ update g :: l₂ := by
  cases hf : l.find? p with
  | none =>
    have h : ∀ g ∈ l, p g = false := by simpa using hf
    exact .inl ⟨h, upsert_of_forall_not h⟩
  | some g =>
    obtain ⟨hg, l₁, l₂, rfl, hl⟩ := List.find?_eq_some_iff_append.1 hf
    have h : ∀ b ∈ l₁, p b = false := by simpa using hl
    exact .inr ⟨l₁, g, l₂, rfl, h, hg, upsert_append_cons h hg⟩

/-- Only what the test says of the elements matters. -/
theorem upsert_congr {p q : γ → Bool} {update : γ → γ} {fresh : γ} {l : List γ}
    (h : ∀ g ∈ l, p g = q g) : upsert p update fresh l = upsert q update fresh l := by
  induction l with
  | nil => rfl
  | cons g rest ih =>
    rw [upsert, upsert, h g List.mem_cons_self, ih fun b hb => h b (List.mem_cons_of_mem g hb)]

/-- After the items in `seen`, no two groups have related keys, the members of a group are the items
of related keys in the order in which they came, there is one at least, and every item has a group.
-/
structure Grouped (related : κ → κ → Bool) (key : ι → κ) (value : ι → β) (groupKey : γ → κ)
    (members : γ → List β) (seen : List ι) (groups : List γ) : Prop where
  apart : groups.Pairwise fun g h => related (groupKey g) (groupKey h) = false
  members_eq : ∀ g ∈ groups,
    members g = (seen.filter fun x => related (groupKey g) (key x)).map value
  nonempty : ∀ g ∈ groups, members g ≠ []
  covered : ∀ x ∈ seen, ∃ g ∈ groups, related (groupKey g) (key x) = true

namespace Grouped

variable {related : κ → κ → Bool} {key : ι → κ} {value : ι → β} {groupKey : γ → κ}
  {members : γ → List β} {seen : List ι} {groups : List γ} {x : ι}

theorem empty : Grouped related key value groupKey members [] [] where
  apart := .nil
  members_eq := by simp
  nonempty := by simp
  covered := by simp

/-- An item of another key changes nothing for a group. -/
theorem members_of_false {g : γ} (hg : related (groupKey g) (key x) = false)
    (h : members g = (seen.filter fun y => related (groupKey g) (key y)).map value) :
    members g = ((seen ++ [x]).filter fun y => related (groupKey g) (key y)).map value := by
  rw [h, List.filter_append, List.filter_cons_of_neg (by simp [hg]), List.filter_nil,
    List.append_nil]

/-- An item of a related key comes last. -/
theorem members_of_true {k : κ} {bs : List β} (hk : related k (key x) = true)
    (h : bs = (seen.filter fun y => related k (key y)).map value) :
    bs ++ [value x] = ((seen ++ [x]).filter fun y => related k (key y)).map value := by
  rw [h, List.filter_append, List.filter_cons_of_pos (by simp [hk]), List.filter_nil,
    List.map_append, List.map_singleton]

section

variable (symm : ∀ a b, related a b = true → related b a = true)
  (trans : ∀ a b c, related a b = true → related b c = true → related a c = true)
include symm trans

/-- An item whose key is related to that of no group founds one. -/
theorem append_fresh (h : Grouped related key value groupKey members seen groups)
    (hx : related (key x) (key x) = true) {fresh : γ} (fresh_key : groupKey fresh = key x)
    (fresh_members : members fresh = [value x])
    (none : ∀ g ∈ groups, related (groupKey g) (key x) = false) :
    Grouped related key value groupKey members (seen ++ [x]) (groups ++ [fresh]) where
  apart := by
    refine List.pairwise_append.2 ⟨h.apart, List.pairwise_singleton _ _, fun g hg b hb => ?_⟩
    rw [List.mem_singleton.1 hb, fresh_key]
    exact none g hg
  members_eq b hb := by
    rcases List.mem_append.1 hb with hb | hb
    · exact members_of_false (none b hb) (h.members_eq b hb)
    · -- an earlier item related to `x` would have a group, and `x` would belong to it
      have alone : [] = (seen.filter fun y => related (key x) (key y)).map value := by
        refine (List.map_eq_nil_iff.2 (List.filter_eq_nil_iff.2 fun y hy hxy => ?_)).symm
        obtain ⟨g, hg, hgy⟩ := h.covered y hy
        exact Bool.eq_false_iff.1 (none g hg) (trans _ _ _ hgy (symm _ _ hxy))
      rw [List.mem_singleton.1 hb, fresh_members, fresh_key]
      exact members_of_true hx alone
  nonempty b hb := by
    rcases List.mem_append.1 hb with hb | hb
    · exact h.nonempty b hb
    · rw [List.mem_singleton.1 hb, fresh_members]
      exact List.cons_ne_nil _ _
  covered y hy := by
    rcases List.mem_append.1 hy with hy | hy
    · obtain ⟨g, hg, hgy⟩ := h.covered y hy
      exact ⟨g, List.mem_append_left _ hg, hgy⟩
    · rw [List.mem_singleton.1 hy]
      exact ⟨fresh, by simp, by rw [fresh_key, hx]⟩

/-- An item whose key is related to that of a group joins it. -/
theorem replace {l r : List γ} {g g' : γ}
    (h : Grouped related key value groupKey members seen (l ++ g :: r))
    (hl : ∀ b ∈ l, related (groupKey b) (key x) = false)
    (hg : related (groupKey g) (key x) = true) (same_key : groupKey g' = groupKey g)
    (more_members : members g' = members g ++ [value x]) :
    Grouped related key value groupKey members (seen ++ [x]) (l ++ g' :: r) where
  apart := by
    have keys : (l ++ g' :: r).map groupKey = (l ++ g :: r).map groupKey := by simp [same_key]
    have apart : ((l ++ g :: r).map groupKey).Pairwise fun j k => related j k = false :=
      List.pairwise_map.2 h.apart
    rw [← keys] at apart
    exact List.pairwise_map.1 apart
  members_eq b hb := by
    rcases List.mem_append.1 hb with hb | hb
    · exact members_of_false (hl b hb) (h.members_eq b (List.mem_append_left _ hb))
    · rcases List.mem_cons.1 hb with rfl | hb
      · rw [more_members, same_key]
        exact members_of_true hg (h.members_eq g (by simp))
      · have other : related (groupKey b) (key x) = false := by
          have hgb := List.rel_of_pairwise_cons (List.pairwise_append.1 h.apart).2.1 hb
          rw [Bool.eq_false_iff] at hgb ⊢
          exact fun hbx => hgb (trans _ _ _ hg (symm _ _ hbx))
        exact members_of_false other
          (h.members_eq b (List.mem_append_right _ (List.mem_cons_of_mem g hb)))
  nonempty b hb := by
    rcases List.mem_append.1 hb with hb | hb
    · exact h.nonempty b (List.mem_append_left _ hb)
    · rcases List.mem_cons.1 hb with rfl | hb
      · rw [more_members]
        exact List.append_ne_nil_of_right_ne_nil _ (List.cons_ne_nil _ _)
      · exact h.nonempty b (List.mem_append_right _ (List.mem_cons_of_mem g hb))
  covered y hy := by
    obtain ⟨b, hb, hby⟩ : ∃ b ∈ l ++ g :: r, related (groupKey b) (key y) = true := by
      rcases List.mem_append.1 hy with hy | hy
      · exact h.covered y hy
      · rw [List.mem_singleton.1 hy]
        exact ⟨g, by simp, hg⟩
    rcases List.mem_append.1 hb with hb | hb
    · exact ⟨b, List.mem_append_left _ hb, hby⟩
    · rcases List.mem_cons.1 hb with rfl | hb
      · exact ⟨g', by simp, by rw [same_key, hby]⟩
      · exact ⟨b, List.mem_append_right _ (List.mem_cons_of_mem g' hb), hby⟩

/-- One more item keeps the groups in order. -/
theorem add (h : Grouped related key value groupKey members seen groups)
    (hx : related (key x) (key x) = true) {update : γ → γ} {fresh : γ}
    (fresh_key : groupKey fresh = key x) (fresh_members : members fresh = [value x])
    (update_key : ∀ g, groupKey (update g) = groupKey g)
    (update_members : ∀ g, members (update g) = members g ++ [value x]) :
    Grouped related key value groupKey members (seen ++ [x])
      (upsert (fun g => related (groupKey g) (key x)) update fresh groups) := by
  rcases upsert_cases (fun g => related (groupKey g) (key x)) update fresh groups with
    ⟨none, e⟩ | ⟨l, g, r, rfl, hl, hg, e⟩
  · rw [e]
    exact append_fresh symm trans h hx fresh_key fresh_members none
  · rw [e]
    exact replace symm trans h hl hg (update_key g) (update_members g)

end

end Grouped

/-! ## Groups by any test -/

/-- After the items in `seen` the groups hold every item once. They come in the order of their
founders, of which each gave its group the key and is its first member. -/
structure Dealt (key : ι → κ) (value : ι → β) (groupKey : γ → κ) (members : γ → List β)
    (seen : List ι) (groups : List γ) : Prop where
  perm : (groups.flatMap members).Perm (seen.map value)
  founders : ∃ founders : List ι, founders.Sublist seen ∧
    groups.map (fun g => (groupKey g, (members g).head?)) =
      founders.map fun x => (key x, some (value x))

namespace Dealt

variable {key : ι → κ} {value : ι → β} {groupKey : γ → κ} {members : γ → List β} {seen : List ι}
  {groups : List γ} {x : ι}

theorem empty : Dealt key value groupKey members [] [] := ⟨.nil, [], .slnil, rfl⟩

/-- Every group has a first member. -/
theorem nonempty (h : Dealt key value groupKey members seen groups) {g : γ} (hg : g ∈ groups) :
    members g ≠ [] := by
  obtain ⟨founders, -, firsts⟩ := h.founders
  have first := List.mem_map_of_mem (f := fun g => (groupKey g, (members g).head?)) hg
  rw [firsts] at first
  obtain ⟨y, -, hy⟩ := List.mem_map.1 first
  intro none
  rw [none] at hy
  exact absurd (congrArg Prod.snd hy) nofun

/-- An item founds a group. -/
theorem append_fresh (h : Dealt key value groupKey members seen groups) {fresh : γ}
    (fresh_key : groupKey fresh = key x) (fresh_members : members fresh = [value x]) :
    Dealt key value groupKey members (seen ++ [x]) (groups ++ [fresh]) where
  perm := by
    rw [List.flatMap_append, List.flatMap_singleton, fresh_members, List.map_append]
    exact h.perm.append_right [value x]
  founders := by
    obtain ⟨founders, sub, firsts⟩ := h.founders
    refine ⟨founders ++ [x], sub.append (.refl [x]), ?_⟩
    rw [List.map_append, firsts, List.map_append, List.map_singleton, fresh_key, fresh_members]
    rfl

/-- An item joins a group. -/
theorem replace {l r : List γ} {g g' : γ}
    (h : Dealt key value groupKey members seen (l ++ g :: r)) (same_key : groupKey g' = groupKey g)
    (more_members : members g' = members g ++ [value x]) :
    Dealt key value groupKey members (seen ++ [x]) (l ++ g' :: r) where
  perm := by
    have moved : ((l ++ g' :: r).flatMap members).Perm
        ((l ++ g :: r).flatMap members ++ [value x]) := by
      simp only [List.flatMap_append, List.flatMap_cons, more_members, List.append_assoc]
      exact (List.perm_append_comm.append_left (members g)).append_left (l.flatMap members)
    rw [List.map_append]
    exact moved.trans (h.perm.append_right [value x])
  founders := by
    obtain ⟨founders, sub, firsts⟩ := h.founders
    refine ⟨founders, sub.trans (List.sublist_append_left seen [x]), ?_⟩
    have same_first : (members g').head? = (members g).head? := by
      obtain ⟨b, bs, hb⟩ := List.exists_cons_of_ne_nil (h.nonempty (g := g) (by simp))
      rw [more_members, hb]
      rfl
    rw [← firsts]
    simp [same_key, same_first]

/-- One more item is dealt to one group. -/
theorem add (h : Dealt key value groupKey members seen groups) (p : γ → Bool) {update : γ → γ}
    {fresh : γ} (fresh_key : groupKey fresh = key x) (fresh_members : members fresh = [value x])
    (update_key : ∀ g, groupKey (update g) = groupKey g)
    (update_members : ∀ g, members (update g) = members g ++ [value x]) :
    Dealt key value groupKey members (seen ++ [x]) (upsert p update fresh groups) := by
  rcases upsert_cases p update fresh groups with ⟨-, e⟩ | ⟨l, g, r, rfl, -, -, e⟩
  · rw [e]
    exact append_fresh h fresh_key fresh_members
  · rw [e]
    exact replace h (update_key g) (update_members g)

end Dealt

end SpanJoin
