import Mathlib.Data.List.Sigma
import SpanJoin.Plan.Sharing
import SpanJoin.Proofs.Collection.Grouping
import SpanJoin.Proofs.Tree.Identity

/-!
# Occurrences of subtrees

`Tree.OccursAt t key path` says that the path leads to a node without bindings whose canonical form
is `key`. The walk level by level meets every node of an accepted tree once (`mem_nodes`,
`nodup_paths_nodes`), so the occurrences collected from it are those of the tree, each path under
its key (`collect_nodes`). The subtrees that are named are those that occur at two paths
(`naming_nameRepeated`), and the name at a path is the name of the subtree that occurs there
(`Naming.nameAt?_eq_some_iff`).
-/

namespace SpanJoin

namespace Tree

/-- The path leads to a node that uses no bindings and has the canonical form `key`. -/
def OccursAt (t key : Tree) (path : Path) : Prop :=
  ∃ s, t.follow? path = some s ∧ s.isLiteral = false ∧ s.usesBindings = false ∧
    s.canonical = .ok key

/-- At a path only one subtree occurs. -/
theorem OccursAt.key_eq {t j k : Tree} {p : Path} (hj : t.OccursAt j p) (hk : t.OccursAt k p) :
    j = k := by
  obtain ⟨s, hs, -, -, hj⟩ := hj
  obtain ⟨u, hu, -, -, hk⟩ := hk
  obtain rfl : s = u := Option.some.inj (hs.symm.trans hu)
  exact Except.ok.inj (hj.symm.trans hk)

/-! ## The walk level by level -/

theorem follow?_child_of_columnReference {a : Action} {cs : List Tree}
    (ht : (node a cs).accepted = true) (ha : a.isColumnReference = true) {i : Nat} {p : Path}
    {s : Tree} (h : (node a cs).follow? (i :: p) = some s) : s.isLiteral = true := by
  obtain ⟨name, rfl⟩ : ∃ name, cs = [ofText name] := by
    cases a with
    | leftColumn | rightColumn => exact text_child rfl ht
    | _ => simp [Action.isColumnReference] at ha
  rw [follow?_cons, Option.bind_eq_some_iff] at h
  obtain ⟨c, hc, h⟩ := h
  obtain rfl : c = ofText name := List.mem_singleton.1 (List.mem_of_getElem? hc)
  rw [mem_subtrees_literal.1 (mem_subtrees_of_follow? h)]
  rfl

/-- The walk meets nodes only, each at the end of its path. -/
theorem of_mem_nodesAt {t : Tree} {depth : Nat} {p : Path} {s : Tree}
    (h : (p, s) ∈ nodesAt depth t) :
    p.length = depth ∧ t.follow? p = some s ∧ s.isLiteral = false := by
  induction depth generalizing t p with
  | zero =>
    cases t with
    | literal l => simp [nodesAt] at h
    | node a cs =>
      obtain ⟨rfl, rfl⟩ : p = [] ∧ s = node a cs := by simpa [nodesAt] using h
      exact ⟨rfl, rfl, rfl⟩
  | succ depth ih =>
    cases t with
    | literal l => simp [nodesAt] at h
    | node a cs =>
      rw [nodesAt] at h
      split at h
      · simp at h
      · obtain ⟨⟨c, i⟩, hc, h⟩ := List.mem_flatMap.1 h
        obtain ⟨⟨q, u⟩, hq, e⟩ := List.mem_map.1 h
        obtain ⟨rfl, rfl⟩ := Prod.mk.inj e
        obtain ⟨length, follow, node⟩ := ih hq
        refine ⟨by simp [length], ?_, node⟩
        rw [follow?_cons, List.mk_mem_zipIdx_iff_getElem?.1 hc, Option.bind_some, follow]

/-- The nodes at a depth are what the paths of that length lead to, literals apart. -/
theorem mem_nodesAt {t : Tree} (ht : t.accepted = true) {depth : Nat} {p : Path} {s : Tree} :
    (p, s) ∈ nodesAt depth t ↔
      p.length = depth ∧ t.follow? p = some s ∧ s.isLiteral = false := by
  refine ⟨of_mem_nodesAt, ?_⟩
  rintro ⟨rfl, h, hs⟩
  induction p generalizing t with
  | nil =>
    obtain rfl : t = s := by simpa [follow?] using h
    cases t with
    | literal l => simp [isLiteral] at hs
    | node a cs => simp [nodesAt]
  | cons i p ih =>
    cases t with
    | literal l => simp [follow?] at h
    | node a cs =>
      have hr : a.isColumnReference = false := by
        refine Bool.eq_false_iff.2 fun hr => ?_
        rw [follow?_child_of_columnReference ht hr h] at hs
        simp at hs
      rw [follow?_cons, Option.bind_eq_some_iff] at h
      obtain ⟨c, hc, h⟩ := h
      rw [List.length_cons, nodesAt, hr, if_neg (by simp), List.mem_flatMap]
      exact ⟨(c, i), List.mk_mem_zipIdx_iff_getElem?.2 hc, List.mem_map.2 ⟨(p, s),
        ih ((accepted_node.1 ht).2 c (List.mem_of_getElem? hc)) h, rfl⟩⟩

theorem of_mem_nodes {t : Tree} {p : Path} {s : Tree} (h : (p, s) ∈ t.nodes) :
    t.follow? p = some s ∧ s.isLiteral = false := by
  obtain ⟨depth, -, h⟩ := List.mem_flatMap.1 h
  exact (of_mem_nodesAt h).2

/-- The walk meets the nodes of an accepted tree. -/
theorem mem_nodes {t : Tree} (ht : t.accepted = true) {p : Path} {s : Tree} :
    (p, s) ∈ t.nodes ↔ t.follow? p = some s ∧ s.isLiteral = false := by
  refine ⟨of_mem_nodes, ?_⟩
  rintro ⟨h, hs⟩
  have hh := height_add_length_le h
  have positive : 0 < s.height := by
    cases s with
    | literal l => simp [isLiteral] at hs
    | node a cs => rw [height]; omega
  rw [nodes, List.mem_flatMap]
  exact ⟨p.length, List.mem_range.2 (by omega), (mem_nodesAt ht).2 ⟨rfl, h, hs⟩⟩

theorem nodup_paths_nodesAt (depth : Nat) (t : Tree) : ((nodesAt depth t).map Prod.fst).Nodup := by
  induction depth generalizing t with
  | zero => cases t <;> simp [nodesAt]
  | succ depth ih =>
    cases t with
    | literal l => simp [nodesAt]
    | node a cs =>
      rw [nodesAt]
      split
      · simp
      · rw [List.map_flatMap]
        refine List.nodup_flatMap.2 ⟨fun ci _ => ?_, ?_⟩
        · have inj : Function.Injective (List.cons ci.2) := fun _ _ e => (List.cons.inj e).2
          have paths := (ih ci.1).map inj
          rw [List.map_map] at paths ⊢
          exact paths
        · refine (List.pairwise_map.1 (List.nodup_zipIdx_map_snd cs)).imp fun hij p hp hq => ?_
          obtain ⟨x, hx, rfl⟩ := List.mem_map.1 hp
          obtain ⟨y, hy, e⟩ := List.mem_map.1 hq
          obtain ⟨x, -, rfl⟩ := List.mem_map.1 hx
          obtain ⟨y, -, rfl⟩ := List.mem_map.1 hy
          exact hij (List.cons.inj e).1.symm

/-- The walk meets every node once. -/
theorem nodup_paths_nodes {t : Tree} (ht : t.accepted = true) : (t.nodes.map Prod.fst).Nodup := by
  rw [nodes, List.map_flatMap]
  refine List.nodup_flatMap.2 ⟨fun depth _ => nodup_paths_nodesAt depth t, ?_⟩
  have length {depth : Nat} {p : Path} (hp : p ∈ (nodesAt depth t).map Prod.fst) :
      p.length = depth := by
    obtain ⟨⟨q, s⟩, hq, rfl⟩ := List.mem_map.1 hp
    exact ((mem_nodesAt ht).1 hq).1
  refine List.nodup_range.imp fun hne p hp hq => ?_
  exact hne ((length hp).symm.trans (length hq))

end Tree

/-! ## Collecting -/

namespace Occurrence

/-- The canonical form of a node that uses no bindings, with the path of the node. -/
def keyed (n : Path × Tree) : Option (Tree × Path) :=
  if n.2.usesBindings then none else n.2.canonical.toOption.map fun k => (k, n.1)

theorem keyed_eq_some {n : Path × Tree} {k : Tree} {p : Path} :
    keyed n = some (k, p) ↔
      p = n.1 ∧ n.2.usesBindings = false ∧ n.2.canonical = .ok k := by
  unfold keyed
  cases n.2.usesBindings <;> cases n.2.canonical <;> simp [Except.toOption, and_comm, eq_comm]

/-- The occurrences hold the keys and paths of the nodes seen so far. -/
abbrev Collected (seen : List (Path × Tree)) (found : List Occurrence) : Prop :=
  Grouped (fun j k : Tree => decide (j = k)) Prod.fst Prod.snd key paths
    (seen.filterMap keyed) found

theorem Collected.add {seen : List (Path × Tree)} {found : List Occurrence}
    (h : Collected seen found) {p : Path} {s k : Tree} (hs : s.usesBindings = false)
    (hk : s.canonical = .ok k) : Collected (seen ++ [(p, s)]) (add k s p found) := by
  have item : [(p, s)].filterMap keyed = [(k, p)] := by
    rw [List.filterMap_cons_some (keyed_eq_some.2 ⟨rfl, hs, hk⟩), List.filterMap_nil]
  rw [Collected, List.filterMap_append, item]
  refine Grouped.add (by grind) (by grind) h ?_ rfl rfl ?_ ?_
  · simp
  · intro o
    rfl
  · intro o
    simp [paths]

/-- Every occurrence holds the subtree at its first path, and the key of that subtree. -/
def Pinned (t : Tree) (o : Occurrence) : Prop :=
  t.follow? o.first = some o.subtree ∧ o.subtree.canonical = .ok o.key

/-- What holds of all occurrences still holds after one more, if it holds of a new one and stays
when an occurrence of the same key gets one more path. -/
theorem forall_add {P : Occurrence → Prop} {k s : Tree} {p : Path} {found : List Occurrence}
    (h : ∀ o ∈ found, P o) (fresh : P ⟨k, s, p, []⟩)
    (again : ∀ o, o.key = k → P o → P { o with others := o.others ++ [p] }) :
    ∀ o ∈ add k s p found, P o := by
  intro o ho
  rw [add] at ho
  rcases upsert_cases (fun o : Occurrence => decide (o.key = k))
      (fun o => { o with others := o.others ++ [p] }) ⟨k, s, p, []⟩ found with
    ⟨-, e⟩ | ⟨l, b, r, rfl, -, hb, e⟩
  · rw [e, List.mem_append, List.mem_singleton] at ho
    rcases ho with ho | rfl
    · exact h o ho
    · exact fresh
  · rw [e] at ho
    rcases List.mem_append.1 ho with ho | ho
    · exact h o (List.mem_append_left _ ho)
    · rcases List.mem_cons.1 ho with rfl | ho
      · exact again b (of_decide_eq_true hb) (h b (by simp))
      · exact h o (by simp [ho])

theorem pinned_add {t k s : Tree} {p : Path} {found : List Occurrence}
    (h : ∀ o ∈ found, o.Pinned t) (hp : t.follow? p = some s) (hk : s.canonical = .ok k) :
    ∀ o ∈ add k s p found, o.Pinned t :=
  forall_add h ⟨hp, hk⟩ fun _ _ ho => ho

/-- Moreover, the subtree of the occurrence occurs at all of its paths. -/
def Traced (t : Tree) (o : Occurrence) : Prop :=
  o.Pinned t ∧ ∀ p ∈ o.paths, t.OccursAt o.key p

theorem traced_add {t k s : Tree} {p : Path} {found : List Occurrence}
    (h : ∀ o ∈ found, o.Traced t) (hp : t.follow? p = some s) (hl : s.isLiteral = false)
    (hb : s.usesBindings = false) (hk : s.canonical = .ok k) :
    ∀ o ∈ add k s p found, o.Traced t := by
  have here : t.OccursAt k p := ⟨s, hp, hl, hb, hk⟩
  refine forall_add h ⟨⟨hp, hk⟩, fun q hq => ?_⟩
    fun o ho ⟨pinned, traced⟩ => ⟨pinned, fun q hq => ?_⟩
  · rw [List.mem_singleton.1 hq]
    exact here
  · have hq : q ∈ o.paths ++ [p] := by simpa [paths] using hq
    rcases List.mem_append.1 hq with hq | hq
    · exact traced q hq
    · rw [List.mem_singleton.1 hq, ho]
      exact here

/-- Whatever nodes are gone through, the occurrences that are found are there. -/
theorem traced_of_collect {t : Tree} {rest : List (Path × Tree)}
    (hr : ∀ n ∈ rest, t.follow? n.1 = some n.2 ∧ n.2.isLiteral = false)
    {found all : List Occurrence} (h : ∀ o ∈ found, o.Traced t)
    (hc : collect found rest = .ok all) : ∀ o ∈ all, o.Traced t := by
  induction rest generalizing found with
  | nil =>
    obtain rfl : found = all := Except.ok.inj hc
    exact h
  | cons n rest ih =>
    obtain ⟨p, s⟩ := n
    obtain ⟨hf, hl⟩ := hr (p, s) List.mem_cons_self
    have tail := fun n hn => hr n (List.mem_cons_of_mem (p, s) hn)
    rw [collect] at hc
    cases hb : s.usesBindings with
    | true =>
      rw [hb, if_pos rfl] at hc
      exact ih tail h hc
    | false =>
      rw [hb, if_neg (by simp)] at hc
      cases hk : s.canonical with
      | error e =>
        rw [hk] at hc
        cases hc
      | ok k =>
        rw [hk] at hc
        exact ih tail (traced_add h hf hl hb hk) hc

/-- Going through nodes that all have canonical forms succeeds, and keeps both invariants. -/
theorem collect_invariants {t : Tree} {rest : List (Path × Tree)}
    (hr : ∀ n ∈ rest, t.follow? n.1 = some n.2 ∧ ∃ k, n.2.canonical = .ok k)
    {seen : List (Path × Tree)} {found : List Occurrence} (hc : Collected seen found)
    (hp : ∀ o ∈ found, o.Pinned t) :
    ∃ all, collect found rest = .ok all ∧ Collected (seen ++ rest) all ∧
      ∀ o ∈ all, o.Pinned t := by
  induction rest generalizing seen found with
  | nil => exact ⟨found, rfl, by rwa [List.append_nil], hp⟩
  | cons n rest ih =>
    obtain ⟨p, s⟩ := n
    obtain ⟨hf, k, hk⟩ := hr (p, s) List.mem_cons_self
    have tail := fun n hn => hr n (List.mem_cons_of_mem (p, s) hn)
    rw [← List.singleton_append, ← List.append_assoc]
    cases hb : s.usesBindings with
    | true =>
      have skip : Collected (seen ++ [(p, s)]) found := by
        rw [Collected, List.filterMap_append]
        have : [(p, s)].filterMap keyed = [] := by simp [keyed, hb]
        rwa [this, List.append_nil]
      simpa [collect, hb] using ih tail skip hp
    | false =>
      simpa [collect, hb, hk] using ih tail (hc.add hb hk) (pinned_add hp hf hk)

end Occurrence

/-- The occurrences of the nodes of an accepted tree are collected, with all their paths. -/
theorem Tree.collect_nodes {t : Tree} (ht : t.accepted = true) :
    ∃ found, Occurrence.collect [] t.nodes = .ok found ∧
      Occurrence.Collected t.nodes found ∧ ∀ o ∈ found, o.Pinned t := by
  have canonical {n : Path × Tree} (hn : n ∈ t.nodes) :
      t.follow? n.1 = some n.2 ∧ ∃ k, n.2.canonical = .ok k := by
    obtain ⟨hf, hl⟩ := (Tree.mem_nodes ht).1 hn
    refine ⟨hf, Tree.exists_canonical
      (Tree.accepted_of_mem_subtrees ht (Tree.mem_subtrees_of_follow? hf)) ?_⟩
    obtain ⟨p, u⟩ := n
    cases u with
    | literal l => simp [Tree.isLiteral] at hl
    | node a cs => rfl
  have start : Occurrence.Collected [] [] := Grouped.empty
  exact Occurrence.collect_invariants (fun n hn => canonical hn) start nofun

/-! ## Names -/

theorem subtreeName_injective : Function.Injective subtreeName := by
  intro m n h
  have digits : Nat.toDigits 10 m = Nat.toDigits 10 n := by
    rw [← Nat.toList_repr, ← Nat.toList_repr]
    exact congrArg String.toList ((String.append_right_inj "subtree_").1 h)
  rw [← Nat.ofDigitChars_ten_toDigits (n := m), digits, Nat.ofDigitChars_ten_toDigits]

/-- Short names are not reserved. -/
theorem subtreeName_ne (n : Nat) {name : String} (h : name.length < 8) : subtreeName n ≠ name := by
  rintro rfl
  rw [subtreeName, String.length_append] at h
  have : "subtree_".length = 8 := rfl
  omega

/-- The names are the first reserved ones in order. -/
theorem names_nameRepeated (found : List Occurrence) : (nameRepeated found).map Prod.fst =
    (List.range (nameRepeated found).length).map subtreeName := by
  have numbers := List.zipIdx_map_snd 0 (found.filter fun o => !o.others.isEmpty)
  rw [nameRepeated, List.length_map, List.length_zipIdx, List.range_eq_range', ← numbers,
    List.map_map, List.map_map]
  rfl

theorem of_mem_nameRepeated {found : List Occurrence} {r : String × Occurrence}
    (hr : r ∈ nameRepeated found) : r.2 ∈ found ∧ r.2.others ≠ [] ∧ ∃ n, r.1 = subtreeName n := by
  obtain ⟨⟨o, n⟩, ho, rfl⟩ := List.mem_map.1 hr
  have ho := List.mem_of_getElem? (List.mk_mem_zipIdx_iff_getElem?.1 ho)
  obtain ⟨ho, hne⟩ := List.mem_filter.1 ho
  exact ⟨ho, by simpa using hne, n, rfl⟩

/-- A path with a name is one of the paths of the subtree of that name. -/
theorem exists_of_nameAt? {repeated : List (String × Occurrence)} {p : Path} {name : String}
    (h : nameAt? repeated p = some name) : ∃ r ∈ repeated, r.1 = name ∧ p ∈ r.2.paths := by
  obtain ⟨r, hr, e⟩ := Option.map_eq_some_iff.1 h
  have hp : r.2.paths.contains p = true := by simpa using List.find?_some hr
  exact ⟨r, List.mem_of_find?_eq_some hr, e, by simpa using hp⟩

/-- The repeated subtrees of a tree with their names: every name is a reserved one, no two subtrees
share a name or a key, each has the paths at which it occurs, and those that occur at two paths are
the ones that are named. -/
structure Naming (t : Tree) (repeated : List (String × Occurrence)) : Prop where
  reserved : ∀ r ∈ repeated, ∃ n, r.1 = subtreeName n
  names_apart : (repeated.map Prod.fst).Nodup
  keys_apart : (repeated.map fun r => r.2.key).Nodup
  mem_paths : ∀ r ∈ repeated, ∀ p, p ∈ r.2.paths ↔ t.OccursAt r.2.key p
  first : ∀ r ∈ repeated, t.follow? r.2.first = some r.2.subtree
  again : ∀ r ∈ repeated, ∃ p, t.OccursAt r.2.key p ∧ p ≠ r.2.first
  covered : ∀ k p q, t.OccursAt k p → t.OccursAt k q → p ≠ q → ∃ r ∈ repeated, r.2.key = k

section

variable {t : Tree} {found : List Occurrence}

theorem Occurrence.mem_keyed (ht : t.accepted = true) {k : Tree} {p : Path} :
    (k, p) ∈ t.nodes.filterMap keyed ↔ t.OccursAt k p := by
  rw [List.mem_filterMap]
  constructor
  · rintro ⟨n, hn, hk⟩
    obtain ⟨rfl, hb, hk⟩ := keyed_eq_some.1 hk
    obtain ⟨hf, hl⟩ := (Tree.mem_nodes ht).1 hn
    exact ⟨n.2, hf, hl, hb, hk⟩
  · rintro ⟨s, hf, hl, hb, hk⟩
    exact ⟨(p, s), (Tree.mem_nodes ht).2 ⟨hf, hl⟩, keyed_eq_some.2 ⟨rfl, hb, hk⟩⟩

theorem Occurrence.mem_paths (ht : t.accepted = true) (hc : Collected t.nodes found)
    {o : Occurrence} (ho : o ∈ found) {p : Path} : p ∈ o.paths ↔ t.OccursAt o.key p := by
  rw [hc.members_eq o ho, ← mem_keyed ht]
  simp

theorem Occurrence.nodup_paths (ht : t.accepted = true) (hc : Collected t.nodes found)
    {o : Occurrence} (ho : o ∈ found) : o.paths.Nodup := by
  rw [hc.members_eq o ho]
  have sub : (((t.nodes.filterMap keyed).filter fun x => decide (o.key = x.1)).map Prod.snd).Sublist
      ((t.nodes.filterMap keyed).map Prod.snd) := (List.filter_sublist).map Prod.snd
  refine sub.nodup ?_
  have paths : ((t.nodes.filterMap keyed).map Prod.snd).Sublist (t.nodes.map Prod.fst) := by
    generalize t.nodes = l
    induction l with
    | nil => exact .slnil
    | cons n l ih =>
      cases h : keyed n with
      | none =>
        rw [List.filterMap_cons_none h, List.map_cons]
        exact ih.cons n.1
      | some kp =>
        obtain ⟨k, p⟩ := kp
        rw [List.filterMap_cons_some h, List.map_cons, List.map_cons, (keyed_eq_some.1 h).1]
        exact ih.cons_cons n.1
  exact paths.nodup (Tree.nodup_paths_nodes ht)

/-- The subtrees that get names are those that occur at two paths. -/
theorem naming_nameRepeated (ht : t.accepted = true) (hc : Occurrence.Collected t.nodes found)
    (hp : ∀ o ∈ found, o.Pinned t) : Naming t (nameRepeated found) := by
  have zipped : (nameRepeated found).map Prod.snd = found.filter fun o => !o.others.isEmpty := by
    rw [nameRepeated, List.map_map]
    exact List.zipIdx_map_fst 0 _
  refine ⟨fun r hr => (of_mem_nameRepeated hr).2.2, ?_, ?_,
    fun r hr p => Occurrence.mem_paths ht hc (of_mem_nameRepeated hr).1,
    fun r hr => (hp r.2 (of_mem_nameRepeated hr).1).1, fun r hr => ?_, fun k p q hkp hkq hpq => ?_⟩
  · rw [names_nameRepeated]
    exact List.nodup_range.map subtreeName_injective
  · have apart : found.Pairwise fun o o' => o.key ≠ o'.key :=
      hc.apart.imp fun h => of_decide_eq_false h
    rw [← Function.comp_def Occurrence.key, ← List.map_map, zipped]
    exact List.pairwise_map.2 (apart.sublist List.filter_sublist)
  · obtain ⟨hf, hne, -⟩ := of_mem_nameRepeated hr
    obtain ⟨q, others, e⟩ := List.exists_cons_of_ne_nil hne
    have hq : q ∈ r.2.paths := by rw [Occurrence.paths, e]; simp
    have nodup := Occurrence.nodup_paths ht hc hf
    rw [Occurrence.paths, e] at nodup
    exact ⟨q, (Occurrence.mem_paths ht hc hf).1 hq, by rintro rfl; simp at nodup⟩
  · obtain ⟨o, ho, hk⟩ := hc.covered (k, p) ((Occurrence.mem_keyed ht).2 hkp)
    obtain rfl : o.key = k := of_decide_eq_true hk
    have hne : o.others ≠ [] := by
      intro e
      have hop := (Occurrence.mem_paths ht hc ho).2 hkp
      have hoq := (Occurrence.mem_paths ht hc ho).2 hkq
      rw [Occurrence.paths, e, List.mem_singleton] at hop hoq
      exact hpq (hop.trans hoq.symm)
    have hm : o ∈ (nameRepeated found).map Prod.snd := by
      rw [zipped]
      exact List.mem_filter.2 ⟨ho, by simpa using hne⟩
    obtain ⟨r, hr, rfl⟩ := List.mem_map.1 hm
    exact ⟨r, hr, rfl⟩

end

namespace Naming

variable {t : Tree} {repeated rs : List (String × Occurrence)}

theorem subtree_mem (h : Naming t repeated) {r : String × Occurrence} (hr : r ∈ repeated) :
    r.2.subtree ∈ t.subtrees :=
  Tree.mem_subtrees_of_follow? (h.first r hr)

/-- The order of the named subtrees does not matter. -/
theorem perm (h : Naming t repeated) (hp : rs.Perm repeated) : Naming t rs where
  reserved r hr := h.reserved r (hp.mem_iff.1 hr)
  names_apart := (hp.map _).nodup_iff.2 h.names_apart
  keys_apart := (hp.map _).nodup_iff.2 h.keys_apart
  mem_paths r hr := h.mem_paths r (hp.mem_iff.1 hr)
  first r hr := h.first r (hp.mem_iff.1 hr)
  again r hr := h.again r (hp.mem_iff.1 hr)
  covered k p q hkp hkq hpq := by
    obtain ⟨r, hr, hk⟩ := h.covered k p q hkp hkq hpq
    exact ⟨r, hp.mem_iff.2 hr, hk⟩

theorem eq_of_name_eq (h : Naming t repeated) {r s : String × Occurrence} (hr : r ∈ repeated)
    (hs : s ∈ repeated) (e : r.1 = s.1) : r = s :=
  List.inj_on_of_nodup_map h.names_apart hr hs e

theorem eq_of_key_eq (h : Naming t repeated) {r s : String × Occurrence} (hr : r ∈ repeated)
    (hs : s ∈ repeated) (e : r.2.key = s.2.key) : r = s :=
  List.inj_on_of_nodup_map h.keys_apart hr hs e

theorem occursAt_first (h : Naming t repeated) {r : String × Occurrence} (hr : r ∈ repeated) :
    t.OccursAt r.2.key r.2.first :=
  (h.mem_paths r hr _).1 List.mem_cons_self

/-- The name at a path is the one of the subtree that occurs there. -/
theorem nameAt?_eq_some_iff (h : Naming t repeated) {p : Path} {name : String} :
    nameAt? repeated p = some name ↔ ∃ r ∈ repeated, r.1 = name ∧ t.OccursAt r.2.key p := by
  constructor
  · intro hn
    obtain ⟨r, hr, e, hp⟩ := exists_of_nameAt? hn
    exact ⟨r, hr, e, (h.mem_paths r hr p).1 hp⟩
  · rintro ⟨r, hr, e, hp⟩
    rw [nameAt?, Option.map_eq_some_iff]
    cases hf : repeated.find? (fun r => r.2.paths.contains p) with
    | none =>
      have hn := List.find?_eq_none.1 hf r hr
      simp [(h.mem_paths r hr p).2 hp] at hn
    | some s =>
      have hs := List.mem_of_find?_eq_some hf
      have hps : s.2.paths.contains p = true := by simpa using List.find?_some hf
      have key := ((h.mem_paths s hs p).1 (by simpa using hps)).key_eq hp
      exact ⟨s, rfl, by rw [h.eq_of_key_eq hs hr key, e]⟩

end Naming

end SpanJoin
