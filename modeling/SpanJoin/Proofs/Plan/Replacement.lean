import SpanJoin.Plan.Sharing
import SpanJoin.Proofs.Tree.Identity

/-!
# Trees with subtrees replaced

`Tree.Replaced P false t u` says that `u` is `t` with some subtrees `c` replaced by trees `d` such
that `P c d`. Below a side-by-side node a column may also be wrapped in the name that it had before,
or be kept altogether. Abbreviating a tree replaces subtrees by references
(`replaced_of_abbreviate`), and putting bodies in the place of references replaces these in turn
(`graft_replaced`). Where nothing is replaced and no columns are put side by side, the two trees are
the same (`Replaced.eq_of_forall_not`).
-/

namespace SpanJoin.Tree

/-- The second tree is the first one with subtrees replaced as `P` says. `column` says that the tree
is a column of a side-by-side node; such a column is kept, or goes under the name of the column that
it takes the place of. -/
inductive Replaced (P : Tree → Tree → Prop) : (column : Bool) → Tree → Tree → Prop
  | here {c d : Tree} (h : P c d) : Replaced P false c d
  | literal (l : Literal) : Replaced P false (.literal l) (.literal l)
  | node {a : Action} {cs ds : List Tree} (ha : a ≠ .hstack)
      (h : List.Forall₂ (Replaced P false) cs ds) : Replaced P false (.node a cs) (.node a ds)
  | hstack {cs ds : List Tree} (h : List.Forall₂ (Replaced P true) cs ds) :
      Replaced P false (.node .hstack cs) (.node .hstack ds)
  | kept (c : Tree) : Replaced P true c c
  | named {c d : Tree} {name : String} (h : Replaced P false c d)
      (hn : c.outputName = .ok name) : Replaced P true c (nameAs d name)

namespace Replaced

variable {P Q : Tree → Tree → Prop} {column : Bool} {t u : Tree}

/-- Induction over the replacements, with what is assumed of the children said of their lists. -/
@[elab_as_elim] theorem induction
    {motive : (column : Bool) → (t u : Tree) → Replaced P column t u → Prop}
    (here : ∀ {c d} (h : P c d), motive false c d (.here h))
    (literal : ∀ l, motive false (.literal l) (.literal l) (.literal l))
    (node : ∀ {a cs ds} (ha : a ≠ .hstack) (h : List.Forall₂ (Replaced P false) cs ds),
      List.Forall₂ (fun c d => ∃ h, motive false c d h) cs ds →
      motive false (.node a cs) (.node a ds) (.node ha h))
    (hstack : ∀ {cs ds} (h : List.Forall₂ (Replaced P true) cs ds),
      List.Forall₂ (fun c d => ∃ h, motive true c d h) cs ds →
      motive false (.node .hstack cs) (.node .hstack ds) (.hstack h))
    (kept : ∀ c, motive true c c (.kept c))
    (named : ∀ {c d name} (h : Replaced P false c d) (hn : c.outputName = .ok name),
      motive false c d h → motive true c (nameAs d name) (.named h hn))
    (h : Replaced P column t u) : motive column t u h :=
  @Replaced.rec P motive (fun cs ds _ => List.Forall₂ (fun c d => ∃ h, motive false c d h) cs ds)
    (fun cs ds _ => List.Forall₂ (fun c d => ∃ h, motive true c d h) cs ds)
    here literal node hstack kept named .nil (fun h _ hc hcs => .cons ⟨h, hc⟩ hcs)
    .nil (fun h _ hc hcs => .cons ⟨h, hc⟩ hcs) column t u h

/-- Nothing need be replaced. -/
theorem refl (P : Tree → Tree → Prop) (t : Tree) : Replaced P false t t := by
  induction t using Tree.induction with
  | literal l => exact .literal l
  | node a cs ih =>
    by_cases ha : a = .hstack
    · subst ha
      exact .hstack (List.forall₂_same.2 fun c _ => .kept c)
    · exact .node ha (List.forall₂_same.2 ih)

/-- Where a node of the tree with replacements comes from: it is part of a replacement, or it is a
node of the tree whose children had subtrees replaced. Nodes that put columns side by side or name
them are left out. -/
theorem of_node_mem (h : Replaced P column t u) {a : Action} {vs : List Tree} (ha : a ≠ .hstack)
    (hn : a ≠ .nameAs) (hm : Tree.node a vs ∈ u.subtrees) :
    (∃ c d, P c d ∧ Tree.node a vs ∈ d.subtrees) ∨
      ∃ cs, Tree.node a cs ∈ t.subtrees ∧ List.Forall₂ (Replaced P false) cs vs := by
  have child {column : Bool} {b : Action} {cs ds : List Tree}
      (ih : List.Forall₂ (fun c d => ∃ _ : Replaced P column c d, Tree.node a vs ∈ d.subtrees →
        (∃ c d, P c d ∧ Tree.node a vs ∈ d.subtrees) ∨
          ∃ cs, Tree.node a cs ∈ c.subtrees ∧ List.Forall₂ (Replaced P false) cs vs) cs ds)
      (hm : ∃ d ∈ ds, Tree.node a vs ∈ d.subtrees) :
      (∃ c d, P c d ∧ Tree.node a vs ∈ d.subtrees) ∨ ∃ us, Tree.node a us ∈
        (Tree.node b cs).subtrees ∧ List.Forall₂ (Replaced P false) us vs := by
    obtain ⟨d, hd, hm⟩ := hm
    obtain ⟨c, hc, -, h⟩ := exists_mem_of_forall₂_right ih hd
    rcases h hm with replaced | ⟨us, hus, h⟩
    · exact .inl replaced
    · exact .inr ⟨us, mem_subtrees_of_mem hc hus, h⟩
  induction h using Replaced.induction with
  | here h => exact .inl ⟨_, _, h, hm⟩
  | literal l => cases mem_subtrees_literal.1 hm
  | node _ h ih =>
    rcases mem_subtrees_node.1 hm with e | hm
    · obtain ⟨rfl, rfl⟩ := Tree.node.inj e
      exact .inr ⟨_, mem_subtrees_self _, h⟩
    · exact child ih hm
  | hstack _ ih =>
    rcases mem_subtrees_node.1 hm with e | hm
    · exact absurd (Tree.node.inj e).1 ha
    · exact child ih hm
  | kept c => exact .inr ⟨vs, hm, List.forall₂_same.2 fun v _ => .refl P v⟩
  | named _ _ ih =>
    rcases mem_subtrees_node.1 hm with e | ⟨v, hv, hmv⟩
    · exact absurd (Tree.node.inj e).1 hn
    · rcases List.mem_cons.1 hv with rfl | hv
      · exact ih hmv
      · obtain rfl := List.mem_singleton.1 hv
        cases mem_subtrees_literal.1 hmv

/-- The replacements may be said otherwise, as long as it comes to the same for the subtrees. -/
theorem imp_of_mem (h : Replaced P column t u)
    (imp : ∀ s ∈ t.subtrees, ∀ v, P s v → Q s v) : Replaced Q column t u := by
  induction h using Replaced.induction with
  | here h => exact .here (imp _ (mem_subtrees_self _) _ h)
  | literal l => exact .literal l
  | node ha _ ih =>
    exact .node ha (forall₂_imp_of_mem ih fun c hc _ _ ⟨_, hcd⟩ =>
      hcd fun s hs => imp s (mem_subtrees_of_mem hc hs))
  | hstack _ ih =>
    exact .hstack (forall₂_imp_of_mem ih fun c hc _ _ ⟨_, hcd⟩ =>
      hcd fun s hs => imp s (mem_subtrees_of_mem hc hs))
  | kept c => exact .kept c
  | named _ hn ih => exact .named (ih imp) hn

/-- What takes the place of a subtree may itself be that subtree with replacements. -/
theorem flatten (h : Replaced (Replaced P false) column t u) : Replaced P column t u := by
  induction h using Replaced.induction with
  | here h => exact h
  | literal l => exact .literal l
  | node ha _ ih => exact .node ha (ih.imp fun _ _ ⟨_, h⟩ => h)
  | hstack _ ih => exact .hstack (ih.imp fun _ _ ⟨_, h⟩ => h)
  | kept c => exact .kept c
  | named _ hn ih => exact .named ih hn

/-- Without replacements and side-by-side nodes, the trees are the same. -/
theorem eq_of_forall_not (h : Replaced P column t u)
    (none : ∀ s ∈ t.subtrees, ∀ v, ¬ P s v) (hc : column = false)
    (ht : ∀ cs, Tree.node .hstack cs ∉ t.subtrees) : u = t := by
  induction h using Replaced.induction with
  | here h => exact (none _ (mem_subtrees_self _) _ h).elim
  | literal l => rfl
  | @node a cs ds ha h ih =>
    have same : List.Forall₂ Eq cs ds := forall₂_imp_of_mem ih fun c hc _ _ ⟨_, h⟩ =>
      (h (fun s hs => none s (mem_subtrees_of_mem hc hs)) rfl
        fun cs hcs => ht cs (mem_subtrees_of_mem hc hcs)).symm
    rw [List.forall₂_eq_eq_eq] at same
    rw [same]
  | hstack => exact (ht _ (mem_subtrees_self _)).elim
  | kept => simp at hc
  | named => simp at hc

/-- Replacements that keep canonical forms keep that of the whole tree, where no columns are put
side by side. -/
theorem canonical_eq (h : Replaced P column t u)
    (same : ∀ s ∈ t.subtrees, ∀ v, P s v → v.canonical = s.canonical) (hc : column = false)
    (ht : ∀ cs, Tree.node .hstack cs ∉ t.subtrees) : u.canonical = t.canonical := by
  induction h using Replaced.induction with
  | here h => exact same _ (mem_subtrees_self _) _ h
  | literal l => rfl
  | @node a cs ds ha h ih =>
    have each : List.Forall₂ (fun c d => d.canonical = c.canonical) cs ds :=
      forall₂_imp_of_mem ih fun c hc _ _ ⟨_, h⟩ =>
        h (fun s hs => same s (mem_subtrees_of_mem hc hs)) rfl
          fun cs hcs => ht cs (mem_subtrees_of_mem hc hcs)
    have list : canonicalEach ds = canonicalEach cs := by
      clear h ih same ht
      induction each with
      | nil => rfl
      | cons hcd _ ih => rw [canonicalEach, canonicalEach, hcd, ih]
    rw [canonical, canonical, list]
  | hstack => exact (ht _ (mem_subtrees_self _)).elim
  | kept => simp at hc
  | named => simp at hc

/-- References have no floating-point literals, so none are added. -/
theorem floats_sublist (h : Replaced P column t u)
    (none : ∀ s v, P s v → v.floats = []) : u.floats.Sublist t.floats := by
  have each {column : Bool} {cs ds : List Tree}
      (ih : List.Forall₂ (fun c d => ∃ _ : Replaced P column c d, d.floats.Sublist c.floats)
        cs ds) :
      (floatsEach ds).Sublist (floatsEach cs) := by
    induction ih with
    | nil => exact .slnil
    | cons hcd _ ih =>
      rw [floatsEach, floatsEach]
      exact hcd.2.append ih
  induction h using Replaced.induction with
  | here h =>
    rw [none _ _ h]
    exact List.nil_sublist _
  | literal l => exact .refl _
  | node _ _ ih =>
    rw [floats, floats]
    exact each ih
  | hstack _ ih =>
    rw [floats, floats]
    exact each ih
  | kept c => exact .refl _
  | named _ _ ih =>
    simp only [nameAs, ofText, floats, floatsEach, List.append_nil]
    exact ih

/-- The text under a node stays, if only nodes are replaced. -/
theorem text_children (nodes : ∀ c d, P c d → c.isLiteral = false) {name : String}
    {ds : List Tree} (h : List.Forall₂ (Replaced P false) [ofText name] ds) :
    ds = [ofText name] := by
  cases h with
  | cons hd hn =>
    cases hn
    cases hd with
    | here h => exact absurd (nodes _ _ h) (by simp [ofText, isLiteral])
    | literal => rfl

/-- A column has the name that it had before. -/
theorem outputName_eq (h : Replaced P true t u) : u.outputName = t.outputName := by
  cases h with
  | kept => rfl
  | named _ hn =>
    rw [hn]
    rfl

end Replaced

/-! ## Abbreviating -/

/-- The child at position `i`, abbreviated or replaced by a reference as a whole. -/
def referOrAbbreviate (names : Path → Option String) (i : Nat) (c : Tree) :
    Outcome TreeError Tree :=
  match names [i] with
  | some name => .ok (refer name)
  | none => c.abbreviate fun path => names (i :: path)

/-- What becomes of the child at position `i` when its parent is abbreviated. -/
def abbreviateChild (a : Action) (names : Path → Option String) (i : Nat) (c : Tree) :
    Outcome TreeError Tree :=
  referOrAbbreviate names i c >>= fun d => if a = .hstack then keepName c d else .ok d

theorem abbreviateEach_eq_mapM (a : Action) (names : Path → Option String) (i : Nat)
    (cs : List Tree) : abbreviateEach a names i cs =
      (cs.zipIdx i).mapM fun ci => abbreviateChild a names ci.2 ci.1 := by
  induction cs generalizing i with
  | nil => rfl
  | cons c cs ih =>
    rw [abbreviateEach, List.zipIdx_cons, List.mapM_cons, ← ih, abbreviateChild, referOrAbbreviate]
    cases names [i] <;> by_cases ha : a = .hstack <;> simp [ha, bind_assoc]

/-- A node is abbreviated by abbreviating its children. -/
theorem abbreviate_node_eq_ok {a : Action} {names : Path → Option String} {cs : List Tree}
    {u : Tree} : (node a cs).abbreviate names = .ok u ↔ ∃ ds, u = node a ds ∧
      List.Forall₂ (fun ci d => abbreviateChild a names ci.2 ci.1 = .ok d) cs.zipIdx ds := by
  rw [abbreviate, abbreviateEach_eq_mapM]
  simp only [← mapM_eq_ok_iff]
  cases cs.zipIdx.mapM fun ci => abbreviateChild a names ci.2 ci.1 <;> simp [Except.map, eq_comm]

theorem exists_keepName {c : Tree} (hc : c.accepted = true) (d : Tree) :
    ∃ e, keepName c d = .ok e := by
  unfold keepName
  split
  · exact ⟨d, rfl⟩
  · split
    · exact ⟨_, rfl⟩
    · rename_i h _
      exact (outputName_ne_outOfRange hc h).elim
    · exact ⟨c, rfl⟩

/-- Every accepted tree can be abbreviated: all the names that may be asked for are there, or are
known not to be. -/
theorem exists_abbreviate {t : Tree} (ht : t.accepted = true) (names : Path → Option String) :
    ∃ u, t.abbreviate names = .ok u := by
  induction t using Tree.induction generalizing names with
  | literal l => exact ⟨_, rfl⟩
  | node a cs ih =>
    have child : ∀ ci ∈ cs.zipIdx, ∃ d, abbreviateChild a names ci.2 ci.1 = .ok d := by
      rintro ⟨c, i⟩ hci
      have hc := List.mem_of_getElem? (List.mk_mem_zipIdx_iff_getElem?.1 hci)
      have hca := (accepted_node.1 ht).2 c hc
      obtain ⟨d, hd⟩ : ∃ d, referOrAbbreviate names i c = .ok d := by
        unfold referOrAbbreviate
        cases names [i] with
        | some name => exact ⟨_, rfl⟩
        | none => exact ih c hc hca _
      obtain ⟨e, he⟩ := exists_keepName hca d
      rw [abbreviateChild, hd, Outcome.ok_bind, he]
      split
      · exact ⟨e, rfl⟩
      · exact ⟨d, rfl⟩
    obtain ⟨ds, hds⟩ := exists_forall₂ child
    exact ⟨node a ds, abbreviate_node_eq_ok.2 ⟨ds, rfl, hds⟩⟩

theorem Replaced.keepName {P : Tree → Tree → Prop} {c d e : Tree} (h : Replaced P false c d)
    (none : ∀ s v, P s v → v.floats = []) (hk : keepName c d = .ok e) : Replaced P true c e := by
  unfold Tree.keepName at hk
  split at hk
  · rename_i he
    -- equal trees have equally many floating-point literals, and `d` has some of those of `c`
    have floats := (h.floats_sublist none).eq_of_length (length_floats_of_equal he)
    obtain rfl := eq_of_equal_of_floats he floats
    rw [← Except.ok.inj hk]
    exact .kept _
  · split at hk
    · rename_i hn _
      rw [← Except.ok.inj hk]
      exact .named h hn
    · cases hk
    · rw [← Except.ok.inj hk]
      exact .kept c

/-- Abbreviating replaces subtrees by references to their names. -/
theorem replaced_of_abbreviate {P : Tree → Tree → Prop} {t u : Tree}
    {names : Path → Option String} (none : ∀ s v, P s v → v.floats = [])
    (hn : ∀ p s name, p ≠ [] → t.follow? p = some s → names p = some name → P s (refer name))
    (h : t.abbreviate names = .ok u) : Replaced P false t u := by
  induction t using Tree.induction generalizing names u with
  | literal l =>
    rw [← Except.ok.inj h]
    exact .literal l
  | node a cs ih =>
    obtain ⟨ds, rfl, hds⟩ := abbreviate_node_eq_ok.1 h
    have child : List.Forall₂ (fun ci d => ∃ e, Replaced P false ci.1 e ∧
        (if a = .hstack then Tree.keepName ci.1 e else .ok e) = .ok d) cs.zipIdx ds := by
      refine forall₂_imp_of_mem hds ?_
      rintro ⟨c, i⟩ hci d - hd
      have hc := List.mk_mem_zipIdx_iff_getElem?.1 hci
      obtain ⟨e, he, hd⟩ := Outcome.bind_eq_ok.1 hd
      refine ⟨e, ?_, hd⟩
      have follow {p : Path} {s : Tree} (hs : c.follow? p = some s) :
          (node a cs).follow? (i :: p) = some s := by
        rw [follow?_cons, hc, Option.bind_some, hs]
      rw [referOrAbbreviate] at he
      cases hi : names [i] with
      | some name =>
        rw [hi] at he
        rw [← Except.ok.inj he]
        exact .here (hn [i] c name (by simp) (follow (by rw [follow?])) hi)
      | none =>
        rw [hi] at he
        refine ih c (List.mem_of_getElem? hc) (fun p s name hp hs hname => ?_) he
        exact hn (i :: p) s name (by simp) (follow hs) hname
    rw [← List.zipIdx_map_fst 0 cs]
    by_cases ha : a = .hstack
    · subst ha
      refine .hstack (List.forall₂_map_left_iff.2 (child.imp ?_))
      rintro ci d ⟨e, he, hd⟩
      exact he.keepName none (by rwa [if_pos rfl] at hd)
    · refine .node ha (List.forall₂_map_left_iff.2 (child.imp ?_))
      rintro ci d ⟨e, he, hd⟩
      rw [if_neg ha] at hd
      rwa [← Except.ok.inj hd]

/-! ## Grafting -/

variable {body : String → Option (Option Tree)}

theorem graftEach_eq_some_iff {cs ds : List Tree} :
    graftEach body cs = some ds ↔ List.Forall₂ (fun c d => c.graft body = some d) cs ds := by
  induction cs generalizing ds with
  | nil => simp [graftEach, eq_comm]
  | cons c cs ih =>
    rw [graftEach, List.forall₂_cons_left_iff]
    simp only [← ih]
    cases c.graft body <;> cases graftEach body cs <;> simp [eq_comm]

theorem graft_refer (name : String) :
    (refer name).graft body = (body name).getD (some (refer name)) := by
  rw [refer, graft, if_pos rfl]
  simp only [List.head?_cons, Option.bind_some, ofText, text?]
  cases body name <;> rfl

theorem graft_node {a : Action} (ha : a ≠ .refer) (cs : List Tree) :
    (node a cs).graft body = (graftEach body cs).map (node a) := by
  rw [graft, if_neg ha]

/-- Only references to declared names are replaced. -/
theorem graft_eq_self {t : Tree} (ht : t.accepted = true)
    (free : ∀ name, refer name ∈ t.subtrees → body name = none) : t.graft body = some t := by
  induction t using Tree.induction with
  | literal l => rfl
  | node a cs ih =>
    by_cases ha : a = .refer
    · subst ha
      obtain ⟨name, rfl⟩ := text_child rfl ht
      rw [← refer, graft_refer, free name (mem_subtrees_self _)]
      rfl
    · have same : List.Forall₂ (fun c d => c.graft body = some d) cs cs :=
        List.forall₂_same.2 fun c hc => ih c hc ((accepted_node.1 ht).2 c hc)
          fun name hn => free name (mem_subtrees_of_mem hc hn)
      rw [graft_node ha, graftEach_eq_some_iff.2 same, Option.map_some]

/-- If every replacement can be grafted, then so can the tree with the replacements, and what is
grafted takes their place. -/
theorem graft_replaced {P Q : Tree → Tree → Prop} {column : Bool} {t u : Tree}
    (h : Replaced P column t u) (ht : t.accepted = true)
    (free : ∀ name, refer name ∈ t.subtrees → body name = none)
    (nodes : ∀ c d, P c d → c.isLiteral = false)
    (grafts : ∀ c d, P c d → ∃ w, d.graft body = some w ∧ Q c w) :
    ∃ w, u.graft body = some w ∧ Replaced Q column t w := by
  have each {column : Bool} {a : Action} {cs ds : List Tree} (ht : (node a cs).accepted = true)
      (free : ∀ name, refer name ∈ (node a cs).subtrees → body name = none)
      (ih : List.Forall₂ (fun c d => ∃ _ : Replaced P column c d, c.accepted = true →
        (∀ name, refer name ∈ c.subtrees → body name = none) →
        ∃ w, d.graft body = some w ∧ Replaced Q column c w) cs ds) :
      ∃ ws, graftEach body ds = some ws ∧ List.Forall₂ (Replaced Q column) cs ws := by
    simp only [graftEach_eq_some_iff]
    exact exists_forall₂_of_exists (forall₂_imp_of_mem ih fun c hc _ _ ⟨_, h⟩ =>
      h ((accepted_node.1 ht).2 c hc) fun name hn => free name (mem_subtrees_of_mem hc hn))
  induction h using Replaced.induction with
  | here h =>
    obtain ⟨w, hw, hq⟩ := grafts _ _ h
    exact ⟨w, hw, .here hq⟩
  | literal l => exact ⟨_, rfl, .literal l⟩
  | @node a cs ds ha h ih =>
    by_cases hr : a = .refer
    · subst hr
      obtain ⟨name, rfl⟩ := text_child rfl ht
      obtain rfl := Replaced.text_children nodes h
      refine ⟨refer name, ?_, .node ha (.cons (.literal _) .nil)⟩
      rw [← refer, graft_refer, free name (mem_subtrees_self _)]
      rfl
    · obtain ⟨ws, hds, hcs⟩ := each ht free ih
      exact ⟨_, by rw [graft_node hr, hds, Option.map_some], .node ha hcs⟩
  | @hstack cs ds h ih =>
    obtain ⟨ws, hds, hcs⟩ := each ht free ih
    exact ⟨_, by rw [graft_node (by simp), hds, Option.map_some], .hstack hcs⟩
  | kept c => exact ⟨c, graft_eq_self ht free, .kept c⟩
  | @named c d name h hn ih =>
    obtain ⟨w, hd, hc⟩ := ih ht free
    refine ⟨nameAs w name, ?_, .named hc hn⟩
    rw [nameAs, graft_node (by simp), graftEach_eq_some_iff.2 (.cons hd (.cons rfl .nil))]
    rfl

end SpanJoin.Tree
