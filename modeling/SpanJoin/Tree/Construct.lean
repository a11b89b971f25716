import SpanJoin.Tree.Basic
import SpanJoin.Tree.Error

/-!
# Checked construction

`Tree.make` builds a node if its action accepts the children: there must be as many as its arity
says, each must fit its slot, and no literal may be something that is not a number. `Tree.construct`
builds a whole tree in this way from the leaves up; it succeeds, and then changes nothing, exactly
on the trees whose every node is accepted (`Tree.construct_eq_ok_iff`).
-/

namespace SpanJoin

/-- Does the tree fit the slot? -/
def Slot.fits : Slot → Tree → Bool
  | .node, .node _ _ => true
  | .any, .node _ _ => true
  | .any, .literal l => !l.isRange
  | .text, .literal (.text _) => true
  | .range kind, .literal (.range r) => r.kind == kind
  | _, _ => false

/-- The slots of `n` children, if the arity allows that many. -/
def Arity.slots (action : Action) (n : Nat) : Except TreeError (List Slot) :=
  match action.arity with
  | .fixed slots =>
    if slots.length = n then .ok slots
    else .error (.invalidArity action (.exactly slots.length) n)
  | .variadic slot =>
    if n = 0 then .error (.invalidArity action .atLeastOne n)
    else .ok (List.replicate n slot)

namespace Tree

/-- Is the tree a literal that is not a number? -/
def isNaN : Tree → Bool
  | .literal l => l.isNaN
  | .node _ _ => false

/-- The first fault among children and their slots, `position` being that of the first child. -/
def checkChildren (action : Action) : Nat → List Slot → List Tree → Except TreeError Unit
  | position, slot :: slots, c :: cs =>
    if c.isNaN then .error .nanLiteral
    else if slot.fits c then checkChildren action (position + 1) slots cs
    else .error (.invalidChild action position slot)
  | _, _, _ => .ok ()

/-- Does the action accept the children? -/
def check (action : Action) (children : List Tree) : Except TreeError Unit :=
  match Arity.slots action children.length with
  | .ok slots => checkChildren action 0 slots children
  | .error e => .error e

/-- The node, if its action accepts the children. -/
def make (action : Action) (children : List Tree) : Except TreeError Tree :=
  match check action children with
  | .ok _ => .ok (.node action children)
  | .error e => .error e

mutual

/-- The tree with every node built by `make`, children first and from left to right. -/
def construct : Tree → Except TreeError Tree
  | .literal l => .ok (.literal l)
  | .node a cs =>
    match constructEach cs with
    | .ok cs => make a cs
    | .error e => .error e

/-- The trees of a list with every node built by `make`. -/
def constructEach : List Tree → Except TreeError (List Tree)
  | [] => .ok []
  | c :: cs =>
    match c.construct with
    | .error e => .error e
    | .ok c =>
      match constructEach cs with
      | .ok cs => .ok (c :: cs)
      | .error e => .error e

end

/-! ## Accepted trees -/

mutual

/-- Does every node of the tree have children that its action accepts? -/
def accepted : Tree → Bool
  | .literal _ => true
  | .node a cs => (check a cs).isOk && acceptedEach cs

/-- Are all trees of a list accepted? -/
def acceptedEach : List Tree → Bool
  | [] => true
  | c :: cs => c.accepted && acceptedEach cs

end

theorem acceptedEach_eq_all (cs : List Tree) : acceptedEach cs = cs.all accepted := by
  induction cs with
  | nil => rfl
  | cons c cs ih => simp [acceptedEach, ih]

theorem make_eq_ok_iff {a : Action} {cs : List Tree} {t : Tree} :
    make a cs = .ok t ↔ (check a cs).isOk = true ∧ t = .node a cs := by
  unfold make
  cases check a cs <;> simp [Except.isOk, Except.toBool, eq_comm]

theorem constructEach_eq_ok_iff {cs us : List Tree}
    (h : ∀ c ∈ cs, ∀ u, c.construct = .ok u ↔ c.accepted = true ∧ u = c) :
    constructEach cs = .ok us ↔ acceptedEach cs = true ∧ us = cs := by
  induction cs generalizing us with
  | nil => simp [constructEach, acceptedEach, eq_comm]
  | cons c cs ih =>
    have hc := h c List.mem_cons_self
    have hcs (us : List Tree) := @ih us fun d hd => h d (List.mem_cons_of_mem c hd)
    simp only [constructEach, acceptedEach, Bool.and_eq_true]
    cases hr : c.construct with
    | error e =>
      have : ¬ c.accepted = true := fun ha => by simp [(hc c).2 ⟨ha, rfl⟩] at hr
      simp [this]
    | ok d =>
      obtain ⟨ha, rfl⟩ := (hc d).1 hr
      cases hs : constructEach cs with
      | error e =>
        have : ¬ acceptedEach cs = true := fun ha => by simp [(hcs cs).2 ⟨ha, rfl⟩] at hs
        simp [this]
      | ok ds =>
        obtain ⟨hb, rfl⟩ := (hcs ds).1 hs
        simp [ha, hb, eq_comm]

/-- Building a tree node by node gives the tree itself, if all of its nodes are accepted. -/
theorem construct_eq_ok_iff {t u : Tree} : t.construct = .ok u ↔ t.accepted = true ∧ u = t := by
  induction t using Tree.induction generalizing u with
  | literal l => simp [construct, accepted, eq_comm]
  | node a cs ih =>
    have each (us : List Tree) := @constructEach_eq_ok_iff cs us fun c hc u => @ih c hc u
    simp only [construct, accepted, Bool.and_eq_true]
    cases hs : constructEach cs with
    | error e =>
      have : ¬ acceptedEach cs = true := fun ha => by simp [(each cs).2 ⟨ha, rfl⟩] at hs
      simp [this]
    | ok ds =>
      obtain ⟨hb, rfl⟩ := (each ds).1 hs
      simp [hb, make_eq_ok_iff]

end Tree

end SpanJoin
