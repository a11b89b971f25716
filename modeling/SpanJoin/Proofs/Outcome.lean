import SpanJoin.Proofs.Collection.Pairwise

/-!
# What outcomes meet

`Outcome.Meets safe Q r` is a postcondition: an answer has the property `Q`, and if `safe` holds, no
missing position is read. Errors that are reported meet every condition. The condition of a
computation in steps follows from those of its steps (`Meets.bind`, `meets_mapM`), so one statement
about a step serves both for what its answers are like and for the absence of faults.
-/

namespace SpanJoin.Outcome

variable {ε ε' α β : Type} {safe : Prop} {Q : α → Prop} {R : β → Prop}

/-- An answer has the property `Q`, and a missing position is read only if `safe` fails. -/
def Meets (safe : Prop) (Q : α → Prop) : Outcome ε α → Prop
  | .ok a => Q a
  | .error (.error _) => True
  | .error .outOfRange => ¬ safe

@[simp] theorem meets_ok {a : α} : Meets safe Q (.ok a : Outcome ε α) ↔ Q a := .rfl

@[simp] theorem meets_error (e : ε) : Meets safe Q (.error (.error e) : Outcome ε α) := trivial

namespace Meets

theorem ne_outOfRange {r : Outcome ε α} (h : Meets safe Q r) (hs : safe) :
    r ≠ .error .outOfRange := by
  intro e
  rw [e] at h
  exact h hs

theorem bind {r : Outcome ε α} {f : α → Outcome ε β} (h : Meets safe Q r)
    (hf : ∀ a, Q a → Meets safe R (f a)) : Meets safe R (r >>= f) := by
  rcases r with (e | _) | a
  · trivial
  · exact h
  · exact hf a h

theorem map {r : Outcome ε α} {f : α → β} (h : Meets safe Q r) (hf : ∀ a, Q a → R (f a)) :
    Meets safe R (r.map f) :=
  h.bind (f := fun a => .ok (f a)) hf

theorem mapError {r : Outcome ε α} (h : Meets safe Q r) (f : ε → ε') :
    Meets safe Q (r.mapError f) := by
  rcases r with (e | _) | a <;> exact h

end Meets

/-- An answer is mapped, and nothing else becomes one. -/
theorem exceptMap_eq_ok {r : Except ε α} {f : α → β} {b : β} :
    r.map f = .ok b ↔ ∃ a, r = .ok a ∧ f a = b := by
  cases r <;> simp [Except.map]

/-- Errors seen as errors of another kind are errors still. -/
theorem exceptMapError_eq_ok {r : Except ε α} {f : ε → ε'} {a : α} :
    r.mapError f = .ok a ↔ r = .ok a := by
  cases r <;> simp [Except.mapError]

theorem ofExcept_mapError_eq_ok {r : Except ε α} {f : ε → ε'} {a : α} :
    ofExcept (r.mapError f) = .ok a ↔ r = .ok a :=
  ofExcept_eq_ok.trans exceptMapError_eq_ok

/-- Where no position is read, the answers decide. -/
theorem meets_ofExcept {r : Except ε α} : Meets safe Q (ofExcept r) ↔ ∀ a, r = .ok a → Q a := by
  cases r <;> simp [ofExcept]

theorem meets_ofExcept_eq (r : Except ε α) : Meets safe (fun a => r = .ok a) (ofExcept r) :=
  meets_ofExcept.2 fun _ h => h

theorem meets_ofOption {o : Option α} (h : ∃ a, o = some a ∧ Q a) :
    Meets safe Q (ofOption o : Outcome ε α) := by
  obtain ⟨a, rfl, ha⟩ := h
  exact ha

/-- A computation that goes through a list relates the list to its answers. -/
theorem meets_mapM {f : α → Outcome ε β} {S : α → β → Prop} {as : List α}
    (h : ∀ a ∈ as, Meets safe (S a) (f a)) : Meets safe (List.Forall₂ S as) (as.mapM f) := by
  induction as with
  | nil => exact .nil
  | cons a as ih =>
    rw [List.mapM_cons]
    refine (h a List.mem_cons_self).bind fun b hb => ?_
    refine (ih fun c hc => h c (List.mem_cons_of_mem a hc)).bind fun bs hbs => ?_
    exact .cons hb hbs

/-! ## What is reported -/

/-- Every error in which the computation ends has the property. -/
def Reports (E : ε → Prop) (r : Except ε α) : Prop := ∀ e, r = .error e → E e

section

variable {E : ε → Prop}

@[simp] theorem reports_ok (a : α) : Reports E (.ok a) := nofun

@[simp] theorem reports_error {e : ε} : Reports E (.error e : Except ε α) ↔ E e := by
  simp [Reports]

namespace Reports

theorem bind {r : Except ε α} {f : α → Except ε β} (h : Reports E r) (hf : ∀ a, Reports E (f a)) :
    Reports E (r >>= f) := by
  cases r with
  | error e => exact reports_error.2 (h e rfl)
  | ok a => exact hf a

theorem map {r : Except ε α} (h : Reports E r) (f : α → β) : Reports E (r.map f) :=
  h.bind (f := fun a => .ok (f a)) fun a => reports_ok (f a)

theorem mapM {f : α → Except ε β} (h : ∀ a, Reports E (f a)) (as : List α) :
    Reports E (as.mapM f) := by
  induction as with
  | nil => exact reports_ok []
  | cons a as ih =>
    rw [List.mapM_cons]
    exact (h a).bind fun b => ih.bind fun bs => reports_ok (b :: bs)

theorem foldlM {f : β → α → Except ε β} (h : ∀ b a, Reports E (f b a)) (as : List α) (b : β) :
    Reports E (as.foldlM f b) := by
  induction as generalizing b with
  | nil => exact reports_ok b
  | cons a as ih =>
    rw [List.foldlM_cons]
    exact (h b a).bind ih

theorem ofExcept {r : Except ε α} {F : Fault ε → Prop} (h : Reports E r)
    (hE : ∀ e, E e → F (.error e)) : Reports F (ofExcept r) := by
  cases r with
  | error e => exact reports_error.2 (hE e (h e rfl))
  | ok a => exact reports_ok a

end Reports

theorem reports_exceptMapError {r : Except ε α} {f : ε → ε'} {E : ε' → Prop} (h : ∀ e, E (f e)) :
    Reports E (r.mapError f) := by
  cases r with
  | error e => exact reports_error.2 (h e)
  | ok a => exact reports_ok a

theorem reports_mapError {r : Outcome ε α} {f : ε → ε'} {F : Fault ε' → Prop}
    (h : ∀ e, F (.error (f e))) (h₀ : F .outOfRange) : Reports F (r.mapError f) := by
  rcases r with (e | _) | a
  · exact reports_error.2 (h e)
  · exact reports_error.2 h₀
  · exact reports_ok a

theorem reports_ofOption {o : Option α} {F : Fault ε → Prop} (h : F .outOfRange) :
    Reports F (ofOption o) := by
  cases o with
  | none => exact reports_error.2 h
  | some a => exact reports_ok a

end

end SpanJoin.Outcome
