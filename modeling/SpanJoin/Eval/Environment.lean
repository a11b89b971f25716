import SpanJoin.Collection.Upsert
import SpanJoin.Datum.Basic

/-!
# Environments

An environment binds names to data. A name has at most one binding; binding it again replaces the
datum.
-/

namespace SpanJoin

/-- Bindings of names, each name once. -/
structure Environment where
  bindings : List (String × Datum)

namespace Environment

/-- No bindings. -/
def empty : Environment := ⟨[]⟩

/-- Binds a name: in the place of its old binding, or as the last one. -/
def bind (env : Environment) (name : String) (d : Datum) : Environment :=
  ⟨upsert (fun b => b.1 == name) (fun _ => (name, d)) (name, d) env.bindings⟩

/-- The datum bound to a name. -/
def get? (env : Environment) (name : String) : Option Datum := env.bindings.lookup name

/-- A name that is bound has its new datum, and all others keep theirs. -/
theorem get?_bind (env : Environment) (name other : String) (d : Datum) :
    (env.bind name d).get? other = if other = name then some d else env.get? other := by
  obtain ⟨bindings⟩ := env
  have ne {a b : String} (h : a ≠ b) : (a == b) = false := beq_eq_false_iff_ne.2 h
  simp only [get?, bind]
  induction bindings with
  | nil => by_cases h : other = name <;> simp [upsert, List.lookup_cons, h, ne]
  | cons b rest ih =>
    obtain ⟨key, e⟩ := b
    by_cases hk : key = name
    · subst hk
      by_cases h : other = key <;> simp [upsert, List.lookup_cons, h, ne]
    · by_cases h : other = key
      · subst h
        simp [upsert, hk, ne]
      · simpa [upsert, List.lookup_cons, hk, h, ne] using ih

/-- The number of bound names. -/
def size (env : Environment) : Nat := env.bindings.length

/-- Is no name bound? -/
def isEmpty (env : Environment) : Bool := env.bindings.isEmpty

end Environment

end SpanJoin
