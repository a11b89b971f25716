import SpanJoin.Proofs.Table.Groups

/-!
# Hashes of keys

A hash table compares a key only with those that fall into the same bucket. This finds what a search
by `==` finds, under every hash function and every choice of buckets (`find?_bucket`,
`Group.add_eq_upsert_bucket`), since equal keys have equal hashes (`Key.hash_eq_of_beq`). Other keys
are told apart by what goes into the hash, unless a cell is missing (`Key.hashInputs_eq_iff`), so
that only the hash function can let them collide.
-/

namespace SpanJoin

/-! ## What goes into a hash -/

namespace Cell

theorem hashInputs_eq_of_beq {a b : Cell} (h : (a == b) = true) :
    a.hashInputs = b.hashInputs := by
  cases a with
  | float x =>
    cases b with
    | float y =>
      have hx : x.isNaN = false := (Binary64.beq_iff.1 h).1
      rw [hashInputs, hashInputs, (Binary64.beq_iff_unsigned_zero hx).1 h]
    | _ => simp [beq_def, equal] at h
  | _ => cases b <;> simp_all [beq_def, equal, hashInputs]

/-- A cell that is there is told from others by what goes into a hash. -/
theorem hashInputs_eq_iff {a b : Cell} (ha : a.isMissing = false) :
    a.hashInputs = b.hashInputs ↔ (a == b) = true := by
  refine ⟨fun h => ?_, hashInputs_eq_of_beq⟩
  cases a with
  | float x =>
    cases b with
    | float y =>
      refine (Binary64.beq_iff_unsigned_zero ha).2 (Float.toBits_inj.1 ?_)
      simpa [hashInputs] using h
    | _ => simp [hashInputs] at h
  | null => cases ha
  | _ => cases b <;> simp_all [beq_def, equal, hashInputs]

/-- The kind tells how much belongs to a cell. -/
theorem hashInputs_append_inj {a b : Cell} {l m : List HashInput} :
    a.hashInputs ++ l = b.hashInputs ++ m ↔ a.hashInputs = b.hashInputs ∧ l = m := by
  cases a <;> cases b <;> simp [hashInputs]

end Cell

namespace Key

variable {σ : Type} (h : Hasher σ) {j k : Key}

theorem hashInputs_cons (a : Cell) (k : Key) :
    hashInputs (a :: k) = a.hashInputs ++ k.hashInputs :=
  List.flatMap_cons

theorem hashInputs_eq_of_beq (e : (j == k) = true) : j.hashInputs = k.hashInputs := by
  have same := beq_iff_forall₂.1 e
  clear e
  induction same with
  | nil => rfl
  | cons hab _ ih => rw [hashInputs_cons, hashInputs_cons, Cell.hashInputs_eq_of_beq hab, ih]

/-- Keys without missing cells are equal exactly if the same goes into their hashes. -/
theorem hashInputs_eq_iff (hj : j.any Cell.isMissing = false) :
    j.hashInputs = k.hashInputs ↔ (j == k) = true := by
  refine ⟨fun e => ?_, hashInputs_eq_of_beq⟩
  induction j generalizing k with
  | nil =>
    cases k with
    | nil => rfl
    | cons b bs => cases b <;> cases e
  | cons a as ih =>
    rw [List.any_cons, Bool.or_eq_false_iff] at hj
    cases k with
    | nil => cases a <;> cases e
    | cons b bs =>
      rw [hashInputs_cons, hashInputs_cons, Cell.hashInputs_append_inj] at e
      exact beq_cons.2 ⟨(Cell.hashInputs_eq_iff hj.1).1 e.1, ih hj.2 e.2⟩

/-- **Equal keys have equal hashes**, whatever the hash function. -/
theorem hash_eq_of_beq (e : (j == k) = true) : j.hash h = k.hash h := by
  rw [hash, hash, hashInputs_eq_of_beq e]

example (h : Hasher Unit) : Key.hash h [.float 0] = Key.hash h [.float (-0)] :=
  hash_eq_of_beq h rfl

end Key

/-! ## Search in buckets -/

section

variable {σ β : Type} [BEq β] [LawfulBEq β] (h : Hasher σ) (bucket : UInt64 → β) (key : Key)

theorem sameBucket_and_beq (j : Key) :
    (bucket (j.hash h) == bucket (key.hash h) && j == key) = (j == key) := by
  cases e : j == key with
  | true => simp [Key.hash_eq_of_beq h e]
  | false => exact Bool.and_false _

/-- The group of a key is in the bucket of the key. -/
theorem find?_bucket (groups : List Group) :
    (groups.filter fun g => bucket (g.key.hash h) == bucket (key.hash h)).find?
      (fun g => g.key == key) = groups.find? fun g => g.key == key := by
  simp only [List.find?_filter, Bool.decide_and, Bool.decide_eq_true, sameBucket_and_beq]

/-- A row joins the group of its key in the bucket of the key. -/
theorem Group.add_eq_upsert_bucket (position : Nat) (groups : List Group) :
    Group.add key position groups =
      upsert (fun g => bucket (g.key.hash h) == bucket (key.hash h) && g.key == key)
        (fun g => { g with positions := g.positions ++ [position] }) ⟨key, [position]⟩ groups := by
  simp only [sameBucket_and_beq, Group.add]

end

end SpanJoin
