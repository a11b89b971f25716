import SpanJoin.Proofs.Join.Matching
import SpanJoin.Proofs.Plan.Columns
import SpanJoin.Proofs.Table.Series

/-!
# The join as a double loop

`Join.plainCell?` says what a derived cell is by a search through the whole right table for each
left row, without cutting the tables down, grouping them or looking anything up. The contexts in
which a join evaluates rows hold tables cut down to the columns that are needed; each of them stands
for a plain one and agrees with it on all columns that the plans read (`Join.exists_plainContext`).
-/

namespace SpanJoin

namespace Join

/-! ## The double loop -/

/-- The length of the interval in the row at a position. -/
def lengthAt? (t : Table) (start stop : String) (position : Nat) : Option Cell := do
  let first ← t.cell? start position
  let last ← t.cell? stop position
  (intervalLength first last).toOption

/-- The signed overlap of the intervals in the left row `i` and the right row `j`. -/
def overlapAt? (left right : Table) (start stop : String) (i j : Nat) : Option Cell := do
  let first ← left.cell? start i
  let last ← left.cell? stop i
  let otherFirst ← right.cell? start j
  let otherLast ← right.cell? stop j
  (overlapWith first last (otherFirst, otherLast)).toOption

/-- The context of the left row `i` and the right rows `js` of the whole tables. The right rows keep
their positions as labels. -/
def plainContext? (left right : Table) (start stop : String) (i : Nat) (js : List Nat) :
    Option Context := do
  let rows ← right.resetIndex.take? js
  let length ← lengthAt? left start stop i
  let lengths ← js.mapM (lengthAt? right start stop)
  let overlaps ← js.mapM (overlapAt? left right start stop i)
  return ⟨⟨left, i⟩, rows, length, ⟨none, rows.index, lengths⟩, ⟨none, rows.index, overlaps⟩⟩

theorem plainContext?_eq_some_iff {left right : Table} {start stop : String} {i : Nat}
    {js : List Nat} {c : Context} : plainContext? left right start stop i js = some c ↔
      ∃ rows length lengths overlaps, right.resetIndex.take? js = some rows ∧
        lengthAt? left start stop i = some length ∧
        js.mapM (lengthAt? right start stop) = some lengths ∧
        js.mapM (overlapAt? left right start stop i) = some overlaps ∧
        ⟨⟨left, i⟩, rows, length,
          ⟨none, rows.index, lengths⟩, ⟨none, rows.index, overlaps⟩⟩ = c := by
  simp [plainContext?, Option.bind_eq_some_iff]

/-- The derived cell of a tree in the left row `i`: `null` if its key has a missing cell, or if no
right row has an equal key and the policy is to pass over such rows; otherwise the scalar that the
plan of the tree gives for the right rows of an equal key. -/
def plainCell? (policy : Unmatched) (left right : Table) (keys : List String)
    (start stop : String) (t : Tree) (i : Nat) : Option Cell := do
  let key ← left.keyOf? keys i
  if key.any Cell.isMissing then some .null
  else if right.matching keys key = [] ∧ policy = .null then some .null
  else do
    let c ← plainContext? left right start stop i (right.matching keys key)
    let p ← t.share.toOption
    match p.eval c with
    | .ok (.scalar cell) => some cell
    | _ => none

/-! ## Derived columns -/

/-- The derived column is the one of the tree: its name, what it reads and its plan. -/
structure DerivedOf (t : Tree) (d : Derived) : Prop where
  name : t.outputName = .ok d.name
  reads : t.columns? = some d.reads
  plan : t.share = .ok d.plan

theorem derivedOf_of_derive {left : Table} {before : List Derived} {t : Tree} {d : Derived}
    (h : derive left before t = .ok d) : DerivedOf t d := by
  rw [derive] at h
  obtain ⟨name, hn, h⟩ := Outcome.bind_eq_ok.1 h
  split at h
  · cases h
  · obtain ⟨reads, hr, h⟩ := Outcome.bind_eq_ok.1 h
    obtain ⟨plan, hp, h⟩ := Outcome.bind_eq_ok.1 h
    rw [← Except.ok.inj h]
    exact ⟨Outcome.mapError_eq_ok.1 hn, Outcome.ofOption_eq_ok.1 hr, Outcome.mapError_eq_ok.1 hp⟩

theorem derivedOf_of_deriveEach {left : Table} {trees : List Tree} {before all : List Derived}
    (h : deriveEach left before trees = .ok all) :
    ∃ derived, all = before ++ derived ∧ List.Forall₂ DerivedOf trees derived := by
  induction trees generalizing before with
  | nil =>
    obtain rfl : before = all := Except.ok.inj h
    exact ⟨[], (List.append_nil _).symm, .nil⟩
  | cons t trees ih =>
    rw [deriveEach] at h
    cases hd : derive left before t with
    | error e =>
      rw [hd] at h
      cases h
    | ok d =>
      rw [hd] at h
      obtain ⟨derived, rfl, hds⟩ := ih h
      exact ⟨d :: derived, by simp, .cons (derivedOf_of_derive hd) hds⟩

/-! ## Lengths and overlaps -/

theorem cell?_of_column {t : Table} {name : String} {cells : List Cell}
    (h : t.column name = .ok cells) (position : Nat) :
    t.cell? name position = cells[position]? := by
  rw [Table.cell?, h]
  rfl

theorem lengthAt?_of_cutTo {t u : Table} {names : List String} (cut : u.CutTo t names)
    {start stop : String} (hstart : start ∈ names) (hstop : stop ∈ names) (position : Nat) :
    lengthAt? u start stop position = lengthAt? t start stop position := by
  rw [lengthAt?, lengthAt?, cut.cell?_eq hstart, cut.cell?_eq hstop]

theorem lengthAt?_of_intervalLengths {t : Table} {start stop : String} {lengths : List Cell}
    (h : intervalLengths t start stop = .ok lengths) {p : Nat} {length : Cell}
    (hp : lengths[p]? = some length) : lengthAt? t start stop p = some length := by
  obtain ⟨starts, hs, h⟩ := Outcome.bind_eq_ok.1 h
  obtain ⟨stops, he, h⟩ := Outcome.bind_eq_ok.1 h
  obtain ⟨⟨first, last⟩, hb, hl⟩ := exists_getElem?_of_forall₂_right (mapM_eq_ok_iff.1 h) hp
  obtain ⟨hfirst, hlast⟩ := List.getElem?_zip_eq_some.1 hb
  rw [← cell?_of_column (Outcome.exceptMapError_eq_ok.1 hs)] at hfirst
  rw [← cell?_of_column (Outcome.exceptMapError_eq_ok.1 he)] at hlast
  rw [lengthAt?, hfirst, hlast]
  simp only [Option.bind_eq_bind, Option.bind_some, hl]
  rfl

theorem toOption_eq_some {ε α : Type} {r : Except ε α} {a : α} :
    r.toOption = some a ↔ r = .ok a := by
  cases r <;> simp [Except.toOption]

/-- Overlaps with picked intervals are overlaps with the rows that these were picked from. -/
theorem mapM_overlapAt?_iff {left right : Table} {start stop : String} {i : Nat} {first last : Cell}
    {starts stops xs ys os : List Cell} {js : List Nat} (hfirst : left.cell? start i = some first)
    (hlast : left.cell? stop i = some last) (hstarts : right.column start = .ok starts)
    (hstops : right.column stop = .ok stops) (hx : Table.Picks starts js xs)
    (hy : Table.Picks stops js ys) : js.mapM (overlapAt? left right start stop i) = some os ↔
      List.Forall₂ (fun b o => overlapWith first last b = .ok o) (xs.zip ys) os := by
  rw [mapM_eq_some_iff]
  induction hx generalizing ys os with
  | nil =>
    cases hy
    rw [List.zip_nil_left, List.forall₂_nil_left_iff, List.forall₂_nil_left_iff]
  | @cons j x js xs hjx _ ih =>
    cases hy with
    | @cons _ y _ ys hjy hy =>
      have here (o : Cell) : overlapAt? left right start stop i j = some o ↔
          overlapWith first last (x, y) = .ok o := by
        rw [← cell?_of_column hstarts] at hjx
        rw [← cell?_of_column hstops] at hjy
        rw [overlapAt?, hfirst, hlast, hjx, hjy]
        exact toOption_eq_some
      rw [List.zip_cons_cons, List.forall₂_cons_left_iff, List.forall₂_cons_left_iff]
      simp only [here, ih hy]

/-! ## Contexts -/

/-- The matched rows are those at the positions, with their lengths. -/
theorem matchRows_spec {right : Table} {rightLengths : List Cell} {leftPositions js : List Nat}
    {m : Matched} (h : matchRows right rightLengths leftPositions js = .ok m) :
    right.take? js = some m.right ∧ ∃ lengths, Table.Picks rightLengths js lengths ∧
      m.rightLengths = ⟨none, m.right.index, lengths⟩ := by
  obtain ⟨rows, hrows, h⟩ := Outcome.bind_eq_ok.1 h
  obtain ⟨lengths, hlengths, h⟩ := Outcome.bind_eq_ok.1 h
  obtain ⟨series, hs, h⟩ := Outcome.bind_eq_ok.1 h
  rw [← Except.ok.inj h]
  exact ⟨Outcome.ofOption_eq_ok.1 hrows, lengths,
    mapM_eq_some_iff.1 (Outcome.ofOption_eq_ok.1 hlengths),
    (Series.ofIndex_eq_ok_iff.1 (Outcome.ofExcept_mapError_eq_ok.1 hs)).1⟩

/-- The context of a row holds the row, its matches and their lengths, and the overlaps with its
interval. -/
theorem contextOf_spec {left : Table} {leftLengths : List Cell} {start stop : String} {m : Matched}
    {i : Nat} {c : Context} (h : contextOf left leftLengths start stop m i = .ok c) :
    ∃ first last starts stops overlaps,
      left.cell? start i = some first ∧ left.cell? stop i = some last ∧
      m.right.column start = .ok starts ∧ m.right.column stop = .ok stops ∧
      List.Forall₂ (fun b o => overlapWith first last b = .ok o) (starts.zip stops) overlaps ∧
      leftLengths[i]? = some c.lengthOfLeft ∧
      c = ⟨⟨left, i⟩, m.right, c.lengthOfLeft, m.rightLengths,
        ⟨none, m.right.index, overlaps⟩⟩ := by
  obtain ⟨length, hlength, h⟩ := Outcome.bind_eq_ok.1 h
  obtain ⟨row, hrow, h⟩ := Outcome.bind_eq_ok.1 h
  obtain ⟨first, hfirst, h⟩ := Outcome.bind_eq_ok.1 h
  obtain ⟨last, hlast, h⟩ := Outcome.bind_eq_ok.1 h
  obtain ⟨starts, hstarts, h⟩ := Outcome.bind_eq_ok.1 h
  obtain ⟨stops, hstops, h⟩ := Outcome.bind_eq_ok.1 h
  obtain ⟨overlaps, hoverlaps, h⟩ := Outcome.bind_eq_ok.1 h
  obtain ⟨series, hs, h⟩ := Outcome.bind_eq_ok.1 h
  obtain rfl := Except.ok.inj h
  obtain rfl : row = ⟨left, i⟩ := by
    have h := Outcome.ofExcept_mapError_eq_ok.1 hrow
    rw [Table.row] at h
    split at h
    · exact (Except.ok.inj h).symm
    · cases h
  rw [(Series.ofIndex_eq_ok_iff.1 (Outcome.ofExcept_mapError_eq_ok.1 hs)).1]
  exact ⟨first, last, starts, stops, overlaps,
    Table.get_eq_ok_iff.1 (Outcome.mapError_eq_ok.1 hfirst),
    Table.get_eq_ok_iff.1 (Outcome.mapError_eq_ok.1 hlast),
    Outcome.ofExcept_mapError_eq_ok.1 hstarts, Outcome.ofExcept_mapError_eq_ok.1 hstops,
    mapM_eq_ok_iff.1 (Outcome.ofExcept_mapError_eq_ok.1 hoverlaps),
    Outcome.ofOption_eq_ok.1 hlength, rfl⟩

/-- The two tables cut down to what is needed: the key columns, the bounds and what the derived
columns read. -/
structure Cut (left right leftData rightData : Table) (keys : List String) (start stop : String)
    (derived : List Derived) : Prop where
  left : leftData.CutTo left (keys ++ [start, stop] ++ derived.flatMap fun d => d.reads.left)
  right : rightData.CutTo right (keys ++ [start, stop] ++ derived.flatMap fun d => d.reads.right)

namespace Cut

variable {left right leftData rightData : Table} {keys : List String} {start stop : String}
  {derived : List Derived}

theorem keyOf?_left (cut : Cut left right leftData rightData keys start stop derived) (i : Nat) :
    leftData.keyOf? keys i = left.keyOf? keys i :=
  cut.left.keyOf?_eq (fun k hk => by simp [hk]) i

theorem matching_right (cut : Cut left right leftData rightData keys start stop derived)
    (key : Key) : rightData.matching keys key = right.matching keys key :=
  cut.right.matching_eq (fun k hk => by simp [hk]) key

end Cut

/-- The bounds are among what is needed. -/
theorem bounds_mem {keys : List String} {start stop : String} (ns : List String) :
    start ∈ keys ++ [start, stop] ++ ns ∧ stop ∈ keys ++ [start, stop] ++ ns := by
  simp

section

variable {left right leftData rightData : Table} {keys : List String} {start stop : String}
  {derived : List Derived} {leftLengths rightLengths : List Cell} {m : Matched} {i : Nat}
  {js leftPositions : List Nat} {c : Context}

/-- Rows taken from a cut-down table and from the whole one have the same labels and, in the columns
that were kept, the same cells. -/
theorem exists_take?_whole {t u rows : Table} {names : List String} (cut : u.CutTo t names)
    (ht : t.WellFormed) (hjs : ∀ j ∈ js, j < t.rows) (hrows : u.take? js = some rows) :
    ∃ whole, t.resetIndex.take? js = some whole ∧ rows.index = whole.index ∧
      ∀ n ∈ names, ∃ cells picked, t.column n = .ok cells ∧ Table.Picks cells js picked ∧
        rows.column n = .ok picked ∧ whole.column n = .ok picked := by
  have inside : ∀ j ∈ js, j < t.resetIndex.rows := by
    intro j hj
    rw [Table.rows_resetIndex]
    exact hjs j hj
  obtain ⟨whole, hwhole⟩ := Table.exists_take? ht.resetIndex inside
  refine ⟨whole, hwhole, ?_, fun n hn => ?_⟩
  · have h := (Table.take?_eq_some_iff.1 hrows).1
    rw [cut.index] at h
    exact h.unique (Table.take?_eq_some_iff.1 hwhole).1
  · obtain ⟨cells, hcells, hdata⟩ := cut.column n hn
    obtain ⟨xs, hxs, hp⟩ := Table.column_take? hrows hdata
    obtain ⟨ys, hys, hq⟩ := Table.column_take? hwhole ((Table.column_resetIndex t n).trans hcells)
    rw [hq.unique hp] at hys
    exact ⟨cells, xs, hcells, hp, hxs, hys⟩

/-- A context in which a row is evaluated stands for the plain one: that one exists, and it agrees
on all columns that a derived column reads. -/
theorem exists_plainContext (cut : Cut left right leftData rightData keys start stop derived)
    (hr : right.WellFormed) (hjs : ∀ j ∈ js, j < right.rows)
    (hleft : intervalLengths leftData start stop = .ok leftLengths)
    (hright : intervalLengths rightData start stop = .ok rightLengths)
    (hm : matchRows rightData rightLengths leftPositions js = .ok m)
    (hc : contextOf leftData leftLengths start stop m i = .ok c) :
    ∃ c', plainContext? left right start stop i js = some c' ∧
      ∀ d ∈ derived, c.AgreeOn c' d.reads := by
  obtain ⟨hrows, lengths, hlengths, hseries⟩ := matchRows_spec hm
  obtain ⟨first, last, starts, stops, overlaps, hfirst, hlast, hstarts, hstops, hos, hlength, hc⟩ :=
    contextOf_spec hc
  obtain ⟨whole, hwhole, index, columns⟩ := exists_take?_whole cut.right hr hjs hrows
  rw [cut.left.cell?_eq (bounds_mem _).1] at hfirst
  rw [cut.left.cell?_eq (bounds_mem _).2] at hlast
  have length : lengthAt? left start stop i = some c.lengthOfLeft := by
    rw [← lengthAt?_of_cutTo cut.left (bounds_mem _).1 (bounds_mem _).2]
    exact lengthAt?_of_intervalLengths hleft hlength
  have rowLengths : js.mapM (lengthAt? right start stop) = some lengths := by
    refine mapM_eq_some_iff.2 (hlengths.imp fun j l hl => ?_)
    rw [← lengthAt?_of_cutTo cut.right (bounds_mem _).1 (bounds_mem _).2]
    exact lengthAt?_of_intervalLengths hright hl
  have rowOverlaps : js.mapM (overlapAt? left right start stop i) = some overlaps := by
    obtain ⟨starts₀, xs, hs₀, hxs, hxc, -⟩ := columns start (bounds_mem _).1
    obtain ⟨stops₀, ys, he₀, hys, hyc, -⟩ := columns stop (bounds_mem _).2
    obtain rfl : xs = starts := Except.ok.inj (hxc.symm.trans hstarts)
    obtain rfl : ys = stops := Except.ok.inj (hyc.symm.trans hstops)
    exact (mapM_overlapAt?_iff hfirst hlast hs₀ he₀ hxs hys).2 hos
  refine ⟨⟨⟨left, i⟩, whole, c.lengthOfLeft, ⟨none, whole.index, lengths⟩,
    ⟨none, whole.index, overlaps⟩⟩, ?_, fun d hd => ?_⟩
  · rw [plainContext?, hwhole, length, rowLengths, rowOverlaps]
    rfl
  · rw [hc, hseries, index]
    have needed {n : String} {f : Derived → List String} (hn : n ∈ f d) :
        n ∈ keys ++ [start, stop] ++ derived.flatMap f :=
      List.mem_append_right _ (List.mem_flatMap.2 ⟨d, hd, hn⟩)
    refine ⟨rfl, rfl, rfl, fun n hn => ?_, fun n hn => ?_⟩
    · simp only [Table.Row.get, cut.left.column_eq (needed hn)]
    · obtain ⟨-, picked, -, -, hx, hy⟩ := columns n (needed hn)
      simp only [Table.series, hx, hy, index]

end

end Join

end SpanJoin
