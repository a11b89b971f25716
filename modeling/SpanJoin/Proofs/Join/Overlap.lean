import Mathlib.Algebra.Ring.Int.Defs
import SpanJoin.Join.Interval
import SpanJoin.Proofs.Collection.Pairwise
import SpanJoin.Proofs.Int64

/-!
# The sign of an overlap

For intervals with integer bounds the signed overlap is the lesser stop less the greater start,
reduced to 64 bits (`signedOverlap_int`). Not reduced, this number is positive if the two intervals
have a stretch in common, zero if they touch, and negative if there is a gap between them. The
reduced one tells these cases apart exactly if the other one lies in the signed 64-bit range
(`Span.overlap_tells_iff`), and then it exceeds no length that lies in the range as well
(`Span.overlap_le_length`).

Intervals with bounds near both ends of the range are out of it: of two intervals of length 1, one
at each end, the overlap is 3 (`Span.overlap_of_far_ends`), and two intervals that are open at the
start have a negative overlap (`Span.overlap_of_open_starts`).
-/

namespace SpanJoin

/-- An interval of integers that does not end before it starts. -/
structure Span where
  start : Int64
  stop : Int64
  start_le_stop : start.toInt ≤ stop.toInt

namespace Span

variable (s t : Span)

/-- The later of the two starts. -/
def lastStart : Int := max s.start.toInt t.start.toInt

/-- The earlier of the two stops. -/
def firstStop : Int := min s.stop.toInt t.stop.toInt

/-- Is there a stretch that lies in both intervals? -/
def Meets : Prop := s.lastStart t < s.firstStop t

/-- Is there a gap between the intervals? -/
def Misses : Prop := s.firstStop t < s.lastStart t

/-- The signed overlap as it is computed. -/
def overlap : Int64 := Int64.ofInt (s.firstStop t - s.lastStart t)

/-- The length as it is computed. -/
def length : Int64 := s.stop - s.start

end Span

/-! ## What is computed -/

theorem pickBound_int (wanted : Ordering) (a b : Int64) :
    pickBound wanted (.int a) (.int b) =
      .ok (if Cell.orderInt a.toInt b.toInt == wanted then .int a else .int b) := rfl

/-- Of two integers the greater one is picked. -/
theorem pickBound_gt_int (a b : Int64) :
    pickBound .gt (.int a) (.int b) = .ok (.int (Int64.ofInt (max a.toInt b.toInt))) := by
  rw [pickBound_int, Cell.orderInt]
  rcases Int.lt_trichotomy a.toInt b.toInt with h | h | h
  · simp [h, Int.max_eq_right (Int.le_of_lt h)]
  · simp [h]
  · simp [h, Int.lt_asymm h, Int.max_eq_left (Int.le_of_lt h)]

/-- Of two integers the lesser one is picked. -/
theorem pickBound_lt_int (a b : Int64) :
    pickBound .lt (.int a) (.int b) = .ok (.int (Int64.ofInt (min a.toInt b.toInt))) := by
  rw [pickBound_int, Cell.orderInt]
  rcases Int.lt_trichotomy a.toInt b.toInt with h | h | h
  · simp [h, Int.min_eq_left (Int.le_of_lt h)]
  · simp [h]
  · simp [h, Int.lt_asymm h, Int.min_eq_right (Int.le_of_lt h)]

namespace Span

theorem overlapWith_int (s t : Span) :
    overlapWith (.int s.start) (.int s.stop) (.int t.start, .int t.stop) =
      .ok (.int (s.overlap t)) := by
  rw [overlapWith, pickBound_gt_int, pickBound_lt_int, Outcome.ok_bind, Outcome.ok_bind, overlap,
    Int64.ofInt_sub]
  rfl

theorem intervalLength_int (s : Span) :
    intervalLength (.int s.start) (.int s.stop) = .ok (.int s.length) := rfl

/-- The overlaps of an interval with those of a list. -/
theorem signedOverlap_int (s : Span) (ts : List Span) :
    signedOverlap (.int s.start) (.int s.stop) (ts.map fun t => .int t.start)
      (ts.map fun t => .int t.stop) = .ok (ts.map fun t => .int (s.overlap t)) := by
  rw [signedOverlap, List.zip_map', mapM_eq_ok_iff, List.forall₂_map_left_iff,
    List.forall₂_map_right_iff, List.forall₂_same]
  exact fun t _ => s.overlapWith_int t

/-! ## When it is right -/

variable {s t : Span}

/-- The difference is less than the 64 bits can tell apart. -/
theorem firstStop_sub_lastStart_lt :
    -2 ^ 64 < s.firstStop t - s.lastStart t ∧ s.firstStop t - s.lastStart t < 2 ^ 64 := by
  have low {n : Int64} := Int64.le_toInt n
  have high {n : Int64} := Int64.toInt_lt n
  have := @low s.start
  have := @low t.start
  have := @low s.stop
  have := @low t.stop
  have := @high s.start
  have := @high t.start
  have := @high s.stop
  have := @high t.stop
  unfold firstStop lastStart
  omega

theorem toInt_overlap_of_inRange (h : InRange (s.firstStop t - s.lastStart t)) :
    (s.overlap t).toInt = s.firstStop t - s.lastStart t :=
  h.toInt_ofInt

theorem toInt_length_of_inRange (h : InRange (s.stop.toInt - s.start.toInt)) :
    s.length.toInt = s.stop.toInt - s.start.toInt := by
  rw [length, Int64.toInt_sub]
  exact Int.bmod_eq_of_le h.1 h.2

/-- The sign of the overlap tells a common stretch from a gap exactly if the difference that it
stands for lies in the range. -/
theorem overlap_tells_iff :
    ((0 < (s.overlap t).toInt ↔ s.Meets t) ∧ ((s.overlap t).toInt < 0 ↔ s.Misses t)) ↔
      InRange (s.firstStop t - s.lastStart t) := by
  constructor
  · rintro ⟨meets, -⟩
    have bounds := @firstStop_sub_lastStart_lt s t
    unfold Meets at meets
    rw [overlap, Int64.toInt_ofInt, Int.bmod_def] at meets
    unfold InRange
    simp only [Int64.size] at meets
    omega
  · intro h
    rw [toInt_overlap_of_inRange h]
    unfold Meets Misses
    omega

/-- An overlap in the range exceeds neither of the two lengths. -/
theorem overlap_le_length (h : InRange (s.firstStop t - s.lastStart t))
    (hs : InRange (s.stop.toInt - s.start.toInt)) : (s.overlap t).toInt ≤ s.length.toInt := by
  rw [toInt_overlap_of_inRange h, toInt_length_of_inRange hs]
  unfold firstStop lastStart
  omega

theorem overlap_comm (s t : Span) : s.overlap t = t.overlap s := by
  rw [overlap, overlap, firstStop, firstStop, lastStart, lastStart, Int.min_comm, Int.max_comm]

/-- Bounds that all lie in one half of the range are never too far apart. -/
theorem inRange_of_bounds {b : Int} (hs : b ≤ s.start.toInt ∧ s.stop.toInt < b + 2 ^ 63)
    (ht : b ≤ t.start.toInt ∧ t.stop.toInt < b + 2 ^ 63) :
    InRange (s.firstStop t - s.lastStart t) ∧ InRange (s.stop.toInt - s.start.toInt) := by
  have := s.start_le_stop
  have := t.start_le_stop
  unfold InRange firstStop lastStart
  omega

/-- **The sign and size of the overlap.** As long as no bound is `2 ^ 63` or more above another, the
overlap of an interval with each interval of a list is positive exactly if they have a stretch in
common, negative exactly if there is a gap between them, and never greater than either length. -/
theorem signedOverlap_spec (s : Span) (ts : List Span) (b : Int)
    (hs : b ≤ s.start.toInt ∧ s.stop.toInt < b + 2 ^ 63)
    (ht : ∀ t ∈ ts, b ≤ t.start.toInt ∧ t.stop.toInt < b + 2 ^ 63) :
    ∃ vs : List Int64,
      signedOverlap (.int s.start) (.int s.stop) (ts.map fun t => .int t.start)
        (ts.map fun t => .int t.stop) = .ok (vs.map .int) ∧
      List.Forall₂ (fun t v => (0 < v.toInt ↔ s.Meets t) ∧ (v.toInt < 0 ↔ s.Misses t) ∧
        v.toInt ≤ s.length.toInt ∧ v.toInt ≤ t.length.toInt) ts vs := by
  refine ⟨ts.map s.overlap, ?_, ?_⟩
  · rw [signedOverlap_int, List.map_map]
    rfl
  · rw [List.forall₂_map_right_iff, List.forall₂_same]
    intro t mem
    obtain ⟨overlap, length⟩ := inRange_of_bounds hs (ht t mem)
    obtain ⟨overlap', length'⟩ := inRange_of_bounds (ht t mem) hs
    obtain ⟨meets, misses⟩ := overlap_tells_iff.2 overlap
    refine ⟨meets, misses, overlap_le_length overlap length, ?_⟩
    rw [overlap_comm]
    exact overlap_le_length overlap' length'

/-! ## Bounds at both ends of the range -/

/-- Two intervals of length 1 with a gap between them, one at each end of the range. Their overlap
is positive, and greater than their lengths. -/
theorem overlap_of_far_ends : ∃ s t : Span, s.length = 1 ∧ t.length = 1 ∧ s.Misses t ∧
    signedOverlap (.int s.start) (.int s.stop) [.int t.start] [.int t.stop] = .ok [.int 3] :=
  ⟨⟨Int64.minValue, Int64.minValue + 1, by decide⟩,
    ⟨Int64.maxValue - 1, Int64.maxValue, by decide⟩, by decide, by decide,
    by unfold Misses; decide, by decide⟩

/-- Two intervals that reach down to the least integer have a stretch in common and a negative
overlap. -/
theorem overlap_of_open_starts : ∃ s t : Span, s.Meets t ∧
    signedOverlap (.int s.start) (.int s.stop) [.int t.start] [.int t.stop] =
      .ok [.int (Int64.minValue + 5)] :=
  ⟨⟨Int64.minValue, 10, by decide⟩, ⟨Int64.minValue, 5, by decide⟩, by unfold Meets; decide,
    by decide⟩

end Span

end SpanJoin
