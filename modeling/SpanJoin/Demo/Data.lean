import SpanJoin.Table.Basic
import SpanJoin.Tree.Build

/-!
# Data of the demonstration

Road segments, observations of the speed on stretches of these roads, and three columns to derive
for every segment: the average speed weighted by length, the observation that overlaps the segment
most, and the surface that covers most of it.
-/

namespace SpanJoin.Demo

/-- A column of texts. -/
def texts (name : String) (values : List String) : Column := ⟨name, values.map Cell.text⟩

/-- A column of floating-point numbers. -/
def floats (name : String) (values : List Float) : Column := ⟨name, values.map Cell.float⟩

/-- A column of integers. -/
def ints (name : String) (values : List Int64) : Column := ⟨name, values.map Cell.int⟩

/-- The columns of the road segments. -/
def segmentColumns : List Column :=
  [texts "road" ["H1", "H1", "H1", "H2", "H3"],
    floats "from" [0, 10, 25, 0, 0],
    floats "to" [10, 25, 40, 8, 3],
    ints "lanes" [2, 2, 3, 1, 2]]

/-- The columns of the speed observations; the last speed is missing. -/
def observationColumns : List Column :=
  [texts "road" ["H1", "H1", "H1", "H1", "H2", "H2"],
    floats "from" [0, 7.5, 18, 30, 0, 5],
    floats "to" [7.5, 18, 30, 45, 5, 8],
    ⟨"speed", [.int 100, .int 80, .int 60, .int 90, .int 70, .null]⟩,
    texts "surface" ["asphalt", "asphalt", "gravel", "asphalt", "seal", "seal"]]

/-- The mask of the observations that overlap the segment. -/
def overlapping : Tree := .binary .gt .lengthOfOverlap (.literal (.int 0))

/-- The lengths of the overlaps of these observations. -/
def overlap : Tree := .filter .lengthOfOverlap overlapping

/-- The average speed, weighted by length. -/
def averageSpeed : Tree :=
  let speed := Tree.filter (.rightColumn "speed") overlapping
  .binary .div (.sum (.binary .mul speed overlap)) (.sum overlap)

/-- The observation that overlaps the segment most. -/
def mainObservation : Tree := .indexOfMax (.filter .lengthOfOverlap overlapping)

/-- The surface that covers most of the segment. -/
def mainSurface : Tree :=
  .indexOfMax (.sum (.groupBy overlap (.filter (.rightColumn "surface") overlapping)))

/-- The columns to derive. -/
def derivedColumns : List Tree :=
  [.nameAs averageSpeed "average_speed", .nameAs mainObservation "main_observation",
    .nameAs mainSurface "main_surface"]

end SpanJoin.Demo
