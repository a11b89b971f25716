import SpanJoin.Join.Basic
import SpanJoin.Main
import SpanJoin.Proofs.Eval.Bindings
import SpanJoin.Proofs.Eval.Rowwise
import SpanJoin.Proofs.Join.Positions
import SpanJoin.Proofs.Join.Selection
import SpanJoin.Proofs.Plan.Freshness
import SpanJoin.Proofs.Plan.Inlining
import SpanJoin.Proofs.Plan.Meaning
import SpanJoin.Proofs.Plan.Merging
import SpanJoin.Proofs.Plan.SharedOnce
import SpanJoin.Serial.Decode
import SpanJoin.Tree.Outline
import SpanJoin.Proofs.Datum.SideBySide
import SpanJoin.Proofs.Join.Overlap
import SpanJoin.Proofs.Eval.SideBySide
import SpanJoin.Proofs.Binary64.Rounding
import SpanJoin.Proofs.Cell.Numbers
import SpanJoin.Proofs.Table.Hashing
import SpanJoin.Proofs.Datum.Groups
import SpanJoin.Proofs.Eval.GroupTotals
import SpanJoin.Proofs.Eval.Masks
import SpanJoin.Proofs.Eval.References
import SpanJoin.Proofs.Eval.FilteredOperands
import SpanJoin.Proofs.Eval.Casts
import SpanJoin.Proofs.Tree.Containment
import SpanJoin.Proofs.Eval.Greatest
import SpanJoin.Proofs.Table.Steps
import SpanJoin.Proofs.Cell.Spelling
import SpanJoin.Proofs.Datum.Slices
import SpanJoin.Proofs.Serial.ReadBack
