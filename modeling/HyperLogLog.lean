import HyperLogLog.Bytes
import HyperLogLog.Config
import HyperLogLog.Contents
import HyperLogLog.Coupon
import HyperLogLog.Declaration
import HyperLogLog.Dense.Exceptions
import HyperLogLog.Dense.Fields
import HyperLogLog.Dense.Registers
import HyperLogLog.Double
import HyperLogLog.Estimate.Coupons
import HyperLogLog.Estimate.Harmonic
import HyperLogLog.Estimate.Registers
import HyperLogLog.Estimate.Scalar
import HyperLogLog.Family
import HyperLogLog.Fault
import HyperLogLog.Footprint
import HyperLogLog.Hash
import HyperLogLog.Header
import HyperLogLog.Item
import HyperLogLog.Promotion
import HyperLogLog.Proofs.Accepted
import HyperLogLog.Proofs.Answers
import HyperLogLog.Proofs.Canonical
import HyperLogLog.Proofs.Capacity
import HyperLogLog.Proofs.Conversion
import HyperLogLog.Proofs.Cycle
import HyperLogLog.Proofs.Dense
import HyperLogLog.Proofs.Edit
import HyperLogLog.Proofs.Evidence
import HyperLogLog.Proofs.Evolved
import HyperLogLog.Proofs.Exact
import HyperLogLog.Proofs.Exceptions
import HyperLogLog.Proofs.Fields
import HyperLogLog.Proofs.Foreign
import HyperLogLog.Proofs.Guarded
import HyperLogLog.Proofs.Handle
import HyperLogLog.Proofs.Header
import HyperLogLog.Proofs.Holding
import HyperLogLog.Proofs.Images
import HyperLogLog.Proofs.Ledger
import HyperLogLog.Proofs.Legible
import HyperLogLog.Proofs.Lent
import HyperLogLog.Proofs.Mapping
import HyperLogLog.Proofs.Minimum
import HyperLogLog.Proofs.Observations
import HyperLogLog.Proofs.Order
import HyperLogLog.Proofs.Probing
import HyperLogLog.Proofs.Readable
import HyperLogLog.Proofs.Readings
import HyperLogLog.Proofs.Refusal
import HyperLogLog.Proofs.Region
import HyperLogLog.Proofs.Registry
import HyperLogLog.Proofs.Relative
import HyperLogLog.Proofs.Remainder
import HyperLogLog.Proofs.Repetition
import HyperLogLog.Proofs.Restore
import HyperLogLog.Proofs.Room
import HyperLogLog.Proofs.Rounding
import HyperLogLog.Proofs.RunningTotal
import HyperLogLog.Proofs.Schedule
import HyperLogLog.Proofs.Serial
import HyperLogLog.Proofs.Shortage
import HyperLogLog.Proofs.Shown
import HyperLogLog.Proofs.Sketch
import HyperLogLog.Proofs.Sparse
import HyperLogLog.Proofs.Sums
import HyperLogLog.Proofs.Tables
import HyperLogLog.Proofs.Thresholds
import HyperLogLog.Proofs.Union
import HyperLogLog.Proofs.Units
import HyperLogLog.Proofs.Untouched
import HyperLogLog.Proofs.Untrusted
import HyperLogLog.Proofs.Views
import HyperLogLog.Proofs.Widths
import HyperLogLog.Region
import HyperLogLog.Report
import HyperLogLog.Sketch.Basic
import HyperLogLog.Sketch.Merge
import HyperLogLog.Sketch.Serial
import HyperLogLog.Sketch.Text
import HyperLogLog.Sparse.CouponList
import HyperLogLog.Sparse.CouponTable
import HyperLogLog.Sparse.Probe
import HyperLogLog.Text.Decimal
import HyperLogLog.Text.Outline
import HyperLogLog.Text.Quoted
import HyperLogLog.Text.Visible
import HyperLogLog.Proofs.Cycle
import HyperLogLog.Proofs.Mapping
