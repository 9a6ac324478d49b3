import LeastSquares.Batch
import LeastSquares.ForwardDifference
import LeastSquares.Summary
import LeastSquares.Text.Message
import LeastSquares.Proofs.Text
import LeastSquares.Proofs.Linear.Gershgorin
import LeastSquares.Proofs.Linear.Spectrum
import LeastSquares.Proofs.Linear.Singular
import LeastSquares.Proofs.Linear.Estimate
import LeastSquares.Proofs.Linear.Reflection
import LeastSquares.Proofs.Linear.Ends
import LeastSquares.Proofs.Linear.Normal
import LeastSquares.Proofs.Linear.Swept
import LeastSquares.Proofs.Linear.Graded
import LeastSquares.Proofs.Linear.Factored
import LeastSquares.Proofs.Linear.Truncated
import LeastSquares.Proofs.Linear.Leading
import LeastSquares.Proofs.Linear.Curvature
import LeastSquares.Proofs.Packed.Storage
import LeastSquares.Proofs.Linear.Inverse
import LeastSquares.Proofs.Packed.Operations
import LeastSquares.Proofs.Linear.Kernels
import LeastSquares.Proofs.Linear.Minimizer
import LeastSquares.Proofs.Secant
import LeastSquares.Proofs.Infinite
import LeastSquares.Proofs.Clamped
import LeastSquares.Proofs.Validated
import LeastSquares.Proofs.Ordered
import LeastSquares.Proofs.Mirrored
import LeastSquares.Proofs.Checked
import LeastSquares.Proofs.TrustStep.Model
import LeastSquares.Proofs.TrustStep.Newton
import LeastSquares.Proofs.TrustStep.Direct
import LeastSquares.Proofs.TrustStep.Bracket
import LeastSquares.Proofs.TrustStep.Invariant
import LeastSquares.Proofs.TrustStep.Secular
import LeastSquares.Proofs.TrustStep.Outcome
import LeastSquares.Proofs.TrustStep.Halted
import LeastSquares.Proofs.TrustStep.Scaled
import LeastSquares.Proofs.TrustStep.Whole
import LeastSquares.Proofs.TrustStep.Optimal
import LeastSquares.Proofs.TrustStep.Reduction
import LeastSquares.Proofs.TrustStep.Sound
import LeastSquares.Proofs.TrustStep.Enclosed
import LeastSquares.Proofs.TrustStep.Kept
import LeastSquares.Proofs.TrustStep.Measured
import LeastSquares.Proofs.TrustStep.Restarted
import LeastSquares.Proofs.TrustStep.Decreasing
import LeastSquares.Proofs.TrustStep.Carried
import LeastSquares.Proofs.TrustStep.Narrowed
import LeastSquares.Proofs.TrustStep.Banded
import LeastSquares.Proofs.TrustStep.Landed
import LeastSquares.Proofs.TrustStep.Settled
import LeastSquares.Proofs.TrustStep.Described
import LeastSquares.Proofs.TrustStep.Limit
import LeastSquares.Proofs.TrustStep.Spent
import LeastSquares.Proofs.Assess.Moves
import LeastSquares.Proofs.Assess.Taken
import LeastSquares.Proofs.Assess.Flow
import LeastSquares.Proofs.Assess.Choice
import LeastSquares.Proofs.Assess.Judgement
import LeastSquares.Proofs.Assess.Probe
import LeastSquares.Proofs.Assess.Rest
import LeastSquares.Proofs.Assess.Foretold
import LeastSquares.Proofs.Assess.Origin
import LeastSquares.Proofs.Assess.Steady
import LeastSquares.Proofs.Assess.Frame
import LeastSquares.Proofs.Assess.Depth
import LeastSquares.Proofs.Assess.Span
import LeastSquares.Proofs.Assess.Least
import LeastSquares.Proofs.Assess.Pace
import LeastSquares.Proofs.Assess.Relief
import LeastSquares.Proofs.Assess.Protocol
import LeastSquares.Proofs.Assess.Paired
import LeastSquares.Proofs.Assess.Endless
import LeastSquares.Proofs.Assess.Precedence
import LeastSquares.Proofs.Assess.Path
import LeastSquares.Proofs.Assess.Transparent
import LeastSquares.Proofs.Assess.Repeated
import LeastSquares.Proofs.Assess.Noted
import LeastSquares.Proofs.Assess.Rejected
import LeastSquares.Proofs.Fit.Trace
import LeastSquares.Proofs.Covariance.Calls
import LeastSquares.Proofs.Fit.Frame
import LeastSquares.Proofs.Fit.Ran
import LeastSquares.Proofs.Fit.Begun
import LeastSquares.Proofs.Fit.Steady
import LeastSquares.Proofs.Fit.Origin
import LeastSquares.Proofs.Fit.Guided
import LeastSquares.Proofs.Fit.Noted
import LeastSquares.Proofs.Fit.Rejected
import LeastSquares.Proofs.Fit.Paced
import LeastSquares.Proofs.Fit.Remembered
import LeastSquares.Proofs.Fit.Timely
import LeastSquares.Proofs.Fit.Budget
import LeastSquares.Proofs.Fit.Protocol
import LeastSquares.Proofs.Fit.Simulated
import LeastSquares.Proofs.Fit.Recorded
import LeastSquares.Proofs.Fit.Screened
import LeastSquares.Proofs.Fit.Shaped
import LeastSquares.Proofs.Fit.Accounted
import LeastSquares.Proofs.Fit.Limited
import LeastSquares.Proofs.Fit.Known
import LeastSquares.Proofs.Fit.Best
import LeastSquares.Proofs.Fit.Reported
import LeastSquares.Proofs.Fit.Stalled
import LeastSquares.Proofs.Fit.Corner
import LeastSquares.Proofs.Fit.Halted
import LeastSquares.Proofs.Fit.Confined
import LeastSquares.Proofs.Fit.Coherent
import LeastSquares.Proofs.Fit.Extended
import LeastSquares.Proofs.Fit.Alternation
import LeastSquares.Proofs.Fit.Restart
import LeastSquares.Proofs.Fit.Radius
import LeastSquares.Proofs.Fit.Scaled
import LeastSquares.Proofs.Fit.Linear
import LeastSquares.Proofs.Fit.Solved
import LeastSquares.Proofs.Covariance.Differences
import LeastSquares.Proofs.Covariance.Linear
import LeastSquares.Proofs.Covariance.Asked
import LeastSquares.Proofs.Covariance.Assembled
import LeastSquares.Proofs.Counted
import LeastSquares.Proofs.Squares
import LeastSquares.Proofs.Forward
import LeastSquares.Proofs.Admissible
