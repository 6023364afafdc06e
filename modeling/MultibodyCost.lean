import MultibodyCost.Config.Text
import MultibodyCost.Cost.Target
import MultibodyCost.Model.Description
import MultibodyCost.Model.Humanoid
import MultibodyCost.State.Euclidean
import MultibodyCost.Sum.Evaluate
import MultibodyCost.Proofs.Model.Text
import MultibodyCost.Proofs.Sum.StaleData
import MultibodyCost.Proofs.Geometry.Vec3
import MultibodyCost.Proofs.Geometry.Quaternion
import MultibodyCost.Proofs.Geometry.Rotation
import MultibodyCost.Proofs.Geometry.Placement
import MultibodyCost.Proofs.State.Layout
import MultibodyCost.Proofs.State.Joint
import MultibodyCost.Proofs.State.RoundTrip
import MultibodyCost.Proofs.Cost.Alone
import MultibodyCost.Proofs.Sum.Order
import MultibodyCost.Proofs.Sum.Meaning
import MultibodyCost.Proofs.Snapshot
import MultibodyCost.Proofs.Cost.Shapes
import MultibodyCost.Proofs.Sum.Shapes
import MultibodyCost.Proofs.Geometry.Jacobian
import MultibodyCost.Proofs.State.Offsets
import MultibodyCost.Proofs.State.Jacobians
import MultibodyCost.Proofs.Config.Build
import MultibodyCost.Proofs.Config.Text
import MultibodyCost.Proofs.Cost.Refusal
import MultibodyCost.Proofs.Cost.Columns
import MultibodyCost.Proofs.Sum.Interrupted
import MultibodyCost.Proofs.Linear.Affine
import MultibodyCost.Proofs.Cost.Differences
import MultibodyCost.Proofs.Cost.Affine
import MultibodyCost.Proofs.Sum.Phases
import MultibodyCost.Proofs.Cost.Curvature
import MultibodyCost.Proofs.Sum.Bookkeeping
import MultibodyCost.Proofs.Sum.Curvature
import MultibodyCost.Proofs.Sum.LeastSquares
import MultibodyCost.Proofs.Cost.Setters
import MultibodyCost.Proofs.Cost.Quotients
import MultibodyCost.Proofs.Cost.Sweep
import MultibodyCost.Proofs.Geometry.Bounded
import MultibodyCost.Proofs.Geometry.InverseJacobian
import MultibodyCost.Proofs.Activation.Interval
import MultibodyCost.Proofs.Activation.Narrowing
import MultibodyCost.Proofs.Activation.Expansion
import MultibodyCost.Proofs.Activation.Distance
import MultibodyCost.Proofs.Geometry.Adjoint
import MultibodyCost.Proofs.Geometry.Flow
import MultibodyCost.Proofs.Geometry.Inversion
import MultibodyCost.Proofs.State.Flow
import MultibodyCost.Proofs.State.Antisymmetry
import MultibodyCost.Proofs.Geometry.DoubleCover
import MultibodyCost.Proofs.Geometry.Relative
import MultibodyCost.Proofs.Cost.RelativePlacement
import MultibodyCost.Proofs.State.Euclidean
import MultibodyCost.Proofs.Sampling.Draws
import MultibodyCost.Proofs.State.Random
import MultibodyCost.Proofs.Sum.EventLog
import MultibodyCost.Proofs.Cost.Scaled
import MultibodyCost.Proofs.Sum.Weights
import MultibodyCost.Proofs.Config.Saved
import MultibodyCost.Proofs.State.WideLimits
import MultibodyCost.Proofs.Geometry.Series
