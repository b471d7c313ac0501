import TensorKit.Calibration
import TensorKit.Distributed.Attribute
import TensorKit.Distributed.Collective
import TensorKit.Distributed.Context
import TensorKit.Distributed.Hybrid
import TensorKit.Distributed.LocalShard
import TensorKit.Distributed.Placement
import TensorKit.Distributed.Progress
import TensorKit.Distributed.Reshape
import TensorKit.Distributed.Strategy
import TensorKit.Drawing
import TensorKit.Metric.Basic
import TensorKit.Nest.Setting
import TensorKit.Number.Rounding
import TensorKit.Operator.Binding
import TensorKit.Operator.Document
import TensorKit.Operator.Source
import TensorKit.Operator.Written
import TensorKit.Reader
import TensorKit.Sampler.Basic
import TensorKit.Schedule.Settings
import TensorKit.Sparsity.Pruning
import TensorKit.Tuning.Trial
import TensorKit.UniqueName
/-!
All definitions of the library, for programs that use it.
-/
