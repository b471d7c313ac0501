import TensorKit.Definitions
import TensorKit.Proofs.Calibration
import TensorKit.Proofs.Distributed.CoordinateAgreement
import TensorKit.Proofs.Distributed.GroupNumbers
import TensorKit.Proofs.Distributed.MappingJoins
import TensorKit.Proofs.Distributed.MeshParts
import TensorKit.Proofs.Distributed.NestedMeshes
import TensorKit.Proofs.Distributed.PipelineNeighbours
import TensorKit.Proofs.Distributed.Placing
import TensorKit.Proofs.Distributed.Repartitioning
import TensorKit.Proofs.Distributed.UniformWiring
import TensorKit.Proofs.Metric.Resetting
import TensorKit.Proofs.Metric.RightAnswers
import TensorKit.Proofs.Nest.Packing
import TensorKit.Proofs.Operator.InplaceReading
import TensorKit.Proofs.Operator.InplaceTurning
import TensorKit.Proofs.Operator.KernelCalls
import TensorKit.Proofs.Operator.KernelKinds
import TensorKit.Proofs.Operator.ReferenceRenaming
import TensorKit.Proofs.Reader.ParallelMapping
import TensorKit.Proofs.Sampler.EpochSplitting
import TensorKit.Proofs.Schedule.Patience
import TensorKit.Proofs.Distributed.MeshConflicts
import TensorKit.Proofs.Operator.ListEnds
import TensorKit.Proofs.Operator.ReturnedOutputs
import TensorKit.Proofs.Operator.GradientChains
import TensorKit.Proofs.Operator.OrdinaryFunctions
import TensorKit.Proofs.Operator.IntermediateOutputs
import TensorKit.Proofs.Operator.ClashRenaming
import TensorKit.Proofs.Operator.GradientChecks
import TensorKit.Proofs.Operator.RuleRegistration
import TensorKit.Proofs.Reader.Alignment
import TensorKit.Proofs.Schedule.Cycles
import TensorKit.Proofs.Schedule.PartialLoads
import TensorKit.Proofs.Sparsity.BestMask
import TensorKit.Proofs.Sparsity.MaximalMask
import TensorKit.Proofs.UniqueName
import TensorKit.Proofs.Distributed.NameMatching
