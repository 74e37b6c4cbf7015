import SteeredConv.Correlation
import SteeredConv.Decimal.Binary
import SteeredConv.Decimal.Fixed
import SteeredConv.Decimal.Shortest
import SteeredConv.Fault
import SteeredConv.Filling
import SteeredConv.Gaussian.Smoother
import SteeredConv.Gaussian.Table
import SteeredConv.Gradient
import SteeredConv.Guard
import SteeredConv.Interpolation
import SteeredConv.Journal
import SteeredConv.Layer.OrientedConv
import SteeredConv.Layer.Parameter
import SteeredConv.Layer.Session
import SteeredConv.Layer.SimilarityLoss
import SteeredConv.Logging.Clock
import SteeredConv.Logging.Disk
import SteeredConv.Logging.Handler
import SteeredConv.Logging.Registry
import SteeredConv.Metric.Difference
import SteeredConv.Metric.Evaluator
import SteeredConv.Metric.Similarity
import SteeredConv.Network.Basic
import SteeredConv.Network.Forward
import SteeredConv.Network.Gradient
import SteeredConv.Network.Session
import SteeredConv.Network.Training
import SteeredConv.Operator
import SteeredConv.Options.Description
import SteeredConv.Options.Filler
import SteeredConv.Options.Gaussian
import SteeredConv.Options.Geometry
import SteeredConv.Options.Global
import SteeredConv.Options.Inquiry
import SteeredConv.Options.OrientedConv
import SteeredConv.Options.Record
import SteeredConv.Options.Similarity
import SteeredConv.Orientation
import SteeredConv.OrientedConv.Pass
import SteeredConv.OrientedConv.Request
import SteeredConv.Proofs.Adjoint
import SteeredConv.Proofs.Backpropagation
import SteeredConv.Proofs.Blocks
import SteeredConv.Proofs.Borders
import SteeredConv.Proofs.CircularWeights
import SteeredConv.Proofs.Continuity
import SteeredConv.Proofs.ConvolutionGradient
import SteeredConv.Proofs.Decoding
import SteeredConv.Proofs.Derivative
import SteeredConv.Proofs.Descent
import SteeredConv.Proofs.Descriptions
import SteeredConv.Proofs.Direction
import SteeredConv.Proofs.EffectiveKernels
import SteeredConv.Proofs.Equivariance
import SteeredConv.Proofs.ExactFloat
import SteeredConv.Proofs.Exchange
import SteeredConv.Proofs.FailedTraining
import SteeredConv.Proofs.FittingRuns
import SteeredConv.Proofs.FixedPoints
import SteeredConv.Proofs.GradientPaths
import SteeredConv.Proofs.Headings
import SteeredConv.Proofs.History
import SteeredConv.Proofs.ImageGradient
import SteeredConv.Proofs.Inner
import SteeredConv.Proofs.LayerSessions
import SteeredConv.Proofs.LayerSetup
import SteeredConv.Proofs.LayerShapes
import SteeredConv.Proofs.Loggers
import SteeredConv.Proofs.NamedMetrics
import SteeredConv.Proofs.NetworkForm
import SteeredConv.Proofs.NetworkRuns
import SteeredConv.Proofs.NetworkShapes
import SteeredConv.Proofs.OneIndex
import SteeredConv.Proofs.OptionChanges
import SteeredConv.Proofs.Outcome
import SteeredConv.Proofs.ParameterSpace
import SteeredConv.Proofs.PixelDifferences
import SteeredConv.Proofs.QuarterTurns
import SteeredConv.Proofs.Reals
import SteeredConv.Proofs.Resolution
import SteeredConv.Proofs.Responses
import SteeredConv.Proofs.RotationAction
import SteeredConv.Proofs.SetupRefusals
import SteeredConv.Proofs.SimilarityBounds
import SteeredConv.Proofs.SimilarityGradient
import SteeredConv.Proofs.SizeTest
import SteeredConv.Proofs.Smoothing
import SteeredConv.Proofs.SplitRuns
import SteeredConv.Proofs.Spreading
import SteeredConv.Proofs.Steering
import SteeredConv.Proofs.Stopping
import SteeredConv.Proofs.Strides
import SteeredConv.Proofs.TableLaws
import SteeredConv.Proofs.Turning
import SteeredConv.Proofs.UniformMaps
import SteeredConv.Proofs.Updates
import SteeredConv.Proofs.Weighting
import SteeredConv.Rotation
import SteeredConv.Scalar
import SteeredConv.Similarity
import SteeredConv.Tensor.Any
import SteeredConv.Tensor.Basic
import SteeredConv.Tensor.Broadcast
import SteeredConv.Tensor.ElementType
import SteeredConv.Tensor.Image
import SteeredConv.Tensor.Operand
import SteeredConv.Text.Digits
import SteeredConv.Text.Printable
import SteeredConv.Text.Quoted
import SteeredConv.Text.SmallLetters
import SteeredConv.Training.EarlyStopping
import SteeredConv.Training.LossPlot
import SteeredConv.Update
import SteeredConv.Value
import SteeredConv.Value.Named
import SteeredConv.Value.Number
import SteeredConv.Value.Spelling
import SteeredConv.Yaml.Cursor
import SteeredConv.Yaml.Document
import SteeredConv.Yaml.Layout
import SteeredConv.Yaml.Lexeme
import SteeredConv.Yaml.Node
import SteeredConv.Yaml.Scalar
import SteeredConv.Yaml.Token
