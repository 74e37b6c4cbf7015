/-
# Why an operation is refused

Every refusal is a cause with the data it speaks of; `Fault.text` is the one place
where causes are put into words. Options are refused by an `OptionFault`, arrays by a
`ShapeFault`, other requests by a `RequestFault`, a document that cannot be read by a
`DocumentFault`, and a number that is too large by a `RangeFault`.

Key definitions: `OptionSet`, `Component`, `Fault`, `Fault.text`.
-/
import SteeredConv.Value.Spelling

namespace SteeredConv

/-- The five sets of options. -/
inductive OptionSet where
  | globals
  | filler
  | gaussian
  | orientedConv
  | similarity
  deriving Repr, DecidableEq

def OptionSet.title : OptionSet → String
  | globals => "GlobalConfig"
  | filler => "FillerConfig"
  | gaussian => "GaussianConfig"
  | orientedConv => "GradOrientConvConfig"
  | similarity => "SSIMConfig"

/-- The operators and layers that refuse arrays or settings. -/
inductive Component where
  | operator
  | table
  | smoother
  | orientation
  | gradient
  | orientedConv
  | similarityLoss
  deriving Repr, DecidableEq

/-- The name of an operator or layer. -/
def Component.title : Component → String
  | operator => "OperatorCore"
  | table => "GaussianKernelGenerator"
  | smoother => "WindowedGaussianSmoother"
  | orientation => "OrientationEstimator"
  | gradient => "DiffOperator"
  | orientedConv => "GradOrientConv2d"
  | similarityLoss => "SSIMLoss"

/-- Why options are refused. -/
inductive OptionFault where
  | bothForms (owner : OptionSet) (name : String)
  | halfGiven (owner : OptionSet) (name : String)
  | required (owner : OptionSet) (name : String)
  | kernelNotPositive (owner : OptionSet) (kernel : Int × Int)
  | strideNotPositive (owner : OptionSet) (stride : Int × Int)
  | padNegative (owner : OptionSet) (pad : Int × Int)
  | countNotPositive (owner : OptionSet) (name : String) (value : Value)
  | groupsDoNotDivide (owner : OptionSet)
  | notSquare (owner : OptionSet) (kernel : Int × Int)
  | sigmaNotPositive (owner : OptionSet)
  | stabilizerNegative (owner : OptionSet)
  | noLayerList
  | noLayerType
  | unknownLayerType (name : Value)
  | unknownLayerKeys (layer : String) (keys : List Value)
  | badFiller (key : String) (reason : String)
  | unknownFiller (name : String)
  | emptyRange (least greatest : Value)
  | deviationNotPositive (deviation : Value)
  | tableSize (size : Value × Value)
  | tableSigma (sigma : Value)
  | windowGeometry (stride pad : Value × Value)
  | kernelNotSquare (shape : List Nat)
  | bankSize (count : Nat)
  | channels (channels group : Value)
  | channelsMissing
  | notALayer (owner : OptionSet)
  | noOrientedLayer (source : String)
  | sizeNotKept (kernel stride pad : Int × Int)

/-- Why arrays of some shapes are refused. -/
inductive ShapeFault where
  | notImages (owner : Component) (name : String) (shape : List Nat)
  | channelCount (owner : Component) (name : String) (expected : Value) (found : Nat)
  | smootherRank (shape : List Nat)
  | smootherFit (kernel : Value × Value) (size : List Nat) (pad : Value × Value)
  | unequal (owner : String) (left right : List Nat)
  | convRank (input map : List Nat)
  | convChannels (expected : Value) (found : Nat)
  | mapChannels (found : Nat)
  | mapSize (map input : List Nat)
  | convFit (kernel : Int × Int) (size : List Nat) (pad : Int × Int)
  | lossRank (shape : List Nat)
  | lossFit (kernel : Int × Int) (size : List Nat)

/-- Why a request is refused although its arrays and options are sound. -/
inductive RequestFault where
  | framework (owner : Component) (name : String)
  | outputFormat (owner : Component) (name : String)
  | unknownMetrics (names : List Value)
  | noValidation
  | patience
  | leastDelta
  | savePath
  | unequalHistories

/-- The stage at which reading a document fails. -/
inductive DocumentFault where
  | characters
  | tokens
  | grammar
  | composition
  | values
  deriving Repr, DecidableEq

/-- Why a number is out of range: the square of a floating-point number, a whole number that is to be one
of floating point, an infinite one that is to be whole, a whole number beside an array, or a bound that is
no number of an element type. -/
inductive RangeFault where
  | square
  | float
  | whole
  | word (n : Int)
  | bound

/-- Why an operation fails. -/
inductive Fault where
  | option (cause : OptionFault)
  | shape (cause : ShapeFault)
  | request (cause : RequestFault)
  | document (cause : DocumentFault)
  | notAnArray (owner : Component) (kind : String)
  | unknownOption (owner : OptionSet) (key : String)
  | noSuchFile (name : String)
  | wrongType (text : String)
  | badValue (text : String)
  | noAttribute (text : String)
  | missingKey (name : String)
  | outOfRange
  | divisionByZero
  | overflow (cause : RangeFault)
  | incompatible
  | unsupported

namespace OptionFault

/-- A refusal under the name of a set of options. -/
def under (owner : OptionSet) (sentence : String) : String := "[" ++ owner.title ++ "] " ++ sentence

/-- The refusal in words. -/
def text : OptionFault → String
  | bothForms o n => under o s!"Either {n} or {n}_h/{n}_w should be specified; not both."
  | halfGiven o n => under o s!"{n}_h and {n}_w must be given together."
  | required o n => under o ("'" ++ n ++ "' is required.")
  | kernelNotPositive o k => under o s!"Filter dimensions must be nonzero (got {spellInts k})."
  | strideNotPositive o s => under o s!"Stride dimensions must be nonzero (got {spellInts s})."
  | padNegative o p => under o s!"Padding must be non-negative (got {spellInts p})."
  | countNotPositive o n v => under o s!"{n} must be > 0 (got {v.plain})."
  | groupsDoNotDivide o => under o "Number of output should be multiples of group."
  | notSquare o k => under o s!"The kernels should be square (got {spellInts k})."
  | sigmaNotPositive o => under o "gaussian_sigma must be > 0."
  | stabilizerNegative o => under o "c1 and c2 must be non-negative."
  | noLayerList => "[load_layer_configs] Expected a mapping with a 'layers' list."
  | noLayerType => "[load_layer_configs] Each layer entry needs a 'type' key."
  | unknownLayerType v =>
    "[load_layer_configs] Unknown layer type '" ++ v.plain ++ "'. Expected one of " ++
      spellNames ["GradOrientConvolution", "SSIMLoss"] ++ "."
  | unknownLayerKeys layer keys =>
    "[load_layer_configs] Unknown keys for '" ++ layer ++ "': " ++ (Value.list keys).spell
  | badFiller key reason => s!"[load_layer_configs] Invalid {key}: {reason}"
  | unknownFiller name =>
    "[fill_] Unknown filler type '" ++ name ++ "'. Expected one of " ++
      spellNames ["constant", "gaussian", "msra", "uniform", "xavier"] ++ "."
  | emptyRange a b => s!"[fill_] uniform filler needs min <= max (got {a.plain}, {b.plain})."
  | deviationNotPositive d => s!"[fill_] gaussian filler needs std > 0 (got {d.plain})."
  | tableSize k =>
    s!"[GaussianKernelGenerator] Kernel size must be positive (got {Value.spellPair k})."
  | tableSigma s => s!"[GaussianKernelGenerator] Sigma must be strictly positive (got {s.plain})."
  | windowGeometry s p =>
    s!"[WindowedGaussianSmoother] Invalid stride {Value.spellPair s} or pad {Value.spellPair p}."
  | kernelNotSquare shape =>
    s!"[rotation] Kernels must be square in their last two dims, got shape {spellShape shape}."
  | bankSize n => s!"[rotation] Expected 4 bank gradients, got {n}."
  | channels c g =>
    s!"[GradOrientConv2d] in_channels={c.plain} must be positive and divisible by group={g.plain}."
  | channelsMissing => "[build_layer] GradOrientConvolution needs in_channels."
  | notALayer o => s!"[build_layer] Unsupported layer config {o.title}."
  | noOrientedLayer source => s!"[OrientNet] No GradOrientConvolution layer in {source}."
  | sizeNotKept k s p =>
    s!"[OrientNet] Every layer must keep the spatial size; got kernel {spellInts k}, " ++
      s!"stride {spellInts s}, pad {spellInts p}."

end OptionFault

/-- The refusal in words. -/
def ShapeFault.text : ShapeFault → String
  | notImages o n s =>
    "[" ++ o.title ++ "] '" ++ n ++ "' must be (N, C, H, W), got shape " ++ spellShape s ++ "."
  | channelCount o n e f =>
    "[" ++ o.title ++ "] '" ++ n ++ s!"' must have {e.plain} channels, got {f}."
  | smootherRank s =>
    s!"[WindowedGaussianSmoother] Expected (N, C, H, W), got shape {spellShape s}."
  | smootherFit k s p =>
    s!"[WindowedGaussianSmoother] Window {Value.spellPair k} does not fit input {spellShape s} " ++
      s!"with pad {Value.spellPair p}."
  | unequal o a b =>
    "[" ++ o ++ s!"] Inputs must have the same shape, got {spellShape a} and {spellShape b}."
  | convRank a b =>
    s!"[GradOrientConv2d] Inputs must be (N, C, H, W); got {spellShape a} and {spellShape b}."
  | convChannels e f =>
    s!"[GradOrientConv2d] Input size incompatible with convolution kernel: expected {e.plain} " ++
      s!"channels, got {f}."
  | mapChannels f => s!"[GradOrientConv2d] Gradient map must have 2 channels (Gx, Gy), got {f}."
  | mapSize m i =>
    s!"[GradOrientConv2d] Gradient map {spellShape m} must match the input batch and " ++
      s!"spatial size {spellShape i}."
  | convFit k s p =>
    s!"[GradOrientConv2d] Kernel {spellInts k} does not fit input {spellShape s} " ++
      s!"with pad {spellInts p}."
  | lossRank s => s!"[SSIMLoss] Inputs must be (N, C, H, W), got {spellShape s}."
  | lossFit k s => s!"[SSIMLoss] Window {spellInts k} does not fit input {spellShape s}."

/-- The refusal in words. -/
def RequestFault.text : RequestFault → String
  | framework o n => "[" ++ o.title ++ "] Unsupported framework '" ++ n ++ "'."
  | outputFormat o n => "[" ++ o.title ++ "] Unsupported output format '" ++ n ++ "'."
  | unknownMetrics names =>
    "[MetricEvaluator] Unknown metrics " ++ (Value.list names).spell ++ ". Expected " ++
      spellNames ["mse", "psnr", "ssim"] ++ "."
  | noValidation => "[evaluate] No validation batches."
  | patience => "[EarlyStopping] patience must be a positive integer."
  | leastDelta => "[EarlyStopping] min_delta must be a non-negative float."
  | savePath => "[EarlyStopping] save_path must be a non-empty string."
  | unequalHistories => "[plot_training] train_losses and val_losses must have the same length."

/-- The refusal in words; empty where the words are of no interest. -/
def RangeFault.text : RangeFault → String
  | square => "(34, 'Numerical result out of range')"
  | float => "int too large to convert to float"
  | whole => "cannot convert float infinity to integer"
  | word n => if n < 0 then "can't convert negative int to unsigned" else "int too big to convert"
  | bound => ""

namespace Fault

/-- A failure in words; empty where the words are of no interest. -/
def text : Fault → String
  | option cause => cause.text
  | shape cause => cause.text
  | request cause => cause.text
  | document _ => ""
  | notAnArray o kind =>
    s!"[{o.title}] Expected np.ndarray or torch.Tensor, got <class " ++ quoted kind ++ ">."
  | unknownOption o key => "[" ++ o.title ++ "] Unknown config key: '" ++ key ++ "'"
  | noSuchFile name => "[Errno 2] No such file or directory: " ++ quoted name
  | wrongType text | badValue text | noAttribute text => text
  | missingKey name => quoted name
  | divisionByZero => "division by zero"
  | overflow cause => cause.text
  | outOfRange | incompatible | unsupported => ""

/-- The fault of asking a value of some kind for something that it does not have. -/
def lacks (v : Value) (name : String) : Fault :=
  noAttribute (quoted v.kind ++ " object has no attribute " ++ quoted name)

/-- The fault of comparing values that have no common order. -/
def unordered (relation : String) (a b : Value) : Fault :=
  wrongType (quoted relation ++ " not supported between instances of " ++
    quoted a.kind ++ " and " ++ quoted b.kind)

/-- The fault of combining values that an operation does not accept. -/
def operands (operation : String) (a b : Value) : Fault :=
  wrongType ("unsupported operand type(s) for " ++ operation ++ ": " ++ quoted a.kind ++ " and " ++
    quoted b.kind)

end Fault
end SteeredConv
