/-
# Metrics by name

Metrics are called by name, with settings given by name. The evaluator computes a
sequence of metrics in order and answers with the results under their names, or with
the results alone. Either answer has one entry per name, so that a name that is repeated
answers once.

Key definitions: `Metric`, `Metric.call`, `evaluateMetrics`, `Evaluation`, `evaluation`.
Key statements: `Metric.ofName?_name`.
-/
import SteeredConv.Metric.Difference
import SteeredConv.Metric.Similarity

namespace SteeredConv

/-- The metrics. -/
inductive Metric where
  | meanSquare
  | signalToNoise
  | similarity
  deriving Repr, DecidableEq

namespace Metric

/-- All metrics, in the order in which they are computed. -/
def all : List Metric := [meanSquare, signalToNoise, similarity]

def name : Metric → String
  | meanSquare => "mse"
  | signalToNoise => "psnr"
  | similarity => "ssim"

def ofName? (name : String) : Option Metric := all.find? fun m => m.name = name

theorem ofName?_name (m : Metric) : ofName? m.name = some m := by
  cases m <;> decide +kernel

/-- The names of the settings that a metric takes. -/
def settings : Metric → List String
  | meanSquare => ["clip_val"]
  | signalToNoise => ["max_intensity", "clip_val"]
  | similarity => ["return_map", "ssim_cfg", "output_format"]

/-- Computes a metric with settings given by name. The options of an index are a setting like the
others. -/
def call (m : Metric) (options : Option SimilarityOptions) (given : List (String × Value))
    (truth estimate : Operand) : Action Fault MetricResult := do
  liftM (Named.only m.settings (options.toList.map fun o => ("ssim_cfg", o)))
  liftM (Named.only m.settings given)
  let limit := Named.get given "clip_val" defaultLimit
  match m with
  | meanSquare => return .number (← liftM (SteeredConv.meanSquare truth estimate limit))
  | signalToNoise =>
    let peak := Named.get given "max_intensity" (.float 1)
    return .number (← liftM (peakSignalToNoise truth estimate peak limit)).toNumber
  | similarity =>
    match Named.get given "ssim_cfg" .null with
    | .null =>
      similarityOf (options.getD {}) (Named.get given "return_map" (.bool false)).isTrue
        (Named.get given "output_format" (.text "numpy")) truth estimate
    | v => throw (.lacks v "resolve")

end Metric

/-- The names in a value that names metrics; none at all stands for every metric. -/
def metricNames : Value → Except Fault (List Value)
  | .null => .ok (Metric.all.map fun m => .text m.name)
  | .list names | .tuple names => .ok names
  | .text s => .ok (s.toList.map fun c => .text (String.singleton c))
  | .map entries => .ok (entries.map (·.1))
  | v => .error (.wrongType (quoted v.kind ++ " object is not iterable"))

def metricOf? : Value → Option Metric
  | .text s => Metric.ofName? s
  | _ => none

/-- The metrics that values name, if all are known. -/
def metricsOf (names : List Value) : Except Fault (List Metric) := do
  if names.any fun v => match v with | .list _ | .map _ | .set _ => true | _ => false then
    throw (.wrongType "")
  let unknown := names.filter fun v => (metricOf? v).isNone
  if !unknown.isEmpty then throw (.request (.unknownMetrics unknown))
  return names.filterMap metricOf?

/-- A result put at the end under its metric, or in the place of an earlier result of it. -/
def recordResult (results : List (Metric × MetricResult)) (m : Metric) (r : MetricResult) :
    List (Metric × MetricResult) :=
  if results.any fun e => e.1 = m then results.map fun e => if e.1 = m then (m, r) else e
  else results ++ [(m, r)]

/-- The results of metrics computed one after the other. -/
def evaluateMetrics (options : Option SimilarityOptions) (given : List (String × Value))
    (truth estimate : Operand) :
    List Metric → List (Metric × MetricResult) → Action Fault (List (Metric × MetricResult))
  | [], results => return results
  | m :: rest, results => do
    let r ← m.call options given truth estimate
    evaluateMetrics options given truth estimate rest (recordResult results m r)

/-- The results of the metrics that a value names. -/
def evaluateNamed (names : Value) (options : Option SimilarityOptions)
    (given : List (String × Value))
    (truth estimate : Operand) : Action Fault (List (Metric × MetricResult)) := do
  let names ← liftM (metricNames names)
  let metrics ← liftM (metricsOf names)
  evaluateMetrics options given truth estimate metrics []

/-- What the evaluator answers. -/
inductive Evaluation where
  | named (results : List (Metric × MetricResult))
  | listed (results : List MetricResult)

/-- The results of the metrics that a value names, under their names or alone. -/
def evaluation (names underNames : Value) (options : Option SimilarityOptions)
    (given : List (String × Value)) (truth estimate : Operand) : Action Fault Evaluation := do
  let results ← evaluateNamed names options given truth estimate
  if underNames.isTrue then return .named results
  else return .listed (results.map (·.2))

end SteeredConv
