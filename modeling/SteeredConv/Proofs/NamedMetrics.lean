/-
# Metrics by name

No metric depends on what is in the journal, so a metric gives among others what it gives
alone. The evaluator keeps every result under its metric: it answers for each metric that is
named, once, in the order in which the metrics are named first. So the results alone stand in
the places of the names where no name is repeated, and are too few where one is.

Key theorems: `Metric.steady_call`, `recordResult_map`, `returns_evaluateMetrics`,
`metricsOf_names`, `evaluation_by_metric`, `repeated_name_answers_once`.
-/
import SteeredConv.Proofs.LayerSessions
import SteeredConv.Metric.Evaluator

namespace SteeredConv

/-! ### Metrics do not look at the journal -/

theorem SimilarityOptions.steady_resolve (o : SimilarityOptions) : o.resolve.Steady :=
  (Action.steady_liftM _).bind fun _ => (Action.returns_warnIf _ _).steady.bind fun _ => Action.steady_pure _

theorem SimilarityIndex.steady_create {ω : Type} [Scalar ω] (o : SimilarityOptions) (globals : GlobalOptions) :
    (SimilarityIndex.create o globals : Action Fault (SimilarityIndex ω)).Steady :=
  o.steady_resolve.bind fun _ => (o.steady_resolve.bind fun _ => Action.steady_pure _).bind fun _ =>
    (Smoother.steady_create _ globals).bind fun _ => Action.steady_pure _

theorem steady_similarityOf (o : SimilarityOptions) (wholeMap : Bool) (format : Value) (truth estimate : Operand) :
    (similarityOf o wholeMap format truth estimate).Steady := by
  refine (SimilarityIndex.steady_create o _).bind fun x => (Action.steady_liftM _).bind fun a =>
    (Action.steady_liftM _).bind fun b => (Action.steady_liftM _).bind fun r => ?_
  cases wholeMap with
  | true => exact (Action.steady_liftM _).bind fun _ => Action.steady_pure _
  | false => exact Action.steady_pure _

theorem Metric.steady_call (m : Metric) (options : Option SimilarityOptions) (given : List (String × Value))
    (truth estimate : Operand) : (m.call options given truth estimate).Steady := by
  refine (Action.steady_liftM _).bind fun _ => (Action.steady_liftM _).bind fun _ => ?_
  cases m with
  | meanSquare =>
    dsimp only
    exact (Action.steady_liftM _).bind fun _ => Action.steady_pure _
  | signalToNoise =>
    dsimp only
    exact (Action.steady_liftM _).bind fun _ => Action.steady_pure _
  | similarity =>
    dsimp only
    split
    · exact steady_similarityOf _ _ _ truth estimate
    · exact ⟨_, fun _ => rfl⟩

/-! ### Results are kept by metric -/

section Occurrences

variable {β : Type} [DecidableEq β]

theorem eraseDups_concat (before : List β) (b : β) :
    (before ++ [b]).eraseDups = if b ∈ before then before.eraseDups else before.eraseDups ++ [b] := by
  rw [List.eraseDups_append]
  by_cases h : b ∈ before
  · simp [List.removeAll, h]
  · simp [List.removeAll, h, List.eraseDups_cons]

theorem eraseDups_of_nodup {l : List β} (h : l.Nodup) : l.eraseDups = l := by
  induction l with
  | nil => rfl
  | cons b rest ih =>
    obtain ⟨hb, hrest⟩ := List.nodup_cons.mp h
    have hkept : rest.filter (fun c => !c == b) = rest :=
      List.filter_eq_self.mpr fun c hc => by simpa using fun heq : c = b => hb (heq ▸ hc)
    rw [List.eraseDups_cons, hkept, ih hrest]

theorem length_eraseDups_le (l : List β) : l.eraseDups.length ≤ l.length := by
  induction l using List.reverseRecOn with
  | nil => exact le_rfl
  | append_singleton before b ih =>
    rw [eraseDups_concat]
    split_ifs
    · exact ih.trans (by simp)
    · simpa using ih

/-- Where something is repeated, the first occurrences are fewer. -/
theorem length_eraseDups_lt {l : List β} (h : ¬l.Nodup) : l.eraseDups.length < l.length := by
  induction l using List.reverseRecOn with
  | nil => exact absurd List.nodup_nil h
  | append_singleton before b ih =>
    rw [eraseDups_concat]
    split_ifs with hb
    · exact (length_eraseDups_le before).trans_lt (by simp)
    · have hbefore : ¬before.Nodup := fun hnodup => h (by
        rw [← List.concat_eq_append]
        exact hnodup.concat hb)
      simpa using ih hbefore

end Occurrences

section Evaluator

variable {options : Option SimilarityOptions} {given : List (String × Value)} {truth estimate : Operand}
  {r : Metric → MetricResult} {ms : List Metric}

/-- A result takes the place of an earlier one of its metric, or comes last. -/
theorem recordResult_map (r : Metric → MetricResult) (ms : List Metric) (m : Metric) :
    recordResult (ms.map fun m => (m, r m)) m (r m) =
      (if m ∈ ms then ms else ms ++ [m]).map fun m => (m, r m) := by
  have hany : ((ms.map fun m => (m, r m)).any fun e => e.1 = m) = decide (m ∈ ms) := by
    rw [List.any_map, List.any_eq]
    simp
  unfold recordResult
  rw [hany]
  by_cases h : m ∈ ms
  · rw [if_pos (decide_eq_true h), if_pos h, List.map_map]
    refine List.map_congr_left fun m' _ => ?_
    by_cases hm : m' = m
    · simp [hm]
    · simp [hm]
  · rw [if_neg (by simpa using h), if_neg h, List.map_append]
    rfl

/-- Metrics that return something are computed one after the other. -/
theorem returns_evaluateMetrics (h : ∀ m ∈ ms, (m.call options given truth estimate).Returns (r m))
    (before : List Metric) :
    (evaluateMetrics options given truth estimate ms (before.eraseDups.map fun m => (m, r m))).Returns
      ((before ++ ms).eraseDups.map fun m => (m, r m)) := by
  induction ms generalizing before with
  | nil =>
    rw [List.append_nil]
    exact Action.returns_pure _
  | cons m rest ih =>
    obtain ⟨hm, hrest⟩ := List.forall_mem_cons.mp h
    have hnext := ih hrest (before ++ [m])
    rw [List.append_assoc, eraseDups_concat, List.singleton_append] at hnext
    refine Action.returns_bind hm ?_
    rw [recordResult_map]
    simpa only [List.mem_eraseDups] using hnext

/-- Metrics are known under their names. -/
theorem metricsOf_names (ms : List Metric) : metricsOf (ms.map fun m => .text m.name) = .ok ms := by
  have hknown : (fun m : Metric => metricOf? (.text m.name)) = some := funext Metric.ofName?_name
  have hunknown : (ms.map fun m => Value.text m.name).filter (fun v => (metricOf? v).isNone) = [] := by
    rw [List.filter_map, List.map_eq_nil_iff, List.filter_eq_nil_iff]
    intro m _
    rw [Function.comp_apply, congrFun hknown m]
    exact Bool.false_ne_true
  unfold metricsOf
  dsimp only
  rw [if_neg, hunknown, List.filterMap_map]
  · have hall : ms.filterMap (metricOf? ∘ fun m : Metric => Value.text m.name) = ms := by
      rw [show (metricOf? ∘ fun m : Metric => Value.text m.name) = some from hknown, List.filterMap_some]
    rw [hall]
    rfl
  · rw [List.any_map, Bool.not_eq_true]
    exact List.any_eq_false.mpr fun m _ => Bool.false_ne_true

theorem returns_evaluateNamed {names : Value} (hnames : metricNames names = .ok (ms.map fun m => .text m.name))
    (h : ∀ m ∈ ms, (m.call options given truth estimate).Gives (r m)) :
    (evaluateNamed names options given truth estimate).Returns (ms.eraseDups.map fun m => (m, r m)) := by
  have hcalls : ∀ m ∈ ms, (m.call options given truth estimate).Returns (r m) := fun m hm =>
    (m.steady_call _ _ _ _).returns_of_gives (h m hm)
  exact Action.returns_bind (Action.returns_liftM hnames)
    (Action.returns_bind (Action.returns_liftM (metricsOf_names ms)) (returns_evaluateMetrics hcalls []))

/-- The evaluator answers by metric. Where the metrics that are named return something when they are called alone, the
evaluator returns these results, under the names of the metrics or alone. It has one for each metric, in the order in
which the metrics are named first; if none is named twice, they stand in the places of the names, and otherwise they
are fewer than the names. -/
theorem evaluation_by_metric {names : Value} (hnames : metricNames names = .ok (ms.map fun m => .text m.name))
    (h : ∀ m ∈ ms, (m.call options given truth estimate).Gives (r m)) :
    (∀ w : Value, w.isTrue = true → (evaluation names w options given truth estimate).Returns
      (.named (ms.eraseDups.map fun m => (m, r m)))) ∧
    (∀ w : Value, w.isTrue = false →
      (evaluation names w options given truth estimate).Returns (.listed (ms.eraseDups.map r))) ∧
    (ms.Nodup → ∀ w : Value, w.isTrue = false →
      (evaluation names w options given truth estimate).Returns (.listed (ms.map r))) ∧
    (¬ms.Nodup → (ms.eraseDups.map r).length < ms.length) := by
  have hreturns := returns_evaluateNamed hnames h
  have hlisted : ∀ w : Value, w.isTrue = false →
      (evaluation names w options given truth estimate).Returns (.listed (ms.eraseDups.map r)) := by
    intro w hw
    refine Action.returns_bind hreturns ?_
    rw [if_neg (by rw [hw]; exact Bool.false_ne_true), List.map_map]
    exact Action.returns_pure _
  refine ⟨fun w hw => Action.returns_bind hreturns ?_, hlisted, fun hnodup w hw => ?_, fun hrepeated => ?_⟩
  · rw [if_pos hw]
    exact Action.returns_pure _
  · have h := hlisted w hw
    rwa [eraseDups_of_nodup hnodup] at h
  · rw [List.length_map]
    exact length_eraseDups_lt hrepeated

end Evaluator

/-- One number, zero in truth. -/
def singleTruth : Operand := .array ⟨.tensor, .float64 (Tensor.fill [1] 0)⟩

/-- One number, estimated to be one. -/
def singleEstimate : Operand := .array ⟨.tensor, .float64 (Tensor.fill [1] 1)⟩

theorem exists_meanSquare_single : ∃ x, (Metric.meanSquare.call none [] singleTruth singleEstimate).Gives (.number x) :=
  ⟨_, Journal.empty, rfl⟩

theorem exists_signalToNoise_single : ∃ x,
    (Metric.signalToNoise.call none [] singleTruth singleEstimate).Gives (.number x) := by
  obtain ⟨d, hd⟩ : ∃ d, peakSignalToNoise singleTruth singleEstimate (.float 1) defaultLimit = .ok d := by
    obtain ⟨mean, hmean⟩ : ∃ x, meanSquare singleTruth singleEstimate defaultLimit = .ok x := ⟨_, rfl⟩
    unfold peakSignalToNoise
    rw [hmean, ok_bind]
    split_ifs
    · exact ⟨_, rfl⟩
    · exact ⟨_, rfl⟩
  have hcall : (Metric.signalToNoise.call none [] singleTruth singleEstimate).Returns (.number d.toNumber) :=
    Action.returns_bind (Action.returns_liftM rfl) (Action.returns_bind (Action.returns_liftM rfl)
      (Action.returns_bind (Action.returns_liftM hd) (Action.returns_pure _)))
  exact ⟨d.toNumber, Journal.empty, hcall _⟩

/-- A first number for the ratio and a second one for the other metrics. -/
def resultsOf (x y : Float) : Metric → MetricResult
  | .signalToNoise => .number x
  | .meanSquare | .similarity => .number y

/-- A metric that is named again answers in its first place. -/
theorem evaluation_by_metric_single : ∃ x y,
    (Metric.signalToNoise.call none [] singleTruth singleEstimate).Gives (.number x) ∧
    (Metric.meanSquare.call none [] singleTruth singleEstimate).Gives (.number y) ∧
    (evaluation (.list [.text "psnr", .text "mse", .text "psnr"]) (.bool true) none [] singleTruth
      singleEstimate).Returns (.named [(.signalToNoise, .number x), (.meanSquare, .number y)]) ∧
    (evaluation (.tuple [.text "psnr", .text "mse"]) (.bool false) none [] singleTruth singleEstimate).Returns
      (.listed [.number x, .number y]) := by
  obtain ⟨x, hx⟩ := exists_signalToNoise_single
  obtain ⟨y, hy⟩ := exists_meanSquare_single
  have h : ∀ ms : List Metric, (∀ m ∈ ms, m = .signalToNoise ∨ m = .meanSquare) →
      ∀ m ∈ ms, (m.call none [] singleTruth singleEstimate).Gives (resultsOf x y m) := by
    intro ms hms m hm
    rcases hms m hm with rfl | rfl
    · exact hx
    · exact hy
  have hthree : metricNames (.list [.text "psnr", .text "mse", .text "psnr"]) =
      .ok ([Metric.signalToNoise, .meanSquare, .signalToNoise].map fun m => .text m.name) := rfl
  have htwo : metricNames (.tuple [.text "psnr", .text "mse"]) =
      .ok ([Metric.signalToNoise, .meanSquare].map fun m => .text m.name) := rfl
  exact ⟨x, y, hx, hy, (evaluation_by_metric hthree (h _ (by simp))).1 _ rfl,
    (evaluation_by_metric htwo (h _ (by simp))).2.2.1 (by decide) _ rfl⟩

/-- The list of results is shorter than the list of names if a metric is named twice. -/
theorem repeated_name_answers_once : ∃ x,
    (Metric.meanSquare.call none [] singleTruth singleEstimate).Returns x ∧
    (evaluation (.list [.text "mse", .text "mse"]) (.bool false) none [] singleTruth singleEstimate).Returns
      (.listed [x]) := by
  obtain ⟨x, hx⟩ := exists_meanSquare_single
  have h : ∀ m ∈ [Metric.meanSquare, .meanSquare], (m.call none [] singleTruth singleEstimate).Gives (.number x) := by
    intro m hm
    simp only [List.mem_cons, List.not_mem_nil, or_false, or_self] at hm
    rwa [hm]
  exact ⟨.number x, (Metric.steady_call _ _ _ _ _).returns_of_gives hx,
    Action.returns_bind (returns_evaluateNamed rfl h) (Action.returns_pure _)⟩

end SteeredConv
