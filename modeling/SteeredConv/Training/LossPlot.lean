/-
# The plot of the losses

The losses of training and of validation are drawn over the epochs, one line each.

Key definitions: `Line`, `LossPlot`, `LossPlot.ofHistories`.
-/
import SteeredConv.Fault

namespace SteeredConv

/-- A line with its name in the legend. -/
structure Line where
  label : String
  heights : List Value

/-- A plot: its texts, its width and height, and its lines. -/
structure LossPlot where
  title : String
  horizontal : String
  vertical : String
  size : Nat × Nat
  lines : List Line

namespace LossPlot

/-- The names in the legend. -/
def legend (p : LossPlot) : List String := p.lines.map Line.label

/-- The plot of two histories. -/
def ofLines (training validation : List Value) : LossPlot where
  title := "SSIM Loss per Epoch"
  horizontal := "Epoch"
  vertical := "Loss"
  size := (7, 5)
  lines := [⟨"Train Loss", training⟩, ⟨"Validation Loss", validation⟩]

/-- The plot of two histories of one length. -/
def ofHistories (training validation : List Value) : Except Fault LossPlot :=
  if training.length = validation.length then .ok (ofLines training validation)
  else .error (.request .unequalHistories)

end LossPlot
end SteeredConv
