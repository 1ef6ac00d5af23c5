import EngineConsole.Counts.Basic
import EngineConsole.Decimal.Layout

/-!
# The chart window

The chart shows the newest samples of packets sent and received, oldest first. What draws the chart
is asked for once, with the style in force, when the first sample arrives; from then on it is
handed the whole window after every sample.
-/

set_option autoImplicit false

namespace EngineConsole

structure Sample where
  label : String
  sent : UInt64
  received : UInt64
  deriving Repr, DecidableEq

def Sample.ofCounts (label : String) (counts : Counts) : Sample :=
  ⟨label, counts.gauge .sent, counts.gauge .received⟩

namespace Chart

structure Series where
  caption : String
  stroke : String
  fill : String
  deriving Repr, DecidableEq

structure Style where
  series : List Series
  /-- Smoothing of the lines; zero draws straight segments. -/
  tension : Single
  legend : String
  tick : String
  grid : String
  deriving DecidableEq

def Style.standard : Style where
  series :=
    [⟨"Packets sent", "#2563eb", "rgba(37, 99, 235, 0.1)"⟩,
      ⟨"Packets received", "#059669", "rgba(5, 150, 105, 0.1)"⟩]
  tension := .ofDecimal ⟨false, 4, -1⟩
  legend := "#cbd5e1"
  tick := "#94a3b8"
  grid := "#475569"

def standardCapacity : Nat := 20

end Chart

structure Chart where
  samples : List Sample
  capacity : Nat
  style : Chart.Style
  drawn : Bool
  deriving DecidableEq

namespace Chart

inductive Call where
  | create (style : Style)
  | redraw (samples : List Sample)
  deriving DecidableEq

/-- A chart without samples. There is always room for one. -/
def ofCapacity (capacity : Nat) : Chart :=
  ⟨[], max capacity 1, .standard, false⟩

def setStyle (chart : Chart) (style : Style) : Chart :=
  { chart with style }

/-- Add a sample, dropping the oldest ones that no longer fit, and draw the window. -/
def push (chart : Chart) (sample : Sample) : Chart × List Call :=
  let samples := chart.samples ++ [sample]
  let kept := samples.drop (samples.length - chart.capacity)
  ({ chart with samples := kept, drawn := true },
    (if chart.drawn then [] else [.create chart.style]) ++ [.redraw kept])

end Chart

end EngineConsole
