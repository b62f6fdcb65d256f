import EightBit.CommandLine.Perform
import EightBit.Proofs.Text.Lines

/-!
# What a log tells

The log of an assembling tells of all its lines and diagnostics, in their order. In the error output
of a command it stands in front of the diagnostics, and the listing behind them.
-/

namespace EightBit.CommandLine

/-! ## Events -/

namespace Event

end Event

/-! ## Remarks -/

namespace Remark

theorem texts_append (log : Log) (place : Nat) (front back : List Remark) :
    texts log place (front ++ back) =
      texts log place front ++ texts log (place + front.length) back := by
  rw [texts, List.zipIdx_append, List.map_append]
  rfl

/-- Lines are what they are, whatever the log looks like. -/
theorem texts_map_line (log : Log) (place : Nat) (lines : List String) :
    texts log place (lines.map .line) = lines := by
  rw [texts, List.zipIdx_map, List.map_map]
  exact List.zipIdx_map_fst place lines

end Remark

end EightBit.CommandLine
