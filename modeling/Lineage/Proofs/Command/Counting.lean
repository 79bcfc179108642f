import Lineage.Proofs.Command.CollectingDirections
import Lineage.Proofs.Command.Listing
import Lineage.Proofs.Command.Tallies

namespace Lineage.Command

/-- Tallies in a format: the fields of a document, or lines with a tab between
    the type and the number. -/
def tabulated (format : Config.Format) (tallies : List Tally) : String :=
  match format with
  | .json => Json.write .ascii 0 (.mapping (tallies.map fun tally =>
      (Json.keyText tally.type, .int tally.count))) ++ "\n"
  | .text => String.join (tallies.map fun tally =>
      outputLine (tally.type.display ++ "\t" ++ toString tally.count))

theorem printCounts_eq {findings : List Finding} {tallies : List Tally}
    (htallies : Tally.ofFindings findings = .ok tallies) (format : Config.Format) :
    printCounts format findings = ⟨tabulated format tallies, none⟩ := by
  rw [printCounts, htallies]
  cases format <;> rfl

/-- A tree that can be loaded is a mapping. -/
theorem loadTree_ne_null {files : Files} {path : String} {tree : Datum}
    (htree : loadTree files path = .ok tree) : tree ≠ .null := by
  rintro rfl
  unfold loadTree at htree
  simp only at htree
  split at htree
  · cases htree
  · cases htree
  · split at htree <;> cases htree
  · cases htree

section Counts

variable {around : Surroundings} {arguments : List String} {settings : Settings} {config : Config}
  {tree test : Datum} {findings : List Finding}

theorem Asks.count_printed (hasks : Asks around .count arguments settings config)
    (htree : loadTree around.files settings.tree = .ok tree)
    (htest : loadTest settings.test = .ok test)
    (hfindings : (Collect.run tree test config).findings = .ok findings) {tallies : List Tally}
    (htallies : Tally.ofFindings findings = .ok tallies) :
    runVerb around .count arguments =
      { exit := 0
        stdout := tabulated config.outputFormat tallies
        stderr := String.join ((Log.linesFrom around.time config.logLevel.level
          (Collect.run tree test config).journal).map (· ++ "\n"))
        fault := none } := by
  have hprint : Verb.print .count config.outputFormat findings =
      ⟨tabulated config.outputFormat tallies, none⟩ := printCounts_eq htallies _
  rw [hasks.runVerb_printed htree htest hfindings]
  simp only [printed, hprint]
  rfl

end Counts

end Lineage.Command
