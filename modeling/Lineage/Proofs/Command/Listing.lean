import Lineage.Proofs.Command.Outcome
import Lineage.Proofs.Command.ProperTrees

namespace Lineage

namespace Text

/-- Styles start with an escape, so a text without one is left as it is. -/
theorem withoutStyles_eq {cs : List Char} (hplain : '\x1b' ∉ cs) : withoutStyles cs = cs := by
  induction cs with
  | nil => rw [withoutStyles.eq_def]; rfl
  | cons c rest ih =>
    obtain ⟨hescape, hrest⟩ : '\x1b' ≠ c ∧ '\x1b' ∉ rest := by simpa using hplain
    have hstyle : afterStyle? (c :: rest) = none := by
      unfold afterStyle?
      split
      · next h => exact absurd (List.cons.inj h).1.symm hescape
      · rfl
    rw [withoutStyles.eq_def]
    split
    · next h => rw [hstyle] at h; cases h
    · exact congrArg (c :: ·) (ih hrest)

theorem unstyled_eq {s : String} (hplain : '\x1b' ∉ s.toList) : unstyled s = s := by
  rw [unstyled, withoutStyles_eq hplain, String.ofList_toList]

end Text

/-- A finding whose label is a text. -/
def Finding.IsLabelled (finding : Finding) : Prop :=
  ∃ label, finding.label = .text label

/-- The label of a finding behind two blanks for each level. -/
def Finding.line (finding : Finding) : String :=
  String.ofList (List.replicate (2 * finding.depth) ' ') ++ finding.label.display

namespace Command

section Lines

variable {before findings : List Finding} {finding : Finding}

theorem outputLine_line (hplain : '\x1b' ∉ finding.label.display.toList) :
    outputLine finding.line = finding.line ++ "\n" := by
  have hline : '\x1b' ∉ finding.line.toList := by
    simp [Finding.line, hplain]
  rw [outputLine, Text.unstyled_eq hline]

/-- Labels that are texts are printed line by line, and then the others are. -/
theorem printLabels_append (hlabelled : ∀ finding ∈ before, finding.IsLabelled)
    (findings : List Finding) :
    printLabels (before ++ findings) =
      ⟨String.join (before.map fun finding => outputLine finding.line) ++ (printLabels findings).text,
        (printLabels findings).fault⟩ := by
  induction before with
  | nil => simp
  | cons finding rest ih =>
    obtain ⟨⟨label, hlabel⟩, hrest⟩ := List.forall_mem_cons.mp hlabelled
    rw [List.cons_append, printLabels]
    simp only [hlabel, ih hrest, List.map_cons, String.join_cons, String.append_assoc]
    rw [Finding.line, hlabel]
    rfl

theorem printLabels_labelled (hlabelled : ∀ finding ∈ findings, finding.IsLabelled) :
    printLabels findings =
      ⟨String.join (findings.map fun finding => outputLine finding.line), none⟩ := by
  have happend := printLabels_append hlabelled []
  rw [List.append_nil] at happend
  rw [happend]
  exact congrArg (Printed.mk · none) (String.append_empty)

/-- The first label that is no text ends the printing. -/
theorem printLabels_unlabelled (hlabelled : ∀ finding ∈ before, finding.IsLabelled)
    (hunlabelled : ¬finding.IsLabelled) (after : List Finding) :
    printLabels (before ++ finding :: after) =
      ⟨String.join (before.map fun finding => outputLine finding.line),
        some (.of (.notJoinable finding.label.kind))⟩ := by
  have hstop : printLabels (finding :: after) =
      ⟨"", some (.of (.notJoinable finding.label.kind))⟩ := by
    unfold printLabels
    split
    · next label hlabel => exact (hunlabelled ⟨label, hlabel⟩).elim
    · rfl
  rw [printLabels_append hlabelled, hstop]
  exact congrArg (Printed.mk · _) (String.append_empty)

end Lines

/-- A listing as a document and one as text, of the same tree by the same test
    and options. Where the first succeeds, so does the second if all labels are
    texts: it prints the labels line by line, each behind two blanks for each
    level. Else it prints those before the first label that is no text, and
    fails. -/
theorem text_beside_json {around : Surroundings} {arguments others : List String}
    {settings written : Settings} {config : Config}
    (hjson : Asks around .walk arguments settings config) (hformat : config.outputFormat = .json)
    (htext : Asks around .walk others written { config with outputFormat := .text })
    (hsame : written.tree = settings.tree ∧ written.test = settings.test)
    (hexit : (runVerb around .walk arguments).exit = 0) :
    (settings.inFormat .text).resolve around.files = .ok { config with outputFormat := .text } ∧
    ∃ tree test findings, loadTree around.files settings.tree = .ok tree ∧
      loadTest settings.test = .ok test ∧
      (Collect.run tree test config).findings = .ok findings ∧
      (runVerb around .walk arguments).stdout =
        Json.write .full 0 (.list (findings.map findingDatum)) ++ "\n" ∧
      ((∀ finding ∈ findings, finding.IsLabelled) →
        runVerb around .walk others =
          { exit := 0
            stdout := String.join (findings.map fun finding => outputLine finding.line)
            stderr := (runVerb around .walk arguments).stderr
            fault := none }) ∧
      (∀ finding ∈ findings, '\x1b' ∉ finding.label.display.toList →
        outputLine finding.line = finding.line ++ "\n") ∧
      ∀ before finding after, findings = before ++ finding :: after →
        (∀ earlier ∈ before, earlier.IsLabelled) → ¬finding.IsLabelled →
        runVerb around .walk others =
          { exit := 1
            stdout := String.join (before.map fun earlier => outputLine earlier.line)
            stderr := (runVerb around .walk arguments).stderr
            fault := some (.of (.notJoinable finding.label.kind)) } := by
  obtain ⟨tree, test, findings, htree, htest, hfindings, _⟩ := hjson.of_exit_zero hexit
  have hdocument := hjson.runVerb_printed htree htest hfindings
  have hlines := htext.runVerb_printed (hsame.1 ▸ htree) (hsame.2 ▸ htest)
    (show (Collect.run tree test { config with outputFormat := .text }).findings = _ from hfindings)
  rw [hdocument, hlines]
  have hprinted : ∀ findings, Verb.print .walk .text findings = printLabels findings := fun _ => rfl
  refine ⟨resolve_inFormat hjson.config .text, tree, test, findings, htree, htest, hfindings, ?_, ?_,
    fun _ _ => outputLine_line, ?_⟩
  · simp only [printed, hformat]
    rfl
  · intro hlabelled
    simp only [printed, hprinted, printLabels_labelled hlabelled]
    rfl
  · rintro before finding after rfl hlabelled hunlabelled
    simp only [printed, hprinted, printLabels_unlabelled hlabelled hunlabelled]
    rfl

section Documents

theorem loadTree_sameEverywhere {chars : List Char} {fields : List (String × Datum)}
    (hsimple : chars.all isSimple = true)
    (hparse : Json.parse (String.ofList chars) = .ok (.mapping fields))
    (htype : (fields.lookup "type").isSome = true) (path : String) :
    loadTree (sameEverywhere chars).files path = .ok (.mapping fields) := by
  have hbytes : bytesAt (sameEverywhere chars).files (normalPath path) =
      .ok (some (asciiBytes chars)) := rfl
  have hdocument : Config.readDocument (String.ofList chars) = .ok (.ok (.mapping fields)) := by
    rw [Config.readDocument, hparse]
    rfl
  simp only [loadTree, hbytes, bind, Except.bind, Option.getD_some, readTextFile_ascii hsimple,
    hdocument, htype]
  rfl

theorem asks_json (chars : List Char) : Asks (sameEverywhere chars) .walk
    ["t.json", "--format", "json"] ⟨none, none, some "json", none, none, none, "t.json"⟩
    { outputFormat := .json } :=
  ⟨⟨{ values := [(.format, "json")], arguments := ["t.json"] }, rfl, rfl, rfl⟩, rfl⟩

theorem asks_text (chars : List Char) : Asks (sameEverywhere chars) .walk
    ["t.json", "--format", "text"] ⟨none, none, some "text", none, none, none, "t.json"⟩ {} :=
  ⟨⟨{ values := [(.format, "text")], arguments := ["t.json"] }, rfl, rfl, rfl⟩, rfl⟩

/-- The listings of a tree with a gap and a leaf. -/
theorem seedling_listed :
    (runVerb (sameEverywhere seedling) .walk ["t.json", "--format", "json"]).exit = 0 ∧
      runVerb (sameEverywhere seedling) .walk ["t.json", "--format", "text"] =
        { stdout := "a\n  b\n" } := by
  have htree : loadTree (sameEverywhere seedling).files "t.json" = .ok (.mapping
      [("type", .text "a"), ("children", .list [.null, .mapping [("type", .text "b")]])]) :=
    loadTree_sameEverywhere rfl (by cbv) rfl _
  have hfindings : ∀ format, (Collect.run (.mapping [("type", .text "a"),
      ("children", .list [.null, .mapping [("type", .text "b")]])]) .null
      { outputFormat := format }).findings =
        .ok [⟨.text "a", 0, [], .text "a"⟩, ⟨.text "b", 1, [.text "a"], .text "b"⟩] := by
    intro format
    rfl
  have hexit : (runVerb (sameEverywhere seedling) .walk ["t.json", "--format", "json"]).exit = 0 := by
    rw [(asks_json seedling).runVerb_printed htree rfl (hfindings .json)]
    rfl
  refine ⟨hexit, ?_⟩
  obtain ⟨_, tree, test, findings, hload, htest, hfound, _, hlisted, _⟩ :=
    text_beside_json (asks_json seedling) rfl (asks_text seedling) ⟨rfl, rfl⟩ hexit
  obtain rfl : _ = tree := Except.ok.inj (htree.symm.trans hload)
  obtain rfl : .null = test := Except.ok.inj htest
  obtain rfl : _ = findings := Except.ok.inj ((hfindings .json).symm.trans hfound)
  rw [hlisted (by simp [Finding.IsLabelled])]
  have hstderr : (runVerb (sameEverywhere seedling) .walk ["t.json", "--format", "json"]).stderr =
      "" := by
    rw [(asks_json seedling).runVerb_printed htree rfl (hfindings .json)]
    rfl
  rw [hstderr]
  simp only [List.map_cons, List.map_nil]
  rw [outputLine_line (by decide), outputLine_line (by decide)]
  rfl

/-- A tree whose type is no text. -/
def truth : List Char :=
  "\x7b\"type\":true\x7d".toList

/-- A label that is no text can be listed as a document but not as text. -/
theorem truth_unlisted :
    (runVerb (sameEverywhere truth) .walk ["t.json", "--format", "json"]).exit = 0 ∧
      runVerb (sameEverywhere truth) .walk ["t.json", "--format", "text"] =
        { exit := 1, fault := some (.of (.notJoinable .bool)) } := by
  have htree : loadTree (sameEverywhere truth).files "t.json" =
      .ok (.mapping [("type", .bool true)]) :=
    loadTree_sameEverywhere rfl (by cbv) rfl _
  have hfindings : ∀ format, (Collect.run (.mapping [("type", .bool true)]) .null
      { outputFormat := format }).findings = .ok [⟨.bool true, 0, [], .bool true⟩] := by
    intro format
    rfl
  rw [(asks_json truth).runVerb_printed htree rfl (hfindings .json),
    (asks_text truth).runVerb_printed htree rfl (hfindings .text)]
  exact ⟨rfl, rfl⟩

end Documents

end Command

end Lineage
