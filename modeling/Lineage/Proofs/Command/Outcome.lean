import Lineage.Command.Run

namespace Lineage.Command

/-- Options with a format asked for. -/
def Settings.inFormat (settings : Settings) (format : Config.Format) : Settings :=
  { settings with format := some format.name }

/-- A call of a command that is in order: its words ask for no help, and they
    give options from which a configuration comes. -/
structure Asks (around : Surroundings) (verb : Verb) (arguments : List String)
    (settings : Settings) (config : Config) : Prop where
  words : ∃ words, Words.of (.command verb) arguments = .ok words ∧ words.help = false ∧
    Settings.ofWords around.files words = .ok settings
  config : settings.resolve around.files = .ok config

/-- What collecting comes to once it is printed. -/
def printed (around : Surroundings) (verb : Verb) (config : Config) (findings : List Finding)
    (journal : List Lineage.Entry) : Outcome :=
  { exit := if (verb.print config.outputFormat findings).fault.isSome then 1 else 0
    stdout := (verb.print config.outputFormat findings).text
    stderr := String.join ((Log.linesFrom around.time config.logLevel.level journal).map (· ++ "\n"))
    fault := (verb.print config.outputFormat findings).fault }

section Calls

variable {around : Surroundings} {verb : Verb} {arguments : List String} {settings : Settings}
  {config : Config} (hasks : Asks around verb arguments settings config)

include hasks

theorem Asks.runVerb_eq : runVerb around verb arguments =
    match execute around verb settings with
    | .ok outcome => outcome
    | .error stop => stop.outcome around (.command verb) := by
  obtain ⟨⟨words, hwords, hhelp, hsettings⟩, _⟩ := hasks
  cases hexecute : execute around verb settings <;>
    simp only [runVerb, hwords, hhelp, Bool.false_eq_true, if_false, hsettings, hexecute]

/-- A call prints what it finds in its tree by its test. -/
theorem Asks.runVerb_printed {tree test : Datum} {findings : List Finding}
    (htree : loadTree around.files settings.tree = .ok tree)
    (htest : loadTest settings.test = .ok test)
    (hfindings : (Collect.run tree test config).findings = .ok findings) :
    runVerb around verb arguments =
      printed around verb config findings (Collect.run tree test config).journal := by
  rw [hasks.runVerb_eq]
  simp only [execute, bind, Except.bind, hasks.config, htree, htest, hfindings]
  rfl

/-- A call succeeds only with a tree, a test, findings and nothing that went
    wrong while they were printed. -/
theorem Asks.of_exit_zero (hexit : (runVerb around verb arguments).exit = 0) :
    ∃ tree test findings, loadTree around.files settings.tree = .ok tree ∧
      loadTest settings.test = .ok test ∧
      (Collect.run tree test config).findings = .ok findings ∧
      (verb.print config.outputFormat findings).fault = none := by
  have hstop : ∀ stop : Stop, (stop.outcome around (.command verb)).exit ≠ 0 := by
    intro stop
    cases stop <;> exact Nat.succ_ne_zero _
  have hrun := hasks.runVerb_eq
  simp only [execute, bind, Except.bind, hasks.config] at hrun
  cases htree : loadTree around.files settings.tree with
  | error stop =>
    rw [hrun, htree] at hexit
    exact (hstop stop hexit).elim
  | ok tree =>
    cases htest : loadTest settings.test with
    | error stop =>
      simp only [htree, htest] at hrun
      rw [hrun] at hexit
      exact (hstop stop hexit).elim
    | ok test =>
      cases hfindings : (Collect.run tree test config).findings with
      | error fault =>
        simp only [htree, htest, hfindings] at hrun
        rw [hrun] at hexit
        cases hexit
      | ok findings =>
        refine ⟨tree, test, findings, rfl, rfl, hfindings, ?_⟩
        rw [hasks.runVerb_printed htree htest hfindings] at hexit
        cases hfault : (verb.print config.outputFormat findings).fault with
        | none => rfl
        | some fault => simp [printed, hfault] at hexit

end Calls

section Formats

theorem field_eq_ok_iff {α : Type} {fields : List (String × Datum)} {name : String}
    {input : Datum} (hlookup : fields.lookup name = some input) (default value : α)
    (read : Datum → Except Config.Problem α) :
    Config.field fields name default read = .ok value ↔ read input = .ok value := by
  unfold Config.field
  rw [hlookup]
  cases hread : read input <;> simp [hread, throw, throwThe, MonadExceptOf.throw, pure, Except.pure]

/-- Values for all fields make a configuration if each of them can be read. -/
theorem ofFields_eq_ok_iff {reverse maxDepth annotate format logLevel : Datum} {config : Config} :
    Config.ofFields [("reverse", reverse), ("max_depth", maxDepth), ("annotate_errors", annotate),
        ("output_format", format), ("log_level", logLevel)] = .ok config ↔
      Config.readBool reverse = .ok config.reverse ∧
      Config.readDepth maxDepth = .ok config.maxDepth ∧
      Config.readBool annotate = .ok config.annotateErrors ∧
      Config.readFormat format = .ok config.outputFormat ∧
      Config.readSeverity logLevel = .ok config.logLevel := by
  constructor
  · intro hconfig
    unfold Config.ofFields at hconfig
    simp only at hconfig
    split at hconfig
    · next hreverse hdepth hannotate hformat hlevel _ =>
      cases hconfig
      rw [field_eq_ok_iff rfl] at hreverse hdepth hannotate hformat hlevel
      exact ⟨hreverse, hdepth, hannotate, hformat, hlevel⟩
    · cases hconfig
  · rintro ⟨hreverse, hdepth, hannotate, hformat, hlevel⟩
    simp [Config.ofFields, Config.field, List.lookup_cons, hreverse, hdepth, hannotate, hformat,
      hlevel, Config.unknownFields, Config.fieldNames, pure, Except.pure]

theorem overlay_overrides (base : Config) (settings : Settings) :
    Config.overlay base.toFields settings.overrides =
      [("reverse", settings.reverse.elim (.bool base.reverse) .bool),
       ("max_depth", settings.maxDepth.elim (base.maxDepth.elim .null fun depth => .int depth) .int),
       ("annotate_errors", .bool base.annotateErrors),
       ("output_format", settings.format.elim (.text base.outputFormat.name) .text),
       ("log_level", settings.logLevel.elim (.text (Config.severityName base.logLevel)) .text)] := by
  obtain ⟨reverse, maxDepth, format, logLevel, _, _, _⟩ := settings
  obtain ⟨_, depth, _, _, _⟩ := base
  cases reverse <;> cases maxDepth <;> cases format <;> cases logLevel <;> cases depth <;> rfl

/-- Asking for another format changes the format and nothing else. -/
theorem resolve_inFormat {files : Files} {settings : Settings} {config : Config}
    (hresolve : settings.resolve files = .ok config) (format : Config.Format) :
    (settings.inFormat format).resolve files = .ok { config with outputFormat := format } := by
  have hread : Config.readFormat (.text format.name) = .ok format := by
    cases format <;> rfl
  have hplace : (settings.inFormat format).config = settings.config := rfl
  unfold Settings.resolve at hresolve ⊢
  rw [hplace]
  cases hbase : baseConfig files settings.config with
  | error fault =>
    rw [hbase] at hresolve
    cases hresolve
  | ok base =>
    rw [hbase] at hresolve
    simp only at hresolve ⊢
    split at hresolve
    · next found hmerged =>
      cases hresolve
      rw [Config.merged, overlay_overrides, ofFields_eq_ok_iff] at hmerged
      obtain ⟨hreverse, hdepth, hannotate, _, hlevel⟩ := hmerged
      have hother : base.merged (settings.inFormat format).overrides =
          .ok { config with outputFormat := format } := by
        rw [Config.merged, overlay_overrides, ofFields_eq_ok_iff]
        exact ⟨hreverse, hdepth, hannotate, hread, hlevel⟩
      rw [hother]
      rfl
    · cases hresolve

end Formats

end Lineage.Command
