import Lineage.Config
import Lineage.Proofs.Json.Fields
import Lineage.Proofs.Store.Growth

namespace Lineage

section Lookup

variable {α : Type} {key name : String} {value : α} {fields later : List (String × α)}

theorem lookup_field :
    ((key, value) :: fields).lookup name = if name = key then some value else fields.lookup name := by
  by_cases hname : name = key
  · simp [hname]
  · rw [List.lookup_cons, beq_eq_false_iff_ne.mpr hname, if_neg hname]

theorem lookup_setField :
    (setField key value fields).lookup name = if name = key then some value else fields.lookup name := by
  induction fields with
  | nil => exact lookup_field
  | cons field rest ih =>
    obtain ⟨k, v⟩ := field
    by_cases hkey : k = key
    · subst hkey
      rw [setField, if_pos rfl, lookup_field, lookup_field]
      split <;> rfl
    · rw [setField, if_neg hkey, lookup_field, lookup_field, ih]
      by_cases hname : name = k
      · simp [hname, hkey]
      · simp [hname]

/-- Among fields with keys of their own, what is found under a key is what
    stands there. -/
theorem lookup_eq_some_iff_mem (hnodup : (fields.map Prod.fst).Nodup) :
    fields.lookup name = some value ↔ (name, value) ∈ fields := by
  refine ⟨mem_of_lookup_eq_some, fun hmem => ?_⟩
  induction fields with
  | nil => cases hmem
  | cons field rest ih =>
    obtain ⟨k, v⟩ := field
    rw [List.map_cons, List.nodup_cons] at hnodup
    rw [lookup_field]
    rcases List.mem_cons.mp hmem with hfirst | hrest
    · obtain ⟨rfl, rfl⟩ := Prod.mk.inj hfirst
      rw [if_pos rfl]
    · have hne : name ≠ k := by
        rintro rfl
        exact hnodup.1 (List.mem_map.mpr ⟨_, hrest, rfl⟩)
      rw [if_neg hne, ih hnodup.2 hrest]

theorem lookup_filter (hnodup : (fields.map Prod.fst).Nodup) (keep : α → Bool) :
    (fields.filter fun field => keep field.2).lookup name = (fields.lookup name).filter keep := by
  have hkept : ((fields.filter fun field => keep field.2).map Prod.fst).Nodup :=
    hnodup.sublist (List.filter_sublist.map Prod.fst)
  apply Option.ext
  intro value
  rw [lookup_eq_some_iff_mem hkept, Option.filter_eq_some_iff, lookup_eq_some_iff_mem hnodup,
    List.mem_filter]

/-- After fields with keys of their own were set, what is found is theirs or
    else what was there. -/
theorem lookup_setFields (hnodup : (later.map Prod.fst).Nodup) :
    (setFields later fields).lookup name = (later.lookup name).or (fields.lookup name) := by
  induction later generalizing fields with
  | nil => rfl
  | cons field rest ih =>
    obtain ⟨k, v⟩ := field
    rw [List.map_cons, List.nodup_cons] at hnodup
    show (setFields rest (setField k v fields)).lookup name = _
    rw [ih hnodup.2, lookup_setField, lookup_field]
    by_cases hname : name = k
    · subst hname
      have hnone : rest.lookup name = none := by
        cases hfound : rest.lookup name with
        | none => rfl
        | some found =>
          exact (hnodup.1 (List.mem_map.mpr ⟨_, mem_of_lookup_eq_some hfound, rfl⟩)).elim
      simp [hnone]
    · simp [hname]

theorem nodup_keys_setFields (hnodup : (fields.map Prod.fst).Nodup) :
    ((setFields later fields).map Prod.fst).Nodup := by
  induction later generalizing fields with
  | nil => exact hnodup
  | cons field rest ih => exact ih (nodup_keys_setField hnodup)

end Lookup

namespace Config

/-- The value of a field as it is written, null for a name that is of none. -/
def value (config : Config) (name : String) : Datum :=
  (config.toFields.lookup name).getD .null

/-- An input for a field in the form in which its value is written. -/
def normalize (name : String) (input : Datum) : Except Problem Datum :=
  match name with
  | "reverse" | "annotate_errors" => (readBool input).map .bool
  | "max_depth" => (readDepth input).map fun depth => depth.elim .null fun n => .int n
  | "output_format" => (readFormat input).map fun format => .text format.name
  | "log_level" => (readSeverity input).map fun severity => .text (severityName severity)
  | _ => .error .unknown

/-- What is given for a field: the override for it, unless that is null. -/
def given (overrides : List (String × Datum)) (name : String) : Option Datum :=
  (overrides.lookup name).filter fun value => !isNull value

section Values

variable {config other : Config} {fields overrides more : List (String × Datum)} {name : String}

theorem readDepth_value (depth : Option Nat) :
    readDepth (depth.elim .null fun n => .int n) = .ok depth := by
  cases depth with
  | none => rfl
  | some n =>
    have hpositive : ¬ (n : Int) < 0 := by omega
    simp [readDepth, readInt, hpositive, bind, Except.bind, pure, Except.pure]

theorem readFormat_name (format : Format) : readFormat (.text format.name) = .ok format := by
  cases format <;> rfl

theorem readSeverity_name (severity : Severity) :
    readSeverity (.text (severityName severity)) = .ok severity := by
  cases severity <;> rfl

section Equations

variable (config : Config) (input : Datum)

theorem value_reverse : config.value "reverse" = .bool config.reverse :=
  rfl

theorem value_depth : config.value "max_depth" = config.maxDepth.elim .null fun n => .int n := by
  obtain ⟨_, depth, _, _, _⟩ := config
  cases depth <;> rfl

theorem value_annotate : config.value "annotate_errors" = .bool config.annotateErrors :=
  rfl

theorem value_format : config.value "output_format" = .text config.outputFormat.name :=
  rfl

theorem value_severity : config.value "log_level" = .text (severityName config.logLevel) :=
  rfl

theorem normalize_reverse : normalize "reverse" input = (readBool input).map .bool :=
  rfl

theorem normalize_depth :
    normalize "max_depth" input = (readDepth input).map fun depth => depth.elim .null fun n => .int n :=
  rfl

theorem normalize_annotate : normalize "annotate_errors" input = (readBool input).map .bool :=
  rfl

theorem normalize_format :
    normalize "output_format" input = (readFormat input).map fun format => .text format.name :=
  rfl

theorem normalize_severity :
    normalize "log_level" input =
      (readSeverity input).map fun severity => .text (severityName severity) :=
  rfl

end Equations

/-- The value of a field is in the form in which it is read, and stays as it is. -/
theorem normalize_value (hname : name ∈ fieldNames) :
    normalize name (config.value name) = .ok (config.value name) := by
  simp only [fieldNames, List.mem_cons, List.not_mem_nil, or_false] at hname
  rcases hname with rfl | rfl | rfl | rfl | rfl
  · rfl
  · rw [value_depth, normalize_depth, readDepth_value, Except.map]
  · rfl
  · rw [value_format, normalize_format, readFormat_name, Except.map]
  · rw [value_severity, normalize_severity, readSeverity_name, Except.map]

theorem normalize_unknown {input : Datum} (hname : name ∉ fieldNames) :
    normalize name input = .error .unknown := by
  simp only [fieldNames, List.mem_cons, List.not_mem_nil, or_false, not_or] at hname
  obtain ⟨hreverse, hdepth, hannotate, hformat, hlevel⟩ := hname
  unfold normalize
  split
  · exact (hreverse rfl).elim
  · exact (hannotate rfl).elim
  · exact (hdepth rfl).elim
  · exact (hformat rfl).elim
  · exact (hlevel rfl).elim
  · rfl

/-- A configuration is known by the values of its fields. -/
theorem value_injective (hsame : ∀ name, config.value name = other.value name) : config = other := by
  have hreverse : Datum.bool config.reverse = .bool other.reverse := hsame "reverse"
  have hannotate : Datum.bool config.annotateErrors = .bool other.annotateErrors :=
    hsame "annotate_errors"
  have hdepth := congrArg readDepth (hsame "max_depth")
  rw [value_depth, value_depth, readDepth_value, readDepth_value] at hdepth
  have hformat := congrArg readFormat (hsame "output_format")
  rw [value_format, value_format, readFormat_name, readFormat_name] at hformat
  have hlevel := congrArg readSeverity (hsame "log_level")
  rw [value_severity, value_severity, readSeverity_name, readSeverity_name] at hlevel
  cases config
  cases other
  simp_all

theorem lookup_value (hname : name ∈ fieldNames) :
    config.toFields.lookup name = some (config.value name) := by
  simp only [fieldNames, List.mem_cons, List.not_mem_nil, or_false] at hname
  rcases hname with rfl | rfl | rfl | rfl | rfl <;> rfl

/-- A name that is of no field has no value. -/
theorem lookup_unknown (hname : name ∉ fieldNames) : config.toFields.lookup name = none := by
  simp only [fieldNames, List.mem_cons, List.not_mem_nil, or_false, not_or] at hname
  obtain ⟨hreverse, hdepth, hannotate, hformat, hlevel⟩ := hname
  simp [toFields, lookup_field, hreverse, hdepth, hannotate, hformat, hlevel]

theorem value_unknown (hname : name ∉ fieldNames) : config.value name = .null := by
  rw [value, lookup_unknown hname]
  rfl

end Values

section Reading

variable {config : Config} {fields : List (String × Datum)} {name : String}

/-- A field is read if the input for it can be brought into its form, and when
    there is none its default is taken. -/
theorem exists_field {α : Type} (default : α) {read : Datum → Except Problem α} {write : α → Datum}
    (hform : ∀ input, normalize name input = (read input).map write)
    (hread : ∀ input, fields.lookup name = some input → ∃ written, normalize name input = .ok written) :
    ∃ value, field fields name default read = .ok value := by
  unfold field
  cases hfound : fields.lookup name with
  | none => exact ⟨default, rfl⟩
  | some input =>
    obtain ⟨written, hwritten⟩ := hread input hfound
    rw [hform] at hwritten
    cases hvalue : read input with
    | error problem =>
      rw [hvalue] at hwritten
      cases hwritten
    | ok value => exact ⟨value, by simp [hvalue, pure, Except.pure]⟩

theorem settled_field {α : Type} {default value : α} {read : Datum → Except Problem α}
    {write : α → Datum} (hform : ∀ input, normalize name input = (read input).map write)
    (hdefault : ({} : Config).value name = write default)
    (hfield : field fields name default read = .ok value) (hvalue : config.value name = write value) :
    (fields.lookup name).elim (.ok (({} : Config).value name)) (normalize name) =
      .ok (config.value name) := by
  rw [hvalue]
  unfold field at hfield
  cases hfound : fields.lookup name with
  | none =>
    rw [hfound] at hfield
    cases hfield
    exact congrArg Except.ok hdefault
  | some input =>
    rw [hfound] at hfield
    simp only [Option.elim_some, hform]
    cases hvalue : read input with
    | error problem => simp [hvalue, throw, throwThe, MonadExceptOf.throw] at hfield
    | ok found =>
      simp only [hvalue, pure, Except.pure, Except.ok.injEq] at hfield
      rw [Except.map, hfield]

theorem unknownFields_eq_nil_iff :
    unknownFields fields = [] ↔ ∀ name input, fields.lookup name = some input → name ∈ fieldNames := by
  simp only [unknownFields, List.filterMap_eq_nil_iff, ite_eq_left_iff, reduceCtorEq, imp_false,
    not_not, List.contains_iff_mem]
  constructor
  · intro hknown name input hfound
    exact hknown (name, input) (mem_of_lookup_eq_some hfound)
  · intro hknown pair hmem
    cases hfound : fields.lookup pair.1 with
    | some input => exact hknown _ input hfound
    | none =>
      rw [List.lookup_eq_none_iff] at hfound
      simpa using hfound pair hmem

/-- The values of a configuration made of fields are those that are given, in
    their form, and defaults for the others. -/
theorem value_of_ofFields (hconfig : ofFields fields = .ok config) (name : String) :
    (fields.lookup name).elim (.ok (({} : Config).value name)) (normalize name) =
      .ok (config.value name) := by
  unfold ofFields at hconfig
  simp only at hconfig
  split at hconfig
  · next reverse depth annotate format severity hreverse hdepth hannotate hformat hlevel hknown =>
    cases hconfig
    by_cases hname : name ∈ fieldNames
    · simp only [fieldNames, List.mem_cons, List.not_mem_nil, or_false] at hname
      rcases hname with rfl | rfl | rfl | rfl | rfl
      · exact settled_field normalize_reverse (value_reverse _) hreverse (value_reverse _)
      · exact settled_field normalize_depth (value_depth _) hdepth (value_depth _)
      · exact settled_field normalize_annotate (value_annotate _) hannotate (value_annotate _)
      · exact settled_field normalize_format (value_format _) hformat (value_format _)
      · exact settled_field normalize_severity (value_severity _) hlevel (value_severity _)
    · rw [value_unknown hname, value_unknown hname]
      cases hfound : fields.lookup name with
      | none => rfl
      | some input => exact (hname (unknownFields_eq_nil_iff.mp hknown name input hfound)).elim
  · cases hconfig

/-- Fields make a configuration if each of them can be brought into the form of
    the field of its name. -/
theorem exists_ofFields_iff :
    (∃ config, ofFields fields = .ok config) ↔
      ∀ name input, fields.lookup name = some input → ∃ written, normalize name input = .ok written := by
  constructor
  · rintro ⟨config, hconfig⟩ name input hfound
    have hvalue := value_of_ofFields hconfig name
    rw [hfound] at hvalue
    exact ⟨_, hvalue⟩
  · intro hread
    have hknown : unknownFields fields = [] := by
      rw [unknownFields_eq_nil_iff]
      intro name input hfound
      by_contra hname
      obtain ⟨written, hwritten⟩ := hread name input hfound
      rw [normalize_unknown hname] at hwritten
      cases hwritten
    obtain ⟨reverse, hreverse⟩ := exists_field false normalize_reverse (hread "reverse")
    obtain ⟨depth, hdepth⟩ := exists_field none normalize_depth (hread "max_depth")
    obtain ⟨annotate, hannotate⟩ := exists_field false normalize_annotate (hread "annotate_errors")
    obtain ⟨format, hformat⟩ := exists_field .text normalize_format (hread "output_format")
    obtain ⟨level, hlevel⟩ := exists_field .warning normalize_severity (hread "log_level")
    refine ⟨⟨reverse, depth, annotate, format, level⟩, ?_⟩
    simp only [ofFields, hreverse, hdepth, hannotate, hformat, hlevel, hknown]
    rfl

/-- A configuration is made of fields whose values in their form are its own. -/
theorem ofFields_eq_ok_iff :
    ofFields fields = .ok config ↔ ∀ name,
      (fields.lookup name).elim (.ok (({} : Config).value name)) (normalize name) =
        .ok (config.value name) := by
  refine ⟨value_of_ofFields, fun hvalues => ?_⟩
  have hread : ∀ name input, fields.lookup name = some input →
      ∃ written, normalize name input = .ok written := by
    intro name input hfound
    have hvalue := hvalues name
    rw [hfound] at hvalue
    exact ⟨_, hvalue⟩
  obtain ⟨other, hother⟩ := exists_ofFields_iff.mpr hread
  rw [hother]
  congr 1
  apply value_injective
  intro name
  exact Except.ok.inj ((value_of_ofFields hother name).symm.trans (hvalues name))

end Reading

section Merging

variable {config result alone : Config} {overrides more : List (String × Datum)} {name : String}
  {input : Datum}

theorem isNull_eq_true_iff : isNull input = true ↔ input = .null := by
  unfold isNull
  split <;> simp_all

/-- An override that is not null is what is given for its field. -/
theorem given_eq_some_iff (hnodup : (overrides.map Prod.fst).Nodup) :
    given overrides name = some input ↔ (name, input) ∈ overrides ∧ input ≠ .null := by
  rw [given, Option.filter_eq_some_iff, lookup_eq_some_iff_mem hnodup, Bool.not_eq_true',
    ← Bool.not_eq_true, isNull_eq_true_iff]

theorem lookup_overlay (hnodup : (overrides.map Prod.fst).Nodup) (fields : List (String × Datum)) :
    (overlay fields overrides).lookup name = (given overrides name).or (fields.lookup name) := by
  have hkept : ((overrides.filter fun field => !isNull field.2).map Prod.fst).Nodup :=
    hnodup.sublist (List.filter_sublist.map Prod.fst)
  have hset : overlay fields overrides =
      setFields (overrides.filter fun field => !isNull field.2) fields := rfl
  rw [hset, lookup_setFields hkept, lookup_filter hnodup fun value => !isNull value, given]

/-- What is given after overrides were laid over others. -/
theorem given_overlay (hmore : (more.map Prod.fst).Nodup) :
    given (overlay overrides more) name = (given more name).or (given overrides name) := by
  rw [given, lookup_overlay hmore]
  cases hgiven : given more name with
  | none => rfl
  | some input =>
    have hnotNull : (!isNull input) = true := (Option.filter_eq_some_iff.mp hgiven).2
    simp [Option.filter, hnotNull]

/-- What a field of a merged configuration is read from. -/
theorem settled_overlay (hnodup : (overrides.map Prod.fst).Nodup) (name : String) :
    ((overlay config.toFields overrides).lookup name).elim (.ok (({} : Config).value name))
        (normalize name) =
      (given overrides name).elim (.ok (config.value name)) (normalize name) := by
  rw [lookup_overlay hnodup]
  cases given overrides name with
  | some input => rfl
  | none =>
    rw [Option.none_or]
    by_cases hname : name ∈ fieldNames
    · rw [lookup_value hname]
      exact normalize_value hname
    · rw [lookup_unknown hname, Option.elim_none, Option.elim_none, value_unknown hname,
        value_unknown hname]

/-- A merged configuration has the values that are given, in their form, and
    those of the first configuration for the others. -/
theorem merged_eq_ok_iff (hnodup : (overrides.map Prod.fst).Nodup) :
    config.merged overrides = .ok result ↔ ∀ name,
      (given overrides name).elim (.ok (config.value name)) (normalize name) =
        .ok (result.value name) := by
  rw [merged, ofFields_eq_ok_iff]
  simp only [settled_overlay hnodup]

theorem exists_merged_iff (hnodup : (overrides.map Prod.fst).Nodup) :
    (∃ result, config.merged overrides = .ok result) ↔
      ∀ name input, given overrides name = some input → ∃ written, normalize name input = .ok written := by
  simp only [merged, exists_ofFields_iff, lookup_overlay hnodup]
  refine forall_congr' fun name => ⟨fun hread input hgiven => ?_, fun hread input hfound => ?_⟩
  · exact hread input (by rw [hgiven, Option.some_or])
  · cases hgiven : given overrides name with
    | some override =>
      rw [hgiven, Option.some_or] at hfound
      exact hread input (hgiven.trans hfound)
    | none =>
      rw [hgiven, Option.none_or] at hfound
      by_cases hname : name ∈ fieldNames
      · rw [lookup_value hname] at hfound
        cases hfound
        exact ⟨_, normalize_value hname⟩
      · rw [lookup_unknown hname] at hfound
        cases hfound

/-- An override is valid on its own if it can be brought into the form of its
    field, and then that is what the configuration made of it alone has there. -/
theorem exists_alone_iff :
    (∃ alone, ofFields [(name, input)] = .ok alone) ↔ ∃ written, normalize name input = .ok written := by
  rw [exists_ofFields_iff]
  constructor
  · intro hread
    exact hread name input (by rw [lookup_field, if_pos rfl])
  · intro hwritten other found hfound
    rw [lookup_field] at hfound
    split at hfound
    · next hname =>
      cases hfound
      exact hname ▸ hwritten
    · cases hfound

theorem value_alone (halone : ofFields [(name, input)] = .ok alone) :
    normalize name input = .ok (alone.value name) := by
  have hvalue := value_of_ofFields halone name
  rwa [lookup_field, if_pos rfl] at hvalue

theorem lookup_congr (hsame : config.value name = result.value name) :
    config.toFields.lookup name = result.toFields.lookup name := by
  by_cases hname : name ∈ fieldNames
  · rw [lookup_value hname, lookup_value hname, hsame]
  · rw [lookup_unknown hname, lookup_unknown hname]

/-- Merging twice is merging once with the later overrides laid over the first. -/
theorem merged_merged_iff (hnodup : (overrides.map Prod.fst).Nodup)
    (hmore : (more.map Prod.fst).Nodup) (hmerged : config.merged overrides = .ok result)
    (last : Config) :
    result.merged more = .ok last ↔ config.merged (overlay overrides more) = .ok last := by
  have hboth : ((overlay overrides more).map Prod.fst).Nodup := nodup_keys_setFields hnodup
  rw [merged_eq_ok_iff hmore, merged_eq_ok_iff hboth]
  refine forall_congr' fun name => ?_
  rw [given_overlay hmore]
  cases given more name with
  | some input => rfl
  | none =>
    rw [Option.none_or, Option.elim_none, (merged_eq_ok_iff hnodup).mp hmerged name]

end Merging

/-- Overrides are merged field by field: merging succeeds if each override that
    is not null is valid for its field on its own, and only then. The result has
    what such an override is read as in its field, and all else as it was. So
    overrides that are null change nothing, and overrides that follow others come
    to the same as if they had been laid over those. -/
theorem merged_field_by_field (config : Config) (overrides : List (String × Datum))
    (hnodup : (overrides.map Prod.fst).Nodup) :
    ((∃ result, config.merged overrides = .ok result) ↔
      ∀ name input, (name, input) ∈ overrides → input ≠ .null →
        ∃ alone, ofFields [(name, input)] = .ok alone) ∧
    (∀ result, config.merged overrides = .ok result →
      (∀ name input, (name, input) ∈ overrides → input ≠ .null →
        ∀ alone, ofFields [(name, input)] = .ok alone →
          result.toFields.lookup name = alone.toFields.lookup name) ∧
      (∀ name, (∀ input, (name, input) ∈ overrides → input = .null) →
        result.toFields.lookup name = config.toFields.lookup name) ∧
      ∀ more, (more.map Prod.fst).Nodup → ∀ last,
        result.merged more = .ok last ↔ config.merged (overlay overrides more) = .ok last) ∧
    ((∀ name input, (name, input) ∈ overrides → input = .null) →
      config.merged overrides = .ok config) := by
  refine ⟨?_, fun result hmerged => ⟨?_, ?_, ?_⟩, ?_⟩
  · rw [exists_merged_iff hnodup]
    simp only [given_eq_some_iff hnodup, exists_alone_iff, and_imp]
  · intro name input hmem hnotNull alone halone
    have hvalue := (merged_eq_ok_iff hnodup).mp hmerged name
    rw [(given_eq_some_iff hnodup).mpr ⟨hmem, hnotNull⟩, Option.elim_some, value_alone halone] at hvalue
    exact lookup_congr (Except.ok.inj hvalue).symm
  · intro name hnull
    have hnone : given overrides name = none := by
      rw [Option.eq_none_iff_forall_ne_some]
      intro input hgiven
      obtain ⟨hmem, hnotNull⟩ := (given_eq_some_iff hnodup).mp hgiven
      exact hnotNull (hnull input hmem)
    have hvalue := (merged_eq_ok_iff hnodup).mp hmerged name
    rw [hnone, Option.elim_none] at hvalue
    exact lookup_congr (Except.ok.inj hvalue).symm
  · intro more hmore last
    exact merged_merged_iff hnodup hmore hmerged last
  · intro hnull
    rw [merged_eq_ok_iff hnodup]
    intro name
    cases hgiven : given overrides name with
    | none => rfl
    | some input =>
      obtain ⟨hmem, hnotNull⟩ := (given_eq_some_iff hnodup).mp hgiven
      exact (hnotNull (hnull name input hmem)).elim

/-- A depth and a level are given as texts, and then another depth alone. -/
theorem merged_field_by_field_twice :
    ∃ result, Config.merged { outputFormat := .json }
        [("max_depth", .text " +5.0 "), ("output_format", .null), ("log_level", .text " debug\n")] =
          .ok result ∧
      result.toFields.lookup "output_format" = some (.text "json") ∧
      result.toFields.lookup "max_depth" = some (.int 5) ∧
      result.merged [("max_depth", .bool true)] = .ok ⟨false, some 1, false, .json, .debug⟩ := by
  obtain ⟨hvalid, hfields, -⟩ := merged_field_by_field { outputFormat := .json }
    [("max_depth", .text " +5.0 "), ("output_format", .null), ("log_level", .text " debug\n")]
    (by decide)
  have hdepth : ofFields [("max_depth", .text " +5.0 ")] = .ok { maxDepth := some 5 } := rfl
  have hlevel : ofFields [("log_level", .text " debug\n")] = .ok { logLevel := .debug } := rfl
  obtain ⟨result, hresult⟩ := hvalid.mpr <| by
    intro name input hmem hnotNull
    simp only [List.mem_cons, List.not_mem_nil, or_false, Prod.mk.injEq] at hmem
    rcases hmem with ⟨rfl, rfl⟩ | ⟨-, rfl⟩ | ⟨rfl, rfl⟩
    · exact ⟨_, hdepth⟩
    · exact (hnotNull rfl).elim
    · exact ⟨_, hlevel⟩
  obtain ⟨hgiven, hkept, hmore⟩ := hfields result hresult
  refine ⟨result, hresult, ?_, ?_, ?_⟩
  · rw [hkept "output_format" (by simp)]
    rfl
  · rw [hgiven "max_depth" _ (by simp) (by simp) _ hdepth]
    rfl
  · rw [hmore _ (by decide)]
    rfl

end Config

end Lineage
