import Lineage.Proofs.Command.Counting
import Lineage.Proofs.Json.Documents

namespace Lineage

namespace Datum

variable {datum : Datum}

theorem isReadable_null : Datum.null.IsReadable :=
  .scalar trivial

/-- The parts of a number are read as they are written if the number is. -/
theorem isReadable_part {s part : Scalar} (hreadable : Json.IsReadable s) {key : String}
    (hpart : (key, Value.scalar part) ∈ s.properties) : Json.IsReadable part := by
  have hdigit : ∀ n < 10, Json.IsReadable (.int (n : Nat)) := by
    intro n hn
    show (Nat.toDigits 10 n).length ≤ Numeral.maxDigits
    rw [Nat.toDigits_of_lt_base hn, List.length_singleton]
    decide
  have hzero := hdigit 0 (by decide)
  have hone := hdigit 1 (by decide)
  cases s with
  | null | text s => cases hpart
  | action a => exact hreadable.elim
  | bool b =>
    simp only [Scalar.properties, List.mem_cons, Prod.mk.injEq, Value.scalar.injEq,
      List.not_mem_nil, or_false] at hpart
    cases b <;> rcases hpart with ⟨_, rfl⟩ | ⟨_, rfl⟩ | ⟨_, rfl⟩ | ⟨_, rfl⟩ <;> assumption
  | int n =>
    simp only [Scalar.properties, List.mem_cons, Prod.mk.injEq, Value.scalar.injEq,
      List.not_mem_nil, or_false] at hpart
    rcases hpart with ⟨_, rfl⟩ | ⟨_, rfl⟩ | ⟨_, rfl⟩ | ⟨_, rfl⟩ <;> assumption
  | float x =>
    simp only [Scalar.properties, List.mem_cons, Prod.mk.injEq, Value.scalar.injEq,
      List.not_mem_nil, or_false] at hpart
    rcases hpart with ⟨_, rfl⟩ | ⟨_, rfl⟩
    · exact hreadable
    · exact Binary64.isProper_zero

theorem IsReadable.property? (hreadable : datum.IsReadable) (key : String) :
    ((datum.property? key).getD .null).IsReadable := by
  cases hreadable with
  | @scalar s hscalar =>
    simp only [Datum.property?]
    split
    · next part hfound =>
      exact .scalar (isReadable_part hscalar (mem_of_lookup_eq_some hfound))
    · exact isReadable_null
  | list _ => exact isReadable_null
  | tuple _ => exact isReadable_null
  | @mapping fields hfields =>
    show ((fields.lookup key).getD .null).IsReadable
    cases hlookup : fields.lookup key with
    | none => exact isReadable_null
    | some found =>
      obtain ⟨before, after, rfl, _⟩ := List.lookup_eq_some_iff.mp hlookup
      exact hfields (key, found) (by simp)

theorem IsReadable.members (hreadable : datum.IsReadable) :
    ∀ member ∈ datum.members?.getD [], member.IsReadable := by
  cases hreadable with
  | @scalar s hscalar =>
    cases s with
    | text s =>
      intro member hmember
      obtain ⟨c, _, rfl⟩ := List.mem_map.mp hmember
      exact .scalar trivial
    | action a => exact hscalar.elim
    | _ => simp [members?, Scalar.text?]
  | list hitems => exact hitems
  | tuple hitems => exact hitems
  | mapping _ => simp [members?]

end Datum

/-- A value that stands for a scalar is that scalar, unless it is taken for null. -/
theorem Store.eq_of_toDatum {store : Store} {value : Value} {s : Scalar}
    (hscalar : store.toDatum value = .scalar s) : value = .scalar s ∨ s = .null := by
  cases value with
  | scalar t =>
    rw [toDatum_scalar] at hscalar
    exact Or.inl (congrArg Value.scalar (Datum.scalar.inj hscalar))
  | cell ref =>
    right
    unfold toDatum at hscalar
    cases hsize : store.size with
    | zero =>
      rw [hsize] at hscalar
      cases hscalar
      rfl
    | succ fuel =>
      rw [hsize, toDatumAt] at hscalar
      split at hscalar <;> cases hscalar
      rfl
  | function f =>
    right
    unfold toDatum at hscalar
    cases hsize : store.size <;> rw [hsize] at hscalar <;> cases hscalar <;> rfl

namespace Collect

/-- A value that stands for a document that can be read: the type that is found on
    it is read as it is written. -/
theorem isReadable_of_mem_foundOn {passes : Value → Bool} {base : Store} {lineage : List Value}
    {node : Value} (hstands : ∃ datum : Datum, datum.IsReadable ∧ datum.StandsAt base node)
    {finding : Finding} (hfinding : finding ∈ foundOn passes base lineage node) {type : Scalar}
    (htype : finding.type = .scalar type) : Json.IsReadable type := by
  obtain ⟨datum, hreadable, hstanding⟩ := hstands
  unfold foundOn at hfinding
  split at hfinding
  · obtain rfl := List.mem_singleton.mp hfinding
    rcases Store.eq_of_toDatum htype with hvalue | rfl
    · have hproperty := Datum.StandsAt.getD (hstanding.property? "type")
      have hread := hreadable.property? "type"
      rw [show (base.property? node "type").getD .null = .scalar type from hvalue] at hproperty
      generalize (datum.property? "type").getD .null = found at hproperty hread
      cases hread with
      | scalar hscalar =>
        cases hproperty.cases
        exact hscalar
      | list _ =>
        obtain ⟨_, hcell, _⟩ := hproperty.cases
        cases hcell
      | tuple _ =>
        obtain ⟨_, hcell, _⟩ := hproperty.cases
        cases hcell
      | mapping _ =>
        obtain ⟨_, hcell, _⟩ := hproperty.cases
        cases hcell
    · trivial
  · cases hfinding

/-- The children of a value that stands for a document that can be read stand for
    such documents too. -/
theorem members_stand {base : Store} {node : Value}
    (hstands : ∃ datum : Datum, datum.IsReadable ∧ datum.StandsAt base node) :
    ∀ value ∈ base.membersOf (base.children node),
      ∃ datum : Datum, datum.IsReadable ∧ datum.StandsAt base value := by
  obtain ⟨datum, hreadable, hstanding⟩ := hstands
  intro value hvalue
  have hmembers := hstanding.children.members
  obtain ⟨n, hn, rfl⟩ := List.getElem_of_mem hvalue
  have hother : n < (datum.children.members?.getD []).length := by
    rw [hmembers.length_eq]
    exact hn
  exact ⟨_, (hreadable.property? "children").members _ (List.getElem_mem hother),
    hmembers.get hother hn⟩

/-- The types that are found are among the scalars of the tree, and so are read as
    they are written if these are. The induction is on what there is to be found. -/
theorem Yields.isReadable {passes : Value → Bool} {maxDepth : Option Nat} {base : Store}
    {lineage values : List Value} {found : List Finding}
    (hyields : Yields passes maxDepth base lineage values found)
    (hstands : ∀ value ∈ values, ∃ datum : Datum, datum.IsReadable ∧ datum.StandsAt base value) :
    ∀ finding ∈ found, ∀ type, finding.type = .scalar type → Json.IsReadable type := by
  induction hyields with
  | nil => simp
  | gap _ ih => exact ih fun value hvalue => hstands value (List.mem_cons_of_mem _ hvalue)
  | stays _ _ _ _ ih =>
    obtain ⟨hfirst, hothers⟩ := List.forall_mem_cons.mp hstands
    exact List.forall_mem_append.mpr
      ⟨fun _ hfinding _ => isReadable_of_mem_foundOn hfirst hfinding, ih hothers⟩
  | enters _ _ _ _ _ _ _ ihbelow ih =>
    obtain ⟨hfirst, hothers⟩ := List.forall_mem_cons.mp hstands
    exact List.forall_mem_append.mpr ⟨List.forall_mem_append.mpr
      ⟨fun _ hfinding _ => isReadable_of_mem_foundOn hfirst hfinding, ihbelow (members_stand hfirst)⟩,
      ih hothers⟩

/-- The types that are found in a tree are read as they are written if its scalars
    are. -/
theorem run_isReadable {tree test : Datum}
    (htest : test = .null ∨ ∃ selector, Selector.parse selector = .ok test) (hnode : tree ≠ .null)
    (hreadable : tree.IsReadable) {config : Config} {findings : List Finding}
    (hfindings : (run tree test config).findings = .ok findings) :
    ∀ finding ∈ findings, ∀ type, finding.type = .scalar type → Json.IsReadable type := by
  rcases htree : tree.build .empty with ⟨root, holding⟩
  rcases hvalue : test.build holding with ⟨value, base⟩
  obtain ⟨check, himpartial, hreads⟩ := exists_impartial htest holding
  rw [hvalue] at hreads
  obtain ⟨passes, hdecides⟩ := exists_decides himpartial base
  obtain ⟨_, found, hyields, hperm⟩ :=
    run_reaps htree hvalue himpartial hreads hdecides hnode hfindings
  intro finding hfinding
  refine hyields.isReadable ?_ finding (hperm.mem_iff.mp hfinding)
  intro node hroot
  rw [List.mem_singleton.mp hroot]
  exact ⟨tree, hreadable, standsAt_of_build htree hvalue⟩

end Collect

namespace Json

/-- Scalars that are no texts are told apart by what they are written as. -/
theorem keyText_injective {a b : Scalar} (ha : IsReadable a) (hb : IsReadable b)
    (hnoText : a.text? = none) (hnoOther : b.text? = none) (hsame : keyText a = keyText b) :
    a = b := by
  have hread : ∀ s : Scalar, IsReadable s → s.text? = none →
      value 0 1 (keyText s).toList = .ok (.scalar s, []) := by
    intro s hs hother
    have hwritten := @value_writeScalar [] .full 0 s hs (by simp [EndsNumber]) 0
    rw [List.append_nil] at hwritten
    cases s with
    | text t => cases hother
    | action a => cases hother
    | _ => exact hwritten
  have hleft := hread a ha hnoText
  rw [hsame, hread b hb hnoOther] at hleft
  cases hleft
  rfl

end Json

namespace Tally

/-- The key of a tally in a document. -/
def key (tally : Tally) : String :=
  Json.keyText tally.type

/-- A type that is a text and spells, as a key, another type that is none. -/
def Clash (tallies : List Tally) : Prop :=
  ∃ tally ∈ tallies, ∃ other ∈ tallies, ∃ name, tally.type = .text name ∧ other.type.text? = none ∧
    other.key = name

variable {tallies : List Tally}

/-- The keys of different types differ unless a text spells another type. -/
theorem nodup_keys_iff (hdiffer : Differ tallies) (hcounted : AllOf Json.IsReadable tallies) :
    (tallies.map key).Nodup ↔ ¬Clash tallies := by
  constructor
  · rintro hnodup ⟨tally, htally, other, hother, name, htype, hnoText, hkey⟩
    have hsame : tally.key = other.key := by
      rw [hkey, key, htype]
      rfl
    have hequal := List.inj_on_of_nodup_map hnodup htally hother hsame
    rw [hequal] at htype
    rw [htype] at hnoText
    cases hnoText
  · intro hclash
    rw [List.Nodup, List.pairwise_map]
    refine hdiffer.imp_of_mem fun {a b} ha hb hcontent hsame => hcontent ?_
    have htext : ∀ tally ∈ tallies, tally.type.text? = none ∨ ∃ name, tally.type = .text name := by
      intro tally htally
      have hreadable := (hcounted tally htally).2
      cases htype : tally.type with
      | text name => exact Or.inr ⟨name, rfl⟩
      | action a =>
        rw [htype] at hreadable
        exact hreadable.elim
      | _ => exact Or.inl rfl
    rcases htext a ha with hnone | ⟨name, hname⟩ <;>
      rcases htext b hb with hother | ⟨another, hanother⟩
    · rw [Json.keyText_injective (hcounted a ha).2 (hcounted b hb).2 hnone hother hsame]
    · refine (hclash ⟨b, hb, a, ha, another, hanother, hnone, ?_⟩).elim
      rw [hsame, key, hanother]
      rfl
    · refine (hclash ⟨a, ha, b, hb, name, hname, hother, ?_⟩).elim
      rw [← hsame, key, hname]
      rfl
    · have hletters : name = another := by
        rw [key, key, hname, hanother] at hsame
        exact hsame
      rw [hname, hanother, hletters]

/-- The keys that tallies have in a document, with the counts. -/
def keyed (tallies : List Tally) : List (String × Nat) :=
  tallies.map fun tally => (tally.key, tally.count)

/-- Numbers under keys as a document. -/
def numbers (fields : List (String × Nat)) : Datum :=
  .mapping (fields.map fun field => (field.1, .int field.2))

theorem count_le_sum {tally : Tally} (hmem : tally ∈ tallies) :
    tally.count ≤ (tallies.map Tally.count).sum :=
  List.single_le_sum (fun _ _ => Nat.zero_le _) _ (List.mem_map_of_mem hmem)

/-- Of counts under one key reading a document keeps the last. -/
theorem parse_tabulated (hshort : (Nat.toDigits 10 (tallies.map Tally.count).sum).length ≤
    Numeral.maxDigits) :
    Json.parse (Command.tabulated .json tallies) = .ok (numbers (lastWritten (keyed tallies))) := by
  have hreadable : ∀ entry ∈ tallies.map fun tally => (tally.key, Scalar.int tally.count),
      Json.IsReadable entry.2 := by
    intro entry hentry
    obtain ⟨tally, htally, rfl⟩ := List.mem_map.mp hentry
    show (Nat.toDigits 10 tally.count).length ≤ Numeral.maxDigits
    rw [Nat.length_toDigits_le_iff (by decide) (by decide)] at hshort ⊢
    exact (count_le_sum htally).trans_lt hshort
  have hfields : Json.asFields (tallies.map fun tally => (tally.key, Scalar.int tally.count)) =
      (keyed tallies).map fun field => (field.1, Datum.int field.2) := by
    simp [Json.asFields, keyed]
  have hparse := @Json.parse_write (maxLevels - 1) .ascii _ hreadable
  rw [hfields, lastWritten_map fun n : Nat => Datum.int n] at hparse
  rw [Command.tabulated, numbers, ← hparse, keyed, List.map_map]
  rfl

end Tally

namespace Command

/-- A tree that can be loaded is a document that can be read. -/
theorem loadTree_isReadable {files : Files} {path : String} {tree : Datum}
    (htree : loadTree files path = .ok tree) : tree.IsReadable := by
  unfold loadTree at htree
  simp only at htree
  split at htree
  · cases htree
  · cases htree
  · next fields hread =>
    obtain ⟨content, _, hcontent⟩ := bind_eq_ok_iff.mp hread
    obtain ⟨text, _, hdocument⟩ := bind_eq_ok_iff.mp hcontent
    have hreadable : (Datum.mapping fields).IsReadable := by
      unfold Config.readDocument at hdocument
      split at hdocument
      · next hparse =>
        cases hdocument
        exact Json.isReadable_of_parse hparse
      all_goals cases hdocument
    split at htree
    · cases htree
      exact hreadable
    · cases htree
  · cases htree

section Decoding

variable {around : Surroundings} {arguments : List String} {settings : Settings} {config : Config}

/-- Counting to a document loses no finding unless the name of a type spells, as a
    key, another type that is no text. Only then are there two fields under one
    key, of which a reader keeps the last, so that the numbers it has do not add up
    to the number of findings. -/
theorem count_decoded (hasks : Asks around .count arguments settings config)
    (hformat : config.outputFormat = .json)
    (hexit : (runVerb around .count arguments).exit = 0) :
    ∃ tree test findings tallies,
      loadTree around.files settings.tree = .ok tree ∧ loadTest settings.test = .ok test ∧
      (Collect.run tree test config).findings = .ok findings ∧
      Tally.ofFindings findings = .ok tallies ∧
      (runVerb around .count arguments).stdout = tabulated .json tallies ∧
      (tallies.map Tally.count).sum = findings.length ∧
      ((tallies.map Tally.key).Nodup ↔ ¬Tally.Clash tallies) ∧
      (((lastWritten (Tally.keyed tallies)).map Prod.snd).sum = findings.length ↔
        ¬Tally.Clash tallies) ∧
      ((Nat.toDigits 10 findings.length).length ≤ Numeral.maxDigits →
        Json.parse (runVerb around .count arguments).stdout =
          .ok (Tally.numbers (lastWritten (Tally.keyed tallies)))) := by
  obtain ⟨tree, test, findings, htree, htest, hfindings, hprint⟩ := hasks.of_exit_zero hexit
  obtain ⟨tallies, htallies⟩ : ∃ tallies, Tally.ofFindings findings = .ok tallies := by
    cases htallies : Tally.ofFindings findings with
    | ok tallies => exact ⟨tallies, rfl⟩
    | error fault => simp [Verb.print, printCounts, htallies] at hprint
  have hreadable := Collect.run_isReadable (loadTest_cases htest) (loadTree_ne_null htree)
    (loadTree_isReadable htree) hfindings
  obtain ⟨hdiffer, hcounted, hsum⟩ := Tally.ofFindings_spec hreadable htallies
  have hkeys := Tally.nodup_keys_iff hdiffer hcounted
  have hstdout : (runVerb around .count arguments).stdout = tabulated .json tallies := by
    rw [hasks.count_printed htree htest hfindings htallies, hformat]
  refine ⟨tree, test, findings, tallies, htree, htest, hfindings, htallies, hstdout, hsum, hkeys, ?_,
    ?_⟩
  · have hpos : ∀ field ∈ Tally.keyed tallies, 0 < field.2 := by
      intro field hfield
      obtain ⟨tally, htally, rfl⟩ := List.mem_map.mp hfield
      exact (hcounted tally htally).1
    have hfirst : (Tally.keyed tallies).map Prod.fst = tallies.map Tally.key := by
      rw [Tally.keyed, List.map_map]
      rfl
    have hsecond : (Tally.keyed tallies).map Prod.snd = tallies.map Tally.count := by
      rw [Tally.keyed, List.map_map]
      rfl
    rw [← hkeys, ← hfirst, ← sum_lastWritten hpos, hsecond, hsum]
  · intro hshort
    rw [hstdout]
    exact Tally.parse_tabulated (hsum ▸ hshort)

end Decoding

section Documents

theorem asks_count (chars : List Char) : Asks (sameEverywhere chars) .count
    ["t.json", "--format", "json"] ⟨none, none, some "json", none, none, none, "t.json"⟩
    { outputFormat := .json } :=
  ⟨⟨{ values := [(.format, "json")], arguments := ["t.json"] }, rfl, rfl, rfl⟩, rfl⟩

/-- The counts of a tree with a gap and a leaf, read back. -/
theorem seedling_decoded :
    (runVerb (sameEverywhere seedling) .count ["t.json", "--format", "json"]).exit = 0 ∧
      ∃ tallies, (tallies.map Tally.key).Nodup ∧
        Json.parse (runVerb (sameEverywhere seedling) .count ["t.json", "--format", "json"]).stdout =
          .ok (Tally.numbers (lastWritten (Tally.keyed tallies))) ∧
        ((lastWritten (Tally.keyed tallies)).map Prod.snd).sum = 2 := by
  have htree : loadTree (sameEverywhere seedling).files "t.json" = .ok (.mapping
      [("type", .text "a"), ("children", .list [.null, .mapping [("type", .text "b")]])]) :=
    loadTree_sameEverywhere rfl (by cbv) rfl _
  have hfound : (Collect.run (.mapping [("type", .text "a"),
      ("children", .list [.null, .mapping [("type", .text "b")]])]) .null
      { outputFormat := .json }).findings =
        .ok [⟨.text "a", 0, [], .text "a"⟩, ⟨.text "b", 1, [.text "a"], .text "b"⟩] := rfl
  have hcountable : ∀ finding ∈ [Finding.mk (.text "a") 0 [] (.text "a"),
      ⟨.text "b", 1, [.text "a"], .text "b"⟩], finding.IsCountable := by
    simp [Finding.IsCountable, Scalar.content]
  obtain ⟨_, hcounted, _⟩ := Tally.exists_summary hcountable
  have hexit : (runVerb (sameEverywhere seedling) .count ["t.json", "--format", "json"]).exit = 0 := by
    rw [(asks_count seedling).count_printed htree rfl hfound hcounted]
  refine ⟨hexit, ?_⟩
  obtain ⟨tree, test, findings, tallies, hload, htest, hfindings, htallies, _, _, hkeys, hdecoded,
    hparse⟩ := count_decoded (asks_count seedling) rfl hexit
  obtain rfl : _ = tree := Except.ok.inj (htree.symm.trans hload)
  obtain rfl : .null = test := Except.ok.inj htest
  obtain rfl : _ = findings := Except.ok.inj (hfound.symm.trans hfindings)
  have htexts := (@Tally.ofFindings_spec _ _ (fun type => type.text?.isSome = true) (by simp [Scalar.text?])
    htallies).2.1
  have hclash : ¬Tally.Clash tallies := by
    rintro ⟨_, _, other, hother, _, _, hnone, _⟩
    have hsome : other.type.text?.isSome = true := (htexts other hother).2
    rw [hnone] at hsome
    cases hsome
  exact ⟨tallies, hkeys.mpr hclash, hparse (by decide), hdecoded.mpr hclash⟩

/-- A tree whose type is the word for null over a node without a type. -/
def unnamed : List Char :=
  "\x7b\"type\":\"null\",\"children\":[\x7b\x7d]\x7d".toList

/-- The two types of the tree are told apart as text but not as a document, from
    which one of the two findings is all that is read. -/
theorem unnamed_clash :
    ∃ tree findings, loadTree (sameEverywhere unnamed).files "t.json" = .ok tree ∧
      (Collect.run tree .null { outputFormat := .json }).findings = .ok findings ∧
      findings.length = 2 ∧
      runVerb (sameEverywhere unnamed) .count ["t.json"] = { stdout := "null\t1\nNone\t1\n" } ∧
      runVerb (sameEverywhere unnamed) .count ["t.json", "--format", "json"] =
        { stdout := "\x7b\n  \"null\": 1,\n  \"null\": 1\n\x7d\n" } ∧
      Json.parse "\x7b\n  \"null\": 1,\n  \"null\": 1\n\x7d\n" =
        .ok (.mapping [("null", .int 1)]) := by
  have htree : loadTree (sameEverywhere unnamed).files "t.json" = .ok (.mapping
      [("type", .text "null"), ("children", .list [.mapping []])]) :=
    loadTree_sameEverywhere rfl (by cbv) rfl _
  have hfound : ∀ format, (Collect.run (.mapping [("type", .text "null"),
      ("children", .list [.mapping []])]) .null { outputFormat := format }).findings =
        .ok [⟨.text "null", 0, [], .text "null"⟩, ⟨.null, 1, [.text "null"], .text "dict"⟩] :=
    fun _ => rfl
  have htallies : Tally.ofFindings [⟨.text "null", 0, [], .text "null"⟩,
      ⟨.null, 1, [.text "null"], .text "dict"⟩] = .ok [⟨.text "null", 1⟩, ⟨.null, 1⟩] := by
    have hranked : Tally.ranked [⟨.text "null", 1⟩, ⟨.null, 1⟩] = [⟨.text "null", 1⟩, ⟨.null, 1⟩] :=
      List.mergeSort_of_pairwise (by simp)
    rw [Tally.ofFindings]
    show Except.ok (Tally.ranked [⟨.text "null", 1⟩, ⟨.null, 1⟩]) = _
    rw [hranked]
  have hasks : Asks (sameEverywhere unnamed) .count ["t.json"]
      ⟨none, none, none, none, none, none, "t.json"⟩ {} :=
    ⟨⟨{ arguments := ["t.json"] }, rfl, rfl, rfl⟩, rfl⟩
  have hparse := @Tally.parse_tabulated [⟨.text "null", 1⟩, ⟨.null, 1⟩] (by decide)
  have hwritten : tabulated .json [⟨.text "null", 1⟩, ⟨.null, 1⟩] =
      "\x7b\n  \"null\": 1,\n  \"null\": 1\n\x7d\n" :=
    rfl
  have hlines : tabulated .text [⟨.text "null", 1⟩, ⟨.null, 1⟩] = "null\t1\nNone\t1\n" := by
    simp only [tabulated, List.map_cons, List.map_nil, outputLine]
    rw [Text.unstyled_eq (by decide), Text.unstyled_eq (by decide)]
    rfl
  refine ⟨_, _, htree, hfound .json, rfl, ?_, ?_, ?_⟩
  · rw [hasks.count_printed htree rfl (hfound .text) htallies, hlines]
    rfl
  · rw [(asks_count unnamed).count_printed htree rfl (hfound .json) htallies, hwritten]
    rfl
  · rw [hwritten] at hparse
    rw [hparse]
    rfl

end Documents

end Command

end Lineage
