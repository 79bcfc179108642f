import Lineage.Command.Run
import Lineage.Proofs.Command.Collecting
import Lineage.Proofs.Json.Strings

namespace Lineage

/-- A datum that is a tree: a mapping with a text for its type and, if any, a
    list of children, each of which is null or again such a mapping. -/
inductive Datum.IsProper : Datum → Prop where
  | leaf {fields : List (String × Datum)} {type : String}
      (htype : fields.lookup "type" = some (.text type))
      (hchildren : fields.lookup "children" = none ∨ fields.lookup "children" = some .null) :
      IsProper (.mapping fields)
  | parent {fields : List (String × Datum)} {type : String} {items : List Datum}
      (htype : fields.lookup "type" = some (.text type))
      (hchildren : fields.lookup "children" = some (.list items))
      (hitems : ∀ item ∈ items, item ≠ .null → IsProper item) : IsProper (.mapping fields)

/-- A finding whose type and label are texts. -/
def Finding.IsPlain (finding : Finding) : Prop :=
  (∃ type, finding.type = .text type) ∧ ∃ label, finding.label = .text label

namespace Datum

variable {store : Store} {datum : Datum} {node : Value}

/-- A tree has a text for its type, which it shows where it stands. -/
theorem IsProper.typeOf (hproper : datum.IsProper) (hstands : datum.StandsAt store node) :
    ∃ type, store.typeOf node = .text type := by
  have hfield : ∃ type, datum.property? "type" = some (.text type) := by
    cases hproper with
    | leaf htype _ => exact ⟨_, htype⟩
    | parent htype _ _ => exact ⟨_, htype⟩
  obtain ⟨type, hfield⟩ := hfield
  have htype := StandsAt.getD (hstands.property? "type")
  rw [hfield] at htype
  exact ⟨type, htype.cases⟩

theorem children_mapping (fields : List (String × Datum)) :
    (mapping fields).children = (fields.lookup "children").getD .null :=
  rfl

end Datum

/-- The label of a node with a text for its type can be made, and is a text. -/
theorem Store.label_of_typeOf {store : Store} {node : Value} {type : String}
    (htype : store.typeOf node = .text type) :
    store.Describes node ∧ ∃ label, store.label node = .text label := by
  refine ⟨describe_of_canLabel (canLabel_of_text htype), ?_⟩
  unfold label head
  rw [htype]
  cases store.caption? node with
  | some caption => exact ⟨_, rfl⟩
  | none =>
    simp only
    split
    · exact ⟨type, rfl⟩
    · exact ⟨_, rfl⟩

theorem Store.toDatum_scalar (store : Store) (s : Scalar) :
    store.toDatum (.scalar s) = .scalar s := by
  unfold toDatum
  cases store.size <;> rfl

namespace Collect

/-- A part of collecting that leaves the store alone and finds texts only. -/
structure Harvest (base : Store) (world later : World (List Finding)) : Prop where
  store : later.store = base
  found : ∃ found, later.user = found ++ world.user ∧ ∀ finding ∈ found, finding.IsPlain

section Harvest

variable {base : Store} {world middle later : World (List Finding)}

theorem Harvest.refl (hstore : world.store = base) : Harvest base world world :=
  ⟨hstore, [], rfl, by simp⟩

theorem Harvest.trans (hfirst : Harvest base world middle) (hsecond : Harvest base middle later) :
    Harvest base world later := by
  obtain ⟨_, first, hmiddle, hplain⟩ := hfirst
  obtain ⟨hstore, second, hlater, hmore⟩ := hsecond
  refine ⟨hstore, second ++ first, ?_, List.forall_mem_append.mpr ⟨hmore, hplain⟩⟩
  rw [hlater, hmiddle, List.append_assoc]

end Harvest

section Trees

variable {check : Check} {config : Config} {base : Store} (himpartial : check.Impartial)

include himpartial

/-- Collecting at a node that is a tree finds texts. -/
theorem one_proper {datum : Datum} {place : Place} (hproper : datum.IsProper)
    (hstands : datum.StandsAt base place.node) (lineage : List Value)
    {world : World (List Finding)} (hstore : world.store = base) :
    ∃ later, (walker check config).one place lineage world =
        .ok (if isDeepest config.maxDepth lineage.length then .skip else {}) later ∧
      Harvest base world later := by
  obtain ⟨verdict, hverdict⟩ := himpartial base place.node hstands.isData hstands.hasData
  obtain ⟨type, htype⟩ := hproper.typeOf hstands
  obtain ⟨hdescribes, label, hlabel⟩ := Store.label_of_typeOf htype
  have hplain : (findingOn base place.node lineage).IsPlain := by
    refine ⟨⟨type, ?_⟩, ⟨label, ?_⟩⟩
    · show base.toDatum (base.typeOf place.node) = _
      rw [htype, Store.toDatum_scalar]
    · show base.toDatum (base.label place.node) = _
      rw [hlabel, Store.toDatum_scalar]
  subst hstore
  rcases @one_walker check config place lineage world verdict fun other world hnode hsame =>
      hverdict _ noHost other world hnode (by rw [hsame]; exact .refl _) with
    ⟨_, hone⟩ | ⟨⟨_, hunmade⟩, _⟩
  · refine ⟨_, hone, rfl, _, rfl, ?_⟩
    cases verdict <;> simp [hplain]
  · exact (hunmade hdescribes).elim

omit himpartial in
/-- Collecting gets past a gap, and past a node that it gets done with. -/
theorem sweeps_item {item : Datum} {lineage : List Value} {parent value : Value} {n : Nat}
    (hchild : base.childAt (base.children parent) (.int n) = .ok (some value))
    (hstands : item.StandsAt base value)
    (hvisit : item ≠ .null → ∀ (place : Place) (world : World (List Finding)),
      item.StandsAt base place.node → world.store = base →
      ∃ later, (walker check config).Completes lineage place world .null later ∧
        Harvest base world later)
    {world : World (List Finding)} (hstore : world.store = base) :
    ∃ later, (walker check config).Sweeps lineage parent n world
        (Walker.exitOf config.reverse n 1) later ∧ Harvest base world later := by
  have hnext : Walker.exitOf config.reverse n 1 = n + (walker check config).stride := by
    unfold Walker.exitOf Walker.stride walker
    cases config.reverse <;> simp; omega
  rw [hnext]
  have hreads : world.store.childAt (world.store.children parent) (.int n) = .ok (some value) := by
    rw [hstore, hchild]
  by_cases hgap : item = .null
  · subst hgap
    obtain rfl : value = .null := hstands.cases
    exact ⟨world, Walker.sweeps_gap hreads, .refl hstore⟩
  · obtain ⟨later, hcompletes, hharvest⟩ :=
      hvisit hgap ⟨value, .int n, parent⟩ world hstands hstore
    exact ⟨later, hcompletes.sweeps (hstands.ne_null hgap) hreads rfl, hharvest⟩

omit himpartial in
/-- Collecting gets past all members of a list, in either direction. The
    induction is on the members; those before them are only counted. -/
theorem sweeps_items {items : List Datum} {lineage : List Value} {parent : Value}
    {before values : List Value}
    (hlist : base.cell? (base.children parent) = some (.list (before ++ values)))
    (hstands : List.Forall₂ (Datum.StandsAt base) items values)
    (hvisits : ∀ item ∈ items, item ≠ .null → ∀ (place : Place) (world : World (List Finding)),
      item.StandsAt base place.node → world.store = base →
      ∃ later, (walker check config).Completes lineage place world .null later ∧
        Harvest base world later)
    {world : World (List Finding)} (hstore : world.store = base) :
    ∃ later, (walker check config).Sweeps lineage parent
        (Walker.entryOf config.reverse before.length values.length) world
        (Walker.exitOf config.reverse before.length values.length) later ∧
      Harvest base world later := by
  induction hstands generalizing before world with
  | nil =>
    refine ⟨world, ?_, .refl hstore⟩
    have hsame : Walker.entryOf config.reverse before.length 0 =
        Walker.exitOf config.reverse before.length 0 := by
      unfold Walker.entryOf Walker.exitOf
      split <;> simp
    rw [List.length_nil, hsame]
    exact .refl _ _ _ _ _
  | @cons item value items values hitem _ ih =>
    rw [List.forall_mem_cons] at hvisits
    have hchild := Store.childAt_middle hlist
    rw [List.append_cons] at hlist
    have hrest : ∀ {world : World (List Finding)}, world.store = base → _ :=
      fun hstore => ih hlist hvisits.2 hstore
    have hhere : ∀ {world : World (List Finding)}, world.store = base → _ :=
      fun hstore => sweeps_item hchild hitem hvisits.1 hstore
    rw [List.length_append, List.length_singleton] at hrest
    rw [List.length_cons]
    unfold Walker.entryOf Walker.exitOf at hrest hhere ⊢
    cases hreverse : config.reverse with
    | false =>
      simp only [hreverse, Bool.false_eq_true, if_false] at hrest hhere ⊢
      obtain ⟨middle, hfirst, hmiddle⟩ := hhere hstore
      obtain ⟨later, hothers, hlater⟩ := hrest hmiddle.store
      refine ⟨later, ?_, hmiddle.trans hlater⟩
      have hend : (before.length : Int) + (values.length + 1 : Nat) =
          ((before.length + 1 : Nat) : Int) + values.length := by omega
      rw [hend]
      exact hfirst.trans hothers
    | true =>
      simp only [hreverse, if_true] at hrest hhere ⊢
      obtain ⟨middle, hothers, hmiddle⟩ := hrest hstore
      obtain ⟨later, hlast, hlater⟩ := hhere hmiddle.store
      refine ⟨later, ?_, hmiddle.trans hlater⟩
      have hstart : (before.length : Int) + (values.length + 1 : Nat) - 1 =
          ((before.length + 1 : Nat) : Int) + values.length - 1 := by omega
      have hnext : ((before.length + 1 : Nat) : Int) - 1 = before.length := by omega
      rw [hnext] at hothers
      rw [hstart]
      exact hothers.trans hlast

/-- Collecting gets done with a tree that it does not enter. -/
theorem completes_unentered {datum : Datum} (hproper : datum.IsProper) {lineage : List Value}
    {place : Place} {world : World (List Finding)} (hstands : datum.StandsAt base place.node)
    (hstore : world.store = base)
    (hstay : base.children place.node = .null ∨ isDeepest config.maxDepth lineage.length = true) :
    ∃ later, (walker check config).Completes lineage place world .null later ∧
      Harvest base world later := by
  obtain ⟨later, hone, hharvest⟩ :=
    @one_proper check config base himpartial datum place hproper hstands lineage world hstore
  rw [← hharvest.store] at hstay
  exact ⟨later, ⟨0, fun _ _ => visitOne_unentered hone hstay⟩, hharvest⟩

/-- Collecting gets done with a tree wherever it is met, and finds texts. The
    induction follows the tree. -/
theorem completes_proper {datum : Datum} (hproper : datum.IsProper) : ∀ (lineage : List Value)
    (place : Place) (world : World (List Finding)),
    datum.StandsAt base place.node → world.store = base →
    ∃ later, (walker check config).Completes lineage place world .null later ∧
      Harvest base world later := by
  induction hproper with
  | leaf htype hchildren =>
    intro lineage place world hstands hstore
    have hnull : base.children place.node = .null := by
      have hleaf := hstands.children
      rw [Datum.children_mapping] at hleaf
      rcases hchildren with hchildren | hchildren
      · rw [hchildren] at hleaf
        exact hleaf.cases
      · rw [hchildren] at hleaf
        exact hleaf.cases
    exact completes_unentered himpartial (.leaf htype hchildren) hstands hstore (Or.inl hnull)
  | @parent fields type items htype hchildren hitems ih =>
    intro lineage place world hstands hstore
    have hproper : (Datum.mapping fields).IsProper := .parent htype hchildren hitems
    cases hdeepest : isDeepest config.maxDepth lineage.length with
    | true => exact completes_unentered himpartial hproper hstands hstore (Or.inr hdeepest)
    | false =>
      obtain ⟨entered, hone, hentered⟩ := @one_proper check config base himpartial _ place hproper
        hstands lineage world hstore
      rw [hdeepest] at hone
      have hlist := hstands.children
      rw [Datum.children_mapping, hchildren, Option.getD_some] at hlist
      obtain ⟨values, hvalues, hmembers⟩ := hlist.cases
      obtain ⟨later, hsweeps, hharvest⟩ := @sweeps_items check config base items
        (place.node :: lineage) place.node [] values hvalues hmembers
        (fun item hitem hnode => ih item hitem hnode _) entered hentered.store
      refine ⟨later, ?_, hentered.trans hharvest⟩
      have hcell : entered.store.cell? (entered.store.children place.node) =
          some (.list values) := by
        rw [hentered.store, hvalues]
      have hlater : later.store.cell? (later.store.children place.node) = some (.list values) := by
        rw [hharvest.store, hvalues]
      refine hsweeps.completes hone (by simp) (by simp) (Store.ne_null_of_list hcell) ?_
        (Walker.childAt_exitOf hlater config.reverse)
      rw [Walker.startOf_list hcell]
      unfold Walker.entryOf walker
      cases config.reverse <;> simp

end Trees

/-- Collecting from a tree succeeds and finds texts, whatever else is in it. -/
theorem run_proper {tree test : Datum} (hproper : tree.IsProper)
    (htest : test = .null ∨ ∃ selector, Selector.parse selector = .ok test) (config : Config) :
    ∃ findings, (run tree test config).findings = .ok findings ∧
      ∀ finding ∈ findings, finding.IsPlain := by
  rcases htree : tree.build .empty with ⟨root, holding⟩
  rcases hvalue : test.build holding with ⟨value, base⟩
  obtain ⟨check, himpartial, hreads⟩ := exists_impartial htest holding
  rw [hvalue] at hreads
  have hstands := standsAt_of_build htree hvalue
  obtain ⟨type, htype⟩ := hproper.typeOf hstands
  obtain ⟨message, hannounce⟩ := @Walker.announce_tells _ (walker check config) root ⟨base, [], []⟩
    (Store.canLabel_of_text htype)
  obtain ⟨later, hcompletes, _, found, hfound, hplain⟩ :=
    completes_proper himpartial hproper [] { node := root } (World.told ⟨base, [], []⟩ message)
      hstands rfl
  obtain ⟨fuel, close, hwalk⟩ := Walker.walk_of_completes hannounce hcompletes
  refine ⟨found.reverse, ?_, fun finding hfinding => hplain finding (List.mem_reverse.mp hfinding)⟩
  rw [run_eq himpartial htree hvalue hreads (hwalk 0)]
  show Except.ok later.user.reverse = _
  rw [hfound]
  exact congrArg (fun user => Except.ok user.reverse) (List.append_nil found)

end Collect

/-- Types that are scalars can be counted. -/
theorem Tally.addAll_scalars {types : List Datum} (hscalars : ∀ type ∈ types, ∃ s, type = .scalar s)
    (tallies : List Tally) : ∃ counted, Tally.addAll tallies types = .ok counted := by
  induction types generalizing tallies with
  | nil => exact ⟨tallies, rfl⟩
  | cons type rest ih =>
    rw [List.forall_mem_cons] at hscalars
    obtain ⟨⟨s, rfl⟩, hrest⟩ := hscalars
    exact ih hrest (Tally.add s tallies)

namespace Json

theorem number_ones {n : Nat} (hn : Numeral.maxDigits < n) (rest : List Char) :
    number (List.replicate n '1' ++ '\x7d' :: rest) = .error (.longInteger n) := by
  obtain ⟨n, rfl⟩ : ∃ less, n = less + 1 := ⟨n - 1, by omega⟩
  have hones : ∀ c ∈ List.replicate n '1', c.isDigit = true := by
    intro c hc
    rw [List.eq_of_mem_replicate hc]
    rfl
  have hpart : integerPart ('1' :: (List.replicate n '1' ++ '\x7d' :: rest)) =
      some ('1' :: List.replicate n '1', '\x7d' :: rest) := by
    have htake : (List.replicate n '1' ++ '\x7d' :: rest).takeWhile Char.isDigit =
        List.replicate n '1' := by
      rw [List.takeWhile_append_of_pos hones]
      exact List.append_nil _
    have hdrop : (List.replicate n '1' ++ '\x7d' :: rest).dropWhile Char.isDigit = '\x7d' :: rest := by
      rw [List.dropWhile_append_of_pos hones]
      rfl
    show some (_ :: List.takeWhile _ _, List.dropWhile _ _) = _
    rw [htake, hdrop]
  have hsize : magnitude ('1' :: List.replicate n '1') [] none = .error (.longInteger (n + 1)) := by
    simp [magnitude, hn, throw, throwThe, MonadExceptOf.throw]
  rw [List.replicate_succ, List.cons_append]
  simp [number, hpart, fractionPart, exponentPart, hsize, bind, Except.bind]

/-- Whether every escape of half a surrogate pair among the characters has the
    other half beside it. The number counts the characters that may still be
    looked at. -/
def isPairedFrom : Nat → List Char → Bool
  | 0, _ => true
  | fuel + 1, '\\' :: 'u' :: rest =>
    match hex4 rest with
    | none => isPairedFrom fuel rest
    | some (code, rest) =>
      if isHighSurrogate code then
        match lowAfter? rest with
        | none => false
        | some (_, rest) => isPairedFrom fuel rest
      else !isLowSurrogate code && isPairedFrom fuel rest
  | fuel + 1, '\\' :: _ :: rest => isPairedFrom fuel rest
  | fuel + 1, _ :: rest => isPairedFrom fuel rest
  | _, [] => true

/-- Whether the strings of a document are made of characters: no escape in it
    is half a surrogate pair on its own. -/
def isPaired (text : String) : Bool :=
  isPairedFrom text.length text.toList

/-- A character that stands for itself in a string. -/
def isPlain (c : Char) : Bool :=
  c ≠ '"' && c ≠ '\\' && 0x1F < c.toNat

theorem string_plain {text : List Char} (hplain : text.all isPlain = true) (rest : List Char) :
    string (text ++ '"' :: rest) = .ok (String.ofList text, rest) := by
  have hbetween : Between text text := by
    induction text with
    | nil => exact .nil
    | cons c text ih =>
      simp only [List.all_cons, Bool.and_eq_true, isPlain, decide_eq_true_eq] at hplain
      obtain ⟨⟨⟨hquote, hescape⟩, hcontrol⟩, hrest⟩ := hplain
      exact .plain hquote hescape hcontrol (ih hrest)
  have hbody := stringBody_of_between hbetween ((text ++ '"' :: rest).length + 1) rest
    (show text.length < (text ++ '"' :: rest).length + 1 by rw [List.length_append]; omega)
  unfold string
  rw [hbody]
  rfl

section Members

variable {levels fuel : Nat} {fields : List (String × Datum)} {key rest after : List Char}
  {item : Datum} {stop : Stop} (hplain : key.all isPlain = true)

include hplain

/-- A field with a comma after it is followed by the others. -/
theorem members_of_comma (hitem : value levels fuel (skipBlanks rest) = .ok (item, ',' :: after)) :
    members levels (fuel + 1) fields ('"' :: (key ++ '"' :: ':' :: rest)) =
      members levels fuel (setField (String.ofList key) item fields) (skipBlanks after) := by
  have hcolon : skipBlanks (':' :: rest) = ':' :: rest := rfl
  have hcomma : skipBlanks (',' :: after) = ',' :: after := rfl
  rw [members, string_plain hplain]
  simp only [bind, Except.bind, hcolon, hitem, hcomma]

/-- A field whose value cannot be read is the last one. -/
theorem members_of_stop (hitem : value levels fuel (skipBlanks rest) = .error stop) :
    members levels (fuel + 1) fields ('"' :: (key ++ '"' :: ':' :: rest)) = .error stop := by
  have hcolon : skipBlanks (':' :: rest) = ':' :: rest := rfl
  rw [members, string_plain hplain]
  simp only [bind, Except.bind, hcolon, hitem]

end Members

end Json

namespace Command

section Printing

variable {findings : List Finding} (hplain : ∀ finding ∈ findings, finding.IsPlain)

include hplain

theorem printLabels_plain : (printLabels findings).fault = none := by
  induction findings with
  | nil => rfl
  | cons finding rest ih =>
    rw [List.forall_mem_cons] at hplain
    obtain ⟨⟨_, label, hlabel⟩, hrest⟩ := hplain
    unfold printLabels
    rw [hlabel]
    exact ih hrest

theorem printCounts_plain (format : Config.Format) :
    (printCounts format findings).fault = none := by
  have hscalars : ∀ type ∈ findings.map Finding.type, ∃ s, type = .scalar s := by
    intro type hmem
    obtain ⟨finding, hfinding, rfl⟩ := List.mem_map.mp hmem
    obtain ⟨⟨type, htype⟩, _⟩ := hplain finding hfinding
    exact ⟨_, htype⟩
  obtain ⟨counted, hcounted⟩ := Tally.addAll_scalars hscalars []
  have htallies : Tally.ofFindings findings = .ok (Tally.ranked counted) := by
    unfold Tally.ofFindings
    rw [hcounted]
    rfl
  unfold printCounts
  rw [htallies]
  cases format <;> rfl

/-- Findings that are texts can be printed by both commands in both formats. -/
theorem print_plain (verb : Verb) (format : Config.Format) :
    (verb.print format findings).fault = none := by
  cases verb with
  | walk =>
    cases format with
    | json => rfl
    | text => exact printLabels_plain hplain
  | count => exact printCounts_plain hplain format

end Printing

/-- A selector that is accepted, or none, gives a test that can be collected
    by. -/
theorem loadTest_cases {selector : Option String} {test : Datum}
    (hload : loadTest selector = .ok test) :
    test = .null ∨ ∃ written, Selector.parse written = .ok test := by
  unfold loadTest at hload
  split at hload
  · cases hload
    exact Or.inl rfl
  · next written =>
    split at hload
    · cases hload
      exact Or.inl rfl
    · split at hload
      · next found hparse =>
        cases hload
        exact Or.inr ⟨written, hparse⟩
      · cases hload

section Documents

variable {text : String} {levels : Nat}

theorem readDocument_of_long {digits : Nat}
    (hparse : Json.parse text levels = .error (.longInteger digits)) :
    Config.readDocument text levels = .error (.of (.longInteger digits)) := by
  unfold Config.readDocument
  rw [hparse]
  rfl

theorem readDocument_of_deep {descending : Descending}
    (hparse : Json.parse text levels = .error (.tooDeep descending)) :
    Config.readDocument text levels = .error (.of (.tooDeep descending)) := by
  unfold Config.readDocument
  rw [hparse]
  rfl

end Documents

section Loading

variable {files : Files} {path text : String} {bytes : List UInt8} {levels : Nat}
  (hfile : files (normalPath path) = .file bytes) (htext : Config.readTextFile bytes = .ok text)

include hfile htext

theorem loadTree_of_parse {tree : Datum} (hparse : Json.parse text levels = .ok tree)
    (hproper : tree.IsProper) : loadTree files path levels = .ok tree := by
  have hbytes : bytesAt files (normalPath path) = .ok (some bytes) := by
    unfold bytesAt
    rw [hfile]
    rfl
  have hdocument : Config.readDocument text levels = .ok (.ok tree) := by
    unfold Config.readDocument
    rw [hparse]
    rfl
  have htyped : ∃ fields, tree = .mapping fields ∧ (fields.lookup "type").isSome = true := by
    cases hproper with
    | leaf htype _ => exact ⟨_, rfl, by rw [htype]; rfl⟩
    | parent htype _ _ => exact ⟨_, rfl, by rw [htype]; rfl⟩
  obtain ⟨fields, rfl, htype⟩ := htyped
  simp only [loadTree, hbytes, bind, Except.bind, Option.getD_some, htext, hdocument, htype]
  rfl

/-- A document that cannot be read for another reason than its form is not
    refused but fails. -/
theorem loadTree_of_fault {fault : Fault}
    (hdocument : Config.readDocument text levels = .error fault) :
    loadTree files path levels = .error (.fault fault) := by
  have hbytes : bytesAt files (normalPath path) = .ok (some bytes) := by
    unfold bytesAt
    rw [hfile]
    rfl
  simp only [loadTree, hbytes, bind, Except.bind, Option.getD_some, htext, hdocument]
  rfl

end Loading

/-- A tree that cannot be loaded stops a command that is otherwise in order. -/
theorem runVerb_of_loadTree_error {around : Surroundings} {verb : Verb} {arguments : List String}
    {words : Words} (hwords : Words.of (.command verb) arguments = .ok words)
    (hhelp : words.help = false) {settings : Settings}
    (hsettings : Settings.ofWords around.files words = .ok settings) {levels : Nat}
    {config : Config} (hconfig : settings.resolve around.files levels = .ok config) {stop : Stop}
    (htree : loadTree around.files settings.tree levels = .error stop) :
    runVerb around verb arguments levels = stop.outcome around (.command verb) := by
  simp only [runVerb, hwords, hhelp, Bool.false_eq_true, if_false, hsettings, execute, bind,
    Except.bind, hconfig, htree]

section Documents

/-- A tree with an integer of so many digits. -/
def longhand (digits : Nat) : List Char :=
  '\x7b' :: '"' :: (['t', 'y', 'p', 'e'] ++ '"' :: ':' :: '"' :: (['a'] ++ '"' :: ',' :: '"' ::
    (['n'] ++ '"' :: ':' :: (List.replicate digits '1' ++ ['\x7d']))))

theorem parse_longhand {n : Nat} (hn : Numeral.maxDigits < n) (levels : Nat) :
    Json.parse (String.ofList (longhand n)) (levels + 1) = .error (.longInteger n) := by
  obtain ⟨fuel, hfuel⟩ : ∃ fuel, 2 * (longhand n).length + 2 = fuel + 4 :=
    ⟨2 * (longhand n).length - 2, by simp only [longhand, List.length_cons]; omega⟩
  obtain ⟨rest, hones⟩ : ∃ rest, List.replicate n '1' ++ ['\x7d'] = '1' :: rest := by
    obtain ⟨less, rfl⟩ : ∃ less, n = less + 1 := ⟨n - 1, by omega⟩
    exact ⟨_, rfl⟩
  have hnumber := Json.number_ones hn []
  have hlast : Json.value levels (fuel + 1) ('1' :: rest) = .error (.longInteger n) := by
    rw [hones] at hnumber
    simp only [Json.value, hnumber, Json.word?]
    rfl
  have hname : Json.value levels (fuel + 2) (Json.skipBlanks ('"' :: (['a'] ++ '"' :: ',' :: '"' ::
      (['n'] ++ '"' :: ':' :: '1' :: rest)))) = .ok (.text "a", ',' :: '"' ::
        (['n'] ++ '"' :: ':' :: '1' :: rest)) := by
    show Json.value levels (fuel + 2) ('"' :: _) = _
    rw [Json.value, Json.string_plain rfl]
    rfl
  have hwhole : Json.value (levels + 1) (fuel + 4) (longhand n) = .error (.longInteger n) := by
    unfold longhand
    rw [hones, Json.value]
    show (Json.members levels (fuel + 3) [] _ >>= _) = _
    rw [Json.members_of_comma rfl hname]
    show (Json.members levels (fuel + 2) _ ('"' :: (['n'] ++ '"' :: ':' :: '1' :: rest)) >>= _) = _
    rw [Json.members_of_stop rfl hlast]
    rfl
  have hdocument : Json.document (levels + 1) (longhand n) = .error (.longInteger n) := by
    show (Json.value (levels + 1) (2 * (longhand n).length + 2) (longhand n) >>= _) = _
    rw [hfuel, hwhole]
    rfl
  simp only [Json.parse, String.toList_ofList, hdocument]

/-- The bytes of characters that take up one byte each. -/
def asciiBytes (chars : List Char) : List UInt8 :=
  chars.map fun c => c.toNat.toUInt8

/-- A character that takes up one byte and is not changed as a line end. -/
def isSimple (c : Char) : Bool :=
  c.toNat < 0x80 && c ≠ '\r'

theorem decodeFrom_ascii {chars : List Char} (hsimple : chars.all isSimple = true)
    (position : Nat) : Text.decodeFrom position (asciiBytes chars) = .ok chars := by
  induction chars generalizing position with
  | nil => rfl
  | cons c rest ih =>
    simp only [List.all_cons, Bool.and_eq_true, isSimple, decide_eq_true_eq] at hsimple
    obtain ⟨⟨hascii, _⟩, hrest⟩ := hsimple
    have hbyte : c.toNat.toUInt8.toNat = c.toNat := by
      simp
      omega
    have hsmall : c.toNat.toUInt8 < 0x80 := by
      rw [UInt8.lt_iff_toNat_lt, hbyte]
      exact hascii
    show Text.decodeFrom position (c.toNat.toUInt8 :: asciiBytes rest) = _
    rw [Text.decodeFrom.eq_def]
    simp only [hsmall, if_true, ih hrest, bind, Except.bind, hbyte, Char.ofNat_toNat]
    rfl

theorem unifyNewlines_eq {chars : List Char} (hsimple : chars.all isSimple = true) :
    Text.unifyNewlines chars = chars := by
  induction chars with
  | nil => rfl
  | cons c rest ih =>
    simp only [List.all_cons, Bool.and_eq_true, isSimple, decide_eq_true_eq] at hsimple
    obtain ⟨⟨_, hreturn⟩, hrest⟩ := hsimple
    simp [Text.unifyNewlines, hreturn, ih hrest]

theorem readTextFile_ascii {chars : List Char} (hsimple : chars.all isSimple = true) :
    Config.readTextFile (asciiBytes chars) = .ok (String.ofList chars) := by
  unfold Config.readTextFile Text.decode
  rw [decodeFrom_ascii hsimple]
  show Except.ok (String.ofList (Text.unifyNewlines (String.ofList chars).toList)) = _
  rw [String.toList_ofList, unifyNewlines_eq hsimple]

/-- A directory in which every file has such bytes. -/
def sameEverywhere (chars : List Char) : Surroundings :=
  ⟨"visit-parents", .int 0, fun _ => .file (asciiBytes chars)⟩

/-- A tree with a gap and a leaf. -/
def seedling : List Char :=
  "\x7b\"type\":\"a\",\"children\":[null,\x7b\"type\":\"b\"\x7d]\x7d".toList

end Documents

/-- Both commands succeed on every tree, in both formats and directions, with
    every selector that is accepted and all options and configurations that are
    valid, provided that the document can be read at all and that its texts can be
    printed. One that cannot be read because of an integer with too many digits, or
    because it nests deeper than the interpreter may go, makes them fail. -/
theorem proper_tree_succeeds (around : Surroundings) (verb : Verb) (arguments : List String)
    {words : Words} (hwords : Words.of (.command verb) arguments = .ok words)
    (hhelp : words.help = false) {settings : Settings}
    (hsettings : Settings.ofWords around.files words = .ok settings) {levels : Nat}
    {config : Config} (hconfig : settings.resolve around.files levels = .ok config) {test : Datum}
    (htest : loadTest settings.test = .ok test) {bytes : List UInt8}
    (hfile : around.files (normalPath settings.tree) = .file bytes) {text : String}
    (htext : Config.readTextFile bytes = .ok text) :
    (∀ tree, Json.parse text levels = .ok tree → tree.IsProper → Json.isPaired text = true →
      ∃ findings, (Collect.run tree test config).findings = .ok findings ∧
        runVerb around verb arguments levels =
          { exit := 0
            stdout := (verb.print config.outputFormat findings).text
            stderr := String.join ((Log.linesFrom around.time config.logLevel.level
              (Collect.run tree test config).journal).map (· ++ "\n"))
            fault := none }) ∧
    (∀ digits, Json.parse text levels = .error (.longInteger digits) →
      runVerb around verb arguments levels =
        { exit := 1, fault := some (.of (.longInteger digits)) }) ∧
    ∀ descending, Json.parse text levels = .error (.tooDeep descending) →
      runVerb around verb arguments levels =
        { exit := 1, fault := some (.of (.tooDeep descending)) } := by
  have hfails : ∀ {fault : Fault}, Config.readDocument text levels = .error fault →
      runVerb around verb arguments levels = { exit := 1, fault := some fault } :=
    fun hdocument => runVerb_of_loadTree_error hwords hhelp hsettings hconfig
      (loadTree_of_fault hfile htext hdocument)
  refine ⟨?_, fun digits hparse => hfails (readDocument_of_long hparse),
    fun descending hparse => hfails (readDocument_of_deep hparse)⟩
  intro tree hparse hproper _
  obtain ⟨findings, hfindings, hplain⟩ :=
    Collect.run_proper hproper (loadTest_cases htest) config
  refine ⟨findings, hfindings, ?_⟩
  have htree := loadTree_of_parse hfile htext hparse hproper
  have hprinted := print_plain hplain verb config.outputFormat
  simp only [runVerb, hwords, hhelp, Bool.false_eq_true, if_false, hsettings, execute, bind,
    Except.bind, hconfig, htree, htest, hfindings, hprinted]
  rfl

/-- Counting the types of a tree with a gap and a leaf succeeds. -/
theorem seedling_counted :
    (runVerb (sameEverywhere seedling) .count ["t.json", "--format", "json"]).exit = 0 ∧
      (runVerb (sameEverywhere seedling) .count ["t.json", "--format", "json"]).fault = none := by
  let tree : Datum := .mapping [("type", .text "a"),
    ("children", .list [.null, .mapping [("type", .text "b")]])]
  have hparse : Json.parse (String.ofList seedling) = .ok tree := by cbv
  have hproper : tree.IsProper := by
    refine .parent rfl rfl ?_
    intro item hitem hnode
    rcases List.mem_cons.mp hitem with rfl | hitem
    · exact (hnode rfl).elim
    · rw [List.mem_singleton.mp hitem]
      exact .leaf rfl (Or.inl rfl)
  have hwords : Words.of (.command .count) ["t.json", "--format", "json"] =
      .ok { values := [(.format, "json")], arguments := ["t.json"] } := by
    rfl
  have hsettings : Settings.ofWords (sameEverywhere seedling).files
      { values := [(.format, "json")], arguments := ["t.json"] } =
        .ok ⟨none, none, some "json", none, none, none, "t.json"⟩ := by
    rfl
  have hconfig : Settings.resolve (sameEverywhere seedling).files
      ⟨none, none, some "json", none, none, none, "t.json"⟩ = .ok { outputFormat := .json } := by
    rfl
  obtain ⟨findings, _, hrun⟩ := (proper_tree_succeeds (sameEverywhere seedling) .count
    ["t.json", "--format", "json"] hwords rfl hsettings hconfig rfl rfl
    (readTextFile_ascii rfl)).1 tree hparse hproper (by decide)
  rw [hrun]
  exact ⟨rfl, rfl⟩

/-- An integer of one digit too many makes a command fail. -/
theorem longhand_fails :
    runVerb (sameEverywhere (longhand 4301)) .walk ["t.json"] =
      { exit := 1, fault := some (.of (.longInteger 4301)) } := by
  have hsimple : (longhand 4301).all isSimple = true := by
    unfold longhand
    have hones : (List.replicate 4301 '1').all isSimple = true := by
      rw [List.all_replicate]
      rfl
    simp only [List.all_cons, List.all_append, hones]
    rfl
  have hwords : Words.of (.command .walk) ["t.json"] = .ok { arguments := ["t.json"] } := by
    rfl
  have hsettings : Settings.ofWords (sameEverywhere (longhand 4301)).files
      { arguments := ["t.json"] } = .ok ⟨none, none, none, none, none, none, "t.json"⟩ := by
    rfl
  have hconfig : Settings.resolve (sameEverywhere (longhand 4301)).files
      ⟨none, none, none, none, none, none, "t.json"⟩ = .ok {} := by
    rfl
  have htree : loadTree (sameEverywhere (longhand 4301)).files "t.json" =
      .error (.fault (.of (.longInteger 4301))) :=
    loadTree_of_fault rfl (readTextFile_ascii hsimple)
      (readDocument_of_long (parse_longhand (by decide) _))
  exact runVerb_of_loadTree_error hwords rfl hsettings hconfig htree

end Command

end Lineage
