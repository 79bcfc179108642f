import Lineage.Proofs.Json.Fields
import Lineage.Proofs.Json.Numbers

namespace Lineage

/-- A datum whose scalars are all read as they are written. -/
inductive Datum.IsReadable : Datum → Prop where
  | scalar {s : Scalar} (hscalar : Json.IsReadable s) : IsReadable (.scalar s)
  | list {items : List Datum} (hitems : ∀ item ∈ items, IsReadable item) : IsReadable (.list items)
  | tuple {items : List Datum} (hitems : ∀ item ∈ items, IsReadable item) :
      IsReadable (.tuple items)
  | mapping {fields : List (String × Datum)} (hfields : ∀ field ∈ fields, IsReadable field.2) :
      IsReadable (.mapping fields)

namespace Json

section Writing

variable {levels fuel : Nat} {fields : List (String × Datum)} {text chars rest after : List Char}
  {item : Datum}

/-- A field is read up to what follows its value. -/
theorem members_field (hbetween : Between text chars)
    (hitem : value levels fuel (skipBlanks rest) = .ok (item, after)) :
    members levels (fuel + 1) fields ('"' :: (text ++ '"' :: ':' :: rest)) =
      match skipBlanks after with
      | '\x7d' :: rest => .ok (setField (String.ofList chars) item fields, rest)
      | ',' :: rest => members levels fuel (setField (String.ofList chars) item fields) (skipBlanks rest)
      | rest => fail .comma rest := by
  have hcolon : skipBlanks (':' :: rest) = ':' :: rest := rfl
  rw [members, string_of_between hbetween]
  simp only [bind, Except.bind, hcolon, hitem]
  rfl

/-- Fields over scalars. -/
def asFields (entries : List (String × Scalar)) : List (String × Datum) :=
  entries.map fun entry => (entry.1, .scalar entry.2)

/-- The characters of a field over a scalar. -/
def fieldChars (charset : Charset) (entry : String × Scalar) : List Char :=
  '"' :: ((String.join (entry.1.toList.map (writeChar charset))).toList ++
    '"' :: ':' :: ' ' :: (writeScalar charset entry.2).toList)

theorem writeFields_asFields (charset : Charset) (entries : List (String × Scalar)) :
    (writeFields charset 1 (asFields entries)).map String.toList =
      entries.map (fieldChars charset) := by
  induction entries with
  | nil => rfl
  | cons entry rest ih =>
    rw [asFields, List.map_cons, writeFields, List.map_cons, List.map_cons]
    refine congrArg₂ List.cons ?_ ih
    simp [fieldChars, writeText, write]

/-- No value starts with a blank. -/
theorem skipBlanks_of_value {cs : List Char} {result : Datum × List Char}
    (hvalue : value levels (fuel + 1) cs = .ok result) : skipBlanks cs = cs := by
  cases cs with
  | nil => rfl
  | cons c others =>
    cases hblank : isBlank c with
    | false => simp [skipBlanks, hblank]
    | true =>
      have hnone : word? (c :: others) = none ∧ number (c :: others) = fail .value (c :: others) := by
        simp only [isBlank, Bool.or_eq_true, beq_iff_eq] at hblank
        rcases hblank with ((rfl | rfl) | rfl) | rfl <;> exact ⟨rfl, rfl⟩
      rw [value, hnone.1] at hvalue
      · rw [hnone.2] at hvalue
        cases hvalue
      all_goals
        rintro _ h
        cases h
        cases hblank

/-- A field over a scalar is read as it is written. -/
theorem members_entry (charset : Charset) {entry : String × Scalar} (hreadable : IsReadable entry.2)
    (hends : EndsNumber after) :
    members levels (fuel + 2) fields (fieldChars charset entry ++ after) =
      match skipBlanks after with
      | '\x7d' :: rest => .ok (setField entry.1 (.scalar entry.2) fields, rest)
      | ',' :: rest =>
        members levels (fuel + 1) (setField entry.1 (.scalar entry.2) fields) (skipBlanks rest)
      | rest => fail .comma rest := by
  have hitem := @value_writeScalar after charset levels entry.2 hreadable hends fuel
  have hskip : skipBlanks (' ' :: ((writeScalar charset entry.2).toList ++ after)) =
      (writeScalar charset entry.2).toList ++ after := skipBlanks_of_value hitem
  rw [← hskip] at hitem
  have hfield := @members_field levels (fuel + 1) fields _ _ _ _ _
    (between_writeChars charset entry.1.toList) hitem
  rw [String.ofList_toList] at hfield
  rw [← hfield]
  simp [fieldChars]

/-- The characters of fields over scalars, one to a line. -/
def fieldLines (charset : Charset) (entries : List (String × Scalar)) : List Char :=
  [',', '\n', ' ', ' '].intercalate (entries.map (fieldChars charset))

theorem fieldLines_cons_cons (charset : Charset) (entry next : String × Scalar)
    (others : List (String × Scalar)) :
    fieldLines charset (entry :: next :: others) =
      fieldChars charset entry ++ ',' :: '\n' :: ' ' :: ' ' :: fieldLines charset (next :: others) := by
  rw [fieldLines, List.map_cons, List.map_cons, List.intercalate_cons_cons, ← List.map_cons,
    ← fieldLines, List.append_assoc]
  rfl

theorem exists_fieldLines (charset : Charset) (entry : String × Scalar)
    (others : List (String × Scalar)) :
    ∃ chars, fieldLines charset (entry :: others) = '"' :: chars := by
  cases others with
  | nil => exact ⟨_, List.intercalate_singleton⟩
  | cons next rest => exact ⟨_, fieldLines_cons_cons charset entry next rest⟩

theorem length_fieldLines (charset : Charset) (entries : List (String × Scalar)) :
    entries.length ≤ (fieldLines charset entries).length := by
  induction entries with
  | nil => exact Nat.zero_le _
  | cons entry rest ih =>
    cases rest with
    | nil =>
      rw [fieldLines, List.map_singleton, List.intercalate_singleton]
      exact Nat.succ_le_succ (Nat.zero_le _)
    | cons next others =>
      rw [fieldLines_cons_cons, List.length_append, List.length_cons]
      simp only [List.length_cons] at ih ⊢
      omega

/-- Fields over scalars are read as they are written, after those read before.
    The induction is on the fields. -/
theorem members_fieldLines (charset : Charset) {entry : String × Scalar}
    {entries : List (String × Scalar)}
    (hreadable : ∀ other ∈ entry :: entries, IsReadable other.2) (rest : List Char)
    (hfuel : entries.length + 2 ≤ fuel) :
    members levels fuel fields (fieldLines charset (entry :: entries) ++ '\n' :: '\x7d' :: rest) =
      .ok (setFields (asFields (entry :: entries)) fields, rest) := by
  obtain ⟨fuel, rfl⟩ : ∃ less, fuel = less + 2 := ⟨fuel - 2, by omega⟩
  have hentry := hreadable entry List.mem_cons_self
  induction entries generalizing entry fields fuel with
  | nil =>
    rw [fieldLines, List.map_singleton, List.intercalate_singleton,
      members_entry charset hentry (by rintro _ ⟨⟩; decide)]
    rfl
  | cons next others ih =>
    rw [fieldLines_cons_cons, List.append_assoc,
      members_entry charset hentry (by rintro _ ⟨⟩; decide)]
    obtain ⟨fuel, rfl⟩ : ∃ less, fuel = less + 1 :=
      ⟨fuel - 1, by rw [List.length_cons] at hfuel; omega⟩
    have hothers := @ih (setField entry.1 (.scalar entry.2) fields) next
      (fun other hother => hreadable other (List.mem_cons_of_mem _ hother)) fuel
      (by rw [List.length_cons] at hfuel; omega)
      (hreadable next (List.mem_cons_of_mem _ List.mem_cons_self))
    obtain ⟨chars, hquote⟩ := exists_fieldLines charset next others
    rw [hquote] at hothers ⊢
    exact hothers

theorem toList_write (charset : Charset) (entry : String × Scalar)
    (entries : List (String × Scalar)) :
    (write charset 0 (.mapping (asFields (entry :: entries)))).toList =
      '\x7b' :: '\n' :: ' ' :: ' ' :: (fieldLines charset (entry :: entries) ++ ['\n', '\x7d']) := by
  have hparts := writeFields_asFields charset (entry :: entries)
  have hsome : (writeFields charset 1 (asFields (entry :: entries))).isEmpty = false := rfl
  have hline : (newline 1).toList = ['\n', ' ', ' '] := rfl
  have hend : (newline 0).toList = ['\n'] := rfl
  rw [write, enclosed, hsome]
  simp [String.toList_intercalate, hparts, hline, hend, fieldLines]

theorem value_brace {cs : List Char} (hquote : skipBlanks cs = '"' :: chars) :
    value (levels + 1) (fuel + 1) ('\x7b' :: cs) = (do
      let (fields, rest) ← members levels fuel [] ('"' :: chars)
      pure (.mapping fields, rest)) := by
  rw [value, hquote]
  rfl

theorem document_brace (cs : List Char) :
    document levels ('\x7b' :: cs) = (do
      let (datum, rest) ← value levels (2 * (cs.length + 1) + 1 + 1) ('\x7b' :: cs)
      match skipBlanks rest with
      | [] => pure datum
      | rest => fail .extra rest) :=
  rfl

/-- A mapping of scalars is read as it is written, but that of two fields with one
    key the later counts. -/
theorem parse_write (charset : Charset) {entries : List (String × Scalar)}
    (hreadable : ∀ entry ∈ entries, IsReadable entry.2) :
    parse (write charset 0 (.mapping (asFields entries)) ++ "\n") (levels + 1) =
      .ok (.mapping (lastWritten (asFields entries))) := by
  have hdocument : document (levels + 1) (write charset 0 (.mapping (asFields entries)) ++ "\n").toList =
      .ok (.mapping (lastWritten (asFields entries))) := by
    cases entries with
    | nil =>
      have hchars : (write charset 0 (.mapping (asFields [])) ++ "\n").toList =
          ['\x7b', '\x7d', '\n'] := by
        rw [asFields, List.map_nil, write, writeFields]
        rfl
      rw [hchars, document_brace, value]
      rfl
    | cons entry others =>
      obtain ⟨chars, hquote⟩ := exists_fieldLines charset entry others
      have hchars : (write charset 0 (.mapping (asFields (entry :: others))) ++ "\n").toList =
          '\x7b' :: '\n' :: ' ' :: ' ' :: '"' :: (chars ++ ['\n', '\x7d', '\n']) := by
        rw [String.toList_append, toList_write, hquote]
        simp
      have hmany := length_fieldLines charset (entry :: others)
      have hmembers := @members_fieldLines levels (2 * (chars.length + 8) + 1) [] charset entry others
        hreadable ['\n']
      rw [hquote] at hmany hmembers
      rw [List.length_cons, List.length_cons] at hmany
      have hread := hmembers (by omega)
      rw [List.cons_append] at hread
      have hlength : ('\n' :: ' ' :: ' ' :: '"' :: (chars ++ ['\n', '\x7d', '\n'])).length + 1 =
          chars.length + 8 := by simp
      rw [hchars, document_brace, hlength, value_brace rfl, hread, setFields_nil]
      rfl
  simp only [parse, hdocument]

end Writing

section Reading

variable {cs rest : List Char} {size : Scalar} {datum : Datum}

theorem ofDigits_lt {digits : List Nat} (hdigits : ∀ d ∈ digits, d < 10) :
    Numeral.ofDigits digits < 10 ^ digits.length := by
  induction digits using List.reverseRecOn with
  | nil => exact Nat.one_pos
  | append_singleton digits d ih =>
    obtain ⟨hearlier, hlast⟩ := List.forall_mem_append.mp hdigits
    have hless := ih hearlier
    have hd := hlast d (List.mem_singleton_self d)
    rw [Numeral.ofDigits] at hless ⊢
    rw [List.foldl_append, List.length_append, List.length_singleton, Nat.pow_succ]
    simp only [List.foldl_cons, List.foldl_nil]
    omega

/-- A number that is read can be written and read again, with either sign. -/
theorem isReadable_magnitude {whole fraction : List Char} {exponent : Option Int}
    (hsize : magnitude whole fraction exponent = .ok size) :
    IsReadable size ∧ IsReadable (negated size) := by
  unfold magnitude at hsize
  simp only at hsize
  split at hsize
  · next hwhole =>
    split at hsize
    · cases hsize
    · next hshort =>
      cases hsize
      obtain rfl : fraction = [] := by simpa using (Bool.and_eq_true_iff.mp hwhole).1
      have hdigits : ∀ d ∈ whole.filterMap Text.asciiDigit?, d < 10 := by
        intro d hd
        obtain ⟨c, _, hc⟩ := List.mem_filterMap.mp hd
        exact Text.asciiDigit?_lt hc
      have hless := ofDigits_lt hdigits
      have hcount := List.length_filterMap_le Text.asciiDigit? whole
      have hfew : (Nat.toDigits 10 (Numeral.ofDigits (whole.filterMap Text.asciiDigit?))).length ≤
          Numeral.maxDigits := by
        rw [Nat.length_toDigits_le_iff (by decide) (by decide)]
        exact hless.trans_le (Nat.pow_le_pow_right (by decide) (by omega))
      rw [List.append_nil]
      exact ⟨by simpa [IsReadable] using hfew, by simpa [IsReadable, negated] using hfew⟩
  · cases hsize
    exact ⟨Binary64.isProper_ofDecimal _ _, (Binary64.isProper_ofDecimal _ _).neg⟩

theorem isReadable_number (hread : number cs = .ok (datum, rest)) : datum.IsReadable := by
  unfold number at hread
  split at hread
  next negative unsigned _ =>
  split at hread
  · cases hread
  · next whole afterWhole _ =>
    obtain ⟨size, hsize, hdatum⟩ := bind_eq_ok_iff.mp hread
    obtain ⟨hplain, hsigned⟩ := isReadable_magnitude hsize
    cases hdatum
    split
    · exact .scalar hsigned
    · exact .scalar hplain

theorem isReadable_word (hword : word? cs = some (size, rest)) : IsReadable size := by
  obtain ⟨⟨chars, scalar⟩, hmem, hword⟩ := List.exists_of_findSome?_eq_some hword
  simp only at hword
  split at hword
  · obtain rfl : scalar = size := congrArg Prod.fst (Option.some.inj hword)
    simp only [words, List.mem_cons, List.not_mem_nil, or_false] at hmem
    rcases hmem with h | h | h | h | h | h <;> cases h <;> trivial
  · cases hword

theorem isReadable_setField {key : String} {fields : List (String × Datum)}
    (hdatum : datum.IsReadable) (hfields : ∀ field ∈ fields, field.2.IsReadable) :
    ∀ field ∈ setField key datum fields, field.2.IsReadable := by
  induction fields with
  | nil => simpa [setField] using hdatum
  | cons field others ih =>
    obtain ⟨hfield, hothers⟩ := List.forall_mem_cons.mp hfields
    rw [setField]
    split
    · exact List.forall_mem_cons.mpr ⟨hdatum, hothers⟩
    · exact List.forall_mem_cons.mpr ⟨hfield, ih hothers⟩

/-- What is read under a limit of the recursion can be written and read again. -/
structure ReadsReadable (fuel : Nat) : Prop where
  value : ∀ {levels cs datum rest}, value levels fuel cs = .ok (datum, rest) → datum.IsReadable
  elements : ∀ {levels cs items rest}, elements levels fuel cs = .ok (items, rest) →
    ∀ item ∈ items, item.IsReadable
  members : ∀ {levels fields cs later rest}, members levels fuel fields cs = .ok (later, rest) →
    (∀ field ∈ fields, field.2.IsReadable) → ∀ field ∈ later, field.2.IsReadable

section Step

variable {levels fuel : Nat} (hreads : ReadsReadable fuel)

include hreads

theorem ReadsReadable.value_succ (hvalue : Json.value levels (fuel + 1) cs = .ok (datum, rest)) :
    datum.IsReadable := by
  unfold Json.value at hvalue
  split at hvalue
  · obtain ⟨⟨text, after⟩, _, hdatum⟩ := bind_eq_ok_iff.mp hvalue
    cases hdatum
    exact .scalar trivial
  · split at hvalue
    · cases hvalue
    split at hvalue
    · cases hvalue
      exact .mapping (by simp)
    · obtain ⟨⟨fields, after⟩, hmembers, hdatum⟩ := bind_eq_ok_iff.mp hvalue
      cases hdatum
      exact .mapping (hreads.members hmembers (by simp))
  · split at hvalue
    · cases hvalue
    split at hvalue
    · cases hvalue
      exact .list (by simp)
    · obtain ⟨⟨items, after⟩, helements, hdatum⟩ := bind_eq_ok_iff.mp hvalue
      cases hdatum
      exact .list (hreads.elements helements)
  · split at hvalue
    · next hword =>
      cases hvalue
      exact .scalar (isReadable_word hword)
    · exact isReadable_number hvalue

theorem ReadsReadable.elements_succ {items : List Datum}
    (helements : Json.elements levels (fuel + 1) cs = .ok (items, rest)) :
    ∀ item ∈ items, item.IsReadable := by
  unfold Json.elements at helements
  obtain ⟨⟨item, after⟩, hitem, hnext⟩ := bind_eq_ok_iff.mp helements
  have hreadable := hreads.value hitem
  simp only at hnext
  split at hnext
  · cases hnext
    simpa using hreadable
  · obtain ⟨⟨others, final⟩, hothers, hitems⟩ := bind_eq_ok_iff.mp hnext
    cases hitems
    exact List.forall_mem_cons.mpr ⟨hreadable, hreads.elements hothers⟩
  · cases hnext

theorem ReadsReadable.members_succ {fields later : List (String × Datum)}
    (hmembers : Json.members levels (fuel + 1) fields cs = .ok (later, rest))
    (hfields : ∀ field ∈ fields, field.2.IsReadable) : ∀ field ∈ later, field.2.IsReadable := by
  unfold Json.members at hmembers
  split at hmembers
  · obtain ⟨⟨key, after⟩, _, hcolon⟩ := bind_eq_ok_iff.mp hmembers
    simp only at hcolon
    split at hcolon
    · obtain ⟨⟨item, final⟩, hitem, hnext⟩ := bind_eq_ok_iff.mp hcolon
      have hset := @isReadable_setField item key fields (hreads.value hitem) hfields
      simp only at hnext
      split at hnext
      · cases hnext
        exact hset
      · exact hreads.members hnext hset
      · cases hnext
    · cases hcolon
  · cases hmembers

end Step

theorem readsReadable (fuel : Nat) : ReadsReadable fuel := by
  induction fuel with
  | zero => exact ⟨nofun, nofun, nofun⟩
  | succ fuel ih => exact ⟨ih.value_succ, ih.elements_succ, ih.members_succ⟩

theorem isReadable_of_parse {s : String} {levels : Nat} (hparse : parse s levels = .ok datum) :
    datum.IsReadable := by
  unfold parse at hparse
  simp only at hparse
  split at hparse
  · next hdocument =>
    cases hparse
    unfold document at hdocument
    split at hdocument
    · cases hdocument
    · obtain ⟨⟨found, rest⟩, hvalue, hend⟩ := bind_eq_ok_iff.mp hdocument
      simp only at hend
      split at hend
      · cases hend
        exact (readsReadable _).value hvalue
      · cases hend
  · cases hparse
  · cases hparse
  · cases hparse

end Reading

end Json

end Lineage
