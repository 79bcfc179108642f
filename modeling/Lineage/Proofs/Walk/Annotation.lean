import Lineage.Proofs.Walk.Consultation
import Lineage.Visit

namespace Lineage

/-- The characters of a value that is a text. -/
def Value.text? : Value → Option String
  | .scalar s => s.text?
  | _ => none

/-- A node whose label can be made and is a text. -/
def Store.IsTold (store : Store) (node : Value) : Prop :=
  ((store.describe node).toOption.bind Value.text?).isSome

section Labels

variable (store : Store)

/-- Labels are joined unless one of them is no text, the first of which is to
    blame. -/
theorem joinLabels_eq (labels : List Value) :
    joinLabels store labels =
      (labels.zipIdx.find? fun pair => pair.1.text?.isNone).elim
        (.ok (" > ".intercalate (labels.filterMap Value.text?)))
        fun pair => .error (.of (.labelNotText pair.2 (store.kind pair.1))) := by
  have hbad : ∀ bad : Value × Nat → Bool, (∀ pair, bad pair = pair.1.text?.isNone) →
      labels.zipIdx.find? bad = labels.zipIdx.find? fun pair => pair.1.text?.isNone := by
    intro bad hsame
    rw [funext hsame]
  have htext : ∀ text : Value → Option String, (∀ label, text label = label.text?) →
      labels.filterMap text = labels.filterMap Value.text? := by
    intro text hsame
    rw [funext hsame]
  unfold joinLabels
  rw [hbad _ (by rintro ⟨label, _⟩; cases label <;> rfl), htext _ (by rintro ⟨⟩ <;> rfl)]
  cases labels.zipIdx.find? fun pair => pair.1.text?.isNone <;> rfl

theorem find?_texts {labels : List Value} (htexts : ∀ label ∈ labels, label.text?.isSome) :
    labels.zipIdx.find? (fun pair => pair.1.text?.isNone) = none := by
  rw [List.find?_eq_none]
  intro pair hpair
  have hlabel := htexts pair.1 (List.fst_mem_of_mem_zipIdx hpair)
  simpa using Option.isSome_iff_ne_none.mp hlabel

theorem joinLabels_texts {labels : List Value} (htexts : ∀ label ∈ labels, label.text?.isSome) :
    joinLabels store labels = .ok (" > ".intercalate (labels.filterMap Value.text?)) := by
  rw [joinLabels_eq, find?_texts htexts, Option.elim_none]

theorem joinLabels_other {above below : List Value} {label : Value}
    (habove : ∀ other ∈ above, other.text?.isSome) (hlabel : label.text? = none) :
    joinLabels store (above ++ label :: below) =
      .error (.of (.labelNotText above.length (store.kind label))) := by
  rw [joinLabels_eq, List.zipIdx_append, List.find?_append, find?_texts habove]
  simp [List.zipIdx_cons, hlabel]

variable {store} {node : Value} {lineage : List Value} {fault : Fault}

theorem Store.isTold_iff :
    store.IsTold node ↔ store.Describes node ∧ (store.label node).text?.isSome := by
  unfold IsTold
  rcases store.describes_or_fails node with hlabel | ⟨fault, hfails⟩
  · rw [hlabel]
    simp [hlabel, Except.toOption]
  · simp [Describes, hfails, Except.toOption]

/-- A list has a first member for which something does not hold, unless it
    holds for all. -/
theorem exists_first_not {α : Type} {P : α → Prop} {list : List α}
    (hnot : ¬ ∀ a ∈ list, P a) :
    ∃ above stranger below, list = above ++ stranger :: below ∧ (∀ a ∈ above, P a) ∧
      ¬ P stranger := by
  induction list with
  | nil => exact (hnot (by simp)).elim
  | cons first rest ih =>
    by_cases hfirst : P first
    · have hrest : ¬ ∀ a ∈ rest, P a :=
        fun hall => hnot (List.forall_mem_cons.mpr ⟨hfirst, hall⟩)
      obtain ⟨above, stranger, below, rfl, habove, hstranger⟩ := ih hrest
      exact ⟨first :: above, stranger, below, rfl, List.forall_mem_cons.mpr ⟨hfirst, habove⟩,
        hstranger⟩
    · exact ⟨[], first, rest, rfl, by simp, hfirst⟩

/-- The labels of nodes are made one after the other. -/
theorem mapM_describe {nodes : List Value} (hnodes : ∀ other ∈ nodes, store.Describes other) :
    nodes.mapM store.describe = .ok (nodes.map store.label) := by
  induction nodes with
  | nil => rfl
  | cons first rest ih =>
    obtain ⟨hfirst, hrest⟩ := List.forall_mem_cons.mp hnodes
    rw [List.mapM_cons, hfirst, ih hrest]
    rfl

/-- The first label that cannot be made is to blame. -/
theorem mapM_describe_fails {above below : List Value} {stranger : Value}
    (habove : ∀ other ∈ above, store.Describes other)
    (hstranger : store.describe stranger = .error fault) :
    (above ++ stranger :: below).mapM store.describe = .error fault := by
  rw [List.mapM_append, mapM_describe habove, List.mapM_cons, hstranger]
  rfl

theorem located_interrupt (hinterrupt : fault.category = .interrupt) :
    located store node lineage fault = fault := by
  rw [located, if_pos hinterrupt]

/-- A path that can be written is noted, and the failure is the same. -/
theorem located_told (hother : fault.category ≠ .interrupt)
    (htold : ∀ other ∈ lineage.reverse ++ [node], store.IsTold other) :
    located store node lineage fault =
      fault.note ("while visiting " ++ " > ".intercalate
        ((lineage.reverse ++ [node]).filterMap fun other => (store.label other).text?)) := by
  have htexts : ∀ label ∈ (lineage.reverse ++ [node]).map store.label, label.text?.isSome := by
    intro label hlabel
    obtain ⟨other, hmem, rfl⟩ := List.mem_map.mp hlabel
    exact (Store.isTold_iff.mp (htold other hmem)).2
  have hmade := mapM_describe fun other hmem => (Store.isTold_iff.mp (htold other hmem)).1
  have hpath : pathText store node lineage = .ok (" > ".intercalate
      ((lineage.reverse ++ [node]).filterMap fun other => (store.label other).text?)) := by
    rw [pathText, hmade]
    show joinLabels store _ = _
    rw [joinLabels_texts store htexts, List.filterMap_map]
    rfl
  rw [located, if_neg hother, hpath]

/-- A label on the path that cannot be made takes the place of the failure. -/
theorem located_undescribed (hother : fault.category ≠ .interrupt) {above below : List Value}
    {stranger : Value} {another : Fault}
    (hpath : lineage.reverse ++ [node] = above ++ stranger :: below)
    (habove : ∀ other ∈ above, store.Describes other)
    (hstranger : store.describe stranger = .error another) :
    located store node lineage fault = another := by
  have hfails : pathText store node lineage = .error another := by
    rw [pathText, hpath, mapM_describe_fails habove hstranger]
    rfl
  rw [located, if_neg hother, hfails]

/-- So does a label that is no text, once all labels are made. -/
theorem located_untold (hother : fault.category ≠ .interrupt) {above below : List Value}
    {stranger : Value} (hmade : ∀ other ∈ lineage.reverse ++ [node], store.Describes other)
    (hpath : lineage.reverse ++ [node] = above ++ stranger :: below)
    (habove : ∀ other ∈ above, store.IsTold other) (hstranger : ¬ store.IsTold stranger) :
    located store node lineage fault =
      .of (.labelNotText above.length (store.kind (store.label stranger))) := by
  have htexts : ∀ label ∈ above.map store.label, label.text?.isSome := by
    intro label hlabel
    obtain ⟨other, hmem, rfl⟩ := List.mem_map.mp hlabel
    exact (Store.isTold_iff.mp (habove other hmem)).2
  have hlabel : (store.label stranger).text? = none := by
    have hdescribes : store.Describes stranger := hmade stranger (by simp [hpath])
    simpa [Store.isTold_iff, hdescribes] using hstranger
  have hfails : pathText store node lineage =
      .error (.of (.labelNotText above.length (store.kind (store.label stranger)))) := by
    rw [pathText, mapM_describe hmade, hpath, List.map_append, List.map_cons]
    show joinLabels store _ = _
    rw [joinLabels_other store htexts hlabel, List.length_map]
  rw [located, if_neg hother, hfails]

end Labels

namespace Walker

variable {σ : Type}

/-- What a visitor may raise. -/
def boom : Fault := .of (.raised .value "boom")

/-- A walk with annotation whose visitor fails at every leaf. -/
def alarmed : Walker Unit where
  check _ := pure true
  visit place _ := do
    let store ← Act.store
    if store.isParent place.node then pure .null else Act.ofExcept (.error boom)
  reverse := false
  annotate := true

/-- A node of the type five. -/
def numbered : Store :=
  ⟨#[.mapping [("type", .int 5)]]⟩

/-- Functions that fail whatever they are called with. -/
def hostile : Host Unit := fun _ _ state => .error boom state

end Walker

end Lineage
