import Lineage.Proofs.Tree.Editing
import Lineage.Proofs.Walk.Completion

namespace Lineage

/-- A node on the way down to a tree, with the children on both sides of the
    way. -/
structure Level where
  value : Value
  before : List Tree
  after : List Tree

namespace Level

/-- The whole tree around a part of it, the innermost level first. -/
def plug (focus : Tree) : List Level → Tree
  | [] => focus
  | level :: outer => plug (.node level.value (level.before ++ focus :: level.after)) outer

def lineageOf (levels : List Level) : List Value := levels.map Level.value

def pathOf (levels : List Level) : List Nat := levels.map fun level => level.before.length

/-- The place of a node that stands at the end of the way. -/
def placeOf (value : Value) : List Level → Place
  | [] => { node := value }
  | level :: _ => ⟨value, .int level.before.length, level.value⟩

def spotOf (value : Value) (levels : List Level) : Spot :=
  ⟨pathOf levels, placeOf value levels, lineageOf levels⟩

/-- The nodes around a tree. -/
def nodesAround : List Level → List Value
  | [] => []
  | level :: outer =>
    level.value :: (Tree.nodesOfAll level.before ++ Tree.nodesOfAll level.after) ++
      nodesAround outer

/-- Further trees stand at the end of the children, at any of the levels; they
    are counted. -/
inductive Grown : List Level → Nat → List Level → Prop where
  | nil : Grown [] 0 []
  | cons {value : Value} {before after more : List Tree} {levels grown : List Level} {count : Nat}
      (houter : Grown levels count grown) :
      Grown (⟨value, before, after⟩ :: levels) (more.length + count)
        (⟨value, before, after ++ more⟩ :: grown)

variable {levels grown other : List Level} {count more : Nat} {focus : Tree} {value : Value}

theorem plug_append (focus : Tree) (inner outer : List Level) :
    plug focus (inner ++ outer) = plug (plug focus inner) outer := by
  induction inner generalizing focus with
  | nil => rfl
  | cons level rest ih => exact ih _

theorem value_plug (value : Value) (children : List Tree) (levels : List Level) :
    (plug (.node value children) levels).value = (lineageOf levels).getLastD value := by
  induction levels generalizing value children with
  | nil => rfl
  | cons level outer ih =>
    rw [plug, ih, lineageOf, lineageOf, List.map_cons, List.getLastD_cons]

theorem count_nodes_plug (focus : Tree) (levels : List Level) (value : Value) :
    (plug focus levels).nodes.count value =
      focus.nodes.count value + (nodesAround levels).count value := by
  induction levels generalizing focus with
  | nil => simp [plug, nodesAround]
  | cons level outer ih =>
    rw [plug, ih, nodesAround, Tree.nodes, Tree.nodesOfAll_append, Tree.nodesOfAll]
    simp only [List.count_cons, List.count_append, List.cons_append]
    omega

theorem mem_nodes_plug :
    value ∈ (plug focus levels).nodes ↔ value ∈ focus.nodes ∨ value ∈ nodesAround levels := by
  have hcount := count_nodes_plug focus levels value
  rw [← List.count_pos_iff, ← List.count_pos_iff, ← List.count_pos_iff]
  omega

/-- The nodes of a tree are not around it if no node occurs twice. -/
theorem notMem_nodesAround (hnodup : (plug focus levels).nodes.Nodup) (hmem : value ∈ focus.nodes) :
    value ∉ nodesAround levels := by
  have hcount := count_nodes_plug focus levels value
  have honce := List.nodup_iff_count.mp hnodup value
  rw [← List.count_pos_iff] at hmem ⊢
  omega

@[simp] theorem placeOf_node (value : Value) (levels : List Level) :
    (placeOf value levels).node = value := by
  cases levels <;> rfl

theorem Grown.refl (levels : List Level) : Grown levels 0 levels := by
  induction levels with
  | nil => exact .nil
  | cons level rest ih =>
    have hmore := @Grown.cons level.value level.before level.after [] rest rest 0 ih
    rw [List.append_nil] at hmore
    exact hmore

theorem Grown.trans (hfirst : Grown levels count grown) (hsecond : Grown grown more other) :
    Grown levels (count + more) other := by
  induction hfirst generalizing more other with
  | nil =>
    cases hsecond
    exact .nil
  | @cons value before after added levels grown count _ ih =>
    cases hsecond with
    | @cons _ _ _ later _ last others houter =>
      have hboth := @Grown.cons value before after (added ++ later) _ _ _ (ih houter)
      rw [← List.append_assoc] at hboth
      have hcount : added.length + count + (later.length + others) =
          (added ++ later).length + (count + others) := by
        rw [List.length_append]
        omega
      rw [hcount]
      exact hboth

theorem Grown.lineageOf_eq (hgrown : Grown levels count grown) : lineageOf grown = lineageOf levels := by
  induction hgrown with
  | nil => rfl
  | cons _ ih => exact congrArg (List.cons _) ih

theorem Grown.pathOf_eq (hgrown : Grown levels count grown) : pathOf grown = pathOf levels := by
  induction hgrown with
  | nil => rfl
  | cons _ ih => exact congrArg (List.cons _) ih

theorem Grown.nodesAround_subset (hgrown : Grown levels count grown) :
    nodesAround levels ⊆ nodesAround grown := by
  induction hgrown with
  | nil => exact List.Subset.refl _
  | cons _ ih =>
    intro node hnode
    simp only [nodesAround, Tree.nodesOfAll_append, List.cons_append, List.mem_cons,
      List.mem_append] at hnode ⊢
    rcases hnode with hhere | (hbefore | hafter) | houter
    · exact Or.inl hhere
    · exact Or.inr (Or.inl (Or.inl hbefore))
    · exact Or.inr (Or.inl (Or.inr (Or.inl hafter)))
    · exact Or.inr (Or.inr (ih houter))

theorem Grown.uncons {before after : List Tree}
    (hgrown : Grown (⟨value, before, after⟩ :: levels) count grown) :
    ∃ added others outer, grown = ⟨value, before, after ++ added⟩ :: outer ∧
      count = added.length + others ∧ Grown levels others outer := by
  cases hgrown with
  | @cons _ _ _ added _ outer others houter => exact ⟨added, others, outer, rfl, rfl, houter⟩

/-- What is at the end of the way stands if the whole tree does. -/
theorem standsIn_of_plug {kept : Store → Prop} (hstands : (plug focus levels).StandsIn kept) :
    focus.StandsIn kept := by
  induction levels generalizing focus with
  | nil => exact hstands
  | cons level outer ih =>
    have hparent := ih hstands
    generalize hall : level.before ++ focus :: level.after = children at hparent
    cases hparent with
    | leaf _ => simp at hall
    | parent _ _ hchildren => exact hchildren focus (hall ▸ by simp)

end Level

end Lineage
