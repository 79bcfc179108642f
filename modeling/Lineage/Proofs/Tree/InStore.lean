import Lineage.Node
import Lineage.World

namespace Lineage

/-- A finite tree as a walk finds it: nodes with their children, among which
    the null entries are gaps. -/
inductive Tree where
  | gap
  | node (value : Value) (children : List Tree)

namespace Tree

/-- The entry among the children of a parent that stands for a tree. -/
def value : Tree → Value
  | gap => .null
  | node value _ => value

/-- A tree stands in the stores that are kept if in each of them its inner
    nodes have these trees in a list for their children and its leaves have
    none. One node may stand for several trees. -/
inductive StandsIn (kept : Store → Prop) : Tree → Prop where
  | gap : StandsIn kept .gap
  | leaf {value : Value} (hleaf : ∀ store, kept store → store.children value = .null) :
      StandsIn kept (.node value [])
  | parent {value : Value} {children : List Tree}
      (hlist : ∀ store, kept store →
        store.cell? (store.children value) = some (.list (children.map Tree.value)))
      (hgaps : ∀ child ∈ children, child.value = .null → child = .gap)
      (hchildren : ∀ child ∈ children, StandsIn kept child) :
      StandsIn kept (.node value children)

/-- A tree that stands in some stores stands in fewer. -/
theorem StandsIn.mono {kept fewer : Store → Prop} {tree : Tree} (hstands : tree.StandsIn kept)
    (hfewer : ∀ store, fewer store → kept store) : tree.StandsIn fewer := by
  induction hstands with
  | gap => exact .gap
  | leaf hleaf => exact .leaf fun store hstore => hleaf store (hfewer store hstore)
  | parent hlist hgaps _ ih =>
    exact .parent (fun store hstore => hlist store (hfewer store hstore)) hgaps ih

end Tree

/-- A node of a tree as a walk meets it: the indices that lead to it, the place
    and the ancestors, in each list the nearest first. -/
structure Spot where
  path : List Nat
  place : Place
  lineage : List Value

/-- A spot is above those whose paths go on from its own. -/
def Spot.isAbove (above spot : Spot) : Bool :=
  above.path ≠ spot.path && above.path.isSuffixOf spot.path

mutual

/-- The nodes of a tree, each before its children, and the children from first
    to last or from last to first. What is below the nodes that `prune` picks
    is left out. -/
def Tree.spotsUnless (prune : Spot → Bool) (reverse : Bool) (path : List Nat)
    (index parent : Value) (lineage : List Value) : Tree → List Spot
  | .gap => []
  | .node value children =>
    ⟨path, ⟨value, index, parent⟩, lineage⟩ ::
      if prune ⟨path, ⟨value, index, parent⟩, lineage⟩ then []
      else Tree.spotsOfAll prune reverse path value (value :: lineage) 0 children

/-- The nodes of several trees that are children of one parent, from an index
    on. -/
def Tree.spotsOfAll (prune : Spot → Bool) (reverse : Bool) (path : List Nat) (parent : Value)
    (lineage : List Value) : Nat → List Tree → List Spot
  | _, [] => []
  | index, child :: rest =>
    let here := child.spotsUnless prune reverse (index :: path) (.int index) parent lineage
    let others := Tree.spotsOfAll prune reverse path parent lineage (index + 1) rest
    if reverse then others ++ here else here ++ others

end

/-- All the nodes of a tree in pre-order, from the root on. -/
def Tree.spots (reverse : Bool) (tree : Tree) : List Spot :=
  tree.spotsUnless (fun _ => false) reverse [] .null .null []

/-- What stands at the end of a path. -/
def Tree.at? (tree : Tree) : List Nat → Option Tree
  | [] => some tree
  | index :: path =>
    match tree.at? path with
    | some (.node _ children) => children[index]?
    | _ => none

/-- The nodes along a path, from the parent of what stands at its end up to the
    root. -/
def Tree.chain (tree : Tree) : List Nat → List Value
  | [] => []
  | _ :: path => ((tree.at? path).map Tree.value).getD .null :: tree.chain path

/-- The members of a list up to the first one that is picked, with that one. -/
def upTo {α : Type} (pick : α → Bool) (list : List α) : List α :=
  list.take (list.findIdx pick + 1)

/-- The nodes that a visitor is to be called on: of the nodes in pre-order those
    that have none above them that passes and is answered with a skip, of these
    the ones that pass, and of these no more than up to the first exit. -/
def Tree.visitOrder (reverse : Bool) (passes : Place → Bool) (answer : List Nat → Action)
    (tree : Tree) : List Spot :=
  let order := tree.spots reverse
  let reached := order.filter fun spot => !order.any fun above =>
    above.isAbove spot && (passes above.place && answer above.path == .skip)
  upTo (fun spot => answer spot.path == .exit) (reached.filter fun spot => passes spot.place)

section Paths

variable {prune : Spot → Bool} {reverse : Bool}

theorem Spot.isAbove_iff {above spot : Spot} :
    above.isAbove spot = true ↔ above.path ≠ spot.path ∧ above.path <:+ spot.path := by
  simp [Spot.isAbove, List.isSuffixOf_iff_suffix]

/-- The nodes of several trees are those of the first and those of the others,
    in whichever order. -/
theorem Tree.mem_spotsOfAll_cons {path : List Nat} {parent : Value} {lineage : List Value}
    {index : Nat} {child : Tree} {rest : List Tree} {spot : Spot} :
    spot ∈ Tree.spotsOfAll prune reverse path parent lineage index (child :: rest) ↔
      spot ∈ child.spotsUnless prune reverse (index :: path) (.int index) parent lineage ∨
      spot ∈ Tree.spotsOfAll prune reverse path parent lineage (index + 1) rest := by
  rw [Tree.spotsOfAll]
  split
  · rw [List.mem_append, or_comm]
  · rw [List.mem_append]

mutual

/-- The paths of the nodes of a tree go on from that of its root. -/
theorem Tree.suffix_of_mem_spotsUnless {spot : Spot} : ∀ {tree : Tree} {path : List Nat}
    {index parent : Value} {lineage : List Value},
    spot ∈ tree.spotsUnless prune reverse path index parent lineage → path <:+ spot.path
  | .gap, _, _, _, _, hspot => by
    simp [Tree.spotsUnless] at hspot
  | .node value children, path, _, _, _, hspot => by
    rw [Tree.spotsUnless, List.mem_cons] at hspot
    rcases hspot with rfl | hbelow
    · exact List.suffix_refl path
    · split at hbelow
      · simp at hbelow
      · obtain ⟨index, _, hsuffix⟩ := Tree.suffix_of_mem_spotsOfAll hbelow
        exact (List.suffix_cons index path).trans hsuffix

/-- The paths of the nodes of several trees go on from the index of their tree. -/
theorem Tree.suffix_of_mem_spotsOfAll {spot : Spot} : ∀ {children : List Tree} {first : Nat}
    {path : List Nat} {parent : Value} {lineage : List Value},
    spot ∈ Tree.spotsOfAll prune reverse path parent lineage first children →
      ∃ index, first ≤ index ∧ index :: path <:+ spot.path
  | [], _, _, _, _, hspot => by
    simp [Tree.spotsOfAll] at hspot
  | child :: rest, first, _, _, _, hspot => by
    rcases Tree.mem_spotsOfAll_cons.mp hspot with hhere | hothers
    · exact ⟨first, Nat.le_refl first, Tree.suffix_of_mem_spotsUnless hhere⟩
    · obtain ⟨index, hle, hsuffix⟩ := Tree.suffix_of_mem_spotsOfAll hothers
      exact ⟨index, by omega, hsuffix⟩

end

mutual

/-- A spot of a tree is at the end of its path, and its ancestors are the nodes
    along the path. -/
theorem Tree.at?_of_mem_spotsUnless (root : Tree) {spot : Spot} : ∀ {tree : Tree}
    {path : List Nat} {index parent : Value},
    root.at? path = some tree →
    spot ∈ tree.spotsUnless prune reverse path index parent (root.chain path) →
      (root.at? spot.path).map Tree.value = some spot.place.node ∧
        spot.lineage = root.chain spot.path
  | .gap, _, _, _, _, hspot => by
    simp [Tree.spotsUnless] at hspot
  | .node value children, path, _, _, hat, hspot => by
    rw [Tree.spotsUnless, List.mem_cons] at hspot
    rcases hspot with rfl | hbelow
    · exact ⟨by simp [hat, Tree.value], rfl⟩
    · have hchain : ∀ index : Nat, value :: root.chain path = root.chain (index :: path) := by
        intro index
        simp [Tree.chain, hat, Tree.value]
      split at hbelow
      · simp at hbelow
      · refine Tree.at?_of_mem_spotsOfAll root hchain ?_ hbelow
        intro index child hchild
        simpa [Tree.at?, hat] using hchild

/-- The same for the spots of the children of a node. -/
theorem Tree.at?_of_mem_spotsOfAll (root : Tree) {spot : Spot} : ∀ {children : List Tree}
    {path : List Nat} {parent : Value} {lineage : List Value} {first : Nat},
    (∀ index, lineage = root.chain (index :: path)) →
    (∀ index child, children[index]? = some child →
      root.at? ((first + index) :: path) = some child) →
    spot ∈ Tree.spotsOfAll prune reverse path parent lineage first children →
      (root.at? spot.path).map Tree.value = some spot.place.node ∧
        spot.lineage = root.chain spot.path
  | [], _, _, _, _, _, _, hspot => by
    simp [Tree.spotsOfAll] at hspot
  | child :: rest, path, _, _, first, hlineage, hat, hspot => by
    rcases Tree.mem_spotsOfAll_cons.mp hspot with hhere | hothers
    · rw [hlineage first] at hhere
      exact Tree.at?_of_mem_spotsUnless root (hat 0 child rfl) hhere
    · refine Tree.at?_of_mem_spotsOfAll root hlineage ?_ hothers
      intro index other hother
      have hnext := hat (index + 1) other (by simpa using hother)
      rwa [show first + 1 + index = first + (index + 1) by omega]

end

/-- The nodes of one child have other paths than those of another. -/
theorem Spot.path_ne_of_ne {first second : Spot} {path : List Nat} {i j : Nat} (hne : i ≠ j)
    (hfirst : i :: path <:+ first.path) (hsecond : j :: path <:+ second.path) :
    first.path ≠ second.path := by
  intro hsame
  have heads : i :: path <:+ j :: path :=
    List.suffix_of_suffix_length_le (hsame ▸ hfirst) hsecond (by simp)
  exact hne (List.cons.inj (heads.eq_of_length (by simp))).1

mutual

/-- The nodes of a tree have different paths. -/
theorem Tree.nodup_paths_spotsUnless : ∀ (tree : Tree) (path : List Nat) (index parent : Value)
    (lineage : List Value),
    ((tree.spotsUnless prune reverse path index parent lineage).map Spot.path).Nodup
  | .gap, _, _, _, _ => by
    simp [Tree.spotsUnless]
  | .node value children, path, _, _, lineage => by
    rw [Tree.spotsUnless, List.map_cons, List.nodup_cons]
    split
    · simp
    · refine ⟨?_, Tree.nodup_paths_spotsOfAll children path value (value :: lineage) 0⟩
      intro hmem
      obtain ⟨spot, hspot, hpath⟩ := List.mem_map.mp hmem
      obtain ⟨index, _, hsuffix⟩ := Tree.suffix_of_mem_spotsOfAll hspot
      have hlonger := hsuffix.length_le
      simp only [hpath, List.length_cons] at hlonger
      omega

theorem Tree.nodup_paths_spotsOfAll : ∀ (children : List Tree) (path : List Nat) (parent : Value)
    (lineage : List Value) (first : Nat),
    ((Tree.spotsOfAll prune reverse path parent lineage first children).map Spot.path).Nodup
  | [], _, _, _, _ => by
    simp [Tree.spotsOfAll]
  | child :: rest, path, parent, lineage, first => by
    have hhere := Tree.nodup_paths_spotsUnless child (first :: path) (.int first) parent lineage
    have hothers := Tree.nodup_paths_spotsOfAll rest path parent lineage (first + 1)
    have hapart : ∀ a ∈ child.spotsUnless prune reverse (first :: path) (.int first) parent lineage,
        ∀ b ∈ Tree.spotsOfAll prune reverse path parent lineage (first + 1) rest,
          a.path ≠ b.path := by
      intro a ha b hb
      obtain ⟨index, hle, hindex⟩ := Tree.suffix_of_mem_spotsOfAll hb
      exact Spot.path_ne_of_ne (by omega) (Tree.suffix_of_mem_spotsUnless ha) hindex
    rw [Tree.spotsOfAll]
    split
    · rw [List.map_append, List.nodup_append]
      refine ⟨hothers, hhere, ?_⟩
      simp only [List.forall_mem_map]
      exact fun b hb a ha => (hapart a ha b hb).symm
    · rw [List.map_append, List.nodup_append]
      refine ⟨hhere, hothers, ?_⟩
      simp only [List.forall_mem_map]
      exact hapart

end

/-- No node of one child is above a node of another. -/
theorem Spot.not_isAbove_of_ne {above spot : Spot} {path : List Nat} {i j : Nat} (hne : i ≠ j)
    (habove : i :: path <:+ above.path) (hspot : j :: path <:+ spot.path) :
    above.isAbove spot = false := by
  rw [Bool.eq_false_iff, Ne, Spot.isAbove_iff]
  rintro ⟨_, hsuffix⟩
  have heads : i :: path <:+ j :: path :=
    List.suffix_of_suffix_length_le (habove.trans hsuffix) hspot (by simp)
  exact hne (List.cons.inj (heads.eq_of_length (by simp))).1

end Paths

section Pruning

variable (prune : Spot → Bool) (reverse : Bool)

/-- Whether no node above a spot, out of some, is picked by `prune`. -/
def isClear (nodes : List Spot) (spot : Spot) : Bool :=
  !nodes.any fun above => above.isAbove spot && prune above

/-- Nodes that are above none of some spots make no difference to them. -/
theorem filter_isClear_append {here others : List Spot}
    (hhere : ∀ spot ∈ here, ∀ above ∈ others, above.isAbove spot = false)
    (hothers : ∀ spot ∈ others, ∀ above ∈ here, above.isAbove spot = false) :
    (here ++ others).filter (isClear prune (here ++ others)) =
      here.filter (isClear prune here) ++ others.filter (isClear prune others) := by
  rw [List.filter_append]
  congr 1
  · apply List.filter_congr
    intro spot hspot
    have hnone : others.any (fun above => above.isAbove spot && prune above) = false := by
      rw [List.any_eq_false]
      intro above habove
      simp [hhere spot hspot above habove]
    simp [isClear, List.any_append, hnone]
  · apply List.filter_congr
    intro spot hspot
    have hnone : here.any (fun above => above.isAbove spot && prune above) = false := by
      rw [List.any_eq_false]
      intro above habove
      simp [hothers spot hspot above habove]
    simp [isClear, List.any_append, hnone]

mutual

/-- Leaving out what is below some nodes leaves the nodes that have none of
    those above them. -/
theorem Tree.spotsUnless_eq_filter : ∀ (tree : Tree) (path : List Nat) (index parent : Value)
    (lineage : List Value),
    tree.spotsUnless prune reverse path index parent lineage =
      (tree.spotsUnless (fun _ => false) reverse path index parent lineage).filter
        (isClear prune (tree.spotsUnless (fun _ => false) reverse path index parent lineage))
  | .gap, _, _, _, _ => by
    simp [Tree.spotsUnless]
  | .node value children, path, index, parent, lineage => by
    have hbelow := Tree.spotsOfAll_eq_filter children path value (value :: lineage) 0
    simp only [Tree.spotsUnless, Bool.false_eq_true, if_false]
    generalize hroot : Spot.mk path ⟨value, index, parent⟩ lineage = root
    generalize hall : Tree.spotsOfAll (fun _ => false) reverse path value (value :: lineage) 0
      children = below at hbelow ⊢
    have hpath : root.path = path := by rw [← hroot]
    have habove : ∀ spot ∈ below, root.isAbove spot = true := by
      intro spot hspot
      rw [← hall] at hspot
      obtain ⟨first, _, hsuffix⟩ := Tree.suffix_of_mem_spotsOfAll hspot
      rw [Spot.isAbove_iff, hpath]
      refine ⟨?_, (List.suffix_cons first path).trans hsuffix⟩
      intro heq
      have hlength := hsuffix.length_le
      rw [← heq, List.length_cons] at hlength
      omega
    have hfree : isClear prune (root :: below) root = true := by
      simp only [isClear, Bool.not_eq_true', List.any_eq_false, Bool.and_eq_true, not_and]
      intro above hmem hisAbove
      rw [Spot.isAbove_iff] at hisAbove
      rcases List.mem_cons.mp hmem with rfl | hmem
      · exact (hisAbove.1 rfl).elim
      · have hback := (Spot.isAbove_iff.mp (habove above hmem)).2
        exact (hisAbove.1 (hisAbove.2.eq_of_length_le hback.length_le)).elim
    have hrest : below.filter (isClear prune (root :: below)) =
        if prune root then [] else below.filter (isClear prune below) := by
      split
      · next hprune =>
        rw [List.filter_eq_nil_iff]
        intro spot hspot
        simp [isClear, habove spot hspot, hprune]
      · next hprune =>
        apply List.filter_congr
        intro spot hspot
        simp [isClear, hprune]
    rw [List.filter_cons_of_pos hfree, hrest, hbelow]

/-- Leaving out what is below some nodes of several trees does so in each. -/
theorem Tree.spotsOfAll_eq_filter : ∀ (children : List Tree) (path : List Nat) (parent : Value)
    (lineage : List Value) (first : Nat),
    Tree.spotsOfAll prune reverse path parent lineage first children =
      (Tree.spotsOfAll (fun _ => false) reverse path parent lineage first children).filter
        (isClear prune
          (Tree.spotsOfAll (fun _ => false) reverse path parent lineage first children))
  | [], _, _, _, _ => by
    simp [Tree.spotsOfAll]
  | child :: rest, path, parent, lineage, first => by
    have hhere := Tree.spotsUnless_eq_filter child (first :: path) (.int first) parent lineage
    have hothers := Tree.spotsOfAll_eq_filter rest path parent lineage (first + 1)
    -- The first child's nodes have other paths than those of its siblings.
    have hapart : ∀ a ∈ child.spotsUnless (fun _ => false) reverse (first :: path) (.int first)
          parent lineage,
        ∀ b ∈ Tree.spotsOfAll (fun _ => false) reverse path parent lineage (first + 1) rest,
          b.isAbove a = false ∧ a.isAbove b = false := by
      intro a ha b hb
      have hfirst := Tree.suffix_of_mem_spotsUnless ha
      obtain ⟨index, hle, hindex⟩ := Tree.suffix_of_mem_spotsOfAll hb
      exact ⟨Spot.not_isAbove_of_ne (by omega) hindex hfirst,
        Spot.not_isAbove_of_ne (by omega) hfirst hindex⟩
    simp only [Tree.spotsOfAll]
    split
    · rw [filter_isClear_append prune (fun b hb a ha => (hapart a ha b hb).2)
        (fun a ha b hb => (hapart a ha b hb).1), ← hhere, ← hothers]
    · rw [filter_isClear_append prune (fun a ha b hb => (hapart a ha b hb).1)
        (fun b hb a ha => (hapart a ha b hb).2), ← hhere, ← hothers]

end

end Pruning

end Lineage
