import Lineage.Proofs.NodeForms.CellRoles
import Lineage.Proofs.Tree.Editing
import Lineage.Proofs.Walk.NoFailure

/-!
Plain data is put into a store cell by cell, each in its role, and a tree of it
is turned into elements. Main statements: `Cultivable.build`, what the addition
of a cell keeps is kept when a datum is put into two stores;
`Store.Twins.toElements`, only nodes are turned; `Store.Twins.cell?_toElements`,
and all of them that are reached through lists of children.
-/

namespace Lineage

mutual

/-- The roles of the cells that a datum is put into, when it has a role itself. -/
def Datum.roles (role : Role) : Datum → List Role
  | .scalar _ => []
  | .list items | .tuple items => Datum.rolesOfItems role.ofItem items ++ [role]
  | .mapping fields => Datum.rolesOfFields role fields ++ [role]

def Datum.rolesOfItems (role : Role) : List Datum → List Role
  | [] => []
  | item :: rest => item.roles role ++ Datum.rolesOfItems role rest

def Datum.rolesOfFields (role : Role) : List (String × Datum) → List Role
  | [] => []
  | (key, item) :: rest => item.roles (role.ofField key) ++ Datum.rolesOfFields role rest

end

/-- A cell that plain data may be put into. -/
def Cell.IsPlain : Cell → Prop
  | .table _ | .element _ => False
  | _ => True

/-- A store into which plain data was put: what a node or a row holds in its
    role has a lower address, and no node is an element. -/
structure Store.Pristine (roles : List Role) (store : Store) : Prop where
  falls : ∀ ref cell role, store.get? ref = some cell → roles[ref.address]? = some role →
    ∀ part ∈ cell.parts role, part.1 ≠ .data → ∀ other, part.2 = .cell other →
      other.address < ref.address
  plain : ∀ ref cell, roles[ref.address]? = some .node → store.get? ref = some cell → cell.IsPlain

namespace Store

variable {roles : List Role} {first second : Store}

theorem get?_alloc (store : Store) (cell : Cell) (ref : Ref) :
    (store.alloc cell).2.get? ref =
      if ref.address = store.size then some cell else store.get? ref := by
  unfold alloc get? size
  exact Array.getElem?_push

theorem Cast.getElem?_concat (hcast : first.Cast roles) (role : Role) (address : Nat) :
    (roles ++ [role])[address]? = if address = first.size then some role else roles[address]? := by
  rw [← hcast.size]
  split
  · next heq => rw [heq, List.getElem?_concat_length]
  · next hne =>
    by_cases hlt : address < roles.length
    · rw [List.getElem?_append_left hlt]
    · rw [List.getElem?_eq_none (by simp; omega), List.getElem?_eq_none (by omega)]

/-- The same cell may be added to both forms. -/
theorem Twins.alloc (htwins : first.Twins roles second) {role : Role} {cell : Cell}
    (hfits : cell.Fits roles role) :
    (first.alloc cell).2.Twins (roles ++ [role]) (second.alloc cell).2 := by
  have hlater : roles <+: roles ++ [role] := List.prefix_append _ _
  refine ⟨⟨?_, ?_⟩, ?_, ?_⟩
  · simp only [Store.alloc, size, Array.size_push, List.length_append, List.length_singleton]
    rw [htwins.cast.size]
    rfl
  · intro ref found other hget hrole
    rw [get?_alloc] at hget
    rw [htwins.cast.getElem?_concat] at hrole
    split at hget
    · next heq =>
      rw [if_pos heq] at hrole
      cases hget
      cases hrole
      exact hfits.mono hlater
    · next hne =>
      rw [if_neg hne] at hrole
      exact (htwins.cast.fits ref found other hget hrole).mono hlater
  · intro ref
    unfold IsTurned
    rw [get?_alloc, get?_alloc, htwins.size_eq]
    split
    · exact Or.inl rfl
    · exact htwins.resembles ref
  · intro ref hrole
    rw [htwins.cast.getElem?_concat] at hrole
    rw [get?_alloc, get?_alloc, htwins.size_eq]
    split
    · rfl
    · next hne =>
      rw [if_neg hne] at hrole
      exact htwins.same ref hrole

theorem alloc_eq (hsize : second.size = first.size) (cell : Cell) :
    (second.alloc cell).1 = (first.alloc cell).1 := by
  show Value.cell ⟨second.size⟩ = .cell ⟨first.size⟩
  rw [hsize]

theorem alloc_plays (hsize : roles.length = first.size) (role : Role) (cell : Cell) :
    (first.alloc cell).1.Plays (roles ++ [role]) role := by
  show (roles ++ [role])[first.size]? = some role
  rw [← hsize, List.getElem?_concat_length]

theorem Pristine.alloc (hpristine : first.Pristine roles) (hcast : first.Cast roles) {role : Role}
    {cell : Cell} (hfits : cell.Fits roles role) (hplain : cell.IsPlain) :
    (first.alloc cell).2.Pristine (roles ++ [role]) := by
  refine ⟨?_, ?_⟩
  · intro ref found other hget hrole part hpart hdata below hbelow
    rw [get?_alloc] at hget
    rw [hcast.getElem?_concat] at hrole
    split at hget
    · next heq =>
      rw [if_pos heq] at hrole
      cases hget
      cases hrole
      have hplays := hfits part hpart
      rw [hbelow] at hplays
      obtain ⟨hlt, _⟩ := List.getElem?_eq_some_iff.mp hplays
      rwa [heq, ← hcast.size]
    · next hne =>
      rw [if_neg hne] at hrole
      exact hpristine.falls ref found other hget hrole part hpart hdata below hbelow
  · intro ref found hrole hget
    rw [hcast.getElem?_concat] at hrole
    rw [get?_alloc] at hget
    split at hget
    · cases hget
      exact hplain
    · next hne =>
      rw [if_neg hne] at hrole
      exact hpristine.plain ref found hrole hget

end Store

/-- A relation of two stores that is kept when the same cell is added to both in
    its role. Elements are not added. -/
structure Cultivable (relation : List Role → Store → Store → Prop) : Prop where
  size : ∀ roles first second, relation roles first second →
    roles.length = first.size ∧ second.size = first.size
  alloc : ∀ roles first second role cell, relation roles first second → cell.Fits roles role →
    cell.IsPlain →
      relation (roles ++ [role]) (first.alloc cell).2 (second.alloc cell).2

namespace Cultivable

variable {relation : List Role → Store → Store → Prop}

theorem add (hkeeps : Cultivable relation) {roles : List Role} {first second : Store}
    {role : Role} {cell : Cell} (hrelated : relation roles first second)
    (hfits : cell.Fits roles role) (hplain : cell.IsPlain) :
    relation (roles ++ [role]) (first.alloc cell).2 (second.alloc cell).2 ∧
      (second.alloc cell).1 = (first.alloc cell).1 ∧
      (first.alloc cell).1.Plays (roles ++ [role]) role := by
  obtain ⟨hlength, hsame⟩ := hkeeps.size _ _ _ hrelated
  exact ⟨hkeeps.alloc _ _ _ _ _ hrelated hfits hplain, Store.alloc_eq hsame cell,
    Store.alloc_plays hlength role cell⟩

mutual

/-- Such a relation is kept when a datum is put into both stores, in whatever
    role. -/
theorem build (hkeeps : Cultivable relation) (datum : Datum) (role : Role) {roles : List Role}
    {first second : Store} (hrelated : relation roles first second) :
    relation (roles ++ datum.roles role) (datum.build first).2 (datum.build second).2 ∧
      (datum.build second).1 = (datum.build first).1 ∧
      (datum.build first).1.Plays (roles ++ datum.roles role) role := by
  cases datum with
  | scalar s =>
    rw [Datum.roles, List.append_nil]
    exact ⟨hrelated, rfl, trivial⟩
  | list items =>
    obtain ⟨hitems, hsame, hplays⟩ := hkeeps.buildItems items role.ofItem hrelated
    have hfits : (Cell.list (Datum.buildItems items first).1).Fits
        (roles ++ Datum.rolesOfItems role.ofItem items) role :=
      List.forall_mem_map.mpr hplays
    have hlist := hkeeps.add hitems hfits trivial
    rw [Datum.roles, ← List.append_assoc]
    simpa only [Datum.build, hsame] using hlist
  | tuple items =>
    obtain ⟨hitems, hsame, hplays⟩ := hkeeps.buildItems items role.ofItem hrelated
    have hfits : (Cell.tuple (Datum.buildItems items first).1).Fits
        (roles ++ Datum.rolesOfItems role.ofItem items) role :=
      List.forall_mem_map.mpr hplays
    have htuple := hkeeps.add hitems hfits trivial
    rw [Datum.roles, ← List.append_assoc]
    simpa only [Datum.build, hsame] using htuple
  | mapping fields =>
    obtain ⟨hfields, hsame, hplays⟩ := hkeeps.buildFields fields role hrelated
    have hfits : (Cell.mapping (Datum.buildFields fields first).1).Fits
        (roles ++ Datum.rolesOfFields role fields) role :=
      List.forall_mem_map.mpr hplays
    have hmapping := hkeeps.add hfields hfits trivial
    rw [Datum.roles, ← List.append_assoc]
    simpa only [Datum.build, hsame] using hmapping

theorem buildItems (hkeeps : Cultivable relation) (items : List Datum) (role : Role)
    {roles : List Role} {first second : Store} (hrelated : relation roles first second) :
    relation (roles ++ Datum.rolesOfItems role items) (Datum.buildItems items first).2
        (Datum.buildItems items second).2 ∧
      (Datum.buildItems items second).1 = (Datum.buildItems items first).1 ∧
      ∀ value ∈ (Datum.buildItems items first).1,
        value.Plays (roles ++ Datum.rolesOfItems role items) role := by
  cases items with
  | nil =>
    rw [Datum.rolesOfItems, List.append_nil]
    exact ⟨hrelated, rfl, fun value hvalue => by cases hvalue⟩
  | cons item rest =>
    obtain ⟨hitem, hsame, hplays⟩ := hkeeps.build item role hrelated
    obtain ⟨hrest, hothers, hplay⟩ := hkeeps.buildItems rest role hitem
    rw [Datum.rolesOfItems, ← List.append_assoc]
    refine ⟨hrest, ?_, ?_⟩
    · simp only [Datum.buildItems, hsame, hothers]
    · exact List.forall_mem_cons.mpr ⟨hplays.mono (List.prefix_append _ _), hplay⟩

theorem buildFields (hkeeps : Cultivable relation) (fields : List (String × Datum)) (role : Role)
    {roles : List Role} {first second : Store} (hrelated : relation roles first second) :
    relation (roles ++ Datum.rolesOfFields role fields) (Datum.buildFields fields first).2
        (Datum.buildFields fields second).2 ∧
      (Datum.buildFields fields second).1 = (Datum.buildFields fields first).1 ∧
      ∀ field ∈ (Datum.buildFields fields first).1,
        field.2.Plays (roles ++ Datum.rolesOfFields role fields) (role.ofField field.1) := by
  cases fields with
  | nil =>
    rw [Datum.rolesOfFields, List.append_nil]
    exact ⟨hrelated, rfl, fun value hvalue => by cases hvalue⟩
  | cons field rest =>
    obtain ⟨key, item⟩ := field
    obtain ⟨hitem, hsame, hplays⟩ := hkeeps.build item (role.ofField key) hrelated
    obtain ⟨hrest, hothers, hplay⟩ := hkeeps.buildFields rest role hitem
    rw [Datum.rolesOfFields, ← List.append_assoc]
    refine ⟨hrest, ?_, ?_⟩
    · simp only [Datum.buildFields, hsame, hothers]
    · exact List.forall_mem_cons.mpr ⟨hplays.mono (List.prefix_append _ _), hplay⟩

end

end Cultivable

namespace Store

variable {roles : List Role} {first second : Store}

theorem Twins.cultivable : Cultivable fun roles first second => first.Twins roles second where
  size := fun _ _ _ htwins => ⟨htwins.cast.size, htwins.size_eq⟩
  alloc := fun _ _ _ _ _ htwins hfits _ => htwins.alloc hfits

theorem Resembles.mapping (hresembles : first.Resembles second) {ref : Ref} {fields : Fields}
    (hget : second.get? ref = some (.mapping fields)) :
    first.get? ref = some (.mapping fields) := by
  cases hresembles ref with
  | inl hsame => rwa [hsame] at hget
  | inr hturned =>
    obtain ⟨others, _, hsecond⟩ := hturned
    rw [hget] at hsecond
    cases hsecond

theorem get?_put {store : Store} {ref : Ref} (hold : ref.address < store.size) (cell : Cell)
    (other : Ref) :
    (store.put ref cell).get? other = if ref = other then some cell else store.get? other := by
  split
  · next heq =>
    subst heq
    exact get?_put_self store ref cell hold
  · next hne => exact get?_put_of_ne store ref other cell hne

/-- A node may be turned into an element in the second form. -/
theorem Twins.turn (htwins : first.Twins roles second) {ref : Ref} {fields : Fields}
    (hrole : roles[ref.address]? = some .node) (hget : first.get? ref = some (.mapping fields)) :
    first.Twins roles (second.put ref (.element fields)) := by
  have hold : ref.address < second.size := by
    rw [htwins.size_eq]
    exact address_lt_of_get? hget
  refine ⟨htwins.cast, ?_, ?_⟩
  · intro other
    by_cases heq : ref = other
    · subst heq
      exact Or.inr ⟨fields, hget, get?_put_self second ref _ hold⟩
    · unfold IsTurned
      rw [get?_put_of_ne second ref other _ heq]
      exact htwins.resembles other
  · intro other hother
    rw [get?_put hold, if_neg (by rintro rfl; exact hother hrole)]
    exact htwins.same other hother

theorem children_mapping {store : Store} {ref : Ref} {fields : Fields}
    (hget : store.get? ref = some (.mapping fields)) :
    store.children (.cell ref) = (fields.lookup "children").getD .null := by
  show ((store.get? ref).bind (·.property? "children")).getD .null = _
  rw [hget]
  rfl

/-- The children of a node are the same before and after it is turned. -/
theorem Twins.lookup_children (htwins : first.Twins roles second) {ref : Ref} {fields : Fields}
    (hrole : roles[ref.address]? = some .node) (hget : first.get? ref = some (.mapping fields)) :
    (fields.lookup "children").bind second.cell? =
      first.cell? (first.children (.cell ref)) := by
  have hrow := @children_plays _ _ _ htwins (.cell ref) hrole
  rw [children_mapping hget] at hrow ⊢
  cases hlookup : fields.lookup "children" with
  | none => rfl
  | some children =>
    rw [hlookup] at hrow
    exact htwins.cell?_eq hrow (by simp)

theorem Twins.items_play (htwins : first.Twins roles second) {ref : Ref} {items : List Value}
    (hrole : roles[ref.address]? = some .node)
    (hlist : first.cell? (first.children (.cell ref)) = some (.list items)) :
    ∀ item ∈ items, item.Plays roles .node := by
  have hrow := @children_plays _ _ _ htwins (.cell ref) hrole
  exact htwins.members?_plays hrow (members?_list hlist)

/-- A node may be turned with all that is below it. -/
theorem Twins.toElementsAt (fuel : Nat) {node : Value} (htwins : first.Twins roles second)
    (hnode : node.Plays roles .node) : first.Twins roles (toElementsAt fuel node second) := by
  induction fuel generalizing node second with
  | zero => exact htwins
  | succ fuel ih =>
    cases node with
    | scalar s => exact htwins
    | function f => exact htwins
    | cell ref =>
      unfold Store.toElementsAt
      dsimp only
      split
      · next fields hget =>
        have hfirst := htwins.resembles.mapping hget
        have hturned := htwins.turn hnode hfirst
        rw [hturned.lookup_children hnode hfirst]
        split
        · next items hlist =>
          have hitems := hturned.items_play hnode hlist
          -- Whatever was turned before, the next child is turned in what that left.
          generalize second.put ref (.element fields) = turned at hturned
          clear hlist
          induction items generalizing turned with
          | nil => exact hturned
          | cons item rest ihrest =>
            rw [List.forall_mem_cons] at hitems
            exact ihrest hitems.2 _ (ih hturned hitems.1)
        · exact hturned
      · exact htwins

theorem Twins.toElements {node : Value} (htwins : first.Twins roles second)
    (hnode : node.Plays roles .node) : first.Twins roles (second.toElements node) :=
  htwins.toElementsAt _ hnode

/-- A mapping that is in the list of children of a node. -/
def IsChild (store : Store) (ref child : Ref) : Prop :=
  (∃ fields, store.get? child = some (.mapping fields)) ∧
    ∃ items, store.cell? (store.children (.cell ref)) = some (.list items) ∧ .cell child ∈ items

/-- How nodes are turned: what was turned before stays so, the nodes are turned,
    and so are the children of whatever was not turned before. -/
structure Turns (first before after : Store) (nodes : List Value) : Prop where
  keeps : ∀ ref, IsTurned first before ref → IsTurned first after ref
  turns : ∀ ref fields, .cell ref ∈ nodes → first.get? ref = some (.mapping fields) →
    IsTurned first after ref
  settles : ∀ ref child, IsTurned first after ref → first.IsChild ref child →
    IsTurned first before ref ∨ IsTurned first after child

theorem Turns.trans {before middle after : Store} {nodes more : List Value}
    (hfirst : Turns first before middle nodes) (hsecond : Turns first middle after more) :
    Turns first before after (nodes ++ more) where
  keeps := fun ref hturned => hsecond.keeps ref (hfirst.keeps ref hturned)
  turns := by
    intro ref fields hmem hget
    rcases List.mem_append.mp hmem with hnodes | hmore
    · exact hsecond.keeps ref (hfirst.turns ref fields hnodes hget)
    · exact hsecond.turns ref fields hmore hget
  settles := by
    intro ref child hturned hchild
    rcases hsecond.settles ref child hturned hchild with hmiddle | hafter
    · rcases hfirst.settles ref child hmiddle hchild with hbefore | hsettled
      · exact Or.inl hbefore
      · exact Or.inr (hsecond.keeps child hsettled)
    · exact Or.inr hafter

/-- Nothing is turned if none of the nodes is left to be turned. -/
theorem Turns.refl {nodes : List Value} (hnodes : ∀ ref fields, .cell ref ∈ nodes →
    first.get? ref = some (.mapping fields) → IsTurned first second ref) :
    Turns first second second nodes where
  keeps := fun _ hturned => hturned
  turns := hnodes
  settles := fun _ _ hturned _ => Or.inl hturned

/-- A node is turned itself, and then its children are. -/
theorem Turns.of_put {after : Store} {ref : Ref} {fields : Fields} {items : List Value}
    (hget : first.get? ref = some (.mapping fields)) (hold : ref.address < second.size)
    (hturns : Turns first (second.put ref (.element fields)) after items)
    (hitems : ∀ child, first.IsChild ref child → .cell child ∈ items) :
    Turns first second after [.cell ref] where
  keeps := by
    rintro other ⟨others, hfirst, hsecond⟩
    apply hturns.keeps
    refine ⟨others, hfirst, ?_⟩
    rw [get?_put hold]
    split
    · next heq =>
      subst heq
      rw [hget] at hfirst
      cases hfirst
      rfl
    · exact hsecond
  turns := by
    intro other others hmem _
    cases List.mem_singleton.mp hmem
    exact hturns.keeps ref ⟨fields, hget, get?_put_self second ref _ hold⟩
  settles := by
    intro other child hturned hchild
    rcases hturns.settles other child hturned hchild with ⟨others, hfirst, hput⟩ | hafter
    · rw [get?_put hold] at hput
      split at hput
      · next heq =>
        subst heq
        obtain ⟨grandchildren, hmapping⟩ := hchild.1
        exact Or.inr (hturns.turns child grandchildren (hitems child hchild) hmapping)
      · exact Or.inl ⟨others, hfirst, hput⟩
    · exact Or.inr hafter

/-- What is in the list of children of a node has a lower address. -/
theorem Pristine.child_lt (hpristine : first.Pristine roles) (htwins : first.Twins roles second)
    {ref child : Ref} {fields : Fields} {items : List Value}
    (hrole : roles[ref.address]? = some .node) (hget : first.get? ref = some (.mapping fields))
    (hlist : first.cell? (first.children (.cell ref)) = some (.list items))
    (hchild : .cell child ∈ items) : child.address < ref.address := by
  have hrow := @Twins.children_plays _ _ _ htwins (.cell ref) hrole
  rw [children_mapping hget] at hlist hrow
  cases hlookup : fields.lookup "children" with
  | none => rw [hlookup] at hlist; cases hlist
  | some children =>
    rw [hlookup] at hlist hrow
    cases children with
    | scalar s => cases hlist
    | function f => cases hlist
    | cell row =>
      have habove : row.address < ref.address :=
        hpristine.falls ref _ .node hget hrole _
          (List.mem_map_of_mem (mem_of_lookup_eq_some hlookup)) (by simp [Role.ofField]) row rfl
      have hbelow : child.address < row.address :=
        hpristine.falls row _ .row hlist hrow _ (List.mem_map_of_mem hchild) (by simp [Role.ofItem])
          child rfl
      omega

/-- With fuel beyond the address of a node, the node and all that is below it
    are turned. -/
theorem Twins.toElementsAt_turns (hpristine : first.Pristine roles) (fuel : Nat) {node : Value}
    (htwins : first.Twins roles second) (hnode : node.Plays roles .node)
    (hfuel : ∀ ref, node = .cell ref → ref.address < fuel) :
    Turns first second (Store.toElementsAt fuel node second) [node] := by
  induction fuel generalizing node second with
  | zero =>
    apply Turns.refl
    intro ref fields hmem
    have hlt := hfuel ref (List.mem_singleton.mp hmem).symm
    omega
  | succ fuel ih =>
    cases node with
    | scalar s => exact Turns.refl (by simp)
    | function f => exact Turns.refl (by simp)
    | cell ref =>
      unfold Store.toElementsAt
      dsimp only
      split
      · next fields hget =>
        have hfirst := htwins.resembles.mapping hget
        have hturned := htwins.turn hnode hfirst
        rw [hturned.lookup_children hnode hfirst]
        -- The node is turned before its children are, and they after one another.
        have hrest : ∀ items : List Value,
            (∀ item ∈ items, item.Plays roles .node ∧
              ∀ child, item = .cell child → child.address < fuel) →
            ∀ turned, first.Twins roles turned →
              Turns first turned
                (items.foldl (fun store item => Store.toElementsAt fuel item store) turned)
                items := by
          intro items
          induction items with
          | nil => exact fun _ turned _ => Turns.refl (by simp)
          | cons item rest ihrest =>
            intro hitems turned htwins
            rw [List.forall_mem_cons] at hitems
            have hitem := ih htwins hitems.1.1 hitems.1.2
            exact hitem.trans (ihrest hitems.2 _ (htwins.toElementsAt fuel hitems.1.1))
        have hold : ref.address < second.size := address_lt_of_get? hget
        split
        · next items hlist =>
          have hitems := hturned.items_play hnode hlist
          refine Turns.of_put hfirst hold (hrest items ?_ _ hturned) ?_
          · intro item hitem
            refine ⟨hitems item hitem, ?_⟩
            rintro child rfl
            have hlower := hpristine.child_lt hturned hnode hfirst hlist hitem
            have hnow := hfuel ref rfl
            omega
          · rintro child ⟨_, others, hothers, hmem⟩
            rw [hlist] at hothers
            cases hothers
            exact hmem
        · next hnone =>
          refine Turns.of_put hfirst hold (@Turns.refl _ _ [] (by simp)) ?_
          rintro child ⟨_, others, hothers, _⟩
          exact (hnone others hothers).elim
      · next hother =>
        apply Turns.refl
        intro other fields hmem hget
        cases List.mem_singleton.mp hmem
        cases htwins.resembles ref with
        | inl hsame => exact (hother fields (hsame.trans hget)).elim
        | inr hturned => exact hturned

/-- Of plain data, only mappings have lists of children. -/
theorem Pristine.exists_mapping (hpristine : first.Pristine roles) {node : Value}
    (hnode : node.Plays roles .node) {items : List Value}
    (hlist : first.cell? (first.children node) = some (.list items)) :
    ∃ ref fields, node = .cell ref ∧ first.get? ref = some (.mapping fields) := by
  cases node with
  | scalar s => cases s <;> cases hlist
  | function f => cases hlist
  | cell ref =>
    have hchildren : first.children (.cell ref) =
        ((first.get? ref).bind (·.property? "children")).getD .null := rfl
    cases hget : first.get? ref with
    | none =>
      rw [hchildren, hget] at hlist
      cases hlist
    | some cell =>
      rw [hchildren, hget] at hlist
      cases cell with
      | mapping fields => exact ⟨ref, fields, rfl, hget⟩
      | table entries => exact (hpristine.plain ref _ hnode hget).elim
      | element fields => exact (hpristine.plain ref _ hnode hget).elim
      | check c => cases c <;> cases hlist
      | _ => cases hlist

/-- A tree of mappings is turned as a whole: every mapping that is reached from
    its root through lists of children becomes an element with the same
    fields. -/
theorem Twins.cell?_toElements (hpristine : first.Pristine roles) (htwins : first.Twins roles first)
    {root node : Value} (hroot : root.Plays roles .node) (hreaches : first.Reaches root node)
    {fields : Fields} (hmapping : first.cell? node = some (.mapping fields)) :
    (first.toElements root).cell? node = some (.element fields) := by
  have hturns : Turns first first (first.toElements root) [root] := by
    apply htwins.toElementsAt_turns hpristine _ hroot
    rintro ref rfl
    rw [← htwins.cast.size]
    obtain ⟨hlt, _⟩ := List.getElem?_eq_some_iff.mp hroot
    exact hlt
  have hnodes : node.Plays roles .node ∧ ∀ ref, node = .cell ref →
      (∃ fields, first.get? ref = some (.mapping fields)) →
        IsTurned first (first.toElements root) ref := by
    clear hmapping
    induction hreaches with
    | here =>
      refine ⟨hroot, ?_⟩
      rintro ref rfl ⟨fields, hget⟩
      exact hturns.turns ref fields (List.mem_singleton_self _) hget
    | @down parent child items _ hlist hchild ih =>
      obtain ⟨hparent, hturned⟩ := ih
      obtain ⟨above, others, rfl, hget⟩ := hpristine.exists_mapping hparent hlist
      refine ⟨htwins.items_play hparent hlist child hchild, ?_⟩
      rintro ref rfl hmapping
      have habove := hturned above rfl ⟨others, hget⟩
      rcases hturns.settles above ref habove ⟨hmapping, items, hlist, hchild⟩ with
        ⟨_, hfirst, helement⟩ | hbelow
      · rw [hfirst] at helement
        cases helement
      · exact hbelow
  cases node with
  | scalar s => cases hmapping
  | function f => cases hmapping
  | cell ref =>
    obtain ⟨others, hget, helement⟩ := hnodes.2 ref rfl ⟨fields, hmapping⟩
    cases hget.symm.trans hmapping
    exact helement

/-- No cell holds an address that is not in use. -/
def Closed (store : Store) : Prop :=
  ∀ ref cell, store.get? ref = some cell → ∀ part ∈ cell.parts .data, store.Holds part.2

theorem Holds.plays {store : Store} {value : Value} (hheld : store.Holds value) :
    value.Plays (List.replicate store.size .data) .data := by
  cases value with
  | scalar s => trivial
  | function f => trivial
  | cell ref =>
    obtain ⟨cell, hget⟩ := hheld
    show (List.replicate store.size Role.data)[ref.address]? = some .data
    rw [List.getElem?_replicate, if_pos (address_lt_of_get? hget)]

/-- A store without a tree is data, and is the same in both forms. -/
theorem Closed.twins {store : Store} (hclosed : store.Closed) :
    store.Twins (List.replicate store.size .data) store ∧
      store.Pristine (List.replicate store.size .data) := by
  have hdata : ∀ {address : Nat} {role : Role},
      (List.replicate store.size Role.data)[address]? = some role → role = .data := by
    intro address role hrole
    rw [List.getElem?_replicate] at hrole
    split at hrole
    · exact (Option.some.inj hrole).symm
    · cases hrole
  refine ⟨⟨⟨List.length_replicate, ?_⟩, fun _ => Or.inl rfl, fun _ _ => rfl⟩, ⟨?_, ?_⟩⟩
  · intro ref cell role hget hrole part hpart
    cases hdata hrole
    rw [Cell.parts_data hpart]
    exact (hclosed ref cell hget part hpart).plays
  · intro ref cell role hget hrole part hpart hother
    cases hdata hrole
    exact (hother (Cell.parts_data hpart)).elim
  · intro ref fields hrole
    cases hdata hrole

end Store

/-- A tree of plain data is put beside what a store holds, with its root for a
    node. -/
theorem Datum.build_twins {base : Store} (hclosed : base.Closed) (tree : Datum) :
    ∃ roles, List.replicate base.size .data <+: roles ∧
      (tree.build base).2.Twins roles (tree.build base).2 ∧ (tree.build base).2.Pristine roles ∧
      (tree.build base).1.Plays roles .node := by
  have hcultivable : Cultivable fun roles first second =>
      first.Twins roles second ∧ first.Pristine roles :=
    ⟨fun _ _ _ hboth => ⟨hboth.1.cast.size, hboth.1.size_eq⟩,
      fun _ _ _ _ _ hboth hfits hplain =>
        ⟨hboth.1.alloc hfits, hboth.2.alloc hboth.1.cast hfits hplain⟩⟩
  obtain ⟨⟨htwins, hpristine⟩, _, hplays⟩ := hcultivable.build tree .node hclosed.twins
  exact ⟨_, List.prefix_append _ _, htwins, hpristine, hplays⟩

end Lineage
