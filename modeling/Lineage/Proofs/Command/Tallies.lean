import Lineage.Count
import Mathlib.Algebra.GroupWithZero.Nat
import Mathlib.Data.List.Induction
import Mathlib.Data.List.Sort

namespace Lineage

/-- Whether the type of a finding equals a type. -/
def Finding.isOf (finding : Finding) (type : Scalar) : Bool :=
  match finding.type with
  | .scalar s => s.equal type
  | _ => false

/-- A finding whose type can be counted and told from others: a scalar that
    equals itself. -/
def Finding.IsCountable (finding : Finding) : Prop :=
  ∃ type, finding.type = .scalar type ∧ type.content ≠ .nan

theorem Scalar.equal_iff {a b : Scalar} :
    a.equal b = true ↔ a.content ≠ .nan ∧ a.content = b.content := by
  simp [Scalar.equal]

namespace Tally

/-- How many findings are of a type. -/
def timesOf (type : Scalar) (findings : List Finding) : Nat :=
  findings.countP fun finding => finding.isOf type

/-- The place of the first finding of a type. -/
def firstOf (type : Scalar) (findings : List Finding) : Nat :=
  findings.findIdx fun finding => finding.isOf type

/-- Tallies in some order that tell of findings: each type among these has one
    tally, which shows the type as it came up first and has the number of findings
    of that type. -/
structure Covers (before : Tally → Tally → Prop) (tallies : List Tally) (findings : List Finding) :
    Prop where
  ordered : tallies.Pairwise before
  distinct : tallies.Pairwise fun a b => a.type.equal b.type = false
  shown : ∀ tally ∈ tallies, ∃ finding, findings[firstOf tally.type findings]? = some finding ∧
    finding.type = .scalar tally.type
  counted : ∀ tally ∈ tallies, tally.count = timesOf tally.type findings
  complete : ∀ finding ∈ findings, ∃ tally ∈ tallies, finding.isOf tally.type = true
  total : (tallies.map Tally.count).sum = findings.length

section Adding

variable {type : Scalar} {tallies : List Tally}

theorem add_of_new (hnew : ∀ tally ∈ tallies, tally.type.content ≠ type.content) :
    add type tallies = tallies ++ [⟨type, 1⟩] := by
  induction tallies with
  | nil => rfl
  | cons tally rest ih =>
    obtain ⟨hne, hrest⟩ := List.forall_mem_cons.mp hnew
    rw [add, if_neg hne, ih hrest, List.cons_append]

/-- A tally after one more of a type, which counts if it is its own. -/
def bumped (type : Scalar) (tally : Tally) : Tally :=
  if tally.type.content = type.content then { tally with count := tally.count + 1 } else tally

@[simp] theorem bumped_type (type : Scalar) (tally : Tally) :
    (tally.bumped type).type = tally.type := by
  unfold bumped
  split <;> rfl

theorem add_of_seen (hdistinct : tallies.Pairwise fun a b => a.type.content ≠ b.type.content)
    (hseen : ∃ tally ∈ tallies, tally.type.content = type.content) :
    add type tallies = tallies.map (bumped type) := by
  induction tallies with
  | nil => simp at hseen
  | cons tally rest ih =>
    obtain ⟨hothers, hrest⟩ := List.pairwise_cons.mp hdistinct
    by_cases hsame : tally.type.content = type.content
    · have hkeep : rest.map (bumped type) = rest := by
        refine (List.map_congr_left fun other hother => ?_).trans (List.map_id rest)
        exact if_neg fun h => hothers other hother (hsame.trans h.symm)
      rw [add, if_pos hsame, List.map_cons, hkeep, bumped, if_pos hsame]
    · have hlater : ∃ tally ∈ rest, tally.type.content = type.content := by
        simpa [hsame] using hseen
      rw [add, if_neg hsame, ih hrest hlater, List.map_cons, bumped, if_neg hsame]

theorem sum_add (type : Scalar) (tallies : List Tally) :
    ((add type tallies).map Tally.count).sum = (tallies.map Tally.count).sum + 1 := by
  induction tallies with
  | nil => rfl
  | cons tally rest ih =>
    rw [add]
    split
    · simp only [List.map_cons, List.sum_cons]
      omega
    · simp only [List.map_cons, List.sum_cons, ih]
      omega

/-- Every type that is counted adds one. -/
theorem sum_addAll {types : List Datum} {counted : List Tally}
    (hcounted : addAll tallies types = .ok counted) :
    (counted.map Tally.count).sum = (tallies.map Tally.count).sum + types.length := by
  induction types generalizing tallies with
  | nil =>
    cases hcounted
    rfl
  | cons datum rest ih =>
    cases datum with
    | scalar type =>
      rw [ih hcounted, sum_add, List.length_cons]
      omega
    | list _ => cases hcounted
    | tuple _ => cases hcounted
    | mapping _ => cases hcounted

/-- What counting one type preserves counting many preserves. -/
theorem addAll_preserves {p : List Tally → Prop} {types : List Datum} {counted : List Tally}
    (hstep : ∀ type tallies, .scalar type ∈ types → p tallies → p (add type tallies))
    (hstart : p tallies) (hcounted : addAll tallies types = .ok counted) : p counted := by
  induction types generalizing tallies with
  | nil =>
    cases hcounted
    exact hstart
  | cons datum rest ih =>
    cases datum with
    | scalar type =>
      exact ih (fun other tallies hother => hstep other tallies (List.mem_cons_of_mem _ hother))
        (hstep type tallies List.mem_cons_self hstart) hcounted
    | list _ => cases hcounted
    | tuple _ => cases hcounted
    | mapping _ => cases hcounted

/-- No two tallies are for types of one content. -/
def Differ (tallies : List Tally) : Prop :=
  tallies.Pairwise fun a b => a.type.content ≠ b.type.content

theorem Differ.add (hdiffer : Differ tallies) (type : Scalar) : Differ (add type tallies) := by
  by_cases hseen : ∃ tally ∈ tallies, tally.type.content = type.content
  · rw [add_of_seen hdiffer hseen, Differ, List.pairwise_map]
    simp only [bumped_type]
    exact hdiffer
  · have hnew : ∀ tally ∈ tallies, tally.type.content ≠ type.content :=
      fun tally hmem hsame => hseen ⟨tally, hmem, hsame⟩
    rw [add_of_new hnew]
    refine List.pairwise_append.mpr ⟨hdiffer, List.pairwise_singleton _ _, ?_⟩
    intro tally htally last hlast
    rw [List.mem_singleton.mp hlast]
    exact hnew tally htally

theorem Differ.addAll {types : List Datum} {counted : List Tally} (hdiffer : Differ tallies)
    (hcounted : addAll tallies types = .ok counted) : Differ counted :=
  addAll_preserves (fun type _ _ hearlier => hearlier.add type) hdiffer hcounted

/-- Tallies that have counted something, of types with a property. -/
def AllOf (p : Scalar → Prop) (tallies : List Tally) : Prop :=
  ∀ tally ∈ tallies, 0 < tally.count ∧ p tally.type

theorem AllOf.add {p : Scalar → Prop} (hcount : AllOf p tallies) (htype : p type) :
    AllOf p (add type tallies) := by
  induction tallies with
  | nil => exact List.forall_mem_singleton.mpr ⟨Nat.one_pos, htype⟩
  | cons tally rest ih =>
    obtain ⟨hfirst, hrest⟩ := List.forall_mem_cons.mp hcount
    rw [Tally.add]
    split
    · exact List.forall_mem_cons.mpr ⟨⟨Nat.succ_pos _, hfirst.2⟩, hrest⟩
    · exact List.forall_mem_cons.mpr ⟨hfirst, ih hrest⟩

theorem AllOf.addAll {p : Scalar → Prop} (hcount : AllOf p tallies) {types : List Datum}
    (htypes : ∀ type, .scalar type ∈ types → p type) {counted : List Tally}
    (hcounted : addAll tallies types = .ok counted) : AllOf p counted :=
  addAll_preserves (fun type _ hmem hearlier => hearlier.add (htypes type hmem)) hcount hcounted

/-- Types are counted one after the other. -/
theorem addAll_append (first second : List Datum) :
    addAll tallies (first ++ second) = (do addAll (← addAll tallies first) second) := by
  induction first generalizing tallies with
  | nil => rfl
  | cons datum rest ih =>
    cases datum with
    | scalar type => exact ih
    | list _ => rfl
    | tuple _ => rfl
    | mapping _ => rfl

end Adding

section Covering

variable {type : Scalar} {finding : Finding} {findings : List Finding} {tallies : List Tally}

theorem exists_of_isOf {other : Scalar} (hisOf : finding.isOf other = true) :
    ∃ type, finding.type = .scalar type ∧ type.content ≠ .nan ∧ type.content = other.content := by
  unfold Finding.isOf at hisOf
  split at hisOf
  · next found htype => exact ⟨found, htype, Scalar.equal_iff.mp hisOf⟩
  · cases hisOf

theorem isOf_iff {other : Scalar} (htype : finding.type = .scalar type)
    (hnumber : type.content ≠ .nan) :
    finding.isOf other = true ↔ type.content = other.content := by
  simp [Finding.isOf, htype, Scalar.equal, hnumber]

theorem timesOf_concat (type : Scalar) (findings : List Finding) (finding : Finding) :
    timesOf type (findings ++ [finding]) =
      timesOf type findings + if finding.isOf type then 1 else 0 := by
  rw [timesOf, List.countP_append, List.countP_singleton]
  rfl

/-- A type that came up keeps its place. -/
theorem firstOf_concat (hseen : ∃ earlier ∈ findings, earlier.isOf type = true)
    (finding : Finding) : firstOf type (findings ++ [finding]) = firstOf type findings := by
  rw [firstOf, List.findIdx_append, if_pos (List.findIdx_lt_length.mpr hseen)]
  rfl

/-- A type that comes up last has its place at the end. -/
theorem firstOf_new (hnone : ∀ earlier ∈ findings, earlier.isOf type = false)
    (hisOf : finding.isOf type = true) : firstOf type (findings ++ [finding]) = findings.length := by
  rw [firstOf, List.findIdx_append, if_neg]
  · simp [List.findIdx_cons, hisOf]
  · rw [List.findIdx_eq_length.mpr hnone]
    exact Nat.lt_irrefl _

theorem timesOf_new (hnone : ∀ earlier ∈ findings, earlier.isOf type = false) :
    timesOf type findings = 0 := by
  rw [timesOf, List.countP_eq_zero]
  intro earlier hearlier
  rw [hnone earlier hearlier]
  exact Bool.false_ne_true

theorem shown_concat (hseen : ∃ earlier ∈ findings, earlier.isOf type = true)
    (hshown : ∃ earlier, findings[firstOf type findings]? = some earlier ∧
      earlier.type = .scalar type) (finding : Finding) :
    ∃ earlier, (findings ++ [finding])[firstOf type (findings ++ [finding])]? = some earlier ∧
      earlier.type = .scalar type := by
  have hinside : firstOf type findings < findings.length := List.findIdx_lt_length.mpr hseen
  rw [firstOf_concat hseen, List.getElem?_append_left hinside]
  exact hshown

/-- Tallies that tell of findings in the order in which their types came up. -/
def Tells (tallies : List Tally) (findings : List Finding) : Prop :=
  Covers (fun a b => firstOf a.type findings < firstOf b.type findings) tallies findings

theorem tells_nil : Tells [] [] :=
  ⟨.nil, .nil, by simp, by simp, by simp, rfl⟩

section Step

variable (htells : Tells tallies findings) (htype : finding.type = .scalar type)
  (hnumber : type.content ≠ .nan)
  (hproper : ∀ tally ∈ tallies, tally.type.content ≠ .nan ∧
    ∃ earlier ∈ findings, earlier.isOf tally.type = true)

include htells htype hnumber hproper

theorem Tells.bump (hseen : ∃ tally ∈ tallies, tally.type.content = type.content)
    (htotal : ((tallies.map (bumped type)).map Tally.count).sum = findings.length + 1) :
    Tells (tallies.map (bumped type)) (findings ++ [finding]) where
  ordered := by
    rw [List.pairwise_map]
    refine htells.ordered.imp_of_mem fun ha hb hbefore => ?_
    rw [bumped_type, bumped_type, firstOf_concat (hproper _ ha).2, firstOf_concat (hproper _ hb).2]
    exact hbefore
  distinct := by
    rw [List.pairwise_map]
    simpa only [bumped_type] using htells.distinct
  shown := by
    intro later hlater
    obtain ⟨tally, htally, rfl⟩ := List.mem_map.mp hlater
    rw [bumped_type]
    exact shown_concat (hproper _ htally).2 (htells.shown tally htally) finding
  counted := by
    intro later hlater
    obtain ⟨tally, htally, rfl⟩ := List.mem_map.mp hlater
    rw [bumped_type, timesOf_concat, ← htells.counted tally htally]
    have hsame := @isOf_iff type finding tally.type htype hnumber
    by_cases hown : tally.type.content = type.content
    · rw [bumped, if_pos hown, if_pos (hsame.mpr hown.symm)]
    · rw [bumped, if_neg hown, if_neg fun h => hown (hsame.mp h).symm]
      rfl
  complete := by
    intro either heither
    rcases List.mem_append.mp heither with hearlier | hlast
    · obtain ⟨tally, htally, hisOf⟩ := htells.complete either hearlier
      exact ⟨_, List.mem_map_of_mem htally, by rw [bumped_type, hisOf]⟩
    · obtain ⟨tally, htally, hsame⟩ := hseen
      refine ⟨_, List.mem_map_of_mem htally, ?_⟩
      rw [List.mem_singleton.mp hlast, bumped_type]
      exact (isOf_iff htype hnumber).mpr hsame.symm
  total := by rw [htotal, List.length_append, List.length_singleton]

theorem Tells.append (hnew : ∀ tally ∈ tallies, tally.type.content ≠ type.content)
    (htotal : ((tallies ++ [Tally.mk type 1]).map Tally.count).sum = findings.length + 1) :
    Tells (tallies ++ [Tally.mk type 1]) (findings ++ [finding]) := by
  have hnone : ∀ earlier ∈ findings, earlier.isOf type = false := by
    intro earlier hearlier
    obtain ⟨tally, htally, hisOf⟩ := htells.complete earlier hearlier
    obtain ⟨found, hfound, hreal, hsame⟩ := exists_of_isOf hisOf
    rw [Bool.eq_false_iff, Ne, isOf_iff hfound hreal]
    exact fun h => hnew tally htally (hsame.symm.trans h)
  have hisOf : finding.isOf type = true := (isOf_iff htype hnumber).mpr rfl
  have hplace := firstOf_new hnone hisOf
  have hother : ∀ tally ∈ tallies, finding.isOf tally.type = false := by
    intro tally htally
    rw [Bool.eq_false_iff, Ne, isOf_iff htype hnumber]
    exact fun h => hnew tally htally h.symm
  exact {
    ordered := by
      refine List.pairwise_append.mpr ⟨?_, List.pairwise_singleton _ _, ?_⟩
      · refine htells.ordered.imp_of_mem fun ha hb hbefore => ?_
        rw [firstOf_concat (hproper _ ha).2, firstOf_concat (hproper _ hb).2]
        exact hbefore
      · intro tally htally last hlast
        obtain rfl := List.mem_singleton.mp hlast
        rw [firstOf_concat (hproper _ htally).2, hplace]
        exact List.findIdx_lt_length.mpr (hproper _ htally).2
    distinct := by
      refine List.pairwise_append.mpr ⟨htells.distinct, List.pairwise_singleton _ _, ?_⟩
      intro tally htally last hlast
      obtain rfl := List.mem_singleton.mp hlast
      rw [Bool.eq_false_iff, Ne, Scalar.equal_iff]
      exact fun h => hnew tally htally h.2
    shown := by
      intro tally htally
      rcases List.mem_append.mp htally with htally | hlast
      · exact shown_concat (hproper _ htally).2 (htells.shown tally htally) finding
      · rw [List.mem_singleton.mp hlast, hplace]
        exact ⟨finding, by simp, htype⟩
    counted := by
      intro tally htally
      rw [timesOf_concat]
      rcases List.mem_append.mp htally with htally | hlast
      · rw [hother tally htally, htells.counted tally htally]
        rfl
      · rw [List.mem_singleton.mp hlast, timesOf_new hnone, if_pos hisOf]
    complete := by
      intro either heither
      rcases List.mem_append.mp heither with hearlier | hlast
      · obtain ⟨tally, htally, hearlierOf⟩ := htells.complete either hearlier
        exact ⟨tally, List.mem_append_left _ htally, hearlierOf⟩
      · refine ⟨_, List.mem_append_right _ (List.mem_singleton_self _), ?_⟩
        rw [List.mem_singleton.mp hlast]
        exact hisOf
    total := by rw [htotal, List.length_append, List.length_singleton] }

end Step

/-- One more finding of a type that can be counted. -/
theorem Tells.add (htells : Tells tallies findings)
    (hcountable : ∀ finding ∈ findings, finding.IsCountable) (htype : finding.type = .scalar type)
    (hnumber : type.content ≠ .nan) : Tells (add type tallies) (findings ++ [finding]) := by
  have hproper : ∀ tally ∈ tallies, tally.type.content ≠ .nan ∧
      ∃ earlier ∈ findings, earlier.isOf tally.type = true := by
    intro tally htally
    obtain ⟨earlier, hplace, hshown⟩ := htells.shown tally htally
    have hmem := List.mem_of_getElem? hplace
    obtain ⟨found, hfound, hreal⟩ := hcountable earlier hmem
    obtain rfl : tally.type = found := Datum.scalar.inj (hshown.symm.trans hfound)
    exact ⟨hreal, earlier, hmem, (isOf_iff hfound hreal).mpr rfl⟩
  have hdistinct : tallies.Pairwise fun a b => a.type.content ≠ b.type.content := by
    refine htells.distinct.imp_of_mem fun ha _ hdiffer hsame => ?_
    rw [Scalar.equal_iff.mpr ⟨(hproper _ ha).1, hsame⟩] at hdiffer
    cases hdiffer
  have htotal : ((Tally.add type tallies).map Tally.count).sum = findings.length + 1 := by
    rw [sum_add, htells.total]
  by_cases hseen : ∃ tally ∈ tallies, tally.type.content = type.content
  · rw [add_of_seen hdistinct hseen] at htotal ⊢
    exact htells.bump htype hnumber hproper hseen htotal
  · have hnew : ∀ tally ∈ tallies, tally.type.content ≠ type.content :=
      fun tally hmem hsame => hseen ⟨tally, hmem, hsame⟩
    rw [add_of_new hnew] at htotal ⊢
    exact htells.append htype hnumber hproper hnew htotal

/-- Findings whose types can be counted have tallies. The induction is on the
    findings, the last of them first. -/
theorem exists_tells (hcountable : ∀ finding ∈ findings, finding.IsCountable) :
    ∃ tallies, addAll [] (findings.map Finding.type) = .ok tallies ∧ Tells tallies findings := by
  induction findings using List.reverseRecOn with
  | nil => exact ⟨[], rfl, tells_nil⟩
  | append_singleton earlier finding ih =>
    obtain ⟨hearlier, hlast⟩ := List.forall_mem_append.mp hcountable
    obtain ⟨tallies, hcounted, htells⟩ := ih hearlier
    obtain ⟨type, htype, hnumber⟩ := hlast finding (List.mem_singleton_self _)
    refine ⟨Tally.add type tallies, ?_, htells.add hearlier htype hnumber⟩
    rw [List.map_append, addAll_append, hcounted, List.map_singleton, htype]
    rfl

end Covering

section Ranking

variable {tallies : List Tally} {findings others : List Finding}

/-- Tallies in an order are ranked by falling count, and where counts are equal
    in that order. The induction is on the tallies: the first of them goes before
    the first that does not count more. -/
theorem ranked_pairwise {before : Tally → Tally → Prop} (hordered : tallies.Pairwise before) :
    (ranked tallies).Pairwise fun a b => b.count < a.count ∨ b.count = a.count ∧ before a b := by
  have htrans : ∀ a b c : Tally, decide (b.count ≤ a.count) = true →
      decide (c.count ≤ b.count) = true → decide (c.count ≤ a.count) = true := by
    intro a b c
    simp only [decide_eq_true_eq]
    omega
  have htotal : ∀ a b : Tally,
      (decide (b.count ≤ a.count) || decide (a.count ≤ b.count)) = true := by
    intro a b
    simp only [Bool.or_eq_true, decide_eq_true_eq]
    omega
  induction tallies with
  | nil => simp [ranked]
  | cons tally rest ih =>
    obtain ⟨hfirst, hrest⟩ := List.pairwise_cons.mp hordered
    obtain ⟨more, less, hall, hothers, hmore⟩ := List.mergeSort_cons htrans htotal tally rest
    have hranked := ih hrest
    have hsorted := List.pairwise_mergeSort htrans htotal (tally :: rest)
    unfold ranked at hranked ⊢
    rw [hothers] at hranked
    rw [hall] at hsorted ⊢
    have hmem : ∀ other ∈ less, other ∈ rest := by
      intro other hother
      apply (List.mergeSort_perm rest fun a b => decide (b.count ≤ a.count)).mem_iff.mp
      rw [hothers]
      exact List.mem_append_right more hother
    obtain ⟨hbefore, hafter, hacross⟩ := List.pairwise_append.mp hranked
    refine List.pairwise_append.mpr ⟨hbefore, List.pairwise_cons.mpr ⟨?_, hafter⟩, ?_⟩
    · intro other hother
      have hle := (List.pairwise_cons.mp (List.pairwise_append.mp hsorted).2.1).1 other hother
      rw [decide_eq_true_eq] at hle
      rcases Nat.lt_or_eq_of_le hle with hlt | heq
      · exact Or.inl hlt
      · exact Or.inr ⟨heq, hfirst other (hmem other hother)⟩
    · intro greater hgreater other hother
      rcases List.mem_cons.mp hother with rfl | hother
      · have hlt := hmore greater hgreater
        simp only [Bool.not_eq_true', decide_eq_false_iff_not] at hlt
        exact Or.inl (by omega)
      · exact hacross greater hgreater other hother

/-- Tallies that sum findings up: by falling number, and where numbers are equal
    in the order in which the types came up. -/
def Summarises (tallies : List Tally) (findings : List Finding) : Prop :=
  Covers (fun a b => b.count < a.count ∨
    b.count = a.count ∧ firstOf a.type findings < firstOf b.type findings) tallies findings

theorem ranked_perm (tallies : List Tally) : (ranked tallies).Perm tallies :=
  List.mergeSort_perm _ _

/-- What counting comes to: tallies of different types, which have counted all of
    the findings between them. -/
theorem ofFindings_spec {p : Scalar → Prop}
    (htypes : ∀ finding ∈ findings, ∀ type, finding.type = .scalar type → p type)
    (htallies : ofFindings findings = .ok tallies) :
    Differ tallies ∧ AllOf p tallies ∧ (tallies.map Tally.count).sum = findings.length := by
  unfold ofFindings at htallies
  cases hcounted : addAll [] (findings.map Finding.type) with
  | error fault =>
    rw [hcounted] at htallies
    cases htallies
  | ok counted =>
    rw [hcounted] at htallies
    obtain rfl : ranked counted = tallies := Except.ok.inj htallies
    have hperm := ranked_perm counted
    have hdiffer : Differ counted := Differ.addAll List.Pairwise.nil hcounted
    have hcount : AllOf p counted := by
      refine AllOf.addAll (by simp [AllOf]) (fun type hmem => ?_) hcounted
      obtain ⟨finding, hfinding, htype⟩ := List.mem_map.mp hmem
      exact htypes finding hfinding type htype
    refine ⟨(hperm.pairwise_iff Ne.symm).mpr hdiffer,
      fun tally hmem => hcount tally (hperm.mem_iff.mp hmem), ?_⟩
    rw [(hperm.map Tally.count).sum_nat, sum_addAll hcounted]
    simp

theorem Tells.summarises (htells : Tells tallies findings) : Summarises (ranked tallies) findings := by
  have hmem : ∀ tally, tally ∈ ranked tallies ↔ tally ∈ tallies := fun _ =>
    (ranked_perm tallies).mem_iff
  refine ⟨ranked_pairwise htells.ordered, ?_, ?_, ?_, ?_, ?_⟩
  · refine (List.Perm.pairwise_iff ?_ (ranked_perm tallies)).mpr htells.distinct
    intro a b hdiffer
    rw [Bool.eq_false_iff, Ne, Scalar.equal_iff] at hdiffer ⊢
    rintro ⟨hnumber, hsame⟩
    exact hdiffer ⟨hsame ▸ hnumber, hsame.symm⟩
  · exact fun tally htally => htells.shown tally ((hmem tally).mp htally)
  · exact fun tally htally => htells.counted tally ((hmem tally).mp htally)
  · intro finding hfinding
    obtain ⟨tally, htally, hisOf⟩ := htells.complete finding hfinding
    exact ⟨tally, (hmem tally).mpr htally, hisOf⟩
  · rw [((ranked_perm tallies).map Tally.count).sum_nat, htells.total]

theorem exists_summary (hcountable : ∀ finding ∈ findings, finding.IsCountable) :
    ∃ tallies, ofFindings findings = .ok tallies ∧ Summarises tallies findings := by
  obtain ⟨tallies, hcounted, htells⟩ := exists_tells hcountable
  refine ⟨ranked tallies, ?_, htells.summarises⟩
  rw [ofFindings, hcounted]
  rfl

/-- The number that tallies give for a type. -/
def numberOf (type : Scalar) (tallies : List Tally) : Nat :=
  ((tallies.find? fun tally => tally.type.equal type).map Tally.count).getD 0

theorem isOf_congr {a b : Scalar} (hsame : a.content = b.content) (finding : Finding) :
    finding.isOf a = finding.isOf b := by
  unfold Finding.isOf
  split
  · next s _ => rw [Bool.eq_iff_iff, Scalar.equal_iff, Scalar.equal_iff, hsame]
  · rfl

/-- A summary tells of every type how many findings are of it. -/
theorem Summarises.numberOf_eq (hsummary : Summarises tallies findings) (type : Scalar) :
    numberOf type tallies = timesOf type findings := by
  unfold numberOf
  cases hfind : tallies.find? fun tally => tally.type.equal type with
  | some tally =>
    have hequal : tally.type.equal type = true :=
      @List.find?_some _ (fun other : Tally => other.type.equal type) _ _ hfind
    have hsame := (Scalar.equal_iff.mp hequal).2
    rw [Option.map_some, Option.getD_some, hsummary.counted tally (List.mem_of_find?_eq_some hfind)]
    exact List.countP_congr fun finding _ => by rw [isOf_congr hsame]
  | none =>
    rw [Option.map_none, Option.getD_none, eq_comm, timesOf, List.countP_eq_zero]
    intro finding hfinding hisOf
    obtain ⟨tally, htally, hown⟩ := hsummary.complete finding hfinding
    obtain ⟨found, hfound, hnumber, hsame⟩ := exists_of_isOf hown
    have htype := (isOf_iff hfound hnumber).mp hisOf
    refine List.find?_eq_none.mp hfind tally htally ?_
    exact Scalar.equal_iff.mpr ⟨hsame ▸ hnumber, hsame.symm.trans htype⟩

theorem timesOf_perm (hperm : others.Perm findings) (type : Scalar) :
    timesOf type others = timesOf type findings :=
  hperm.countP_eq _

end Ranking

end Tally

end Lineage
