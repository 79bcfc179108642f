import Lineage.Proofs.Walk.Turn

namespace Lineage

variable {σ τ α β : Type}

/-- What two activities come to, side by side: both go well or both fail, and
    their results, failures and worlds belong together. -/
inductive Abreast (worlds : World σ → World τ → Prop) (faults : Fault → Fault → Prop)
    (results : α → β → Prop) :
    EStateM.Result Fault (World σ) α → EStateM.Result Fault (World τ) β → Prop where
  | ok {a : α} {b : β} {first : World σ} {second : World τ} (hresults : results a b)
      (hworlds : worlds first second) : Abreast worlds faults results (.ok a first) (.ok b second)
  | error {fault other : Fault} {first : World σ} {second : World τ} (hfaults : faults fault other)
      (hworlds : worlds first second) :
      Abreast worlds faults results (.error fault first) (.error other second)

theorem Abreast.mono {worlds others : World σ → World τ → Prop}
    {faults : Fault → Fault → Prop} {results : α → β → Prop}
    (hworlds : ∀ first second, worlds first second → others first second)
    {mine : EStateM.Result Fault (World σ) α} {other : EStateM.Result Fault (World τ) β}
    (habreast : Abreast worlds faults results mine other) :
    Abreast others faults results mine other := by
  cases habreast with
  | ok hresults hboth => exact .ok hresults (hworlds _ _ hboth)
  | error hfaults hboth => exact .error hfaults (hworlds _ _ hboth)

theorem Abreast.symm {worlds : World σ → World τ → Prop} {others : World τ → World σ → Prop}
    {results : α → β → Prop} {converse : β → α → Prop}
    (hworlds : ∀ first second, worlds first second → others second first)
    (hresults : ∀ a b, results a b → converse b a)
    {mine : EStateM.Result Fault (World σ) α} {other : EStateM.Result Fault (World τ) β}
    (habreast : Abreast worlds Eq results mine other) : Abreast others Eq converse other mine := by
  cases habreast with
  | ok hboth hlater => exact .ok (hresults _ _ hboth) (hworlds _ _ hlater)
  | error hfaults hlater => exact .error hfaults.symm (hworlds _ _ hlater)

theorem rel_mono {relation weaker : α → β → Prop} (hweaker : ∀ a b, relation a b → weaker a b)
    {mine : Option α} {other : Option β} (hrel : Option.Rel relation mine other) :
    Option.Rel weaker mine other := by
  cases hrel with
  | some hboth => exact .some (hweaker _ _ hboth)
  | none => exact .none

/-- What keeps abreast of a failure is the same failure. -/
theorem exists_error_of_rel {worlds : World σ → World τ → Prop} {results : α → β → Prop}
    {fault : Fault} {first : World σ} {outcome : Option (EStateM.Result Fault (World τ) β)}
    (hrel : Option.Rel (Abreast worlds Eq results) (some (.error fault first)) outcome) :
    ∃ second, outcome = some (.error fault second) ∧ worlds first second := by
  cases hrel with
  | some habreast =>
    cases habreast with
    | @error _ other _ second hfaults hworlds =>
      subst hfaults
      exact ⟨second, rfl, hworlds⟩

/-- Two walks go on together or end alike. -/
inductive Step.Abreast (descents : Descent → Descent → Prop) : Step → Step → Prop where
  | done (ending : Ending) : Step.Abreast descents (.done ending) (.done ending)
  | more {descent other : Descent} (hdescents : descents descent other) :
      Step.Abreast descents (.more descent) (.more other)

namespace Walker

/-- Two stages whose descents and worlds belong together. -/
def Stage.Abreast (descents : Descent → Descent → Prop) (worlds : World σ → World τ → Prop)
    (stage : Stage σ) (other : Stage τ) : Prop :=
  descents stage.descent other.descent ∧ worlds stage.world other.world

section Telling

variable {worlds : World σ → World τ → Prop} {first : World σ} {second : World τ} {node : Value}
  (htold : ∀ message other, worlds (first.told message) (second.told other))
  (hworlds : worlds first second)
  (hhead : second.store.unwritable? (second.store.head node) =
    first.store.unwritable? (first.store.head node))

include htold hworlds hhead

/-- Two walks that say where they start do so both, or neither can. -/
theorem announce_abreast (walker : Walker σ) (other : Walker τ) :
    Abreast worlds Eq Eq (walker.announce node first) (other.announce node second) := by
  cases hwrite : first.store.unwritable? (first.store.head node) with
  | some fault =>
    rw [announce_fails walker hwrite, announce_fails other (hhead.trans hwrite)]
    exact .error rfl hworlds
  | none =>
    obtain ⟨message, hannounce⟩ := announce_tells walker hwrite
    obtain ⟨announcement, hother⟩ := announce_tells other (hhead.trans hwrite)
    rw [hannounce, hother]
    exact .ok rfl (htold _ _)

/-- Two walks that end at a child say so both, or neither can. -/
theorem leave_abreast {descents : Descent → Descent → Prop} (walked passed : Nat) :
    Abreast worlds Eq (Step.Abreast descents) (leave node walked first)
      (leave node passed second) := by
  cases hwrite : first.store.unwritable? (first.store.head node) with
  | some fault =>
    rw [leave_fails hwrite, leave_fails (hhead.trans hwrite)]
    exact .error rfl hworlds
  | none =>
    rw [leave_tells hwrite, leave_tells (hhead.trans hwrite)]
    exact .ok (.done .exited) (htold _ _)

end Telling

section Runs

variable {walker : Walker σ} {other : Walker τ} {descents : Descent → Descent → Prop}
  {worlds : World σ → World τ → Prop} {faults : Fault → Fault → Prop}
  (hstep : ∀ descent rival first second, descents descent rival → worlds first second →
    Abreast worlds faults (Step.Abreast descents) (walker.step descent first)
      (other.step rival second))

include hstep

/-- Walks that keep abreast for a turn do so for any number of turns. -/
theorem after_abreast {turns : Nat} {stage : Stage σ} {rival : Stage τ}
    (hstages : stage.Abreast descents worlds rival) :
    Option.Rel (Stage.Abreast descents worlds) (walker.after turns stage)
      (other.after turns rival) := by
  induction turns generalizing stage rival with
  | zero => exact .some hstages
  | succ turns ih =>
    have hturn := hstep _ _ _ _ hstages.1 hstages.2
    simp only [after]
    generalize walker.step stage.descent stage.world = turn at hturn ⊢
    generalize other.step rival.descent rival.world = reply at hturn ⊢
    cases hturn with
    | error hfaults hworlds => exact .none
    | ok hsteps hworlds =>
      cases hsteps with
      | done ending => exact .none
      | more hdescents => exact ih ⟨hdescents, hworlds⟩

theorem run_abreast {fuel : Nat} {step rival : Step} {first : World σ} {second : World τ}
    (hsteps : Step.Abreast descents step rival) (hworlds : worlds first second) :
    Option.Rel (Abreast worlds faults Eq) (walker.run fuel step first)
      (other.run fuel rival second) := by
  induction fuel generalizing step rival first second with
  | zero =>
    cases hsteps with
    | done ending => exact .some (.ok rfl hworlds)
    | more hdescents => exact .none
  | succ fuel ih =>
    cases hsteps with
    | done ending => exact .some (.ok rfl hworlds)
    | @more descent next hdescents =>
      have hturn := hstep _ _ _ _ hdescents hworlds
      simp only [run]
      generalize walker.step descent first = turn at hturn ⊢
      generalize other.step next second = reply at hturn ⊢
      cases hturn with
      | error hfaults hlater => exact .some (.error hfaults hlater)
      | ok hnext hlater => exact ih hnext hlater

variable {tree twin : Value} {world : World σ} {rival : World τ}
  (hstart : Abreast worlds faults (Step.Abreast descents) (walker.start tree world)
    (other.start twin rival))

include hstart

/-- Two walks that start abreast and keep so turn by turn are at the same stage
    after any number of turns, if at any. -/
theorem stageAt_abreast (turns : Nat) :
    Option.Rel (Stage.Abreast descents worlds) (walker.stageAt tree world turns)
      (other.stageAt twin rival turns) := by
  simp only [stageAt]
  generalize walker.start tree world = opening at hstart ⊢
  generalize other.start twin rival = reply at hstart ⊢
  cases hstart with
  | error hfaults hworlds => exact .none
  | ok hsteps hworlds =>
    cases hsteps with
    | done ending => exact .none
    | more hdescents => exact after_abreast hstep ⟨hdescents, hworlds⟩

/-- Such walks end after as many turns, and alike, or neither ends. -/
theorem walk_abreast (fuel : Nat) :
    Option.Rel (Abreast worlds faults Eq) (walker.walk fuel tree world)
      (other.walk fuel twin rival) := by
  simp only [walk]
  generalize walker.start tree world = opening at hstart ⊢
  generalize other.start twin rival = reply at hstart ⊢
  cases hstart with
  | error hfaults hworlds => exact .some (.error hfaults hworlds)
  | ok hsteps hworlds => exact run_abreast hstep hsteps hworlds

end Runs

end Walker

end Lineage
