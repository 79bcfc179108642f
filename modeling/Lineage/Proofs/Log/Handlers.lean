import Lineage.Log.Hub
import Mathlib.Data.List.Induction

namespace Lineage.Log

namespace Hub

variable {hub : Hub} {handler : Handler}

/-- The handlers that the hub has made itself. -/
def own (hub : Hub) : List Handler := hub.handlers.filter (·.owned)

/-- The handlers that other code has added. -/
def others (hub : Hub) : List Handler := hub.handlers.filter (!·.owned)

section Operations

theorem foldl_remove (removed : List Handler) (hub : Hub) :
    removed.foldl remove hub = { hub with handlers := removed.foldl List.erase hub.handlers } := by
  induction removed generalizing hub with
  | nil => rfl
  | cons handler removed ih => exact ih (hub.remove handler)

/-- Handlers that pass a test and are removed one after the other leave those
    that do not. What the loop has passed by is in front of what is to come. -/
theorem foldl_erase_filter (p : Handler → Bool) {passed : List Handler}
    (hpassed : ∀ handler ∈ passed, p handler = false) (rest : List Handler) :
    (rest.filter p).foldl List.erase (passed ++ rest) = passed ++ rest.filter (!p ·) := by
  induction rest generalizing passed with
  | nil => simp
  | cons handler rest ih =>
    cases hp : p handler with
    | true =>
      have hnew : handler ∉ passed := by
        intro hmem
        rw [hpassed handler hmem] at hp
        cases hp
      rw [List.filter_cons_of_pos hp, List.foldl_cons, List.erase_append_right _ hnew,
        List.erase_cons_head, ih hpassed, List.filter_cons_of_neg (by simp [hp])]
    | false =>
      have hlonger : ∀ other ∈ passed ++ [handler], p other = false := by
        simpa [or_imp, forall_and] using ⟨hpassed, hp⟩
      have hpast := ih hlonger
      rw [List.append_assoc, List.append_assoc] at hpast
      rw [List.filter_cons_of_neg (by simp [hp]), List.filter_cons_of_pos (by simp [hp])]
      exact hpast

/-- Whatever the level, the new handler stands behind those of other code, alone
    of its kind; the level changes if its name is known. -/
theorem configure_eq (hub : Hub) (level : String) :
    hub.configure level =
      ({ hub with
          handlers := hub.others ++ [⟨true, unified, hub.streams.length⟩]
          streams := hub.streams ++ [""]
          level := (levelOf level).toOption.getD hub.level },
        (levelOf level).map fun _ => ()) := by
  have hremoved := @foldl_erase_filter (·.owned) [] (by simp) hub.handlers
  simp only [List.nil_append] at hremoved
  have hnew : (⟨true, unified, hub.streams.length⟩ : Handler) ∉
      hub.handlers.filter (!·.owned) := by
    simp
  simp only [configure, openStream, foldl_remove, hremoved, add, if_neg hnew]
  cases levelOf level <;> rfl

theorem own_configure (hub : Hub) (level : String) :
    (hub.configure level).1.own = [⟨true, unified, hub.streams.length⟩] := by
  have hnone : hub.others.filter (·.owned) = [] := by simp [others]
  rw [configure_eq, own, List.filter_append, hnone]
  rfl

theorem others_configure (hub : Hub) (level : String) :
    (hub.configure level).1.others = hub.others := by
  rw [configure_eq, others, List.filter_append, others, List.filter_filter]
  simp

theorem level_configure (hub : Hub) (level : String) :
    (hub.configure level).1.level = (levelOf level).toOption.getD hub.level := by
  rw [configure_eq]

section Foreign

variable (hforeign : handler.owned = false)

include hforeign

theorem mem_others_iff : handler ∈ hub.others ↔ handler ∈ hub.handlers := by
  simp [others, hforeign]

theorem own_add : (hub.add handler).own = hub.own := by
  rw [add]
  split
  · rfl
  · simp [own, hforeign]

theorem others_add_of_mem (hmem : handler ∈ hub.others) :
    (hub.add handler).others = hub.others := by
  rw [add, if_pos ((mem_others_iff hforeign).mp hmem)]

theorem others_add_of_notMem (hnew : handler ∉ hub.others) :
    (hub.add handler).others = hub.others ++ [handler] := by
  rw [add, if_neg (mt (mem_others_iff hforeign).mpr hnew)]
  simp [others, hforeign]

theorem own_remove : (hub.remove handler).own = hub.own := by
  have hnot : handler ∉ hub.own := by simp [own, hforeign]
  rw [own, remove, ← List.erase_filter]
  exact List.erase_of_not_mem hnot

end Foreign

theorem others_remove (hub : Hub) (handler : Handler) :
    (hub.remove handler).others = hub.others.erase handler :=
  List.erase_filter.symm

theorem emit_keeps (hub : Hub) (record : Record) (handler : Handler) :
    (hub.emit record handler).handlers = hub.handlers ∧
      (hub.emit record handler).level = hub.level := by
  rw [emit]
  split <;> exact ⟨rfl, rfl⟩

theorem foldl_emit_keeps (record : Record) (handlers : List Handler) (hub : Hub) :
    (handlers.foldl (fun hub handler => hub.emit record handler) hub).handlers = hub.handlers ∧
      (handlers.foldl (fun hub handler => hub.emit record handler) hub).level = hub.level := by
  induction handlers generalizing hub with
  | nil => exact ⟨rfl, rfl⟩
  | cons handler rest ih =>
    rw [List.foldl_cons, (ih _).1, (ih _).2]
    exact emit_keeps hub record handler

/-- To log something changes neither the handlers nor the level. -/
theorem log_keeps (hub : Hub) (record : Record) :
    (hub.log record).handlers = hub.handlers ∧ (hub.log record).level = hub.level := by
  simp only [log]
  split
  · exact foldl_emit_keeps record hub.handlers _
  · exact ⟨rfl, rfl⟩

end Operations

/-- What can happen to a hub: it is configured, other code adds or removes a
    handler or opens a stream for one, or something is logged. -/
inductive Deed where
  | configure (level : String)
  | add (handler : Handler)
  | remove (handler : Handler)
  | openStream
  | log (record : Record)

/-- Other code minds handlers of its own only. -/
def Deed.MindsOwn : Deed → Prop
  | .add handler | .remove handler => handler.owned = false
  | _ => True

/-- What a deed makes of a hub. A configuration that is refused has done what it
    has done. -/
def perform (hub : Hub) : Deed → Hub
  | .configure level => (hub.configure level).1
  | .add handler => hub.add handler
  | .remove handler => hub.remove handler
  | .openStream => hub.openStream.2
  | .log record => hub.log record

/-- What deeds make of a hub, one after the other. -/
def performAll (hub : Hub) (deeds : List Deed) : Hub := deeds.foldl perform hub

/-- A handler that was there at first or has been added, and has not been removed
    since. -/
def Stands (first : List Handler) (deeds : List Deed) (handler : Handler) : Prop :=
  (handler ∈ first ∧ .remove handler ∉ deeds) ∨
  ∃ earlier later, deeds = earlier ++ .add handler :: later ∧ .remove handler ∉ later

/-- A handler that came before another one: they were there at first, in this
    order, or the one stood when the other was added. Neither has been removed
    since. -/
def Precedes (first : List Handler) (deeds : List Deed) (handler other : Handler) : Prop :=
  ([handler, other].Sublist first ∧ .remove handler ∉ deeds ∧ .remove other ∉ deeds) ∨
  ∃ earlier later, deeds = earlier ++ .add other :: later ∧
    Stands first earlier handler ∧ ¬Stands first earlier other ∧
    .remove handler ∉ later ∧ .remove other ∉ later

/-- What a hub has after deeds, as the deeds alone tell. -/
structure Follows (start : Hub) (deeds : List Deed) : Prop where
  unconfigured : (∀ name, .configure name ∉ deeds) → (start.performAll deeds).own = []
  configured : ∀ earlier name later, deeds = earlier ++ .configure name :: later →
    (∀ other, .configure other ∉ later) →
    (start.performAll deeds).own = [⟨true, unified, (start.performAll earlier).streams.length⟩]
  nodup : (start.performAll deeds).others.Nodup
  stands : ∀ handler,
    handler ∈ (start.performAll deeds).others ↔ Stands start.handlers deeds handler
  ordered : (start.performAll deeds).others.Pairwise (Precedes start.handlers deeds)
  unset : (∀ name level, .configure name ∈ deeds → levelOf name ≠ .ok level) →
    (start.performAll deeds).level = start.level
  set : ∀ earlier name later level, deeds = earlier ++ .configure name :: later →
    levelOf name = .ok level →
    (∀ other level, .configure other ∈ later → levelOf other ≠ .ok level) →
    (start.performAll deeds).level = level

section Histories

variable {deeds : List Deed} {deed : Deed} {first : List Handler} {other : Handler} {start : Hub}

theorem performAll_concat (start : Hub) (deeds : List Deed) (deed : Deed) :
    start.performAll (deeds ++ [deed]) = (start.performAll deeds).perform deed := by
  rw [performAll, List.foldl_append]
  rfl

/-- A deed of a longer history is the last one, or one before it. -/
theorem concat_eq_split {before : Deed} {earlier later : List Deed} :
    deeds ++ [deed] = earlier ++ before :: later ↔
      (later = [] ∧ deeds = earlier ∧ deed = before) ∨
      ∃ rest, later = rest ++ [deed] ∧ deeds = earlier ++ before :: rest := by
  constructor
  · intro hsplit
    rcases List.eq_nil_or_concat later with rfl | ⟨rest, last, rfl⟩
    · obtain ⟨rfl, hlast⟩ := List.append_inj' hsplit rfl
      exact Or.inl ⟨rfl, rfl, (List.cons.inj hlast).1⟩
    · rw [List.concat_eq_append, ← List.cons_append, ← List.append_assoc] at hsplit
      obtain ⟨rfl, hlast⟩ := List.append_inj' hsplit rfl
      rw [List.concat_eq_append, (List.cons.inj hlast).1]
      exact Or.inr ⟨rest, rfl, rfl⟩
  · rintro (⟨rfl, rfl, rfl⟩ | ⟨rest, rfl, rfl⟩)
    · rfl
    · simp

/-- What one more deed means for a handler that stands or does not. -/
theorem stands_concat :
    Stands first (deeds ++ [deed]) handler ↔
      deed = .add handler ∨ (Stands first deeds handler ∧ deed ≠ .remove handler) := by
  constructor
  · rintro (⟨hfirst, hkept⟩ | ⟨earlier, later, hsplit, hkept⟩)
    · simp only [List.mem_append, List.mem_singleton, not_or] at hkept
      exact Or.inr ⟨Or.inl ⟨hfirst, hkept.1⟩, Ne.symm hkept.2⟩
    · rcases concat_eq_split.mp hsplit with ⟨_, _, hadd⟩ | ⟨rest, rfl, hdeeds⟩
      · exact Or.inl hadd
      · simp only [List.mem_append, List.mem_singleton, not_or] at hkept
        exact Or.inr ⟨Or.inr ⟨earlier, rest, hdeeds, hkept.1⟩, Ne.symm hkept.2⟩
  · rintro (rfl | ⟨⟨hfirst, hkept⟩ | ⟨earlier, later, rfl, hkept⟩, hdeed⟩)
    · exact Or.inr ⟨deeds, [], rfl, by simp⟩
    · exact Or.inl ⟨hfirst, by simpa using ⟨hkept, Ne.symm hdeed⟩⟩
    · exact Or.inr ⟨earlier, later ++ [deed], by simp, by simpa using ⟨hkept, Ne.symm hdeed⟩⟩

/-- An order lasts until one of the two handlers is removed. -/
theorem Precedes.concat (hprecedes : Precedes first deeds handler other)
    (hhandler : deed ≠ .remove handler) (hother : deed ≠ .remove other) :
    Precedes first (deeds ++ [deed]) handler other := by
  rcases hprecedes with ⟨hfirst, hkept, hkeptToo⟩ |
    ⟨earlier, later, rfl, hstands, hnew, hkept, hkeptToo⟩
  · exact Or.inl ⟨hfirst, by simpa using ⟨hkept, Ne.symm hhandler⟩,
      by simpa using ⟨hkeptToo, Ne.symm hother⟩⟩
  · exact Or.inr ⟨earlier, later ++ [deed], by simp, hstands, hnew,
      by simpa using ⟨hkept, Ne.symm hhandler⟩, by simpa using ⟨hkeptToo, Ne.symm hother⟩⟩

end Histories

section Deeds

variable {deed : Deed}

theorem own_perform (hminds : deed.MindsOwn) (hother : ∀ name, deed ≠ .configure name) :
    (hub.perform deed).own = hub.own := by
  cases deed with
  | configure name => exact (hother name rfl).elim
  | add handler => exact own_add hminds
  | remove handler => exact own_remove hminds
  | openStream => rfl
  | log record => rw [perform, own, (log_keeps hub record).1, own]

/-- What a deed can do to the handlers of other code: it adds a new one, removes
    one, or leaves them as they are. -/
theorem others_perform_cases (hminds : deed.MindsOwn) :
    (∃ added, deed = .add added ∧ added ∉ hub.others ∧
      (hub.perform deed).others = hub.others ++ [added]) ∨
    (∃ removed, deed = .remove removed ∧
      (hub.perform deed).others = hub.others.erase removed) ∨
    ((∀ added, deed = .add added → added ∈ hub.others) ∧ (∀ removed, deed ≠ .remove removed) ∧
      (hub.perform deed).others = hub.others) := by
  cases deed with
  | configure name => exact Or.inr (Or.inr ⟨nofun, nofun, others_configure hub name⟩)
  | add handler =>
    by_cases hmem : handler ∈ hub.others
    · refine Or.inr (Or.inr ⟨?_, nofun, others_add_of_mem hminds hmem⟩)
      rintro _ ⟨⟩
      exact hmem
    · exact Or.inl ⟨handler, rfl, hmem, others_add_of_notMem hminds hmem⟩
  | remove handler => exact Or.inr (Or.inl ⟨handler, rfl, others_remove hub handler⟩)
  | openStream => exact Or.inr (Or.inr ⟨nofun, nofun, rfl⟩)
  | log record =>
    refine Or.inr (Or.inr ⟨nofun, nofun, ?_⟩)
    rw [perform, others, (log_keeps hub record).1, others]

theorem level_perform (hunset : ∀ name level, deed = .configure name → levelOf name ≠ .ok level) :
    (hub.perform deed).level = hub.level := by
  cases deed with
  | configure name =>
    rw [perform, level_configure]
    cases hlevel : levelOf name with
    | ok level => exact (hunset name level rfl hlevel).elim
    | error fault => rfl
  | add handler =>
    rw [perform, add]
    split <;> rfl
  | remove handler => rfl
  | openStream => rfl
  | log record => exact (log_keeps hub record).2

/-- To attach a handler is to open a stream and, if the patterns are sound, to
    add a handler that writes to it. -/
theorem attach_eq_performAll (hub : Hub) (patterns : List (Option String)) :
    ∃ deeds : List Deed, (∀ deed ∈ deeds, deed.MindsOwn) ∧
      (hub.attach patterns).1 = hub.performAll deeds := by
  cases hformatter : Formatter.ofGiven patterns with
  | ok formatter =>
    refine ⟨[.openStream, .add ⟨false, formatter, hub.streams.length⟩], by simp [Deed.MindsOwn], ?_⟩
    simp only [attach, hformatter]
    rfl
  | error flaw =>
    refine ⟨[.openStream], by simp [Deed.MindsOwn], ?_⟩
    simp only [attach, hformatter]
    rfl

end Deeds

section Following

variable {start : Hub} {deeds : List Deed} {deed : Deed}

theorem follows_nil (hnone : ∀ handler ∈ start.handlers, handler.owned = false)
    (hnodup : start.handlers.Nodup) : Follows start [] := by
  have hothers : start.others = start.handlers := by
    rw [others, List.filter_eq_self]
    intro handler hmem
    simp [hnone handler hmem]
  have hsplit : ∀ (earlier later : List Deed) (deed : Deed), [] ≠ earlier ++ deed :: later := by
    simp
  refine ⟨fun _ => ?_, fun _ _ _ hnil => (hsplit _ _ _ hnil).elim, ?_, fun handler => ?_, ?_,
    fun _ => rfl, fun _ _ _ _ hnil => (hsplit _ _ _ hnil).elim⟩
  · simpa [performAll, own] using hnone
  · exact hothers ▸ hnodup
  · show handler ∈ start.others ↔ _
    rw [hothers]
    constructor
    · exact fun hmem => Or.inl ⟨hmem, by simp⟩
    · rintro (⟨hmem, _⟩ | ⟨_, _, hnil, _⟩)
      · exact hmem
      · exact (hsplit _ _ _ hnil).elim
  · show start.others.Pairwise _
    rw [hothers, List.pairwise_iff_forall_sublist]
    exact fun hsublist => Or.inl ⟨hsublist, by simp, by simp⟩

/-- What the history tells of the handlers of other code stays true with one more
    deed. -/
theorem Follows.others_step (hfollows : Follows start deeds) (hminds : deed.MindsOwn) :
    (start.performAll (deeds ++ [deed])).others.Nodup ∧
    (∀ handler, handler ∈ (start.performAll (deeds ++ [deed])).others ↔
      Stands start.handlers (deeds ++ [deed]) handler) ∧
    (start.performAll (deeds ++ [deed])).others.Pairwise
      (Precedes start.handlers (deeds ++ [deed])) := by
  rw [performAll_concat]
  simp only [stands_concat, ← hfollows.stands]
  rcases @others_perform_cases (start.performAll deeds) deed hminds with
    ⟨added, rfl, hnew, hothers⟩ | ⟨removed, rfl, hothers⟩ | ⟨hadded, hremoved, hothers⟩
  · rw [hothers]
    refine ⟨?_, fun handler => ?_, ?_⟩
    · rw [List.nodup_append]
      refine ⟨hfollows.nodup, by simp, ?_⟩
      rintro handler hmem _ hadded rfl
      rw [List.mem_singleton.mp hadded] at hmem
      exact hnew hmem
    · simp [or_comm, eq_comm]
    · rw [List.pairwise_append]
      refine ⟨hfollows.ordered.imp fun hprecedes => hprecedes.concat nofun nofun, by simp, ?_⟩
      intro handler hmem other hother
      obtain rfl := List.mem_singleton.mp hother
      rw [hfollows.stands] at hmem hnew
      exact Or.inr ⟨deeds, [], rfl, hmem, hnew, by simp, by simp⟩
  · rw [hothers]
    have hmem : ∀ {handler}, handler ∈ (start.performAll deeds).others.erase removed →
        handler ≠ removed := fun hmem => (hfollows.nodup.mem_erase_iff.mp hmem).1
    refine ⟨hfollows.nodup.erase removed, fun handler => ?_, ?_⟩
    · rw [hfollows.nodup.mem_erase_iff]
      simp [and_comm, eq_comm]
    · apply List.Pairwise.imp_of_mem _ (hfollows.ordered.sublist List.erase_sublist)
      intro handler other hhandler hother hprecedes
      exact hprecedes.concat (by simpa [eq_comm] using hmem hhandler)
        (by simpa [eq_comm] using hmem hother)
  · rw [hothers]
    refine ⟨hfollows.nodup, fun handler => ?_, ?_⟩
    · constructor
      · exact fun hmem => Or.inr ⟨hmem, hremoved handler⟩
      · rintro (hadd | ⟨hmem, _⟩)
        · exact hadded handler hadd
        · exact hmem
    · exact hfollows.ordered.imp fun hprecedes => hprecedes.concat (hremoved _) (hremoved _)

theorem Follows.step (hfollows : Follows start deeds) (hminds : deed.MindsOwn) :
    Follows start (deeds ++ [deed]) := by
  obtain ⟨hnodup, hstands, hordered⟩ := hfollows.others_step hminds
  refine ⟨fun hnone => ?_, ?_, hnodup, hstands, hordered, fun hunset => ?_, ?_⟩
  · simp only [List.mem_append, List.mem_singleton, not_or, forall_and] at hnone
    rw [performAll_concat, own_perform hminds fun name => Ne.symm (hnone.2 name)]
    exact hfollows.unconfigured hnone.1
  · intro earlier name later hsplit hlast
    rw [performAll_concat]
    rcases concat_eq_split.mp hsplit with ⟨rfl, rfl, rfl⟩ | ⟨rest, rfl, hdeeds⟩
    · exact own_configure _ name
    · simp only [List.mem_append, List.mem_singleton, not_or, forall_and] at hlast
      rw [own_perform hminds fun other => Ne.symm (hlast.2 other)]
      exact hfollows.configured earlier name rest hdeeds hlast.1
  · rw [performAll_concat, level_perform fun name level hdeed => hunset name level (by simp [hdeed])]
    exact hfollows.unset fun name level hmem => hunset name level (by simp [hmem])
  · intro earlier name later level hsplit hlevel hlast
    rw [performAll_concat]
    rcases concat_eq_split.mp hsplit with ⟨rfl, rfl, rfl⟩ | ⟨rest, rfl, hdeeds⟩
    · rw [perform, level_configure, hlevel]
      rfl
    · rw [level_perform fun other level hdeed => hlast other level (by simp [hdeed])]
      exact hfollows.set earlier name rest level hdeeds hlevel fun other level hmem =>
        hlast other level (by simp [hmem])

theorem follows_performAll (hnone : ∀ handler ∈ start.handlers, handler.owned = false)
    (hnodup : start.handlers.Nodup) (hminds : ∀ deed ∈ deeds, deed.MindsOwn) :
    Follows start deeds := by
  induction deeds using List.reverseRecOn with
  | nil => exact follows_nil hnone hnodup
  | append_singleton deeds deed ih =>
    have hdeeds := ih fun earlier hmem => hminds earlier (by simp [hmem])
    exact hdeeds.step (hminds deed (by simp))

/-- A hub without handlers of its own is configured again and again, by names of
    levels or by others, while other code adds and removes its handlers. After
    every deed the hub has one handler of its own at most, that of the latest
    configuration; the handlers of the other code are those that it has added
    and not removed, each once and in the order in which they came; and the
    level is that of the latest configuration by the name of one. -/
theorem handlers_follow_history (hnone : ∀ handler ∈ start.handlers, handler.owned = false)
    (hnodup : start.handlers.Nodup) (hminds : ∀ deed ∈ deeds, deed.MindsOwn) (time : Nat) :
    Follows start (deeds.take time) :=
  follows_performAll hnone hnodup fun deed hmem => hminds deed (List.mem_of_mem_take hmem)

/-- A hub with a handler of other code. -/
def visited : Hub := ⟨"log", [⟨false, unified, 0⟩], 0, [""], []⟩

/-- Two configurations, the second of which is refused, while a handler is added,
    removed and added again. -/
def visits : List Deed :=
  [.configure "info", .openStream, .add ⟨false, unified, 2⟩, .remove ⟨false, unified, 0⟩,
    .configure "loud", .add ⟨false, unified, 0⟩, .add ⟨false, unified, 2⟩]

theorem visited_follows_history :
    (∀ handler ∈ visited.handlers, handler.owned = false) ∧ visited.handlers.Nodup ∧
    (∀ deed ∈ visits, deed.MindsOwn) ∧ Follows visited (visits.take 7) := by
  have hnone : ∀ handler ∈ visited.handlers, handler.owned = false := by simp [visited]
  have hnodup : visited.handlers.Nodup := by simp [visited]
  have hminds : ∀ deed ∈ visits, deed.MindsOwn := by simp [visits, Deed.MindsOwn]
  exact ⟨hnone, hnodup, hminds, handlers_follow_history hnone hnodup hminds 7⟩

end Following

section Refusal

/-- A configuration that is refused leaves the level and the handlers of other
    code as they are. The hub's own handlers are replaced by a new one even so. -/
theorem refused_configure_keeps_others {later : Hub} {name : String} {fault : Fault}
    (hrefused : hub.configure name = (later, .error fault)) :
    later.level = hub.level ∧ later.others = hub.others ∧
      later.handlers = hub.others ++ [⟨true, unified, hub.streams.length⟩] := by
  have hothers := others_configure hub name
  rw [configure_eq] at hrefused hothers
  obtain ⟨rfl, hfault⟩ := Prod.mk.inj hrefused
  refine ⟨?_, hothers, rfl⟩
  cases hlevel : levelOf name with
  | ok level =>
    rw [hlevel] at hfault
    cases hfault
  | error fault => rfl

/-- A hub with a handler of other code, one of its own and a level. -/
def busy : Hub := ⟨"log", [⟨false, unified, 0⟩, ⟨true, unified, 1⟩], 20, ["", ""], []⟩

theorem busy_refused_keeps_others : ∃ later fault,
    busy.configure "loud" = (later, .error fault) ∧ later.level = busy.level ∧
      later.others = busy.others ∧
      later.handlers = busy.others ++ [⟨true, unified, busy.streams.length⟩] := by
  have hunknown : levelOf "loud" = .error (.of (.unknownLevel (Text.quoted (Text.upper "loud")))) :=
    rfl
  have hrefused := configure_eq busy "loud"
  rw [hunknown] at hrefused
  exact ⟨_, _, hrefused, refused_configure_keeps_others hrefused⟩

/-- A new hub has a handler after its first configuration was refused. -/
theorem refused_configure_adds_handler : ∃ later fault,
    (new "log").configure "LOUD" = (later, .error fault) ∧
      later.handlers ≠ (new "log").handlers := by
  have hunknown : levelOf "LOUD" = .error (.of (.unknownLevel (Text.quoted (Text.upper "LOUD")))) :=
    rfl
  have hrefused := configure_eq (new "log") "LOUD"
  rw [hunknown] at hrefused
  exact ⟨_, _, hrefused, List.cons_ne_nil _ _⟩

end Refusal

end Hub

end Lineage.Log
