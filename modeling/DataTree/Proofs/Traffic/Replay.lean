import DataTree.Event
import DataTree.Proofs.Mirror.Items
import Mathlib.Data.List.Induction

/-!
# DataTree.Proofs.Traffic.Replay

The registry that events tell of, and events that balance.

Whoever follows the events has a registry too (`replay`).  Events are *matched* if each
unregistration drops something that is registered when it is told (`Matched`).  Then at
every path as many targets have been registered as have been dropped and are still there
(`fst_traffic_eq`).  Unregistrations of some targets may be excused from being matched;
paths without such an unregistration balance all the same.
-/

namespace DataTree

namespace Event

/-! ## Following events -/

/-- The registry after an event. -/
def follow (r : Registry) : Event → Registry
  | registered path target => r.register path target
  | unregistered path target => r.unregisterTarget path target
  | _ => r

/-- The registry that events tell of, from the empty one on. -/
def replay (events : List Event) : Registry := events.foldl follow {}

variable {events before : List Event} {event : Event} {path : String} {target : Target}

theorem replay_concat (events : List Event) (event : Event) :
    replay (events ++ [event]) = follow (replay events) event := List.foldl_append

theorem follow_of_not_traffic (h : event.isTraffic = false) (r : Registry) :
    follow r event = r := by
  cases event <;> first | rfl | cases h

theorem tidy_replay (events : List Event) : (replay events).Tidy := by
  induction events using List.reverseRecOn with
  | nil => exact Registry.tidy_empty
  | append_singleton events event ih =>
    rw [replay_concat]
    cases event with
    | registered path target => exact ih.register path target
    | unregistered path target => exact ih.unregister path target
    | _ => exact ih

/-! ## Matched events -/

/-- Every registration that is dropped is there at that moment, unless its target is
excused. -/
def Matched (excused : Target → Prop) (events : List Event) : Prop :=
  ∀ before path target after, events = before ++ unregistered path target :: after →
    excused target ∨ ∃ x ∈ (replay before).targetsAt path, x.same target = true

variable {excused : Target → Prop}

theorem matched_nil : Matched excused [] := fun before _ _ _ h => by simp at h

/-- What has been told by then was matched by then. -/
theorem Matched.of_prefix (h : Matched excused events) (hp : before <+: events) :
    Matched excused before := by
  obtain ⟨rest, rfl⟩ := hp
  intro front path target after heq
  refine h front path target (after ++ rest) ?_
  rw [heq, List.append_assoc, List.cons_append]

theorem matched_concat (h : Matched excused events)
    (hlast : ∀ path target, event = unregistered path target →
      excused target ∨ ∃ x ∈ (replay events).targetsAt path, x.same target = true) :
    Matched excused (events ++ [event]) := by
  intro before path target after heq
  -- either it is the last event, or one of those before
  obtain ⟨rfl, rfl⟩ | ⟨init, last, rfl⟩ : after = [] ∧ _ ∨ ∃ init last, after = init ++ [last] := by
    obtain rfl | ⟨init, last, rfl⟩ := List.eq_nil_or_concat' after
    · exact .inl ⟨rfl, (List.append_inj_left' heq rfl)⟩
    · exact .inr ⟨init, last, rfl⟩
  · exact hlast path target (List.singleton_inj.1 (List.append_cancel_left heq))
  · rw [← List.cons_append, ← List.append_assoc] at heq
    exact h before path target init (List.append_inj_left' heq rfl)

/-! ## Counting -/

theorem traffic_concat (events : List Event) (event : Event) (path : String) :
    traffic (events ++ [event]) path
      = ((traffic events path).1 + (traffic [event] path).1,
        (traffic events path).2 + (traffic [event] path).2) := by
  simp only [traffic, List.countP_append]

/-- **Matched events balance**: at every path there have been as many registrations as
there have been unregistrations and there are targets still. -/
theorem fst_traffic_eq (h : Matched excused events)
    (hpath : ∀ target, unregistered path target ∈ events → ¬ excused target) :
    (traffic events path).1 = (traffic events path).2 +
      ((replay events).targetsAt path).length := by
  induction events using List.reverseRecOn with
  | nil => rfl
  | append_singleton events event ih =>
    have hrest := ih (h.of_prefix (List.prefix_append _ _)) fun target ht =>
      hpath target (List.mem_append_left _ ht)
    rw [traffic_concat, replay_concat]
    cases event with
    | registered other target =>
      by_cases hp : other = path
      · subst hp
        simp only [follow, Registry.targetsAt_register_self, List.length_append]
        simp [traffic] at hrest ⊢
        omega
      · simp only [follow, Registry.targetsAt_register_of_ne (Ne.symm hp)]
        simpa [traffic, hp] using hrest
    | unregistered other target =>
      simp only [follow, (tidy_replay events).unregisterTarget_eq]
      by_cases hp : other = path
      · subst hp
        obtain hexcused | ⟨x, hx, hsame⟩ := h events other target [] rfl
        · exact absurd hexcused (hpath target (List.mem_append_right _ List.mem_cons_self))
        rw [Registry.targetsAt_unregisterFirst_self,
          List.length_eraseP_of_mem hx hsame]
        have hpos := List.length_pos_of_mem hx
        simp [traffic] at hrest ⊢
        omega
      · rw [Registry.targetsAt_unregisterFirst_of_ne (Ne.symm hp)]
        simpa [traffic, hp] using hrest
    | _ => simpa [follow, traffic] using hrest

end Event

end DataTree
