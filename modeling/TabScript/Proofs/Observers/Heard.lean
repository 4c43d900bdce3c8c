import TabScript.Machine.Event

/-! What the hooks of a machine hear.

A host notices calls of its functions and events that are handed to hooks. An event is told to the hooks that
asked for its kind, and what a hook hears can be read off by itself. -/

set_option autoImplicit false

namespace TabScript

namespace Observation

def call? : Observation → Option HostCall
  | called call => some call
  | delivered .. => none

def isEvent : Observation → Bool
  | called _ => false
  | delivered .. => true

def hook? : Observation → Option Nat
  | called _ => none
  | delivered hook _ => some hook

def heardBy (hook : Nat) (observed : List Observation) : List Event :=
  observed.filterMap fun
    | .called _ => none
    | .delivered other event => if other = hook then some event else none

def Only (allowed : Nat → EventKind → Prop) (observed : List Observation) : Prop :=
  ∀ hook event, .delivered hook event ∈ observed → allowed hook event.kind

end Observation

/-- An event is told to the hooks that asked for its kind and to no others, in the order in which they were
registered and to each of them once. -/
structure Event.Told (event : Event) (hooks : List EventKind) (observed : List Observation) : Prop where
  heard : ∀ hook, hooks[hook]? = some event.kind → Observation.heardBy hook observed = [event]
  others : ∀ hook, hooks[hook]? ≠ some event.kind → Observation.heardBy hook observed = []
  order : (observed.filterMap Observation.hook?).Pairwise (· < ·)
  calls : observed.filterMap Observation.call? = []

namespace Observation

variable {hooks : List EventKind} {allowed : Nat → EventKind → Prop}

theorem only_nil : Only allowed [] := fun _ _ impossible => by cases impossible

theorem Only.append {first second : List Observation} (before : Only allowed first)
    (after : Only allowed second) : Only allowed (first ++ second) := by
  intro hook event inside
  rcases List.mem_append.1 inside with inside | inside
  · exact before hook event inside
  · exact after hook event inside

theorem only_called (calls : List HostCall) : Only allowed (calls.map Observation.called) := by
  intro hook event inside
  obtain ⟨call, -, same⟩ := List.mem_map.1 inside
  cases same

theorem of_mem_deliver {event : Event} {observation : Observation}
    (inside : observation ∈ event.deliver hooks) :
    ∃ hook, hooks[hook]? = some event.kind ∧ observation = .delivered hook event := by
  obtain ⟨entry, member, chosen⟩ := List.mem_filterMap.1 inside
  split at chosen
  · rename_i same
    refine ⟨entry.2, ?_, (Option.some.inj chosen).symm⟩
    rw [← same]
    exact List.mem_zipIdx_iff_getElem?.1 member
  · cases chosen

theorem event_of_deliver {event told : Event} {hook : Nat}
    (inside : .delivered hook told ∈ event.deliver hooks) : told = event := by
  obtain ⟨_, -, same⟩ := of_mem_deliver inside
  exact (Observation.delivered.inj same).2

theorem only_deliver {event : Event}
    (suits : ∀ hook, hooks[hook]? = some event.kind → allowed hook event.kind) :
    Only allowed (event.deliver hooks) := by
  intro hook told inside
  obtain ⟨hook, asked, same⟩ := of_mem_deliver inside
  cases same
  exact suits hook asked

theorem only_events {events : List Event}
    (suits : ∀ event ∈ events, ∀ hook, hooks[hook]? = some event.kind → allowed hook event.kind) :
    Only allowed (events.reverse.flatMap (Event.deliver hooks)) := by
  intro hook told inside
  obtain ⟨event, member, delivered⟩ := List.mem_flatMap.1 inside
  exact only_deliver (suits event (List.mem_reverse.1 member)) hook told delivered

theorem filter_deliver (hooks : List EventKind) (events : List Event) :
    (events.flatMap (Event.deliver hooks)).filter isEvent = events.flatMap (Event.deliver hooks) ∧
      (events.flatMap (Event.deliver hooks)).filterMap call? = [] := by
  have told : ∀ observation ∈ events.flatMap (Event.deliver hooks),
      ∃ hook event, observation = .delivered hook event := by
    intro observation inside
    obtain ⟨event, -, inside⟩ := List.mem_flatMap.1 inside
    obtain ⟨hook, -, same⟩ := of_mem_deliver inside
    exact ⟨hook, event, same⟩
  constructor
  · refine List.filter_eq_self.2 fun observation inside => ?_
    obtain ⟨hook, event, rfl⟩ := told observation inside
    rfl
  · refine List.filterMap_eq_nil_iff.2 fun observation inside => ?_
    obtain ⟨hook, event, rfl⟩ := told observation inside
    rfl

theorem filter_called (calls : List HostCall) :
    (calls.map Observation.called).filter isEvent = [] ∧
      (calls.map Observation.called).filterMap call? = calls := by
  constructor
  · simp [List.filter_map, Function.comp_def, isEvent]
  · simp [List.filterMap_map, Function.comp_def, call?]

theorem heardBy_append (hook : Nat) (first second : List Observation) :
    heardBy hook (first ++ second) = heardBy hook first ++ heardBy hook second := List.filterMap_append

theorem heardBy_called (hook : Nat) (made : List HostCall) :
    heardBy hook (made.map Observation.called) = [] := by
  unfold heardBy
  rw [List.filterMap_map]
  exact List.filterMap_eq_nil_iff.2 fun _ _ => rfl

theorem Only.heardBy_eq_nil {observed : List Observation} (only : Only allowed observed) {hook : Nat}
    (silent : ∀ kind, ¬allowed hook kind) : heardBy hook observed = [] := by
  refine List.filterMap_eq_nil_iff.2 fun observation inside => ?_
  cases observation with
  | called call => rfl
  | delivered other event =>
    refine if_neg ?_
    rintro rfl
    exact silent event.kind (only _ _ inside)

theorem heardBy_zipIdx (hooks : List EventKind) (first hook : Nat) (event : Event) :
    heardBy hook ((hooks.zipIdx first).filterMap fun entry =>
        if entry.1 = event.kind then some (.delivered entry.2 event) else none) =
      if first ≤ hook ∧ hooks[hook - first]? = some event.kind then [event] else [] := by
  unfold heardBy
  rw [List.filterMap_filterMap]
  -- on the hooks, while the number of the first one grows
  induction hooks generalizing first with
  | nil => simp
  | cons kind rest ih =>
    rw [List.zipIdx_cons, List.filterMap_cons, ih (first + 1)]
    by_cases here : first = hook
    · subst here
      have past : ¬first + 1 ≤ first := by omega
      by_cases same : kind = event.kind <;> simp [same, past]
    · have silent : ((if kind = event.kind then
          some (Observation.delivered first event) else none).bind fun
            | .called _ => none
            | .delivered other event => if other = hook then some event else none) = none := by
        split
        · simp [here]
        · rfl
      simp only [silent]
      by_cases later : first + 1 ≤ hook
      · have place : hook - first = hook - (first + 1) + 1 := by omega
        have inside : first ≤ hook := by omega
        simp only [place, List.getElem?_cons_succ, later, inside, true_and]
      · have outside : ¬first ≤ hook := by omega
        simp only [later, outside, false_and, if_false]

theorem heardBy_deliver (hook : Nat) (event : Event) :
    heardBy hook (event.deliver hooks) = if hooks[hook]? = some event.kind then [event] else [] := by
  refine (heardBy_zipIdx hooks 0 hook event).trans ?_
  simp only [Nat.zero_le, Nat.sub_zero, true_and]

theorem heardBy_events {hook : Nat} {kind : EventKind} (asked : hooks[hook]? = some kind)
    (events : List Event) :
    heardBy hook (events.flatMap (Event.deliver hooks)) = events.filter fun event => event.kind = kind := by
  induction events with
  | nil => rfl
  | cons event rest ih =>
    rw [List.flatMap_cons, heardBy_append, heardBy_deliver, ih, asked]
    by_cases same : event.kind = kind
    · simp [same]
    · simp [same, Ne.symm same]

end Observation

namespace Event

theorem pairwise_deliver (hooks : List EventKind) (event : Event) :
    ((event.deliver hooks).filterMap Observation.hook?).Pairwise (· < ·) := by
  have increasing : hooks.zipIdx.Pairwise fun first second => first.2 < second.2 := by
    refine List.pairwise_iff_getElem.2 fun first second _ _ less => ?_
    simpa using less
  unfold deliver
  rw [List.filterMap_filterMap, List.pairwise_filterMap]
  -- where an entry leads to a hook, it is its own number
  have own : ∀ {entry : EventKind × Nat} {hook : Nat},
      (if entry.1 = event.kind then some (Observation.delivered entry.2 event) else none).bind
        Observation.hook? = some hook → hook = entry.2 := by
    intro entry hook found
    split at found
    · exact (Option.some.inj found).symm
    · cases found
  refine increasing.imp fun less hook found other found' => ?_
  rw [own found, own found']
  exact less

/-- To hand an event to the hooks is to tell it to those that asked for it. -/
theorem told_deliver (event : Event) (hooks : List EventKind) : event.Told hooks (event.deliver hooks) where
  heard hook asked := by rw [Observation.heardBy_deliver, if_pos asked]
  others hook other := by rw [Observation.heardBy_deliver, if_neg other]
  order := event.pairwise_deliver hooks
  calls := by
    have silent := (Observation.filter_deliver hooks [event]).2
    rwa [List.flatMap_singleton] at silent

end Event

end TabScript
