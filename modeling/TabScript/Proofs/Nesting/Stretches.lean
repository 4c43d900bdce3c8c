import TabScript.Proofs.Lossless.Places

/-! Stretches of text one behind the other.

A part of a program is read from a run of tokens, and stands where the first of them begins up to where the last
one ends. So if the tokens stand one behind the other, the stretches of their runs do, and the stretch of them all
holds those of the runs. -/

set_option autoImplicit false

namespace TabScript

namespace Span

/-- Stretches one behind the other, none of them empty. -/
structure InOrder (spans : List Span) : Prop where
  ordered : spans.Pairwise fun first second => first.stop ≤ second.start
  solid : ∀ span ∈ spans, span.start.Before span.stop

def beginning? (spans : List Span) : Option Position := spans.head?.map start

def ending? (spans : List Span) : Option Position := spans.getLast?.map stop

def across (spans : List Span) : Span :=
  ⟨(beginning? spans).getD default, (ending? spans).getD default⟩

structure Holds (whole : Span) (parts : List Span) : Prop where
  solid : whole.start.Before whole.stop
  inOrder : InOrder parts
  within : ∀ part ∈ parts, whole.start ≤ part.start ∧ part.stop ≤ whole.stop

variable {first second : Span} {spans others : List Span}

@[simp] theorem beginning?_cons (span : Span) (spans : List Span) :
    beginning? (span :: spans) = some span.start := rfl

theorem beginning?_append (spans others : List Span) :
    beginning? (spans ++ others) = (beginning? spans).or (beginning? others) := by
  rw [beginning?, List.head?_append, Option.map_or]
  rfl

theorem ending?_append (spans others : List Span) :
    ending? (spans ++ others) = (ending? others).or (ending? spans) := by
  rw [ending?, List.getLast?_append, Option.map_or]
  rfl

theorem ending?_cons (span : Span) (spans : List Span) :
    ending? (span :: spans) = (ending? spans).or (some span.stop) := ending?_append [span] spans

theorem across_congr (begins : beginning? spans = beginning? others) (ends : ending? spans = ending? others) :
    across spans = across others := by
  rw [across, across, begins, ends]

theorem exists_start_across (some_ : spans ≠ []) : ∃ span ∈ spans, (across spans).start = span.start := by
  obtain ⟨span, others, rfl⟩ := List.exists_cons_of_ne_nil some_
  exact ⟨span, List.mem_cons_self, rfl⟩

theorem exists_stop_across (some_ : spans ≠ []) : ∃ span ∈ spans, (across spans).stop = span.stop := by
  obtain ⟨init, last, rfl⟩ := List.eq_nil_or_concat spans |>.resolve_left some_
  exact ⟨last, by simp, by simp [across, ending?]⟩

theorem ending?_eq_across (some_ : spans ≠ []) : ending? spans = some (across spans).stop := by
  obtain ⟨init, last, rfl⟩ := List.eq_nil_or_concat spans |>.resolve_left some_
  simp [across, ending?]

theorem union_eq (begins : first.start ≤ second.start) (ends : first.stop ≤ second.stop) :
    first.union second = ⟨first.start, second.stop⟩ := by
  have least : min first.start second.start = first.start := if_pos begins
  have most : max first.stop second.stop = second.stop := if_pos ends
  rw [union, least, most]

namespace InOrder

theorem nil : InOrder [] := ⟨.nil, nofun⟩

theorem append_iff : InOrder (spans ++ others) ↔ InOrder spans ∧ InOrder others ∧
    ∀ before ∈ spans, ∀ behind ∈ others, before.stop ≤ behind.start := by
  constructor
  · rintro ⟨ordered, solid⟩
    obtain ⟨here, there, between⟩ := List.pairwise_append.1 ordered
    rw [List.forall_mem_append] at solid
    exact ⟨⟨here, solid.1⟩, ⟨there, solid.2⟩, between⟩
  · rintro ⟨here, there, between⟩
    exact ⟨List.pairwise_append.2 ⟨here.ordered, there.ordered, between⟩,
      List.forall_mem_append.2 ⟨here.solid, there.solid⟩⟩

theorem sublist (row : InOrder spans) (within : others.Sublist spans) : InOrder others :=
  ⟨row.ordered.sublist within, fun span inside => row.solid span (within.subset inside)⟩

theorem within_across (row : InOrder spans) :
    ∀ span ∈ spans, (across spans).start ≤ span.start ∧ span.stop ≤ (across spans).stop := by
  intro span inside
  constructor
  · obtain ⟨head, others, rfl⟩ := List.exists_cons_of_ne_nil (List.ne_nil_of_mem inside)
    rcases List.mem_cons.1 inside with rfl | behind
    · exact Position.le_refl _
    · have first := row.solid head List.mem_cons_self
      exact Position.le_trans first.le ((List.pairwise_cons.1 row.ordered).1 span behind)
  · obtain ⟨init, last, rfl⟩ := List.eq_nil_or_concat spans |>.resolve_left (List.ne_nil_of_mem inside)
    rw [List.concat_eq_append] at row inside ⊢
    obtain ⟨-, final, earlier⟩ := append_iff.1 row
    have stop : (across (init ++ [last])).stop = last.stop := by simp [across, ending?]
    rw [stop]
    rcases List.mem_append.1 inside with before | here
    · have ends := final.solid last List.mem_cons_self
      exact Position.le_trans (earlier span before last List.mem_cons_self) ends.le
    · rw [List.mem_singleton.1 here]
      exact Position.le_refl _

theorem solid_across (row : InOrder spans) (some_ : spans ≠ []) :
    (across spans).start.Before (across spans).stop := by
  obtain ⟨span, others, rfl⟩ := List.exists_cons_of_ne_nil some_
  have within := row.within_across span List.mem_cons_self
  exact (row.solid span List.mem_cons_self).trans_le within.2

theorem union_across {between : List Span} (row : InOrder (spans ++ (between ++ others))) (first : spans ≠ [])
    (last : others ≠ []) : (across spans).union (across others) = across (spans ++ (between ++ others)) := by
  obtain ⟨here, rest, earlier⟩ := append_iff.1 row
  obtain ⟨-, there, -⟩ := append_iff.1 rest
  obtain ⟨tail, final, stop⟩ := exists_stop_across first
  obtain ⟨head, begins, start⟩ := exists_start_across last
  have apart : (across spans).stop ≤ (across others).start := by
    rw [stop, start]
    exact earlier tail final head (List.mem_append_right _ begins)
  have forward := (here.solid_across first).le
  have onward := (there.solid_across last).le
  rw [union_eq (Position.le_trans forward apart) (Position.le_trans apart onward)]
  have begin_ : beginning? (spans ++ (between ++ others)) = beginning? spans := by
    obtain ⟨span, behind, rfl⟩ := List.exists_cons_of_ne_nil first
    rfl
  have end_ : ending? (spans ++ (between ++ others)) = some (across others).stop := by
    rw [ending?_append, ending?_append, ending?_eq_across last]
    rfl
  rw [across.eq_def (spans ++ (between ++ others)), begin_, end_]
  rfl

end InOrder

inductive Parted : List Span → List Span → Prop where
  | nil : Parted [] []
  | skip {span : Span} {spans parts : List Span} (rest : Parted spans parts) : Parted (span :: spans) parts
  | run {run spans parts : List Span} (some_ : run ≠ []) (rest : Parted spans parts) :
    Parted (run ++ spans) (across run :: parts)

namespace Parted

variable {parts further : List Span}

theorem none (spans : List Span) : Parted spans [] := by
  induction spans with
  | nil => exact .nil
  | cons span spans ih => exact .skip ih

theorem whole (some_ : spans ≠ []) : Parted spans [across spans] := by
  have run := Parted.run some_ .nil
  rwa [List.append_nil] at run

theorem one {span : Span} (rest : Parted spans parts) : Parted (span :: spans) (span :: parts) :=
  have run : Parted ([span] ++ spans) (across [span] :: parts) := .run (List.cons_ne_nil span []) rest
  run

theorem append (here : Parted spans parts) (there : Parted others further) :
    Parted (spans ++ others) (parts ++ further) := by
  induction here with
  | nil => exact there
  | skip _ ih => exact .skip ih
  | run some_ _ ih =>
    rw [List.append_assoc, List.cons_append]
    exact .run some_ ih

theorem ends (parted : Parted spans parts) : ∀ part ∈ parts,
    (∃ span ∈ spans, part.start = span.start) ∧ ∃ span ∈ spans, part.stop = span.stop := by
  induction parted with
  | nil => nofun
  | skip _ ih =>
    intro part inside
    obtain ⟨⟨head, begins, start⟩, ⟨last, ends, stop⟩⟩ := ih part inside
    exact ⟨⟨head, List.mem_cons_of_mem _ begins, start⟩, ⟨last, List.mem_cons_of_mem _ ends, stop⟩⟩
  | @run run spans parts some_ _ ih =>
    intro part inside
    rcases List.mem_cons.1 inside with rfl | inside
    · obtain ⟨head, behind, begins⟩ := List.exists_cons_of_ne_nil some_
      obtain ⟨init, last, ends⟩ := List.eq_nil_or_concat run |>.resolve_left some_
      refine ⟨⟨head, by simp [begins], ?_⟩, ⟨last, by simp [ends], ?_⟩⟩
      · simp [across, begins]
      · simp [across, ends, ending?]
    · obtain ⟨⟨head, begins, start⟩, ⟨last, ends, stop⟩⟩ := ih part inside
      exact ⟨⟨head, List.mem_append_right _ begins, start⟩, ⟨last, List.mem_append_right _ ends, stop⟩⟩

theorem inOrder (parted : Parted spans parts) (row : InOrder spans) : InOrder parts := by
  induction parted with
  | nil => exact .nil
  | @skip span spans parts _ ih => exact ih (row.sublist (List.sublist_cons_self ..))
  | @run run spans parts some_ rest ih =>
    obtain ⟨here, there, earlier⟩ := InOrder.append_iff.1 row
    have behind := ih there
    refine ⟨List.pairwise_cons.2 ⟨fun part inside => ?_, behind.ordered⟩,
      List.forall_mem_cons.2 ⟨here.solid_across some_, behind.solid⟩⟩
    obtain ⟨⟨head, begins, start⟩, -⟩ := rest.ends part inside
    obtain ⟨last, final, stop⟩ := ((whole some_).ends _ List.mem_cons_self).2
    rw [start, stop]
    exact earlier last final head begins

theorem holds (parted : Parted spans parts) (row : InOrder spans) (some_ : spans ≠ []) :
    (across spans).Holds parts := by
  refine ⟨row.solid_across some_, parted.inOrder row, fun part inside => ?_⟩
  obtain ⟨⟨head, begins, start⟩, ⟨last, ends, stop⟩⟩ := parted.ends part inside
  rw [start, stop]
  exact ⟨(row.within_across head begins).1, (row.within_across last ends).2⟩

theorem refl (spans : List Span) : Parted spans spans := by
  induction spans with
  | nil => exact .nil
  | cons span spans ih => exact ih.one

end Parted

theorem InOrder.foldl_union (row : InOrder (first :: spans)) :
    spans.foldl union first = across (first :: spans) := by
  induction spans generalizing first with
  | nil => rfl
  | cons second spans ih =>
    have both : InOrder ([first] ++ ([] ++ [second])) := row.sublist (by simp)
    have joined : first.union second = across [first, second] :=
      both.union_across (List.cons_ne_nil first []) (List.cons_ne_nil second [])
    have parted : Parted ([first, second] ++ spans) (across [first, second] :: spans) :=
      .run (List.cons_ne_nil first [second]) (.refl spans)
    rw [List.foldl_cons, joined, ih (parted.inOrder row)]
    apply across_congr
    · rfl
    · rw [ending?_cons, ending?_cons, ending?_cons]
      cases ending? spans <;> rfl

end Span

end TabScript
