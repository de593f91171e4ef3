import Mathlib.Data.List.Nodup
import Baley.Graph.Reach
import Baley.Scope.Serving

/-!
# Dependencies and the order of the phases

Every dependency of a declared phase is a declared one, and no declared phase depends on itself
through others.  The order lists each declared phase once.
-/

namespace Baley.Scope

open Relation

/-- What dependencies and the order ask of a phase. -/
def HeldPhase.outline (phase : HeldPhase) : Nat × Bool × List Nat :=
  (phase.number, phase.withdrawn, phase.dependsOn)

namespace Roadmap

/-- A declared phase depends on another one. -/
def DependsOn (roadmap : Roadmap) (number dependency : Nat) : Prop :=
  ∃ phase ∈ roadmap.phases, phase.number = number ∧ phase.withdrawn = false ∧
    dependency ∈ phase.dependsOn

structure Depending (roadmap : Roadmap) : Prop where
  /-- A phase, withdrawn or not, depends on phases that were declared once. -/
  dependencies_held : ∀ phase ∈ roadmap.phases, ∀ number ∈ phase.dependsOn,
    ∃ other ∈ roadmap.phases, other.number = number
  dependencies_declared : ∀ number dependency, roadmap.DependsOn number dependency →
    roadmap.Declared dependency
  acyclic : ∀ number, ¬ TransGen roadmap.DependsOn number number

/-- The order lists each declared phase once and no withdrawn one. -/
structure Ordered (roadmap : Roadmap) : Prop where
  order_nodup : roadmap.order.Nodup
  mem_order : ∀ number, number ∈ roadmap.order ↔ roadmap.Declared number

theorem depending_empty : Depending empty := by
  have none_depends (number dependency : Nat) : ¬ empty.DependsOn number dependency := by
    rintro ⟨phase, phase_mem, -⟩
    cases phase_mem
  constructor
  · simp [empty]
  · exact fun number dependency depends => absurd depends (none_depends number dependency)
  · intro number cycle
    obtain ⟨dependency, depends, -⟩ := TransGen.head'_iff.mp cycle
    exact none_depends number dependency depends

/-! ## What leaves the outlines as they are -/

section Outlines

variable {roadmap after : Roadmap}
  (outlines_eq : after.phases.map HeldPhase.outline = roadmap.phases.map HeldPhase.outline)

include outlines_eq

theorem exists_outline (holds : Nat × Bool × List Nat → Prop) :
    (∃ phase ∈ after.phases, holds phase.outline) ↔
      ∃ phase ∈ roadmap.phases, holds phase.outline := by
  have mapped (phases : List HeldPhase) : (∃ phase ∈ phases, holds phase.outline) ↔
      ∃ outline ∈ phases.map HeldPhase.outline, holds outline := by
    simp only [List.mem_map, exists_exists_and_eq_and]
  rw [mapped, mapped, outlines_eq]

theorem declared_congr (number : Nat) : after.Declared number ↔ roadmap.Declared number :=
  exists_outline outlines_eq fun outline => outline.1 = number ∧ outline.2.1 = false

theorem dependsOn_congr (number dependency : Nat) :
    after.DependsOn number dependency ↔ roadmap.DependsOn number dependency :=
  exists_outline outlines_eq fun outline =>
    outline.1 = number ∧ outline.2.1 = false ∧ dependency ∈ outline.2.2

theorem Depending.congr (depending : Depending roadmap) : Depending after := by
  have held_iff (number : Nat) :=
    exists_outline outlines_eq fun outline => outline.1 = number
  have same_edges : after.DependsOn = roadmap.DependsOn := by
    funext number dependency
    exact propext (dependsOn_congr outlines_eq number dependency)
  constructor
  · intro phase phase_mem number depends
    refine (held_iff number).mpr ?_
    obtain ⟨other, other_mem, depends⟩ := (exists_outline outlines_eq
      fun outline => number ∈ outline.2.2).mp ⟨phase, phase_mem, depends⟩
    exact depending.dependencies_held other other_mem number depends
  · intro number dependency depends
    rw [same_edges] at depends
    exact (declared_congr outlines_eq dependency).mpr
      (depending.dependencies_declared number dependency depends)
  · rw [same_edges]
    exact depending.acyclic

theorem Ordered.congr (order_eq : after.order = roadmap.order) (ordered : Ordered roadmap) :
    Ordered after := by
  constructor
  · exact order_eq ▸ ordered.order_nodup
  · intro number
    rw [order_eq, ordered.mem_order, declared_congr outlines_eq]

end Outlines

theorem outlines_reassigned (roadmap : Roadmap) (id : Nat) (status : HeldStatus)
    (destination : Option Nat) :
    (roadmap.reassigned id status destination).phases.map HeldPhase.outline =
      roadmap.phases.map HeldPhase.outline := by
  rw [reassigned, List.map_map]
  refine List.map_congr_left fun phase _ => ?_
  rw [Function.comp_apply, HeldPhase.outline, HeldPhase.number_relocate,
    HeldPhase.withdrawn_relocate, HeldPhase.dependsOn_relocate]
  rfl

/-! ## A phase declared -/

section Declaring

variable {roadmap : Roadmap} (ascending : (roadmap.phases.map HeldPhase.number).Pairwise (· < ·))
  {entry : HeldPhase} (stands : entry.withdrawn = false)

include ascending stands

theorem dependsOn_declarePhase (number dependency : Nat) :
    (roadmap.declarePhase entry).DependsOn number dependency ↔
      number = entry.number ∧ dependency ∈ entry.dependsOn ∨
        number ≠ entry.number ∧ roadmap.DependsOn number dependency := by
  have mem_iff := mem_declarePhase ascending entry
  constructor
  · rintro ⟨phase, phase_mem, rfl, phase_stands, depends⟩
    rcases (mem_iff phase).mp phase_mem with rfl | ⟨phase_mem, differs⟩
    · exact Or.inl ⟨rfl, depends⟩
    · exact Or.inr ⟨differs, phase, phase_mem, rfl, phase_stands, depends⟩
  · rintro (⟨rfl, depends⟩ | ⟨differs, phase, phase_mem, rfl, phase_stands, depends⟩)
    · exact ⟨entry, (mem_iff entry).mpr (Or.inl rfl), rfl, stands, depends⟩
    · exact ⟨phase, (mem_iff phase).mpr (Or.inr ⟨phase_mem, differs⟩), rfl, phase_stands, depends⟩

/-- A phase declared with declared dependencies and on no cycle. -/
theorem Depending.declarePhase (depending : Depending roadmap)
    (held : ∀ number ∈ entry.dependsOn, roadmap.Declared number)
    (through : ¬ TransGen (roadmap.declarePhase entry).DependsOn entry.number entry.number) :
    Depending (roadmap.declarePhase entry) := by
  have mem_iff := mem_declarePhase ascending entry
  have edges_iff := dependsOn_declarePhase ascending stands
  have declared_of {number : Nat} (was : roadmap.Declared number) :
      (roadmap.declarePhase entry).Declared number :=
    (declared_declarePhase ascending stands number).mpr (Or.inr was)
  have held_of {number : Nat} (was : ∃ other ∈ roadmap.phases, other.number = number) :
      ∃ other ∈ (roadmap.declarePhase entry).phases, other.number = number := by
    obtain ⟨other, other_mem, rfl⟩ := was
    by_cases same : other.number = entry.number
    · exact ⟨entry, (mem_iff entry).mpr (Or.inl rfl), same.symm⟩
    · exact ⟨other, (mem_iff other).mpr (Or.inr ⟨other_mem, same⟩), rfl⟩
  constructor
  · intro phase phase_mem number depends
    apply held_of
    rcases (mem_iff phase).mp phase_mem with rfl | ⟨phase_mem, -⟩
    · obtain ⟨other, other_mem, number_eq, -⟩ := held number depends
      exact ⟨other, other_mem, number_eq⟩
    · exact depending.dependencies_held phase phase_mem number depends
  · intro number dependency depends
    apply declared_of
    rcases (edges_iff number dependency).mp depends with ⟨-, depends⟩ | ⟨-, depends⟩
    · exact held dependency depends
    · exact depending.dependencies_declared number dependency depends
  · refine Graph.acyclic_of_changed ?_ depending.acyclic through
    intro number dependency differs depends
    exact ((edges_iff number dependency).mp depends).resolve_left (fun same => differs same.1) |>.2

/-- Nothing depends on a new phase, so it is on no cycle. -/
theorem Depending.declareNew (depending : Depending roadmap)
    (fresh : ¬ roadmap.Declared entry.number)
    (held : ∀ number ∈ entry.dependsOn, roadmap.Declared number) :
    Depending (roadmap.declarePhase entry) := by
  refine depending.declarePhase ascending stands held fun cycle => ?_
  obtain ⟨number, -, depends⟩ := TransGen.tail'_iff.mp cycle
  apply fresh
  rcases (dependsOn_declarePhase ascending stands number entry.number).mp depends with
    ⟨-, depends⟩ | ⟨-, depends⟩
  · exact held entry.number depends
  · exact depending.dependencies_declared number entry.number depends

/-- A new phase takes any place in the order. -/
theorem Ordered.declareNew (ordered : Ordered roadmap) (fresh : ¬ roadmap.Declared entry.number)
    {index : Nat} (inside : index ≤ roadmap.order.length) :
    Ordered
      { roadmap.declarePhase entry with order := roadmap.order.insertIdx index entry.number } := by
  have perm := List.perm_insertIdx entry.number roadmap.order inside
  constructor
  · refine perm.nodup_iff.mpr (List.nodup_cons.mpr ⟨?_, ordered.order_nodup⟩)
    exact fun placed => fresh ((ordered.mem_order entry.number).mp placed)
  · intro number
    rw [perm.mem_iff, List.mem_cons, ordered.mem_order]
    exact (declared_declarePhase ascending stands number).symm

theorem Ordered.declareAgain (ordered : Ordered roadmap) (again : roadmap.Declared entry.number) :
    Ordered (roadmap.declarePhase entry) := by
  constructor
  · exact ordered.order_nodup
  · intro number
    rw [declared_declarePhase ascending stands]
    refine (ordered.mem_order number).trans ⟨Or.inr, fun declared => ?_⟩
    exact declared.elim (fun number_eq => number_eq ▸ again) fun was => was

end Declaring

/-! ## A phase withdrawn -/

section Withdrawing

variable (roadmap : Roadmap) (number : Nat)

theorem declared_withdrawn (other : Nat) :
    (roadmap.withdrawn number).Declared other ↔ other ≠ number ∧ roadmap.Declared other := by
  simp only [Declared, withdrawn, List.mem_map, exists_exists_and_eq_and, HeldPhase.only]
  constructor
  · rintro ⟨phase, phase_mem, number_eq, stands⟩
    split_ifs at number_eq stands with same
    · cases stands
    · exact ⟨fun other_eq => same (number_eq.trans other_eq), phase, phase_mem, number_eq, stands⟩
  · rintro ⟨differs, phase, phase_mem, rfl, stands⟩
    exact ⟨phase, phase_mem, by rw [if_neg differs], by rwa [if_neg differs]⟩

theorem dependsOn_withdrawn (other dependency : Nat) :
    (roadmap.withdrawn number).DependsOn other dependency ↔
      other ≠ number ∧ roadmap.DependsOn other dependency := by
  simp only [DependsOn, withdrawn, List.mem_map, exists_exists_and_eq_and, HeldPhase.only]
  constructor
  · rintro ⟨phase, phase_mem, number_eq, stands, depends⟩
    split_ifs at number_eq stands depends with same
    · cases stands
    · exact ⟨fun other_eq => same (number_eq.trans other_eq), phase, phase_mem, number_eq, stands,
        depends⟩
  · rintro ⟨differs, phase, phase_mem, rfl, stands, depends⟩
    exact ⟨phase, phase_mem, by rw [if_neg differs], by rwa [if_neg differs],
      by rwa [if_neg differs]⟩

variable {roadmap number}

theorem Depending.withdraw (depending : Depending roadmap)
    (independent : ∀ other, other ≠ number → ¬ roadmap.DependsOn other number) :
    Depending (roadmap.withdrawn number) := by
  have edge_of {other dependency : Nat}
      (depends : (roadmap.withdrawn number).DependsOn other dependency) :
      other ≠ number ∧ roadmap.DependsOn other dependency :=
    (dependsOn_withdrawn roadmap number other dependency).mp depends
  constructor
  · simp only [withdrawn, List.mem_map, exists_exists_and_eq_and, HeldPhase.only]
    rintro _ ⟨phase, phase_mem, rfl⟩ dependency depends
    have depends_was : dependency ∈ phase.dependsOn := by
      split_ifs at depends
      · exact depends
      · exact depends
    obtain ⟨other, other_mem, rfl⟩ := depending.dependencies_held phase phase_mem dependency
      depends_was
    refine ⟨other, other_mem, ?_⟩
    split_ifs <;> rfl
  · intro other dependency depends
    obtain ⟨differs, depended⟩ := edge_of depends
    refine (declared_withdrawn roadmap number dependency).mpr
      ⟨?_, depending.dependencies_declared other dependency depended⟩
    rintro rfl
    exact independent other differs depended
  · intro other cycle
    have fewer : (roadmap.withdrawn number).DependsOn ≤ roadmap.DependsOn :=
      fun _ _ depends => (edge_of depends).2
    exact depending.acyclic other (TransGen.mono fewer other other cycle)

theorem Ordered.withdraw (ordered : Ordered roadmap) :
    Ordered
      { roadmap.withdrawn number with
        order := roadmap.order.filter fun other => other ≠ number } := by
  constructor
  · exact ordered.order_nodup.filter _
  · intro other
    rw [List.mem_filter, ordered.mem_order, decide_eq_true_eq, and_comm]
    exact (declared_withdrawn roadmap number other).symm

end Withdrawing

end Roadmap

end Baley.Scope
