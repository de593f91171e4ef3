import Mathlib.Data.List.Induction
import Mathlib.Data.List.Forall2

/-!
# Hash chains

Entries carry a hash and the hash of the entry before them.  Where a hash binds its entry, one hash
binds every entry up to it.
-/

namespace HashChain

variable {E H : Type}

/-- The hash the next entry must link to. -/
def tip (hash : E → H) (link : Option H) (entries : List E) : Option H :=
  (entries.getLast?.map hash).or link

/-- Each entry links to the hash of the entry before it, the first to `link`. -/
def Linked (prev : E → Option H) (hash : E → H) : Option H → List E → Prop
  | _, [] => True
  | link, entry :: entries => prev entry = link ∧ Linked prev hash (some (hash entry)) entries

variable {prev : E → Option H} {hash : E → H}

@[simp]
theorem tip_nil (link : Option H) : tip hash link [] = link := by
  simp [tip]

@[simp]
theorem tip_append_singleton (link : Option H) (entries : List E) (entry : E) :
    tip hash link (entries ++ [entry]) = some (hash entry) := by
  simp [tip]

theorem tip_cons (link : Option H) (entry : E) (entries : List E) :
    tip hash link (entry :: entries) = tip hash (some (hash entry)) entries := by
  cases entries with
  | nil => simp [tip]
  | cons next entries =>
      have last_ne : (next :: entries).getLast? ≠ none := by simp
      obtain ⟨last, last_eq⟩ := Option.ne_none_iff_exists'.mp last_ne
      simp [tip, List.getLast?_cons_cons, last_eq]

theorem linked_append {link : Option H} {front back : List E} :
    Linked prev hash link (front ++ back) ↔
      Linked prev hash link front ∧ Linked prev hash (tip hash link front) back := by
  induction front generalizing link with
  | nil => simp [Linked]
  | cons entry front ih => simp [Linked, ih, tip_cons, and_assoc]

theorem linked_append_singleton {link : Option H} {entries : List E} {entry : E} :
    Linked prev hash link (entries ++ [entry]) ↔
      Linked prev hash link entries ∧ prev entry = tip hash link entries := by
  simp [linked_append, Linked]

theorem linked_append_left {link : Option H} {front back : List E}
    (linked : Linked prev hash link (front ++ back)) : Linked prev hash link front :=
  (linked_append.mp linked).1

/-- Two chains of one length that end in one hash agree entry by entry, when a hash binds its entry
and its entry's link. -/
theorem forall₂_of_tip_eq {agree : E → E → Prop} {first second : List E}
    (binds : ∀ a ∈ first, ∀ b ∈ second, hash a = hash b → agree a b)
    (agree_prev : ∀ a b, agree a b → prev a = prev b)
    (first_linked : Linked prev hash none first) (second_linked : Linked prev hash none second)
    (length_eq : first.length = second.length)
    (tip_eq : tip hash none first = tip hash none second) : List.Forall₂ agree first second := by
  induction first using List.reverseRecOn generalizing second with
  | nil =>
      obtain rfl := List.length_eq_zero_iff.mp length_eq.symm
      exact List.Forall₂.nil
  | append_singleton first entry ih =>
      rcases List.eq_nil_or_concat' second with rfl | ⟨second, other, rfl⟩
      · simp at length_eq
      · rw [tip_append_singleton, tip_append_singleton, Option.some.injEq] at tip_eq
        rw [linked_append_singleton] at first_linked second_linked
        have agrees := binds entry (by simp) other (by simp) tip_eq
        have front_tip : tip hash none first = tip hash none second := by
          rw [← first_linked.2, ← second_linked.2]
          exact agree_prev _ _ agrees
        have front_agree := ih
          (fun a a_mem b b_mem => binds a (by simp [a_mem]) b (by simp [b_mem]))
          first_linked.1 second_linked.1 (by simpa using length_eq) front_tip
        exact List.rel_append front_agree (List.Forall₂.cons agrees List.Forall₂.nil)

end HashChain
