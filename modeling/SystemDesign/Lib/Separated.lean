/-
  Lists of texts in one text, by a separator.

  `joinBy sep` writes the texts with the separator between them; `splitBy sep` reads them, the
  empty text being the empty list.  Reading undoes writing for the lists that `Separable`
  describes (`splitBy_joinBy`), and no other list is ever read (`separable_splitBy`).
-/
import Mathlib

namespace Lib

variable {α : Type*} {sep : α}

/-- `ps.join(sep)` -/
def joinBy (sep : α) (ps : List (List α)) : List α := [sep].intercalate ps

theorem joinBy_eq_nil {ps : List (List α)} (h : joinBy sep ps = []) : ps = [] ∨ ps = [[]] := by
  rcases ps with _ | ⟨p, _ | ⟨q, qs⟩⟩
  · exact Or.inl rfl
  · exact Or.inr (by simpa [joinBy] using h)
  · simp [joinBy, List.intercalate_cons_cons] at h

variable [DecidableEq α]

/-- `t.split(sep)`, and the empty list for the empty text. -/
def splitBy (sep : α) (t : List α) : List (List α) := if t.isEmpty then [] else t.splitOn sep

/-- The lists that can be read: no text contains the separator, and one text is not empty. -/
def Separable (sep : α) (ps : List (List α)) : Prop := (∀ p ∈ ps, sep ∉ p) ∧ ps ≠ [[]]

instance (sep : α) (ps : List (List α)) : Decidable (Separable sep ps) :=
  inferInstanceAs (Decidable (_ ∧ _))

/-- The separator is in none of the pieces. -/
theorem not_mem_of_mem_splitOn {t p : List α} (h : p ∈ t.splitOn sep) : sep ∉ p := by
  induction t generalizing p with
  | nil =>
    rw [List.splitOn_nil, List.mem_singleton] at h
    simp [h]
  | cons x t ih =>
    rw [List.splitOn_cons_eq_if_modifyHead] at h
    split_ifs at h with hx
    · rcases List.mem_cons.1 h with rfl | h
      · exact List.not_mem_nil
      · exact ih h
    · obtain ⟨q, qs, hq⟩ := List.exists_cons_of_ne_nil (List.splitOn_ne_nil sep t)
      rw [hq, List.modifyHead_cons, List.mem_cons] at h
      rcases h with rfl | h
      · have hxs : sep ≠ x := fun he => hx (by simp [he])
        exact List.not_mem_cons_of_ne_of_not_mem hxs (ih (hq ▸ List.mem_cons_self))
      · exact ih (hq ▸ List.mem_cons_of_mem _ h)

/-- What is read is separable. -/
theorem separable_splitBy (t : List α) : Separable sep (splitBy sep t) := by
  unfold splitBy
  split_ifs with ht
  · exact ⟨by simp, by simp⟩
  · refine ⟨fun p hp => not_mem_of_mem_splitOn hp, fun he => ht ?_⟩
    have ht' : [sep].intercalate (t.splitOn sep) = t := List.intercalate_splitOn sep
    rw [he] at ht'
    simpa using ht'.symm

theorem joinBy_splitBy (t : List α) : joinBy sep (splitBy sep t) = t := by
  unfold splitBy
  split_ifs with ht
  · exact (List.isEmpty_iff.1 ht).symm
  · exact List.intercalate_splitOn sep

/-- **A separable list is read back.** -/
theorem splitBy_joinBy {ps : List (List α)} (h : Separable sep ps) : splitBy sep (joinBy sep ps) = ps := by
  unfold splitBy
  split_ifs with ht
  · rcases joinBy_eq_nil (List.isEmpty_iff.1 ht) with rfl | rfl
    · rfl
    · exact absurd rfl h.2
  · refine List.splitOn_intercalate sep h.1 ?_
    rintro rfl
    exact ht rfl

end Lib
