import Mathlib.Data.List.Count
import Mathlib.Tactic.Common

/-!
The order of the calls made to a listener: those that hand something over
(`read`) come after it has been introduced (`made`) and before it is
dismissed (`lost`), which happens at most once.
-/

namespace Tokioop.Kit

variable {ε : Type}

structure Orderly (made read lost : ε → Bool) (calls : List ε) : Prop where
  introduced : ∀ before e after, calls = before ++ e :: after → read e = true →
    ∃ m ∈ before, made m = true
  undismissed : ∀ before e after, calls = before ++ e :: after → read e = true →
    ∀ l ∈ before, lost l = false
  once : calls.countP lost ≤ 1

namespace Orderly

variable {made read lost : ε → Bool} {calls : List ε}

theorem nil : Orderly made read lost [] :=
  ⟨fun before _ _ h => by simp at h, fun before _ _ h => by simp at h, by simp⟩

/-- The calls before an occurrence of `e` in a list that has been extended. -/
private theorem split_append {new before after : List ε} {e : ε}
    (h : calls ++ new = before ++ e :: after) :
    (∃ rest, calls = before ++ e :: rest) ∨ (∃ more, before = calls ++ more ∧ e ∈ new) := by
  rcases List.append_eq_append_iff.mp h with ⟨more, hbefore, hnew⟩ | ⟨rest, hcalls, hrest⟩
  · exact .inr ⟨more, hbefore, by simp [hnew]⟩
  · cases rest with
    | nil =>
        refine .inr ⟨[], by simpa using hcalls.symm, ?_⟩
        simp only [List.nil_append] at hrest
        simp [← hrest]
    | cons e' rest =>
        obtain ⟨rfl, -⟩ := List.cons.inj hrest
        exact .inl ⟨rest, hcalls⟩

/-- Calls that hand nothing over may be made at any time. -/
theorem append (h : Orderly made read lost calls) {new : List ε} (hnew : ∀ e ∈ new, read e = false)
    (honce : (calls ++ new).countP lost ≤ 1) : Orderly made read lost (calls ++ new) := by
  refine ⟨fun before e after heq he => ?_, fun before e after heq he => ?_, honce⟩
  · rcases split_append heq with ⟨rest, hcalls⟩ | ⟨more, -, hmem⟩
    · exact h.introduced before e rest hcalls he
    · rw [hnew e hmem] at he
      cases he
  · rcases split_append heq with ⟨rest, hcalls⟩ | ⟨more, -, hmem⟩
    · exact h.undismissed before e rest hcalls he
    · rw [hnew e hmem] at he
      cases he

/-- A call that hands something over needs an introduction, and no dismissal. -/
theorem hand (h : Orderly made read lost calls) {e : ε} (hmade : ∃ m ∈ calls, made m = true)
    (hlost : calls.countP lost = 0) (he : lost e = false) :
    Orderly made read lost (calls ++ [e]) := by
  refine ⟨fun before e' after heq he' => ?_, fun before e' after heq he' => ?_, ?_⟩
  · rcases split_append heq with ⟨rest, hcalls⟩ | ⟨more, rfl, -⟩
    · exact h.introduced before e' rest hcalls he'
    · obtain ⟨m, hm, hmade⟩ := hmade
      exact ⟨m, List.mem_append_left _ hm, hmade⟩
  · rcases split_append heq with ⟨rest, hcalls⟩ | ⟨more, rfl, -⟩
    · exact h.undismissed before e' rest hcalls he'
    · -- The last call is the occurrence in question.
      have hmore : more = [] := by
        have hlen := congrArg List.length heq
        simp only [List.length_append, List.length_cons, List.length_nil] at hlen
        exact List.length_eq_zero_iff.mp (by omega)
      intro l hl
      rw [hmore, List.append_nil] at hl
      exact Bool.eq_false_iff.mpr (List.countP_eq_zero.mp hlost l hl)
  · simp [List.countP_append, hlost, he]

end Orderly

end Tokioop.Kit
