import Mathlib.Data.List.Basic

/-!
# Histories

A history is the list of what happened, oldest first.  It is justified when everything in it
is, by what happened before.
-/

universe u

namespace History

variable {α : Type u} {P : List α → α → Prop} {history : List α}

/-- Everything that happened is justified by what happened before. -/
def Justified (P : List α → α → Prop) (history : List α) : Prop :=
  ∀ before a after, history = before ++ a :: after → P before a

theorem justified_nil : Justified P [] := by
  intro before a after h
  simp at h

/-- Something in two histories after each other is in the one or in the other. -/
theorem append_eq_split {news before after : List α} {a : α}
    (h : history ++ news = before ++ a :: after) :
    (∃ after', history = before ++ a :: after') ∨
      ∃ before', before = history ++ before' ∧ news = before' ++ a :: after := by
  rcases List.append_eq_append_iff.mp h with ⟨rest, hbefore, hnews⟩ | ⟨rest, hhistory, hrest⟩
  · exact .inr ⟨rest, hbefore, hnews⟩
  · cases rest with
    | nil =>
      rw [List.append_nil] at hhistory
      exact .inr ⟨[], by rw [hhistory, List.append_nil], hrest.symm⟩
    | cons a' rest =>
      obtain ⟨rfl, -⟩ := List.cons.inj hrest
      exact .inl ⟨rest, hhistory⟩

/-- What happens next has to be justified by the history and by what has happened since. -/
theorem Justified.append (h : Justified P history) {news : List α}
    (hnews : ∀ before a after, news = before ++ a :: after → P (history ++ before) a) :
    Justified P (history ++ news) := by
  intro before a after heq
  rcases append_eq_split heq with ⟨after', hhistory⟩ | ⟨before', rfl, hsplit⟩
  · exact h before a after' hhistory
  · exact hnews before' a after hsplit

theorem Justified.concat (h : Justified P history) {a : α} (ha : P history a) :
    Justified P (history ++ [a]) := by
  refine h.append ?_
  intro before b after heq
  cases before with
  | nil =>
    obtain ⟨rfl, -⟩ := List.cons.inj heq
    rwa [List.append_nil]
  | cons b before =>
    obtain ⟨-, hnil⟩ := List.cons.inj heq
    simp at hnil

end History
