import Mathlib.Data.List.TakeWhile
import Abac.Text.Basic

/-!
Trimming: what it takes off a text are characters of the class, and as many of them as there are on
either side.
-/

namespace Abac.Text

variable {drops : Char → Bool}

theorem trim_eq_self {chars : List Char} (hkept : ∀ c ∈ chars, drops c = false) :
    trim drops chars = chars := by
  have hfront : ∀ part : List Char, (∀ c ∈ part, drops c = false) →
      part.dropWhile drops = part := by
    intro part hpart
    cases part with
    | nil => rfl
    | cons c rest => simp [hpart c List.mem_cons_self]
  rw [trim, hfront chars hkept, hfront chars.reverse (by simpa using hkept), List.reverse_reverse]

/-- Trimming takes away characters of the class on both sides. -/
theorem exists_eq_append_trim (chars : List Char) :
    ∃ before after, chars = before ++ trim drops chars ++ after ∧
      (∀ c ∈ before, drops c = true) ∧ ∀ c ∈ after, drops c = true := by
  have hsplit : ∀ part : List Char, ∃ front, part = front ++ part.dropWhile drops ∧
      ∀ c ∈ front, drops c = true := by
    intro part
    exact ⟨part.takeWhile drops, List.takeWhile_append_dropWhile.symm,
      fun c hc => List.mem_takeWhile_imp hc⟩
  obtain ⟨before, hbefore, hdropped⟩ := hsplit chars
  obtain ⟨after, hafter, hdropped'⟩ := hsplit (chars.dropWhile drops).reverse
  refine ⟨before, after.reverse, ?_, hdropped, by simpa using hdropped'⟩
  have hback := congrArg List.reverse hafter
  rw [List.reverse_reverse, List.reverse_append] at hback
  rw [trim, List.append_assoc, ← hback]
  exact hbefore

/-- Characters of the class before and behind a text do not matter. -/
theorem trim_append {before after : List Char} (hbefore : ∀ c ∈ before, drops c = true)
    (body : List Char) (hafter : ∀ c ∈ after, drops c = true) :
    trim drops (before ++ body ++ after) = trim drops body := by
  have hback : ∀ part : List Char, (part ++ after).reverse.dropWhile drops =
      part.reverse.dropWhile drops := by
    intro part
    rw [List.reverse_append, List.dropWhile_append_of_pos (by simpa using hafter)]
  rw [trim, trim, List.append_assoc, List.dropWhile_append_of_pos hbefore, List.dropWhile_append]
  split
  · next hempty =>
    have hbody : body.dropWhile drops = [] := by simpa using hempty
    rw [hbody, List.dropWhile_eq_nil_iff.2 hafter]
  · rw [hback]

/-- A text that begins with a character that is kept keeps it at its front. -/
theorem trim_cons_of_kept {c : Char} (hkept : drops c = false)
    (rest : List Char) : ∃ tail, trim drops (c :: rest) = c :: tail := by
  have hfront : (c :: rest).dropWhile drops = c :: rest := by
    rw [List.dropWhile_cons, hkept]
    rfl
  rw [trim, hfront, List.reverse_cons, List.dropWhile_append]
  split
  · refine ⟨[], ?_⟩
    rw [List.dropWhile_cons, hkept]
    rfl
  · exact ⟨_, List.reverse_concat⟩

end Abac.Text
