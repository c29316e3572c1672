import Phrasebook.Bytes

/-!
# Trimmed texts

A text is trimmed when no blank stands at its two ends. Trimming gives such a text (`Bytes.isTrimmed_trim`) and changes no other
(`Bytes.trim_eq_self`).
-/

namespace Phrasebook.Bytes

/-- No blank stands at the two ends of a text. -/
structure IsTrimmed (s : Bytes) : Prop where
  head : ∀ b, s.head? = some b → isBlank b = false
  last : ∀ b, s.getLast? = some b → isBlank b = false

theorem head?_dropWhile {p : UInt8 → Bool} {s : Bytes} {b : UInt8} (h : (s.dropWhile p).head? = some b) : p b = false := by
  have := List.head?_dropWhile_not p s
  rwa [h] at this

theorem dropWhile_eq_self {p : UInt8 → Bool} {s : Bytes} (h : ∀ b, s.head? = some b → p b = false) : s.dropWhile p = s := by
  cases s with
  | nil => rfl
  | cons b s => rw [List.dropWhile_cons_of_neg (by simp [h b rfl])]

theorem trimEnd_prefix (s : Bytes) : trimEnd s <+: s := by
  rw [trimEnd_eq, ← List.reverse_suffix, List.reverse_reverse]
  exact List.dropWhile_suffix _

/-- Trimming leaves no blank at the two ends. -/
theorem isTrimmed_trim (s : Bytes) : IsTrimmed (trim s) where
  head := by
    intro b hb
    obtain ⟨t, ht⟩ := trimEnd_prefix (trimStart s)
    have h : (trimStart s).head? = some b := by
      rw [← ht, List.head?_append, show (trimEnd (trimStart s)).head? = some b from hb]
      rfl
    exact head?_dropWhile h
  last := by
    intro b hb
    rw [trim, trimEnd_eq, List.getLast?_reverse] at hb
    exact head?_dropWhile hb

theorem notMem_trim {b : UInt8} {s : Bytes} (h : b ∉ s) : b ∉ trim s := by
  intro hb
  have hstart : trim s ⊆ trimStart s := List.IsPrefix.subset <| trimEnd_prefix (trimStart s)
  exact h ((List.dropWhile_suffix isBlank).subset (hstart hb))

theorem trim_eq_self {s : Bytes} (h : IsTrimmed s) : trim s = s := by
  have hs : trimStart s = s := dropWhile_eq_self h.head
  have hr : s.reverse.dropWhile isBlank = s.reverse := dropWhile_eq_self fun b hb => h.last b (by rwa [List.head?_reverse] at hb)
  rw [trim, hs, trimEnd_eq, hr, List.reverse_reverse]

/-- A text of blanks alone. -/
def IsBlanks (s : Bytes) : Prop := ∀ b ∈ s, isBlank b = true

instance (s : Bytes) : Decidable (IsBlanks s) := decidable_of_iff (s.all isBlank = true) List.all_eq_true

theorem IsBlanks.trimStart {s : Bytes} (h : IsBlanks s) : trimStart s = [] := by
  have hall := @List.dropWhile_append_of_pos _ isBlank s [] h
  rwa [List.append_nil] at hall

theorem IsBlanks.trimEnd_append {gap : Bytes} (h : IsBlanks gap) (s : Bytes) : trimEnd (s ++ gap) = trimEnd s := by
  have hgap : ∀ b ∈ gap.reverse, isBlank b = true := fun b hb => h b (List.mem_reverse.mp hb)
  rw [trimEnd_eq, trimEnd_eq, List.reverse_append, List.dropWhile_append_of_pos hgap]

/-- Trimming takes blanks from the end. -/
theorem trim_append {gap : Bytes} (h : IsBlanks gap) (s : Bytes) : trim (s ++ gap) = trim s := by
  have hstart : trimStart (s ++ gap) = if (trimStart s).isEmpty then trimStart gap else trimStart s ++ gap := List.dropWhile_append
  rw [trim, hstart, trim]
  split
  · rename_i hs
    rw [h.trimStart, List.isEmpty_iff.mp hs]
  · exact h.trimEnd_append _

theorem append_trim {gap : Bytes} (h : IsBlanks gap) (s : Bytes) : trim (gap ++ s) = trim s := by
  rw [trim, trimStart, List.dropWhile_append_of_pos h]
  rfl

/-- What trimming takes from the end of a text are blanks. -/
theorem exists_eq_trimEnd_append (s : Bytes) : ∃ gap, IsBlanks gap ∧ s = trimEnd s ++ gap := by
  refine ⟨(s.reverse.takeWhile isBlank).reverse, fun b hb => ?_, ?_⟩
  · exact List.all_eq_true.mp List.all_takeWhile b (List.mem_reverse.mp hb)
  · rw [trimEnd_eq, ← List.reverse_append, List.takeWhile_append_dropWhile, List.reverse_reverse]

/-- A text that does not start with a blank is the text trimmed, and blanks behind it. -/
theorem exists_eq_trim_append {s : Bytes} (h : ∀ b, s.head? = some b → isBlank b = false) :
    ∃ gap, IsBlanks gap ∧ s = trim s ++ gap := by
  have hstart : trimStart s = s := dropWhile_eq_self h
  rw [trim, hstart]
  exact exists_eq_trimEnd_append s

/-- Trimming takes blanks from the two ends of a text, and nothing else. -/
theorem exists_eq_append_trim_append (s : Bytes) : ∃ before after, IsBlanks before ∧ IsBlanks after ∧ s = before ++ trim s ++ after := by
  have hbefore : IsBlanks (s.takeWhile isBlank) := fun b hb => List.all_eq_true.mp List.all_takeWhile b hb
  have hs : s = s.takeWhile isBlank ++ trimStart s := List.takeWhile_append_dropWhile.symm
  obtain ⟨after, hafter, hend⟩ := exists_eq_trimEnd_append (trimStart s)
  refine ⟨s.takeWhile isBlank, after, hbefore, hafter, ?_⟩
  rw [List.append_assoc, trim, ← hend]
  exact hs

end Phrasebook.Bytes
