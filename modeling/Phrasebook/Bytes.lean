/-!
# Byte strings

Every text of the library is a string of bytes, in no particular encoding: a length counts bytes, the order is the order of
the bytes, and the classes below (blanks, letters, digits, the two cases) know ASCII alone, so a byte from 128 up is no blank,
no letter and its own lower case. A literal of the library stands for its UTF-8 form (`utf8`).
-/

namespace Phrasebook

/-- A text: a string of bytes. -/
abbrev Bytes : Type := List UInt8

/-- The bytes of a literal: its UTF-8 form. -/
def utf8 (s : String) : Bytes := s.toList.flatMap String.utf8EncodeChar

/-- A line feed, the end of a line. -/
def lineFeed : UInt8 := 10

/-- A blank is a space, or one of the bytes 9 to 13: tab, line feed, vertical tab, form feed, carriage return. -/
def isBlank (b : UInt8) : Bool := b == 32 || (9 ≤ b && b ≤ 13)

/-- A letter or a digit of ASCII. -/
def isAlphanumeric (b : UInt8) : Bool := (48 ≤ b && b ≤ 57) || (65 ≤ b && b ≤ 90) || (97 ≤ b && b ≤ 122)

/-- The lower case of a byte: a capital letter of ASCII becomes its small letter, every other byte stays. -/
def lowerByte (b : UInt8) : UInt8 := if 65 ≤ b && b ≤ 90 then b + 32 else b

namespace Bytes

/-- The text without the blanks it starts with. -/
def trimStart (s : Bytes) : Bytes := s.dropWhile isBlank

/-- The text without the blanks it ends with. Only a text that ends with one has any to lose (`trimEnd_eq`). -/
def trimEnd (s : Bytes) : Bytes := if s.getLast?.any isBlank then (s.reverse.dropWhile isBlank).reverse else s

/-- The text without the blanks at its two ends; a text of blanks alone becomes empty. -/
def trim (s : Bytes) : Bytes := trimEnd (trimStart s)

/-- The text in lower case, byte by byte. -/
def lower (s : Bytes) : Bytes := s.map lowerByte

/-- The text up to its first NUL: what a reader of NUL-terminated texts sees of it. A text without a NUL is seen whole
(`untilNul_eq`). -/
def untilNul (s : Bytes) : Bytes := if s.contains 0 then s.takeWhile (· != 0) else s

/-- What stands before the first byte of a kind and what stands after it, if the text holds one. -/
def cutAt? (b : UInt8) (s : Bytes) : Option (Bytes × Bytes) :=
  match s.dropWhile (· != b) with
  | [] => none
  | _ :: rest => some (s.takeWhile (· != b), rest)

/-- Whether a text occurs in another, as one piece. -/
def occursIn (piece : Bytes) : Bytes → Bool
  | [] => piece.isEmpty
  | b :: s => piece.isPrefixOf (b :: s) || occursIn piece s

/-- The text filled up with spaces at its end to a width; a text as wide or wider stays. -/
def padTo (width : Nat) (s : Bytes) : Bytes := s ++ List.replicate (width - s.length) 32

/-! ## What the operations do -/

/-- What is left without the blanks at the end is what is left, read backwards, without the blanks at the start. -/
theorem trimEnd_eq (s : Bytes) : trimEnd s = (s.reverse.dropWhile isBlank).reverse := by
  unfold trimEnd
  split
  · rfl
  · rename_i h
    rw [← List.head?_reverse] at h
    cases hr : s.reverse with
    | nil => simpa using hr
    | cons b t =>
      have hb : ¬isBlank b = true := by simpa [hr] using h
      rw [List.dropWhile_cons_of_neg hb, ← hr, List.reverse_reverse]

/-- The text up to its first NUL is its longest part at the start without one. -/
theorem untilNul_eq (s : Bytes) : untilNul s = s.takeWhile (· != 0) := by
  unfold untilNul
  split
  · rfl
  · rename_i h
    rw [List.contains_iff_mem] at h
    induction s with
    | nil => rfl
    | cons b s ih =>
      have hb : (b != 0) = true := by simpa using (List.ne_of_not_mem_cons h).symm
      rw [List.takeWhile_cons, hb, ← ih (List.not_mem_of_not_mem_cons h)]
      rfl

/-- Cutting a text at a byte loses nothing but that byte. -/
theorem eq_of_cutAt? {b : UInt8} {s head rest : Bytes} (h : cutAt? b s = some (head, rest)) : s = head ++ b :: rest := by
  have e := @List.takeWhile_append_dropWhile _ (· != b) s
  unfold cutAt? at h
  split at h
  · exact absurd h nofun
  · rename_i x t hd
    have hx : (x != b) = false := by
      have := List.head?_dropWhile_not (· != b) s
      rw [hd] at this
      simpa using this
    have hxb : x = b := by simpa using hx
    simp only [Option.some.injEq, Prod.mk.injEq] at h
    rw [hd, h.1, h.2, hxb] at e
    exact e.symm

/-- The part before the cut does not hold the byte cut at. -/
theorem notMem_of_cutAt? {b : UInt8} {s head rest : Bytes} (h : cutAt? b s = some (head, rest)) : b ∉ head := by
  unfold cutAt? at h
  split at h
  · exact absurd h nofun
  · simp only [Option.some.injEq, Prod.mk.injEq] at h
    rw [← h.1]
    intro hm
    simpa using List.all_eq_true.mp (List.all_takeWhile (l := s)) b hm

/-- A piece of a text cut at every byte of a kind holds no such byte. -/
theorem notMem_of_mem_splitOn {b : UInt8} {s piece : Bytes} (h : piece ∈ s.splitOn b) : b ∉ piece := by
  induction s generalizing piece with
  | nil =>
    rw [List.splitOn_nil, List.mem_singleton] at h
    rw [h]
    exact List.not_mem_nil
  | cons x s ih =>
    rw [List.splitOn_cons_eq_if_modifyHead] at h
    split at h
    · rcases List.mem_cons.mp h with rfl | h
      · exact List.not_mem_nil
      · exact ih h
    · rename_i hx
      obtain ⟨first, rest, hsplit⟩ := List.exists_cons_of_ne_nil (List.splitOn_ne_nil b s)
      rw [hsplit] at ih
      rw [hsplit, List.modifyHead_cons] at h
      obtain ⟨hfirst, hrest⟩ := List.forall_mem_cons.mp fun piece => @ih piece
      rcases List.mem_cons.mp h with rfl | h
      · exact List.not_mem_cons_of_ne_of_not_mem (fun e => hx (by simp [e])) hfirst
      · exact hrest _ h

/-- A text occurs in another when something before it and something after it make up the other. -/
theorem occursIn_iff {piece s : Bytes} : occursIn piece s = true ↔ piece <:+: s := by
  induction s with
  | nil => simp [occursIn]
  | cons b s ih => rw [occursIn, Bool.or_eq_true, ih, List.isPrefixOf_iff_prefix, List.infix_cons_iff]

@[simp] theorem length_lower (s : Bytes) : (lower s).length = s.length := List.length_map _

theorem le_length_padTo (width : Nat) (s : Bytes) : width ≤ (padTo width s).length := by
  simp only [padTo, List.length_append, List.length_replicate]
  omega

end Bytes

end Phrasebook
