import Phrasebook.Catalog.Line
import Phrasebook.Proofs.Trimming
import Mathlib.Data.List.Basic
import Mathlib.Data.List.TakeWhile

/-!
# Writing the lines of a catalog source

An entry is written `id: text` or `id(label): text`, a setting `@meta key = value`. The text of an entry is written with escapes for
what a line cannot hold or would lose: a backslash, a line feed, a carriage return and a tab have an escape each, and of the other
blanks only one at the very start is escaped. Reading a written line gives back the setting (`Line.read_settingLine`) or the entry
(`Line.read_sourceLine`). Nothing of it is taken for something else: no blank is trimmed away, no colon, parenthesis or equals sign
ends its part too early, and no written entry looks like a comment or a setting.
-/

namespace Phrasebook

namespace Bytes

/-! ## Cutting and trimming written texts -/

/-- A text without the byte cannot be cut at it. -/
theorem cutAt?_of_notMem {b : UInt8} {s : Bytes} (h : b ∉ s) : cutAt? b s = none := by
  have hd : s.dropWhile (· != b) = [] := by
    refine List.dropWhile_eq_nil_iff.mpr fun x hx => ?_
    have hne : x ≠ b := fun e => h (e ▸ hx)
    simpa using hne
  simp [cutAt?, hd]

/-- A text is cut at the first byte of the kind. -/
theorem cutAt?_append {b : UInt8} {s : Bytes} (h : b ∉ s) (t : Bytes) : cutAt? b (s ++ b :: t) = some (s, t) := by
  have hs : ∀ x ∈ s, (x != b) = true := by
    intro x hx
    have hne : x ≠ b := fun e => h (e ▸ hx)
    simpa using hne
  have hd : (s ++ b :: t).dropWhile (· != b) = b :: t := by
    rw [List.dropWhile_append_of_pos hs, List.dropWhile_cons_of_neg (by simp)]
  have ht : (s ++ b :: t).takeWhile (· != b) = s := by
    rw [List.takeWhile_append_of_pos hs, List.takeWhile_cons_of_neg (by simp), List.append_nil]
  simp only [cutAt?, hd, ht]

theorem isTrimmed_of_forall {s : Bytes} (h : ∀ b ∈ s, isBlank b = false) : IsTrimmed s where
  head b hb := h b (List.mem_of_head? hb)
  last b hb := h b (List.mem_of_getLast? hb)

theorem trim_cons_of_isBlank {b : UInt8} (h : isBlank b = true) (s : Bytes) : trim (b :: s) = trim s := by
  rw [trim, trimStart, List.dropWhile_cons_of_pos h]
  rfl

/-- The end of a text is trimmed behind its last byte that is no blank. -/
theorem trimEnd_append_cons (s : Bytes) {b : UInt8} (h : isBlank b = false) (t : Bytes) :
    trimEnd (s ++ b :: t) = s ++ b :: trimEnd t := by
  have hb : ([b] ++ s.reverse).dropWhile isBlank = [b] ++ s.reverse := List.dropWhile_cons_of_neg (by simp [h])
  have hr : (s ++ b :: t).reverse = t.reverse ++ ([b] ++ s.reverse) := by simp
  rw [trimEnd_eq, trimEnd_eq, hr, List.dropWhile_append, hb]
  split
  · rename_i he
    rw [List.isEmpty_iff.mp he]
    simp
  · simp

/-- Of a trimmed text behind a blank the line keeps the text: trimmed at its end first and at its start then, it is as it was. -/
theorem trimStart_trimEnd_cons {b : UInt8} (hb : isBlank b = true) {s : Bytes} (hs : IsTrimmed s) :
    trimStart (trimEnd (b :: s)) = s := by
  rcases List.eq_nil_or_concat s with rfl | ⟨t, x, rfl⟩
  · simp [trimEnd, trimStart, hb]
  · rw [List.concat_eq_append] at hs ⊢
    have hx : isBlank x = false := hs.last x (by simp)
    rw [← List.cons_append, trimEnd_append_cons _ hx, show trimEnd [] = [] from rfl, trimStart, List.cons_append,
      List.dropWhile_cons_of_pos hb]
    exact dropWhile_eq_self hs.head

end Bytes

/-! ## Texts with escapes -/

/-- A byte of a text as it is written: a backslash, a line feed, a carriage return and a tab as an escape, any other as itself. -/
def escapedByte (b : UInt8) : Bytes :=
  if b = backslash then [backslash, backslash]
  else if b = 10 then [backslash, 110]
  else if b = 13 then [backslash, 114]
  else if b = 9 then [backslash, 116]
  else [b]

/-- A blank that is written as itself: a space, a vertical tab or a form feed. -/
def isBareBlank (b : UInt8) : Bool := b == 32 || b == 11 || b == 12

/-- A text as it is written: byte by byte, with one more backslash before a blank at its start that is written as itself. -/
def escaped (text : Bytes) : Bytes := (if text.head?.any isBareBlank then [backslash] else []) ++ text.flatMap escapedByte

theorem isBareBlank_iff {b : UInt8} : isBareBlank b = true ↔ b = 32 ∨ b = 11 ∨ b = 12 := by
  simp [isBareBlank, or_assoc]

/-- The blanks are the bare ones and the three that have an escape. -/
theorem isBlank_iff {b : UInt8} : isBlank b = true ↔ isBareBlank b = true ∨ b = 10 ∨ b = 13 ∨ b = 9 := by
  simp only [isBareBlank_iff, isBlank, Bool.or_eq_true, Bool.and_eq_true, beq_iff_eq, decide_eq_true_eq, UInt8.le_iff_toNat_le,
    ← UInt8.toNat_inj, UInt8.reduceToNat]
  omega

/-- A byte is written as an escape, or as itself if it is neither the mark of one nor, bare blanks apart, a blank. -/
theorem escapedByte_cases (b : UInt8) :
    (∃ c, escapedByte b = [backslash, c] ∧ unescapedByte c = b ∧ c ≠ lineFeed ∧ isBlank c = false) ∨
      (escapedByte b = [b] ∧ b ≠ backslash ∧ b ≠ lineFeed ∧ (isBareBlank b = false → isBlank b = false)) := by
  unfold escapedByte
  split
  · rename_i h
    exact Or.inl ⟨backslash, rfl, h.symm, by decide, rfl⟩
  · rename_i hb
    split
    · rename_i h
      exact Or.inl ⟨110, rfl, h.symm, by decide, rfl⟩
    · rename_i h₁₀
      split
      · rename_i h
        exact Or.inl ⟨114, rfl, h.symm, by decide, rfl⟩
      · rename_i h₁₃
        split
        · rename_i h
          exact Or.inl ⟨116, rfl, h.symm, by decide, rfl⟩
        · rename_i h₉
          refine Or.inr ⟨rfl, hb, h₁₀, fun hbare => Bool.eq_false_iff.mpr fun hblank => ?_⟩
          rcases isBlank_iff.mp hblank with h | h | h | h
          · exact absurd h (by simp [hbare])
          · exact h₁₀ h
          · exact h₁₃ h
          · exact h₉ h

/-- What is written for a byte stands for that byte. -/
theorem unescape_escapedByte_append (b : UInt8) (s : Bytes) : unescape (escapedByte b ++ s) = b :: unescape s := by
  rcases escapedByte_cases b with ⟨c, he, hc, -, -⟩ | ⟨he, hb, -, -⟩
  · rw [he, ← hc]
    exact unescape_escape c s
  · rw [he]
    exact unescape_cons_of_ne hb s

/-- What is written byte by byte stands for the text. -/
theorem unescape_flatMap_escapedByte (text : Bytes) : unescape (text.flatMap escapedByte) = text := by
  induction text with
  | nil => rfl
  | cons b text ih => rw [List.flatMap_cons, unescape_escapedByte_append, ih]

/-- A bare blank is written as itself, and a backslash before it stands for nothing else. -/
theorem of_isBareBlank {b : UInt8} (h : isBareBlank b = true) : escapedByte b = [b] ∧ unescapedByte b = b := by
  rcases isBareBlank_iff.mp h with rfl | rfl | rfl
  · exact ⟨rfl, rfl⟩
  · exact ⟨rfl, rfl⟩
  · exact ⟨rfl, rfl⟩

/-- A text read back from how it is written. -/
theorem unescape_escaped (text : Bytes) : unescape (escaped text) = text := by
  cases text with
  | nil => rfl
  | cons b text =>
    by_cases h : isBareBlank b = true
    · obtain ⟨he, hu⟩ := of_isBareBlank h
      have hw : escaped (b :: text) = backslash :: b :: text.flatMap escapedByte := by simp [escaped, h, he]
      rw [hw, unescape_escape, hu, unescape_flatMap_escapedByte]
    · have hw : escaped (b :: text) = (b :: text).flatMap escapedByte := by simp [escaped, h]
      rw [hw, unescape_flatMap_escapedByte]

/-- What is written for a byte holds no line feed, and it has no blank at its two ends unless the byte is a bare blank. -/
theorem escapedByte_spec (b : UInt8) :
    lineFeed ∉ escapedByte b ∧ escapedByte b ≠ [] ∧ (isBareBlank b = false → Bytes.IsTrimmed (escapedByte b)) := by
  rcases escapedByte_cases b with ⟨c, he, -, hlf, hc⟩ | ⟨he, -, hlf, hb⟩
  · have hback : isBlank backslash = false := rfl
    rw [he]
    refine ⟨?_, List.cons_ne_nil _ _, fun _ => Bytes.isTrimmed_of_forall (by simp [hback, hc])⟩
    simp only [List.mem_cons, List.not_mem_nil, or_false, not_or]
    exact ⟨by decide, hlf.symm⟩
  · rw [he]
    refine ⟨?_, List.cons_ne_nil _ _, fun hbare => Bytes.isTrimmed_of_forall (by simp [hb hbare])⟩
    simpa using hlf.symm

/-- A written text stays on its line. -/
theorem lineFeed_notMem_escaped (text : Bytes) : lineFeed ∉ escaped text := by
  intro h
  rcases List.mem_append.mp h with h | h
  · split at h
    · simp [lineFeed, backslash] at h
    · simp at h
  · obtain ⟨b, -, hb⟩ := List.mem_flatMap.mp h
    exact (escapedByte_spec b).1 hb

/-- A written text keeps its two ends on its line, if the text does not end with a bare blank. -/
theorem isTrimmed_escaped {text : Bytes} (h : ∀ b, text.getLast? = some b → isBareBlank b = false) :
    Bytes.IsTrimmed (escaped text) where
  head := by
    intro x hx
    cases text with
    | nil => simp [escaped] at hx
    | cons b text =>
      by_cases hb : isBareBlank b = true
      · have hx : backslash = x := by simpa [escaped, hb] using hx
        rw [← hx]
        rfl
      · obtain ⟨-, hne, ht⟩ := escapedByte_spec b
        refine (ht (by simpa using hb)).head x ?_
        obtain ⟨y, ys, hy⟩ := List.exists_cons_of_ne_nil hne
        rw [hy]
        simpa [escaped, hb, hy] using hx
  last := by
    intro x hx
    rcases List.eq_nil_or_concat text with rfl | ⟨text, b, rfl⟩
    · simp [escaped] at hx
    · rw [List.concat_eq_append] at h hx
      obtain ⟨-, hne, ht⟩ := escapedByte_spec b
      refine (ht (h b (by simp))).last x ?_
      rw [escaped, List.flatMap_append, ← List.append_assoc, List.getLast?_append_of_ne_nil _ (by simpa using hne)] at hx
      simpa using hx

/-! ## Settings -/

/-- The line that makes a setting. -/
def settingLine (s : Bytes × Bytes) : Bytes := settingWord ++ 32 :: s.1 ++ 32 :: 61 :: 32 :: s.2

/-- The keys of the settings that a catalog knows. -/
def settingKeys : List Bytes := [utf8 "locale", utf8 "fallback", utf8 "note"]

/-- A key has no equals sign, stays itself when it is trimmed between two spaces, and is in lower case. -/
theorem of_mem_settingKeys {key : Bytes} (h : key ∈ settingKeys) :
    key ≠ [] ∧ lineFeed ∉ key ∧ 61 ∉ (32 :: key ++ [32] : Bytes) ∧ Bytes.trim (32 :: key ++ [32]) = key ∧
      key.lower = key := by
  simp only [settingKeys, List.mem_cons, List.not_mem_nil, or_false] at h
  rcases h with rfl | rfl | rfl
  · decide
  · decide
  · decide

/-- A setting that can be written: its key is known, and its value is not empty, has no blank at its ends and no line feed. -/
structure WritableSetting (s : Bytes × Bytes) : Prop where
  key : s.1 ∈ settingKeys
  value : s.2 ≠ []
  trimmed : Bytes.IsTrimmed s.2
  oneLine : lineFeed ∉ s.2

/-- A written setting is read as that setting. -/
theorem Line.read_settingLine {s : Bytes × Bytes} (hs : WritableSetting s) : Line.read (settingLine s) = .setting s.1 s.2 := by
  obtain ⟨key, value⟩ := s
  obtain ⟨hkey, hne, hs, -⟩ := hs
  obtain ⟨hkne, -, heq, htrim, hlower⟩ := of_mem_settingKeys hkey
  have hline : Bytes.trim (settingLine (key, value)) = settingLine (key, value) := by
    refine Bytes.trim_eq_self ⟨fun b hb => ?_, fun b hb => hs.last b ?_⟩
    · have hb : (64 : UInt8) = b := Option.some.inj hb
      rw [← hb]
      rfl
    · have hsplit : settingLine (key, value) = (settingWord ++ 32 :: key ++ [32, 61, 32]) ++ value := by simp [settingLine]
      rwa [hsplit, List.getLast?_append_of_ne_nil _ hne] at hb
  have hhead : (settingLine (key, value)).head? = some 64 := rfl
  have hset : setting? (settingLine (key, value)) = some (key, value) := by
    have hdrop : (settingLine (key, value)).drop settingWord.length = (32 :: key ++ [32]) ++ 61 :: 32 :: value := by
      rw [settingLine, List.append_assoc, List.drop_left]
      simp
    have hprefix : settingWord.isPrefixOf (settingLine (key, value)) = true :=
      List.isPrefixOf_iff_prefix.mpr ⟨32 :: key ++ 32 :: 61 :: 32 :: value, by simp [settingLine]⟩
    have hvalue : Bytes.trim (32 :: value) = value := by rw [Bytes.trim_cons_of_isBlank rfl, Bytes.trim_eq_self hs]
    rw [setting?, if_pos hprefix, hdrop, Bytes.cutAt?_append heq]
    simp only [htrim, hvalue, hlower]
    exact if_neg (not_or.mpr ⟨hkne, hne⟩)
  have hnil : settingLine (key, value) ≠ [] := by
    intro e
    simp [e] at hhead
  simp only [Line.read, hline, hhead, hset, hnil]
  simp

/-- A written setting holds no line feed. -/
theorem lineFeed_notMem_settingLine {s : Bytes × Bytes} (hs : WritableSetting s) : lineFeed ∉ settingLine s := by
  obtain ⟨-, hkey, -⟩ := of_mem_settingKeys hs.key
  have hword : lineFeed ∉ settingWord := by decide
  simp only [settingLine, List.mem_append, List.mem_cons, not_or]
  exact ⟨⟨hword, by decide, hkey⟩, by decide, by decide, by decide, hs.oneLine⟩

/-! ## Entries -/

/-- An entry that can be written: its id is one, its label fits between the parentheses of a head, and its text does not end with a
bare blank. -/
structure Entry.Writable (e : Entry) : Prop where
  id : isMessageId e.id = true
  label : Bytes.IsTrimmed e.label
  labelBytes : lineFeed ∉ e.label ∧ 58 ∉ e.label ∧ 41 ∉ e.label
  text : ∀ b, e.text.getLast? = some b → isBareBlank b = false

/-- The head of the line of an entry: its id, and its label in parentheses if it has one. -/
def Entry.head (e : Entry) : Bytes := e.id ++ (if e.label = [] then [] else 40 :: e.label ++ [41])

/-- The line that makes an entry. -/
def Entry.sourceLine (e : Entry) : Bytes := e.head ++ 58 :: 32 :: escaped e.text

/-- A byte of an id is no blank and none of the marks that a line is read by. -/
theorem of_isIdByte {b : UInt8} (h : isIdByte b = true) :
    isBlank b = false ∧ b ≠ lineFeed ∧ b ≠ 35 ∧ b ≠ 40 ∧ b ≠ 58 ∧ b ≠ 64 ∧ b ≠ 0xEF := by
  have hne : ∀ c, isIdByte c = false → b ≠ c := by
    rintro c hc rfl
    exact absurd h (by simp [hc])
  have hblank : ¬isBlank b = true := by
    rw [isBlank_iff, isBareBlank_iff]
    rintro ((rfl | rfl | rfl) | rfl | rfl | rfl) <;> exact absurd h (by decide)
  exact ⟨by simpa using hblank, hne _ rfl, hne _ rfl, hne _ rfl, hne _ rfl, hne _ rfl, hne _ rfl⟩

theorem of_isMessageId {id : Bytes} (h : isMessageId id = true) : id ≠ [] ∧ ∀ b ∈ id, isIdByte b = true := by
  simp only [isMessageId, Bool.and_eq_true, bne_iff_ne, ne_eq, List.all_eq_true] at h
  exact ⟨h.1.1, h.2⟩

/-- A line that starts with a byte of an id is no comment and no setting, so it is the entry it can be read as. -/
theorem Line.read_of_readEntry {raw : Bytes} {b : UInt8} (hb : raw.trim.head? = some b) (hid : isIdByte b = true) {e : Entry}
    (hentry : readEntry raw.trim = .ok e) : Line.read raw = .entry e := by
  obtain ⟨-, -, h35, -, -, h64, -⟩ := of_isIdByte hid
  have hnil : raw.trim ≠ [] := by
    intro h
    simp [h] at hb
  have hcomment : raw.trim.head? ≠ some 35 := by
    rw [hb]
    exact fun h => h35 (Option.some.inj h)
  have hset : setting? raw.trim = none := by
    rw [setting?, if_neg]
    intro hp
    obtain ⟨t, ht⟩ := List.isPrefixOf_iff_prefix.mp hp
    rw [← ht] at hb
    exact h64 (Option.some.inj hb).symm
  simp only [Line.read, hset, hentry, hnil, hcomment, or_self, if_false]

/-- A written head is taken apart into the id and the label. -/
theorem splitHead_head {e : Entry} (he : e.Writable) : splitHead e.head = .ok (e.id, e.label) := by
  obtain ⟨-, hid⟩ := of_isMessageId he.id
  have htrim : e.id.trim = e.id := Bytes.trim_eq_self (Bytes.isTrimmed_of_forall fun b hb => (of_isIdByte (hid b hb)).1)
  have h40 : 40 ∉ e.id := fun h => (of_isIdByte (hid 40 h)).2.2.2.1 rfl
  by_cases hl : e.label = []
  · simp [splitHead, Entry.head, hl, Bytes.cutAt?_of_notMem h40, htrim]
  · have hhead : e.head = e.id ++ 40 :: (e.label ++ 41 :: []) := by simp [Entry.head, hl]
    simp only [splitHead, hhead, Bytes.cutAt?_append h40, Bytes.cutAt?_append he.labelBytes.2.2, htrim, Bytes.trim_eq_self he.label]

/-- A written head holds neither a colon nor a line feed. -/
theorem notMem_head {e : Entry} (he : e.Writable) : 58 ∉ e.head ∧ lineFeed ∉ e.head := by
  obtain ⟨-, hid⟩ := of_isMessageId he.id
  obtain ⟨hlf, h58, -⟩ := he.labelBytes
  have hlabel : ∀ x : UInt8, x ≠ 40 → x ≠ 41 → x ∉ e.label → x ∉ e.id → x ∉ e.head := by
    intro x h40 h41 hl hi
    unfold Entry.head
    split
    · simpa using hi
    · simp [hi, hl, h40, h41]
  exact ⟨hlabel 58 (by decide) (by decide) h58 fun h => (of_isIdByte (hid 58 h)).2.2.2.2.1 rfl,
    hlabel lineFeed (by decide) (by decide) hlf fun h => (of_isIdByte (hid lineFeed h)).2.1 rfl⟩

/-- A written entry starts with a byte of its id. -/
theorem head?_sourceLine {e : Entry} (he : e.Writable) (rest : Bytes) :
    ∃ b, (e.head ++ rest).head? = some b ∧ isIdByte b = true := by
  obtain ⟨hne, hid⟩ := of_isMessageId he.id
  obtain ⟨b, t, hbt⟩ := List.exists_cons_of_ne_nil hne
  exact ⟨b, by simp [Entry.head, hbt], hid b (by simp [hbt])⟩

/-- A written entry is read as that entry. -/
theorem Line.read_sourceLine {e : Entry} (he : e.Writable) : Line.read e.sourceLine = .entry e := by
  have htext : Bytes.trimStart (Bytes.trimEnd (32 :: escaped e.text)) = escaped e.text :=
    Bytes.trimStart_trimEnd_cons rfl (isTrimmed_escaped he.text)
  generalize hrest : Bytes.trimEnd (32 :: escaped e.text) = rest at htext
  obtain ⟨b, hb, hidb⟩ := head?_sourceLine he (58 :: rest)
  have hline : Bytes.trim e.sourceLine = e.head ++ 58 :: rest := by
    have hstart : Bytes.trimStart e.sourceLine = e.sourceLine := by
      obtain ⟨b', hb', hidb'⟩ := head?_sourceLine he (58 :: 32 :: escaped e.text)
      refine Bytes.dropWhile_eq_self fun x hx => ?_
      rw [Entry.sourceLine, hb'] at hx
      rw [← Option.some.inj hx]
      exact (of_isIdByte hidb').1
    rw [Bytes.trim, hstart, Entry.sourceLine, Bytes.trimEnd_append_cons _ rfl, hrest]
  have hentry : readEntry (e.head ++ 58 :: rest) = .ok e := by
    simp only [readEntry, Bytes.cutAt?_append (notMem_head he).1, splitHead_head he, he.id, if_true, htext, unescape_escaped]
  rw [← hline] at hb hentry
  exact Line.read_of_readEntry hb hidb hentry

theorem lineFeed_notMem_sourceLine {e : Entry} (he : e.Writable) : lineFeed ∉ e.sourceLine := by
  simp only [Entry.sourceLine, List.mem_append, List.mem_cons, not_or]
  exact ⟨(notMem_head he).2, by decide, by decide, lineFeed_notMem_escaped e.text⟩

end Phrasebook
