import Phrasebook.Proofs.Catalog.LineWriting

/-!
# What a line of a catalog source gives

Whatever a line holds, the entry or the setting that it is read as is one that can be written: an entry that a line makes is `Writable`
(`Line.writable_of_read`), and the value of a setting has no blank at its ends and no line feed (`Line.value_of_read`). With
`Line.read_sourceLine` the entries that lines make are just the ones that can be written (`Entry.writable_iff_exists_read`).
-/

namespace Phrasebook

/-! ## Texts with their escapes resolved -/

theorem isBareBlank_eq_false {b : UInt8} (h : isBlank b = false) : isBareBlank b = false := by
  refine Bool.eq_false_iff.mpr fun hbare => ?_
  rw [isBlank_iff.mpr (Or.inl hbare)] at h
  cases h

/-- A byte that is no blank stands, behind a backslash, for no bare one. -/
theorem isBareBlank_unescapedByte {c : UInt8} (h : isBlank c = false) : isBareBlank (unescapedByte c) = false := by
  unfold unescapedByte
  split
  · rfl
  · split
    · rfl
    · split
      · rfl
      · exact isBareBlank_eq_false h

/-- A text that does not end with a blank does not end with a bare one when its escapes are resolved. -/
theorem last_unescapeAfter {done s : Bytes} (hne : s ≠ []) (h : ∀ b, s.getLast? = some b → isBlank b = false) :
    ∀ b, (unescapeAfter done s).getLast? = some b → isBareBlank b = false := by
  fun_induction unescapeAfter done s with
  | case1 => exact absurd rfl hne
  | case2 done b =>
    intro x hx
    have hx : b = x := by simpa using hx
    exact isBareBlank_eq_false (h x (by simp [hx]))
  | case3 done c rest ih =>
    rcases rest with _ | ⟨d, rest⟩
    · intro x hx
      have hx : unescapedByte c = x := by simpa [unescapeAfter] using hx
      rw [← hx]
      exact isBareBlank_unescapedByte (h c (by simp))
    · exact ih (List.cons_ne_nil _ _) fun b hb => h b (by simpa using hb)
  | case4 done b c rest _ ih => exact ih (List.cons_ne_nil _ _) fun b hb => h b (by simpa using hb)

/-! ## Parts of a line -/

/-- The value of a setting is trimmed, and it is a part of the line. -/
theorem value_of_setting? {line key value : Bytes} (h : setting? line = some (key, value)) :
    Bytes.IsTrimmed value ∧ ∀ b, b ∉ line → b ∉ value := by
  unfold setting? at h
  split at h
  · split at h
    · cases h
    · rename_i k v hcut
      simp only at h
      split at h
      · cases h
      · simp only [Option.some.injEq, Prod.mk.injEq] at h
        rw [← h.2]
        refine ⟨Bytes.isTrimmed_trim v, fun b hb => Bytes.notMem_trim fun hv => hb ?_⟩
        refine List.mem_of_mem_drop (i := settingWord.length) ?_
        rw [Bytes.eq_of_cutAt? hcut]
        exact List.mem_append_right _ (List.mem_cons_of_mem _ hv)
  · cases h

/-- The label in a head is trimmed, it is a part of the head, and it holds no closing parenthesis. -/
theorem label_of_splitHead {head id label : Bytes} (h : splitHead head = .ok (id, label)) :
    Bytes.IsTrimmed label ∧ (∀ b, b ∉ head → b ∉ label) ∧ 41 ∉ label := by
  unfold splitHead at h
  split at h
  · simp only [Except.ok.injEq, Prod.mk.injEq] at h
    rw [← h.2]
    exact ⟨Bytes.isTrimmed_trim [], fun _ _ => List.not_mem_nil, List.not_mem_nil⟩
  · rename_i i rest hopen
    split at h
    · cases h
    · rename_i l more hclose
      simp only [Except.ok.injEq, Prod.mk.injEq] at h
      rw [← h.2]
      refine ⟨Bytes.isTrimmed_trim l, fun b hb => Bytes.notMem_trim fun hl => hb ?_,
        Bytes.notMem_trim (Bytes.notMem_of_cutAt? hclose)⟩
      rw [Bytes.eq_of_cutAt? hopen, Bytes.eq_of_cutAt? hclose]
      exact List.mem_append_right _ (List.mem_cons_of_mem _ (List.mem_append_left _ hl))

theorem Bytes.getLast?_trimStart {s : Bytes} (h : trimStart s ≠ []) : (trimStart s).getLast? = s.getLast? := by
  obtain ⟨t, ht⟩ := List.dropWhile_suffix (l := s) isBlank
  rw [← List.getLast?_append_of_ne_nil t h]
  exact congrArg List.getLast? ht

/-- An entry that a line without blanks at its end and without a line feed makes can be written. -/
theorem writable_of_readEntry {line : Bytes} {e : Entry} (hlast : ∀ b, line.getLast? = some b → isBlank b = false)
    (hlf : lineFeed ∉ line) (h : readEntry line = .ok e) : e.Writable := by
  unfold readEntry at h
  split at h
  · cases h
  · rename_i head text hcolon
    split at h
    · cases h
    · rename_i id label hhead
      split at h
      · rename_i hid
        cases h
        obtain ⟨htrim, hpart, h41⟩ := label_of_splitHead hhead
        have hline := Bytes.eq_of_cutAt? hcolon
        refine ⟨hid, htrim, ⟨hpart _ fun hm => hlf ?_, hpart _ (Bytes.notMem_of_cutAt? hcolon), h41⟩, ?_⟩
        · rw [hline]
          exact List.mem_append_left _ hm
        · by_cases hempty : text.trimStart = []
          · rw [hempty]
            exact nofun
          · have hne : text ≠ [] := fun hnil => hempty (by rw [hnil]; rfl)
            rw [unescape_eq]
            refine last_unescapeAfter hempty fun b hb => hlast b ?_
            rw [hline, List.getLast?_append_of_ne_nil _ (List.cons_ne_nil _ _), List.getLast?_cons_of_ne_nil hne,
              ← Bytes.getLast?_trimStart hempty, hb]
      · cases h

/-! ## Lines -/

/-- An entry that a line makes can be written. -/
theorem Line.writable_of_read {raw : Bytes} {e : Entry} (hlf : lineFeed ∉ raw) (h : Line.read raw = .entry e) :
    e.Writable := by
  simp only [Line.read] at h
  split at h
  · cases h
  · split at h
    · cases h
    · split at h
      · rename_i he
        cases h
        exact writable_of_readEntry (Bytes.isTrimmed_trim raw).last (Bytes.notMem_trim hlf) he
      · cases h

/-- The value of a setting that a line makes is trimmed and holds no line feed. -/
theorem Line.value_of_read {raw key value : Bytes} (hlf : lineFeed ∉ raw) (h : Line.read raw = .setting key value) :
    Bytes.IsTrimmed value ∧ lineFeed ∉ value := by
  simp only [Line.read] at h
  split at h
  · cases h
  · split at h
    · rename_i hs
      cases h
      obtain ⟨htrim, hpart⟩ := value_of_setting? hs
      exact ⟨htrim, hpart _ (Bytes.notMem_trim hlf)⟩
    · split at h
      · cases h
      · cases h

/-- The entries that can be written are those that lines make. -/
theorem Entry.writable_iff_exists_read {e : Entry} : e.Writable ↔ ∃ raw, lineFeed ∉ raw ∧ Line.read raw = .entry e :=
  ⟨fun he => ⟨e.sourceLine, lineFeed_notMem_sourceLine he, Line.read_sourceLine he⟩,
    fun ⟨_, hlf, h⟩ => Line.writable_of_read hlf h⟩

end Phrasebook
