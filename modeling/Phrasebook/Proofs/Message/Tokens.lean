import Phrasebook.Message.Reader
import Mathlib.Data.List.TakeWhile

/-!
# The tokens of a source

A source can be cut into tokens before anything is known of open tags: bytes of text, tags, and placeholders. A tag runs from its
start to the first of the two marks of tags behind it, which must be its end; a placeholder runs to the next percent sign. What
begins like one of them and does not end so is text, byte by byte.

`Reader.foldlM_step_finish?` says that the reader, which keeps the open tags at hand while it goes over the bytes, does to a source
what it does to the tokens of the source one after the other (`Reader.take?`).
-/

namespace Phrasebook

/-- A token of a source. Text comes in single bytes. -/
inductive Token where
  | literal (b : UInt8)
  | opening (name : Bytes)
  | closing (name : Bytes)
  | void (name : Bytes)
  | placeholder (name : Bytes)
  deriving DecidableEq, Repr

/-- The token of a tag, by what stands between its marks: with a slash in front it closes, and blanks around its name do not
count; empty, or with a slash at its end, it is void; otherwise it opens. -/
def Token.ofTag : Bytes → Token
  | [] => .void []
  | b :: w =>
    if b = slash then .closing (Bytes.trim w)
    else if (b :: w).getLast? = some slash then .void (b :: w).dropLast
    else .opening (b :: w)

/-- Whether a byte is none of the two marks of tags. -/
def isTagByte (b : UInt8) : Bool := b != tagStart && b != tagEnd

/-- The tokens of a source. -/
def tokens : Bytes → List Token
  | [] => []
  | b :: s =>
    if b = tagStart then
      let w := s.takeWhile isTagByte
      let rest := s.dropWhile isTagByte
      if rest.head? = some tagEnd then .ofTag w :: tokens rest.tail else (b :: w).map .literal ++ tokens rest
    else if b = percent then
      let w := s.takeWhile (· != percent)
      let rest := s.dropWhile (· != percent)
      if rest = [] then (b :: w).map .literal
      else (if w = [] then .literal percent else .placeholder w) :: tokens rest.tail
    else .literal b :: tokens s
termination_by s => s.length
decreasing_by
  · have := List.length_dropWhile_le isTagByte s
    simp only [List.length_tail, List.length_cons]
    omega
  · exact Nat.lt_succ_of_le (List.length_dropWhile_le isTagByte s)
  · have := List.length_dropWhile_le (· != percent) s
    simp only [List.length_tail, List.length_cons]
    omega
  · exact Nat.lt_succ_self _

/-! ## The ways a source begins -/

section

variable {w : Bytes}

/-- What stands between the marks of a tag is made of other bytes. -/
theorem forall_isTagByte_iff : (∀ b ∈ w, isTagByte b = true) ↔ tagStart ∉ w ∧ tagEnd ∉ w := by
  simp only [isTagByte, Bool.and_eq_true, bne_iff_ne]
  constructor
  · intro h
    exact ⟨fun hs => (h _ hs).1 rfl, fun he => (h _ he).2 rfl⟩
  · rintro ⟨hs, he⟩ b hb
    exact ⟨ne_of_mem_of_not_mem hb hs, ne_of_mem_of_not_mem hb he⟩

theorem forall_ne_percent_iff : (∀ b ∈ w, (b != percent) = true) ↔ percent ∉ w := by
  simp only [bne_iff_ne]
  exact ⟨fun h hp => h _ hp rfl, fun h b hb => ne_of_mem_of_not_mem hb h⟩

theorem tokens_literal {b : UInt8} (hs : b ≠ tagStart) (hp : b ≠ percent) (rest : Bytes) :
    tokens (b :: rest) = .literal b :: tokens rest := by
  rw [tokens, if_neg hs, if_neg hp]

/-- A tag that ends is one token. -/
theorem tokens_tag (hs : tagStart ∉ w) (he : tagEnd ∉ w) (rest : Bytes) :
    tokens (tagStart :: (w ++ tagEnd :: rest)) = .ofTag w :: tokens rest := by
  have hw := forall_isTagByte_iff.mpr ⟨hs, he⟩
  have hd : isTagByte tagEnd = false := by decide
  rw [tokens, if_pos rfl]
  simp only [List.takeWhile_append_of_pos hw, List.dropWhile_append_of_pos hw, List.takeWhile_cons, List.dropWhile_cons, hd]
  simp

/-- The start of a tag with another start behind it is text, up to that other start. -/
theorem tokens_stray (hs : tagStart ∉ w) (he : tagEnd ∉ w) (rest : Bytes) :
    tokens (tagStart :: (w ++ tagStart :: rest)) = (tagStart :: w).map .literal ++ tokens (tagStart :: rest) := by
  have hw := forall_isTagByte_iff.mpr ⟨hs, he⟩
  have hd : isTagByte tagStart = false := by decide
  have hne : tagStart ≠ tagEnd := by decide
  rw [tokens, if_pos rfl]
  simp only [List.takeWhile_append_of_pos hw, List.dropWhile_append_of_pos hw, List.takeWhile_cons, List.dropWhile_cons, hd]
  simp [hne]

/-- The start of a tag without another mark of tags behind it is text, up to the end. -/
theorem tokens_unendedTag (hs : tagStart ∉ w) (he : tagEnd ∉ w) : tokens (tagStart :: w) = (tagStart :: w).map .literal := by
  have hw := forall_isTagByte_iff.mpr ⟨hs, he⟩
  rw [tokens, if_pos rfl]
  simp only [List.takeWhile_eq_self_iff.mpr hw, List.dropWhile_eq_nil_iff.mpr hw]
  simp [tokens]

theorem tokens_percents (rest : Bytes) : tokens (percent :: percent :: rest) = .literal percent :: tokens rest := by
  have hne : percent ≠ tagStart := by decide
  rw [tokens, if_neg hne, if_pos rfl]
  simp

/-- A placeholder that ends is one token. -/
theorem tokens_placeholder (hn : w ≠ []) (hp : percent ∉ w) (rest : Bytes) :
    tokens (percent :: (w ++ percent :: rest)) = .placeholder w :: tokens rest := by
  have hw := forall_ne_percent_iff.mpr hp
  have hne : percent ≠ tagStart := by decide
  rw [tokens, if_neg hne, if_pos rfl]
  simp only [List.takeWhile_append_of_pos hw, List.dropWhile_append_of_pos hw]
  simp [hn]

/-- A percent sign without another behind it is text, up to the end. -/
theorem tokens_unendedPlaceholder (hp : percent ∉ w) : tokens (percent :: w) = (percent :: w).map .literal := by
  have hw := forall_ne_percent_iff.mpr hp
  have hne : percent ≠ tagStart := by decide
  rw [tokens, if_neg hne, if_pos rfl]
  simp only [List.takeWhile_eq_self_iff.mpr hw, List.dropWhile_eq_nil_iff.mpr hw]
  simp

end

/-- A text holds a byte that fails a test only after bytes that pass it, or none. -/
theorem forall_or_split_at_first (p : UInt8 → Bool) (s : Bytes) :
    (∀ b ∈ s, p b = true) ∨ ∃ w c rest, s = w ++ c :: rest ∧ (∀ b ∈ w, p b = true) ∧ p c = false := by
  induction s with
  | nil => exact Or.inl (by simp)
  | cons b s ih =>
    cases hb : p b with
    | false => exact Or.inr ⟨[], b, s, rfl, by simp, hb⟩
    | true =>
      rcases ih with h | ⟨w, c, rest, rfl, hw, hc⟩
      · exact Or.inl (List.forall_mem_cons.mpr ⟨hb, h⟩)
      · exact Or.inr ⟨b :: w, c, rest, rfl, List.forall_mem_cons.mpr ⟨hb, hw⟩, hc⟩

/-- Induction on a source along its tokens: what holds of every source that begins in one of these ways, if it holds of the source
behind the token, holds of every source. -/
@[elab_as_elim]
theorem tokens_induction {motive : Bytes → Prop} (nil : motive [])
    (literal : ∀ b rest, b ≠ tagStart → b ≠ percent → motive rest → motive (b :: rest))
    (tag : ∀ w rest, tagStart ∉ w → tagEnd ∉ w → motive rest → motive (tagStart :: (w ++ tagEnd :: rest)))
    (stray : ∀ w rest, tagStart ∉ w → tagEnd ∉ w → motive (tagStart :: rest) → motive (tagStart :: (w ++ tagStart :: rest)))
    (unendedTag : ∀ w, tagStart ∉ w → tagEnd ∉ w → motive (tagStart :: w))
    (percents : ∀ rest, motive rest → motive (percent :: percent :: rest))
    (placeholder : ∀ w rest, w ≠ [] → percent ∉ w → motive rest → motive (percent :: (w ++ percent :: rest)))
    (unendedPlaceholder : ∀ w, percent ∉ w → motive (percent :: w)) (s : Bytes) : motive s := by
  induction hn : s.length using Nat.strongRecOn generalizing s with
  | ind n ih =>
    subst hn
    cases s with
    | nil => exact nil
    | cons b s =>
      by_cases hs : b = tagStart
      · subst hs
        rcases forall_or_split_at_first isTagByte s with hw | ⟨w, c, rest, rfl, hw, hc⟩
        · obtain ⟨h₁, h₂⟩ := forall_isTagByte_iff.mp hw
          exact unendedTag s h₁ h₂
        · obtain ⟨h₁, h₂⟩ := forall_isTagByte_iff.mp hw
          by_cases hce : c = tagEnd
          · subst hce
            exact tag w rest h₁ h₂ (ih _ (by simp only [List.length_cons, List.length_append]; omega) rest rfl)
          · have hcs : c = tagStart := by simpa [isTagByte, hce] using hc
            subst hcs
            exact stray w rest h₁ h₂ (ih _ (by simp only [List.length_cons, List.length_append]; omega) _ rfl)
      · by_cases hp : b = percent
        · subst hp
          rcases forall_or_split_at_first (· != percent) s with hw | ⟨w, c, rest, rfl, hw, hc⟩
          · exact unendedPlaceholder s (forall_ne_percent_iff.mp hw)
          · have hcp : c = percent := by simpa using hc
            subst hcp
            have ihr := ih _ (by simp only [List.length_cons, List.length_append]; omega) rest rfl
            cases w with
            | nil => exact percents rest ihr
            | cons b w => exact placeholder (b :: w) rest (by simp) (forall_ne_percent_iff.mp hw) ihr
        · exact literal b s hs hp (ih _ (by simp) s rfl)

/-! ## The reader on tokens -/

namespace Reader

/-- The reader after a token, when it stands in text. -/
def take? (r : Reader) : Token → Option Reader
  | .literal b => some { r with run := b :: r.run }
  | .opening name => some (r.enter name)
  | .closing name => r.leave? name
  | .void name => some (r.add (.voidTag name))
  | .placeholder name => some (r.add (.placeholder name))

/-- The end of a tag does what the token of the tag does, whatever was read of the tag. -/
theorem endTag?_ofRaw (r : Reader) (m : Mode) (w : Bytes) :
    { r with mode := m }.endTag? (.ofRaw w) = r.take? (.ofTag w) := by
  cases w with
  | nil => rfl
  | cons b w =>
    simp only [TagMark.ofRaw, Token.ofTag, List.head?_cons, Option.some.injEq, List.tail_cons, reduceCtorEq, false_or]
    split
    · rfl
    · split <;> rfl

/-- Bytes of text are added to the text since the last node. -/
theorem foldlM_take?_literal (w : Bytes) (r : Reader) :
    (w.map Token.literal).foldlM take? r = some { r with run := w.reverse ++ r.run } := by
  induction w generalizing r with
  | nil => rfl
  | cons b w ih => simp [take?, ih]

/-- After a token the reader stands in text again. -/
theorem mode_of_take? {r r' : Reader} {t : Token} (h : r.take? t = some r') (hr : r.mode = .text) : r'.mode = .text := by
  cases t with
  | literal b =>
    cases h
    exact hr
  | opening name => cases h; rfl
  | closing name =>
    simp only [take?, leave?] at h
    split at h
    · cases h
    · split at h
      · cases h; rfl
      · cases h
  | void name => cases h; rfl
  | placeholder name => cases h; rfl

variable {r : Reader}

/-- Inside a tag the reader collects what is no mark of tags. -/
theorem foldlM_step_tag (raw : Bytes) {w : Bytes} (hs : tagStart ∉ w) (he : tagEnd ∉ w) :
    w.foldlM step { r with mode := .tag raw } = some { r with mode := .tag (w.reverse ++ raw) } := by
  induction w generalizing raw with
  | nil => rfl
  | cons b w ih =>
    have hbs : b ≠ tagStart := fun h => hs (h ▸ List.mem_cons_self)
    have hbe : b ≠ tagEnd := fun h => he (h ▸ List.mem_cons_self)
    have ih := ih (b :: raw) (List.not_mem_of_not_mem_cons hs) (List.not_mem_of_not_mem_cons he)
    simp [step, hbs, hbe, ih]

/-- Inside a placeholder the reader collects what is no percent sign. -/
theorem foldlM_step_placeholder (name : Bytes) {w : Bytes} (hp : percent ∉ w) :
    w.foldlM step { r with mode := .placeholder name } = some { r with mode := .placeholder (w.reverse ++ name) } := by
  induction w generalizing name with
  | nil => rfl
  | cons b w ih =>
    have hbp : b ≠ percent := fun h => hp (h ▸ List.mem_cons_self)
    have ih := ih (b :: name) (List.not_mem_of_not_mem_cons hp)
    simp [step, hbp, ih]

/-- From text the reader goes into a tag at the start of one. -/
theorem foldlM_step_tagStart (hr : r.mode = .text) {w : Bytes} (hs : tagStart ∉ w) (he : tagEnd ∉ w) :
    (tagStart :: w).foldlM step r = some { r with mode := .tag w.reverse } := by
  have h : step r tagStart = some { r with mode := .tag [] } := by simp [step, hr]
  rw [List.foldlM_cons, h]
  simpa using foldlM_step_tag (r := r) [] hs he

/-- From text the reader goes into a placeholder at a percent sign. -/
theorem foldlM_step_percent (hr : r.mode = .text) {w : Bytes} (hp : percent ∉ w) :
    (percent :: w).foldlM step r = some { r with mode := .placeholder w.reverse } := by
  have hne : percent ≠ tagStart := by decide
  have h : step r percent = some { r with mode := .placeholder [] } := by simp [step, hr, hne]
  rw [List.foldlM_cons, h]
  simpa using foldlM_step_placeholder (r := r) [] hp

/-! ### What the reader does to each beginning of a source -/

section

variable {w : Bytes}

/-- A byte that is no mark is taken as text. -/
theorem foldlM_step_literal (hr : r.mode = .text) {b : UInt8} (hs : b ≠ tagStart) (hp : b ≠ percent) (rest : Bytes) :
    (b :: rest).foldlM step r = (r.take? (.literal b)).bind fun r' => rest.foldlM step r' := by
  have h : step r b = take? r (.literal b) := by simp [step, take?, hr, hs, hp]
  rw [List.foldlM_cons, h]
  rfl

/-- A tag that ends is taken as its token. -/
theorem foldlM_step_tag_append (hr : r.mode = .text) (hs : tagStart ∉ w) (he : tagEnd ∉ w) (rest : Bytes) :
    (tagStart :: (w ++ tagEnd :: rest)).foldlM step r = (r.take? (.ofTag w)).bind fun r' => rest.foldlM step r' := by
  have h : step { r with mode := .tag w.reverse } tagEnd = r.take? (.ofTag w) := by
    simpa [step] using endTag?_ofRaw r (.tag w.reverse) w
  rw [← List.cons_append, List.foldlM_append, foldlM_step_tagStart hr hs he, Option.bind_eq_bind, Option.bind_some,
    List.foldlM_cons, h]
  rfl

/-- The start of a tag with another start behind it is taken as text: the reader stands at the other start, inside a tag, with the
same text behind it as if it had come there in text. -/
theorem foldlM_step_stray (hr : r.mode = .text) (hs : tagStart ∉ w) (he : tagEnd ∉ w) (rest : Bytes) :
    (tagStart :: (w ++ tagStart :: rest)).foldlM step r =
      (tagStart :: rest).foldlM step { r with run := w.reverse ++ tagStart :: r.run } := by
  have h : step { r with mode := .tag w.reverse } tagStart = step { r with run := w.reverse ++ tagStart :: r.run } tagStart := by
    have hne : tagStart ≠ tagEnd := by decide
    simp [step, hr, hne]
  rw [← List.cons_append, List.foldlM_append, foldlM_step_tagStart hr hs he, Option.bind_eq_bind, Option.bind_some,
    List.foldlM_cons, h, List.foldlM_cons]

/-- Two percent signs are taken as one, as text. -/
theorem foldlM_step_percents (hr : r.mode = .text) (rest : Bytes) :
    (percent :: percent :: rest).foldlM step r = (r.take? (.literal percent)).bind fun r' => rest.foldlM step r' := by
  have h : step { r with mode := .placeholder [] } percent = r.take? (.literal percent) := by simp [step, take?, hr]
  rw [← List.singleton_append, List.foldlM_append, foldlM_step_percent hr (by simp), Option.bind_eq_bind, Option.bind_some,
    List.foldlM_cons, List.reverse_nil, h]
  rfl

/-- A placeholder that ends is taken as its token. -/
theorem foldlM_step_placeholder_append (hr : r.mode = .text) (hn : w ≠ []) (hp : percent ∉ w) (rest : Bytes) :
    (percent :: (w ++ percent :: rest)).foldlM step r = (r.take? (.placeholder w)).bind fun r' => rest.foldlM step r' := by
  have h : step { r with mode := .placeholder w.reverse } percent = r.take? (.placeholder w) := by
    simp [step, take?, hn, add, settled]
  rw [← List.cons_append, List.foldlM_append, foldlM_step_percent hr hp, Option.bind_eq_bind, Option.bind_some,
    List.foldlM_cons, h]
  rfl

end

/-- A source that ends inside a tag or a placeholder ends as if its bytes since the mark were text. -/
theorem finish?_eq (r : Reader) : r.finish? = finish? { r with mode := .text, run := r.tailRun } := rfl

/-- Taking a token first, the reader comes to the same end over the bytes and over the tokens if it does so from where the token takes
it. -/
theorem bind_take?_finish? {s : Bytes} {t : Token} {ts : List Token} (hr : r.mode = .text)
    (h : ∀ r' : Reader, r'.mode = .text → (s.foldlM step r').bind finish? = (ts.foldlM take? r').bind finish?) :
    ((r.take? t).bind fun r' => s.foldlM step r').bind finish? = ((t :: ts).foldlM take? r).bind finish? := by
  rw [List.foldlM_cons]
  cases ht : r.take? t with
  | none => rfl
  | some r' => exact h r' (mode_of_take? ht hr)

/-- In text, the reader comes to the same end over the bytes of a source and over its tokens. -/
theorem foldlM_step_finish? (s : Bytes) (r : Reader) (hr : r.mode = .text) :
    (s.foldlM step r).bind finish? = ((tokens s).foldlM take? r).bind finish? := by
  induction s using tokens_induction generalizing r with
  | nil => simp [tokens]
  | literal b rest hs hp ih =>
    rw [tokens_literal hs hp, foldlM_step_literal hr hs hp]
    exact bind_take?_finish? hr ih
  | tag w rest hs he ih =>
    rw [tokens_tag hs he, foldlM_step_tag_append hr hs he]
    exact bind_take?_finish? hr ih
  | stray w rest hs he ih =>
    rw [tokens_stray hs he, foldlM_step_stray hr hs he, List.foldlM_append, foldlM_take?_literal]
    simpa using ih { r with run := w.reverse ++ tagStart :: r.run } hr
  | unendedTag w hs he =>
    rw [tokens_unendedTag hs he, foldlM_step_tagStart hr hs he, foldlM_take?_literal, Option.bind_some, Option.bind_some,
      finish?_eq]
    simp [tailRun, ← hr]
  | percents rest ih =>
    rw [tokens_percents, foldlM_step_percents hr]
    exact bind_take?_finish? hr ih
  | placeholder w rest hn hp ih =>
    rw [tokens_placeholder hn hp, foldlM_step_placeholder_append hr hn hp]
    exact bind_take?_finish? hr ih
  | unendedPlaceholder w hp =>
    rw [tokens_unendedPlaceholder hp, foldlM_step_percent hr hp, foldlM_take?_literal, Option.bind_some, Option.bind_some,
      finish?_eq]
    simp [tailRun, ← hr]

end Reader

/-- The message of a source can be read off its tokens. -/
theorem Message.read?_eq_tokens (source : Bytes) :
    Message.read? source = ((tokens source).foldlM Reader.take? {}).bind Reader.finish? :=
  Reader.foldlM_step_finish? source {} rfl

end Phrasebook
