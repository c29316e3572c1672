import Phrasebook.Catalog.Basic

/-!
# Lines of a catalog source

A catalog is written line by line. Blanks at the ends of a line do not count. A line is blank, a comment that starts with `#`, a
setting `@meta key = value`, or an entry `id: text` or `id(label): text`; any other line is malformed, and `Malformed` says why.
The text of an entry starts at its first byte that is no blank and may hold escapes: a backslash and one more byte.
-/

namespace Phrasebook

/-- The mark that an escape starts with. -/
def backslash : UInt8 := 92

/-- The byte that a backslash and a byte stand for: `n`, `t` and `r` for a line feed, a tab and a carriage return, any other byte
for itself. -/
def unescapedByte (b : UInt8) : UInt8 := if b = 110 then 10 else if b = 116 then 9 else if b = 114 then 13 else b

/-- What follows the text `done` (its last byte first) with the escapes resolved. A backslash at the very end stands for itself. -/
def unescapeAfter (done : Bytes) : Bytes → Bytes
  | [] => done.reverse
  | [b] => (b :: done).reverse
  | b :: c :: rest => if b = backslash then unescapeAfter (unescapedByte c :: done) rest else unescapeAfter (b :: done) (c :: rest)

/-- A text with its escapes resolved. A text without a backslash has none (`unescape_eq`). -/
def unescape (s : Bytes) : Bytes := if s.contains backslash then unescapeAfter [] s else s

/-- What comes before does not change how escapes are resolved. -/
theorem unescapeAfter_append (done before s : Bytes) :
    unescapeAfter (done ++ before) s = before.reverse ++ unescapeAfter done s := by
  fun_induction unescapeAfter done s with
  | case1 done => simp [unescapeAfter]
  | case2 done b => simp [unescapeAfter]
  | case3 done c rest ih => simpa [unescapeAfter] using ih
  | case4 done b c rest h ih => simpa [unescapeAfter, h] using ih

/-- A text without a backslash stands for itself. -/
theorem unescapeAfter_of_notMem {s : Bytes} (h : backslash ∉ s) (done : Bytes) : unescapeAfter done s = done.reverse ++ s := by
  fun_induction unescapeAfter done s with
  | case1 done => simp
  | case2 done b => simp
  | case3 done c rest => simp at h
  | case4 done b c rest hb ih => simp [ih (List.not_mem_of_not_mem_cons h)]

/-- Resolving the escapes one after the other is all there is to it. -/
theorem unescape_eq (s : Bytes) : unescape s = unescapeAfter [] s := by
  unfold unescape
  split
  · rfl
  · rename_i h
    exact (unescapeAfter_of_notMem (fun hm => h (List.contains_iff_mem.mpr hm)) []).symm

/-- A byte that starts no escape stands for itself. -/
theorem unescape_cons_of_ne {b : UInt8} (h : b ≠ backslash) (s : Bytes) : unescape (b :: s) = b :: unescape s := by
  cases s with
  | nil => simp [unescape_eq, unescapeAfter]
  | cons c rest => simpa [unescape_eq, unescapeAfter, h] using unescapeAfter_append [] [b] (c :: rest)

/-- An escape stands for one byte. -/
theorem unescape_escape (c : UInt8) (s : Bytes) : unescape (backslash :: c :: s) = unescapedByte c :: unescape s := by
  simpa [unescape_eq, unescapeAfter] using unescapeAfter_append [] [unescapedByte c] s

/-! ## Ids -/

/-- The greatest length of an id. -/
def maxIdLength : Nat := 128

/-- A byte that an id may hold: a letter, a digit, an underscore, a point or a hyphen. -/
def isIdByte (b : UInt8) : Bool := isAlphanumeric b || b == 95 || b == 46 || b == 45

/-- Whether a text can be an id. -/
def isMessageId (s : Bytes) : Bool := s != [] && s.length ≤ maxIdLength && s.all isIdByte

/-! ## Kinds of lines -/

/-- Why a line is no entry: it has no colon, its label has no end, or what stands at the place of the id is none. -/
inductive Malformed where
  | noColon
  | openLabel
  | invalidId (id : Bytes)
  deriving DecidableEq, Repr

/-- The wording of a reason. -/
def Malformed.message : Malformed → Bytes
  | .noColon => utf8 "no ':' found"
  | .openLabel => utf8 "label '(' without closing ')'"
  | .invalidId id => utf8 "invalid message id '" ++ id ++ utf8 "'"

/-- A line of a catalog source; `idle` lines, blank or comments, say nothing. -/
inductive Line where
  | idle
  | setting (key value : Bytes)
  | entry (e : Entry)
  | malformed (why : Malformed)
  deriving DecidableEq, Repr

/-- The word that a setting starts with. -/
def settingWord : Bytes := utf8 "@meta"

/-- The setting that a line makes, if it makes one: a key, in lower case, and a value, neither of them empty, with an equals sign
between. -/
def setting? (line : Bytes) : Option (Bytes × Bytes) :=
  if settingWord.isPrefixOf line then
    match Bytes.cutAt? 61 (line.drop settingWord.length) with
    | none => none
    | some (key, value) =>
      let key := key.trim
      let value := value.trim
      if key = [] ∨ value = [] then none else some (key.lower, value)
  else none

/-- The id and the label in the head of an entry. The label stands in parentheses, and what follows it does not count. -/
def splitHead (head : Bytes) : Except Malformed (Bytes × Bytes) :=
  match head.cutAt? 40 with
  | none => .ok (head.trim, [])
  | some (id, rest) =>
    match rest.cutAt? 41 with
    | none => .error .openLabel
    | some (label, _) => .ok (id.trim, label.trim)

/-- The entry that a line makes. Its head ends at the first colon. -/
def readEntry (line : Bytes) : Except Malformed Entry :=
  match line.cutAt? 58 with
  | none => .error .noColon
  | some (head, text) =>
    match splitHead head with
    | .error why => .error why
    | .ok (id, label) => if isMessageId id then .ok ⟨id, label, unescape text.trimStart⟩ else .error (.invalidId id)

/-- What a line says. -/
def Line.read (raw : Bytes) : Line :=
  let line := raw.trim
  if line = [] ∨ line.head? = some 35 then .idle
  else
    match setting? line with
    | some (key, value) => .setting key value
    | none =>
      match readEntry line with
      | .ok e => .entry e
      | .error why => .malformed why

end Phrasebook
