import Phrasebook.Handle
import Mathlib.Data.List.Forall2

/-!
# The containers of a catalog

A catalog is kept in three containers, none of which has an order: the texts by their ids, the labels by their ids, and the ids whose
entries hold plural forms. Loading updates them one after the other, and next to them the settings, a count of the entries and a mark that
there was one; a line at fault leaves all of it as far as it came. Every other operation reads the containers, sorts the ids where the order
matters, and writes nothing but the last error. The operations of `Handle` are told here over the containers, statement by statement.
-/

namespace Phrasebook

/-- What is kept of a catalog. -/
structure Containers where
  texts : Std.HashMap Bytes Bytes := ∅
  labels : Std.HashMap Bytes Bytes := ∅
  plurals : Std.HashSet Bytes := ∅
  metadata : Metadata := {}
  lastError : LastError := {}

namespace Containers

/-! ## Loading -/

/-- An entry is put in, container by container; no container gives up what it has under the id. -/
def put (k : Containers) (e : Entry) : Containers :=
  let k := if e.label.lower = utf8 "plural" then { k with plurals := k.plurals.insert e.id } else k
  let k := { k with texts := k.texts.insertIfNew e.id e.text }
  if e.label = [] then k else { k with labels := k.labels.insertIfNew e.id e.label }

@[simp] theorem texts_put (k : Containers) (e : Entry) : (k.put e).texts = k.texts.insertIfNew e.id e.text := by
  unfold put
  split <;> split <;> rfl

@[simp] theorem labels_put (k : Containers) (e : Entry) :
    (k.put e).labels = if e.label = [] then k.labels else k.labels.insertIfNew e.id e.label := by
  unfold put
  split <;> split <;> rfl

@[simp] theorem plurals_put (k : Containers) (e : Entry) :
    (k.put e).plurals = if e.label.lower = utf8 "plural" then k.plurals.insert e.id else k.plurals := by
  unfold put
  split <;> split <;> rfl

@[simp] theorem metadata_put (k : Containers) (e : Entry) : (k.put e).metadata = k.metadata := by
  unfold put
  split <;> split <;> rfl

@[simp] theorem lastError_put (k : Containers) (e : Entry) : (k.put e).lastError = k.lastError := by
  unfold put
  split <;> split <;> rfl

/-- The label of an id, after an entry was put in under an id without a label. -/
theorem getElem?_labels_put {k : Containers} {e : Entry} (hnew : e.id ∉ k.labels) (id : Bytes) :
    (k.put e).labels[id]? = if id = e.id ∧ e.label ≠ [] then some e.label else k.labels[id]? := by
  rw [labels_put]
  by_cases hlabel : e.label = []
  · simp [hlabel]
  · rw [if_neg hlabel, Std.HashMap.getElem?_insertIfNew]
    by_cases hid : id = e.id
    · simp [hid, hlabel, hnew]
    · simp [hid, Ne.symm hid]

theorem mem_plurals_put {k : Containers} {e : Entry} {id : Bytes} :
    id ∈ (k.put e).plurals ↔ id = e.id ∧ e.label.lower = utf8 "plural" ∨ id ∈ k.plurals := by
  rw [plurals_put]
  split
  · rename_i hplural
    rw [Std.HashSet.mem_insert, beq_iff_eq, eq_comm]
    simp [hplural]
  · rename_i hplural
    simp [hplural]

/-- What a loading has come to: the containers, how many entries were put in, and whether there was one. -/
structure Filling where
  containers : Containers := {}
  loaded : Nat := 0
  seen : Bool := false

namespace Filling

/-- One more line, the line of a number. -/
def addLine (strict : Bool) (number : Nat) (s : Filling) : Line → Except LoadFault Filling
  | .idle => .ok s
  | .setting key value =>
    if s.seen then if strict then .error (.settingAfterEntries number) else .ok s
    else if key = utf8 "locale" then .ok { s with containers.metadata.locale := value }
    else if key = utf8 "fallback" then .ok { s with containers.metadata.fallback := value }
    else if key = utf8 "note" then .ok { s with containers.metadata.note := value }
    else if strict then .error (.unknownSetting number key)
    else .ok s
  | .entry e =>
    if s.containers.texts.contains e.id then .error (.duplicateId number e.id)
    else .ok ⟨s.containers.put e, s.loaded + 1, true⟩
  | .malformed why => if strict then .error (.malformedLine number why) else .ok s

theorem addLine_setting_of_seen {strict : Bool} {s : Filling} (hseen : s.seen = true) (number : Nat) (key value : Bytes) :
    s.addLine strict number (.setting key value) = if strict then .error (.settingAfterEntries number) else .ok s := by
  rw [addLine, if_pos hseen]

/-- Before the first entry, a setting of a known key replaces one of the settings. -/
theorem addLine_setting {strict : Bool} {s : Filling} (hseen : s.seen = false) (number : Nat) (key value : Bytes) :
    s.addLine strict number (.setting key value) =
      match s.containers.metadata.set? key value with
      | some m => .ok { s with containers.metadata := m }
      | none => if strict then .error (.unknownSetting number key) else .ok s := by
  simp only [addLine, hseen, Metadata.set?]
  by_cases hlocale : key = utf8 "locale"
  · simp only [if_pos hlocale]
    rfl
  · by_cases hfallback : key = utf8 "fallback"
    · simp only [if_neg hlocale, if_pos hfallback]
      rfl
    · by_cases hnote : key = utf8 "note"
      · simp only [if_neg hlocale, if_neg hfallback, if_pos hnote]
        rfl
      · simp only [if_neg hlocale, if_neg hfallback, if_neg hnote]
        rfl

/-- All lines from a number on, up to the one at fault if there is one. -/
def addLines (strict : Bool) (number : Nat) (s : Filling) : List Bytes → Filling × Option LoadFault
  | [] => (s, if s.loaded = 0 then some .noEntry else none)
  | raw :: rest =>
    match s.addLine strict number (.read raw) with
    | .ok s' => addLines strict (number + 1) s' rest
    | .error f => (s, some f)

end Filling

/-- Loads a source, and says whether it could be loaded. All containers are cleared first, unless the source is empty. -/
def load (k : Containers) (strict : Bool) (source : Bytes) : Containers × Bool :=
  if source = [] then ({ k with lastError := LoadFault.emptySource.lastError }, false)
  else
    match Filling.addLines strict 1 {} (sourceLines source) with
    | (s, none) => (s.containers, true)
    | (s, some f) => ({ s.containers with lastError := f.lastError }, false)

/-! ## Reading -/

def size (k : Containers) : Nat := k.texts.size

def has (k : Containers) (id : Bytes) : Bool := k.texts.contains id

def isPlural (k : Containers) (id : Bytes) : Bool := k.plurals.contains id

def message? (k : Containers) (id : Bytes) : Option Bytes := k.texts[id]?

/-- The locale whose plural rules count. A locale that is not set has none. -/
def pluralLocale (k : Containers) : Bytes :=
  if k.metadata.locale ≠ [] ∧ hasPluralRules k.metadata.locale then k.metadata.locale
  else if k.metadata.fallback ≠ [] ∧ hasPluralRules k.metadata.fallback then k.metadata.fallback
  else k.metadata.locale

/-- The ids in increasing order. -/
def sortedIds (k : Containers) : List Bytes := k.texts.keys.mergeSort fun a b => decide (a ≤ b)

/-- What the listings show of an id: its text, and its label if it has one. -/
def entry (k : Containers) (id : Bytes) : Entry := ⟨id, k.labels.getD id [], k.texts.getD id []⟩

/-- Keeps the fault of an outcome as the last error, and passes on what came out. -/
def settle (k : Containers) : Except Fault Bytes → Containers × Option Bytes
  | .ok out => ({ k with lastError := {} }, some out)
  | .error f => ({ k with lastError := f.lastError }, none)

/-- The phrase of an id, if there is no fault. -/
def phrase (k : Containers) (id : Bytes) (vs : Values Bytes) : Containers × Option Bytes :=
  k.settle <|
    match k.message? id with
    | none => .ok (missingMarker id)
    | some source => renderSource vs source

/-- The phrase of an id for a count, if there is no fault. -/
def phraseForCount (k : Containers) (id : Bytes) (n : Int) (vs : Values Bytes) : Containers × Option Bytes :=
  k.settle <|
    match k.message? id with
    | none => .ok (missingMarker id)
    | some text =>
      match selectForm id k.pluralLocale text n with
      | .error f => .error f
      | .ok source => renderSource (vs.withCount n) source

/-- What is wrong with the text of an id, given a base and a locale with plural rules. -/
def finding? (base : Containers) (locale id text : Bytes) : Option Finding :=
  if base.isPlural id then
    match checkForms id locale text with
    | .ok () => none
    | .error f => some (.faulty id f)
  else
    match Message.parse (base.texts.getD id []), Message.parse text with
    | .error f, _ => some (.unreadableBase id f)
    | .ok _, .error f => some (.faulty id f)
    | .ok m, .ok m' => (m.mismatch? m').map (.differs id)

/-- The findings at ids of a base, given whether it was already said that the locale has no plural rules. -/
def findings (k base : Containers) (said : Bool) : List Bytes → List Finding
  | [] => []
  | id :: rest =>
    match k.message? id with
    | none => .missing id :: k.findings base said rest
    | some text =>
      if base.isPlural id && !hasPluralRules k.pluralLocale then
        if said then k.findings base true rest else .noPluralRules k.pluralLocale :: k.findings base true rest
      else (base.finding? k.pluralLocale id text).toList ++ k.findings base said rest

/-- Checks containers against those of a base. -/
def check (k base : Containers) : Check :=
  if k.texts.isEmpty || base.texts.isEmpty then .unusable
  else
    .report
      { messages := base.size
        errors := k.findings base false base.sortedIds
        extra := k.sortedIds.filter fun id => !base.has id }

/-- The table: a row for each id. -/
def table (k : Containers) : Bytes :=
  (Catalog.row (utf8 "Id") (utf8 "Label") (utf8 "Message") :: Catalog.tableRule ::
    k.sortedIds.map fun id => Catalog.row id (k.labels.getD id []) (k.texts.getD id [])).flatten

/-- The lines of the ids in which a query occurs, and what is said when there is none. -/
def searchText (k : Containers) (query : Bytes) : Bytes :=
  let lines := ((k.sortedIds.map k.entry).filter fun e => e.holds query).flatMap Entry.line
  if lines = [] then utf8 "(no matches)\n" else lines

end Containers

/-! ## Uses -/

/-- What is done with a catalog, kept in one way or another; a check names the base that is kept in the same way. -/
inductive Use (Base : Type) where
  | load (strict : Bool) (source : Bytes)
  | phrase (id : Bytes) (vs : Values Bytes)
  | phraseForCount (id : Bytes) (n : Int) (vs : Values Bytes)
  | check (base : Base)
  | table
  | search (query : Bytes)

/-- What comes of a use. -/
inductive Outcome where
  | loaded (ok : Bool)
  | phrased (out : Option Bytes)
  | checked (code : Nat) (text : Bytes)
  | listed (text : Bytes)
  deriving DecidableEq, Repr

namespace Containers

/-- The containers after a use, and what comes of it. A check and the listings write nothing. -/
def use (k : Containers) : Use Containers → Containers × Outcome
  | .load strict source => (k.load strict source).map id .loaded
  | .phrase i vs => (k.phrase i vs).map id .phrased
  | .phraseForCount i n vs => (k.phraseForCount i n vs).map id .phrased
  | .check base => (k, .checked (k.check base).code (k.check base).text)
  | .table => (k, .listed k.table)
  | .search query => (k, .listed (k.searchText query))

/-- The containers after uses of new ones. -/
def after (uses : List (Use Containers)) : Containers := uses.foldl (fun k u => (k.use u).1) {}

end Containers

namespace Handle

/-- The handle after a use, and what comes of it. -/
def use (h : Handle) : Use Handle → Handle × Outcome
  | .load strict source => (h.load strict source).map id .loaded
  | .phrase i vs => (h.phrase i vs).map id .phrased
  | .phraseForCount i n vs => (h.phraseForCount i n vs).map id .phrased
  | .check base => (h, .checked (h.catalog.check base.catalog).code (h.catalog.check base.catalog).text)
  | .table => (h, .listed h.catalog.table)
  | .search query => (h, .listed (h.catalog.searchText query))

/-- The handle after uses of a new one. -/
def after (uses : List (Use Handle)) : Handle := uses.foldl (fun h u => (h.use u).1) {}

end Handle

end Phrasebook
