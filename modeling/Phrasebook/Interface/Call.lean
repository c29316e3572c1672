import Phrasebook.Handle
import Phrasebook.Interface.Buffer

/-!
# Calls of the binary interface

The binary interface offers a catalog to callers that share nothing with it but numbers, NUL-terminated texts and buffers. A call
may come with a handle or without one, and any of its texts may be left out. Most calls need a handle and some texts: when one is
left out, the answer is -1 and nothing happens. Otherwise the last error of the handle is reset at the start of the call, and at
the end it tells the fault of the call if the answer is -1. Three calls only look at the last error, and two know no handle.
`Call.run` is a call on the handle it comes with.
-/

namespace Phrasebook

/-- Pairs of names and values in two lists side by side, either of which may be left out, and how many of the pairs count. -/
structure Arguments where
  names : Option (List (Option Bytes))
  values : Option (List (Option Bytes))
  count : Int
  deriving Repr

/-- The binding that a pair makes: none without a name, and to the empty text without a value. -/
def Arguments.binding? (p : Option Bytes × Option Bytes) : Option (Bytes × Value Bytes) :=
  p.1.map (fun name => (name.untilNul, .text (p.2.getD []).untilNul))

/-- The values that arguments bind: the pairs that count, in their order. -/
def Arguments.bindings (a : Arguments) : Values Bytes :=
  match a.names, a.values with
  | some names, some values => .ofList (((names.zip values).take a.count.toNat).filterMap Arguments.binding?)
  | _, _ => []

/-- A call, its handle aside; the base of a check is named by its number. -/
inductive Call where
  | abiVersion
  | lastError
  | lastErrorCopy (buffer : Buffer)
  | lastErrorCode
  | load (source : Option Bytes) (strict : Bool)
  | catalogLocale (buffer : Buffer)
  | phrase (id : Option Bytes) (arguments : Arguments) (buffer : Buffer)
  | phraseForCount (id : Option Bytes) (n : Int) (arguments : Arguments) (buffer : Buffer)
  | check (base : Option Nat) (buffer : Buffer)
  | table (buffer : Buffer)
  | search (query : Option Bytes) (buffer : Buffer)
  | formCount (locale : Option Bytes)
  | formIndex (locale : Option Bytes) (n : Int)
  | selectForm (text : Option Bytes) (n : Int) (locale key : Option Bytes) (buffer : Buffer)
  | checkStructure (base target : Option Bytes)
  deriving Repr

/-- What a call answers. -/
inductive Answer where
  | nothing
  | number (n : Int)
  | text (t : Bytes)
  deriving DecidableEq, Repr

/-- The reply to a call: its answer, what it wrote into the buffer if it wrote anything, and the place outside the buffer, counted from
its start, that it put a NUL to if it did so. -/
structure Reply where
  answer : Answer
  written : Option Bytes := none
  outside : Option Int := none
  deriving DecidableEq, Repr

/-- The reply to a call that failed. -/
def Reply.failure : Reply := { answer := .number (-1) }

/-- The version of the binary interface. -/
def abiVersion : Int := 1

/-- What is remembered of a result that is too large. -/
def tooLarge : LastError := ⟨.catalog, utf8 "RESULT_TOO_LARGE"⟩

/-- Puts a result into a buffer; the answer is the one given, but a result of the limit or more is a failure. -/
def deliver (h : Option Handle) (answer : Int) (result : Bytes) (buffer : Buffer) : Option Handle × Reply :=
  if resultLimit ≤ result.length then (h.map (·.withError tooLarge), .failure)
  else (h, { answer := .number answer, written := buffer.receive result })

/-- Puts a result into a buffer and answers with its length. -/
def deliverText (h : Option Handle) (result : Bytes) (buffer : Buffer) : Option Handle × Reply :=
  deliver h result.length result buffer

/-- Puts what came out of a handle into a buffer; nothing came out of a call that failed. -/
def deliverOutcome (outcome : Handle × Option Bytes) (buffer : Buffer) : Option Handle × Reply :=
  match outcome with
  | (h, some result) => deliverText (some h) result buffer
  | (h, none) => (some h, .failure)

/-- The last error of a handle in words; without a handle, that there is none. -/
def lastErrorText : Option Handle → Bytes
  | some h => h.lastError.message.untilNul
  | none => utf8 "ptr == nullptr"

/-- The number of the last error of a handle; -1 without a handle. -/
def lastErrorNumber : Option Handle → Int
  | some h => h.lastError.code.number.toNat
  | none => -1

/-- A number where there may be none: -1 stands for none. -/
def orMinusOne : Option Nat → Int
  | some n => n
  | none => -1

/-- Whether two sources have the same structure, both read first: 1 or 0, or the fault of the first that cannot be read. -/
def compareSources (base target : Bytes) : Except Fault Int :=
  match Message.parse base, Message.parse target with
  | .error f, _ => .error f
  | .ok _, .error f => .error f
  | .ok m, .ok m' => .ok (if m.sameStructure m' then 1 else 0)

/-- A call on a handle, among handles known by their numbers: the handle after it, and the reply. A call without a handle leaves
none. -/
def Call.run (handle? : Nat → Option Handle) (h : Option Handle) : Call → Option Handle × Reply
  | .abiVersion => (h, { answer := .number Phrasebook.abiVersion })
  | .lastError => (h, { answer := .text (lastErrorText h) })
  | .lastErrorCopy buffer =>
    match h with
    | none => (h, .failure)
    | some _ =>
      let text := lastErrorText h
      let told := toldLength text.length
      (h, ⟨.number told, buffer.receiveTold told text, buffer.outside? told⟩)
  | .lastErrorCode => (h, { answer := .number (lastErrorNumber h) })
  | .load source strict =>
    match h, source with
    | some g, some s =>
      let r := g.load strict s.untilNul
      (some r.1, { answer := .number (if r.2 then 0 else -1) })
    | _, _ => (h, .failure)
  | .catalogLocale buffer =>
    match h with
    | some g => deliverText (some g.cleared) g.catalog.metadata.locale buffer
    | none => (h, .failure)
  | .phrase id arguments buffer =>
    match h, id with
    | some g, some i => deliverOutcome (g.phrase i.untilNul arguments.bindings) buffer
    | _, _ => (h, .failure)
  | .phraseForCount id n arguments buffer =>
    match h, id with
    | some g, some i => deliverOutcome (g.phraseForCount i.untilNul n arguments.bindings) buffer
    | _, _ => (h, .failure)
  | .check base buffer =>
    match h, base.bind handle? with
    | some g, some b =>
      let result := g.catalog.check b.catalog
      deliver (some g.cleared) result.code result.text buffer
    | _, _ => (h, .failure)
  | .table buffer =>
    match h with
    | some g => deliverText (some g.cleared) g.catalog.table buffer
    | none => (h, .failure)
  | .search query buffer =>
    match h, query with
    | some g, some q => deliverText (some g.cleared) (g.catalog.searchText q.untilNul) buffer
    | _, _ => (h, .failure)
  | .formCount locale => (h, { answer := .number (orMinusOne (locale.bind (fun l => (familyOf? l.untilNul).map Family.formCount))) })
  | .formIndex locale n => (h, { answer := .number (orMinusOne (locale.bind (fun l => formIndex? l.untilNul n))) })
  | .selectForm text n locale key buffer =>
    match text, locale with
    | some t, some l =>
      match Phrasebook.selectForm (key.getD []).untilNul l.untilNul t.untilNul n with
      | .ok form => deliverText (h.map Handle.cleared) form buffer
      | .error f => (h.map (·.withError f.lastError), .failure)
    | _, _ => (h, .failure)
  | .checkStructure base target =>
    match base, target with
    | some b, some t =>
      match compareSources b.untilNul t.untilNul with
      | .ok answer => (h.map Handle.cleared, { answer := .number answer })
      | .error f => (h.map (·.withError f.lastError), .failure)
    | _, _ => (h, .failure)

end Phrasebook
