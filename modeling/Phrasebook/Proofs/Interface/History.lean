import Phrasebook.Interface.Session
import Mathlib.Data.List.Induction

/-!
# What a reply depends on

In a session handles are made and freed, sources are loaded, and calls reset and set last errors. Of all this a call that looks at
catalogs sees, for each handle it reads, only the last source that was loaded since the handle was new, and whether it was loaded strictly
(`Session.lastLoad`): every other event leaves the catalog of the handle as it is (`Session.catalog?_step`), and of a handle the reply
depends on the catalog alone (`Session.reply_congr`). So the reply is the same in every session with the same last loads, and no event that
does not settle the catalog of a handle read has an influence on it (`Session.reply_determined`).
-/

namespace Phrasebook

/-! ## Calls that look at catalogs -/

/-- Whether a call asks for something that catalogs or its arguments hold: every call but loading and those for the last error. -/
def Call.observes : Call → Bool
  | .load .. | .lastError | .lastErrorCopy _ | .lastErrorCode => false
  | _ => true

/-- The slots whose catalogs a call on a slot reads. -/
def Call.reads (slot : Option Nat) : Call → List (Option Nat)
  | .catalogLocale _ | .phrase .. | .phraseForCount .. | .table _ | .search .. => [slot]
  | .check base _ => [slot, base]
  | _ => []

/-- The call with another base. Only a check has one. -/
def Call.withBase (base : Option Nat) : Call → Call
  | .check _ buffer => .check base buffer
  | c => c

theorem Call.exists_withBase_eq (c : Call) : ∃ base, c.withBase base = c := by
  cases c with
  | check base buffer => exact ⟨base, rfl⟩
  | _ => exact ⟨none, rfl⟩

/-! ## What settles a catalog -/

/-- A source that is loaded, and whether it is loaded strictly. -/
structure Loading where
  source : Bytes
  strict : Bool
  deriving DecidableEq, Repr

/-- The catalog that a loading leaves, whether it succeeds or not. -/
def Loading.catalog (l : Loading) : Catalog := (Catalog.load l.strict {} l.source).1

/-- What settles the catalog of a slot: a new handle, the end of the handle, or a source that is not empty. -/
inductive Settlement where
  | created
  | freed
  | loaded (l : Loading)
  deriving DecidableEq, Repr

/-- What an action settles, if it settles anything. -/
def Action.settlement? : Action → Option Settlement
  | .create => some .created
  | .free => some .freed
  | .call (.load (some text) strict) => if text.untilNul = [] then none else some (.loaded ⟨text.untilNul, strict⟩)
  | .call _ => none

/-- An event of a session: an action on a slot, or on none. -/
abbrev Event : Type := Option Nat × Action

/-- What an event settles for a slot. -/
def Event.settlement? (k : Nat) (e : Event) : Option Settlement := if e.1 = some k then e.2.settlement? else none

/-- What is known of a slot after a settlement: nothing if it has no handle, and otherwise what was loaded last into it, if anything was.
A source loaded where there is no handle is lost. -/
def Settlement.after (known : Option (Option Loading)) : Settlement → Option (Option Loading)
  | .created => some none
  | .freed => none
  | .loaded l => known.map fun _ => some l

namespace Session

/-- A session after events. -/
def run (es : List Event) : Session := es.foldl (fun s e => (s.step e.1 e.2).1) {}

theorem run_append_singleton (es : List Event) (e : Event) : run (es ++ [e]) = ((run es).step e.1 e.2).1 := by
  rw [run, List.foldl_append]
  rfl

/-- The reply to a call on a slot after events. -/
def reply (es : List Event) (slot : Option Nat) (c : Call) : Reply := ((run es).step slot (.call c)).2

/-- What events settle for a slot, one after the other. -/
def settlements (es : List Event) (k : Nat) : List Settlement := es.filterMap (Event.settlement? k)

/-- What was loaded last into the handle of a slot since it was new, if there is a handle and if anything was. -/
def lastLoad (es : List Event) (slot : Option Nat) : Option (Option Loading) :=
  slot.bind fun k => (settlements es k).foldl Settlement.after none

/-- The catalog of a slot, if it has a handle. -/
def catalog? (s : Session) (slot : Option Nat) : Option Catalog := (s.handle? slot).map Handle.catalog

end Session

/-! ## Only settlements change a catalog -/

/-- Putting a result into a buffer leaves the catalog. -/
@[simp] theorem map_catalog_deliver (h : Option Handle) (answer : Int) (result : Bytes) (buffer : Buffer) :
    (deliver h answer result buffer).1.map Handle.catalog = h.map Handle.catalog := by
  unfold deliver
  split
  · cases h <;> rfl
  · rfl

/-- Putting what came of an outcome into a buffer leaves the catalog. -/
@[simp] theorem map_catalog_deliverOutcome (g : Handle) (r : Except Fault Bytes) (buffer : Buffer) :
    (deliverOutcome (g.settle r) buffer).1.map Handle.catalog = some g.catalog := by
  cases r with
  | ok a => simp [Handle.settle, deliverOutcome, deliverText]
  | error f => rfl

/-- A call leaves the catalog of its handle, but for the loading of a source. -/
theorem Call.map_catalog_run (find : Nat → Option Handle) (h : Option Handle) (c : Call) :
    (c.run find h).1.map Handle.catalog =
      match c with
      | .load (some text) strict => h.map fun g => (g.catalog.load strict text.untilNul).1
      | _ => h.map Handle.catalog := by
  cases c with
  | load source strict => cases h <;> cases source <;> simp [Call.run]
  | selectForm text n locale key buffer =>
    simp only [Call.run]
    split
    · split
      · cases h <;> simp [deliverText]
      · cases h <;> rfl
    · rfl
  | checkStructure base target =>
    simp only [Call.run]
    split
    · split
      · cases h <;> rfl
      · cases h <;> rfl
    · rfl
  | phrase id arguments buffer => cases h <;> cases id <;> simp [Call.run, Handle.phrase]
  | phraseForCount id n arguments buffer => cases h <;> cases id <;> simp [Call.run, Handle.phraseForCount]
  | check base buffer =>
    simp only [Call.run]
    split
    · simp
    · rfl
  | catalogLocale => cases h <;> simp [Call.run, deliverText]
  | table => cases h <;> simp [Call.run, deliverText]
  | search query => cases h <;> cases query <;> simp [Call.run, deliverText]
  | lastErrorCopy => cases h <;> rfl
  | _ => rfl

namespace Session

/-- The catalog of a slot after another handle, or none, was put into a slot. -/
theorem catalog?_put (s : Session) (slot : Option Nat) (h : Option Handle) (k : Nat) :
    (s.put slot h).catalog? (some k) = if slot = some k then h.map Handle.catalog else s.catalog? (some k) := by
  cases slot with
  | none => rfl
  | some j =>
    rw [catalog?, handle?_put]
    by_cases hk : k = j
    · rw [if_pos hk, if_pos (congrArg some hk.symm)]
    · rw [if_neg hk, if_neg fun e => hk (Option.some.inj e).symm, catalog?]

/-- What an action settles for its slot is settled for the catalog: a new handle has an empty one, a freed handle none, and a loaded source
replaces what there was. -/
theorem catalog?_step (s : Session) (slot : Option Nat) (a : Action) (k : Nat) :
    (s.step slot a).1.catalog? (some k) =
      match Event.settlement? k (slot, a) with
      | none => s.catalog? (some k)
      | some .created => some {}
      | some .freed => none
      | some (.loaded l) => (s.catalog? (some k)).map fun _ => l.catalog := by
  by_cases hslot : slot = some k
  · rw [Event.settlement?, if_pos hslot]
    cases a with
    | create => rw [step, catalog?_put, if_pos hslot]; rfl
    | free => rw [step, catalog?_put, if_pos hslot]; rfl
    | call c =>
      have hcatalog : (s.step slot (.call c)).1.catalog? (some k) = (c.run (fun j => s.handle? (some j)) (s.handle? slot)).1.map
          Handle.catalog := by
        rw [step, catalog?_put, if_pos hslot]
      rw [hcatalog, Call.map_catalog_run, hslot]
      cases c with
      | load source strict =>
        cases source with
        | none => rfl
        | some text =>
          by_cases htext : text.untilNul = []
          · simp only [Action.settlement?, htext, if_true, catalog?]
            rfl
          · simp only [Action.settlement?, if_neg htext, catalog?, Option.map_map]
            refine congrArg (fun f => Option.map f _) (funext fun g => ?_)
            exact congrArg Prod.fst (Catalog.load_eq_load strict g.catalog {} htext)
      | _ => rfl
  · rw [Event.settlement?, if_neg hslot]
    cases a with
    | create => rw [step, catalog?_put, if_neg hslot]
    | free => rw [step, catalog?_put, if_neg hslot]
    | call c => rw [step, catalog?_put, if_neg hslot]

/-- The catalog of a slot is told by what was loaded last into its handle. -/
theorem catalog?_run (es : List Event) (slot : Option Nat) :
    (run es).catalog? slot = (lastLoad es slot).map fun known => (known.map Loading.catalog).getD {} := by
  cases slot with
  | none => rfl
  | some k =>
    induction es using List.reverseRecOn with
    | nil => rfl
    | append_singleton es e ih =>
      have hset : lastLoad (es ++ [e]) (some k) =
          (Event.settlement? k e).elim (lastLoad es (some k)) (Settlement.after (lastLoad es (some k))) := by
        simp only [lastLoad, settlements, Option.bind_some, List.filterMap_append, List.foldl_append, List.filterMap_cons,
          List.filterMap_nil]
        cases Event.settlement? k e <;> rfl
      rw [run_append_singleton, catalog?_step, hset, ih]
      cases Event.settlement? k (e.1, e.2) with
      | none => rfl
      | some settlement =>
        cases settlement with
        | created => rfl
        | freed => rfl
        | loaded l => cases lastLoad es (some k) <;> rfl

end Session

/-! ## Of a handle the reply depends on the catalog alone -/

/-- Handles with the same catalog differ in the last error only. -/
theorem map_cleared_of_map_catalog {h h' : Option Handle} (hcat : h'.map Handle.catalog = h.map Handle.catalog) :
    h'.map Handle.cleared = h.map Handle.cleared := by
  have hfresh : ∀ g : Option Handle, g.map Handle.cleared = (g.map Handle.catalog).map fun c => ⟨c, {}⟩ := fun g => by
    cases g <;> rfl
  rw [hfresh, hfresh, hcat]

/-- What is replied to a result does not depend on the handle that is kept. -/
theorem reply_deliver (h h' : Option Handle) (answer : Int) (result : Bytes) (buffer : Buffer) :
    (deliver h answer result buffer).2 = (deliver h' answer result buffer).2 := by
  unfold deliver
  split <;> rfl

/-- What is replied to an outcome does not depend on the handle that settles it. -/
theorem reply_deliverOutcome (g g' : Handle) (r : Except Fault Bytes) (buffer : Buffer) :
    (deliverOutcome (g.settle r) buffer).2 = (deliverOutcome (g'.settle r) buffer).2 := by
  cases r with
  | ok a => exact reply_deliver _ _ _ _ _
  | error f => rfl

/-- A call that reads no catalog and does not ask for the last error has the same reply on every handle, or on none. -/
theorem Call.reply_of_reads_nil {c : Call} (hc : c.observes = true) (hr : c.reads none = []) (find find' : Nat → Option Handle)
    (h h' : Option Handle) : (c.run find h).2 = (c.run find' h').2 := by
  cases c with
  | abiVersion => rfl
  | formCount => rfl
  | formIndex => rfl
  | selectForm text n locale key buffer =>
    simp only [Call.run]
    split
    · split
      · exact reply_deliver _ _ _ _ _
      · rfl
    · rfl
  | checkStructure base target =>
    simp only [Call.run]
    split
    · split <;> rfl
    · rfl
  | _ => simp [Call.observes, Call.reads] at hc hr

/-- A call that does not ask for the last error has the same reply without any last error. -/
theorem Call.reply_cleared {c : Call} (hc : c.observes = true) (find : Nat → Option Handle) (h : Option Handle) :
    (c.run find h).2 = (c.run (fun k => (find k).map Handle.cleared) (h.map Handle.cleared)).2 := by
  cases c with
  | catalogLocale => cases h <;> rfl
  | table => cases h <;> rfl
  | search query => cases h <;> cases query <;> rfl
  | phrase id arguments buffer =>
    cases h with
    | none => rfl
    | some g =>
      cases id with
      | none => rfl
      | some i => exact reply_deliverOutcome g g.cleared _ _
  | phraseForCount id n arguments buffer =>
    cases h with
    | none => rfl
    | some g =>
      cases id with
      | none => rfl
      | some i => exact reply_deliverOutcome g g.cleared _ _
  | check base buffer =>
    cases h with
    | none => rfl
    | some g =>
      have hbase : (base.bind fun k => (find k).map Handle.cleared) = (base.bind find).map Handle.cleared := by
        cases base <;> rfl
      simp only [Call.run, hbase]
      cases base.bind find <;> rfl
  | lastError => cases hc
  | lastErrorCopy => cases hc
  | lastErrorCode => cases hc
  | load => cases hc
  | _ => exact Call.reply_of_reads_nil hc rfl _ _ _ _

namespace Session

/-- A call that does not ask for the last error has the same reply wherever the catalogs that it reads are the same. -/
theorem reply_congr {c : Call} (hc : c.observes = true) {s s' : Session} {slot slot' base' : Option Nat}
    (h : ((c.withBase base').reads slot').map s'.catalog? = (c.reads slot).map s.catalog?) :
    (s'.step slot' (.call (c.withBase base'))).2 = (s.step slot (.call c)).2 := by
  have hc' : (c.withBase base').observes = true := by
    cases c <;> exact hc
  have hown : ∀ {rest rest' : List (Option Catalog)}, s'.catalog? slot' :: rest' = s.catalog? slot :: rest →
      (s'.handle? slot').map Handle.cleared = (s.handle? slot).map Handle.cleared :=
    fun hl => map_cleared_of_map_catalog (List.cons.inj hl).1
  simp only [step]
  rw [Call.reply_cleared hc', Call.reply_cleared hc]
  cases c with
  | catalogLocale => rw [hown h]; rfl
  | table => rw [hown h]; rfl
  | search => rw [hown h]; rfl
  | phrase => rw [hown h]; rfl
  | phraseForCount => rw [hown h]; rfl
  | check base buffer =>
    have hbase := map_cleared_of_map_catalog (List.cons.inj (List.cons.inj h).2).1
    have hbind : ∀ (s : Session) (slot : Option Nat),
        (slot.bind fun k => (s.handle? (some k)).map Handle.cleared) = (s.handle? slot).map Handle.cleared := fun s slot => by
      cases slot <;> rfl
    rw [hown h]
    simp only [Call.withBase, Call.run, hbind, hbase]
  | lastError => cases hc
  | lastErrorCopy => cases hc
  | lastErrorCode => cases hc
  | load => cases hc
  | _ => exact Call.reply_of_reads_nil hc rfl _ _ _ _

/-- The reply to a call that does not ask for the last error is told by what was loaded last into the handles that it reads. -/
theorem reply_of_lastLoad {c : Call} (hc : c.observes = true) {es es' : List Event} {slot slot' base' : Option Nat}
    (h : ((c.withBase base').reads slot').map (lastLoad es') = (c.reads slot).map (lastLoad es)) :
    reply es' slot' (c.withBase base') = reply es slot c := by
  refine reply_congr hc ?_
  have hcatalogs : ∀ (es : List Event) (slots : List (Option Nat)), slots.map (run es).catalog? =
      (slots.map (lastLoad es)).map (Option.map fun known => (known.map Loading.catalog).getD {}) := fun es slots => by
    rw [List.map_map]
    exact List.map_congr_left fun slot _ => catalog?_run es slot
  rw [hcatalogs, hcatalogs, h]

/-- The reply to a call that does not ask for the last error is told by its arguments and, for each handle that it reads, by the last
source that was loaded since the handle was new and by whether it was loaded strictly. So it is the same in another session, and on other
handles, with the same last loads; and it is the same after any events that settle the same for those handles, whatever else is done
between. -/
theorem reply_determined {c : Call} (hc : c.observes = true) (slot : Option Nat) (es : List Event) :
    (∀ (es' : List Event) (slot' base' : Option Nat),
        ((c.withBase base').reads slot').map (lastLoad es') = (c.reads slot).map (lastLoad es) →
        reply es' slot' (c.withBase base') = reply es slot c) ∧
      ∀ es' : List Event, (∀ k, some k ∈ c.reads slot → settlements es' k = settlements es k) →
        reply es' slot c = reply es slot c := by
  refine ⟨fun es' slot' base' h => reply_of_lastLoad hc h, fun es' h => ?_⟩
  obtain ⟨base, hbase⟩ := c.exists_withBase_eq
  have hloads : (c.reads slot).map (lastLoad es') = (c.reads slot).map (lastLoad es) := by
    refine List.map_congr_left fun k hk => ?_
    cases k with
    | none => rfl
    | some k => simp only [lastLoad, Option.bind_some, h k hk]
  have hreply : reply es' slot (c.withBase base) = reply es slot c := reply_of_lastLoad hc (by rwa [hbase])
  rwa [hbase] at hreply

/-- A check has the same reply in two sessions on different handles, though the base was loaded with a fault, the events come in another
order, and in one session there is a loading before the last, an empty source and a call that fails. -/
theorem reply_determined_sample :
    ∃ (c : Call) (es es' : List Event), c.observes = true ∧ c = .check (some 1) ⟨true, 4096⟩ ∧
      (c.reads (some 0)).map (lastLoad es) = [some (some ⟨utf8 "a: x", true⟩), some (some ⟨utf8 "a: y\na: z", false⟩)] ∧
      settlements es' 2 ≠ settlements es 0 ∧ reply es' (some 2) (c.withBase (some 3)) = reply es (some 0) c ∧
      reply (es ++ es') (some 0) c = reply es (some 0) c := by
  refine ⟨.check (some 1) ⟨true, 4096⟩,
    [(some 0, .create), (some 0, .call (.load (some (utf8 "a: x")) true)), (some 1, .create),
      (some 1, .call (.load (some (utf8 "a: y\na: z")) false))],
    [(some 3, .create), (some 2, .create), (some 2, .call (.load (some (utf8 "b: <i>")) false)),
      (some 3, .call (.load (some (utf8 "a: y\na: z")) false)), (some 2, .call (.phrase (some (utf8 "b")) ⟨none, none, 0⟩ ⟨false, 0⟩)),
      (some 2, .call (.load (some (utf8 "a: x")) true)), (some 2, .call (.load (some []) true)), (some 0, .call .lastError)],
    rfl, rfl, by decide, by decide, ?_, ?_⟩
  · exact (reply_determined rfl (some 0) _).1 _ (some 2) (some 3) (by decide)
  · refine (reply_determined rfl (some 0) _).2 _ fun k hk => ?_
    have hk : k = 0 ∨ k = 1 := by simpa [Call.reads] using hk
    rcases hk with rfl | rfl
    · decide
    · decide

end Session

end Phrasebook
