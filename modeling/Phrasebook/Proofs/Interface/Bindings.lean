import Phrasebook.Interface.Call
import Phrasebook.Proofs.Catalog.CountedPhrase
import Mathlib.Data.List.Induction
import Mathlib.Logic.Relation

/-!
# The values that arguments bind

The arguments of a call are pairs of names and values, of which a number count. A call takes them by name: the value of a name is the one
beside it in the last of its pairs (`Arguments.find?_bindings`), and nothing else about the pairs shows in what comes of the call, since a
message looks values up and does nothing else with them (`Message.render_congr`). So pairs may be added, left out and put in another order
within the limits of `Arguments.Edit` (`Arguments.takenByName`).
-/

namespace Phrasebook

/-! ## Values that agree -/

section

variable {α : Type} [TextForm α] {vs vs' : Values α}

/-- A level is rendered alike if its nodes are. -/
theorem Message.render_congr_of_forall {m : Message} (h : ∀ n ∈ m, n.render vs = n.render vs') :
    Message.render vs m = Message.render vs' m := by
  induction m with
  | nil => rw [render, render]
  | cons n ns ih =>
    obtain ⟨hn, hns⟩ := List.forall_mem_cons.mp h
    rw [render, render, hn, ih hns]

/-- A node is rendered alike with values that bind every name alike. -/
theorem Node.render_congr (h : ∀ name, vs.find? name = vs'.find? name) (n : Node) : n.render vs = n.render vs' := by
  induction n using Node.induction with
  | text content => rw [render, render]
  | named n hn ih =>
    rw [render_of_not_text hn, render_of_not_text hn, Message.render_congr_of_forall ih]
    simp only [Values.part, h]

theorem Message.render_congr (h : ∀ name, vs.find? name = vs'.find? name) (m : Message) :
    Message.render vs m = Message.render vs' m :=
  render_congr_of_forall fun n _ => n.render_congr h

end

section

variable {vs vs' : Values Bytes}

/-- A source has the same text with values that bind every name alike. -/
theorem renderSource_congr (h : ∀ name, vs.find? name = vs'.find? name) (source : Bytes) :
    renderSource vs source = renderSource vs' source := by
  simp only [renderSource, Message.renderText, Message.render_congr h]

/-- The phrase of an id is the same with values that bind every name alike. -/
theorem Catalog.phrase_congr (h : ∀ name, vs.find? name = vs'.find? name) (c : Catalog) (id : Bytes) :
    c.phrase id vs = c.phrase id vs' := by
  simp only [phrase, renderSource_congr h]

/-- The phrase of an id for a count is the same with values that bind every name alike, since with the count they still bind every name
alike. -/
theorem Catalog.phraseForCount_congr (h : ∀ name, vs.find? name = vs'.find? name) (c : Catalog) (id : Bytes) (n : Int) :
    c.phraseForCount id n vs = c.phraseForCount id n vs' := by
  have hcount : ∀ name, (vs.withCount n).find? name = (vs'.withCount n).find? name := by
    intro name
    rw [Values.find?_withCount, Values.find?_withCount, h, h]
  simp only [phraseForCount, renderSource_congr hcount]

end

/-! ## The last of a kind -/

/-- The last value that a function has on a list is the one where it has one for the last time. -/
theorem getLast?_filterMap_eq_some_iff {α β : Type} {f : α → Option β} {xs : List α} {y : β} :
    (xs.filterMap f).getLast? = some y ↔
      ∃ i : Nat, (∃ x, xs[i]? = some x ∧ f x = some y) ∧ ∀ (j : Nat) z, (∃ x, xs[j]? = some x ∧ f x = some z) → j ≤ i := by
  rw [← List.head?_reverse, ← List.filterMap_reverse, List.head?_filterMap, List.findSome?_eq_some_iff]
  constructor
  · rintro ⟨after, x, before, hxs, hx, hafter⟩
    have hxs : xs = before.reverse ++ x :: after.reverse := by simpa using congrArg List.reverse hxs
    refine ⟨before.reverse.length, ⟨x, by simp [hxs], hx⟩, fun j z => ?_⟩
    rintro ⟨x', hx', hz⟩
    by_contra hlt
    obtain ⟨k, rfl⟩ : ∃ k, j = before.reverse.length + (k + 1) := ⟨j - before.reverse.length - 1, by omega⟩
    rw [hxs, List.getElem?_append_right (Nat.le_add_right _ _), Nat.add_sub_cancel_left, List.getElem?_cons_succ] at hx'
    rw [hafter x' (List.mem_reverse.mp (List.mem_of_getElem? hx'))] at hz
    cases hz
  · rintro ⟨i, ⟨x, hxi, hx⟩, hlast⟩
    obtain ⟨hi, rfl⟩ := List.getElem?_eq_some_iff.mp hxi
    refine ⟨(xs.drop (i + 1)).reverse, xs[i], (xs.take i).reverse, ?_, hx, fun x' hx' => ?_⟩
    · simp
    · obtain ⟨k, hk⟩ := List.mem_iff_getElem?.mp (List.mem_reverse.mp hx')
      rw [List.getElem?_drop] at hk
      rw [Option.eq_none_iff_forall_ne_some]
      intro z hz
      have := hlast _ z ⟨x', hk, hz⟩
      omega

theorem Values.find?_ofList_concat {α : Type} (ps : List (Bytes × Value α)) (p : Bytes × Value α) (name : Bytes) :
    (Values.ofList (ps ++ [p])).find? name = if name = p.1 then some p.2 else (Values.ofList ps).find? name := by
  rw [ofList, List.foldl_append]
  exact find?_bind _ _ _ _

namespace Arguments

/-! ## The pairs that count -/

/-- The pairs that count. -/
def pairs (a : Arguments) : List (Option Bytes × Option Bytes) :=
  match a.names, a.values with
  | some names, some values => (names.zip values).take a.count.toNat
  | _, _ => []

/-- The text that a pair gives to a name: none if that is not its name, and the empty one if it has no value. -/
def textFor? (name : Bytes) (p : Option Bytes × Option Bytes) : Option Bytes :=
  if p.1.map Bytes.untilNul = some name then some (p.2.getD []).untilNul else none

/-- At a number among those that count, arguments have a name, and a text beside it; where there is no value, the text is empty. -/
def Gives (a : Arguments) (i : Nat) (name text : Bytes) : Prop :=
  ∃ names values, a.names = some names ∧ a.values = some values ∧ (i : Int) < a.count ∧
    ∃ n v, names[i]? = some (some n) ∧ values[i]? = some v ∧ n.untilNul = name ∧ (v.getD []).untilNul = text

/-- Arguments bind a name to the text beside it where it stands for the last time. -/
def Binds (a : Arguments) (name text : Bytes) : Prop :=
  ∃ i, a.Gives i name text ∧ ∀ j text', a.Gives j name text' → j ≤ i

/-- Values bind the names that arguments bind, to their texts, and no others. -/
def Describes (a : Arguments) (vs : Values Bytes) : Prop :=
  ∀ name v, vs.find? name = some v ↔ ∃ text, v = .text text ∧ a.Binds name text

theorem bindings_eq (a : Arguments) : a.bindings = .ofList (a.pairs.filterMap binding?) := by
  obtain ⟨names, values, count⟩ := a
  cases names <;> cases values <;> rfl

/-- Of the pairs that bind a name, the last one counts. -/
theorem find?_ofList_filterMap (ps : List (Option Bytes × Option Bytes)) (name : Bytes) :
    (Values.ofList (ps.filterMap binding?)).find? name = (ps.filterMap (textFor? name)).getLast?.map .text := by
  induction ps using List.reverseRecOn with
  | nil => rfl
  | append_singleton ps p ih =>
    obtain ⟨n?, v⟩ := p
    cases n? with
    | none =>
      have hbinding : (ps ++ [(none, v)]).filterMap binding? = ps.filterMap binding? := by simp [binding?]
      have htext : (ps ++ [(none, v)]).filterMap (textFor? name) = ps.filterMap (textFor? name) := by simp [textFor?]
      rw [hbinding, htext, ih]
    | some n =>
      have hbinding : (ps ++ [(some n, v)]).filterMap binding? =
          ps.filterMap binding? ++ [(n.untilNul, .text (v.getD []).untilNul)] := by simp [binding?]
      rw [hbinding, Values.find?_ofList_concat, ih]
      by_cases hname : n.untilNul = name
      · simp [textFor?, hname]
      · simp [textFor?, hname, Ne.symm hname]

/-- The value that arguments bind a name to is the last text that a pair gives to it. -/
theorem find?_bindings (a : Arguments) (name : Bytes) :
    a.bindings.find? name = (a.pairs.filterMap (textFor? name)).getLast?.map .text := by
  rw [bindings_eq, find?_ofList_filterMap]

/-- What arguments have at a number is what the pair of that number gives, if it counts. -/
theorem gives_iff {a : Arguments} {i : Nat} {name text : Bytes} :
    a.Gives i name text ↔ ∃ p, a.pairs[i]? = some p ∧ textFor? name p = some text := by
  have htext : ∀ n? v, textFor? name (n?, v) = some text ↔
      ∃ n, n? = some n ∧ n.untilNul = name ∧ (v.getD []).untilNul = text := by
    intro n? v
    cases n? <;> simp [textFor?]
  obtain ⟨names, values, count⟩ := a
  cases names with
  | none => simp [Gives, pairs]
  | some names =>
    cases values with
    | none => simp [Gives, pairs]
    | some values =>
      have hcount : (i : Int) < count ↔ i < count.toNat := by omega
      simp only [Gives, pairs, hcount, Option.some.injEq, Prod.exists, htext, List.getElem?_take, Option.ite_none_right_eq_some,
        List.getElem?_zip_eq_some]
      constructor
      · rintro ⟨_, _, rfl, rfl, hi, n, v, hn, hv, hname, htext⟩
        exact ⟨some n, v, ⟨hi, hn, hv⟩, n, rfl, hname, htext⟩
      · rintro ⟨_, v, ⟨hi, hn, hv⟩, n, rfl, hname, htext⟩
        exact ⟨names, values, rfl, rfl, hi, n, v, hn, hv, hname, htext⟩

/-- Arguments describe the values that they bind. -/
theorem describes_bindings (a : Arguments) : a.Describes a.bindings := by
  intro name v
  simp only [find?_bindings, Option.map_eq_some_iff, getLast?_filterMap_eq_some_iff, ← gives_iff]
  constructor
  · rintro ⟨text, hlast, rfl⟩
    exact ⟨text, rfl, hlast⟩
  · rintro ⟨text, rfl, hlast⟩
    exact ⟨text, hlast, rfl⟩

/-! ## What comes of a call -/

/-- With arguments, the phrase of an id is that of the catalog with values, and so is the phrase of an id for a count. -/
def ActsAs (a : Arguments) (vs : Values Bytes) : Prop :=
  ∀ find g i b, (Call.phrase (some i) a b).run find (some g) = deliverOutcome (g.phrase i.untilNul vs) b ∧
    ∀ n, (Call.phraseForCount (some i) n a b).run find (some g) = deliverOutcome (g.phraseForCount i.untilNul n vs) b

/-- With either arguments, the phrase of an id leaves the same handle and has the same reply, and so does the phrase of an id for a count. -/
def SameCalls (a a' : Arguments) : Prop :=
  ∀ find h id b, (Call.phrase id a b).run find h = (Call.phrase id a' b).run find h ∧
    ∀ n, (Call.phraseForCount id n a b).run find h = (Call.phraseForCount id n a' b).run find h

/-- Values that bind every name as the arguments do may take their place. -/
theorem actsAs_of_find? {a : Arguments} {vs : Values Bytes} (h : ∀ name, a.bindings.find? name = vs.find? name) : a.ActsAs vs := by
  intro find g i b
  refine ⟨?_, fun n => ?_⟩
  · rw [Call.run, Handle.phrase, Handle.phrase, Catalog.phrase_congr h]
  · rw [Call.run, Handle.phraseForCount, Handle.phraseForCount, Catalog.phraseForCount_congr h]

/-- Arguments that bind every name alike are the same to a call. -/
theorem sameCalls_of_find? {a a' : Arguments} (h : ∀ name, a.bindings.find? name = a'.bindings.find? name) : a.SameCalls a' := by
  intro find handle? id b
  cases handle? with
  | none => exact ⟨rfl, fun n => rfl⟩
  | some g =>
    cases id with
    | none => exact ⟨rfl, fun n => rfl⟩
    | some i => exact actsAs_of_find? h find g i b

/-! ## Pairs that make no difference -/

/-- Arguments with pairs that count, and with names and values behind them that do not. -/
def ofPairs (ps : List (Option Bytes × Option Bytes)) (names values : List (Option Bytes)) : Arguments :=
  ⟨some (ps.map Prod.fst ++ names), some (ps.map Prod.snd ++ values), ps.length⟩

/-- Whether a pair has a name. -/
def named (name : Bytes) (p : Option Bytes × Option Bytes) : Bool := p.1.map Bytes.untilNul == some name

/-- A change of arguments that makes no difference to a call: other names and values behind the pairs that count; one pair less that has
no name, or whose name is that of a pair behind it; or the pairs in another order, those of one name in the order that they had. -/
inductive Edit : Arguments → Arguments → Prop
  | behind (ps : List (Option Bytes × Option Bytes)) (names values names' values' : List (Option Bytes)) :
      Edit (ofPairs ps names values) (ofPairs ps names' values')
  | nameless (before after : List (Option Bytes × Option Bytes)) (v : Option Bytes) (names values : List (Option Bytes)) :
      Edit (ofPairs (before ++ (none, v) :: after) names values) (ofPairs (before ++ after) names values)
  | overwritten (before after : List (Option Bytes × Option Bytes)) {n : Bytes} (v : Option Bytes)
      (names values : List (Option Bytes)) : (∃ p ∈ after, named n.untilNul p = true) →
      Edit (ofPairs (before ++ (some n, v) :: after) names values) (ofPairs (before ++ after) names values)
  | reordered {ps ps' : List (Option Bytes × Option Bytes)} (names values : List (Option Bytes)) : ps.Perm ps' →
      (∀ name, ps.filter (named name) = ps'.filter (named name)) → Edit (ofPairs ps names values) (ofPairs ps' names values)

/-- Any number of such changes, in either direction. -/
def Edited : Arguments → Arguments → Prop := Relation.EqvGen Edit

/-- Of arguments with pairs, those pairs count. -/
theorem pairs_ofPairs (ps : List (Option Bytes × Option Bytes)) (names values : List (Option Bytes)) :
    (ofPairs ps names values).pairs = ps := by
  have hlength : (ps.map Prod.fst).length = (ps.map Prod.snd).length := by simp
  have hzip : (ps.map Prod.fst).zip (ps.map Prod.snd) = ps := by simpa [List.unzip_eq_map] using List.zip_unzip ps
  simp only [pairs, ofPairs, Int.toNat_natCast, List.zip_append hlength, hzip, List.take_left]

/-- Arguments of which no more pairs count than there are have such pairs. -/
theorem exists_eq_ofPairs {names values : List (Option Bytes)} {count : Nat} (hnames : count ≤ names.length)
    (hvalues : count ≤ values.length) :
    ∃ ps names' values', (⟨some names, some values, count⟩ : Arguments) = ofPairs ps names' values' := by
  have hlength : (names.take count).length = (values.take count).length := by simp [hnames, hvalues]
  refine ⟨(names.take count).zip (values.take count), names.drop count, values.drop count, ?_⟩
  rw [ofPairs, List.map_fst_zip (Nat.le_of_eq hlength), List.map_snd_zip (Nat.le_of_eq hlength.symm)]
  simp [hnames, hvalues]

/-- The pairs of a name are all that counts for the name. -/
theorem filterMap_textFor?_filter (ps : List (Option Bytes × Option Bytes)) (name : Bytes) :
    (ps.filter (named name)).filterMap (textFor? name) = ps.filterMap (textFor? name) := by
  rw [List.filterMap_filter]
  refine List.filterMap_congr fun p _ => ?_
  simp [named, textFor?]

/-- A change that makes no difference leaves the last text that is given to a name. -/
theorem Edit.getLast?_eq {a a' : Arguments} (h : a.Edit a') (name : Bytes) :
    (a.pairs.filterMap (textFor? name)).getLast? = (a'.pairs.filterMap (textFor? name)).getLast? := by
  cases h with
  | behind ps => rw [pairs_ofPairs, pairs_ofPairs]
  | nameless before after v =>
    rw [pairs_ofPairs, pairs_ofPairs, List.filterMap_append, List.filterMap_append, List.filterMap_cons_none rfl]
  | @overwritten before after n v _ _ hafter =>
    obtain ⟨p, hp, hnamed⟩ := hafter
    rw [pairs_ofPairs, pairs_ofPairs, List.filterMap_append, List.filterMap_append]
    by_cases hname : n.untilNul = name
    · have hlast : after.filterMap (textFor? name) ≠ [] := by
        rw [Ne, List.filterMap_eq_nil_iff]
        intro hnone
        have htext := hnone p hp
        simp only [named, hname, beq_iff_eq] at hnamed
        simp [textFor?, hnamed] at htext
      have htext : textFor? name (some n, v) = some (v.getD []).untilNul := by simp [textFor?, hname]
      rw [List.filterMap_cons_some htext, List.getLast?_append, List.getLast?_append, List.getLast?_cons_of_ne_nil hlast]
    · have hnone : textFor? name (some n, v) = none := by simp [textFor?, hname]
      rw [List.filterMap_cons_none hnone]
  | reordered _ _ _ hfilter =>
    rw [pairs_ofPairs, pairs_ofPairs, ← filterMap_textFor?_filter, hfilter name, filterMap_textFor?_filter]

/-- Any number of edits of the arguments keep the value that a name is bound to. -/
theorem Edited.find?_bindings_eq {a a' : Arguments} (h : a.Edited a') (name : Bytes) :
    a.bindings.find? name = a'.bindings.find? name := by
  induction h with
  | rel a a' hedit => rw [find?_bindings, find?_bindings, hedit.getLast?_eq]
  | refl => rfl
  | symm _ _ _ ih => exact ih.symm
  | trans _ _ _ _ _ ih ih' => exact ih.trans ih'

/-- What it comes to that arguments are taken by name. Each name is bound to the text beside it where it stands for the last time among the
pairs that count, an empty one if there is no value, and a call comes to what the catalog makes of these values, or of none if names or
values are left out or no pair counts. Changes of the pairs that keep the last text of every name, as those of `Edit` do, change neither
the answer of a call, nor what it writes, nor the last error, on any handle or none. -/
structure TakenByName (a : Arguments) : Prop where
  bound : a.Describes a.bindings
  values : ∀ vs, a.Describes vs → a.ActsAs vs
  empty : a.names = none ∨ a.values = none ∨ a.count ≤ 0 → a.ActsAs []
  arrays : ∀ names values (count : Nat), a = ⟨some names, some values, count⟩ → count ≤ names.length → count ≤ values.length →
    ∃ ps names' values', a = ofPairs ps names' values'
  edited : ∀ a', a.Edited a' → a.SameCalls a'

/-- Arguments are taken by name. -/
theorem takenByName (a : Arguments) : a.TakenByName where
  bound := a.describes_bindings
  values vs hvs := actsAs_of_find? fun name => Option.ext fun v => (a.describes_bindings name v).trans (hvs name v).symm
  empty := by
    intro h
    have hpairs : a.pairs = [] := by
      obtain ⟨names, values, count⟩ := a
      rcases h with rfl | rfl | h
      · rfl
      · cases names <;> rfl
      · cases names <;> cases values <;> simp [pairs, Int.toNat_of_nonpos h]
    refine actsAs_of_find? fun name => ?_
    rw [find?_bindings, hpairs]
    rfl
  arrays := by
    rintro names values count rfl hnames hvalues
    exact exists_eq_ofPairs hnames hvalues
  edited a' h := sameCalls_of_find? h.find?_bindings_eq

end Arguments

end Phrasebook
