import Phrasebook.Proofs.Interface.History

/-!
# The last error of a handle

Nine calls settle the last error of their handle (`Call.settlesError`). One of them that lacks an argument does nothing at all. Otherwise it
resets the last error first, and it ends in one of two ways (`Settled`): with an answer from zero up and no last error, or as a failure with
nothing written and an error that has a number and a text. So the last error tells just what the answer told
(`Session.errorDiscipline`); no other call changes a handle, and no event changes a handle other than its own. Whatever was done before, a
last error without a number or without a text is therefore never found (`Session.sound_run`).
-/

namespace Phrasebook

/-- An error has a number other than zero, and a text to be read. -/
structure LastError.IsError (e : LastError) : Prop where
  number : e.code.number ≠ 0
  text : e.message.untilNul ≠ []

/-- Whether a call settles the last error of its handle: every call but those that look at the last error and those that know no handle. -/
def Call.settlesError : Call → Bool
  | .abiVersion | .lastError | .lastErrorCopy _ | .lastErrorCode | .formCount _ | .formIndex .. => false
  | _ => true

/-- Whether a call, among handles known by their numbers, lacks an argument that it cannot do without: the source to load, the id of a
phrase, the base of a check, what to search for, the text and the locale of forms, or a source to compare. -/
def Call.lacksArgument (handle? : Nat → Option Handle) : Call → Bool
  | .load source _ => source.isNone
  | .phrase id _ _ => id.isNone
  | .phraseForCount id _ _ _ => id.isNone
  | .check base _ => (base.bind handle?).isNone
  | .search query _ => query.isNone
  | .selectForm text _ locale _ _ => text.isNone || locale.isNone
  | .checkStructure base target => base.isNone || target.isNone
  | _ => false

/-- What a call leaves that settles the last error of its handle: an answer from zero up and no last error, or a failure and its error. -/
inductive Settled : Option Handle × Reply → Prop
  | answer {g : Handle} {n : Int} {written : Option Bytes} : g.lastError = {} → 0 ≤ n → Settled (some g, { answer := .number n, written })
  | failure {g : Handle} : g.lastError.IsError → Settled (some g, .failure)

/-- A settled last error is none or an error. -/
theorem Settled.lastError {r : Option Handle × Reply} (h : Settled r) {g : Handle} (hg : r.1 = some g) :
    g.lastError = {} ∨ g.lastError.IsError := by
  cases h with
  | answer herror =>
    cases hg
    exact Or.inl herror
  | failure herror =>
    cases hg
    exact Or.inr herror

/-! ## Every error has a number and a text -/

/-- A text that starts with another byte than NUL is not empty to a reader of NUL-terminated texts. -/
theorem Bytes.untilNul_ne_nil {s : Bytes} {b : UInt8} (hs : s.head? = some b) (hb : b ≠ 0) : untilNul s ≠ [] := by
  cases s with
  | nil => cases hs
  | cons x s =>
    cases hs
    rw [untilNul_eq, List.takeWhile_cons_of_pos (by simpa using hb)]
    exact List.cons_ne_nil _ _

/-- What is remembered of a fault is an error. -/
theorem Fault.isError_lastError (f : Fault) : f.lastError.IsError where
  number := by
    rw [Fault.lastError]
    cases f <;> simp only [Fault.code] <;> decide
  text := by
    cases f <;> exact Bytes.untilNul_ne_nil rfl (by decide)

theorem LoadFault.isError_lastError (f : LoadFault) : f.lastError.IsError where
  number := (by decide : ErrorCode.catalog.number ≠ 0)
  text := by
    cases f <;> exact Bytes.untilNul_ne_nil rfl (by decide)

theorem isError_tooLarge : tooLarge.IsError where
  number := by decide
  text := Bytes.untilNul_ne_nil rfl (by decide)

/-! ## How a call ends -/

variable {g : Handle}

/-- Putting a result into a buffer ends in its answer, or in the error of a result that is too large. -/
theorem settled_deliver (hg : g.lastError = {}) {answer : Int} (hanswer : 0 ≤ answer) (result : Bytes) (buffer : Buffer) :
    Settled (deliver (some g) answer result buffer) := by
  unfold deliver
  split
  · exact .failure isError_tooLarge
  · exact .answer hg hanswer

theorem settled_deliverText (hg : g.lastError = {}) (result : Bytes) (buffer : Buffer) :
    Settled (deliverText (some g) result buffer) :=
  settled_deliver hg (Int.natCast_nonneg _) result buffer

theorem settled_deliverOutcome (r : Except Fault Bytes) (buffer : Buffer) : Settled (deliverOutcome (g.settle r) buffer) := by
  cases r with
  | ok result => exact settled_deliverText rfl result buffer
  | error f => exact .failure f.isError_lastError

/-- Loading a source says whether it left an error. -/
theorem Handle.settled_load (g : Handle) (strict : Bool) (source : Bytes) :
    Settled (some (g.load strict source).1, { answer := .number (if (g.load strict source).2 then 0 else -1) }) := by
  unfold Handle.load
  split
  · exact .answer rfl (Int.le_refl 0)
  · rename_i f _
    exact .failure f.isError_lastError

/-- Comparing two sources gives 1 or 0, where it gives an answer. -/
theorem compareSources_nonneg {base target : Bytes} {answer : Int} (h : compareSources base target = .ok answer) : 0 ≤ answer := by
  unfold compareSources at h
  split at h
  · cases h
  · cases h
  · cases h
    split <;> decide

namespace Call

variable {find : Nat → Option Handle} {c : Call}

/-- A call that lacks an argument fails and does nothing. -/
theorem run_of_lacksArgument (hl : c.lacksArgument find = true) (h : Option Handle) : c.run find h = (h, .failure) := by
  cases c with
  | load | phrase | phraseForCount | check | search =>
    rw [lacksArgument, Option.isNone_iff_eq_none] at hl
    cases h <;> simp [run, hl]
  | selectForm text n locale key buffer =>
    rw [lacksArgument, Bool.or_eq_true, Option.isNone_iff_eq_none, Option.isNone_iff_eq_none] at hl
    rcases hl with hl | hl
    · simp [run, hl]
    · cases text <;> simp [run, hl]
  | checkStructure base target =>
    rw [lacksArgument, Bool.or_eq_true, Option.isNone_iff_eq_none, Option.isNone_iff_eq_none] at hl
    rcases hl with hl | hl
    · simp [run, hl]
    · cases base <;> simp [run, hl]
  | _ => cases hl

/-- A call that does not settle the last error leaves the handle as it is. -/
theorem fst_run_of_settlesError (hc : c.settlesError = false) (h : Option Handle) : (c.run find h).1 = h := by
  cases c with
  | abiVersion => rfl
  | lastError => rfl
  | lastErrorCopy buffer => cases h <;> rfl
  | lastErrorCode => rfl
  | formCount locale => rfl
  | formIndex locale n => rfl
  | _ => cases hc

/-- A call with its arguments settles the last error of its handle. -/
theorem settled_run (hc : c.settlesError = true) (hl : c.lacksArgument find = false) (g : Handle) :
    Settled (c.run find (some g)) := by
  cases c with
  | load source strict =>
    cases source with
    | none => cases hl
    | some s => exact g.settled_load strict _
  | catalogLocale buffer => exact settled_deliverText rfl _ buffer
  | phrase id arguments buffer =>
    cases id with
    | none => cases hl
    | some i => exact settled_deliverOutcome _ buffer
  | phraseForCount id n arguments buffer =>
    cases id with
    | none => cases hl
    | some i => exact settled_deliverOutcome _ buffer
  | check base buffer =>
    rw [lacksArgument, Option.isNone_eq_false_iff, Option.isSome_iff_exists] at hl
    obtain ⟨b, hb⟩ := hl
    simp only [run, hb]
    exact settled_deliver rfl (Int.natCast_nonneg _) _ buffer
  | table buffer => exact settled_deliverText rfl _ buffer
  | search query buffer =>
    cases query with
    | none => cases hl
    | some q => exact settled_deliverText rfl _ buffer
  | selectForm text n locale key buffer =>
    rw [lacksArgument, Bool.or_eq_false_iff, Option.isNone_eq_false_iff, Option.isNone_eq_false_iff, Option.isSome_iff_exists,
      Option.isSome_iff_exists] at hl
    obtain ⟨⟨t, rfl⟩, l, rfl⟩ := hl
    simp only [run]
    split
    · exact settled_deliverText rfl _ buffer
    · rename_i f _
      exact .failure f.isError_lastError
  | checkStructure base target =>
    rw [lacksArgument, Bool.or_eq_false_iff, Option.isNone_eq_false_iff, Option.isNone_eq_false_iff, Option.isSome_iff_exists,
      Option.isSome_iff_exists] at hl
    obtain ⟨⟨b, rfl⟩, t, rfl⟩ := hl
    simp only [run]
    split
    · rename_i answer hanswer
      exact .answer rfl (compareSources_nonneg hanswer)
    · rename_i f _
      exact .failure f.isError_lastError
  | _ => cases hc

/-- A call either leaves its handle as it is or settles its last error. -/
theorem fst_run_eq_or_settled (c : Call) (find : Nat → Option Handle) (g : Handle) :
    (c.run find (some g)).1 = some g ∨ Settled (c.run find (some g)) := by
  cases hc : c.settlesError with
  | false => exact Or.inl (fst_run_of_settlesError hc _)
  | true =>
    cases hl : c.lacksArgument find with
    | true => exact Or.inl (congrArg Prod.fst (run_of_lacksArgument hl _))
    | false => exact Or.inr (settled_run hc hl g)

/-- Without a handle a call leaves none. -/
theorem fst_run_none (find : Nat → Option Handle) (c : Call) : (c.run find none).1 = none := by
  have h := c.map_catalog_run find none
  cases c with
  | load source => cases source <;> exact Option.map_eq_none_iff.mp h
  | _ => exact Option.map_eq_none_iff.mp h

end Call

/-! ## Sessions -/

namespace Session

variable {s : Session} {slot : Option Nat} {k : Nat}

/-- An event changes the handle of its slot alone. -/
theorem handle?_step_of_ne (s : Session) (a : Action) (hk : slot ≠ some k) :
    (s.step slot a).1.handle? (some k) = s.handle? (some k) := by
  have hput : ∀ h, (s.put slot h).handle? (some k) = s.handle? (some k) := by
    intro h
    cases slot with
    | none => rfl
    | some j => rw [handle?_put, if_neg fun e => hk (congrArg some e.symm)]
  cases a with
  | create => exact hput _
  | free => exact hput _
  | call c => exact hput _

theorem handle?_step_call (s : Session) (k : Nat) (c : Call) :
    (s.step (some k) (.call c)).1.handle? (some k) = (c.run (fun j => s.handle? (some j)) (s.handle? (some k))).1 := by
  rw [step, handle?_put, if_pos rfl]

/-- A call that leaves its handle as it is leaves every handle as it is. -/
theorem handle?_step_of_run {c : Call} (hc : (c.run (fun j => s.handle? (some j)) (s.handle? slot)).1 = s.handle? slot) (k : Nat) :
    (s.step slot (.call c)).1.handle? (some k) = s.handle? (some k) := by
  by_cases hk : slot = some k
  · rw [hk] at hc ⊢
    rw [handle?_step_call, hc]
  · exact handle?_step_of_ne s _ hk

/-- How the last errors of the handles of a session are kept. On a slot with a handle, a call that settles the last error but lacks an
argument fails and leaves every handle as it is; with its arguments it leaves no last error just when its answer is from zero up, and
otherwise the answer is -1, the error has a number and a text, and nothing is written; nothing is ever put outside its buffer. The other
calls leave every handle as it is, and no event touches a handle but that of its slot. -/
structure ErrorDiscipline (s : Session) : Prop where
  rejected : ∀ k g c, s.handle? (some k) = some g → c.settlesError = true →
    c.lacksArgument (fun j => s.handle? (some j)) = true →
      (s.step (some k) (.call c)).2 = .failure ∧ ∀ j, (s.step (some k) (.call c)).1.handle? (some j) = s.handle? (some j)
  settled : ∀ k g c, s.handle? (some k) = some g → c.settlesError = true →
    c.lacksArgument (fun j => s.handle? (some j)) = false →
      ∃ g' n, (s.step (some k) (.call c)).1.handle? (some k) = some g' ∧ (s.step (some k) (.call c)).2.answer = .number n ∧
        (lastErrorNumber (some g') = 0 ∧ g'.lastError.message = [] ↔ 0 ≤ n) ∧
        (n < 0 → n = -1 ∧ lastErrorNumber (some g') ≠ 0 ∧ lastErrorText (some g') ≠ [] ∧
          (s.step (some k) (.call c)).2.written = none) ∧
        (s.step (some k) (.call c)).2.outside = none
  looking : ∀ slot c, c.settlesError = false → ∀ k, (s.step slot (.call c)).1.handle? (some k) = s.handle? (some k)
  others : ∀ slot a k, slot ≠ some k → (s.step slot a).1.handle? (some k) = s.handle? (some k)

/-- Every session keeps the last errors of its handles: a call settles none but that of its own handle, and that only if it lacks no
argument. -/
theorem errorDiscipline (s : Session) : s.ErrorDiscipline where
  rejected := by
    intro k g c _ _ hl
    have hrun := Call.run_of_lacksArgument hl (s.handle? (some k))
    exact ⟨congrArg Prod.snd hrun, handle?_step_of_run (congrArg Prod.fst hrun)⟩
  settled := by
    intro k g c hg hc hl
    have hsettled := Call.settled_run hc hl g
    have hreply : (s.step (some k) (.call c)).2 = (c.run (fun j => s.handle? (some j)) (some g)).2 := by
      rw [step, hg]
    rw [handle?_step_call, hreply, hg]
    generalize c.run (fun j => s.handle? (some j)) (some g) = r at hsettled ⊢
    cases hsettled with
    | @answer g' n written herror hn =>
      refine ⟨g', n, rfl, rfl, ?_, fun hneg => absurd hn (Int.not_le.mpr hneg), rfl⟩
      simp [lastErrorNumber, herror, hn, ErrorCode.number]
    | @failure g' herror =>
      have hnumber : lastErrorNumber (some g') ≠ 0 := by
        intro h
        exact herror.number (UInt8.toNat_inj.mp (Int.ofNat_inj.mp h))
      refine ⟨g', -1, rfl, rfl, ?_, fun _ => ⟨rfl, hnumber, herror.text, rfl⟩, rfl⟩
      simp [hnumber]
  looking := by
    intro slot c hc k
    exact handle?_step_of_run (Call.fst_run_of_settlesError hc _) k
  others := by
    intro slot a k hk
    exact handle?_step_of_ne s a hk

/-- A handle whose last source could not be loaded to its end: a call without an id leaves the error of that, a phrase resets it, and a
selection in an unknown locale leaves its own. -/
theorem errorDiscipline_sample :
    ∃ (s : Session) (g : Handle) (rejected : Call), s.ErrorDiscipline ∧ s.handle? (some 0) = some g ∧
      lastErrorNumber (some g) = 5 ∧ (s.step (some 0) (.call rejected)).2 = .failure ∧
      (s.step (some 0) (.call rejected)).1.handle? (some 0) = some g ∧
      lastErrorNumber ((s.step (some 0) (.call (.phrase (some (utf8 "a")) ⟨none, none, 0⟩ ⟨true, 8⟩))).1.handle? (some 0)) = 0 ∧
      lastErrorNumber ((s.step (some 0) (.call (.selectForm (some []) 1 (some []) none ⟨true, 8⟩))).1.handle? (some 0)) = 4 := by
  refine ⟨run [(some 0, .create), (some 0, .call (.load (some (utf8 "a: x\na: y")) false))], _, .phrase none ⟨none, none, 0⟩ ⟨true, 8⟩,
    errorDiscipline _, rfl, by decide, ?_, ?_, by decide, by decide⟩
  · exact ((errorDiscipline _).rejected 0 _ _ rfl rfl rfl).1
  · exact (((errorDiscipline _).rejected 0 _ _ rfl rfl rfl).2 0).trans rfl

/-! ## After any events -/

/-- The last error of every handle is no error or has a number and a text. -/
def Sound (s : Session) : Prop := ∀ k g, s.handle? (some k) = some g → g.lastError = {} ∨ g.lastError.IsError

/-- An event leaves only last errors of this kind, if there were no others. -/
theorem Sound.step (hs : s.Sound) (slot : Option Nat) (a : Action) : (s.step slot a).1.Sound := by
  intro k g hg
  by_cases hk : slot = some k
  · subst hk
    cases a with
    | create =>
      rw [Session.step, handle?_put, if_pos rfl] at hg
      cases hg
      exact Or.inl rfl
    | free =>
      rw [Session.step, handle?_put, if_pos rfl] at hg
      cases hg
    | call c =>
      rw [handle?_step_call] at hg
      cases hsome : s.handle? (some k) with
      | none =>
        rw [hsome, Call.fst_run_none] at hg
        cases hg
      | some g₀ =>
        rw [hsome] at hg
        rcases c.fst_run_eq_or_settled (fun j => s.handle? (some j)) g₀ with hsame | hsettled
        · rw [hsame] at hg
          cases hg
          exact hs k g hsome
        · exact hsettled.lastError hg
  · rw [handle?_step_of_ne s a hk] at hg
    exact hs k g hg

/-- After any events the last errors are of this kind. -/
theorem sound_run (es : List Event) : (run es).Sound := by
  induction es using List.reverseRecOn with
  | nil =>
    intro k g hg
    cases hg
  | append_singleton es e ih =>
    rw [run_append_singleton]
    exact ih.step e.1 e.2

end Session

end Phrasebook
