import Phrasebook.Interface.Call

/-!
# Sessions

A session is a sequence of calls on handles that are kept in numbered slots. A slot without a handle stands for no handle. A call
is made on one slot, or on none, and changes the handle of that slot alone; a check names the slot of its base.
-/

namespace Phrasebook

/-- The handles of a session, by their slots. -/
structure Session where
  handles : List (Nat × Handle) := []

namespace Session

/-- The handle of a slot. -/
def handle? (s : Session) (slot : Option Nat) : Option Handle := slot.bind (fun k => s.handles.lookup k)

/-- The session with another handle, or none, in a slot; no slot keeps no handle. -/
def put (s : Session) (slot : Option Nat) (h : Option Handle) : Session :=
  match slot, h with
  | none, _ => s
  | some k, none => ⟨s.handles.filter (fun p => p.1 != k)⟩
  | some k, some g => ⟨(k, g) :: s.handles.filter (fun p => p.1 != k)⟩

end Session

/-- What is done on a slot: a new handle is put into it, its handle is freed, or a call is made. -/
inductive Action where
  | create
  | free
  | call (c : Call)
  deriving Repr

namespace Session

/-- One step of a session. -/
def step (s : Session) (slot : Option Nat) : Action → Session × Reply
  | .create => (s.put slot (some {}), { answer := .nothing })
  | .free => (s.put slot none, { answer := .nothing })
  | .call c =>
    let r := c.run (fun k => s.handle? (some k)) (s.handle? slot)
    (s.put slot r.1, r.2)

/-- The handle put into a slot is the one found there, and no other slot is affected. -/
theorem handle?_put (s : Session) (k : Nat) (h : Option Handle) (j : Nat) :
    (s.put (some k) h).handle? (some j) = if j = k then h else s.handle? (some j) := by
  have hf : ∀ l : List (Nat × Handle), (l.filter (fun p => p.1 != k)).lookup j = if j = k then none else l.lookup j := by
    intro l
    induction l with
    | nil => simp
    | cons p l ih =>
      obtain ⟨i, g⟩ := p
      by_cases hik : i = k
      · subst hik
        simp only [List.filter_cons, bne_self_eq_false, Bool.false_eq_true, if_false, ih]
        by_cases hj : j = i
        · simp [hj]
        · simp [hj, List.lookup_cons, beq_eq_false_iff_ne.mpr hj]
      · have hb : (i != k) = true := by simpa using hik
        simp only [List.filter_cons, hb, if_true, List.lookup_cons]
        by_cases hj : j = i
        · subst hj
          simp [hik]
        · simp [beq_eq_false_iff_ne.mpr hj, ih]
  cases h with
  | none => simpa [put, handle?] using hf s.handles
  | some g =>
    by_cases hj : j = k
    · simp [put, handle?, hj]
    · simpa [put, handle?, List.lookup_cons, beq_eq_false_iff_ne.mpr hj, hj] using hf s.handles

end Session

end Phrasebook
