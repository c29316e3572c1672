import Phrasebook.Catalog.Check
import Phrasebook.Catalog.Listing
import Phrasebook.Catalog.Loading
import Phrasebook.Catalog.Phrase

/-!
# Handles

A handle is a catalog that remembers its last error. Loading a source and asking for a phrase replace the last error, by the fault
that was met or by no error. Loading is the only operation that changes the catalog.
-/

namespace Phrasebook

/-- What a handle remembers of an error: its code and its wording. It starts out as no error. -/
structure LastError where
  code : ErrorCode := .none
  message : Bytes := []
  deriving DecidableEq, Repr

/-- What is remembered of a fault. -/
def Fault.lastError (f : Fault) : LastError := ⟨f.code, f.message⟩

/-- What is remembered of a fault of loading. -/
def LoadFault.lastError (f : LoadFault) : LastError := ⟨.catalog, f.message⟩

/-- A catalog and its last error. -/
@[ext] structure Handle where
  catalog : Catalog := {}
  lastError : LastError := {}

namespace Handle

/-- Another last error. -/
def withError (h : Handle) (e : LastError) : Handle := { h with lastError := e }

/-- No last error. -/
def cleared (h : Handle) : Handle := h.withError {}

/-- Loads a source, and says whether it could be loaded. -/
def load (h : Handle) (strict : Bool) (source : Bytes) : Handle × Bool :=
  match h.catalog.load strict source with
  | (c, none) => (⟨c, {}⟩, true)
  | (c, some f) => (⟨c, f.lastError⟩, false)

/-- Keeps the fault of an outcome as the last error, and passes on what came out. -/
def settle {α : Type} (h : Handle) : Except Fault α → Handle × Option α
  | .ok a => (h.cleared, some a)
  | .error f => (h.withError f.lastError, none)

/-- The phrase of an id, if there is no fault. -/
def phrase (h : Handle) (id : Bytes) (vs : Values Bytes) : Handle × Option Bytes := h.settle (h.catalog.phrase id vs)

/-- The phrase of an id for a count, if there is no fault. -/
def phraseForCount (h : Handle) (id : Bytes) (n : Int) (vs : Values Bytes) : Handle × Option Bytes :=
  h.settle (h.catalog.phraseForCount id n vs)

@[simp] theorem catalog_withError (h : Handle) (e : LastError) : (h.withError e).catalog = h.catalog := rfl

@[simp] theorem catalog_cleared (h : Handle) : h.cleared.catalog = h.catalog := rfl

/-- A source is loaded into the catalog. -/
@[simp] theorem catalog_load (h : Handle) (strict : Bool) (source : Bytes) :
    (h.load strict source).1.catalog = (h.catalog.load strict source).1 := by
  rw [load]
  split <;> simp_all

@[simp] theorem catalog_settle {α : Type} (h : Handle) (r : Except Fault α) : (h.settle r).1.catalog = h.catalog := by
  cases r <;> rfl

/-- What comes out is what came without a fault. -/
theorem settle_snd_eq_some_iff {α : Type} {h : Handle} {r : Except Fault α} {a : α} : (h.settle r).2 = some a ↔ r = .ok a := by
  cases r <;> simp [settle]

/-- Where nothing comes out there is a fault, and it is kept. -/
theorem lastError_of_settle_snd {α : Type} {h : Handle} {r : Except Fault α} (hr : (h.settle r).2 = none) :
    ∃ f, r = .error f ∧ (h.settle r).1.lastError = f.lastError := by
  cases r with
  | ok a => cases hr
  | error f => exact ⟨f, rfl, rfl⟩

end Handle

end Phrasebook
