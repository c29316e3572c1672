import Phrasebook.Message.Node
import Phrasebook.Number.Numeral

/-!
# Comparing the structure of messages

The structure of a message is what is left of it when the runs of text are left out and the order of the nodes on each level does
not count. A target has the structure of a base when on every level it has as many nodes, and every node of the base has a match
on that level of the target: a node of the same kind and name and, for a tag, with children of the same structure. Two nodes of
the base may have the same match.

`Message.sameStructure` decides it. `Message.mismatch?` says what is wrong: the first mismatch that a reader of the base comes
upon, and nothing exactly when the structure is the same. Both look for a match among the different nodes of a level only
(`Message.candidates`), which finds what a search of the whole level finds and is quick where a level repeats itself.
-/

namespace Phrasebook

/-- How many nodes of a level count: all but the runs of text. -/
def Message.nodeCount (m : Message) : Nat := m.countP (fun n => !n.isText)

/-- The nodes of a level of a target that can be a match: all but the runs of text, and of equal nodes the first. -/
def Message.candidates (m : Message) : List Node := (m.filter (fun n => !n.isText)).eraseDups

mutual

/-- Whether a node of a target is a match for a node of a base. -/
def Node.fits : Node → Node → Bool
  | .tag name children, .tag name' children' =>
    name == name' && Message.nodeCount children == Message.nodeCount children' &&
      Message.allMatched children (Message.candidates children')
  | .voidTag name, .voidTag name' => name == name'
  | .placeholder name, .placeholder name' => name == name'
  | _, _ => false

/-- Whether every node of a base that counts has a match in the target. -/
def Message.allMatched : List Node → List Node → Bool
  | [], _ => true
  | n :: ns, target => (n.isText || target.any (fun t => n.fits t)) && Message.allMatched ns target

end

/-- Whether a target has the structure of a base. -/
def Message.sameStructure (base target : Message) : Bool :=
  base.nodeCount == target.nodeCount && Message.allMatched base target.candidates

/-! ## What is wrong -/

/-- Why a target does not have the structure of a base: the numbers of nodes differ, a node has nothing of its kind and name in the
target, or a tag has, but the children differ. -/
inductive Mismatch where
  | count (base target : Nat)
  | missing (node : Node)
  | inside (tag : Node) (reason : Mismatch)
  deriving Repr

/-- The wording of a mismatch. -/
def Mismatch.message : Mismatch → Bytes
  | .count i j => utf8 "node count differs (" ++ numeral i ++ utf8 " vs " ++ numeral j ++ utf8 ")"
  | .missing n => utf8 "missing " ++ utf8 n.kind.name ++ utf8 " " ++ n.label
  | .inside n reason => utf8 "inside " ++ n.label ++ utf8 ": " ++ reason.message

/-- Whether a node of the target has the kind and the name of a node of the base. -/
def Node.sameName (n t : Node) : Bool := n.kind == t.kind && n.name == t.name

/-- What is wrong with a node of the base on a level of the target, given what keeps a node of its kind and name from being its
match and the first obstacle met with so far. The search ends at the first match. Without any match the first obstacle is
reported, and the lack of a candidate as such. -/
def Node.seek (n : Node) (obstacle? : Node → Option Mismatch) (first : Option Mismatch) : List Node → Option Mismatch
  | [] => some (match first with
    | some reason => .inside n reason
    | none => .missing n)
  | t :: ts =>
    if n.sameName t then
      match obstacle? t with
      | none => none
      | some reason => n.seek obstacle? (first.or (some reason)) ts
    else n.seek obstacle? first ts

mutual

/-- What keeps a node of the target, of the same kind and name as a node of the base, from being its match: only the children of
tags can. -/
def Node.obstacle? : Node → Node → Option Mismatch
  | .tag _ children, .tag _ children' =>
    if Message.nodeCount children = Message.nodeCount children' then
      Message.unmatched? children (Message.candidates children')
    else some (.count (Message.nodeCount children) (Message.nodeCount children'))
  | _, _ => none

/-- What is wrong with the first node of the base that counts and has no match in the target. -/
def Message.unmatched? : List Node → List Node → Option Mismatch
  | [], _ => none
  | n :: ns, target =>
    if n.isText then Message.unmatched? ns target
    else
      match n.seek (fun t => n.obstacle? t) none target with
      | some m => some m
      | none => Message.unmatched? ns target

end

/-- What is wrong with the structure of a target: the numbers of nodes first, then the first node without a match. -/
def Message.mismatch? (base target : Message) : Option Mismatch :=
  if base.nodeCount = target.nodeCount then Message.unmatched? base target.candidates
  else some (.count base.nodeCount target.nodeCount)

/-- The wording of what is wrong, and no text when nothing is. -/
def Message.mismatchMessage (base target : Message) : Bytes :=
  match base.mismatch? target with
  | some m => m.message
  | none => []

/-- The wording of a mismatch is not empty. -/
theorem Mismatch.message_ne_nil (m : Mismatch) : m.message ≠ [] := by
  have h : utf8 "node count differs (" ≠ [] ∧ utf8 "missing " ≠ [] ∧ utf8 "inside " ≠ [] := by decide
  cases m with
  | count => simp [Mismatch.message, h.1]
  | missing => simp [Mismatch.message, h.2.1]
  | inside => simp [Mismatch.message, h.2.2]

/-- There is no wording just when nothing is wrong. -/
theorem Message.mismatchMessage_eq_nil_iff {base target : Message} :
    base.mismatchMessage target = [] ↔ base.mismatch? target = none := by
  unfold Message.mismatchMessage
  cases base.mismatch? target with
  | none => simp
  | some m => simp [m.message_ne_nil]

/-! ## The candidates stand for the level -/

theorem Message.mem_candidates {m : Message} {t : Node} : t ∈ m.candidates ↔ t ∈ m ∧ t.isText = false := by
  simp [Message.candidates, List.mem_eraseDups]

theorem Node.isText_of_fits {n t : Node} (h : n.fits t = true) : t.isText = false := by
  cases t with
  | text => cases n <;> simp [Node.fits] at h
  | _ => rfl

/-- A match is found among the candidates when it is found on the level. -/
theorem Message.allMatched_candidates (base : List Node) (target : Message) :
    Message.allMatched base target.candidates = Message.allMatched base target := by
  induction base with
  | nil => simp only [Message.allMatched]
  | cons n ns ih =>
    have h : target.candidates.any (fun t => n.fits t) = target.any (fun t => n.fits t) := by
      rw [Bool.eq_iff_iff, List.any_eq_true, List.any_eq_true]
      constructor
      · rintro ⟨t, ht, hf⟩
        exact ⟨t, (Message.mem_candidates.mp ht).1, hf⟩
      · rintro ⟨t, ht, hf⟩
        exact ⟨t, Message.mem_candidates.mpr ⟨ht, Node.isText_of_fits hf⟩, hf⟩
    simp only [Message.allMatched, h, ih]

/-- A node may be left out of a search when it is no candidate, or when it is not the first to meet with an obstacle. -/
theorem Node.seek_filter {n : Node} {obstacle? : Node → Option Mismatch} {p : Node → Bool} {first : Option Mismatch}
    {target : List Node}
    (h : ∀ t ∈ target, p t = false → n.sameName t = false ∨ first.isSome ∧ (obstacle? t).isSome) :
    n.seek obstacle? first (target.filter p) = n.seek obstacle? first target := by
  induction target generalizing first with
  | nil => rfl
  | cons t ts ih =>
    have hs := List.forall_mem_cons.mp h
    cases hp : p t with
    | true =>
      rw [List.filter_cons_of_pos hp, Node.seek, Node.seek, ih hs.2]
      cases ho : obstacle? t with
      | none => rfl
      | some reason =>
        simp only
        rw [ih fun u hu hq => (hs.2 u hu hq).imp_right fun hf => ⟨by simp, hf.2⟩]
    | false =>
      rw [List.filter_cons_of_neg (by simp [hp]), Node.seek, ih hs.2]
      rcases hs.1 hp with hn | ⟨hf, ho⟩
      · simp [hn]
      · obtain ⟨reason, hr⟩ := Option.isSome_iff_exists.mp ho
        obtain ⟨earlier, he⟩ := Option.isSome_iff_exists.mp hf
        simp [hr, he]

/-- Of equal nodes only the first counts in a search. -/
theorem Node.seek_eraseDups (n : Node) (obstacle? : Node → Option Mismatch) (first : Option Mismatch) (target : List Node) :
    n.seek obstacle? first target.eraseDups = n.seek obstacle? first target := by
  match target with
  | [] => rfl
  | t :: ts =>
    have hp : ∀ u : Node, (!u == t) = false → u = t := fun u hu => by simpa using hu
    have ih := fun f => Node.seek_eraseDups n obstacle? f (ts.filter (fun u => !u == t))
    rw [List.eraseDups_cons, Node.seek, Node.seek]
    simp only [ih]
    cases hn : n.sameName t with
    | false => simp [Node.seek_filter fun u _ hu => Or.inl (hp u hu ▸ hn)]
    | true =>
      cases ho : obstacle? t with
      | none => rfl
      | some reason =>
        simp only [if_true]
        exact Node.seek_filter fun u _ hu => Or.inr ⟨by simp, by simp [hp u hu, ho]⟩
termination_by target.length
decreasing_by exact Nat.lt_succ_of_le (List.length_filter_le _ _)

/-- A search of the candidates finds what a search of the level finds. -/
theorem Message.unmatched?_candidates (base : List Node) (target : Message) :
    Message.unmatched? base target.candidates = Message.unmatched? base target := by
  induction base with
  | nil => simp only [Message.unmatched?]
  | cons n ns ih =>
    rw [Message.unmatched?, Message.unmatched?, ih]
    cases hn : n.isText with
    | true => rfl
    | false =>
      have h : n.seek (fun t => n.obstacle? t) none target.candidates = n.seek (fun t => n.obstacle? t) none target := by
        rw [Message.candidates, Node.seek_eraseDups]
        refine Node.seek_filter fun t _ ht => Or.inl ?_
        cases t with
        | text => cases n <;> simp_all [Node.sameName, Node.kind, Node.isText]
        | _ => simp [Node.isText] at ht
      rw [h]

/-! ## The two agree -/

/-- Nothing is wrong with a node of the base just when a node of its kind and name on the level meets with no obstacle. -/
theorem Node.seek_eq_none_iff {n : Node} {obstacle? : Node → Option Mismatch} {first : Option Mismatch} {target : List Node} :
    n.seek obstacle? first target = none ↔ ∃ t ∈ target, n.sameName t = true ∧ obstacle? t = none := by
  induction target generalizing first with
  | nil => simp [Node.seek]
  | cons t ts ih =>
    simp only [Node.seek]
    split
    · split <;> simp_all
    · simp_all

mutual

/-- A match for a node that counts is a node of its kind and name that meets with no obstacle. -/
theorem Node.fits_iff (n t : Node) (hn : n.isText = false) :
    n.fits t = true ↔ n.sameName t = true ∧ n.obstacle? t = none := by
  cases n with
  | text => simp [Node.isText] at hn
  | tag name children =>
    cases t with
    | tag name' children' =>
      rw [Node.fits, Node.obstacle?]
      simp only [Bool.and_eq_true, beq_iff_eq, Node.sameName, Node.kind, Node.name,
        Message.allMatched_iff children (Message.candidates children')]
      split <;> simp_all
    | _ => simp [Node.fits, Node.sameName, Node.kind]
  | voidTag => cases t <;> simp [Node.fits, Node.sameName, Node.kind, Node.name, Node.obstacle?]
  | placeholder => cases t <;> simp [Node.fits, Node.sameName, Node.kind, Node.name, Node.obstacle?]

/-- Every node of a base has a match just when none is reported to lack one. -/
theorem Message.allMatched_iff (base target : List Node) :
    Message.allMatched base target = true ↔ Message.unmatched? base target = none := by
  cases base with
  | nil => simp [Message.allMatched, Message.unmatched?]
  | cons n ns =>
    rw [Message.allMatched, Message.unmatched?]
    have ih := Message.allMatched_iff ns target
    cases h : n.isText with
    | true => simpa using ih
    | false =>
      have hm : target.any (fun t => n.fits t) = true ↔ n.seek (fun t => n.obstacle? t) none target = none := by
        rw [Node.seek_eq_none_iff, List.any_eq_true]
        simp only [Node.fits_iff n _ h]
      rw [Bool.false_or, Bool.and_eq_true, hm, ih]
      simp only [Bool.false_eq_true, if_false]
      split <;> simp_all

end

/-- A target has the structure of a base just when nothing is reported to be wrong. -/
theorem Message.sameStructure_iff {base target : Message} :
    base.sameStructure target = true ↔ base.mismatch? target = none := by
  unfold Message.sameStructure Message.mismatch?
  rw [Bool.and_eq_true, beq_iff_eq, Message.allMatched_iff]
  split <;> simp_all

end Phrasebook
