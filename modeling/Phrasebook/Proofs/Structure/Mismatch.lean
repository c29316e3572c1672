import Phrasebook.Proofs.Structure.Matching

/-!
# The first mismatch

What is wrong with a target is reported as one mismatch, the first that a reader of the base comes upon. `Message.FirstMismatch` says
which one this is and how it is worded, level by level: the numbers of nodes if they differ; else the first node of the base without a
match, as missing if nothing on the level of the target has its kind and name, and otherwise by the first mismatch of its children with
those of the first node that has. `Message.firstMismatch_iff` says that this is the report, and that there is a report just where the
structure is not the same.

The search behind the report (`Node.seek`) goes on past the first node of the kind and name, for a later one may be the match. Where there
is no match at all, it has met with an obstacle at every one of them and reports the first (`Node.seek_of_forall`).
-/

namespace Phrasebook

/-- Whether a node has a match on the level of a target: a node of its kind and name, with children of the structure of its children. -/
def Node.hasMatch (n : Node) (target : Message) : Bool :=
  target.any fun t => n.sameName t && Message.sameStructure n.children t.children

/-- The first node of a base that counts and has no match on the level of a target. -/
def Message.firstUnmatched? (base target : Message) : Option Node := base.find? fun n => !n.isText && !n.hasMatch target

/-- How the first mismatch of a target with a base is worded. -/
inductive Message.FirstMismatch : Message → Message → Bytes → Prop
  | count {base target : Message} :
      base.nodeCount ≠ target.nodeCount →
      FirstMismatch base target
        (utf8 "node count differs (" ++ numeral base.nodeCount ++ utf8 " vs " ++ numeral target.nodeCount ++ utf8 ")")
  | missing {base target : Message} {n : Node} :
      base.nodeCount = target.nodeCount → base.firstUnmatched? target = some n → target.find? n.sameName = none →
      FirstMismatch base target (utf8 "missing " ++ utf8 n.kind.name ++ utf8 " " ++ n.label)
  | inside {base target : Message} {n t : Node} {reason : Bytes} :
      base.nodeCount = target.nodeCount → base.firstUnmatched? target = some n → target.find? n.sameName = some t →
      n.kind = .tag → FirstMismatch n.children t.children reason →
      FirstMismatch base target (utf8 "inside " ++ n.label ++ utf8 ": " ++ reason)

/-! ## What a search comes to -/

/-- A search without a match reports the first obstacle, of those met with before and those on the level, if there is one. -/
theorem Node.seek_of_forall {n : Node} {obstacle? : Node → Option Mismatch} {first : Option Mismatch} {target : List Node}
    (h : ∀ t ∈ target, n.sameName t = true → obstacle? t ≠ none) :
    n.seek obstacle? first target = some (match first.or ((target.find? n.sameName).bind obstacle?) with
      | some reason => .inside n reason
      | none => .missing n) := by
  induction target generalizing first with
  | nil => cases first <;> rfl
  | cons t ts ih =>
    obtain ⟨ht, hts⟩ := List.forall_mem_cons.mp h
    cases hname : n.sameName t with
    | false =>
      rw [Node.seek, List.find?_cons, hname]
      exact ih hts
    | true =>
      obtain ⟨reason, hreason⟩ := Option.ne_none_iff_exists'.mp (ht hname)
      simp only [Node.seek, List.find?_cons, hname, if_true, hreason, Option.bind_some]
      rw [ih hts]
      cases first <;> rfl

/-- What keeps a node of the same kind and name from being a match is what is wrong with its children. -/
theorem Node.obstacle?_eq {n t : Node} (h : n.sameName t = true) : n.obstacle? t = Message.mismatch? n.children t.children := by
  cases n with
  | tag =>
    cases t with
    | tag => rw [Node.obstacle?, Message.mismatch?, Node.children, Node.children]
    | _ => simp [Node.sameName, Node.kind] at h
  | _ =>
    cases t with
    | tag => simp [Node.sameName, Node.kind] at h
    | _ => simp [Node.obstacle?, Node.children, Message.mismatch?, Message.nodeCount, Message.unmatched?]

/-- A search finds nothing wrong with a node just when it has a match on the level. -/
theorem Node.seek_eq_none_iff_hasMatch {n : Node} {target : Message} :
    n.seek (fun t => n.obstacle? t) none target = none ↔ n.hasMatch target = true := by
  rw [Node.seek_eq_none_iff, Node.hasMatch, List.any_eq_true]
  refine exists_congr fun t => and_congr_right fun _ => ?_
  rw [Bool.and_eq_true]
  refine and_congr_right fun hname => ?_
  rw [Node.obstacle?_eq hname, Message.sameStructure_iff]

/-- What is wrong with the nodes of a base is what the search for a match of the first one without a match comes to. -/
theorem Message.unmatched?_eq (base target : Message) :
    Message.unmatched? base target =
      (base.firstUnmatched? target).bind fun n => n.seek (fun t => n.obstacle? t) none target := by
  unfold Message.firstUnmatched?
  induction base with
  | nil => rw [Message.unmatched?]; rfl
  | cons n ns ih =>
    rw [Message.unmatched?, List.find?_cons, ih]
    cases hn : n.isText with
    | true => rfl
    | false =>
      cases hmatch : n.hasMatch target with
      | true =>
        rw [Node.seek_eq_none_iff_hasMatch.mpr hmatch]
        rfl
      | false =>
        have hseek : n.seek (fun t => n.obstacle? t) none target ≠ none := by simp [Node.seek_eq_none_iff_hasMatch, hmatch]
        obtain ⟨m, hm⟩ := Option.ne_none_iff_exists'.mp hseek
        simp [hm]

/-! ## The report of a level -/

/-- A match on the level of a target is a node of the target that the node fits. -/
theorem Node.hasMatch_iff {n : Node} (hn : n.isText = false) {target : Message} :
    n.hasMatch target = true ↔ ∃ t ∈ target, n.fits t = true := by
  rw [Node.hasMatch, List.any_eq_true]
  refine exists_congr fun t => and_congr_right fun _ => ?_
  rw [Node.fits_iff_sameStructure hn, Bool.and_eq_true]
  simp [Node.sameName, Node.signature]

/-- A target has the structure of a base when as many nodes of it count and no node of the base is without a match. -/
theorem Message.sameStructure_iff_firstUnmatched? {base target : Message} :
    base.sameStructure target = true ↔ base.nodeCount = target.nodeCount ∧ base.firstUnmatched? target = none := by
  rw [Message.sameStructure, Bool.and_eq_true, beq_iff_eq, Message.allMatched_candidates, Message.allMatched_iff_exists,
    Message.firstUnmatched?, List.find?_eq_none]
  refine and_congr_right fun _ => forall₂_congr fun n _ => ?_
  cases hn : n.isText with
  | true => simp
  | false => simp [← Node.hasMatch_iff hn]

section

variable {base target : Message} {n t : Node}

/-- A node without a match counts, and no node of its kind and name has children of the structure of its children. -/
theorem Message.of_firstUnmatched? (h : base.firstUnmatched? target = some n) :
    n.isText = false ∧ ∀ t ∈ target, n.sameName t = true → Message.sameStructure n.children t.children = false := by
  have hn := List.find?_some h
  simpa [Node.hasMatch] using hn

/-- Different numbers of nodes are reported before anything else. -/
theorem Message.mismatchMessage_of_nodeCount_ne (h : base.nodeCount ≠ target.nodeCount) :
    base.mismatchMessage target =
      utf8 "node count differs (" ++ numeral base.nodeCount ++ utf8 " vs " ++ numeral target.nodeCount ++ utf8 ")" := by
  rw [Message.mismatchMessage, Message.mismatch?, if_neg h]
  rfl

/-- Where the numbers of nodes are the same, the first node without a match is reported, with what is wrong inside the first node of its
kind and name, if there is one. -/
theorem Message.mismatch?_of_firstUnmatched? (hcount : base.nodeCount = target.nodeCount)
    (h : base.firstUnmatched? target = some n) :
    base.mismatch? target = some (match (target.find? n.sameName).bind fun t => Message.mismatch? n.children t.children with
      | some reason => .inside n reason
      | none => .missing n) := by
  obtain ⟨-, hn⟩ := Message.of_firstUnmatched? h
  have hobstacle : ∀ t ∈ target, n.sameName t = true → n.obstacle? t ≠ none := by
    intro t ht hname
    rw [Node.obstacle?_eq hname, ne_eq, ← Message.sameStructure_iff, hn t ht hname]
    exact Bool.false_ne_true
  have hfind : (target.find? n.sameName).bind (fun t => n.obstacle? t) =
      (target.find? n.sameName).bind fun t => Message.mismatch? n.children t.children := by
    refine Option.bind_congr fun t ht => ?_
    exact Node.obstacle?_eq (List.find?_some (p := n.sameName) ht)
  rw [Message.mismatch?, if_pos hcount, Message.unmatched?_candidates, Message.unmatched?_eq, h, Option.bind_some,
    Node.seek_of_forall hobstacle, hfind, Option.none_or]

/-- A first node without a match is reported as missing when there is nothing of its kind and name. -/
theorem Message.mismatchMessage_of_missing (hcount : base.nodeCount = target.nodeCount) (h : base.firstUnmatched? target = some n)
    (hfind : target.find? n.sameName = none) :
    base.mismatchMessage target = utf8 "missing " ++ utf8 n.kind.name ++ utf8 " " ++ n.label := by
  rw [Message.mismatchMessage, Message.mismatch?_of_firstUnmatched? hcount h, hfind]
  rfl

/-- A first node without a match is reported by the mismatch inside the first node of its kind and name, if there is one. -/
theorem Message.mismatchMessage_of_inside (hcount : base.nodeCount = target.nodeCount) (h : base.firstUnmatched? target = some n)
    (hfind : target.find? n.sameName = some t) :
    base.mismatchMessage target =
      utf8 "inside " ++ n.label ++ utf8 ": " ++ Message.mismatchMessage n.children t.children := by
  -- The node has no match, so what keeps this one from being it is a mismatch, and is reported as one.
  have hne : Message.mismatch? n.children t.children ≠ none := by
    rw [ne_eq, ← Message.sameStructure_iff, (Message.of_firstUnmatched? h).2 t (List.mem_of_find?_eq_some hfind) (List.find?_some hfind)]
    exact Bool.false_ne_true
  obtain ⟨reason, hreason⟩ := Option.ne_none_iff_exists'.mp hne
  rw [Message.mismatchMessage, Message.mismatch?_of_firstUnmatched? hcount h, hfind, Option.bind_some, hreason,
    Message.mismatchMessage, hreason]
  rfl

/-- A node without a match is a tag when there is a node of its kind and name: only the children of tags can keep it from being one. -/
theorem Message.kind_of_firstUnmatched? (h : base.firstUnmatched? target = some n) (hfind : target.find? n.sameName = some t) :
    n.kind = .tag := by
  obtain ⟨htext, hn⟩ := Message.of_firstUnmatched? h
  have hname : n.sameName t = true := List.find?_some hfind
  have hchildren := hn t (List.mem_of_find?_eq_some hfind) hname
  cases n with
  | text => cases htext
  | tag => rfl
  | _ =>
    cases t with
    | tag => simp [Node.sameName, Node.kind] at hname
    | _ => cases hchildren.symm.trans (Message.sameStructure_refl [])

end

/-! ## The report is the first mismatch -/

/-- A target with a first mismatch does not have the structure of the base. -/
theorem Message.FirstMismatch.sameStructure_eq_false {base target : Message} {w : Bytes} (h : base.FirstMismatch target w) :
    base.sameStructure target = false := by
  rw [Bool.eq_false_iff, ne_eq, Message.sameStructure_iff_firstUnmatched?]
  rintro ⟨hcount, hnone⟩
  cases h with
  | count hne => exact hne hcount
  | missing _ hn _ => cases hn.symm.trans hnone
  | inside _ hn _ _ _ => cases hn.symm.trans hnone

/-- A first mismatch is reported as it is worded. -/
theorem Message.FirstMismatch.mismatchMessage_eq {base target : Message} {w : Bytes} (h : base.FirstMismatch target w) :
    base.mismatchMessage target = w := by
  induction h with
  | count hne => exact Message.mismatchMessage_of_nodeCount_ne hne
  | missing hcount hn hfind => exact Message.mismatchMessage_of_missing hcount hn hfind
  | inside hcount hn hfind _ _ ih => rw [Message.mismatchMessage_of_inside hcount hn hfind, ih]

/-- A target without the structure of a base has a first mismatch, if the children of the nodes of the base have theirs. -/
theorem Message.firstMismatch_of_forall {base target : Message} (h : base.sameStructure target = false)
    (hchildren : ∀ n ∈ base, ∀ t : Node, Message.sameStructure n.children t.children = false →
      Message.FirstMismatch n.children t.children (Message.mismatchMessage n.children t.children)) :
    base.FirstMismatch target (base.mismatchMessage target) := by
  by_cases hcount : base.nodeCount = target.nodeCount
  · have hne : base.firstUnmatched? target ≠ none := by
      intro hnone
      rw [Message.sameStructure_iff_firstUnmatched?.mpr ⟨hcount, hnone⟩] at h
      cases h
    obtain ⟨n, hn⟩ := Option.ne_none_iff_exists'.mp hne
    cases hfind : target.find? n.sameName with
    | none =>
      rw [Message.mismatchMessage_of_missing hcount hn hfind]
      exact .missing hcount hn hfind
    | some t =>
      rw [Message.mismatchMessage_of_inside hcount hn hfind]
      refine .inside hcount hn hfind (Message.kind_of_firstUnmatched? hn hfind) ?_
      refine hchildren n (List.mem_of_find?_eq_some hn) t ?_
      exact (Message.of_firstUnmatched? hn).2 t (List.mem_of_find?_eq_some hfind) (List.find?_some hfind)
  · rw [Message.mismatchMessage_of_nodeCount_ne hcount]
    exact .count hcount

/-- Children without the structure of the children of a node have a first mismatch with them. -/
theorem Node.firstMismatch_children (n : Node) : ∀ t : Node, Message.sameStructure n.children t.children = false →
    Message.FirstMismatch n.children t.children (Message.mismatchMessage n.children t.children) := by
  induction n using Node.induction with
  | text content =>
    intro t h
    exact Message.firstMismatch_of_forall h (by simp [Node.children])
  | named n _ ih =>
    intro t h
    exact Message.firstMismatch_of_forall h ih

/-- There is no report, and the search finds nothing wrong, just where the target has the structure of the base; and where it has not, the
report is the wording of the first mismatch and of nothing else. -/
theorem Message.firstMismatch_iff (base target : Message) :
    (base.mismatchMessage target = [] ↔ base.sameStructure target = true) ∧
      (base.mismatch? target = none ↔ base.sameStructure target = true) ∧
      ∀ w, base.FirstMismatch target w ↔ base.sameStructure target = false ∧ base.mismatchMessage target = w := by
  refine ⟨?_, Message.sameStructure_iff.symm, ?_⟩
  · rw [Message.mismatchMessage_eq_nil_iff, Message.sameStructure_iff]
  · intro w
    constructor
    · intro h
      exact ⟨h.sameStructure_eq_false, h.mismatchMessage_eq⟩
    · rintro ⟨h, rfl⟩
      exact Message.firstMismatch_of_forall h fun n _ => n.firstMismatch_children

/-- The report goes down to the first thing that is wrong, here in the second of three tags of one name, against the first of those in the
target. -/
example :
    Message.mismatchMessage
      [.tag (utf8 "a") [.placeholder (utf8 "x")], .tag (utf8 "a") [.tag (utf8 "b") [.placeholder (utf8 "y")]], .voidTag (utf8 "a")]
      [.voidTag (utf8 "a"), .tag (utf8 "a") [.tag (utf8 "b") [.placeholder (utf8 "z")]], .tag (utf8 "a") [.placeholder (utf8 "x")]] =
      utf8 "inside <a>: inside <b>: missing placeholder %y%" := by decide

end Phrasebook
