import Phrasebook.Structure
import Phrasebook.Proofs.Message.Nodes

/-!
# Matches, level by level

A match of a node has its kind and name, and children with the structure of its children (`Node.fits_iff_sameStructure`). So every node
is a match of itself, and a match of a match is a match; and every message has its own structure, and what has the structure of a message
that has the structure of a base has that of the base (`Message.sameStructure_refl`, `Message.sameStructure_trans`).

Where every node of a base has a match on the level of the target, so has every child of a node of the base among the children of the
nodes of the target (`Message.allMatched_children`): a match goes down level by level. So a target with the structure of a base has a
node of the same kind and name at the same depth for every node of the base (`Message.exists_sameName_atDepth`).
-/

namespace Phrasebook

/-- The nodes of a level that count: all but the runs of text. -/
def Message.counted (m : Message) : List Node := m.filter (fun n => !n.isText)

/-- What siblings are told apart by: the kind and the name. -/
def Node.signature (n : Node) : Kind × Bytes := (n.kind, n.name)

theorem Node.isText_of_sameName {n t : Node} (h : n.sameName t = true) : n.isText = t.isText := by
  cases n <;> cases t <;> first | rfl | simp [Node.sameName, Node.kind] at h

theorem Node.name_of_sameName {n t : Node} (h : n.sameName t = true) : n.name = t.name := by
  simp only [Node.sameName, Bool.and_eq_true, beq_iff_eq] at h
  exact h.2

/-- A match has the kind and the name of the node, and the children of the node have their matches among its children. -/
theorem Node.of_fits {n t : Node} (h : n.fits t = true) :
    n.sameName t = true ∧ Message.allMatched n.children t.children = true := by
  have hn : n.isText = false := by
    cases n with
    | text => cases t <;> simp [Node.fits] at h
    | _ => rfl
  refine ⟨((Node.fits_iff n t hn).mp h).1, ?_⟩
  cases n with
  | text => cases hn
  | tag name children =>
    cases t with
    | tag name' children' =>
      rw [Node.fits, Bool.and_eq_true, Message.allMatched_candidates] at h
      exact h.2
    | _ => simp [Node.fits] at h
  | voidTag => simp [Node.children, Message.allMatched]
  | placeholder => simp [Node.children, Message.allMatched]

/-- Every node of a base has a match when each node that counts fits one of the target. -/
theorem Message.allMatched_iff_exists {base target : List Node} :
    Message.allMatched base target = true ↔ ∀ n ∈ base, n.isText = false → ∃ t ∈ target, n.fits t = true := by
  induction base with
  | nil => simp [Message.allMatched]
  | cons n ns ih =>
    rw [Message.allMatched, Bool.and_eq_true, ih, List.forall_mem_cons, Bool.or_eq_true, List.any_eq_true]
    cases n.isText <;> simp

/-! ## Matches of a level -/

theorem Message.mem_counted {m : Message} {n : Node} : n ∈ m.counted ↔ n ∈ m ∧ n.isText = false := by
  simp [Message.counted]

/-- A match of a node has its kind and its name, and children of the same structure as those of the node. -/
theorem Node.fits_iff_sameStructure {n t : Node} (hn : n.isText = false) :
    n.fits t = true ↔ n.signature = t.signature ∧ Message.sameStructure n.children t.children = true := by
  cases n with
  | text => cases hn
  | tag name children =>
    cases t with
    | tag name' children' =>
      simp [Node.fits, Node.signature, Node.kind, Node.name, Node.children, Message.sameStructure, and_assoc]
    | _ => simp [Node.fits, Node.signature, Node.kind]
  | voidTag name =>
    cases t <;> simp [Node.fits, Node.signature, Node.kind, Node.name, Node.children, Message.sameStructure, Message.nodeCount,
      Message.allMatched]
  | placeholder name =>
    cases t <;> simp [Node.fits, Node.signature, Node.kind, Node.name, Node.children, Message.sameStructure, Message.nodeCount,
      Message.allMatched]

theorem Node.signature_eq_of_fits {n t : Node} (h : n.fits t = true) : n.signature = t.signature := by
  simpa [Node.sameName, Node.signature] using (Node.of_fits h).1

/-- A target has the structure of a base when as many nodes of it count, and each one of the base that counts has a match. -/
theorem Message.sameStructure_iff_counted {base target : Message} :
    base.sameStructure target = true ↔
      base.counted.length = target.counted.length ∧ ∀ n ∈ base.counted, ∃ t ∈ target.counted, n.fits t = true := by
  rw [Message.sameStructure, Bool.and_eq_true, beq_iff_eq, Message.allMatched_candidates, Message.allMatched_iff_exists,
    Message.nodeCount, Message.nodeCount, List.countP_eq_length_filter, List.countP_eq_length_filter]
  refine and_congr Iff.rfl ⟨fun h n hn => ?_, fun h n hn htext => ?_⟩
  · obtain ⟨hn, htext⟩ := Message.mem_counted.mp hn
    obtain ⟨t, ht, hf⟩ := h n hn htext
    exact ⟨t, Message.mem_counted.mpr ⟨ht, Node.isText_of_fits hf⟩, hf⟩
  · obtain ⟨t, ht, hf⟩ := h n (Message.mem_counted.mpr ⟨hn, htext⟩)
    exact ⟨t, (Message.mem_counted.mp ht).1, hf⟩

/-! ## Reflexivity and transitivity -/

/-- A node that is no text is a match of itself. -/
theorem Node.fits_refl {n : Node} (hn : n.isText = false) : n.fits n = true := by
  induction n using Node.induction with
  | text => cases hn
  | named n _ ih =>
    refine (Node.fits_iff_sameStructure hn).mpr ⟨rfl, Message.sameStructure_iff_counted.mpr ⟨rfl, ?_⟩⟩
    intro c hc
    obtain ⟨hmem, htext⟩ := Message.mem_counted.mp hc
    exact ⟨c, hc, ih c hmem htext⟩

theorem Message.sameStructure_of_counted_perm {m m' : Message} (h : m.counted.Perm m'.counted) : m.sameStructure m' = true := by
  refine Message.sameStructure_iff_counted.mpr ⟨h.length_eq, ?_⟩
  intro n hn
  exact ⟨n, h.subset hn, Node.fits_refl (Message.mem_counted.mp hn).2⟩

/-- Every message has its own structure. -/
theorem Message.sameStructure_refl (m : Message) : m.sameStructure m = true :=
  Message.sameStructure_of_counted_perm (.refl _)

/-- The structure of a level is passed on, if the matches of its nodes are. -/
theorem Message.sameStructure_trans_of_forall {a b c : Message} (hab : a.sameStructure b = true) (hbc : b.sameStructure c = true)
    (h : ∀ n ∈ a, ∀ t u, n.fits t = true → t.fits u = true → n.fits u = true) : a.sameStructure c = true := by
  obtain ⟨hlength, hmatch⟩ := Message.sameStructure_iff_counted.mp hab
  obtain ⟨hlength', hmatch'⟩ := Message.sameStructure_iff_counted.mp hbc
  refine Message.sameStructure_iff_counted.mpr ⟨hlength.trans hlength', ?_⟩
  intro n hn
  obtain ⟨t, ht, hnt⟩ := hmatch n hn
  obtain ⟨u, hu, htu⟩ := hmatch' t ht
  exact ⟨u, hu, h n (Message.mem_counted.mp hn).1 t u hnt htu⟩

/-- A match of a match of a node is a match of the node. -/
theorem Node.fits_trans {n : Node} : ∀ t u : Node, n.fits t = true → t.fits u = true → n.fits u = true := by
  induction n using Node.induction with
  | text content =>
    intro t u hnt _
    cases t <;> simp [Node.fits] at hnt
  | named n hn ih =>
    intro t u hnt htu
    obtain ⟨hsig, hsame⟩ := (Node.fits_iff_sameStructure hn).mp hnt
    obtain ⟨hsig', hsame'⟩ := (Node.fits_iff_sameStructure (Node.isText_of_fits hnt)).mp htu
    exact (Node.fits_iff_sameStructure hn).mpr ⟨hsig.trans hsig', Message.sameStructure_trans_of_forall hsame hsame' ih⟩

/-- What has the structure of a message that has the structure of a base has the structure of the base. -/
theorem Message.sameStructure_trans {a b c : Message} (hab : a.sameStructure b = true) (hbc : b.sameStructure c = true) :
    a.sameStructure c = true :=
  Message.sameStructure_trans_of_forall hab hbc fun _ _ => Node.fits_trans

/-- To have the structure of a message is a preorder on messages, whatever siblings repeat each other and however deep they are nested. -/
theorem Message.sameStructure_preorder :
    (∀ a : Message, a.sameStructure a = true) ∧
      ∀ a b c : Message, a.sameStructure b = true → b.sameStructure c = true → a.sameStructure c = true := by
  refine ⟨Message.sameStructure_refl, ?_⟩
  intro a b c hab hbc
  exact Message.sameStructure_trans hab hbc

/-- Three messages in a row. The first repeats a tag and, in it, a placeholder, which have their matches in one tag of the second and in one
placeholder there; so the structure does not go back from the second to the first. -/
theorem Message.sameStructure_preorder_sample :
    ∃ a b c : Message,
      a = [.tag (utf8 "t") [.placeholder (utf8 "n"), .placeholder (utf8 "n")], .text (utf8 " "),
        .tag (utf8 "t") [.placeholder (utf8 "n"), .placeholder (utf8 "n")]] ∧
      b = [.tag (utf8 "t") [.placeholder (utf8 "n"), .placeholder (utf8 "m")], .tag (utf8 "u") []] ∧
      c = [.text (utf8 " "), .tag (utf8 "u") [.text (utf8 " ")], .tag (utf8 "t") [.placeholder (utf8 "m"), .placeholder (utf8 "n")]] ∧
      a.sameStructure a = true ∧ a.sameStructure b = true ∧ b.sameStructure c = true ∧ a.sameStructure c = true ∧
      b.sameStructure a = false := by
  refine ⟨_, _, _, rfl, rfl, rfl, Message.sameStructure_preorder.1 _, ?ab, ?bc, Message.sameStructure_preorder.2 _ _ _ ?ab ?bc, ?ba⟩
  case ab => decide
  case bc => decide
  case ba => decide

/-! ## Going down -/

/-- A match goes down one level. -/
theorem Message.allMatched_children {base target : List Node} (h : Message.allMatched base target = true) :
    Message.allMatched (base.flatMap Node.children) (target.flatMap Node.children) = true := by
  rw [Message.allMatched_iff_exists] at h ⊢
  intro c hc htext
  obtain ⟨n, hn, hc⟩ := List.mem_flatMap.mp hc
  obtain ⟨t, ht, hfits⟩ := h n hn (Node.isText_of_mem_children hc)
  obtain ⟨d, hd, hf⟩ := Message.allMatched_iff_exists.mp (Node.of_fits hfits).2 c hc htext
  exact ⟨d, List.mem_flatMap.mpr ⟨t, ht, hd⟩, hf⟩

/-- Where every node of a base has a match, every node at a depth of it has one of its kind and name at that depth of the target. -/
theorem Message.exists_sameName_of_allMatched {base target : Message} (h : Message.allMatched base target = true) {d : Nat}
    {n : Node} (hn : n ∈ Message.atDepth d base) (htext : n.isText = false) :
    ∃ t ∈ Message.atDepth d target, n.sameName t = true := by
  induction d generalizing base target with
  | zero =>
    obtain ⟨t, ht, hf⟩ := Message.allMatched_iff_exists.mp h n hn htext
    exact ⟨t, ht, (Node.of_fits hf).1⟩
  | succ d ih => exact ih (Message.allMatched_children h) hn

/-- A target with the structure of a base has, for every node at a depth of the base, one of its kind and name at that depth. -/
theorem Message.exists_sameName_atDepth {base target : Message} (h : base.sameStructure target = true) {d : Nat} {n : Node}
    (hn : n ∈ Message.atDepth d base) (htext : n.isText = false) : ∃ t ∈ Message.atDepth d target, n.sameName t = true := by
  rw [Message.sameStructure, Bool.and_eq_true, Message.allMatched_candidates] at h
  exact Message.exists_sameName_of_allMatched h.2 hn htext

end Phrasebook
