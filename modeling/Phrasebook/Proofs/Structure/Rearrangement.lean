import Phrasebook.Message.Reader
import Phrasebook.Proofs.Structure.Distinct
import Mathlib.Data.List.Forall2

/-!
# Structure as a rearrangement

`Message.bare` leaves the runs of text out of a message, at any depth. A message is rearranged into another when the nodes of the one, put
in some order, are one by one the nodes of the other in kind and name, and their children are rearranged in the same way
(`Message.Rearranged`). A rearrangement keeps the structure (`Message.sameStructure_of_rearranged`). The converse needs distinct siblings,
for two nodes of a base may have the same match: then having the structure of a base is no more and no less than being a rearrangement of
it, runs of text left out (`Message.Distinct.sameStructure_iff_rearranged`).
-/

namespace Phrasebook

/-! ## Messages without text -/

mutual

/-- A node without the runs of text below it. -/
def Node.bare : Node → Node
  | .text content => .text content
  | .tag name children => .tag name (Message.bare children)
  | .voidTag name => .voidTag name
  | .placeholder name => .placeholder name

/-- A message without its runs of text, neither on the top level nor below. -/
def Message.bare : Message → Message
  | [] => []
  | n :: ns => if n.isText then Message.bare ns else n.bare :: Message.bare ns

end

/-- What is left of a level are the nodes that count. -/
theorem Message.bare_eq (m : Message) : m.bare = m.counted.map Node.bare := by
  unfold Message.counted
  induction m with
  | nil => rw [Message.bare]; rfl
  | cons n ns ih =>
    rw [Message.bare, ih]
    cases hn : n.isText with
    | true => rw [List.filter_cons_of_neg (by simp [hn]), if_pos rfl]
    | false => rw [List.filter_cons_of_pos (by simp [hn]), List.map_cons, if_neg nofun]

@[simp] theorem Node.signature_bare (n : Node) : n.bare.signature = n.signature := by
  cases n <;> simp [Node.bare, Node.signature, Node.kind, Node.name]

@[simp] theorem Node.children_bare (n : Node) : n.bare.children = Message.bare n.children := by
  cases n <;> simp [Node.bare, Node.children, Message.bare]

/-! ## Rearrangements -/

/-- A node is rearranged into another of its kind and name when the children of the other can be put in an order in which they are, one by
one, what the children of the node are rearranged into. -/
inductive Node.Rearranged : Node → Node → Prop
  | mk {n t : Node} {order : List Node} : n.kind = t.kind → n.name = t.name → order.Perm t.children →
      List.Forall₂ Node.Rearranged n.children order → Rearranged n t

/-- A message is rearranged into another when the other can be put in an order in which its nodes are, one by one, what the nodes of the
message are rearranged into. -/
def Message.Rearranged (m m' : Message) : Prop := ∃ order : List Node, order.Perm m' ∧ List.Forall₂ Node.Rearranged m order

/-- A node is rearranged when its children are, and kind and name stay. -/
theorem Node.rearranged_iff {n t : Node} :
    n.Rearranged t ↔ n.signature = t.signature ∧ Message.Rearranged n.children t.children := by
  constructor
  · intro h
    cases h with
    | mk hkind hname hperm hchildren => exact ⟨Prod.ext hkind hname, _, hperm, hchildren⟩
  · rintro ⟨hsig, order, hperm, hchildren⟩
    exact .mk (congrArg Prod.fst hsig) (congrArg Prod.snd hsig) hperm hchildren

theorem Message.Rearranged.length_eq {m m' : Message} (h : m.Rearranged m') : m.length = m'.length := by
  obtain ⟨order, hperm, hnodes⟩ := h
  rw [hnodes.length_eq, hperm.length_eq]

/-- Every node of a message is rearranged into one of the nodes of the other. -/
theorem Message.Rearranged.exists_mem {m m' : Message} (h : m.Rearranged m') {n : Node} (hn : n ∈ m) :
    ∃ t ∈ m', n.Rearranged t := by
  obtain ⟨order, hperm, hnodes⟩ := h
  have horder : ∃ t ∈ order, n.Rearranged t := by
    clear hperm
    induction hnodes with
    | nil => cases hn
    | cons hhead _ ih =>
      rcases List.mem_cons.mp hn with rfl | hn
      · exact ⟨_, List.mem_cons_self, hhead⟩
      · obtain ⟨t, ht, hnt⟩ := ih hn
        exact ⟨t, List.mem_cons_of_mem _ ht, hnt⟩
  obtain ⟨t, ht, hnt⟩ := horder
  exact ⟨t, hperm.subset ht, hnt⟩

/-! ## A rearrangement keeps the structure -/

/-- A level keeps its structure when it is rearranged, if its nodes have as matches what they are rearranged into. -/
theorem Message.sameStructure_of_rearranged_of_forall {base target : Message} (h : base.bare.Rearranged target.bare)
    (hfits : ∀ n ∈ base.counted, ∀ t ∈ target.counted, n.bare.Rearranged t.bare → n.fits t = true) :
    base.sameStructure target = true := by
  rw [Message.bare_eq, Message.bare_eq] at h
  refine Message.sameStructure_iff_counted.mpr ⟨?_, ?_⟩
  · simpa using h.length_eq
  · intro n hn
    obtain ⟨u, hu, hnu⟩ := h.exists_mem (List.mem_map_of_mem hn)
    obtain ⟨t, ht, rfl⟩ := List.mem_map.mp hu
    exact ⟨t, ht, hfits n hn t ht hnu⟩

/-- What a node is rearranged into is a match of the node, text left out. -/
theorem Node.fits_of_rearranged {n : Node} : ∀ t : Node, n.isText = false → n.bare.Rearranged t.bare → n.fits t = true := by
  induction n using Node.induction with
  | text content =>
    intro t hn _
    cases hn
  | named n _ ih =>
    intro t hn h
    rw [Node.rearranged_iff, Node.signature_bare, Node.signature_bare, Node.children_bare, Node.children_bare] at h
    refine (Node.fits_iff_sameStructure hn).mpr ⟨h.1, Message.sameStructure_of_rearranged_of_forall h.2 ?_⟩
    intro c hc d _ hcd
    obtain ⟨hmem, htext⟩ := Message.mem_counted.mp hc
    exact ih c hmem d htext hcd

/-- What a message is rearranged into has its structure, text left out. -/
theorem Message.sameStructure_of_rearranged {base target : Message} (h : base.bare.Rearranged target.bare) :
    base.sameStructure target = true := by
  refine Message.sameStructure_of_rearranged_of_forall h ?_
  intro n hn t _ hnt
  exact Node.fits_of_rearranged t (Message.mem_counted.mp hn).2 hnt

/-! ## With distinct siblings the structure is a rearrangement -/

/-- On a level whose nodes are distinct, a target with the structure of the base is a rearrangement of it, if matches are. -/
theorem Message.rearranged_of_forall {base target : Message} (h : base.sameStructure target = true) (hd : base.DistinctLevel)
    (hfits : ∀ n ∈ base, ∀ t, n.fits t = true → n.bare.Rearranged t.bare) : base.bare.Rearranged target.bare := by
  obtain ⟨partner, hpartner, hperm⟩ := Message.exists_perm_of_distinctLevel h hd
  rw [Message.bare_eq, Message.bare_eq]
  refine ⟨(base.counted.map partner).map Node.bare, hperm.map _, ?_⟩
  rw [List.map_map, List.forall₂_map_left_iff, List.forall₂_map_right_iff, List.forall₂_same]
  intro n hn
  exact hfits n (Message.mem_counted.mp hn).1 _ (hpartner n hn)

/-- A node whose siblings below it are distinct is rearranged into each of its matches, text left out. -/
theorem Node.rearranged_of_fits {n : Node} (hd : ∀ u ∈ n.postOrder, Message.DistinctLevel u.children) :
    ∀ t : Node, n.fits t = true → n.bare.Rearranged t.bare := by
  induction n using Node.induction with
  | text content =>
    intro t h
    cases t <;> simp [Node.fits] at h
  | named n hn ih =>
    intro t h
    obtain ⟨hsig, hsame⟩ := (Node.fits_iff_sameStructure hn).mp h
    rw [Node.rearranged_iff, Node.signature_bare, Node.signature_bare, Node.children_bare, Node.children_bare]
    refine ⟨hsig, Message.rearranged_of_forall hsame (hd n n.self_mem_postOrder) ?_⟩
    intro c hc
    exact ih c hc fun u hu => hd u (Node.mem_postOrder_of_child hc hu)

/-- A base with distinct siblings is rearranged into every target that has its structure, text left out. -/
theorem Message.Distinct.rearranged {base target : Message} (hd : base.Distinct) (h : base.sameStructure target = true) :
    base.bare.Rearranged target.bare := by
  refine Message.rearranged_of_forall h hd.1 ?_
  intro n hn
  exact Node.rearranged_of_fits fun u hu => hd.2 u (Message.mem_postOrder.mpr ⟨n, hn, hu⟩)

/-- Where the siblings of a base are distinct, a target has the structure of the base just when the base is rearranged into it, runs of
text left out at every depth; and then the base has the structure of the target, too. -/
theorem Message.Distinct.sameStructure_iff_rearranged {base target : Message} (hd : base.Distinct) :
    (base.sameStructure target = true ↔ base.bare.Rearranged target.bare) ∧
      (base.sameStructure target = true → target.sameStructure base = true) := by
  refine ⟨⟨?_, ?_⟩, ?_⟩
  · intro h
    exact hd.rearranged h
  · intro h
    exact Message.sameStructure_of_rearranged h
  · intro h
    exact hd.sameStructure_symm h

/-- Three levels in another order on each, with other text between the nodes: a tag, a void tag and a placeholder may share a name. -/
theorem Message.Distinct.sameStructure_iff_rearranged_sample :
    ∃ base target : Message,
      Message.parse (utf8 "<b>%n%, <i>%m% <n/></i></b>: %b%<n/>") = .ok base ∧
        Message.parse (utf8 "<n/>%b% <b>x<i><n/>%m%</i>%n%</b>.") = .ok target ∧ base.Distinct ∧
        base.bare.Rearranged target.bare ∧ target.sameStructure base = true := by
  have hsame : Message.sameStructure
      [.tag (utf8 "b") [.placeholder (utf8 "n"), .text (utf8 ", "),
          .tag (utf8 "i") [.placeholder (utf8 "m"), .text (utf8 " "), .voidTag (utf8 "n")]],
        .text (utf8 ": "), .placeholder (utf8 "b"), .voidTag (utf8 "n")]
      [.voidTag (utf8 "n"), .placeholder (utf8 "b"), .text (utf8 " "),
        .tag (utf8 "b") [.text (utf8 "x"), .tag (utf8 "i") [.voidTag (utf8 "n"), .placeholder (utf8 "m")], .placeholder (utf8 "n")],
        .text (utf8 ".")] = true := by decide
  refine ⟨_, _, ?base, ?target, ?distinct, (Message.Distinct.sameStructure_iff_rearranged ?distinct).1.mp hsame,
    (Message.Distinct.sameStructure_iff_rearranged ?distinct).2 hsame⟩
  case base => rfl
  case target => rfl
  case distinct => decide

end Phrasebook
