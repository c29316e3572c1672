import Phrasebook.Message.Node

/-!
# The nodes of a message

A message is a list of trees. `Node.induction` is induction on a node from its children. The nodes of a message can be told depth by
depth (`Message.atDepth`) and in one list, from left to right and each node behind the nodes below it (`Message.postOrder`); both ways
tell the same nodes (`Message.mem_postOrder_iff_atDepth`).
-/

namespace Phrasebook

/-- The children of a node; only a tag has any. -/
def Node.children : Node → List Node
  | .tag _ children => children
  | _ => []

theorem Node.isText_of_mem_children {n c : Node} (h : c ∈ n.children) : n.isText = false := by
  cases n with
  | text => cases h
  | _ => rfl

mutual

/-- The nodes from a node downwards, the node itself last. -/
def Node.postOrder : Node → List Node
  | .text content => [.text content]
  | .tag name children => Message.postOrder children ++ [.tag name children]
  | .voidTag name => [.voidTag name]
  | .placeholder name => [.placeholder name]

/-- The nodes of a message at any depth, each one behind those below it. -/
def Message.postOrder : Message → List Node
  | [] => []
  | n :: ns => n.postOrder ++ Message.postOrder ns

end

/-- Induction on a node: what holds of every run of text, and of every other node if it holds of its children, holds of every node. -/
@[elab_as_elim]
theorem Node.induction {motive : Node → Prop} (text : ∀ content, motive (.text content))
    (named : ∀ n, n.isText = false → (∀ c ∈ n.children, motive c) → motive n) (n : Node) : motive n := by
  refine @Node.rec motive (fun ns => ∀ c ∈ ns, motive c) text ?tag ?voidTag ?placeholder ?nil ?cons n
  case tag =>
    intro name children ih
    exact named (.tag name children) rfl ih
  case voidTag =>
    intro name
    exact named (.voidTag name) rfl (by simp [Node.children])
  case placeholder =>
    intro name
    exact named (.placeholder name) rfl (by simp [Node.children])
  case nil => simp
  case cons =>
    intro n ns ihn ihns
    exact List.forall_mem_cons.mpr ⟨ihn, ihns⟩

/-- A node that is no text stands behind all nodes below it. -/
theorem Node.postOrder_of_not_text {n : Node} (h : n.isText = false) : n.postOrder = Message.postOrder n.children ++ [n] := by
  cases n with
  | text => cases h
  | tag => simp only [Node.postOrder, Node.children]
  | voidTag => simp only [Node.postOrder, Node.children, Message.postOrder, List.nil_append]
  | placeholder => simp only [Node.postOrder, Node.children, Message.postOrder, List.nil_append]

theorem Message.mem_postOrder {m : Message} {n : Node} : n ∈ m.postOrder ↔ ∃ t ∈ m, n ∈ t.postOrder := by
  induction m with
  | nil => simp [Message.postOrder]
  | cons t ts ih => simp [Message.postOrder, ih]

theorem Node.self_mem_postOrder (n : Node) : n ∈ n.postOrder := by
  cases n <;> simp [Node.postOrder]

theorem Node.mem_postOrder_of_child {n c u : Node} (hc : c ∈ n.children) (hu : u ∈ c.postOrder) : u ∈ n.postOrder := by
  rw [Node.postOrder_of_not_text (Node.isText_of_mem_children hc)]
  exact List.mem_append_left _ (Message.mem_postOrder.mpr ⟨c, hc, hu⟩)

/-! ## Depth by depth -/

/-- The nodes of a message at a depth; its top nodes are at depth zero. -/
def Message.atDepth : Nat → Message → List Node
  | 0, m => m
  | d + 1, m => Message.atDepth d (m.flatMap Node.children)

/-- Where there are more top nodes, there are more nodes at every depth. -/
theorem Message.atDepth_subset {m m' : Message} (h : m ⊆ m') (d : Nat) : Message.atDepth d m ⊆ Message.atDepth d m' := by
  induction d generalizing m m' with
  | zero => exact h
  | succ d ih =>
    refine ih ?_
    intro c hc
    obtain ⟨n, hn, hc⟩ := List.mem_flatMap.mp hc
    exact List.mem_flatMap.mpr ⟨n, h hn, hc⟩

/-- A node from a node downwards is at some depth below it. -/
theorem Node.exists_atDepth {n u : Node} (h : u ∈ n.postOrder) : ∃ d, u ∈ Message.atDepth d [n] := by
  induction n using Node.induction with
  | text content =>
    rw [Node.postOrder] at h
    exact ⟨0, h⟩
  | named n hn ih =>
    rw [Node.postOrder_of_not_text hn] at h
    rcases List.mem_append.mp h with h | h
    · obtain ⟨c, hc, hu⟩ := Message.mem_postOrder.mp h
      obtain ⟨d, hd⟩ := ih c hc hu
      refine ⟨d + 1, Message.atDepth_subset ?_ d hd⟩
      simpa using hc
    · exact ⟨0, h⟩

/-- A node is somewhere in a message when it is at some depth of it. -/
theorem Message.mem_postOrder_iff_atDepth {m : Message} {u : Node} : u ∈ m.postOrder ↔ ∃ d, u ∈ Message.atDepth d m := by
  constructor
  · intro h
    obtain ⟨n, hn, hu⟩ := Message.mem_postOrder.mp h
    obtain ⟨d, hd⟩ := Node.exists_atDepth hu
    exact ⟨d, Message.atDepth_subset (by simpa using hn) d hd⟩
  · rintro ⟨d, hd⟩
    induction d generalizing m with
    | zero => exact Message.mem_postOrder.mpr ⟨u, hd, u.self_mem_postOrder⟩
    | succ d ih =>
      obtain ⟨c, hc, hu⟩ := Message.mem_postOrder.mp (ih hd)
      obtain ⟨n, hn, hc⟩ := List.mem_flatMap.mp hc
      exact Message.mem_postOrder.mpr ⟨n, hn, Node.mem_postOrder_of_child hc hu⟩

end Phrasebook
