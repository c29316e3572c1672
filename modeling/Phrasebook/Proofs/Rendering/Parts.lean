import Phrasebook.Rendering
import Phrasebook.Proofs.Message.Nodes
import Mathlib.Data.List.Forall2

/-!
# What a rendered message consists of

`Node.Becomes` says, node by node, which part a node becomes, without any order in which nodes are looked at. A message is rendered
just when every node at any depth that needs a value has one; its parts are then those that its nodes become, and otherwise the fault
names the first node without a value, children before their tag (`Message.render_outcome`).
-/

namespace Phrasebook

variable {α : Type} {vs : Values α}

/-- Whether a node needs a value and has none: it is no text, and its name is not bound. -/
def Values.lacks (vs : Values α) (n : Node) : Bool := !n.isText && (vs.find? n.name).isNone

/-- Every node of a message has the value that it needs, at any depth. -/
def Values.Cover (vs : Values α) (m : Message) : Prop := ∀ n ∈ m.postOrder, n.isText = false → ∃ v, vs.find? n.name = some v

/-- What a node becomes. A run of text becomes itself. The value of any other node takes its place: a function is applied to the text
of what the children become, one after the other, and every other value gives its text, whatever the children are. -/
inductive Node.Becomes [TextForm α] (vs : Values α) : Node → Part α → Prop
  | text {content : Bytes} : Becomes vs (.text content) (.text content)
  | plain {n : Node} {v : Value α} : n.isText = false → vs.find? n.name = some v → v.isFunction = false →
      Becomes vs n (.text v.toText)
  | applied {n : Node} {f : Bytes → α} {parts : List (Part α)} : n.isText = false → vs.find? n.name = some (.function f) →
      List.Forall₂ (Becomes vs) n.children parts → Becomes vs n (.value (f (parts.flatMap Part.toText)))

/-! ## Values for every node -/

/-- A message is covered just when no node of it lacks a value. -/
theorem Values.cover_iff {m : Message} : vs.Cover m ↔ m.postOrder.find? vs.lacks = none := by
  rw [List.find?_eq_none, Values.Cover]
  refine forall₂_congr fun n _ => ?_
  cases hn : n.isText with
  | true => simp [lacks, hn]
  | false => simp [lacks, hn, Option.ne_none_iff_exists']

variable [TextForm α]

/-! ## Rendering in its stages -/

/-- A node that is no text is rendered behind its children, whose text its value is given. -/
theorem Node.render_of_not_text {n : Node} (h : n.isText = false) :
    n.render vs =
      match Message.render vs n.children with
      | .ok parts => vs.part n.name (joined parts)
      | .error f => .error f := by
  cases n with
  | text => cases h
  | tag => rw [Node.render]; rfl
  | voidTag => rw [Node.render]; rfl
  | placeholder => rw [Node.render]; rfl

/-- A value makes of a node what the node becomes by it. -/
theorem Value.becomes_part {n : Node} {v : Value α} {parts : List (Part α)} (hn : n.isText = false)
    (hv : vs.find? n.name = some v) (hp : List.Forall₂ (Node.Becomes vs) n.children parts) :
    n.Becomes vs (v.part (joined parts)) := by
  cases v with
  | function f =>
    rw [Value.part, joined_eq_flatMap]
    exact .applied hn hv hp
  | text content => exact .plain hn hv rfl
  | integer i => exact .plain hn hv rfl
  | unsigned i => exact .plain hn hv rfl
  | real x => exact .plain hn hv rfl

/-! ## One node, and all nodes of a level -/

/-- What rendering a node comes to: the fault of the first node from there downwards that lacks a value, or else the part that the
node becomes. -/
inductive Node.Rendered (vs : Values α) (n : Node) : Prop
  | fault {u : Node} : n.postOrder.find? vs.lacks = some u → n.render vs = .error (.missingValue u.name) → Rendered vs n
  | part {p : Part α} : n.postOrder.find? vs.lacks = none → n.render vs = .ok p → n.Becomes vs p → Rendered vs n

/-- What rendering a level comes to. -/
inductive Message.Rendered (vs : Values α) (m : Message) : Prop
  | fault {u : Node} : m.postOrder.find? vs.lacks = some u → Message.render vs m = .error (.missingValue u.name) → Rendered vs m
  | parts {ps : List (Part α)} : m.postOrder.find? vs.lacks = none → Message.render vs m = .ok ps →
      List.Forall₂ (Node.Becomes vs) m ps → Rendered vs m

/-- A level is rendered if its nodes are: the first node with a fault ends it. -/
theorem Message.rendered_of_forall {m : Message} (h : ∀ n ∈ m, n.Rendered vs) : m.Rendered vs := by
  induction m with
  | nil => exact .parts (by simp [Message.postOrder]) (by rw [Message.render]) .nil
  | cons n ns ih =>
    obtain ⟨hn, hns⟩ := List.forall_mem_cons.mp h
    have hfind : (Message.postOrder (n :: ns)).find? vs.lacks =
        (n.postOrder.find? vs.lacks).or ((Message.postOrder ns).find? vs.lacks) := by
      rw [Message.postOrder, List.find?_append]
    rcases hn with ⟨hu, hr⟩ | ⟨hu, hp, hb⟩
    · exact .fault (by rw [hfind, hu, Option.some_or]) (by rw [Message.render, hr])
    · rcases ih hns with ⟨hw, hr⟩ | ⟨hw, hps, hbs⟩
      · exact .fault (by rw [hfind, hu, Option.none_or, hw]) (by rw [Message.render, hp, hr])
      · exact .parts (by rw [hfind, hu, Option.none_or, hw]) (by rw [Message.render, hp, hps]) (.cons hb hbs)

/-- Every node is rendered, behind its children. -/
theorem Node.rendered (vs : Values α) (n : Node) : n.Rendered vs := by
  induction n using Node.induction with
  | text content => exact .part (by simp [Node.postOrder, Values.lacks, Node.isText]) (by rw [Node.render]) .text
  | named n hn ih =>
    have hfind : n.postOrder.find? vs.lacks =
        ((Message.postOrder n.children).find? vs.lacks).or ([n].find? vs.lacks) := by
      rw [Node.postOrder_of_not_text hn, List.find?_append]
    rcases Message.rendered_of_forall ih with ⟨hu, hr⟩ | ⟨hu, hps, hbs⟩
    · exact .fault (by rw [hfind, hu, Option.some_or]) (by rw [Node.render_of_not_text hn, hr])
    · rw [hu, Option.none_or] at hfind
      cases hv : vs.find? n.name with
      | none =>
        have hl : vs.lacks n = true := by simp [Values.lacks, hn, hv]
        exact .fault (by rw [hfind, List.find?_cons_of_pos hl])
          (by rw [Node.render_of_not_text hn, hps]; simp only [Values.part, hv])
      | some v =>
        have hl : ¬vs.lacks n = true := by simp [Values.lacks, hv]
        exact .part (by rw [hfind, List.find?_cons_of_neg hl, List.find?_nil])
          (by rw [Node.render_of_not_text hn, hps]; simp only [Values.part, hv]) (Value.becomes_part hn hv hbs)

theorem Message.rendered (vs : Values α) (m : Message) : m.Rendered vs :=
  Message.rendered_of_forall fun n _ => n.rendered vs

/-! ## There is one part that a node becomes -/

/-- The nodes of a level become one list of parts, if each of them becomes one part. -/
theorem Node.Becomes.forall₂_unique {ns : List Node} {ps qs : List (Part α)}
    (h : ∀ n ∈ ns, ∀ p q, n.Becomes vs p → n.Becomes vs q → p = q) (hp : List.Forall₂ (Node.Becomes vs) ns ps)
    (hq : List.Forall₂ (Node.Becomes vs) ns qs) : ps = qs := by
  induction hp generalizing qs with
  | nil =>
    cases hq
    rfl
  | cons hp _ ih =>
    cases hq with
    | cons hq hqs =>
      obtain ⟨hn, hns⟩ := List.forall_mem_cons.mp h
      rw [hn _ _ hp hq, ih hns hqs]

/-- A node becomes one part only. -/
theorem Node.Becomes.unique {n : Node} : ∀ {p q : Part α}, n.Becomes vs p → n.Becomes vs q → p = q := by
  induction n using Node.induction with
  | text content =>
    intro p q hp hq
    cases hp with
    | text =>
      cases hq with
      | text => rfl
      | plain hn => cases hn
      | applied hn => cases hn
    | plain hn => cases hn
    | applied hn => cases hn
  | named n hn ih =>
    intro p q hp hq
    cases hp with
    | text => cases hn
    | plain _ hv hf =>
      cases hq with
      | text => cases hn
      | plain _ hv' _ =>
        rw [hv, Option.some.injEq] at hv'
        rw [hv']
      | applied _ hv' _ =>
        rw [hv, Option.some.injEq] at hv'
        rw [hv'] at hf
        cases hf
    | applied _ hv hps =>
      cases hq with
      | text => cases hn
      | plain _ hv' hf =>
        rw [hv, Option.some.injEq] at hv'
        rw [← hv'] at hf
        cases hf
      | applied _ hv' hqs =>
        rw [hv, Option.some.injEq, Value.function.injEq] at hv'
        rw [hv', forall₂_unique (fun c hc p q => ih c hc) hps hqs]

/-! ## The outcome -/

/-- A message is rendered just when it is covered. -/
theorem Message.exists_render_iff (vs : Values α) (m : Message) : (∃ parts, Message.render vs m = .ok parts) ↔ vs.Cover m := by
  rw [Values.cover_iff]
  rcases m.rendered vs with ⟨hu, hr⟩ | ⟨hu, hps, -⟩
  · simp [hu, hr]
  · simp [hu, hps]

/-- The fault of rendering is that of a missing value, of the first node that lacks one. -/
theorem Message.of_render_error {m : Message} {f : Fault} (h : Message.render vs m = .error f) :
    f.code = .missingValue ∧ ∃ n, m.postOrder.find? vs.lacks = some n ∧ f.detail = n.name := by
  rcases m.rendered vs with ⟨hu, hr⟩ | ⟨-, hps, -⟩
  · rw [hr, Except.error.injEq] at h
    subst h
    exact ⟨rfl, _, hu, rfl⟩
  · rw [hps] at h
    cases h

/-- The parts of a message are those that its nodes become. -/
theorem Message.render_eq_ok_iff {m : Message} {parts : List (Part α)} :
    Message.render vs m = .ok parts ↔ vs.Cover m ∧ List.Forall₂ (Node.Becomes vs) m parts := by
  rw [Values.cover_iff]
  rcases m.rendered vs with ⟨hu, hr⟩ | ⟨hu, hps, hbs⟩
  · simp [hu, hr]
  · rw [hps, Except.ok.injEq]
    constructor
    · rintro rfl
      exact ⟨hu, hbs⟩
    · rintro ⟨-, hbs'⟩
      exact Node.Becomes.forall₂_unique (fun n _ p q => Node.Becomes.unique) hbs hbs'

/-- A message is rendered just when every node at any depth that needs a value has one. The parts are then those that its nodes become,
one each and in their order; otherwise the fault is that of a missing value, and its detail the name of the first node without one,
where a tag comes behind its children. -/
theorem Message.render_outcome (vs : Values α) (m : Message) :
    ((∃ parts, Message.render vs m = .ok parts) ↔ vs.Cover m) ∧
      (∀ f, Message.render vs m = .error f →
        f.code = .missingValue ∧ ∃ n, m.postOrder.find? vs.lacks = some n ∧ f.detail = n.name) ∧
      ∀ parts, Message.render vs m = .ok parts ↔ vs.Cover m ∧ List.Forall₂ (Node.Becomes vs) m parts :=
  ⟨Message.exists_render_iff vs m, fun _ => Message.of_render_error, fun _ => Message.render_eq_ok_iff⟩

/-! ## Texts -/

/-- The text of a message is that of what its nodes become; there is one just when the message is covered. -/
theorem Message.renderText_eq_ok_iff {vs : Values Bytes} {m : Message} {out : Bytes} :
    m.renderText vs = .ok out ↔
      vs.Cover m ∧ ∃ parts, List.Forall₂ (Node.Becomes vs) m parts ∧ out = parts.flatMap Part.toText := by
  rw [Message.renderText]
  constructor
  · intro h
    cases hr : Message.render vs m with
    | error f =>
      rw [hr] at h
      cases h
    | ok parts =>
      rw [hr] at h
      cases h
      obtain ⟨hcover, hparts⟩ := Message.render_eq_ok_iff.mp hr
      exact ⟨hcover, parts, hparts, joined_eq_flatMap parts⟩
  · rintro ⟨hcover, parts, hparts, rfl⟩
    rw [Message.render_eq_ok_iff.mpr ⟨hcover, hparts⟩, ← joined_eq_flatMap]
    rfl

/-- A message has a text just when it is covered. -/
theorem Message.exists_renderText_iff {vs : Values Bytes} {m : Message} :
    (∃ out, m.renderText vs = .ok out) ↔ vs.Cover m := by
  rw [← Message.exists_render_iff, Message.renderText]
  cases Message.render vs m <;> simp [Except.map]

/-- A message has no text only where a value is missing, and the fault names the first node that lacks one. -/
theorem Message.of_renderText_error {vs : Values Bytes} {m : Message} {f : Fault} (h : m.renderText vs = .error f) :
    ∃ u, m.postOrder.find? vs.lacks = some u ∧ f = .missingValue u.name := by
  rw [Message.renderText] at h
  rcases m.rendered vs with ⟨hu, hr⟩ | ⟨-, hr, -⟩
  · rw [hr] at h
    cases h
    exact ⟨_, hu, rfl⟩
  · rw [hr] at h
    cases h

end Phrasebook
