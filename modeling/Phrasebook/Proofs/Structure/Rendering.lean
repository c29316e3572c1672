import Phrasebook.Proofs.Rendering.Parts
import Phrasebook.Proofs.Structure.Distinct

/-!
# Structure and values

A target with the structure of a base needs every value that the base needs (`Values.Cover.of_sameStructure`), so it cannot be rendered
where the base cannot. It may need more, but not if the siblings of the base are distinct: then the two need the same values, and one is
rendered just when the other is (`Message.exists_render_of_sameStructure`).
-/

namespace Phrasebook

variable {α : Type} {vs : Values α}

/-- A target with the structure of a base needs every value that the base needs. -/
theorem Values.Cover.of_sameStructure {base target : Message} (ht : vs.Cover target)
    (h : base.sameStructure target = true) : vs.Cover base := by
  intro n hn htext
  obtain ⟨d, hd⟩ := Message.mem_postOrder_iff_atDepth.mp hn
  obtain ⟨t, ht', hname⟩ := Message.exists_sameName_atDepth h hd htext
  rw [Node.name_of_sameName hname]
  refine ht t (Message.mem_postOrder_iff_atDepth.mpr ⟨d, ht'⟩) ?_
  rw [← Node.isText_of_sameName hname, htext]

/-- A target with the structure of a base with distinct siblings needs no other values than the base. -/
theorem Values.cover_iff_of_sameStructure {base target : Message} (hd : base.Distinct) (h : base.sameStructure target = true) :
    vs.Cover target ↔ vs.Cover base :=
  ⟨fun ht => ht.of_sameStructure h, fun hb => hb.of_sameStructure (hd.sameStructure_symm h)⟩

/-- A target with the structure of a base has, for every node at a depth of the base that is no text, a node of the same kind and name at
that depth. So whatever the values are, the base is rendered where the target is; and if the siblings of the base are distinct, the target
is rendered just where the base is. -/
theorem Message.exists_render_of_sameStructure {base target : Message} (h : base.sameStructure target = true) :
    (∀ d, ∀ n ∈ Message.atDepth d base, n.isText = false →
        ∃ t ∈ Message.atDepth d target, t.kind = n.kind ∧ t.name = n.name) ∧
      ∀ {α : Type} [TextForm α] (vs : Values α),
        ((∃ parts, Message.render vs target = .ok parts) → ∃ parts, Message.render vs base = .ok parts) ∧
          (base.Distinct →
            ((∃ parts, Message.render vs target = .ok parts) ↔ ∃ parts, Message.render vs base = .ok parts)) := by
  refine ⟨fun d n hn htext => ?_, fun vs => ⟨fun ht => ?_, fun hd => ?_⟩⟩
  · obtain ⟨t, ht, hname⟩ := Message.exists_sameName_atDepth h hn htext
    simp only [Node.sameName, Bool.and_eq_true, beq_iff_eq] at hname
    exact ⟨t, ht, hname.1.symm, hname.2.symm⟩
  · rw [Message.exists_render_iff] at ht ⊢
    exact ht.of_sameStructure h
  · rw [Message.exists_render_iff, Message.exists_render_iff]
    exact Values.cover_iff_of_sameStructure hd h

/-- Two messages with their nodes in different order on both levels and one name on both: either is rendered where the other is. -/
theorem Message.exists_render_of_sameStructure_sample :
    ∃ base target : Message,
      Message.parse (utf8 "<b>%n%, <br/></b>: %b%") = .ok base ∧ Message.parse (utf8 "%b% <b>x<br/>%n%</b>") = .ok target ∧
        base.sameStructure target = true ∧ base.Distinct ∧
        (∃ t ∈ Message.atDepth 1 target, t.kind = .placeholder ∧ t.name = utf8 "n") ∧
        ∀ vs : Values Bytes, (∃ parts, Message.render vs target = .ok parts) ↔ ∃ parts, Message.render vs base = .ok parts := by
  have hsame : Message.sameStructure
      [.tag (utf8 "b") [.placeholder (utf8 "n"), .text (utf8 ", "), .voidTag (utf8 "br")], .text (utf8 ": "), .placeholder (utf8 "b")]
      [.placeholder (utf8 "b"), .text (utf8 " "), .tag (utf8 "b") [.text (utf8 "x"), .voidTag (utf8 "br"), .placeholder (utf8 "n")]] =
      true := by decide
  have h := Message.exists_render_of_sameStructure hsame
  refine ⟨_, _, ?base, ?target, hsame, by decide, ?node, fun vs => (h.2 vs).2 (by decide)⟩
  case base => rfl
  case target => rfl
  case node => exact h.1 1 (.placeholder (utf8 "n")) (by decide) rfl

end Phrasebook
