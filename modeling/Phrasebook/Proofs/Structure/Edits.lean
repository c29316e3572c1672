import Phrasebook.Message.Reader
import Phrasebook.Proofs.Structure.Matching
import Mathlib.Logic.Relation

/-!
# Edits that keep the structure

Text and order do not count in the structure of a message. `Message.EditStep` is a step of editing that touches nothing else: a run of
text is put in, taken out or changed, or the nodes of a level are put in another order, on the top level or inside a tag at any depth.
Before and after such a step each of the two messages has the structure of the other (`Message.EditStep.sameStructure`), so a comparison
comes out the same after any number of them on either side (`Message.sameStructure_edited`).
-/

namespace Phrasebook

/-- A step of editing that touches the text of a level or the order of its nodes, at some depth of a message. -/
inductive Message.EditStep : Message → Message → Prop
  | insertText (before after : Message) (s : Bytes) : EditStep (before ++ after) (before ++ .text s :: after)
  | deleteText (before after : Message) (s : Bytes) : EditStep (before ++ .text s :: after) (before ++ after)
  | changeText (before after : Message) (s s' : Bytes) : EditStep (before ++ .text s :: after) (before ++ .text s' :: after)
  | reorder {m m' : Message} : m.Perm m' → EditStep m m'
  | inside (before after : Message) (name : Bytes) {children children' : Message} :
      EditStep children children' → EditStep (before ++ .tag name children :: after) (before ++ .tag name children' :: after)

/-- A message is edited into another by any number of steps. -/
def Message.Edited : Message → Message → Prop := Relation.ReflTransGen Message.EditStep

/-! ## One step -/

/-- A step can be taken back. -/
theorem Message.EditStep.symm {m m' : Message} (h : m.EditStep m') : m'.EditStep m := by
  induction h with
  | insertText before after s => exact .deleteText before after s
  | deleteText before after s => exact .insertText before after s
  | changeText before after s s' => exact .changeText before after s' s
  | reorder hperm => exact .reorder hperm.symm
  | inside before after name _ ih => exact .inside before after name ih

theorem Message.counted_append_text (before after : Message) (s : Bytes) :
    Message.counted (before ++ .text s :: after) = Message.counted (before ++ after) := by
  rw [Message.counted, Message.counted, List.filter_append, List.filter_append, List.filter_cons_of_neg (by simp [Node.isText])]

/-- A message keeps its structure when the children of a tag are replaced by children of their structure. -/
theorem Message.sameStructure_of_children {children children' : Message} (h : children.sameStructure children' = true)
    (before after : Message) (name : Bytes) :
    Message.sameStructure (before ++ .tag name children :: after) (before ++ .tag name children' :: after) = true := by
  have hfits : Node.fits (.tag name children) (.tag name children') = true := (Node.fits_iff_sameStructure rfl).mpr ⟨rfl, h⟩
  refine Message.sameStructure_iff_counted.mpr ⟨?_, ?_⟩
  · simp [Message.counted, Node.isText]
  · intro n hn
    obtain ⟨hmem, htext⟩ := Message.mem_counted.mp hn
    have hself : n.fits n = true := Node.fits_refl htext
    rcases List.mem_append.mp hmem with hmem | hmem
    · exact ⟨n, Message.mem_counted.mpr ⟨List.mem_append_left _ hmem, htext⟩, hself⟩
    · rcases List.mem_cons.mp hmem with rfl | hmem
      · exact ⟨.tag name children', Message.mem_counted.mpr ⟨by simp, rfl⟩, hfits⟩
      · exact ⟨n, Message.mem_counted.mpr ⟨List.mem_append_right _ (List.mem_cons_of_mem _ hmem), htext⟩, hself⟩

/-- A step keeps the structure. -/
theorem Message.EditStep.sameStructure {m m' : Message} (h : m.EditStep m') : m.sameStructure m' = true := by
  induction h with
  | insertText before after s =>
    refine Message.sameStructure_of_counted_perm ?_
    rw [Message.counted_append_text]
  | deleteText before after s =>
    refine Message.sameStructure_of_counted_perm ?_
    rw [Message.counted_append_text]
  | changeText before after s s' =>
    refine Message.sameStructure_of_counted_perm ?_
    rw [Message.counted_append_text, Message.counted_append_text]
  | reorder hperm => exact Message.sameStructure_of_counted_perm (hperm.filter _)
  | inside before after name _ ih => exact Message.sameStructure_of_children ih before after name

/-! ## Any number of steps -/

theorem Message.Edited.symm {m m' : Message} (h : m.Edited m') : m'.Edited m := by
  induction h with
  | refl => exact .refl
  | tail _ hstep ih => exact .head hstep.symm ih

/-- Edits keep the structure. -/
theorem Message.Edited.sameStructure {m m' : Message} (h : m.Edited m') : m.sameStructure m' = true := by
  induction h with
  | refl => exact Message.sameStructure_refl m
  | tail _ hstep ih => exact Message.sameStructure_trans ih hstep.sameStructure

/-- Whether a target has the structure of a base does not change when either of them is edited in its text and in the order of its
nodes, at any depth. -/
theorem Message.sameStructure_edited {base base' target target' : Message} (hbase : base.Edited base')
    (htarget : target.Edited target') : base'.sameStructure target' = base.sameStructure target := by
  rw [Bool.eq_iff_iff]
  constructor
  · intro h
    exact Message.sameStructure_trans (Message.sameStructure_trans hbase.sameStructure h) htarget.symm.sameStructure
  · intro h
    exact Message.sameStructure_trans (Message.sameStructure_trans hbase.symm.sameStructure h) htarget.sameStructure

/-- Text taken out on three levels and nodes put in another order on two of them, on one side; text changed two levels down on the other. -/
theorem Message.sameStructure_edited_sample :
    ∃ base base' target target' : Message,
      Message.parse (utf8 "<b>%n%, <i>x</i></b>: %b%") = .ok base ∧ Message.parse (utf8 "%b%<b><i></i>%n%</b>") = .ok base' ∧
        Message.parse (utf8 "<b><i>y</i>%n%</b>%b%") = .ok target ∧ Message.parse (utf8 "<b><i>z</i>%n%</b>%b%") = .ok target' ∧
        base.Edited base' ∧ target.Edited target' ∧ base'.sameStructure target' = base.sameStructure target := by
  have hbase : Message.Edited
      [.tag (utf8 "b") [.placeholder (utf8 "n"), .text (utf8 ", "), .tag (utf8 "i") [.text (utf8 "x")]], .text (utf8 ": "),
        .placeholder (utf8 "b")]
      [.placeholder (utf8 "b"), .tag (utf8 "b") [.tag (utf8 "i") [], .placeholder (utf8 "n")]] := by
    refine .head (.inside [] _ _ (.inside [_, _] [] _ (.deleteText [] [] _))) ?_
    refine .head (.inside [] _ _ (.deleteText [_] _ _)) ?_
    refine .head (.inside [] _ _ (.reorder (.swap _ _ []))) ?_
    refine .head (.deleteText [_] _ _) ?_
    exact .single (.reorder (.swap _ _ []))
  have htarget : Message.Edited
      [.tag (utf8 "b") [.tag (utf8 "i") [.text (utf8 "y")], .placeholder (utf8 "n")], .placeholder (utf8 "b")]
      [.tag (utf8 "b") [.tag (utf8 "i") [.text (utf8 "z")], .placeholder (utf8 "n")], .placeholder (utf8 "b")] :=
    .single (.inside [] _ _ (.inside [] _ _ (.changeText [] [] _ _)))
  refine ⟨_, _, _, _, ?base, ?base', ?target, ?target', hbase, htarget, Message.sameStructure_edited hbase htarget⟩
  case base => rfl
  case base' => rfl
  case target => rfl
  case target' => rfl

end Phrasebook
