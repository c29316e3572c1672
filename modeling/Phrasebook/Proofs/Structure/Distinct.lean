import Phrasebook.Proofs.Structure.Matching
import Mathlib.Data.List.Nodup
import Mathlib.Data.List.Perm.Subperm

/-!
# Messages with distinct siblings

Two nodes of a base may have the same match, so a target with the structure of a base may hold nodes that no node of the base needs.
Where no two siblings of the base have both the kind and the name in common, at any depth, this cannot happen: a level of the target has
no more nodes than that of the base, so its nodes are the matches of the nodes of the base, each of one of them
(`Message.exists_perm_of_distinctLevel`), and the base has the structure of the target, too (`Message.Distinct.sameStructure_symm`).
-/

namespace Phrasebook

/-- No two nodes of a level that count have both the kind and the name in common. -/
def Message.DistinctLevel (m : Message) : Prop := (m.counted.map Node.signature).Nodup

/-- No level of a message has two such nodes: neither the top level nor the children of a node at any depth. -/
def Message.Distinct (m : Message) : Prop := m.DistinctLevel ∧ ∀ n ∈ m.postOrder, Message.DistinctLevel n.children

instance (m : Message) : Decidable m.DistinctLevel := inferInstanceAs (Decidable (List.Nodup _))

instance (m : Message) : Decidable m.Distinct := inferInstanceAs (Decidable (_ ∧ _))

/-! ## Matches of a level -/

/-- On a level whose nodes are distinct, every node has a match of its own, and these are the nodes of the target that count. -/
theorem Message.exists_perm_of_distinctLevel {base target : Message} (h : base.sameStructure target = true)
    (hd : base.DistinctLevel) :
    ∃ partner : Node → Node, (∀ n ∈ base.counted, n.fits (partner n) = true) ∧ (base.counted.map partner).Perm target.counted := by
  obtain ⟨hlength, hmatch⟩ := Message.sameStructure_iff_counted.mp h
  choose! partner hpartner using hmatch
  refine ⟨partner, fun n hn => (hpartner n hn).2, ?_⟩
  -- matches of distinct nodes are distinct, so no node of the target is the match of two
  have hsig : (base.counted.map partner).map Node.signature = base.counted.map Node.signature := by
    rw [List.map_map]
    refine List.map_congr_left fun n hn => ?_
    exact (Node.signature_eq_of_fits (hpartner n hn).2).symm
  have hnodup : (base.counted.map partner).Nodup := List.Nodup.of_map Node.signature (hsig ▸ hd)
  have hsub : base.counted.map partner ⊆ target.counted := by
    intro t ht
    obtain ⟨n, hn, rfl⟩ := List.mem_map.mp ht
    exact (hpartner n hn).1
  exact (List.subperm_of_subset hnodup hsub).perm_of_length_le (by simp [hlength])

/-- On a level whose nodes are distinct, every node of the target is the match of a node of the base. -/
theorem Message.exists_fits_of_distinctLevel {base target : Message} (h : base.sameStructure target = true)
    (hd : base.DistinctLevel) {t : Node} (ht : t ∈ target.counted) : ∃ n ∈ base.counted, n.fits t = true := by
  obtain ⟨partner, hfits, hperm⟩ := Message.exists_perm_of_distinctLevel h hd
  obtain ⟨n, hn, rfl⟩ := List.mem_map.mp (hperm.mem_iff.mpr ht)
  exact ⟨n, hn, hfits n hn⟩

/-! ## Symmetry -/

/-- On a level whose nodes are distinct the same structure goes both ways, if it does for the children of the nodes. -/
theorem Message.sameStructure_symm_of_forall {base target : Message} (h : base.sameStructure target = true)
    (hd : base.DistinctLevel) (hsymm : ∀ n ∈ base, ∀ t, n.fits t = true → t.fits n = true) :
    target.sameStructure base = true := by
  refine Message.sameStructure_iff_counted.mpr ⟨(Message.sameStructure_iff_counted.mp h).1.symm, fun t ht => ?_⟩
  obtain ⟨n, hn, hf⟩ := Message.exists_fits_of_distinctLevel h hd ht
  exact ⟨n, hn, hsymm n (Message.mem_counted.mp hn).1 t hf⟩

/-- A node whose siblings below it are distinct is the match of each of its matches. -/
theorem Node.fits_symm {n : Node} (hd : ∀ u ∈ n.postOrder, Message.DistinctLevel u.children) (t : Node)
    (h : n.fits t = true) : t.fits n = true := by
  induction n using Node.induction generalizing t with
  | text content => cases t <;> simp [Node.fits] at h
  | named n hn ih =>
    obtain ⟨hsig, hsame⟩ := (Node.fits_iff_sameStructure hn).mp h
    refine (Node.fits_iff_sameStructure (Node.isText_of_fits h)).mpr ⟨hsig.symm, ?_⟩
    refine Message.sameStructure_symm_of_forall hsame (hd n n.self_mem_postOrder) fun c hc d hf => ?_
    exact ih c hc (fun u hu => hd u (Node.mem_postOrder_of_child hc hu)) d hf

/-- A base with distinct siblings has the structure of every target that has the structure of the base. -/
theorem Message.Distinct.sameStructure_symm {base target : Message} (hd : base.Distinct)
    (h : base.sameStructure target = true) : target.sameStructure base = true :=
  Message.sameStructure_symm_of_forall h hd.1 fun n hn t hf =>
    Node.fits_symm (fun u hu => hd.2 u (Message.mem_postOrder.mpr ⟨n, hn, hu⟩)) t hf

/-- Without distinct siblings the structure goes one way only: both nodes of the base have the same match. -/
example : Message.sameStructure [.voidTag [97], .voidTag [97]] [.voidTag [97], .voidTag [98]] = true ∧
    Message.sameStructure [.voidTag [97], .voidTag [98]] [.voidTag [97], .voidTag [97]] = false := by decide

end Phrasebook
