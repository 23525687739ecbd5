import Mathlib.Data.List.Perm.Subperm
import Mathlib.Data.List.Sort
import EmbeddingSearch.Provider.Api

/-!
# Labels of vectors

A reply labels every vector with the place of its text in the batch. The vectors are put in the
order of these labels and from then on go by their place alone, which comes to the same exactly
when the labels are the numbers from zero on, each once.

## Contents
- `Body.Labelled`: such replies.
- `Body.labels_match_iff`: when the place of a vector is its label.
- `Client.body?`, `Client.embed_eq_ok`: the body behind an answer.
-/

namespace EmbeddingSearch.Api

/-! ## Replies -/

/-- Whether the labels of a body are the numbers from zero on, each once. -/
def Body.Labelled (b : Body) : Prop := (b.data.map Item.index).Perm (List.range b.data.length)

/-- The items of a body in the order of their labels. -/
def Body.sorted (b : Body) : List Item := b.data.mergeSort fun x y => x.index ≤ y.index

theorem Body.sorted_perm (b : Body) : b.sorted.Perm b.data := List.mergeSort_perm _ _

theorem Body.response_embeddings (b : Body) :
    b.response.embeddings = b.sorted.map Item.embedding := rfl

theorem Body.length_embeddings (b : Body) : b.response.embeddings.length = b.data.length := by
  rw [b.response_embeddings, List.length_map, b.sorted_perm.length_eq]

theorem Body.sorted_pairwise (b : Body) : (b.sorted.map Item.index).Pairwise (· ≤ ·) := by
  rw [List.pairwise_map]
  refine (List.pairwise_mergeSort (fun x y z hxy hyz => ?_) (fun x y => ?_) b.data).imp fun h =>
    of_decide_eq_true h
  · exact decide_eq_true ((of_decide_eq_true hxy).trans (of_decide_eq_true hyz))
  · simpa using le_total x.index y.index

/-- A body with the right labels is sorted by them into its places. -/
theorem Body.Labelled.sorted_index {b : Body} (h : b.Labelled) :
    b.sorted.map Item.index = List.range b.data.length := by
  have hperm : (b.sorted.map Item.index).Perm (List.range b.data.length) :=
    (b.sorted_perm.map _).trans h
  exact hperm.eq_of_pairwise (fun x y _ _ hxy hyx => le_antisymm hxy hyx) b.sorted_pairwise
    List.pairwise_le_range

/-- Labels that cover all places are the right ones. -/
theorem Body.labelled_of_cover {b : Body}
    (h : ∀ i < b.data.length, ∃ item ∈ b.data, item.index = i) : b.Labelled := by
  have hsub : List.range b.data.length ⊆ b.data.map Item.index := by
    intro i hi
    obtain ⟨item, hmem, hindex⟩ := h i (List.mem_range.mp hi)
    exact List.mem_map.mpr ⟨item, hmem, hindex⟩
  -- there are as many labels as places, so none is left over
  refine ((List.nodup_range.subperm hsub).perm_of_length_le ?_).symm
  rw [List.length_map, List.length_range]

/-- The vectors of a body are in the places of their labels exactly when the labels are right. -/
theorem Body.labels_match_iff (b : Body) :
    (∀ i (hi : i < b.response.embeddings.length),
      ∃ item ∈ b.data, item.index = i ∧ item.embedding = b.response.embeddings[i]) ↔
      b.Labelled := by
  constructor
  · intro h
    refine Body.labelled_of_cover ?_
    intro i hi
    obtain ⟨item, hmem, hindex, -⟩ := h i (by rwa [b.length_embeddings])
    exact ⟨item, hmem, hindex⟩
  · -- the item in some place of the sorted body has the label of this place
    intro h i hi
    have hsorted : i < b.sorted.length := by
      rwa [b.sorted_perm.length_eq, ← b.length_embeddings]
    refine ⟨b.sorted[i], b.sorted_perm.mem_iff.mp (List.getElem_mem hsorted), ?_, ?_⟩
    · have hindex := h.sorted_index
      have hi' := congrArg (fun l => l[i]?) hindex
      simp only [List.getElem?_map, List.getElem?_eq_getElem hsorted, Option.map_some] at hi'
      rw [List.getElem?_range (by rwa [← b.length_embeddings])] at hi'
      exact Option.some.inj hi'
    · simp only [b.response_embeddings, List.getElem_map]

/-- With the right labels, the vector in some place has the label of this place. -/
theorem Body.Labelled.place {b : Body} (h : b.Labelled) {i : Nat} {x : Embedding}
    (hx : b.response.embeddings[i]? = some x) :
    ∃ item ∈ b.data, item.index = i ∧ item.embedding = x := by
  obtain ⟨hi, hx⟩ := List.getElem?_eq_some_iff.mp hx
  obtain ⟨item, hitem, hindex, hvector⟩ := b.labels_match_iff.mpr h i hi
  exact ⟨item, hitem, hindex, hvector.trans hx⟩

/-- The body of the reply to a batch, if it is a good one, when `n` others were sent before. -/
def Client.body? (c : Client) (transport : Transport) (n : Nat) (r : EmbeddingRequest) :
    Option Body :=
  match c.apiKey with
  | none => none
  | some key =>
    match transport n r.timeoutMs (c.request key r) with
    | .error _ => none
    | .ok reply =>
      if 200 ≤ reply.status ∧ reply.status < 300 then (readBody reply.body).toOption else none

/-- A batch that is not empty is answered from the body of a good reply. -/
theorem Client.embed_eq_ok {c : Client} {transport : Transport} {n : Nat} {r : EmbeddingRequest}
    {e : EmbeddingResponse} (hr : r.texts ≠ []) :
    c.embed transport n r = .ok e ↔ ∃ b, c.body? transport n r = some b ∧ e = b.response := by
  unfold Client.embed Client.body?
  rw [if_neg (by simpa using hr)]
  cases c.apiKey with
  | none => simp
  | some key =>
    dsimp only
    cases transport n r.timeoutMs (c.request key r) with
    | error cause => simp
    | ok reply =>
      dsimp only [interpret]
      by_cases hgood : 200 ≤ reply.status ∧ reply.status < 300
      · have hbusy : reply.status ≠ 429 := by omega
        have hbad : ¬ (reply.status < 200 || reply.status ≥ 300) = true := by
          simp
          omega
        rw [if_neg hbusy, if_neg hbad, if_pos hgood]
        cases readBody reply.body with
        | error cause => simp [Except.toOption]
        | ok b => simp [Except.toOption, eq_comm]
      · rw [if_neg hgood]
        split
        · simp
        · rw [if_pos (by simp; omega)]
          simp

end EmbeddingSearch.Api
