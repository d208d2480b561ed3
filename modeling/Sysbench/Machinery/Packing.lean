import Mathlib.Tactic

/-!
# Machinery/Packing — cutting a list into batches greedily

Items are put into the open batch while they fit behind what it holds; the first one that does not
closes it and opens the next.  An empty batch takes any item.  The batches are the list again,
none of them is empty, and none could have taken the first item of the one after it.
-/

namespace Sysbench

variable {α : Type*} (fits : List α → α → Prop) [∀ b r, Decidable (fits b r)]

/-- The batches of `items`, of which `batch` is already open. -/
def pack (batch : List α) : List α → List (List α)
  | [] => if batch = [] then [] else [batch]
  | r :: items =>
    if batch = [] ∨ fits batch r then pack (batch ++ [r]) items
    else batch :: pack [r] items

variable {fits}

/-- **No item is lost, doubled or moved.** -/
theorem flatten_pack (batch items : List α) : (pack fits batch items).flatten = batch ++ items := by
  induction items generalizing batch with
  | nil => by_cases h : batch = [] <;> simp [pack, h]
  | cons r items ih =>
    rw [pack]
    split_ifs
    · simp [ih]
    · simp [ih]

theorem nil_notMem_pack (batch items : List α) : [] ∉ pack fits batch items := by
  induction items generalizing batch with
  | nil => by_cases h : batch = [] <;> simp [pack, h, Ne.symm]
  | cons r items ih =>
    rw [pack]
    split_ifs with h
    · exact ih _
    · rw [not_or] at h
      exact List.not_mem_cons_of_ne_of_not_mem (Ne.symm h.1) (ih _)

/-- The first batch begins with the item the open one began with. -/
theorem head_pack {r : α} (batch items : List α) :
    ∀ b ∈ (pack fits (r :: batch) items).head?, b.head? = some r := by
  induction items generalizing batch with
  | nil => simp [pack]
  | cons x items ih =>
    rw [pack]
    by_cases h : r :: batch = [] ∨ fits (r :: batch) x
    · rw [if_pos h]
      exact ih _
    · rw [if_neg h]
      simp

/-- **Every batch is maximal**: the first item of the next one did not fit. -/
theorem isChain_pack (batch items : List α) :
    (pack fits batch items).IsChain fun b b' => ∀ r ∈ b'.head?, ¬ fits b r := by
  induction items generalizing batch with
  | nil => by_cases h : batch = [] <;> simp [pack, h]
  | cons x items ih =>
    rw [pack]
    split_ifs with h
    · exact ih _
    · rw [not_or] at h
      refine List.isChain_cons.mpr ⟨fun b hb r hr => ?_, ih _⟩
      obtain rfl : x = r := Option.some.inj ((head_pack [] items b hb).symm.trans hr)
      exact h.2

/-- What holds of a batch of one, and is kept when an item that fits is added, holds of every
batch. -/
theorem forall_mem_pack {P : List α → Prop} {batch items : List α} (hbatch : batch ≠ [] → P batch)
    (hone : ∀ r ∈ items, P [r]) (hadd : ∀ b r, P b → fits b r → P (b ++ [r])) :
    ∀ b ∈ pack fits batch items, P b := by
  induction items generalizing batch with
  | nil => by_cases h : batch = [] <;> simp [pack, h, hbatch]
  | cons x items ih =>
    have hone' : ∀ r ∈ items, P [r] := fun r hr => hone r (List.mem_cons_of_mem x hr)
    rw [pack]
    split_ifs with h
    · refine ih (fun _ => ?_) hone'
      by_cases hb : batch = []
      · simpa [hb] using hone x List.mem_cons_self
      · exact hadd _ _ (hbatch hb) (h.resolve_left hb)
    · rw [not_or] at h
      refine List.forall_mem_cons.mpr ⟨hbatch h.1, ih (fun _ => ?_) hone'⟩
      exact hone x List.mem_cons_self

end Sysbench
