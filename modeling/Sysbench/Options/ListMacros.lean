import Sysbench.Machinery.CircularList

/-!
# Options/ListMacros — what the macros of `sb_list.h` do to a list, and `free_values`

The options, the values of each, the event queue, the database drivers and their hosts all stand in
lists made of pointer macros.  For the callers such a list is a **sequence** of items: a macro puts
an item in front, puts it behind, takes it out or puts another in its place (`ListOp.onItems`).
Here every run of macros on a head is compared with the same run on the sequence.

A list is taken down by a loop whose body frees the item it stands on (`freeValues`).  What a freed
item holds is anybody's guess, so the loop may not read it any more.
-/

namespace Sysbench.Options

open Links

variable {ν : Type*} [DecidableEq ν]

/-! ## The macros as operations on a sequence -/

/-- The macros that change a list. -/
inductive ListOp (ν : Type*)
  | add (item : ν)
  | addTail (item : ν)
  | delete (old : ν)
  | replace (item old : ν)
  deriving DecidableEq

namespace ListOp

/-- What the macro stores, for the list of this head. -/
def apply (head : ν) (l : Links ν) : ListOp ν → Links ν
  | add item => l.listAdd item head
  | addTail item => l.listAddTail item head
  | delete old => l.listDelete old
  | replace item old => l.listReplace item old

/-- What it means. -/
def onItems (items : List ν) : ListOp ν → List ν
  | add item => item :: items
  | addTail item => items ++ [item]
  | delete old => items.erase old
  | replace item old => items.replace old item

/-- When it may be used: what comes in is not in the list yet, nor the head of it, and what goes is
in the list. -/
def Admits (head : ν) (items : List ν) : ListOp ν → Prop
  | add item => item ∉ head :: items
  | addTail item => item ∉ head :: items
  | delete old => old ∈ items
  | replace item old => item ∉ head :: items ∧ old ∈ items

instance (head : ν) (items : List ν) : (op : ListOp ν) → Decidable (op.Admits head items)
  | add item => inferInstanceAs (Decidable (item ∉ head :: items))
  | addTail item => inferInstanceAs (Decidable (item ∉ head :: items))
  | delete old => inferInstanceAs (Decidable (old ∈ items))
  | replace item old => inferInstanceAs (Decidable (item ∉ head :: items ∧ old ∈ items))

/-- The item that comes in, if any. -/
def incoming : ListOp ν → List ν
  | add item => [item]
  | addTail item => [item]
  | delete _ => []
  | replace item _ => [item]

variable {l : Links ν} {head x y : ν} {items as bs : List ν} {op : ListOp ν}

omit [DecidableEq ν] in
theorem notMem_left_of_nodup (h : (as ++ x :: bs).Nodup) : x ∉ as := fun hmem =>
  (List.nodup_cons.mp (List.nodup_middle.mp h)).1 (List.mem_append_left bs hmem)

theorem onItems_delete (h : (as ++ x :: bs).Nodup) :
    (delete x).onItems (as ++ x :: bs) = as ++ bs := by
  rw [onItems, List.erase_append_right _ (notMem_left_of_nodup h), List.erase_cons_head]

theorem onItems_replace (h : (as ++ x :: bs).Nodup) (item : ν) :
    (replace item x).onItems (as ++ x :: bs) = as ++ item :: bs := by
  rw [onItems, List.replace_append_right (notMem_left_of_nodup h), List.replace_cons_self]

/-- **One macro.** -/
theorem isRing_apply (h : l.IsRing head items) (hop : op.Admits head items) :
    (op.apply head l).IsRing head (op.onItems items) := by
  have hnd : items.Nodup := (List.nodup_cons.mp h.nodup).2
  cases op with
  | add item => exact h.listAdd hop
  | addTail item => exact h.listAddTail hop
  | delete old =>
    obtain ⟨as, bs, rfl⟩ := List.append_of_mem (a := old) hop
    rw [onItems_delete hnd]
    exact h.listDelete
  | replace item old =>
    obtain ⟨hitem, hold⟩ := hop
    obtain ⟨as, bs, rfl⟩ := List.append_of_mem hold
    rw [onItems_replace hnd]
    exact h.listReplace hitem

/-- It stores into the list and the item that comes in, and nowhere else. -/
theorem sameAt_apply (h : l.IsRing head items) (hop : op.Admits head items)
    (hy : y ∉ head :: items) (hin : y ∉ op.incoming) : l.SameAt (op.apply head l) y := by
  cases op with
  | add item => exact h.sameAt_listAdd hop (by simp_all [incoming])
  | addTail item => exact h.sameAt_listAddTail hop (by simp_all [incoming])
  | delete old => exact h.sameAt_listDelete hop hy
  | replace item old => exact h.sameAt_listReplace hop.2 hop.1 (by simp_all [incoming])

theorem notMem_onItems (hy : y ∉ items) (hin : y ∉ op.incoming) : y ∉ op.onItems items := by
  cases op with
  | add item => simp_all [incoming, onItems]
  | addTail item => simp_all [incoming, onItems]
  | delete old => exact fun hmem => hy (List.mem_of_mem_erase hmem)
  | replace item old =>
    induction items with
    | nil => simp [onItems]
    | cons x items ih =>
      simp only [onItems, List.replace_cons]
      split
      · simp_all [incoming]
      · simp_all [onItems]

end ListOp

/-- A run of macros on one list. -/
def runOps (head : ν) (l : Links ν) (ops : List (ListOp ν)) : Links ν :=
  ops.foldl (fun l op => op.apply head l) l

/-- The same run on the sequence. -/
def itemsAfter (items : List ν) (ops : List (ListOp ν)) : List ν :=
  ops.foldl (fun items op => op.onItems items) items

/-- Every macro of the run may be used where it is. -/
def Admissible (head : ν) : List ν → List (ListOp ν) → Prop
  | _, [] => True
  | items, op :: ops => op.Admits head items ∧ Admissible head (op.onItems items) ops

instance (head : ν) : (items : List ν) → (ops : List (ListOp ν)) →
    Decidable (Admissible head items ops)
  | _, [] => inferInstanceAs (Decidable True)
  | items, op :: ops =>
    have : Decidable (Admissible head (op.onItems items) ops) :=
      instDecidableAdmissible head (op.onItems items) ops
    inferInstanceAs (Decidable (op.Admits head items ∧ Admissible head (op.onItems items) ops))

variable {l : Links ν} {head : ν} {items : List ν} {ops : List (ListOp ν)}

/-- **A run of macros.** -/
theorem isRing_runOps (h : l.IsRing head items) (hops : Admissible head items ops) :
    (runOps head l ops).IsRing head (itemsAfter items ops) := by
  induction ops generalizing l items with
  | nil => exact h
  | cons op ops ih => exact ih (ListOp.isRing_apply h hops.1) hops.2

/-- **Other lists stay as they are**, as long as none of their items is moved over. -/
theorem isRing_runOps_other {head' : ν} {items' : List ν} (hother : l.IsRing head' items')
    (h : l.IsRing head items) (hops : Admissible head items ops)
    (hdisj : ∀ y ∈ head' :: items', y ∉ head :: items ∧ ∀ op ∈ ops, y ∉ op.incoming) :
    (runOps head l ops).IsRing head' items' := by
  induction ops generalizing l items with
  | nil => exact hother
  | cons op ops ih =>
    have hnot : ∀ y ∈ head' :: items', y ∉ op.incoming := fun y hy =>
      (hdisj y hy).2 op List.mem_cons_self
    refine ih (hother.congr fun y hy => ?_) (ListOp.isRing_apply h hops.1) hops.2 fun y hy => ?_
    · exact ListOp.sameAt_apply h hops.1 (hdisj y hy).1 (hnot y hy)
    · obtain ⟨hhead, hitems⟩ := List.ne_and_not_mem_of_not_mem_cons (hdisj y hy).1
      refine ⟨?_, fun op' hop' => (hdisj y hy).2 op' (List.mem_cons_of_mem op hop')⟩
      exact List.not_mem_cons_of_ne_of_not_mem hhead (ListOp.notMem_onItems hitems (hnot y hy))

/-! ## What the loops visit -/

/-- A loop body that notes the position. -/
def visit (seen : List ν) (pos : ν) : List ν × Bool := (seen ++ [pos], false)

/-- A loop body, and the position noted. -/
def noting {σ : Type*} (body : σ → ν → σ) (s : σ × List ν) (pos : ν) : σ × List ν :=
  (body s.1 pos, s.2 ++ [pos])

omit [DecidableEq ν] in
theorem foldBreak_visit (seen items : List ν) : foldBreak visit seen items = seen ++ items := by
  induction items generalizing seen with
  | nil => simp [foldBreak]
  | cons x items ih => simp [foldBreak, visit, ih]

omit [DecidableEq ν] in
theorem foldl_noting {σ : Type*} (body : σ → ν → σ) (s : σ) (seen items : List ν) :
    items.foldl (noting body) (s, seen) = (items.foldl body s, seen ++ items) := by
  induction items generalizing s seen with
  | nil => simp
  | cons x items ih => simp [noting, ih]

/-- **The macros implement sequences.**  After every run of them on a head that was initialised, the
next pointers lead from the head through the items of the sequence back to the head, the prev
pointers the other way round, and no item stands there twice.  `SB_LIST_FOR_EACH` visits these
items, and so does `SB_LIST_FOR_EACH_SAFE` with any body that deletes what it visits. -/
theorem listMacros_implement_sequences (l : Links ν) (head : ν) {ops : List (ListOp ν)}
    (hops : Admissible head [] ops) :
    let heap := runOps head (l.listInit head) ops
    let items := itemsAfter [] ops
    (head :: items).Nodup ∧
      List.iterate heap.next head (items.length + 2) = head :: items ++ [head] ∧
      List.iterate heap.prev head (items.length + 2) = head :: items.reverse ++ [head] ∧
      (∀ fuel, items.length < fuel →
        heap.forEach head visit fuel [] (heap.next head) = some items) ∧
      ∀ {σ : Type*} (links : σ → Links ν) (body : σ → ν → σ), DeletesVisited links head body →
        ∀ s, links s = heap → ∀ fuel, items.length < fuel →
          forEachSafe (fun t => links t.1) head (noting body) fuel (s, []) (heap.next head)
              (heap.next (heap.next head)) = some (items.foldl body s, items) := by
  intro heap items
  have hring : heap.IsRing head items := isRing_runOps (isRing_listInit l head) hops
  refine ⟨hring.nodup, hring.iterate_next, hring.iterate_prev, fun fuel hfuel => ?_, ?_⟩
  · rw [hring.forEach_eq hfuel, foldBreak_visit, List.nil_append]
  · intro σ links body hbody s hs fuel hfuel
    have hring' : (links (s, ([] : List ν)).1).IsRing head items := hs ▸ hring
    have hnoting : DeletesVisited (fun t : σ × List ν => links t.1) head (noting body) :=
      fun t x rest ht => hbody t.1 x rest ht
    have hloop := (hnoting.forEachSafe_eq hring' hfuel).1
    rw [foldl_noting, List.nil_append] at hloop
    simpa only [hs] using hloop

/-- Five nodes: item 1 goes in, 2 behind it and 3 in front, 4 takes the place of 1, and 3 goes. -/
theorem listMacros_implement_sequences_five :
    let ops : List (ListOp (Fin 5)) := [.add 1, .addTail 2, .add 3, .replace 4 1, .delete 3]
    let heap := runOps 0 (Links.listInit ⟨id, id⟩ 0) ops
    Admissible 0 [] ops ∧
      List.iterate heap.next 0 4 = [0, 4, 2, 0] ∧ List.iterate heap.prev 0 4 = [0, 2, 4, 0] ∧
      heap.forEach 0 visit 3 [] (heap.next 0) = some [4, 2] ∧
      ∃ emptied, forEachSafe Prod.fst 0 (noting listDelete) 3 (heap, []) (heap.next 0)
        (heap.next (heap.next 0)) = some (emptied, [4, 2]) := by
  intro ops heap
  have hops : Admissible 0 [] ops := by decide
  obtain ⟨-, hnext, hprev, heach, hsafe⟩ := listMacros_implement_sequences ⟨id, id⟩ 0 hops
  exact ⟨hops, hnext, hprev, heach 3 (by decide), _,
    hsafe id listDelete (fun l x rest _ y _ => ⟨rfl, rfl⟩) heap rfl 3 (by decide)⟩

/-! ## `free_values` -/

/-- What `free` is called on: the text of a value, or the `value_t` itself. -/
inductive Block (ν δ : Type*)
  | data (d : δ)
  | value (x : ν)

/-- The heap, as far as the values of an option go.  A `value_t` goes by the name of its
`listitem`; `freed` notes the calls of `free`. -/
structure ValueHeap (ν δ : Type*) where
  links : Links ν
  data : ν → Option δ
  freed : List (Block ν δ)

/-- What a freed `value_t` holds, whatever that is. -/
structure Scrap (ν δ : Type*) extends Links ν where
  data : ν → Option δ

variable {δ : Type*} (scrap : Scrap ν δ)

/-- `free(val)`. -/
def freeItem (h : ValueHeap ν δ) (cur : ν) : ValueHeap ν δ where
  links := (h.links.setNext cur (scrap.next cur)).setPrev cur (scrap.prev cur)
  data := Function.update h.data cur (scrap.data cur)
  freed := h.freed ++ [.value cur]

/-- The body of the loop in `free_values`. -/
def freeValue (h : ValueHeap ν δ) (cur : ν) : ValueHeap ν δ :=
  let h := match h.data cur with
    | none => h
    | some d => { h with freed := h.freed ++ [Block.data d] }
  let h := { h with links := h.links.listDelete cur }
  freeItem scrap h cur

/-- `free_values`. -/
def freeValues (fuel : ℕ) (h : ValueHeap ν δ) : (values : Option ν) → Option (ValueHeap ν δ)
  | none => some h
  | some values =>
    forEachSafe ValueHeap.links values (freeValue scrap) fuel h (h.links.next values)
      (h.links.next (h.links.next values))

/-- What there is to free of a value. -/
def blocks (data : ν → Option δ) (x : ν) : List (Block ν δ) :=
  ((data x).map Block.data).toList ++ [.value x]

variable {scrap}

theorem freeValue_freed (h : ValueHeap ν δ) (cur : ν) :
    (freeValue scrap h cur).freed = h.freed ++ blocks h.data cur := by
  unfold freeValue blocks
  cases h.data cur <;> simp [freeItem]

theorem freeValue_data (h : ValueHeap ν δ) (cur : ν) :
    (freeValue scrap h cur).data = Function.update h.data cur (scrap.data cur) := by
  unfold freeValue
  cases h.data cur <;> rfl

/-- To all other items it does what `SB_LIST_DELETE` does. -/
theorem freeValue_links (h : ValueHeap ν δ) {cur y : ν} (hy : y ≠ cur) :
    (h.links.listDelete cur).SameAt (freeValue scrap h cur).links y := by
  unfold freeValue
  cases h.data cur <;> simp [freeItem, SameAt, setNext, setPrev, hy]

theorem deletesVisited_freeValue (head : ν) :
    DeletesVisited ValueHeap.links head (freeValue scrap) := by
  intro h x rest hring y hy
  exact freeValue_links h (ne_of_mem_of_not_mem hy hring.first_notMem)

/-- **The invariant of the loop**: `rest` are the values still to come in `t`, of the `items` that
were there in `h`. -/
structure FreeInv (head : ν) (items : List ν) (h : ValueHeap ν δ) (rest : List ν)
    (t : ValueHeap ν δ) : Prop where
  ring : t.links.IsRing head rest
  subset : rest ⊆ items
  data : ∀ x ∈ rest, t.data x = h.data x
  freed : t.freed ++ rest.flatMap (blocks h.data) = h.freed ++ items.flatMap (blocks h.data)
  other : ∀ y ∉ head :: items, h.links.SameAt t.links y ∧ t.data y = h.data y

variable {h t : ValueHeap ν δ} {x : ν} {rest : List ν}

omit [DecidableEq ν] in
theorem FreeInv.start (hring : h.links.IsRing head items) : FreeInv head items h items h where
  ring := hring
  subset := List.Subset.refl items
  data _ _ := rfl
  freed := rfl
  other _ _ := ⟨⟨rfl, rfl⟩, rfl⟩

/-- One turn of the loop. -/
theorem FreeInv.freeValue (hinv : FreeInv head items h (x :: rest) t) :
    FreeInv head items h rest (freeValue scrap t x) := by
  have hxr : x ∉ rest := List.not_mem_of_not_mem_cons hinv.ring.first_notMem
  obtain ⟨hxi, hsub⟩ := List.cons_subset.mp hinv.subset
  refine ⟨?_, hsub, fun y hy => ?_, ?_, fun y hy => ?_⟩
  · exact hinv.ring.listDelete_first.congr (deletesVisited_freeValue head t x rest hinv.ring)
  · rw [freeValue_data, Function.update_of_ne (ne_of_mem_of_not_mem hy hxr)]
    exact hinv.data y (List.mem_cons_of_mem x hy)
  · -- the data of this value is still what it was before the loop
    have hblocks : blocks t.data x = blocks h.data x := by
      rw [blocks, blocks, hinv.data x List.mem_cons_self]
    rw [freeValue_freed, hblocks, List.append_assoc, ← List.flatMap_cons]
    exact hinv.freed
  · have hyx : y ≠ x := fun heq => hy (heq ▸ List.mem_cons_of_mem head hxi)
    have hyr : y ∉ head :: x :: rest := fun hmem =>
      hy (List.cons_subset_cons head hinv.subset hmem)
    have hdelete := hinv.ring.sameAt_listDelete List.mem_cons_self hyr
    refine ⟨(hinv.other y hy).1.trans (hdelete.trans (freeValue_links t hyx)), ?_⟩
    rw [freeValue_data, Function.update_of_ne hyx]
    exact (hinv.other y hy).2

/-- **`free_values` frees what is in the list**: every value once, in order, and before it its text
if it has one.  It leaves an empty list, and touches nothing else.  What stands in a freed value
does not matter. -/
theorem freeValues_eq (hring : h.links.IsRing head items) {fuel : ℕ}
    (hfuel : items.length < fuel) :
    ∃ h', freeValues scrap fuel h (some head) = some h' ∧ h'.links.IsRing head [] ∧
      h'.freed = h.freed ++ items.flatMap (blocks h.data) ∧
      ∀ y ∉ head :: items, h.links.SameAt h'.links y ∧ h'.data y = h.data y := by
  have hhead : head ∉ items := hring.head_notMem
  have hnext : ∀ x rest (t : ValueHeap ν δ), FreeInv head items h (x :: rest) t →
      t.links.next x = rest.headD head := fun x rest t hinv => hinv.ring.path.2.next_eq
  have hbody : ∀ x rest t, FreeInv head items h (x :: rest) t →
      FreeInv head items h rest (freeValue scrap t x) := fun x rest t hinv => hinv.freeValue
  obtain ⟨hloop, hinv⟩ := forEachSafe_rule hnext hbody hhead (FreeInv.start hring) hfuel
  refine ⟨_, ?_, hinv.ring, ?_, hinv.other⟩
  · rw [freeValues, hring.path.next_eq]
    exact hloop
  · simpa using hinv.freed

end Sysbench.Options
