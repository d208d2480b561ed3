import Mathlib.Data.Int.CardIntervalMod
import Mathlib.Tactic

/-!
# Machinery/CircularList — an intrusive circular list

Items carry their own two links, and a head item stands for the list.  The operations are pointer
assignments in the order the macros make them; what they mean is said on the **path** of items
between two nodes (`Links.Path`), which a store changes only at the nodes it touches.  A ring is a
path from the head back to itself that meets no node twice.

A ring has no first node of its own: any item may take the place of the head (`isRing_shift`), and
read backwards it is a ring again (`IsRing.mirror`).  So one rule about adding behind the head and
one about deleting what stands there give all the others.

A ring is read in three ways: by a loop from the head back to the head (`Links.forEach`), by one
whose body may delete what it visits (`Links.forEachSafe`), and by a cursor that goes round and
round (`Links.rotate`).
-/

namespace Sysbench

variable {ν : Type*} [DecidableEq ν]

/-- The link fields of all items. -/
structure Links (ν : Type*) where
  next : ν → ν
  prev : ν → ν

namespace Links

/-- `p->next_p = q`. -/
def setNext (l : Links ν) (p q : ν) : Links ν := { l with next := Function.update l.next p q }

/-- `p->prev_p = q`. -/
def setPrev (l : Links ν) (p q : ν) : Links ν := { l with prev := Function.update l.prev p q }

/-- `SB_LIST_INIT`. -/
def listInit (l : Links ν) (head : ν) : Links ν := (l.setNext head head).setPrev head head

/-- `SB_LIST_ADD`. -/
def listAdd (l : Links ν) (item head : ν) : Links ν :=
  let l := l.setNext item (l.next head)
  let l := l.setPrev item head
  let l := l.setNext head item
  l.setPrev (l.next item) item

/-- `SB_LIST_ADD_TAIL`. -/
def listAddTail (l : Links ν) (item head : ν) : Links ν :=
  let l := l.setPrev item (l.prev head)
  let l := l.setNext item head
  let l := l.setPrev head item
  l.setNext (l.prev item) item

/-- `SB_LIST_DELETE`. -/
def listDelete (l : Links ν) (old : ν) : Links ν :=
  let l := l.setPrev (l.next old) (l.prev old)
  l.setNext (l.prev old) (l.next old)

/-- `SB_LIST_REPLACE`. -/
def listReplace (l : Links ν) (item old : ν) : Links ν :=
  let l := l.setNext item (l.next old)
  let l := l.setPrev item (l.prev old)
  let l := l.setPrev (l.next item) item
  l.setNext (l.prev item) item

/-- A list made of these items, one added behind the other. -/
def listOf (l : Links ν) (head : ν) (items : List ν) : Links ν :=
  items.foldl (fun l item => l.listAddTail item head) (l.listInit head)

/-- `SB_LIST_IS_EMPTY`. -/
def isEmpty (l : Links ν) (head : ν) : Bool := l.next head = head

/-- The loop of `SB_LIST_FOR_EACH` from the position `pos`, with what its body does to the local
variables and whether it breaks.  A loop that does not end has no result. -/
def forEach {σ : Type*} (l : Links ν) (head : ν) (body : σ → ν → σ × Bool) :
    (fuel : ℕ) → σ → ν → Option σ
  | 0, _, _ => none
  | fuel + 1, s, pos =>
    if pos = head then some s
    else if (body s pos).2 then some (body s pos).1
    else forEach l head body fuel (body s pos).1 (l.next pos)

/-- The loop of `SB_LIST_FOR_EACH_SAFE`, whose body may change the links: `temp` is read before the
body runs, and that of the next turn after it. -/
def forEachSafe {σ : Type*} (links : σ → Links ν) (head : ν) (body : σ → ν → σ) :
    (fuel : ℕ) → σ → (pos temp : ν) → Option σ
  | 0, _, _, _ => none
  | fuel + 1, s, pos, temp =>
    if pos = head then some s
    else forEachSafe links head body fuel (body s pos) temp ((links (body s pos)).next temp)

/-- A cursor moves on to the next item, and over the head. -/
def rotate (l : Links ν) (head pos : ν) : ν :=
  if l.next pos = head then l.next (l.next pos) else l.next pos

/-- From `a`, the links lead through `items` to `b`, and back. -/
def Path (l : Links ν) : ν → List ν → ν → Prop
  | a, [], b => l.next a = b ∧ l.prev b = a
  | a, x :: items, b => (l.next a = x ∧ l.prev x = a) ∧ Path l x items b

/-- The list of head `head` holds `items`, in this order. -/
structure IsRing (l : Links ν) (head : ν) (items : List ν) : Prop where
  path : l.Path head items head
  nodup : (head :: items).Nodup

/-- The links of this item are the same. -/
def SameAt (l l' : Links ν) (x : ν) : Prop := l'.next x = l.next x ∧ l'.prev x = l.prev x

/-- The links, read backwards. -/
def mirror (l : Links ν) : Links ν := ⟨l.prev, l.next⟩

variable {l l' : Links ν} {a b c x y head item : ν} {items as bs : List ν}

omit [DecidableEq ν] in
theorem SameAt.trans {l'' : Links ν} (h : l.SameAt l' x) (h' : l'.SameAt l'' x) : l.SameAt l'' x :=
  ⟨h'.1.trans h.1, h'.2.trans h.2⟩

omit [DecidableEq ν] in
/-- A path may be cut at any of its items. -/
theorem path_append (as bs : List ν) :
    l.Path a (as ++ x :: bs) b ↔ l.Path a as x ∧ l.Path x bs b := by
  induction as generalizing a with
  | nil => rfl
  | cons y as ih => simp only [List.cons_append, Path, ih, and_assoc]

omit [DecidableEq ν] in
/-- **The frame rule**: a path survives stores to other fields. -/
theorem Path.congr (h : l.Path a items b) (hnext : ∀ y ∈ a :: items, l'.next y = l.next y)
    (hprev : ∀ y ∈ items ++ [b], l'.prev y = l.prev y) : l'.Path a items b := by
  induction items generalizing a with
  | nil => exact ⟨(hnext a (by simp)).trans h.1, (hprev b (by simp)).trans h.2⟩
  | cons x items ih =>
    rw [List.forall_mem_cons] at hnext
    rw [List.cons_append, List.forall_mem_cons] at hprev
    exact ⟨⟨hnext.1.trans h.1.1, hprev.1.trans h.1.2⟩, ih h.2 hnext.2 hprev.2⟩

omit [DecidableEq ν] in
/-- A path whose first link comes from another node. -/
theorem Path.reroute (h : l.Path a items b) (hnext : l'.next c = l.next a)
    (hprev : l'.prev (l.next a) = c) (hitems : ∀ y ∈ items, l'.next y = l.next y)
    (hback : ∀ y ∈ items ++ [b], y ≠ l.next a → l'.prev y = l.prev y)
    (hnd : (items ++ [b]).Nodup) : l'.Path c items b := by
  cases items with
  | nil => exact ⟨hnext.trans h.1, h.1 ▸ hprev⟩
  | cons x items =>
    obtain ⟨⟨rfl, -⟩, hpath⟩ := h
    rw [List.cons_append, List.nodup_cons] at hnd
    refine ⟨⟨hnext, hprev⟩, hpath.congr hitems fun y hy => ?_⟩
    exact hback y (List.mem_cons_of_mem _ hy) (ne_of_mem_of_not_mem hy hnd.1)

omit [DecidableEq ν] in
theorem Path.next_eq (h : l.Path a items b) : l.next a = items.headD b := by
  cases items with
  | nil => exact h.1
  | cons x items => exact h.1.1

omit [DecidableEq ν] in
theorem Path.next_mem (h : l.Path a items b) : l.next a ∈ items ++ [b] := by
  rw [h.next_eq]
  cases items <;> simp

omit [DecidableEq ν] in
theorem path_mirror : l.mirror.Path b items.reverse a ↔ l.Path a items b := by
  induction items generalizing a with
  | nil => exact and_comm
  | cons x items ih =>
    rw [List.reverse_cons, path_append, ih, and_comm]
    exact and_congr_left' and_comm

/-! ## Rings -/

omit [DecidableEq ν] in
/-- A ring survives stores to items that are not on it. -/
theorem IsRing.congr (h : l.IsRing head items)
    (hsame : ∀ y ∈ head :: items, l.SameAt l' y) : l'.IsRing head items where
  path := by
    refine h.path.congr (fun y hy => (hsame y hy).1) fun y hy => (hsame y ?_).2
    exact (List.perm_append_singleton head items).mem_iff.mp hy
  nodup := h.nodup

omit [DecidableEq ν] in
theorem IsRing.mirror (h : l.IsRing head items) : l.mirror.IsRing head items.reverse where
  path := path_mirror.mpr h.path
  nodup := (List.Perm.cons head items.reverse_perm).nodup_iff.mpr h.nodup

omit [DecidableEq ν] in
/-- **Any item may stand for the ring.** -/
theorem isRing_shift (as bs : List ν) :
    l.IsRing head (as ++ x :: bs) ↔ l.IsRing x (bs ++ head :: as) := by
  have hperm : (head :: (as ++ x :: bs)).Perm (x :: (bs ++ head :: as)) :=
    (List.perm_append_comm : (head :: as ++ x :: bs).Perm (x :: bs ++ head :: as))
  constructor <;> intro h
  · exact ⟨(path_append bs as).mpr ((path_append as bs).mp h.path).symm,
      hperm.nodup_iff.mp h.nodup⟩
  · exact ⟨(path_append as bs).mpr ((path_append bs as).mp h.path).symm,
      hperm.nodup_iff.mpr h.nodup⟩

omit [DecidableEq ν] in
theorem IsRing.head_notMem (h : l.IsRing head items) : head ∉ items :=
  (List.nodup_cons.mp h.nodup).1

omit [DecidableEq ν] in
theorem IsRing.first_notMem (h : l.IsRing head (x :: items)) : x ∉ head :: items :=
  (List.nodup_cons.mp ((List.Perm.swap x head items).nodup_iff.mp h.nodup)).1

omit [DecidableEq ν] in
/-- `SB_LIST_ONCE` finds the first item. -/
theorem IsRing.next_head (h : l.IsRing head (x :: items)) : l.next head = x := h.path.1.1

theorem IsRing.isEmpty_eq (h : l.IsRing head items) : l.isEmpty head = items.isEmpty := by
  cases items with
  | nil => simpa [Links.isEmpty] using h.path.1
  | cons x items =>
    have hx : x ≠ head := by rintro rfl; simpa using h.nodup
    simp [Links.isEmpty, h.next_head, hx]

theorem IsRing.next_ne_head (h : l.IsRing head items) (hne : items ≠ []) : l.next head ≠ head := by
  intro heq
  have hempty : l.isEmpty head = true := decide_eq_true heq
  rw [h.isEmpty_eq, List.isEmpty_iff] at hempty
  exact hne hempty

theorem IsRing.next_ne (h : l.IsRing head items) (hx : x ∈ items) : l.next x ≠ x := by
  obtain ⟨as, bs, rfl⟩ := List.append_of_mem hx
  exact ((isRing_shift as bs).mp h).next_ne_head (by simp)

omit [DecidableEq ν] in
/-- The links of a ring stay on it. -/
theorem IsRing.next_mem (h : l.IsRing head items) (hx : x ∈ head :: items) :
    l.next x ∈ head :: items := by
  rcases List.mem_cons.mp hx with rfl | hx
  · exact (List.perm_append_singleton x items).mem_iff.mp h.path.next_mem
  · obtain ⟨as, bs, rfl⟩ := List.append_of_mem hx
    have hmem := ((isRing_shift as bs).mp h).path.next_mem
    simp only [List.mem_cons, List.mem_append, List.not_mem_nil, or_false] at hmem ⊢
    tauto

omit [DecidableEq ν] in
theorem IsRing.prev_mem (h : l.IsRing head items) (hx : x ∈ head :: items) :
    l.prev x ∈ head :: items := by
  have hmem : l.prev x ∈ head :: items.reverse := h.mirror.next_mem (by simpa using hx)
  simpa using hmem

omit [DecidableEq ν] in
theorem notMem_concat (hitem : item ∉ head :: items) : item ∉ items ++ [head] :=
  fun hmem => hitem ((List.perm_append_singleton head items).mem_iff.mp hmem)

omit [DecidableEq ν] in
theorem nodup_concat (hnd : (head :: items).Nodup) : (items ++ [head]).Nodup :=
  (List.perm_append_singleton head items).nodup_iff.mpr hnd

/-! ## The stores of each macro, and what becomes of a ring -/

theorem isRing_listInit (l : Links ν) (head : ν) : (l.listInit head).IsRing head [] where
  path := by simp [Path, listInit, setNext, setPrev]
  nodup := by simp

theorem listAdd_next : (l.listAdd item head).next
    = Function.update (Function.update l.next item (l.next head)) head item := rfl

theorem listAdd_prev (hne : item ≠ head) : (l.listAdd item head).prev
    = Function.update (Function.update l.prev item head) (l.next head) item := by
  simp [Links.listAdd, setNext, setPrev, hne]

/-- **Adding at the head.** -/
theorem IsRing.listAdd (h : l.IsRing head items) (hitem : item ∉ head :: items) :
    (l.listAdd item head).IsRing head (item :: items) := by
  obtain ⟨hne, hitems⟩ := List.ne_and_not_mem_of_not_mem_cons hitem
  have hnot : item ∉ items ++ [head] := notMem_concat hitem
  have hnext : l.next head ≠ item := ne_of_mem_of_not_mem h.path.next_mem hnot
  refine ⟨⟨⟨?_, ?_⟩, h.path.reroute ?_ ?_ (fun y hy => ?_) (fun y hy hy' => ?_)
    (nodup_concat h.nodup)⟩, ?_⟩
  · simp [listAdd_next]
  · simp [listAdd_prev hne, hnext.symm]
  · simp [listAdd_next, hne]
  · simp [listAdd_prev hne]
  · have hyh : y ≠ head := ne_of_mem_of_not_mem hy h.head_notMem
    simp [listAdd_next, hyh, ne_of_mem_of_not_mem hy hitems]
  · simp [listAdd_prev hne, hy', ne_of_mem_of_not_mem hy hnot]
  · exact (List.Perm.swap item head items).nodup_iff.mpr (List.nodup_cons.mpr ⟨hitem, h.nodup⟩)

/-- **Adding at the tail**, which is adding at the head of the mirrored list. -/
theorem IsRing.listAddTail (h : l.IsRing head items) (hitem : item ∉ head :: items) :
    (l.listAddTail item head).IsRing head (items ++ [item]) := by
  have hmirror : item ∉ head :: items.reverse := by simpa using hitem
  rw [← List.reverse_reverse (items ++ [item]), List.reverse_concat]
  exact (h.mirror.listAdd hmirror).mirror

/-- **A list that was filled item by item.** -/
theorem isRing_listOf (h : (head :: items).Nodup) (l : Links ν) :
    (l.listOf head items).IsRing head items := by
  induction items using List.reverseRecOn with
  | nil => exact isRing_listInit l head
  | append_singleton items item ih =>
    rw [← List.cons_append, List.nodup_append'] at h
    have hitem : item ∉ head :: items := fun hmem => h.2.2 hmem (List.mem_singleton_self item)
    rw [listOf, List.foldl_append]
    exact (ih h.1).listAddTail hitem

theorem listDelete_next (hne : l.next x ≠ x) :
    (l.listDelete x).next = Function.update l.next (l.prev x) (l.next x) := by
  simp [listDelete, setNext, setPrev, hne.symm]

theorem listDelete_prev :
    (l.listDelete x).prev = Function.update l.prev (l.next x) (l.prev x) := rfl

/-- **Deleting the first item.** -/
theorem IsRing.listDelete_first (h : l.IsRing head (x :: items)) :
    (l.listDelete x).IsRing head items := by
  have hnd : (head :: items).Nodup := h.nodup.sublist (by simp)
  have hne : l.next x ≠ x := h.next_ne List.mem_cons_self
  obtain ⟨⟨-, hprev⟩, hpath⟩ := h.path
  refine ⟨hpath.reroute ?_ ?_ (fun y hy => ?_) (fun y hy hy' => ?_) (nodup_concat hnd), hnd⟩
  · simp [listDelete_next hne, hprev]
  · simp [listDelete_prev, hprev]
  · have hyh : y ≠ head := ne_of_mem_of_not_mem hy (List.nodup_cons.mp hnd).1
    simp [listDelete_next hne, hprev, hyh]
  · simp [listDelete_prev, hy']

/-- **Deleting any item.** -/
theorem IsRing.listDelete (h : l.IsRing head (as ++ x :: bs)) :
    (l.listDelete x).IsRing head (as ++ bs) := by
  rcases List.eq_nil_or_concat as with rfl | ⟨as, z, rfl⟩
  · exact h.listDelete_first
  · -- seen from the item before it, the deleted one is the first
    simp only [List.concat_eq_append, List.append_assoc, List.singleton_append] at h ⊢
    have hfirst : l.IsRing z (x :: bs ++ head :: as) := (isRing_shift as (x :: bs)).mp h
    exact (isRing_shift as bs).mpr hfirst.listDelete_first

theorem listReplace_next (hne : item ≠ l.next x) : (l.listReplace item x).next
    = Function.update (Function.update l.next item (l.next x)) (l.prev x) item := by
  simp [listReplace, setNext, setPrev, hne]

theorem listReplace_prev : (l.listReplace item x).prev
    = Function.update (Function.update l.prev item (l.prev x)) (l.next x) item := by
  simp [listReplace, setNext, setPrev]

/-- A ring whose head is replaced. -/
theorem IsRing.listReplace_head (h : l.IsRing x items) (hne : items ≠ [])
    (hitem : item ∉ x :: items) : (l.listReplace item x).IsRing item items := by
  have hxi : item ≠ x := List.ne_of_not_mem_cons hitem
  have hi : item ≠ l.next x := (ne_of_mem_of_not_mem h.path.next_mem (notMem_concat hitem)).symm
  have hx : l.next x ≠ x := h.next_ne_head hne
  -- as adding the new item behind the old one and deleting that, but for what the old one holds
  have hdelete : ((l.listAdd item x).listDelete x).IsRing item items := by
    have hadded := (isRing_shift [] items).mp (h.listAdd hitem)
    simpa using hadded.listDelete
  refine hdelete.congr fun y hy => ?_
  have hy' : y ≠ x := ne_of_mem_of_not_mem hy
    (List.not_mem_cons_of_ne_of_not_mem hxi.symm h.head_notMem)
  have hadd : (l.listAdd item x).next x = item := by simp [listAdd_next]
  have hadd' : (l.listAdd item x).prev x = l.prev x := by
    simp [listAdd_prev hxi, hx.symm, hxi.symm]
  rw [SameAt, listReplace_next hi, listReplace_prev, listDelete_next (by rwa [hadd]),
    listDelete_prev, hadd, hadd', listAdd_next, listAdd_prev hxi]
  constructor
  · simp only [Function.update_apply, if_neg hy']
  · rw [Function.update_comm hi.symm, Function.update_idem]

/-- **Replacing an item.** -/
theorem IsRing.listReplace (h : l.IsRing head (as ++ x :: bs))
    (hitem : item ∉ head :: (as ++ x :: bs)) :
    (l.listReplace item x).IsRing head (as ++ item :: bs) := by
  have hring : l.IsRing x (bs ++ head :: as) := (isRing_shift as bs).mp h
  refine (isRing_shift as bs).mpr (hring.listReplace_head (by simp) ?_)
  simp only [List.mem_cons, List.mem_append, not_or] at hitem ⊢
  tauto

/-! ## What the stores leave alone -/

theorem IsRing.sameAt_listAdd (h : l.IsRing head items) (hitem : item ∉ head :: items)
    (hy : y ∉ item :: head :: items) : l.SameAt (l.listAdd item head) y := by
  obtain ⟨hyi, hyr⟩ := List.ne_and_not_mem_of_not_mem_cons hy
  have hyh : y ≠ head := List.ne_of_not_mem_cons hyr
  have hyn : y ≠ l.next head := fun heq => hyr (heq ▸ h.next_mem List.mem_cons_self)
  constructor
  · simp [listAdd_next, hyi, hyh]
  · simp [listAdd_prev (List.ne_of_not_mem_cons hitem), hyi, hyn]

theorem IsRing.sameAt_listAddTail (h : l.IsRing head items) (hitem : item ∉ head :: items)
    (hy : y ∉ item :: head :: items) : l.SameAt (l.listAddTail item head) y :=
  (h.mirror.sameAt_listAdd (by simpa using hitem) (by simpa using hy)).symm

theorem IsRing.sameAt_listDelete (h : l.IsRing head items) (hx : x ∈ items)
    (hy : y ∉ head :: items) : l.SameAt (l.listDelete x) y := by
  have hx' : x ∈ head :: items := List.mem_cons_of_mem head hx
  have hyn : y ≠ l.next x := fun heq => hy (heq ▸ h.next_mem hx')
  have hyp : y ≠ l.prev x := fun heq => hy (heq ▸ h.prev_mem hx')
  constructor
  · simp [listDelete_next (h.next_ne hx), hyp]
  · simp [listDelete_prev, hyn]

theorem IsRing.sameAt_listReplace (h : l.IsRing head items) (hx : x ∈ items)
    (hitem : item ∉ head :: items) (hy : y ∉ item :: head :: items) :
    l.SameAt (l.listReplace item x) y := by
  obtain ⟨hyi, hyr⟩ := List.ne_and_not_mem_of_not_mem_cons hy
  have hx' : x ∈ head :: items := List.mem_cons_of_mem head hx
  have hi : item ≠ l.next x := fun heq => hitem (heq ▸ h.next_mem hx')
  have hyn : y ≠ l.next x := fun heq => hyr (heq ▸ h.next_mem hx')
  have hyp : y ≠ l.prev x := fun heq => hyr (heq ▸ h.prev_mem hx')
  constructor
  · simp [listReplace_next hi, hyi, hyp]
  · simp [listReplace_prev, hyi, hyn]

/-! ## Where the links lead -/

omit [DecidableEq ν] in
/-- The next pointers of a path, followed from its start. -/
theorem Path.iterate_next (h : l.Path a items b) :
    List.iterate l.next a (items.length + 2) = a :: items ++ [b] := by
  induction items generalizing a with
  | nil => simp [List.iterate, h.1]
  | cons x items ih =>
    rw [List.length_cons, List.iterate, h.1.1, ih h.2]
    rfl

omit [DecidableEq ν] in
/-- **A ring is a cycle**: the next pointers lead from the head through the items back to it. -/
theorem IsRing.iterate_next (h : l.IsRing head items) :
    List.iterate l.next head (items.length + 2) = head :: items ++ [head] := h.path.iterate_next

omit [DecidableEq ν] in
/-- …and the prev pointers the other way round. -/
theorem IsRing.iterate_prev (h : l.IsRing head items) :
    List.iterate l.prev head (items.length + 2) = head :: items.reverse ++ [head] := by
  have hback := h.mirror.iterate_next
  rw [List.length_reverse] at hback
  exact hback

omit [DecidableEq ν] in
/-- Where the links of a path lead. -/
theorem Path.next_getElem (h : l.Path a items b) {i : ℕ} (hi : i < (a :: items).length)
    (hi' : i < (items ++ [b]).length) : l.next (a :: items)[i] = (items ++ [b])[i] := by
  induction items generalizing a i with
  | nil =>
    obtain rfl : i = 0 := by simpa using hi
    exact h.1
  | cons x items ih =>
    cases i with
    | zero => exact h.1.1
    | succ i => exact ih h.2 (Nat.lt_of_succ_lt_succ hi) (Nat.lt_of_succ_lt_succ hi')

omit [DecidableEq ν] in
/-- The item behind another one, or the head behind the last. -/
theorem IsRing.next_getElem (h : l.IsRing head items) {i : ℕ} (hi : i < items.length) :
    l.next items[i] = if hlast : i + 1 < items.length then items[i + 1] else head := by
  have hnext := h.path.next_getElem (i := i + 1) (Nat.succ_lt_succ hi)
    (by simpa using hi)
  rw [List.getElem_cons_succ] at hnext
  rw [hnext, List.getElem_append]
  split_ifs with hlast
  · rfl
  · exact List.getElem_singleton _

/-! ## Going through a list -/

/-- A loop with a `break` over the items themselves. -/
def foldBreak {σ α : Type*} (body : σ → α → σ × Bool) : σ → List α → σ
  | s, [] => s
  | s, x :: xs => if (body s x).2 then (body s x).1 else foldBreak body (body s x).1 xs

section ForEach

variable {σ : Type*} {body : σ → ν → σ × Bool}

theorem Path.forEach_eq (h : l.Path a items head) (hhead : head ∉ items) {fuel : ℕ}
    (hfuel : items.length < fuel) (s : σ) :
    l.forEach head body fuel s (l.next a) = some (foldBreak body s items) := by
  induction items generalizing a s fuel with
  | nil =>
    obtain ⟨fuel, rfl⟩ := Nat.exists_eq_succ_of_ne_zero hfuel.ne'
    rw [h.1, forEach, if_pos rfl, foldBreak]
  | cons x items ih =>
    obtain ⟨fuel, rfl⟩ := Nat.exists_eq_succ_of_ne_zero (Nat.ne_zero_of_lt hfuel)
    have hx : x ≠ head := fun hx => hhead (by simp [hx])
    rw [h.1.1, forEach, if_neg hx, foldBreak]
    split_ifs
    · rfl
    · exact ih h.2 (List.not_mem_of_not_mem_cons hhead) (Nat.lt_of_succ_lt_succ hfuel) _

/-- **The loop visits the items in order**, and ends by itself. -/
theorem IsRing.forEach_eq (h : l.IsRing head items) {fuel : ℕ} (hfuel : items.length < fuel)
    (s : σ) : l.forEach head body fuel s (l.next head) = some (foldBreak body s items) :=
  h.path.forEach_eq h.head_notMem hfuel s

/-- A search that notes where it is before it looks: if nothing is found, it has noted the last. -/
theorem foldBreak_search {α : Type*} (p : α → Bool) (items : List α) (s : Option α) :
    foldBreak (fun _ x => (some x, p x)) s items
      = (items.find? p).or (items.getLast?.or s) := by
  induction items generalizing s with
  | nil => rfl
  | cons x items ih =>
    rw [foldBreak, List.find?_cons, List.getLast?_cons]
    cases hx : p x with
    | true => simp
    | false =>
      rw [if_neg (by simp), ih]
      cases items.getLast? <;> simp

end ForEach

section ForEachSafe

variable {σ : Type*} {links : σ → Links ν} {body : σ → ν → σ}

/-- **The loop rule**: an invariant of the items that are still to come, which says where the first
of them leads and which the body keeps for the others. -/
theorem forEachSafe_rule {I : List ν → σ → Prop}
    (hnext : ∀ x rest s, I (x :: rest) s → (links s).next x = rest.headD head)
    (hbody : ∀ x rest s, I (x :: rest) s → I rest (body s x)) (hhead : head ∉ items) {s : σ}
    (hI : I items s) {fuel : ℕ} (hfuel : items.length < fuel) :
    forEachSafe links head body fuel s (items.headD head) ((links s).next (items.headD head))
        = some (items.foldl body s) ∧ I [] (items.foldl body s) := by
  induction items generalizing s fuel with
  | nil =>
    obtain ⟨fuel, rfl⟩ := Nat.exists_eq_succ_of_ne_zero hfuel.ne'
    exact ⟨if_pos rfl, hI⟩
  | cons x items ih =>
    obtain ⟨fuel, rfl⟩ := Nat.exists_eq_succ_of_ne_zero (Nat.ne_zero_of_lt hfuel)
    obtain ⟨hx, hhead⟩ := List.ne_and_not_mem_of_not_mem_cons hhead
    rw [List.headD_cons, hnext x items s hI, forEachSafe, if_neg (Ne.symm hx)]
    exact ih hhead (hbody x items s hI) (Nat.lt_of_succ_lt_succ hfuel)

/-- The body deletes the item it visits: what it leaves of the list it visits is what
`SB_LIST_DELETE` leaves.  What it does to the item itself, and to others, is left open. -/
def DeletesVisited (links : σ → Links ν) (head : ν) (body : σ → ν → σ) : Prop :=
  ∀ s x rest, (links s).IsRing head (x :: rest) → ∀ y ∈ head :: rest,
    ((links s).listDelete x).SameAt (links (body s x)) y

/-- **The loop visits the items in order** when its body deletes them, and leaves the list
empty. -/
theorem DeletesVisited.forEachSafe_eq (hbody : DeletesVisited links head body) {s : σ}
    (h : (links s).IsRing head items) {fuel : ℕ} (hfuel : items.length < fuel) :
    forEachSafe links head body fuel s ((links s).next head) ((links s).next ((links s).next head))
        = some (items.foldl body s) ∧ (links (items.foldl body s)).IsRing head [] := by
  rw [h.path.next_eq]
  refine forEachSafe_rule (I := fun rest s => (links s).IsRing head rest) ?_ ?_ h.head_notMem h
    hfuel
  · intro x rest s hring
    exact hring.path.2.next_eq
  · intro x rest s hring
    exact hring.listDelete_first.congr (hbody s x rest hring)

end ForEachSafe

/-! ## Going round -/

/-- Where a cursor that began on the head stands after `n` moves. -/
def Turn (head : ν) (items : List ν) : ℕ → ν → Prop
  | 0, pos => pos = head
  | n + 1, pos => items[n % items.length]? = some pos

/-- **One move**: the `n`-th, counted from 0, leads to item number `n` modulo the length. -/
theorem IsRing.turn_rotate (h : l.IsRing head items) (hne : items ≠ []) {n : ℕ} {pos : ν}
    (hpos : Turn head items n pos) : Turn head items (n + 1) (l.rotate head pos) := by
  have hlen : 0 < items.length := List.length_pos_iff.mpr hne
  have hhead : head ∉ items := h.head_notMem
  have hfirst : l.next head = items[0] := by
    obtain ⟨x, rest, rfl⟩ := List.exists_cons_of_ne_nil hne
    exact h.next_head
  have hnot : ∀ i (hi : i < items.length), items[i] ≠ head :=
    fun i hi heq => hhead (heq ▸ List.getElem_mem hi)
  cases n with
  | zero =>
    obtain rfl : pos = head := hpos
    rw [Turn, rotate, hfirst, if_neg (hnot 0 hlen), Nat.zero_mod, List.getElem?_eq_getElem hlen]
  | succ n =>
    have hi : n % items.length < items.length := Nat.mod_lt n hlen
    rw [Turn, List.getElem?_eq_getElem hi, Option.some.injEq] at hpos
    rw [Turn, rotate, ← hpos, h.next_getElem hi, ← Nat.mod_add_mod]
    split_ifs with hlast hback hback
    · exact absurd hback (hnot _ hlast)
    · rw [Nat.mod_eq_of_lt hlast, List.getElem?_eq_getElem hlast]
    · -- behind the last item stands the head, and behind the head the first
      have hwrap : n % items.length + 1 = items.length := by omega
      rw [hwrap, Nat.mod_self, hfirst, List.getElem?_eq_getElem hlen]
    · exact absurd rfl hback

/-- How often each item was taken in a number of rounds and a part of one. -/
theorem count_of_getElem?_mod {items taken : List ν} (hnd : items.Nodup)
    (h : ∀ k, k < taken.length → taken[k]? = items[k % items.length]?) {i : ℕ}
    (hi : i < items.length) :
    taken.count items[i] = Nat.count (· ≡ i [MOD items.length]) taken.length := by
  induction taken using List.reverseRecOn with
  | nil => simp
  | append_singleton taken x ih =>
    have hx : items[taken.length % items.length]? = some x := by
      rw [← h taken.length (by simp), List.getElem?_concat_length]
    have hbefore : ∀ k, k < taken.length → taken[k]? = items[k % items.length]? := fun k hk => by
      rw [← h k (by simp; omega), List.getElem?_append_left hk]
    have hlen : taken.length % items.length < items.length := Nat.mod_lt _ (Nat.zero_lt_of_lt hi)
    rw [List.getElem?_eq_getElem hlen, Option.some.injEq] at hx
    rw [List.count_append, ih hbefore, List.length_append, List.length_singleton, Nat.count_succ,
      List.count_singleton, ← hx]
    congr 1
    simp [Nat.ModEq, Nat.mod_eq_of_lt hi, hnd.getElem_inj_iff]

/-- **Going round is fair**: no item was taken more than once more than another. -/
theorem count_le_count_add_one {items taken : List ν} (hnd : items.Nodup)
    (h : ∀ k, k < taken.length → taken[k]? = items[k % items.length]?) {x y : ν} (hx : x ∈ items)
    (hy : y ∈ items) : taken.count x ≤ taken.count y + 1 := by
  obtain ⟨i, hi, rfl⟩ := List.getElem_of_mem hx
  obtain ⟨j, hj, rfl⟩ := List.getElem_of_mem hy
  have hpos : 0 < items.length := Nat.zero_lt_of_lt hi
  rw [count_of_getElem?_mod hnd h hi, count_of_getElem?_mod hnd h hj, Nat.count_modEq_card _ hpos,
    Nat.count_modEq_card _ hpos]
  split_ifs <;> omega

end Links

end Sysbench
