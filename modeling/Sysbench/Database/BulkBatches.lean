import Sysbench.Machinery.Packing
import Sysbench.Database.BulkRep

/-!
# Database/BulkBatches — the INSERTs of a bulk insert that meets no failure

When every query succeeds, the INSERTs sent are the rows packed greedily into batches
(`Machinery/Packing`): the code's buffer is the open batch, its flush closes it.  All that is said
about the texts then comes from the packing.
-/

namespace Sysbench.Database

variable {ρ : Type} {text : ρ → CStr} {q : CStr} {c c' : DbConn ρ}

/-- The texts of the INSERTs among the queries sent. -/
def insertTexts (sent : List (Sent ρ)) : List (List UInt8) :=
  sent.filterMap fun s =>
    match s.query with
    | .insert text _ => some text
    | .commit => none

@[simp] theorem insertTexts_append (l l' : List (Sent ρ)) :
    insertTexts (l ++ l') = insertTexts l ++ insertTexts l' :=
  List.filterMap_append

/-- With a server that refuses nothing, a flush sends the pending rows once and empties the
buffer. -/
theorem dbBulkDoInsert_allOk (h : BulkRep q text c) (hr : c.bulkRows ≠ []) (isLast : Bool) :
    ∃ k sent, dbBulkDoInsert isLast .allOk c
        = .ok (0, bulkReset { c with bulkCommitCnt := k }, sent) ∧
      insertTexts sent = [bulkText q text c.bulkRows] := by
  obtain ⟨hno, -⟩ | ⟨j, k, -, -, hcommit, -⟩ | ⟨j, k, hfirst, -, hdo⟩ :=
    dbBulkDoInsert_cases h hr isLast .allOk
  · exact absurd ⟨0, by omega, rfl⟩ hno
  · cases hcommit
  · refine ⟨k, _, hdo, ?_⟩
    obtain rfl : j = 0 := by
      by_contra hj
      exact absurd (hfirst.2.2 0 (by omega)) (by simp [Replies.allOk])
    split_ifs <;> simp [insertLog, insertTexts, DbConn.insert]

/-- **One row**: it joins the open batch if that is empty or has room, and else closes it. -/
theorem dbBulkInsertNext_allOk (h : BulkRep q text c) {row : ρ} (hrow : RowFits q text [] row) :
    ∃ c' sent, dbBulkInsertNext text row .allOk c = .ok (0, c', sent) ∧ BulkRep q text c' ∧
      if c.bulkRows = [] ∨ RowFits q text c.bulkRows row then
        c'.bulkRows = c.bulkRows ++ [row] ∧ insertTexts sent = []
      else
        c'.bulkRows = [row] ∧ insertTexts sent = [bulkText q text c.bulkRows] := by
  have hlen : (text row).length < 2 ^ 31 := by
    have hfit := rowFits_nil.mp hrow
    have hsize : bulkPacketSize = 524288 := rfl
    omega
  by_cases hfits : RowFits q text c.bulkRows row
  · obtain ⟨c', hnext, hrep, hrows⟩ := dbBulkInsertNext_room h hlen hfits .allOk
    refine ⟨c', [], hnext, hrep, ?_⟩
    rw [if_pos (Or.inr hfits)]
    exact ⟨hrows, rfl⟩
  · have hr : c.bulkRows ≠ [] := fun hr => hfits (hr ▸ hrow)
    obtain ⟨k, sent, hdo, htexts⟩ := dbBulkDoInsert_allOk h hr false
    obtain ⟨c', ha, hrep, hrows⟩ := (h.reset k).bulkAppend_ok hrow
    rw [dbBulkInsertNext, if_pos ((h.bulkFull_iff hlen).mpr hfits),
      if_neg (mt h.cnt_eq_zero.mp hr)]
    refine ⟨c', sent, by simp [hdo, ha, bind, Except.bind], hrep, ?_⟩
    rw [if_neg (not_or.mpr ⟨hr, hfits⟩)]
    exact ⟨hrows, htexts⟩

/-- **The rows of a run**, the last flush included, are sent as the greedy batches. -/
theorem bulkNexts_allOk {rows : List ρ} (hrows : ∀ row ∈ rows, RowFits q text [] row) :
    ∀ {c : DbConn ρ}, BulkRep q text c →
      ∃ c' sent d sent', bulkNexts text (fun _ => .allOk) rows c
          = .ok (List.replicate rows.length 0, c', sent) ∧
        dbBulkInsertDone .allOk c' = .ok (d, sent') ∧ d.bulkBuflen = bulkPacketSize ∧
        insertTexts (sent ++ sent')
          = (pack (RowFits q text) c.bulkRows rows).map (bulkText q text) := by
  induction rows with
  | nil =>
    intro c h
    by_cases hr : c.bulkRows = []
    · exact ⟨c, [], _, [], rfl, dbBulkInsertDone_of (dbBulkDoInsert_empty h hr true _), h.buflen,
        by simp [pack, hr, insertTexts]⟩
    · obtain ⟨k, sent, hdo, htexts⟩ := dbBulkDoInsert_allOk h hr true
      exact ⟨c, [], _, sent, rfl, dbBulkInsertDone_of hdo, h.buflen, by simp [pack, hr, htexts]⟩
  | cons row rows ih =>
    intro c h
    rw [List.forall_mem_cons] at hrows
    obtain ⟨c₁, sent₁, hnext, hrep, hcase⟩ := dbBulkInsertNext_allOk h hrows.1
    obtain ⟨c', sent, d, sent', hnexts, hdone, hbuf, htexts⟩ := ih hrows.2 hrep
    refine ⟨c', sent₁ ++ sent, d, sent', ?_, hdone, hbuf, ?_⟩
    · simp [bulkNexts, hnext, hnexts, bind, Except.bind, List.replicate_succ]
    · rw [List.append_assoc, insertTexts_append, htexts, pack]
      split_ifs at hcase ⊢ with hfits
      · rw [hcase.1, hcase.2, List.nil_append]
      · rw [hcase.1, hcase.2, List.map_cons, List.singleton_append]

/-- The INSERTs of `run` are `q` followed by the rows of `batches`, which cut `rows` into non-empty
consecutive parts as long as the buffer allows. -/
structure SentInBatches (q : CStr) (rows : List CStr) (run : BulkRun CStr)
    (batches : List (List CStr)) : Prop where
  texts : insertTexts run.sent = batches.map (rowsText q)
  flatten : batches.flatten = rows
  nonempty : [] ∉ batches
  fit : ∀ b ∈ batches, (rowsText q b).length + 1 ≤ run.conn.bulkBuflen
  maximal : batches.IsChain fun b b' => ∀ row ∈ b'.head?,
    bulkPacketSize < (rowsText q (b ++ [row])).length + 1
  accepted : rows ≠ [] → ∀ ret ∈ run.rets, ret = 0

/-- **The INSERTs of a bulk insert.**  On a connection whose driver describes itself and with
memory for the buffer, rows that fit behind the prefix are all accepted and sent in maximal
batches, whatever the connection was used for before. -/
theorem bulkRun_batches (c : DbConn CStr) (caps : DrvCaps)
    (hcaps : c.driver.bind DbDriver.describe = some caps) (m : Block bulkPacketSize) (q : CStr)
    (rows : List CStr) (hrows : ∀ row ∈ rows, q.length + row.length + 1 ≤ bulkPacketSize) :
    ∃ run, bulkRun id (fun _ => .allOk) .allOk q (some m) rows c = .ok run ∧
      ∃ batches, SentInBatches q rows run batches := by
  have hfit : ∀ row ∈ rows, RowFits q id [] row := fun row hrow => rowFits_nil.mpr (hrows row hrow)
  by_cases hq : q.length + 1 ≤ bulkPacketSize
  · obtain ⟨c₀, hinit⟩ := dbBulkInsertInit_ok hcaps m hq
    obtain ⟨hrep, hempty⟩ : BulkRep q id c₀ ∧ c₀.bulkRows = [] := bulkRep_of_init hinit
    obtain ⟨c', sent, d, sent', hnexts, hdone, hbuf, htexts⟩ := bulkNexts_allOk hfit hrep
    rw [hempty] at htexts
    refine ⟨⟨0 :: List.replicate rows.length 0, c'.bulkRows, sent ++ sent', d⟩, ?_,
      pack (RowFits q id) [] rows, ?_, flatten_pack [] rows, nil_notMem_pack [] rows, ?_, ?_, ?_⟩
    · simp [bulkRun, hinit, hnexts, hdone, bind, Except.bind]
    · rw [htexts]
      exact List.map_congr_left fun b _ => by simp [bulkText]
    · rw [hbuf]
      refine forall_mem_pack (fun h => (h rfl).elim) (fun row hrow => ?_) fun b row _ h => ?_
      · simpa [RowFits, bulkText] using hfit row hrow
      · simpa [RowFits, bulkText] using h
    · refine (isChain_pack [] rows).imp fun b b' h row hrow => ?_
      simpa [RowFits, bulkText] using h row hrow
    · intro _ ret hret
      exact (List.mem_cons.mp hret).elim id List.eq_of_mem_replicate
  · -- a prefix that leaves no room: then no row was given, and nothing is sent
    obtain rfl : rows = [] := by
      rw [List.eq_nil_iff_forall_not_mem]
      intro row hrow
      have := hrows row hrow
      omega
    refine ⟨⟨[1], [], [], c⟩, ?_, [], rfl, rfl, by simp, by simp, by simp, fun h => (h rfl).elim⟩
    simp [bulkRun, dbBulkInsertInit, hcaps, show bulkPacketSize < q.length + 1 by omega, bind,
      Except.bind]

/-- A prefix of 20 bytes and two rows that do not fit together. -/
theorem bulkRun_batches_twoRows :
    ∃ run, bulkRun id (fun _ => .allOk) .allOk (.replicate 20)
        (some (Block.zero bulkPacketSize))
        [.replicate 300000, .replicate 400000]
        { driver := some ⟨some ⟨true, true⟩⟩ } = .ok run ∧
      ∃ batches, SentInBatches (.replicate 20) [.replicate 300000, .replicate 400000] run batches :=
  bulkRun_batches _ ⟨true, true⟩ rfl _ _ _ (by simp [bulkPacketSize])

end Sysbench.Database
